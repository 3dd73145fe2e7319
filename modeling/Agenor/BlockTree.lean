import Mathlib.Data.PNat.Basic
import Agenor.Lib.Ancestry

/-!
The tree of blocks (`main.cpp`, `chain.{h,cpp}`): receiving blocks, choosing the best chain, and
taking blocks out of consideration and back.

Blocks are numbered in the order in which they are added; block 0 is the genesis block and numbers
stand for pointers. The active chain is the line from the genesis block to its tip, so the tip is
all that is kept of it. What validation says of a block is given from outside.
-/

namespace Agenor

open Lib.Ancestry

def BLOCK_VALID_TREE : ℕ := 2
def BLOCK_VALID_TRANSACTIONS : ℕ := 3
def BLOCK_VALID_CHAIN : ℕ := 4
def BLOCK_VALID_SCRIPTS : ℕ := 5

/-- The fields of a `CBlockIndex` that are set when it is added. -/
structure BlockNode where
  pprev : Option ℕ
  pskip : Option ℕ
  nHeight : ℕ
  nChainWork : ℕ
  deriving DecidableEq, Repr

/-- The fields of a `CBlockIndex` that change, with `nStatus` in its parts. -/
structure BlockStatus where
  /-- `nStatus & BLOCK_VALID_MASK`. -/
  validity : ℕ
  /-- `BLOCK_HAVE_DATA`. -/
  haveData : Bool
  /-- `BLOCK_FAILED_VALID`. -/
  failedValid : Bool
  /-- `BLOCK_FAILED_CHILD`. -/
  failedChild : Bool
  nTx : ℕ
  nChainTx : ℕ
  nSequenceId : ℕ
  deriving DecidableEq, Repr

namespace BlockStatus

variable (st : BlockStatus)

/-- `nStatus & BLOCK_FAILED_MASK`. -/
def failed : Bool := st.failedValid || st.failedChild

def isValid (nUpTo : ℕ) : Bool := !st.failed && decide (nUpTo ≤ st.validity)

def raiseValidity (nUpTo : ℕ) : BlockStatus :=
  if st.failed then st else { st with validity := max st.validity nUpTo }

/-- `nStatus &= ~BLOCK_FAILED_MASK`. -/
def clearFailed : BlockStatus := { st with failedValid := false, failedChild := false }

end BlockStatus

/-- The globals of `main.cpp` that hold the tree. -/
structure BlockTree where
  /-- `mapBlockIndex` holds the blocks below this number. -/
  size : ℕ
  node : ℕ → BlockNode
  status : ℕ → BlockStatus
  setBlockIndexCandidates : ℕ → Bool
  mapBlocksUnlinked : List (ℕ × ℕ)
  /-- `chainActive.Tip()`. -/
  tip : ℕ
  nBlockSequenceId : ℕ

/-- What `ConnectTip` comes to. A failure may come after the validity of the block was raised. -/
inductive ConnectResult
  | connected
  /-- `state.IsInvalid()`. -/
  | invalid (corruptionPossible raised : Bool)
  /-- The block could not be connected and nothing was said against it. -/
  | failed (raised : Bool)
  deriving DecidableEq, Repr

/-- Which blocks can be connected and disconnected during a call. -/
structure ChainEnv where
  connects : ℕ → ConnectResult
  disconnects : ℕ → Bool

namespace BlockTree

variable (s : BlockTree)

def pprev (b : ℕ) : Option ℕ := (s.node b).pprev
def nHeight (b : ℕ) : ℕ := (s.node b).nHeight
def nChainWork (b : ℕ) : ℕ := (s.node b).nChainWork

/-- A tree with the genesis block alone, which is connected. -/
def genesis (nChainWork : ℕ) : BlockTree where
  size := 1
  node := fun _ => ⟨none, none, 0, nChainWork⟩
  status := fun _ => ⟨BLOCK_VALID_TRANSACTIONS, true, false, false, 1, 1, 1⟩
  setBlockIndexCandidates := fun b => b == 0
  mapBlocksUnlinked := []
  tip := 0
  nBlockSequenceId := 2

/-- `CBlockIndexWorkComparator`: the first block sorts before the second. -/
def worse (pa pb : ℕ) : Bool :=
  if s.nChainWork pb < s.nChainWork pa then false
  else if s.nChainWork pa < s.nChainWork pb then true
  else if (s.status pa).nSequenceId < (s.status pb).nSequenceId then false
  else if (s.status pb).nSequenceId < (s.status pa).nSequenceId then true
  else if pa < pb then false
  else decide (pb < pa)

/-- `CBlockIndex::GetAncestor`, without the shortcuts that `pskip` allows. -/
def getAncestor (b height : ℕ) : Option ℕ :=
  if s.nHeight b < height then none else climb s.pprev (s.nHeight b - height) b

/-- Whether the first block is the second one or an ancestor of it. -/
def isAncestor (a b : ℕ) : Bool := s.getAncestor b (s.nHeight a) == some a

/-- `chainActive.Contains`. -/
def contains (b : ℕ) : Bool := s.isAncestor b s.tip

/-- `CChain::FindFork`. The source first drops to the height of the active chain, which has no
blocks above that. -/
def findFork : ℕ → ℕ → Option ℕ
  | 0, _ => none
  | n + 1, b => if s.contains b then some b else (s.pprev b).bind (findFork n)

def setStatus (b : ℕ) (f : BlockStatus → BlockStatus) : BlockTree :=
  { s with status := Function.update s.status b (f (s.status b)) }

def insertCandidate (b : ℕ) : BlockTree :=
  { s with setBlockIndexCandidates := Function.update s.setBlockIndexCandidates b true }

def eraseCandidate (b : ℕ) : BlockTree :=
  { s with setBlockIndexCandidates := Function.update s.setBlockIndexCandidates b false }

/-! ### Receiving a block -/

def invertLowestOne (n : ℕ) : ℕ := n &&& (n - 1)

def getSkipHeight (height : ℕ) : ℕ :=
  if height < 2 then 0
  else if height % 2 = 1 then invertLowestOne (invertLowestOne (height - 1)) + 1
  else invertLowestOne height

/-- `AddToBlockIndex`, for a block that is not there yet; `proof` is its `GetBlockProof`. -/
def addToBlockIndex (pprev proof : ℕ) : BlockTree :=
  let nHeight := s.nHeight pprev + 1
  let node : BlockNode :=
    ⟨some pprev, s.getAncestor pprev (getSkipHeight nHeight), nHeight, s.nChainWork pprev + proof⟩
  { s with
    size := s.size + 1
    node := Function.update s.node s.size node
    status := Function.update s.status s.size ⟨BLOCK_VALID_TREE, false, false, false, 0, 0, 0⟩
    setBlockIndexCandidates := Function.update s.setBlockIndexCandidates s.size false }

/-- The transactions up to a block are counted, and the block gets its number in the order of
linking. -/
def setChainTx (b : ℕ) : BlockTree :=
  let nChainTx := ((s.pprev b).map fun p => (s.status p).nChainTx).getD 0 + (s.status b).nTx
  { s.setStatus b fun st => { st with nChainTx, nSequenceId := s.nBlockSequenceId } with
    nBlockSequenceId := s.nBlockSequenceId + 1 }

/-- One pass of the loop of `ReceivedBlockTransactions`: a block whose parents all have their data
is linked. -/
def link (b : ℕ) : BlockTree :=
  if !(s.setChainTx b).worse b s.tip then (s.setChainTx b).insertCandidate b else s.setChainTx b

/-- The loop of `ReceivedBlockTransactions`. Every pass takes one block off the queue and moves
others from `mapBlocksUnlinked` to it. -/
def linkQueue : ℕ → List ℕ → BlockTree → BlockTree
  | _, [], s => s
  | 0, _, s => s
  | n + 1, b :: queue, s =>
    let waiting := (s.mapBlocksUnlinked.filter (·.1 == b)).map (·.2)
    linkQueue n (queue ++ waiting)
      { s.link b with mapBlocksUnlinked := s.mapBlocksUnlinked.filter (·.1 != b) }

/-- The status of a block whose `nTx` transactions come in. -/
def storeData (b nTx : ℕ) : BlockTree := s.setStatus b fun st =>
  { st with nTx, nChainTx := 0, haveData := true }.raiseValidity BLOCK_VALID_TRANSACTIONS

/-- `ReceivedBlockTransactions`, for a block with `nTx` transactions. -/
def receivedBlockTransactions (b nTx : ℕ) : BlockTree :=
  let s := s.storeData b nTx
  match s.pprev b with
  | none => linkQueue (s.mapBlocksUnlinked.length + 1) [b] s
  | some p =>
    if (s.status p).nChainTx ≠ 0 then linkQueue (s.mapBlocksUnlinked.length + 1) [b] s
    else if (s.status p).isValid BLOCK_VALID_TREE then
      { s with mapBlocksUnlinked := (p, b) :: s.mapBlocksUnlinked }
    else s

/-- A block that comes in: one that is new, on a parent, or one whose header is known. The proof of
a block with the target that `CheckWork` asks for is positive. -/
inductive IncomingBlock
  | unknown (pprev : ℕ) (proof : ℕ+)
  | known (b : ℕ)
  deriving DecidableEq, Repr

/-- What the checks of `AcceptBlock` say of a block. `CheckBlock` refuses one without
transactions. -/
inductive AcceptResult
  /-- The header is refused. -/
  | badHeader
  /-- `CheckBlock` or `ContextualCheckBlock` finds the block invalid. -/
  | invalid
  /-- The block is not stored, for some other reason. -/
  | failed
  | accepted (nTx : ℕ+)
  deriving DecidableEq, Repr

/-- `AcceptBlock` once the header is in the index. -/
def acceptData (b : ℕ) (result : AcceptResult) : BlockTree :=
  if (s.status b).haveData then s
  else match result with
    | .badHeader => s
    | .failed => s
    | .invalid => s.setStatus b fun st => { st with failedValid := true }
    | .accepted nTx => s.receivedBlockTransactions b nTx

/-- `AcceptBlock`. A block on a failed parent is refused; when the parent is a checkpoint it is
reconsidered and the best chain activated, which are steps of their own. -/
def acceptBlock (block : IncomingBlock) (result : AcceptResult) : BlockTree :=
  match block with
  | .unknown p proof =>
    if s.size ≤ p then s
    else if (s.status p).failed then s
    else if result = .badHeader then s
    else (s.addToBlockIndex p proof).acceptData s.size result
  | .known b =>
    if s.size ≤ b then s
    else if (s.pprev b).any fun p => (s.status p).failed then s
    else if result = .badHeader then s
    else if (s.status b).failed then s
    else s.acceptData b result

/-! ### Choosing the best chain -/

/-- The line from a block down to the active chain, without it. -/
def offChain : ℕ → ℕ → List ℕ
  | 0, _ => []
  | n + 1, b =>
    if s.contains b then [] else b :: ((s.pprev b).map (offChain n)).getD []

/-- The better one of the candidates up to a block. -/
def pickBetter (best : Option ℕ) (b : ℕ) : Option ℕ :=
  if s.setBlockIndexCandidates b && best.all fun c => s.worse c b then some b else best

/-- `setBlockIndexCandidates.rbegin()`. -/
def bestCandidate : Option ℕ := (List.range s.size).foldl s.pickBetter none

/-- A block that stands between a candidate and the active chain. -/
def isUnusable (b : ℕ) : Bool := (s.status b).failed || !(s.status b).haveData

def markFailedChild (b : ℕ) : BlockTree :=
  s.setStatus b fun st => { st with failedChild := true }

/-- The chain of a candidate is taken out, down to a block that is unusable. -/
def removeChain (line : List ℕ) (pindexTest : ℕ) : BlockTree :=
  let above := line.takeWhile (· != pindexTest)
  let marked :=
    if (s.status pindexTest).failed then above.foldl markFailedChild s
    else { s with mapBlocksUnlinked :=
      above.filterMap (fun b => (s.pprev b).map (·, b)) ++ s.mapBlocksUnlinked }
  (above.foldl eraseCandidate marked).eraseCandidate pindexTest

/-- `FindMostWorkChain`. Every pass takes a candidate out. -/
def findMostWorkChain : ℕ → BlockTree → BlockTree × Option ℕ
  | 0, s => (s, none)
  | n + 1, s =>
    match s.bestCandidate with
    | none => (s, none)
    | some pindexNew =>
      let line := s.offChain (s.nHeight pindexNew + 1) pindexNew
      match line.find? s.isUnusable with
      | none => (s, some pindexNew)
      | some pindexTest => findMostWorkChain n (s.removeChain line pindexTest)

def pruneBlockIndexCandidates : BlockTree :=
  { s with setBlockIndexCandidates := fun b => s.setBlockIndexCandidates b && !s.worse b s.tip }

/-- `DisconnectTip`. The genesis block has no undo data and cannot be disconnected. -/
def disconnectTip (env : ChainEnv) : Option BlockTree :=
  if env.disconnects s.tip then (s.pprev s.tip).map fun p => { s with tip := p } else none

/-- Disconnect blocks until the tip is the given one. -/
def disconnectTo (env : ChainEnv) (fork : ℕ) : ℕ → BlockTree → BlockTree × Bool
  | 0, s => (s, s.tip == fork)
  | n + 1, s =>
    if s.tip = fork then (s, true)
    else match s.disconnectTip env with
      | none => (s, false)
      | some s => disconnectTo env fork n s

/-- The last blocks of the line to a block, the oldest first. -/
def lineTo (n b : ℕ) : List ℕ := line s.pprev n b

/-- `RaiseValidity(BLOCK_VALID_SCRIPTS)` in `ConnectBlock`. -/
def raiseScripts (raised : Bool) (b : ℕ) : BlockTree :=
  if raised then s.setStatus b (·.raiseValidity BLOCK_VALID_SCRIPTS) else s

def invalidBlockFound (corruptionPossible : Bool) (b : ℕ) : BlockTree :=
  if corruptionPossible then s
  else (s.setStatus b fun st => { st with failedValid := true }).eraseCandidate b

/-- The blocks are connected one after the other, until one cannot be or the chain is better than
it was. -/
def connectLine (env : ChainEnv) (oldWork : ℕ) : BlockTree → List ℕ → BlockTree × Bool
  | s, [] => (s, true)
  | s, b :: rest =>
    match env.connects b with
    | .connected =>
      let s := { s.raiseScripts true b with tip := b }.pruneBlockIndexCandidates
      if oldWork < s.nChainWork s.tip then (s, true) else connectLine env oldWork s rest
    | .invalid corruptionPossible raised =>
      ((s.raiseScripts raised b).invalidBlockFound corruptionPossible b, true)
    | .failed raised => (s.raiseScripts raised b, false)

def activateBestChainStep (env : ChainEnv) (pindexMostWork : ℕ) : BlockTree × Bool :=
  let oldWork := s.nChainWork s.tip
  match s.findFork (s.nHeight pindexMostWork + 1) pindexMostWork with
  | none => (s, false)
  | some fork =>
    match s.disconnectTo env fork (s.nHeight s.tip) with
    | (s, false) => (s, false)
    | (s, true) =>
      s.connectLine env oldWork (s.lineTo (s.nHeight pindexMostWork - s.nHeight fork)
        pindexMostWork)

/-- `ActivateBestChain`, with at most that many passes of its loop. -/
def activateBestChain (env : ChainEnv) : ℕ → BlockTree → Option (BlockTree × Bool)
  | 0, _ => none
  | n + 1, s =>
    match s.findMostWorkChain (s.size + 1) with
    | (s, none) => some (s, true)
    | (s, some pindexMostWork) =>
      if pindexMostWork = s.tip then some (s, true)
      else match s.activateBestChainStep env pindexMostWork with
        | (s, false) => some (s, false)
        | (s, true) =>
          if pindexMostWork = s.tip then some (s, true) else activateBestChain env n s

/-! ### Invalidating and reconsidering -/

/-- The loop of `InvalidateBlock` over the blocks of the active chain. -/
def invalidateLoop (env : ChainEnv) (pindex : ℕ) : ℕ → BlockTree → BlockTree × Bool
  | 0, s => (s, !s.contains pindex)
  | n + 1, s =>
    if !s.contains pindex then (s, true)
    else
      let s := (s.markFailedChild s.tip).eraseCandidate s.tip
      match s.disconnectTip env with
      | none => (s, false)
      | some s => invalidateLoop env pindex n s

/-- The blocks that are as good as the tip become candidates. -/
def addCandidates : BlockTree :=
  { s with setBlockIndexCandidates := fun b => s.setBlockIndexCandidates b ||
      (decide (b < s.size) && (s.status b).isValid BLOCK_VALID_TRANSACTIONS &&
        decide ((s.status b).nChainTx ≠ 0) && !s.worse b s.tip) }

def invalidateBlock (env : ChainEnv) (pindex : ℕ) : BlockTree × Bool :=
  let s := (s.setStatus pindex fun st => { st with failedValid := true }).eraseCandidate pindex
  match s.invalidateLoop env pindex (s.nHeight s.tip + 1) with
  | (s, false) => (s, false)
  | (s, true) => (s.addCandidates, true)

/-- The blocks that the first loop of `ReconsiderBlock` clears. -/
def isReconsidered (pindex b : ℕ) : Bool :=
  decide (b < s.size) && !(s.status b).isValid BLOCK_VALID_TRANSACTIONS && s.isAncestor pindex b

def reconsiderBlock (pindex : ℕ) : BlockTree :=
  { s with
    status := fun b =>
      if s.isReconsidered pindex b || s.isAncestor b pindex then (s.status b).clearFailed
      else s.status b
    setBlockIndexCandidates := fun b => s.setBlockIndexCandidates b ||
      (s.isReconsidered pindex b && (s.status b).clearFailed.isValid BLOCK_VALID_TRANSACTIONS &&
        decide ((s.status b).nChainTx ≠ 0) && s.worse s.tip b) }

/-! ### The consistency check -/

/-- The blocks that the multimap `forward` holds under a key. -/
def forward (key : Option ℕ) : List ℕ := (List.range s.size).filter fun b => s.pprev b == key

/-- The asserts of `CheckBlockIndex` on one block. `path` is the line of blocks from the genesis
block to this one, so the first block in it with a property is the oldest. -/
def checkBlock (b : ℕ) : Bool :=
  let path := s.lineTo s.size b
  let nHeight := path.length - 1
  let st := s.status b
  let below (nUpTo : ℕ) : Option ℕ :=
    path.find? fun a => (s.pprev a).isSome && decide ((s.status a).validity < nUpTo)
  let pindexFirstInvalid := path.find? fun a => (s.status a).failedValid
  let pindexFirstMissing := path.find? fun a => !(s.status a).haveData
  let pindexFirstNotTreeValid := below BLOCK_VALID_TREE
  let pindexFirstNotChainValid := below BLOCK_VALID_CHAIN
  let pindexFirstNotScriptsValid := below BLOCK_VALID_SCRIPTS
  let foundInUnlinked := s.mapBlocksUnlinked.any fun e => some e.1 == s.pprev b && e.2 == b
  ((s.pprev b).isSome || b == 0 && s.getAncestor s.tip 0 == some b) &&
  (!st.haveData) == (st.nTx == 0) &&
  decide (BLOCK_VALID_TRANSACTIONS ≤ st.validity) == decide (0 < st.nTx) &&
  (st.nChainTx != 0 || st.nSequenceId == 0) &&
  pindexFirstMissing.isSome == (st.nChainTx == 0) &&
  s.nHeight b == nHeight &&
  ((s.pprev b).all fun p => decide (s.nChainWork p ≤ s.nChainWork b)) &&
  (decide (nHeight < 2) || (s.node b).pskip.any fun k => decide (s.nHeight k < nHeight)) &&
  pindexFirstNotTreeValid.isNone &&
  (decide (st.validity < BLOCK_VALID_CHAIN) || pindexFirstNotChainValid.isNone) &&
  (decide (st.validity < BLOCK_VALID_SCRIPTS) || pindexFirstNotScriptsValid.isNone) &&
  (pindexFirstInvalid.isSome || !st.failed) &&
  (if !s.worse b s.tip && pindexFirstMissing.isNone then
    pindexFirstInvalid.isSome || s.setBlockIndexCandidates b
  else !s.setBlockIndexCandidates b) &&
  (if (s.pprev b).isSome && st.haveData && pindexFirstMissing.isSome then
    pindexFirstInvalid.isSome || foundInUnlinked
  else !foundInUnlinked)

def checkBlockIndex : Bool :=
  match s.forward none with
  | [pindex] =>
    let nodes := visit (fun b => s.forward (some b)) s.size pindex
    nodes.all s.checkBlock && nodes.length == s.size
  | _ => false

end BlockTree

end Agenor
