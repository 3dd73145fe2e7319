import Mathlib.Algebra.BigOperators.Group.Finset.Basic
import Mathlib.Data.Finmap
import Agenor.Lib.Walk
import Agenor.Coins

/-!
The memory pool (`txmempool.{h,cpp}`).

An entry is found by the hash of its transaction, and an iterator to it is that hash. For every
entry the pool keeps the entries it spends from and those that spend from it, `mapLinks`, and how
many entries depend on it, with their size and fees. An assertion that fails is kept in `failed`.
-/

namespace Agenor

open Lib

/-! ### Entries -/

/-- `CTxMemPoolEntry`. The last three fields are about the entry with all its descendants. -/
structure CTxMemPoolEntry where
  tx : CTransaction
  nFee : ℤ
  nTxSize : ℕ
  nUsageSize : ℕ
  nTime : ℤ
  spendsCoinbaseOrCoinstake : Bool
  nCountWithDescendants : ℤ
  nSizeWithDescendants : ℤ
  nFeesWithDescendants : ℤ
  deriving DecidableEq

/-- What the elements of the containers take of memory. -/
structure MemUsage where
  /-- `DynamicMemoryUsage` of a transaction. -/
  tx : CTransaction → ℕ
  /-- An element of a `setEntries`. -/
  setNode : ℕ
  /-- An element of `mapTx`, of `mapNextTx` and of `mapLinks`. -/
  txNode : ℕ
  nextNode : ℕ
  linksNode : ℕ
  /-- All of `mapDeltas`. -/
  deltas : ℕ

namespace CTxMemPoolEntry

def new (mu : MemUsage) (tx : CTransaction) (nFee nTime : ℤ) (spendsCoinbaseOrCoinstake : Bool) :
    CTxMemPoolEntry where
  tx := tx
  nFee := nFee
  nTxSize := tx.serializeSize
  nUsageSize := mu.tx tx
  nTime := nTime
  spendsCoinbaseOrCoinstake := spendsCoinbaseOrCoinstake
  nCountWithDescendants := 1
  nSizeWithDescendants := tx.serializeSize
  nFeesWithDescendants := nFee

def isDirty (e : CTxMemPoolEntry) : Bool := e.nCountWithDescendants == 0

def setDirty (e : CTxMemPoolEntry) : CTxMemPoolEntry :=
  { e with
    nCountWithDescendants := 0
    nSizeWithDescendants := e.nTxSize
    nFeesWithDescendants := e.nFee }

def updateState (e : CTxMemPoolEntry) (modifySize modifyFee modifyCount : ℤ) : CTxMemPoolEntry :=
  if e.isDirty then e
  else { e with
    nSizeWithDescendants := e.nSizeWithDescendants + modifySize
    nFeesWithDescendants := e.nFeesWithDescendants + modifyFee
    nCountWithDescendants := e.nCountWithDescendants + modifyCount }

/-- The assertions of `UpdateState`. -/
def updateStateHolds (e : CTxMemPoolEntry) (modifySize modifyFee modifyCount : ℤ) : Bool :=
  e.isDirty || decide (0 < e.nSizeWithDescendants + modifySize) &&
    decide (0 ≤ e.nFeesWithDescendants + modifyFee) &&
    decide (0 < e.nCountWithDescendants + modifyCount)

end CTxMemPoolEntry

/-! ### The pool -/

/-- `CInPoint`: a transaction and the number of one of its inputs. -/
structure CInPoint where
  ptx : CTransaction
  n : ℕ
  deriving DecidableEq

/-- Hashes are compared as numbers. -/
def hashLe (a b : Uint256) : Prop := a.toNat ≤ b.toNat

instance : DecidableRel hashLe := fun a b => inferInstanceAs (Decidable (a.toNat ≤ b.toNat))

instance : IsTrans Uint256 hashLe := ⟨fun _ _ _ => Nat.le_trans⟩

instance : Std.Antisymm hashLe := ⟨fun _ _ h h' => BitVec.eq_of_toNat_eq (Nat.le_antisymm h h')⟩

instance : Std.Total hashLe := ⟨fun a b => Nat.le_total a.toNat b.toNat⟩

/-- `setEntries`, ordered by hash. -/
abbrev SetEntries := Finset Uint256

/-- The elements in the order in which a loop sees them. -/
def SetEntries.inOrder (s : SetEntries) : List Uint256 := ascending hashLe s

/-- `*s.begin()`. -/
def SetEntries.first (s : SetEntries) : Option Uint256 := (SetEntries.inOrder s).head?

structure TxLinks where
  parents : SetEntries
  children : SetEntries
  deriving DecidableEq

def TxLinks.empty : TxLinks := ⟨∅, ∅⟩

structure CTxMemPool where
  mapTx : Finmap fun _ : Uint256 => CTxMemPoolEntry
  mapNextTx : Finmap fun _ : COutPoint => CInPoint
  mapLinks : Finmap fun _ : Uint256 => TxLinks
  totalTxSize : ℤ
  cachedInnerUsage : ℤ
  failed : Bool

/-- The limits of `CalculateMemPoolAncestors`; `none` stands for the largest number there is. -/
structure AncestorLimits where
  limitAncestorCount : Option ℕ
  limitAncestorSize : Option ℕ
  limitDescendantCount : Option ℕ
  limitDescendantSize : Option ℕ

/-- `nNoLimit` everywhere. -/
def AncestorLimits.nNoLimit : AncestorLimits := ⟨none, none, none, none⟩

/-- Whether a number is over a limit. -/
def exceeds (n : ℤ) (limit : Option ℕ) : Bool := limit.any fun l => decide ((l : ℤ) < n)

@[simp] lemma exceeds_none (n : ℤ) : exceeds n none = false := rfl

/-- `errString`: which limit was hit, and for which transaction. -/
inductive AncestorError
  | tooManyUnconfirmedParents
  | exceedsDescendantSizeLimit (hash : Uint256)
  | tooManyDescendants (hash : Uint256)
  | exceedsAncestorSizeLimit
  | tooManyUnconfirmedAncestors
  deriving DecidableEq, Repr

namespace CTxMemPool

def empty : CTxMemPool := ⟨∅, ∅, ∅, 0, 0, false⟩

variable (mu : MemUsage) (m : CTxMemPool)

/-- `exists`. -/
def has (hash : Uint256) : Bool := decide (hash ∈ m.mapTx)

/-- `mapLinks[it]`, which is empty when it is new. -/
def linksAt (it : Uint256) : TxLinks := (m.mapLinks.lookup it).getD TxLinks.empty

def getMemPoolParents (it : Uint256) : SetEntries := (m.linksAt it).parents

def getMemPoolChildren (it : Uint256) : SetEntries := (m.linksAt it).children

/-- `GetTxSize` of an entry. -/
def txSize (it : Uint256) : ℤ := ((m.mapTx.lookup it).map fun e => (e.nTxSize : ℤ)).getD 0

/-- `GetFee` of an entry. -/
def fee (it : Uint256) : ℤ := ((m.mapTx.lookup it).map (·.nFee)).getD 0

def dynamicMemoryUsage : ℤ :=
  mu.txNode * m.mapTx.keys.card + mu.nextNode * m.mapNextTx.keys.card + mu.deltas +
    mu.linksNode * m.mapLinks.keys.card + m.cachedInnerUsage

/-! ### Single changes -/

/-- `mapTx.modify`. -/
def modify (it : Uint256) (f : CTxMemPoolEntry → CTxMemPoolEntry) : CTxMemPool :=
  match m.mapTx.lookup it with
  | none => m
  | some e => { m with mapTx := m.mapTx.insert it (f e) }

/-- `mapTx.modify` with `update_descendant_state`. -/
def updateDescendantState (modifySize modifyFee modifyCount : ℤ) (it : Uint256) : CTxMemPool :=
  let holds := (m.mapTx.lookup it).all (·.updateStateHolds modifySize modifyFee modifyCount)
  let m := m.modify it fun e => e.updateState modifySize modifyFee modifyCount
  { m with failed := m.failed || !holds }

def setLinks (it : Uint256) (links : TxLinks) : CTxMemPool :=
  { m with mapLinks := m.mapLinks.insert it links }

def updateChild (entry child : Uint256) (add : Bool) : CTxMemPool :=
  let links := m.linksAt entry
  if add && decide (child ∉ links.children) then
    { m.setLinks entry { links with children := insert child links.children } with
      cachedInnerUsage := m.cachedInnerUsage + mu.setNode }
  else if !add && decide (child ∈ links.children) then
    { m.setLinks entry { links with children := links.children.erase child } with
      cachedInnerUsage := m.cachedInnerUsage - mu.setNode }
  else m.setLinks entry links

def updateParent (entry parent : Uint256) (add : Bool) : CTxMemPool :=
  let links := m.linksAt entry
  if add && decide (parent ∉ links.parents) then
    { m.setLinks entry { links with parents := insert parent links.parents } with
      cachedInnerUsage := m.cachedInnerUsage + mu.setNode }
  else if !add && decide (parent ∈ links.parents) then
    { m.setLinks entry { links with parents := links.parents.erase parent } with
      cachedInnerUsage := m.cachedInnerUsage - mu.setNode }
  else m.setLinks entry links

/-! ### Ancestors and descendants -/

/-- The search for the parents of a transaction in its inputs. -/
def searchParents (limit : Option ℕ) (parentHashes : SetEntries) :
    List CTxIn → Except AncestorError SetEntries
  | [] => .ok parentHashes
  | txin :: rest =>
    if m.has txin.prevout.hash then
      let parentHashes := insert txin.prevout.hash parentHashes
      if exceeds (parentHashes.card + 1) limit then .error .tooManyUnconfirmedParents
      else searchParents limit parentHashes rest
    else searchParents limit parentHashes rest

/-- The parents of an ancestor are staged. -/
def stageParents (limit : Option ℕ) (setAncestors parentHashes : SetEntries) :
    List Uint256 → Except AncestorError SetEntries
  | [] => .ok parentHashes
  | phash :: rest =>
    let parentHashes :=
      if phash ∈ setAncestors then parentHashes else insert phash parentHashes
    if exceeds (parentHashes.card + setAncestors.card + 1) limit then
      .error .tooManyUnconfirmedAncestors
    else stageParents limit setAncestors parentHashes rest

/-- The limits for an ancestor: its own descendants, and the size of all ancestors so far. -/
def ancestorFits (limits : AncestorLimits) (nTxSize : ℕ) (stageit : CTxMemPoolEntry)
    (totalSizeWithAncestors : ℤ) : Except AncestorError Unit :=
  if exceeds (stageit.nSizeWithDescendants + nTxSize) limits.limitDescendantSize then
    .error (.exceedsDescendantSizeLimit stageit.tx.hash)
  else if exceeds (stageit.nCountWithDescendants + 1) limits.limitDescendantCount then
    .error (.tooManyDescendants stageit.tx.hash)
  else if exceeds totalSizeWithAncestors limits.limitAncestorSize then
    .error .exceedsAncestorSizeLimit
  else .ok ()

/-- The loop of `CalculateMemPoolAncestors`. Every entry is staged at most once, so that the number
of entries bounds the passes. -/
def ancestorsLoop (limits : AncestorLimits) (nTxSize : ℕ) :
    ℕ → SetEntries → SetEntries → ℤ → Except AncestorError SetEntries
  | 0, _, setAncestors, _ => .ok setAncestors
  | fuel + 1, parentHashes, setAncestors, totalSizeWithAncestors =>
    match SetEntries.first parentHashes with
    | none => .ok setAncestors
    | some stageit => do
      let setAncestors := insert stageit setAncestors
      let totalSizeWithAncestors := totalSizeWithAncestors + m.txSize stageit
      match m.mapTx.lookup stageit with
      | none => pure ()
      | some e => ancestorFits limits nTxSize e totalSizeWithAncestors
      let parentHashes ← stageParents limits.limitAncestorCount setAncestors
        (parentHashes.erase stageit) (SetEntries.inOrder (m.getMemPoolParents stageit))
      ancestorsLoop limits nTxSize fuel parentHashes setAncestors totalSizeWithAncestors

def calculateMemPoolAncestors (entry : CTxMemPoolEntry) (limits : AncestorLimits)
    (fSearchForParents : Bool) : Except AncestorError SetEntries := do
  let parentHashes ←
    if fSearchForParents then m.searchParents limits.limitAncestorCount ∅ entry.tx.vin
    else .ok (m.getMemPoolParents entry.tx.hash)
  m.ancestorsLoop limits entry.nTxSize m.mapTx.keys.card parentHashes ∅ entry.nTxSize

/-- The loop of `CalculateDescendants`. -/
def descendantsLoop : ℕ → SetEntries → SetEntries → SetEntries
  | 0, _, setDescendants => setDescendants
  | fuel + 1, stage, setDescendants =>
    match SetEntries.first stage with
    | none => setDescendants
    | some it =>
      let setDescendants := insert it setDescendants
      descendantsLoop fuel (stage.erase it ∪ m.getMemPoolChildren it \ setDescendants)
        setDescendants

def calculateDescendants (entryit : Uint256) (setDescendants : SetEntries) : SetEntries :=
  m.descendantsLoop m.mapTx.keys.card (if entryit ∈ setDescendants then ∅ else {entryit})
    setDescendants

/-- `CalculateDescendants` for some entries, one after the other. -/
def calculateAllDescendants (its : SetEntries) : SetEntries :=
  (SetEntries.inOrder its).foldl (fun stage it => m.calculateDescendants it stage) ∅

/-! ### Adding and removing -/

def updateAncestorsOf (add : Bool) (it : Uint256) (setAncestors : SetEntries) : CTxMemPool :=
  let updateCount : ℤ := if add then 1 else -1
  let updateSize := updateCount * m.txSize it
  let updateFee := updateCount * m.fee it
  let m := (SetEntries.inOrder (m.getMemPoolParents it)).foldl
    (fun m piter => m.updateChild mu piter it add) m
  (SetEntries.inOrder setAncestors).foldl
    (fun m => m.updateDescendantState updateSize updateFee updateCount) m

def updateChildrenForRemoval (it : Uint256) : CTxMemPool :=
  (SetEntries.inOrder (m.getMemPoolChildren it)).foldl
    (fun m updateIt => m.updateParent mu updateIt it false) m

/-- One pass of the first loop of `UpdateForRemoveFromMempool`. -/
def updateAncestorsForRemoval (removeIt : Uint256) : CTxMemPool :=
  match m.mapTx.lookup removeIt with
  | none => m
  | some entry =>
    match m.calculateMemPoolAncestors entry .nNoLimit false with
    | .error _ => m
    | .ok setAncestors => m.updateAncestorsOf mu false removeIt setAncestors

def updateForRemoveFromMempool (entriesToRemove : SetEntries) : CTxMemPool :=
  let l := SetEntries.inOrder entriesToRemove
  let m := l.foldl (fun m removeIt => m.updateAncestorsForRemoval mu removeIt) m
  l.foldl (fun m removeIt => m.updateChildrenForRemoval mu removeIt) m

/-- `mapNextTx[tx.vin[i].prevout] = CInPoint(&tx, i)`. -/
def setNextTx (tx : CTransaction) : CTxMemPool :=
  { m with
    mapNextTx := tx.vin.zipIdx.foldl (fun s p => s.insert p.1.prevout ⟨tx, p.2⟩) m.mapNextTx }

/-- The insertions into `mapTx` and `mapLinks`, which keep what is there. -/
def insertEntry (entry : CTxMemPoolEntry) : CTxMemPool :=
  let hash := entry.tx.hash
  { m with
    mapTx := if m.has hash then m.mapTx else m.mapTx.insert hash entry
    mapLinks := if hash ∈ m.mapLinks then m.mapLinks else m.mapLinks.insert hash TxLinks.empty
    cachedInnerUsage := m.cachedInnerUsage + entry.nUsageSize }

/-- `addUnchecked` with the ancestors that were found before. -/
def addUncheckedWith (entry : CTxMemPoolEntry) (setAncestors : SetEntries) : CTxMemPool :=
  let tx := entry.tx
  let hash := tx.hash
  let m := m.insertEntry entry
  let setParentTransactions : SetEntries :=
    if tx.hasZerocoinSpendInputs then ∅ else (tx.vin.map (·.prevout.hash)).toFinset
  let m := if tx.hasZerocoinSpendInputs then m else m.setNextTx tx
  let m := (SetEntries.inOrder setParentTransactions).foldl
    (fun m phash => if m.has phash then m.updateParent mu hash phash true else m) m
  let m := m.updateAncestorsOf mu true hash setAncestors
  { m with totalTxSize := m.totalTxSize + entry.nTxSize }

def addUnchecked (entry : CTxMemPoolEntry) : CTxMemPool :=
  match m.calculateMemPoolAncestors entry .nNoLimit true with
  | .error _ => m
  | .ok setAncestors => m.addUncheckedWith mu entry setAncestors

def removeUnchecked (it : Uint256) : CTxMemPool :=
  match m.mapTx.lookup it with
  | none => m
  | some e =>
    let links := m.linksAt it
    { m with
      mapNextTx := e.tx.vin.foldl (fun s txin => s.erase txin.prevout) m.mapNextTx
      totalTxSize := m.totalTxSize - e.nTxSize
      cachedInnerUsage := m.cachedInnerUsage - e.nUsageSize -
        mu.setNode * (links.parents.card + links.children.card)
      mapLinks := m.mapLinks.erase it
      mapTx := m.mapTx.erase it }

def removeStaged (stage : SetEntries) : CTxMemPool :=
  (SetEntries.inOrder stage).foldl (fun m it => m.removeUnchecked mu it)
    (m.updateForRemoveFromMempool mu stage)

/-! ### Removal by transaction, time and size -/

/-- The entries that spend an output of a transaction, by `mapNextTx`. -/
def spenders (tx : CTransaction) : SetEntries :=
  ((List.range tx.vout.length).filterMap fun i =>
    (m.mapNextTx.lookup ⟨tx.hash, i⟩).map (·.ptx.hash)).toFinset

def remove (origTx : CTransaction) (fRecursive : Bool) : CTxMemPool :=
  let txToRemove : SetEntries :=
    if m.has origTx.hash then {origTx.hash}
    else if fRecursive then m.spenders origTx
    else ∅
  let m := { m with failed := m.failed || !decide (txToRemove ⊆ m.mapTx.keys) }
  m.removeStaged mu (if fRecursive then m.calculateAllDescendants txToRemove else txToRemove)

/-- `CTransaction::operator!=` compares hashes. -/
def removeConflicts (tx : CTransaction) : CTxMemPool :=
  tx.vin.foldl (fun m txin =>
    match m.mapNextTx.lookup txin.prevout with
    | none => m
    | some it => if it.ptx.hash ≠ tx.hash then m.remove mu it.ptx true else m) m

def removeForBlock (vtx : List CTransaction) : CTxMemPool :=
  vtx.foldl (fun m tx => (m.remove mu tx false).removeConflicts mu tx) m

/-- What `removeForReorg` asks of the chain. -/
structure ReorgEnv where
  /-- `CheckFinalTx`. -/
  checkFinalTx : CTransaction → Bool
  /-- `pcoins->AccessCoin`. -/
  accessCoin : COutPoint → Coin
  nMemPoolHeight : ℤ
  nCoinbaseMaturity : ℤ
  /-- The order of `mapTx`, which is that of a salted hash. -/
  order : List Uint256

/-- Whether `removeForReorg` wants an entry to go. -/
def failsReorg (env : ReorgEnv) (e : CTxMemPoolEntry) : Bool :=
  !env.checkFinalTx e.tx || e.spendsCoinbaseOrCoinstake && e.tx.vin.any fun txin =>
    !m.has txin.prevout.hash &&
      let coin := env.accessCoin txin.prevout
      coin.isSpent || (coin.fCoinBase || coin.fCoinStake) &&
        decide (env.nMemPoolHeight - coin.nHeight < env.nCoinbaseMaturity)

def removeForReorg (env : ReorgEnv) : CTxMemPool :=
  let transactionsToRemove := (env.order.filterMap fun it => m.mapTx.lookup it).filter
    (m.failsReorg env)
  transactionsToRemove.foldl (fun m e => m.remove mu e.tx true) m

def expire (time : ℤ) : CTxMemPool :=
  let toremove := m.mapTx.keys.filter fun it => (m.mapTx.lookup it).any (·.nTime < time)
  m.removeStaged mu (m.calculateAllDescendants toremove)

/-- The loop of `TrimToSize`. The next entry to go, `worst`, is the first by fee rate. -/
def trimLoop (worst : CTxMemPool → Option Uint256) (sizelimit : ℕ) : ℕ → CTxMemPool → CTxMemPool
  | 0, m => m
  | fuel + 1, m =>
    if m.dynamicMemoryUsage mu ≤ sizelimit then m
    else match worst m with
      | none => m
      | some it => trimLoop worst sizelimit fuel
          (if m.has it then m.removeStaged mu (m.calculateDescendants it ∅) else m)

/-- `TrimToSize`. Every pass removes an entry. -/
def trimToSize (worst : CTxMemPool → Option Uint256) (sizelimit : ℕ) : CTxMemPool :=
  trimLoop mu worst sizelimit m.mapTx.keys.card m

/-! ### After a block was disconnected -/

abbrev CacheMap := Uint256 → Option SetEntries

/-- What the loop of `UpdateForDescendants` carries. -/
structure Visit where
  nChildrenToVisit : ℕ
  stageEntries : SetEntries
  setAllDescendants : SetEntries

def visitCached (setExclude : SetEntries) (v : Visit) (cacheEntry : Uint256) : Visit :=
  if cacheEntry ∈ v.setAllDescendants then v
  else { v with
    setAllDescendants := insert cacheEntry v.setAllDescendants
    nChildrenToVisit :=
      if cacheEntry ∉ setExclude ∧ cacheEntry ∉ v.stageEntries then v.nChildrenToVisit + 1
      else v.nChildrenToVisit }

def visitChild (cachedDescendants : CacheMap) (setExclude : SetEntries) (v : Visit)
    (childEntry : Uint256) : Visit :=
  match cachedDescendants childEntry with
  | some cached => (SetEntries.inOrder cached).foldl (visitCached setExclude) v
  | none =>
    if childEntry ∈ v.setAllDescendants ∨ childEntry ∈ v.stageEntries then v
    else { v with
      stageEntries := insert childEntry v.stageEntries
      nChildrenToVisit :=
        if childEntry ∉ setExclude then v.nChildrenToVisit + 1 else v.nChildrenToVisit }

/-- The children of a visited entry; `none` when there are too many to visit. -/
def visitChildren (maxDescendantsToVisit : ℕ) (cachedDescendants : CacheMap)
    (setExclude : SetEntries) (v : Visit) : List Uint256 → Option Visit
  | [] => some v
  | childEntry :: rest =>
    let v := visitChild cachedDescendants setExclude v childEntry
    if maxDescendantsToVisit < v.nChildrenToVisit then none
    else visitChildren maxDescendantsToVisit cachedDescendants setExclude v rest

/-- The loop of `UpdateForDescendants`; `none` when it gives up. -/
def visitLoop (maxDescendantsToVisit : ℕ) (cachedDescendants : CacheMap)
    (setExclude : SetEntries) : ℕ → Visit → Option SetEntries
  | 0, v => some v.setAllDescendants
  | fuel + 1, v =>
    match SetEntries.first v.stageEntries with
    | none => some v.setAllDescendants
    | some cit =>
      if (m.mapTx.lookup cit).any (·.isDirty) then none
      else
        let v := { v with
          setAllDescendants := insert cit v.setAllDescendants
          stageEntries := v.stageEntries.erase cit }
        match visitChildren maxDescendantsToVisit cachedDescendants setExclude v
            (SetEntries.inOrder (m.getMemPoolChildren cit)) with
        | none => none
        | some v => visitLoop maxDescendantsToVisit cachedDescendants setExclude fuel v

/-- `UpdateForDescendants`; `none` when it gives up. -/
def updateForDescendants (updateIt : Uint256) (maxDescendantsToVisit : ℕ)
    (cachedDescendants : CacheMap) (setExclude : SetEntries) : Option (CTxMemPool × CacheMap) :=
  let start : Visit := ⟨0, m.getMemPoolChildren updateIt, ∅⟩
  match m.visitLoop maxDescendantsToVisit cachedDescendants setExclude m.mapTx.keys.card start with
  | none => none
  | some setAllDescendants =>
    let counted := setAllDescendants \ setExclude
    let m := m.updateDescendantState (∑ cit ∈ counted, m.txSize cit) (∑ cit ∈ counted, m.fee cit)
      counted.card updateIt
    let cached := (cachedDescendants updateIt).getD ∅ ∪ counted
    some (m, if counted = ∅ then cachedDescendants
      else Function.update cachedDescendants updateIt (some cached))

/-- The entries that spend from a transaction, in the order of `mapNextTx`. -/
def nextOf (hash : Uint256) : List Uint256 :=
  (ascending (· ≤ ·) ((m.mapNextTx.keys.filter (·.hash = hash)).image (·.n))).filterMap
    fun n => (m.mapNextTx.lookup ⟨hash, n⟩).map (·.ptx.hash)

/-- A child that `UpdateTransactionsFromBlock` finds; the second part of the state is
`setChildren`. -/
def linkChild (setAlreadyIncluded : SetEntries) (it : Uint256) (s : CTxMemPool × SetEntries)
    (childHash : Uint256) : CTxMemPool × SetEntries :=
  let m := { s.1 with failed := s.1.failed || !s.1.has childHash }
  if childHash ∈ s.2 then (m, s.2)
  else if childHash ∈ setAlreadyIncluded then (m, insert childHash s.2)
  else ((m.updateChild mu it childHash true).updateParent mu childHash it true,
    insert childHash s.2)

/-- The limit that `UpdateTransactionsFromBlock` gives. -/
def MAX_DESCENDANTS_TO_VISIT : ℕ := 100

/-- One pass of `UpdateTransactionsFromBlock`. -/
def updateTransactionFromBlock (setAlreadyIncluded : SetEntries) (s : CTxMemPool × CacheMap)
    (hash : Uint256) : CTxMemPool × CacheMap :=
  if s.1.has hash then
    let m := ((s.1.nextOf hash).foldl (linkChild mu setAlreadyIncluded hash) (s.1, ∅)).1
    match m.updateForDescendants hash MAX_DESCENDANTS_TO_VISIT s.2 setAlreadyIncluded with
    | some r => r
    | none => (m.modify hash (·.setDirty), s.2)
  else s

def updateTransactionsFromBlock (vHashesToUpdate : List Uint256) : CTxMemPool :=
  (vHashesToUpdate.reverse.foldl
    (updateTransactionFromBlock mu vHashesToUpdate.toFinset) (m, fun _ => none)).1

end CTxMemPool

end Agenor
