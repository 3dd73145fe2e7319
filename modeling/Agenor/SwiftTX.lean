import Agenor.Node
import Agenor.Lib.Patch
import Mathlib.Data.List.AList

/-!
Instant transactions (`swifttx.{h,cpp}`): lock requests, the votes of the masternodes on them and
the inputs that are locked.

The six global maps are one state, `SwiftTX`. The two that the source walks through are
association lists, the others are functions. Every handler gets what it reads from the rest of the
node as a `SwiftEnv`, which may be another one at every call.
-/

namespace Agenor

open Lib.Wrap Lib.Patch

def SWIFTTX_SIGNATURES_REQUIRED : ℤ := 6
def SWIFTTX_SIGNATURES_TOTAL : ℤ := 10

/-- `CConsensusVote`: the vote of a masternode for locking a transaction. -/
structure CConsensusVote where
  vinMasternode : CTxIn
  txHash : Uint256
  nBlockHeight : ℤ
  vchSig : List UInt8
  nMessVersion : ℤ
  deriving DecidableEq, Repr

/-- `CConsensusVote::GetHash`: a sum, not a hash. -/
def CConsensusVote.getHash (ctx : CConsensusVote) : Uint256 :=
  ctx.vinMasternode.prevout.hash + BitVec.ofNat 256 ctx.vinMasternode.prevout.n + ctx.txHash

structure CTransactionLock where
  nBlockHeight : ℤ
  txHash : Uint256
  vecConsensusVotes : List CConsensusVote
  nExpiration : ℤ
  nTimeout : ℤ
  deriving DecidableEq, Repr

namespace CTransactionLock

def addSignature (lock : CTransactionLock) (cv : CConsensusVote) : CTransactionLock :=
  { lock with vecConsensusVotes := lock.vecConsensusVotes ++ [cv] }

/-- The votes that `CountSignatures` counts: those for the height of the lock. -/
def counted (lock : CTransactionLock) : List CConsensusVote :=
  lock.vecConsensusVotes.filter fun v => v.nBlockHeight == lock.nBlockHeight

def countSignatures (lock : CTransactionLock) : ℤ :=
  if lock.nBlockHeight = 0 then -1 else lock.counted.length

/-- Enough signatures have been counted. -/
def isComplete (lock : CTransactionLock) : Bool :=
  decide (SWIFTTX_SIGNATURES_REQUIRED ≤ lock.countSignatures)

end CTransactionLock

/-- The globals of `swifttx.cpp`. -/
structure SwiftTX where
  mapTxLockReq : Uint256 → Option CTransaction
  mapTxLockReqRejected : Uint256 → Option CTransaction
  mapTxLockVote : Uint256 → Option CConsensusVote
  mapTxLocks : AList fun _ : Uint256 => CTransactionLock
  mapLockedInputs : COutPoint → Option Uint256
  mapUnknownVotes : AList fun _ : Uint256 => ℤ

/-- A node that has just been started. -/
def SwiftTX.initial : SwiftTX := ⟨fun _ => none, fun _ => none, fun _ => none, ∅, fun _ => none, ∅⟩

/-- What the handlers read from the rest of the node. -/
structure SwiftEnv where
  /-- `GetTime()`. -/
  getTime : ℤ
  fLiteMode : Bool
  fMasterNode : Bool
  /-- `activeMasternode.vin`. -/
  activeMasternode : Option CTxIn
  /-- `SPORK_2_SWIFTTX` is active. -/
  isSwiftTXActive : Bool
  /-- The value of `SPORK_5_MAX_VALUE`. -/
  maxValue : ℤ
  isBlockchainSynced : Bool
  /-- `chainActive.Tip()` is not null. -/
  hasTip : Bool
  /-- `chainActive.Height()`. -/
  height : ℤ
  /-- `pcoinsTip->GetCoinDepthAtHeight`. -/
  getCoinDepthAtHeight : COutPoint → ℤ → ℤ
  getTransaction : Uint256 → Option (CTransaction × Uint256)
  /-- The lock time, which a `CTransaction` of the model does not hold. -/
  nLockTime : CTransaction → ℕ
  /-- The checks of `AcceptToMemoryPool` other than the one for locked inputs. -/
  poolAccepts : CTransaction → Bool
  /-- `mnodeman.GetMasternodeRank` for `MIN_SWIFTTX_PROTO_VERSION`; `-1` when there is none. -/
  getMasternodeRank : CTxIn → ℤ → ℤ
  /-- `CheckSignature`, with the key that the masternode list has for the voter. -/
  checkSignature : CConsensusVote → Bool

/-- The messages of instant transactions. -/
inductive SwiftMsg
  | ix (tx : CTransaction)
  | txlvote (ctx : CConsensusVote)
  deriving DecidableEq, Repr

/-- `CTransaction()`, which `operator[]` puts at a missing key. -/
def emptyTransaction : CTransaction := ⟨0, [], []⟩

def isIXTXValid (env : SwiftEnv) (txCollateral : CTransaction) : Bool :=
  if txCollateral.vout.length < 1 then false
  else if env.nLockTime txCollateral ≠ 0 then false
  else
    let nValueOut := txCollateral.vout.foldl (fun a o => int64 (a + o.nValue)) 0
    let known := txCollateral.vin.map fun i =>
      (env.getTransaction i.prevout.hash).map fun tx2 => tx2.1.vout[i.prevout.n]?
    -- an output that is out of range is passed over, a transaction that is not found is missed
    let nValueIn := known.foldl (fun a o =>
      match o.join with
      | some out => int64 (a + out.nValue)
      | none => a) 0
    let missingTx := known.any (·.isNone)
    if int64 (env.maxValue * COIN) < nValueOut then false
    else if missingTx then true
    else decide (1000000 ≤ int64 (nValueIn - nValueOut))

/-- The scripts that an instant transaction may pay to. -/
def isLockable (tx : CTransaction) : Bool :=
  tx.vout.all fun o =>
    Script.isNormalPaymentScript o.scriptPubKey || Script.isUnspendable o.scriptPubKey

/-- The loop of `CreateNewLock` over the inputs, from the last to the first: the depth of the last
input looked at, and nothing when one is not deep enough. -/
def txAge (env : SwiftEnv) : ℤ → List CTxIn → Option ℤ
  | nTxAge, [] => some nTxAge
  | _, i :: rest =>
    let nTxAge := env.getCoinDepthAtHeight i.prevout env.height
    if nTxAge < 5 then none else txAge env nTxAge rest

namespace SwiftTX

variable (env : SwiftEnv) (s : SwiftTX)

/-- A new entry of `mapTxLocks`. -/
def newLock (nBlockHeight : ℤ) (txHash : Uint256) : CTransactionLock where
  nBlockHeight := nBlockHeight
  txHash := txHash
  vecConsensusVotes := []
  nExpiration := int32 (env.getTime + 60 * 60)
  nTimeout := int32 (env.getTime + 60 * 5)

/-- The lock of a transaction, or a new one with that height. -/
def lockOf (nBlockHeight : ℤ) (txHash : Uint256) : CTransactionLock :=
  (s.mapTxLocks.lookup txHash).getD (newLock env nBlockHeight txHash)

/-- The state with another lock under a key. -/
def setLock (txHash : Uint256) (lock : CTransactionLock) : SwiftTX :=
  { s with mapTxLocks := s.mapTxLocks.insert txHash lock }

/-- `CreateNewLock`: the height of the lock, zero when an input is too new. -/
def createNewLock (tx : CTransaction) : ℤ × SwiftTX :=
  match txAge env 0 tx.vin.reverse with
  | none => (0, s)
  | some nTxAge =>
    let nBlockHeight := int32 (env.height - nTxAge + 4)
    let lock := s.lockOf env nBlockHeight tx.hash
    (nBlockHeight, s.setLock tx.hash { lock with nBlockHeight := nBlockHeight })

/-- `DoConsensusVote`: the state, and the votes that are sent. Only a log message is under the
test of `activeMasternode`; the `return` after it is not, and the code that would vote is never
reached. -/
def doConsensusVote (_tx : CTransaction) (_nBlockHeight : ℤ) : SwiftTX × List CConsensusVote :=
  if !env.fMasterNode then (s, [])
  else (s, [])

/-- The inputs of a transaction that are locked for another one. -/
def conflicts (tx : CTransaction) : List Uint256 :=
  tx.vin.filterMap fun i => (s.mapLockedInputs i.prevout).filter (· != tx.hash)

def acceptToMemoryPool (tx : CTransaction) : Bool := (s.conflicts tx).isEmpty && env.poolAccepts tx

def expire (txHash : Uint256) : SwiftTX :=
  match s.mapTxLocks.lookup txHash with
  | none => s
  | some lock => s.setLock txHash { lock with nExpiration := int32 env.getTime }

/-- `CheckForConflictingLocks`: at the first input that is locked for another transaction both
locks run out. -/
def checkForConflictingLocks (tx : CTransaction) : Bool × SwiftTX :=
  match s.conflicts tx with
  | [] => (false, s)
  | h :: _ => (true, (s.expire env tx.hash).expire env h)

/-- The inputs that are not locked yet are locked for a transaction. -/
def lockInputs (vin : List CTxIn) (txHash : Uint256) : SwiftTX :=
  { s with
    mapLockedInputs := vin.foldl (fun m i =>
      if (m i.prevout).isSome then m else Function.update m i.prevout (some txHash))
      s.mapLockedInputs }

/-- What `ProcessConsensusVote` does once a lock is complete. `operator[]` makes a request of the
transaction when there is none. -/
def completeLock (txHash : Uint256) : SwiftTX :=
  let tx := (s.mapTxLockReq txHash).getD emptyTransaction
  let s := { s with mapTxLockReq := Function.update s.mapTxLockReq txHash (some tx) }
  match s.checkForConflictingLocks env tx with
  | (true, s) => s
  | (false, s) => if (s.mapTxLockReq txHash).isSome then s.lockInputs tx.vin txHash else s

/-- The checks of a vote: the masternode is known, one of the first, and has signed. -/
def isGoodVote (ctx : CConsensusVote) : Bool :=
  let n := env.getMasternodeRank ctx.vinMasternode ctx.nBlockHeight
  n != -1 && decide (n ≤ SWIFTTX_SIGNATURES_TOTAL) && env.checkSignature ctx

def processConsensusVote (ctx : CConsensusVote) : Bool × SwiftTX :=
  if !isGoodVote env ctx then (false, s)
  else
    let lock := (s.lockOf env 0 ctx.txHash).addSignature ctx
    let s := s.setLock ctx.txHash lock
    (true, if lock.isComplete then s.completeLock env ctx.txHash else s)

/-- A request that the memory pool has refused is remembered, and its inputs are locked. -/
def reject (tx : CTransaction) : SwiftTX :=
  { s.lockInputs tx.vin tx.hash with
    mapTxLockReqRejected := Function.update s.mapTxLockReqRejected tx.hash (some tx) }

/-- What happens to a request that the memory pool has refused: when its lock is complete and in
conflict with no other, it becomes a request after all. -/
def refuse (tx : CTransaction) : SwiftTX :=
  let s := s.reject tx
  if (s.mapTxLocks.lookup tx.hash).any (·.isComplete) then
    match s.checkForConflictingLocks env tx with
    | (true, s) => s
    | (false, s) => { s with mapTxLockReq := Function.update s.mapTxLockReq tx.hash (some tx) }
  else s

/-- A lock request: the state, and what is relayed. -/
def processIX (tx : CTransaction) : SwiftTX × List SwiftMsg :=
  if (s.mapTxLockReq tx.hash).isSome || (s.mapTxLockReqRejected tx.hash).isSome then (s, [])
  else if !isIXTXValid env tx then (s, [])
  else if !isLockable tx then (s, [])
  else
    let (nBlockHeight, s) := s.createNewLock env tx
    if s.acceptToMemoryPool env tx then
      let (s, votes) := s.doConsensusVote env tx nBlockHeight
      ({ s with mapTxLockReq := Function.update s.mapTxLockReq tx.hash (some tx) },
        .ix tx :: votes.map .txlvote)
    else (s.refuse env tx, [])

def getAverageVoteTime : ℤ :=
  (s.mapUnknownVotes.entries.foldl (fun total p => int64 (total + p.2)) 0).tdiv
    s.mapUnknownVotes.entries.length

/-- The limit on votes for unknown transactions: whether the vote is relayed, and the times that
are kept for the masternodes. -/
def checkUnknownVotes (ctx : CConsensusVote) : Bool × SwiftTX :=
  if (s.mapTxLockReq ctx.txHash).isSome || (s.mapTxLockReqRejected ctx.txHash).isSome then (true, s)
  else
    let mn := ctx.vinMasternode.prevout.hash
    let nTime := int64 (env.getTime + 60 * 10)
    let s := if (s.mapUnknownVotes.lookup mn).isSome then s
      else { s with mapUnknownVotes := s.mapUnknownVotes.insert mn nTime }
    let nUntil := (s.mapUnknownVotes.lookup mn).getD 0
    if env.getTime < nUntil ∧ 60 * 10 < int64 (nUntil - s.getAverageVoteTime) then (false, s)
    else (true, { s with mapUnknownVotes := s.mapUnknownVotes.insert mn nTime })

/-- A vote is remembered under its hash. -/
def remember (ctx : CConsensusVote) : SwiftTX :=
  { s with mapTxLockVote := Function.update s.mapTxLockVote ctx.getHash (some ctx) }

/-- A vote that has counted is relayed, unless its masternode sends too many. -/
def relayVote (ctx : CConsensusVote) : SwiftTX × List SwiftMsg :=
  match s.checkUnknownVotes env ctx with
  | (false, s) => (s, [])
  | (true, s) => (s, [.txlvote ctx])

/-- A vote: the state, and what is relayed. It is remembered before it is checked. -/
def processVote (ctx : CConsensusVote) : SwiftTX × List SwiftMsg :=
  if (s.mapTxLockVote ctx.getHash).isSome then (s, [])
  else match (s.remember ctx).processConsensusVote env ctx with
    | (false, s) => (s, [])
    | (true, s) => s.relayVote env ctx

def processMessageSwiftTX (msg : SwiftMsg) : SwiftTX × List SwiftMsg :=
  if env.fLiteMode then (s, [])
  else if !env.isSwiftTXActive then (s, [])
  else if !env.isBlockchainSynced then (s, [])
  else match msg with
    | .ix tx => s.processIX env tx
    | .txlvote ctx => s.processVote env ctx

/-- A lock is older than it may be. -/
def isExpired (lock : CTransactionLock) : Bool := decide (lock.nExpiration < env.getTime)

/-- What goes with a lock whose request is known. -/
def dropRequest (lock : CTransactionLock) (tx : CTransaction) : SwiftTX :=
  { s with
    mapLockedInputs := removeAll s.mapLockedInputs (tx.vin.map (·.prevout))
    mapTxLockReq := Function.update s.mapTxLockReq lock.txHash none
    mapTxLockReqRejected := Function.update s.mapTxLockReqRejected lock.txHash none
    mapTxLockVote := removeAll s.mapTxLockVote (lock.vecConsensusVotes.map (·.getHash)) }

/-- One pass of the loop of `CleanTransactionLocksList`. -/
def cleanLock (s : SwiftTX) (p : (_ : Uint256) × CTransactionLock) : SwiftTX :=
  if isExpired env p.2 then
    let s := match s.mapTxLockReq p.2.txHash with
      | some tx => s.dropRequest p.2 tx
      | none => s
    { s with mapTxLocks := s.mapTxLocks.erase p.1 }
  else s

def cleanTransactionLocksList : SwiftTX :=
  if !env.hasTip then s else s.mapTxLocks.entries.foldl (cleanLock env) s

end SwiftTX

/-- What can happen to the state. A new block changes what the handlers read, but none of the
maps. -/
inductive SwiftEvent
  | message (msg : SwiftMsg)
  | clean
  | newBlock
  deriving DecidableEq, Repr

namespace SwiftTX

def step (env : SwiftEnv) (s : SwiftTX) : SwiftEvent → SwiftTX
  | .message msg => (s.processMessageSwiftTX env msg).1
  | .clean => s.cleanTransactionLocksList env
  | .newBlock => s

end SwiftTX

end Agenor
