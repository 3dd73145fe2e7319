import Agenor.MasternodePayments

/-!
The list of masternodes (`masternode.{h,cpp}`, `masternodeman.{h,cpp}`, `messagesigner.cpp`).

A masternode is announced by a broadcast that the owner of its collateral signs, and kept alive by
pings that are signed with its own key. Hashes, the texts that go into a signature and the recovery
of keys are given by a `Signer`; what the handlers read from the rest of the node is a `MnEnv`,
which may be another one at every call.
-/

namespace Agenor

abbrev CPubKey := List UInt8
abbrev CKeyID := BitVec 160

structure CService where
  ip : List UInt8
  port : ℕ
  deriving DecidableEq, Repr

structure Signer where
  /-- `CPubKey::GetID`. -/
  getID : CPubKey → CKeyID
  /-- `RecoverCompact`: the key that has made a signature of a hash. -/
  recoverCompact : Uint256 → List UInt8 → Option CKeyID
  /-- `CMessageSigner::GetMessageHash`. -/
  getMessageHash : String → Uint256
  getHex : Uint256 → String
  keyText : CKeyID → String
  addrText : CService → String
  vinText : CTxIn → String
  intText : ℤ → String
  /-- What `CMasternode::GetSignatureHash` writes: version, address, time, keys, protocol. -/
  broadcastSignature : ℤ → CService → ℤ → CPubKey → CPubKey → ℤ → Uint256
  /-- What `CMasternodeBroadcast::GetHash` writes: the time and the key of the collateral. -/
  broadcastHash : ℤ → CPubKey → Uint256
  /-- What `CMasternodePing::GetHash` writes: the input, the block when it is there, the time. -/
  pingHash : CTxIn → Option Uint256 → ℤ → Uint256

namespace Signer

variable (S : Signer)

def verifyHash (hash : Uint256) (pubkey : CPubKey) (vchSig : List UInt8) : Bool :=
  S.recoverCompact hash vchSig == some (S.getID pubkey)

def verifyMessage (pubkey : CPubKey) (vchSig : List UInt8) (strMessage : String) : Bool :=
  S.verifyHash (S.getMessageHash strMessage) pubkey vchSig

end Signer

/-! ### Pings -/

structure CMasternodePing where
  vin : CTxIn
  blockHash : Uint256
  sigTime : ℤ
  vchSig : List UInt8
  nMessVersion : ℤ
  deriving DecidableEq, Repr

namespace CMasternodePing

variable (S : Signer) (mnp : CMasternodePing)

def isNull : Bool := mnp.blockHash == 0 || mnp.vin.prevout.isNull

def getHash : Uint256 :=
  S.pingHash mnp.vin (if mnp.nMessVersion = MESS_VER_HASH then some mnp.blockHash else none)
    mnp.sigTime

def getStrMessage : String :=
  S.vinText mnp.vin ++ S.getHex mnp.blockHash ++ S.intText mnp.sigTime

def checkSignature (pubKey : CPubKey) : Bool :=
  if mnp.nMessVersion = MESS_VER_HASH then S.verifyHash (mnp.getHash S) pubKey mnp.vchSig
  else S.verifyMessage pubKey mnp.vchSig (mnp.getStrMessage S)

end CMasternodePing

/-! ### Masternodes -/

def MASTERNODE_MIN_CONFIRMATIONS : ℤ := 15
def MASTERNODE_MIN_MNP_SECONDS : ℤ := 10 * 60
def MASTERNODE_MIN_MNB_SECONDS : ℤ := 5 * 60
def MASTERNODE_EXPIRATION_SECONDS : ℤ := 120 * 60
def MASTERNODE_REMOVAL_SECONDS : ℤ := 130 * 60

/-- `CMasternode::state`. -/
inductive MasternodeState
  | MASTERNODE_PRE_ENABLED
  | MASTERNODE_ENABLED
  | MASTERNODE_EXPIRED
  | MASTERNODE_REMOVE
  | MASTERNODE_WATCHDOG_EXPIRED
  | MASTERNODE_POSE_BAN
  | MASTERNODE_VIN_SPENT
  | MASTERNODE_POS_ERROR
  | MASTERNODE_MISSING
  deriving DecidableEq, Repr

/-- The fields that a `CMasternodeBroadcast` has on the network. -/
structure CMasternodeBroadcast where
  vin : CTxIn
  addr : CService
  pubKeyCollateralAddress : CPubKey
  pubKeyMasternode : CPubKey
  vchSig : List UInt8
  sigTime : ℤ
  protocolVersion : ℤ
  lastPing : CMasternodePing
  nMessVersion : ℤ
  deriving DecidableEq, Repr

/-- An entry of the list. `CMasternodeBroadcast(mn)` keeps what it shares with a broadcast. -/
structure CMasternode extends CMasternodeBroadcast where
  activeState : MasternodeState
  unitTest : Bool
  deriving DecidableEq, Repr

/-- What the handlers read from the rest of the node. -/
structure MnEnv where
  getAdjustedTime : ℤ
  getTime : ℤ
  activeProtocol : ℤ
  fLiteMode : Bool
  isBlockchainSynced : Bool
  shutdownRequested : Bool
  /-- The network is the main one. -/
  isMainNet : Bool
  /-- `TRY_LOCK(cs_main)` succeeds. -/
  lockMain : Bool
  /-- The entry has been checked in the last `MASTERNODE_CHECK_SECONDS`. Copies of an entry forget
  the time of the last check, and when the list is copied depends on its memory. -/
  recentlyChecked : COutPoint → Bool
  /-- The block is in the active chain, at most 24 blocks below its tip. -/
  isRecentBlock : Uint256 → Bool
  /-- `AcceptableInputs` for a transaction that spends the collateral. -/
  acceptableInputs : CTxIn → CPubKey → Bool
  isInputAssociatedWithPubkey : CTxIn → CPubKey → Bool
  /-- `pcoinsTip->GetCoinDepthAtHeight`, at the height of the tip. -/
  getCoinDepth : COutPoint → ℤ
  /-- The time of the block that has brought the collateral its confirmations. -/
  confirmedAt : COutPoint → Option ℤ
  /-- The masternode is the one that this node runs. -/
  isActiveMasternode : COutPoint → CPubKey → Bool
  /-- The address is a local one, and the network not a test of its own. -/
  isLocal : CService → Bool
  isRFC1918 : CService → Bool

namespace CMasternodeBroadcast

variable (S : Signer) (mnb : CMasternodeBroadcast)

def getSignatureHash : Uint256 :=
  S.broadcastSignature mnb.nMessVersion mnb.addr mnb.sigTime mnb.pubKeyCollateralAddress
    mnb.pubKeyMasternode mnb.protocolVersion

def getStrMessage : String :=
  S.addrText mnb.addr ++ S.intText mnb.sigTime ++
    S.keyText (S.getID mnb.pubKeyCollateralAddress) ++ S.keyText (S.getID mnb.pubKeyMasternode) ++
    S.intText mnb.protocolVersion

def checkSignature : Bool :=
  S.verifyMessage mnb.pubKeyCollateralAddress mnb.vchSig
    (if mnb.nMessVersion = MESS_VER_HASH then S.getHex (mnb.getSignatureHash S)
    else mnb.getStrMessage S)

def getHash : Uint256 := S.broadcastHash mnb.sigTime mnb.pubKeyCollateralAddress

/-- `CMasternode mn(*this)`, for a broadcast that has been read from the network. -/
def toMasternode : CMasternode :=
  { mnb with activeState := .MASTERNODE_ENABLED, unitTest := false }

end CMasternodeBroadcast

namespace CMasternode

variable (env : MnEnv) (mn : CMasternode)

def isEnabled : Bool := mn.activeState == .MASTERNODE_ENABLED

def isBroadcastedWithin (seconds : ℤ) : Bool := decide (env.getAdjustedTime - mn.sigTime < seconds)

def isPingedWithin (seconds now : ℤ) : Bool :=
  let now := if now = -1 then env.getAdjustedTime else now
  !mn.lastPing.isNull && decide (now - mn.lastPing.sigTime < seconds)

def check (forceCheck : Bool) : CMasternode :=
  if env.shutdownRequested then mn
  else if !forceCheck && env.recentlyChecked mn.vin.prevout then mn
  else if mn.activeState = .MASTERNODE_VIN_SPENT then mn
  else if !mn.isPingedWithin env MASTERNODE_REMOVAL_SECONDS (-1) then
    { mn with activeState := .MASTERNODE_REMOVE }
  else if !mn.isPingedWithin env MASTERNODE_EXPIRATION_SECONDS (-1) then
    { mn with activeState := .MASTERNODE_EXPIRED }
  else if mn.lastPing.sigTime - mn.sigTime < MASTERNODE_MIN_MNP_SECONDS then
    { mn with activeState := .MASTERNODE_PRE_ENABLED }
  else if !mn.unitTest && !env.lockMain then mn
  else if !mn.unitTest && !env.acceptableInputs mn.vin mn.pubKeyCollateralAddress then
    { mn with activeState := .MASTERNODE_VIN_SPENT }
  else { mn with activeState := .MASTERNODE_ENABLED }

lemma check_cases (forceCheck : Bool) :
    ∃ state, mn.check env forceCheck = { mn with activeState := state } := by
  unfold check
  have hite : ∀ {c : Prop} [Decidable c] {a b : CMasternode},
      (∃ state, a = { mn with activeState := state }) →
      (∃ state, b = { mn with activeState := state }) →
      ∃ state, (if c then a else b) = { mn with activeState := state } := by
    intro c _ a b ha hb
    split_ifs
    · exact ha
    · exact hb
  exact hite ⟨_, rfl⟩ <| hite ⟨_, rfl⟩ <| hite ⟨_, rfl⟩ <| hite ⟨_, rfl⟩ <| hite ⟨_, rfl⟩ <|
    hite ⟨_, rfl⟩ <| hite ⟨_, rfl⟩ <| hite ⟨_, rfl⟩ ⟨_, rfl⟩

@[simp] lemma check_vin (forceCheck : Bool) : (mn.check env forceCheck).vin = mn.vin := by
  obtain ⟨state, hstate⟩ := mn.check_cases env forceCheck
  rw [hstate]

end CMasternode

/-! ### The list -/

/-- A list has one entry for an outpoint. -/
abbrev OneEach (l : List CMasternode) : Prop := (l.map (·.vin.prevout)).Nodup

structure CMasternodeMan where
  vMasternodes : List CMasternode
  mapSeenMasternodeBroadcast : Uint256 → Option CMasternodeBroadcast
  mapSeenMasternodePing : Uint256 → Option CMasternodePing

namespace CMasternodeMan

variable (S : Signer) (env : MnEnv) (s : CMasternodeMan)

def initial : CMasternodeMan := ⟨[], fun _ => none, fun _ => none⟩

def find (vin : CTxIn) : Option CMasternode :=
  s.vMasternodes.find? fun mn => mn.vin.prevout == vin.prevout

/-- The first entry for an outpoint is changed in place. -/
def modifyEntry (o : COutPoint) (f : CMasternode → CMasternode) :
    List CMasternode → List CMasternode
  | [] => []
  | mn :: rest => if mn.vin.prevout = o then f mn :: rest else mn :: modifyEntry o f rest

def modify (vin : CTxIn) (f : CMasternode → CMasternode) : CMasternodeMan :=
  { s with vMasternodes := modifyEntry vin.prevout f s.vMasternodes }

def add (mn : CMasternode) : CMasternodeMan :=
  if !mn.isEnabled then s
  else if (s.find mn.vin).isSome then s
  else { s with vMasternodes := s.vMasternodes ++ [mn] }

def remove (vin : CTxIn) : CMasternodeMan :=
  { s with vMasternodes := s.vMasternodes.eraseP fun mn => mn.vin == vin }

/-- The time of a ping is at most an hour off. -/
def isTimely (mnp : CMasternodePing) : Bool :=
  !decide (env.getAdjustedTime + 60 * 60 < mnp.sigTime) &&
    !decide (mnp.sigTime ≤ env.getAdjustedTime - 60 * 60)

/-- `CMasternodePing::CheckAndUpdate` with `fCheckSigTimeOnly`: the signature is looked at when the
masternode is known. -/
def checkSigTime (mnp : CMasternodePing) : Bool :=
  isTimely env mnp && (s.find mnp.vin).all fun mn => mnp.checkSignature S mn.pubKeyMasternode

/-- A ping that is taken: the entry and the broadcast that has been seen get it. -/
def takePing (mn : CMasternode) (mnp : CMasternodePing) : CMasternodeMan :=
  let hash := mn.toCMasternodeBroadcast.getHash S
  { s.modify mnp.vin fun mn => ({ mn with lastPing := mnp }.check env true) with
    mapSeenMasternodeBroadcast := Function.update s.mapSeenMasternodeBroadcast hash
      ((s.mapSeenMasternodeBroadcast hash).map fun mnb => { mnb with lastPing := mnp }) }

/-- `CMasternodePing::CheckAndUpdate` without `fCheckSigTimeOnly`: the new list, and whether the
ping is accepted and relayed. -/
def checkAndUpdatePing (mnp : CMasternodePing) (fRequireEnabled : Bool) : CMasternodeMan × Bool :=
  if !isTimely env mnp then (s, false)
  else match s.find mnp.vin with
    | none => (s, false)
    | some mn =>
      if mn.protocolVersion < env.activeProtocol then (s, false)
      else if fRequireEnabled && !mn.isEnabled then (s, false)
      else if mn.isPingedWithin env (MASTERNODE_MIN_MNP_SECONDS - 60) mnp.sigTime then (s, false)
      else if !mnp.checkSignature S mn.pubKeyMasternode then (s, false)
      else if !env.isRecentBlock mnp.blockHash then (s, false)
      else (s.takePing S env mn mnp, ({ mn with lastPing := mnp }.check env true).isEnabled)

/-- The fields that `UpdateFromNewBroadcast` copies; the version of the message is not one. -/
def copyFields (mnb : CMasternodeBroadcast) (mn : CMasternode) : CMasternode :=
  { mn with
    pubKeyMasternode := mnb.pubKeyMasternode
    pubKeyCollateralAddress := mnb.pubKeyCollateralAddress
    sigTime := mnb.sigTime
    vchSig := mnb.vchSig
    protocolVersion := mnb.protocolVersion
    addr := mnb.addr }

/-- The ping of a broadcast becomes that of the entry. -/
def copyPing (mnb : CMasternodeBroadcast) : CMasternodeMan :=
  let hash := mnb.lastPing.getHash S
  { s.modify mnb.vin fun mn => { mn with lastPing := mnb.lastPing } with
    mapSeenMasternodePing := Function.update s.mapSeenMasternodePing hash
      (some ((s.mapSeenMasternodePing hash).getD mnb.lastPing)) }

/-- `CMasternode::UpdateFromNewBroadcast`, for the entry with the outpoint of the broadcast and an
earlier time. The ping is checked against the list with the new fields. -/
def updateFromNewBroadcast (mnb : CMasternodeBroadcast) : CMasternodeMan :=
  let s := s.modify mnb.vin (copyFields mnb)
  if mnb.lastPing.isNull then s.copyPing S mnb
  else match s.checkAndUpdatePing S env mnb.lastPing false with
    | (s, true) => s.copyPing S mnb
    | (s, false) => s

/-- The checks of `CMasternodeBroadcast::CheckAndUpdate` that only read. The scripts of the two keys
have 25 bytes. -/
def passesChecks (mnb : CMasternodeBroadcast) : Bool :=
  !decide (env.getAdjustedTime + 60 * 60 < mnb.sigTime) &&
  (!mnb.lastPing.isNull && s.checkSigTime S env mnb.lastPing) &&
  !decide (mnb.protocolVersion < env.activeProtocol) &&
  mnb.vin.scriptSig.isEmpty &&
  mnb.checkSignature S &&
  (if env.isMainNet then mnb.addr.port == 31052 else mnb.addr.port != 31052)

/-- `CMasternodeBroadcast::CheckAndUpdate`: the new list, whether it is passed, and whether the
broadcast is relayed. -/
def checkAndUpdate (mnb : CMasternodeBroadcast) : CMasternodeMan × Bool × Bool :=
  if !s.passesChecks S env mnb then (s, false, false)
  else match s.find mnb.vin with
    | none => (s, true, false)
    | some mn =>
      if mnb.sigTime ≤ mn.sigTime then (s, false, false)
      else if !mn.isEnabled then (s, true, false)
      else if mn.pubKeyCollateralAddress = mnb.pubKeyCollateralAddress ∧
          !mn.isBroadcastedWithin env MASTERNODE_MIN_MNB_SECONDS then
        -- the update has reset the time of the last check
        let s := (s.updateFromNewBroadcast S env mnb).modify mnb.vin (·.check env true)
        (s, true, (s.find mnb.vin).any (·.isEnabled))
      else (s, true, false)

/-- A broadcast may be looked at again later. -/
def forget (mnb : CMasternodeBroadcast) : CMasternodeMan :=
  { s with
    mapSeenMasternodeBroadcast :=
      Function.update s.mapSeenMasternodeBroadcast (mnb.getHash S) none }

/-- `CMasternodeBroadcast::CheckInputsAndAdd`: the new list, and whether the broadcast is
relayed. -/
def checkInputsAndAdd (mnb : CMasternodeBroadcast) : CMasternodeMan × Bool :=
  if env.isActiveMasternode mnb.vin.prevout mnb.pubKeyMasternode then (s, false)
  else if mnb.lastPing.isNull || !s.checkSigTime S env mnb.lastPing then (s, false)
  else if (s.find mnb.vin).any (·.isEnabled) then (s, false)
  else
    let s := match s.find mnb.vin with
      | some mn => s.remove mn.vin
      | none => s
    if !env.lockMain then (s.forget S mnb, false)
    else if !env.acceptableInputs mnb.vin mnb.pubKeyCollateralAddress then (s, false)
    else if env.getCoinDepth mnb.vin.prevout < MASTERNODE_MIN_CONFIRMATIONS then
      (s.forget S mnb, false)
    else if (env.confirmedAt mnb.vin.prevout).any fun t => decide (mnb.sigTime < t) then (s, false)
    else (s.add mnb.toMasternode, !env.isLocal mnb.addr)

/-- `ProcessMessage` does anything at all. -/
def listens : Bool := !env.fLiteMode && env.isBlockchainSynced

/-- The hash of a broadcast is marked as seen. -/
def seeBroadcast (mnb : CMasternodeBroadcast) : CMasternodeMan :=
  { s with
    mapSeenMasternodeBroadcast :=
      Function.update s.mapSeenMasternodeBroadcast (mnb.getHash S) (some mnb) }

/-- The hash of a ping is marked as seen. -/
def seePing (mnp : CMasternodePing) : CMasternodeMan :=
  { s with
    mapSeenMasternodePing := Function.update s.mapSeenMasternodePing (mnp.getHash S) (some mnp) }

/-- `ProcessMessage` for `MNBROADCAST`: the new list, and whether the broadcast has changed the list
and is relayed. -/
def processBroadcast (mnb : CMasternodeBroadcast) : CMasternodeMan × Bool :=
  if !listens env then (s, false)
  else if (s.mapSeenMasternodeBroadcast (mnb.getHash S)).isSome then (s, false)
  else
    match (s.seeBroadcast S mnb).checkAndUpdate S env mnb with
    | (s, false, relayed) => (s, relayed)
    | (s, true, relayed) =>
      if !env.isInputAssociatedWithPubkey mnb.vin mnb.pubKeyCollateralAddress then (s, relayed)
      else
        let r := s.checkInputsAndAdd S env mnb
        (r.1, relayed || r.2)

/-- `ProcessMessage` for `MNPING`. -/
def processPing (mnp : CMasternodePing) : CMasternodeMan × Bool :=
  if !listens env then (s, false)
  else if (s.mapSeenMasternodePing (mnp.getHash S)).isSome then (s, false)
  else
    (s.seePing S mnp).checkAndUpdatePing S env mnp true

def check : CMasternodeMan :=
  { s with vMasternodes := s.vMasternodes.map (·.check env false) }

/-- The entry goes when the list is cleaned. -/
def isRemoved (forceExpiredRemoval : Bool) (mn : CMasternode) : Bool :=
  mn.activeState == .MASTERNODE_REMOVE || mn.activeState == .MASTERNODE_VIN_SPENT ||
  (forceExpiredRemoval && mn.activeState == .MASTERNODE_EXPIRED) ||
  decide (mn.protocolVersion < env.activeProtocol)

/-- `CMasternodeMan::CheckAndRemove`. The broadcasts of an entry that goes are forgotten, as are
broadcasts and pings that are too old. -/
def checkAndRemove (forceExpiredRemoval : Bool) : CMasternodeMan :=
  let s := s.check env
  let old := env.getTime - MASTERNODE_REMOVAL_SECONDS * 2
  let gone := s.vMasternodes.filter (isRemoved env forceExpiredRemoval)
  { vMasternodes := s.vMasternodes.filter fun mn => !isRemoved env forceExpiredRemoval mn
    mapSeenMasternodeBroadcast := fun k => (s.mapSeenMasternodeBroadcast k).filter fun mnb =>
      (gone.all fun mn => mn.vin != mnb.vin) && !decide (mnb.lastPing.sigTime < old)
    mapSeenMasternodePing := fun k => (s.mapSeenMasternodePing k).filter fun mnp =>
      !decide (mnp.sigTime < old) }

/-- The entries that `GETMNLIST` announces; an empty input asks for all of them. -/
def served (vin : Option CTxIn) : List CMasternodeBroadcast :=
  (s.vMasternodes.filter fun mn => !env.isRFC1918 mn.addr && mn.isEnabled &&
    vin.all fun i => mn.vin == i).map (·.toCMasternodeBroadcast)

/-- `ProcessMessage` for `GETMNLIST`: what is announced can be asked for afterwards. -/
def getMNList (vin : Option CTxIn) : CMasternodeMan :=
  if !listens env then s
  else
    { s with
      mapSeenMasternodeBroadcast := (s.served env vin).foldl (fun m mnb =>
        Function.update m (mnb.getHash S) (some ((m (mnb.getHash S)).getD mnb)))
        s.mapSeenMasternodeBroadcast }

/-! ### `mncache.dat` -/

end CMasternodeMan

/-- What `CMasternode::SerializationOp` writes; the version of the message is not there. -/
structure MasternodeRecord where
  vin : CTxIn
  addr : CService
  pubKeyCollateralAddress : CPubKey
  pubKeyMasternode : CPubKey
  vchSig : List UInt8
  sigTime : ℤ
  protocolVersion : ℤ
  activeState : MasternodeState
  lastPing : CMasternodePing
  unitTest : Bool
  deriving DecidableEq, Repr

def CMasternode.serialize (mn : CMasternode) : MasternodeRecord where
  vin := mn.vin
  addr := mn.addr
  pubKeyCollateralAddress := mn.pubKeyCollateralAddress
  pubKeyMasternode := mn.pubKeyMasternode
  vchSig := mn.vchSig
  sigTime := mn.sigTime
  protocolVersion := mn.protocolVersion
  activeState := mn.activeState
  lastPing := mn.lastPing
  unitTest := mn.unitTest

/-- The version of the message is the one that the constructor of `CSignedMessage` gives. -/
def MasternodeRecord.unserialize (r : MasternodeRecord) : CMasternode where
  vin := r.vin
  addr := r.addr
  pubKeyCollateralAddress := r.pubKeyCollateralAddress
  pubKeyMasternode := r.pubKeyMasternode
  vchSig := r.vchSig
  sigTime := r.sigTime
  protocolVersion := r.protocolVersion
  activeState := r.activeState
  lastPing := r.lastPing
  unitTest := r.unitTest
  nMessVersion := MESS_VER_HASH

/-- The part of `mncache.dat` that the list is read from. -/
structure MnCache where
  vMasternodes : List MasternodeRecord
  mapSeenMasternodeBroadcast : Uint256 → Option CMasternodeBroadcast
  mapSeenMasternodePing : Uint256 → Option CMasternodePing

def CMasternodeMan.write (s : CMasternodeMan) : MnCache where
  vMasternodes := s.vMasternodes.map (·.serialize)
  mapSeenMasternodeBroadcast := s.mapSeenMasternodeBroadcast
  mapSeenMasternodePing := s.mapSeenMasternodePing

/-- `CMasternodeDB::Read`. The list is cleaned when it has been read. -/
def MnCache.read (env : MnEnv) (c : MnCache) : CMasternodeMan :=
  CMasternodeMan.checkAndRemove env
    ⟨c.vMasternodes.map (·.unserialize), c.mapSeenMasternodeBroadcast, c.mapSeenMasternodePing⟩ true

/-! ### Runs -/

/-- The list of a node and the file that it is kept in. -/
structure MnNode where
  man : CMasternodeMan
  mncache : Option MnCache

/-- What happens to the list. -/
inductive MnOp
  | broadcast (env : MnEnv) (mnb : CMasternodeBroadcast)
  | ping (env : MnEnv) (mnp : CMasternodePing)
  | getMNList (env : MnEnv) (vin : Option CTxIn)
  | check (env : MnEnv)
  | checkAndRemove (env : MnEnv) (forceExpiredRemoval : Bool)
  | dump
  /-- The node is stopped and started again. -/
  | load (env : MnEnv)

namespace MnNode

def initial : MnNode := ⟨.initial, none⟩

def step (S : Signer) (n : MnNode) : MnOp → MnNode
  | .broadcast env mnb => { n with man := (n.man.processBroadcast S env mnb).1 }
  | .ping env mnp => { n with man := (n.man.processPing S env mnp).1 }
  | .getMNList env vin => { n with man := n.man.getMNList S env vin }
  | .check env => { n with man := n.man.check env }
  | .checkAndRemove env force => { n with man := n.man.checkAndRemove env force }
  | .dump => { n with mncache := some n.man.write }
  | .load env => { n with man := (n.mncache.map (·.read env)).getD .initial }

end MnNode

end Agenor
