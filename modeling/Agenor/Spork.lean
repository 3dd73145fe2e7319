import Agenor.Lib.Run
import Agenor.MasternodePings

/-!
Sporks (`spork.{h,cpp}`, `sporkdb.cpp`): values that the holder of one key sets for the network.

A message that comes in is taken when it has been signed later than the one that is there, and is
written to the database. A value that is set by the node itself is taken in any case, and is not
written; so it can push out a message that has been signed later, and is gone when the node is
started again.
-/

namespace Agenor

open Lib

/-- `SporkId`, with all its members. -/
inductive Spork
  | SPORK_2_SWIFTTX
  | SPORK_3_SWIFTTX_BLOCK_FILTERING
  | SPORK_5_MAX_VALUE
  | SPORK_8_MASTERNODE_PAYMENT_ENFORCEMENT
  | SPORK_9_MASTERNODE_BUDGET_ENFORCEMENT
  | SPORK_13_ENABLE_SUPERBLOCKS
  | SPORK_14_NEW_PROTOCOL_ENFORCEMENT
  | SPORK_15_NEW_PROTOCOL_ENFORCEMENT_2
  | SPORK_16_ZEROCOIN_MAINTENANCE_MODE
  | SPORK_17_COLDSTAKING_ENFORCEMENT
  | SPORK_18_ZEROCOIN_PUBLICSPEND_V4
  deriving DecidableEq, Repr

/-- The number of a spork in a message. -/
def Spork.toInt : Spork → ℤ
  | SPORK_2_SWIFTTX => 10001
  | SPORK_3_SWIFTTX_BLOCK_FILTERING => 10002
  | SPORK_5_MAX_VALUE => 10004
  | SPORK_8_MASTERNODE_PAYMENT_ENFORCEMENT => 10007
  | SPORK_9_MASTERNODE_BUDGET_ENFORCEMENT => 10008
  | SPORK_13_ENABLE_SUPERBLOCKS => 10012
  | SPORK_14_NEW_PROTOCOL_ENFORCEMENT => 10013
  | SPORK_15_NEW_PROTOCOL_ENFORCEMENT_2 => 10014
  | SPORK_16_ZEROCOIN_MAINTENANCE_MODE => 10015
  | SPORK_17_COLDSTAKING_ENFORCEMENT => 10017
  | SPORK_18_ZEROCOIN_PUBLICSPEND_V4 => 10018

/-- `sporkDefs`: the sporks and the values they have by default. -/
def sporkDefs : List (Spork × ℤ) :=
  [(.SPORK_2_SWIFTTX, 0),
    (.SPORK_3_SWIFTTX_BLOCK_FILTERING, 0),
    (.SPORK_5_MAX_VALUE, 1000),
    (.SPORK_8_MASTERNODE_PAYMENT_ENFORCEMENT, 4070908800),
    (.SPORK_9_MASTERNODE_BUDGET_ENFORCEMENT, 4070908800),
    (.SPORK_13_ENABLE_SUPERBLOCKS, 4070908800),
    (.SPORK_14_NEW_PROTOCOL_ENFORCEMENT, 4070908800),
    (.SPORK_15_NEW_PROTOCOL_ENFORCEMENT_2, 4070908800),
    (.SPORK_16_ZEROCOIN_MAINTENANCE_MODE, 4070908800),
    (.SPORK_17_COLDSTAKING_ENFORCEMENT, 4070908800),
    (.SPORK_18_ZEROCOIN_PUBLICSPEND_V4, 4070908800)]

/-- The entry of `sporkDefsById` for a number. -/
def sporkDefsById (nSporkID : ℤ) : Option (Spork × ℤ) :=
  sporkDefs.find? fun d => d.1.toInt == nSporkID

structure CSporkMessage where
  nSporkID : ℤ
  nValue : ℤ
  nTimeSigned : ℤ
  vchSig : List UInt8
  nMessVersion : ℤ
  deriving DecidableEq, Repr

/-- What the sporks read from the rest of the node. -/
structure SporkEnv where
  S : Signer
  /-- What `CSporkMessage::GetSignatureHash` writes: version, spork, value and time. -/
  signatureHash : ℤ → ℤ → ℤ → ℤ → Uint256
  /-- `HashQuark` of spork, value and time. -/
  hashQuark : ℤ → ℤ → ℤ → Uint256
  sporkPubKey : CPubKey
  sporkPubKeyOld : CPubKey
  nTime_EnforceNewSporkKey : ℤ
  nTime_RejectOldSporkKey : ℤ
  getAdjustedTime : ℤ
  getTime : ℤ
  fLiteMode : Bool
  /-- `Sign(strMasterPrivKey)`: the signature of a hash, when the node has a key. -/
  signHash : Uint256 → Option (List UInt8)

namespace CSporkMessage

variable (env : SporkEnv) (spork : CSporkMessage)

def getHash : Uint256 := env.hashQuark spork.nSporkID spork.nValue spork.nTimeSigned

def getSignatureHash : Uint256 :=
  env.signatureHash spork.nMessVersion spork.nSporkID spork.nValue spork.nTimeSigned

def getStrMessage : String :=
  env.S.intText spork.nSporkID ++ env.S.intText spork.nValue ++ env.S.intText spork.nTimeSigned

/-- `CSignedMessage::CheckSignature` with a key. -/
def checkSignatureWith (pubKey : CPubKey) : Bool :=
  if spork.nMessVersion = MESS_VER_HASH then
    env.S.verifyHash (spork.getSignatureHash env) pubKey spork.vchSig
  else env.S.verifyMessage pubKey spork.vchSig (spork.getStrMessage env)

/-- `CSignedMessage::CheckSignature`, with the key of the network. -/
def checkSignature : Bool :=
  env.sporkPubKey != [] && spork.checkSignatureWith env env.sporkPubKey

/-- The checks of the signature in `ProcessSpork`: for some time the old key is good as well. -/
def isValidSig : Bool :=
  let fRequireNew := decide (env.nTime_EnforceNewSporkKey ≤ spork.nTimeSigned)
  if !spork.checkSignature env && !fRequireNew then
    decide (env.getAdjustedTime < env.nTime_RejectOldSporkKey) &&
      spork.checkSignatureWith env env.sporkPubKeyOld
  else spork.checkSignature env

end CSporkMessage

/-- `CSporkManager`, with the map of the messages that can be asked for and the database. -/
structure CSporkManager where
  mapSporks : Uint256 → Option CSporkMessage
  mapSporksActive : ℤ → Option CSporkMessage
  sporkDB : ℤ → Option CSporkMessage

namespace CSporkManager

variable (env : SporkEnv) (s : CSporkManager)

def initial : CSporkManager := ⟨fun _ => none, fun _ => none, fun _ => none⟩

/-- The message is kept in memory. -/
def activate (spork : CSporkMessage) : CSporkManager :=
  { s with
    mapSporks := Function.update s.mapSporks (spork.getHash env) (some spork)
    mapSporksActive := Function.update s.mapSporksActive spork.nSporkID (some spork) }

def writeSpork (spork : CSporkMessage) : CSporkManager :=
  { s with sporkDB := Function.update s.sporkDB spork.nSporkID (some spork) }

/-- One pass of the loop of `LoadSporksFromDB`. -/
def loadSpork (sporkDef : Spork × ℤ) : CSporkManager :=
  match s.sporkDB sporkDef.1.toInt with
  | none => s
  | some spork => s.activate env spork

def loadSporksFromDB : CSporkManager := sporkDefs.foldl (loadSpork env) s

/-- The node is stopped and started again. -/
def restart : CSporkManager :=
  loadSporksFromDB env ⟨fun _ => none, fun _ => none, s.sporkDB⟩

/-- `ProcessSpork` for a spork message: the new state, and whether the message is relayed. -/
def processSpork (spork : CSporkMessage) : CSporkManager × Bool :=
  if env.fLiteMode then (s, false)
  else if (sporkDefsById spork.nSporkID).isNone then (s, false)
  else if env.getAdjustedTime + 2 * 60 * 60 < spork.nTimeSigned then (s, false)
  else if spork.nMessVersion ≠ MESS_VER_HASH then (s, false)
  else if (s.mapSporksActive spork.nSporkID).any
      fun active => decide (spork.nTimeSigned ≤ active.nTimeSigned) then (s, false)
  else if !spork.isValidSig env then (s, false)
  else ((s.activate env spork).writeSpork spork, true)

/-- The message that `UpdateSpork` makes. -/
def newSpork (nSporkID : Spork) (nValue : ℤ) : Option CSporkMessage :=
  let spork : CSporkMessage := ⟨nSporkID.toInt, nValue, env.getTime, [], MESS_VER_HASH⟩
  (env.signHash (spork.getSignatureHash env)).map fun vchSig => { spork with vchSig := vchSig }

def updateSpork (nSporkID : Spork) (nValue : ℤ) : CSporkManager × Bool :=
  match newSpork env nSporkID nValue with
  | none => (s, false)
  | some spork => (s.activate env spork, true)

def getSporkValue (nSporkID : ℤ) : ℤ :=
  match s.mapSporksActive nSporkID with
  | some spork => spork.nValue
  | none => ((sporkDefsById nSporkID).map (·.2)).getD (-1)

/-! ### Runs -/

inductive Op
  | processSpork (env : SporkEnv) (spork : CSporkMessage)
  | updateSpork (env : SporkEnv) (nSporkID : Spork) (nValue : ℤ)
  | restart (env : SporkEnv)

def step : Op → CSporkManager
  | .processSpork env spork => (s.processSpork env spork).1
  | .updateSpork env nSporkID nValue => (s.updateSpork env nSporkID nValue).1
  | .restart env => s.restart env

/-- A message that is correctly signed, for a spork that there is and within the time that is
accepted. -/
def isAcceptable (spork : CSporkMessage) : Bool :=
  !env.fLiteMode && (sporkDefsById spork.nSporkID).isSome &&
    !decide (env.getAdjustedTime + 2 * 60 * 60 < spork.nTimeSigned) &&
    spork.nMessVersion == MESS_VER_HASH && spork.isValidSig env

/-- The messages that an operation brings in. -/
def brings : Op → Option CSporkMessage
  | .processSpork env spork => if isAcceptable env spork then some spork else none
  | .updateSpork env nSporkID nValue => newSpork env nSporkID nValue
  | .restart _ => none

/-- A value is set only when no message has been signed later, and the node is started again only
when the database has all messages. -/
def Careful : Op → Prop
  | .processSpork _ _ => True
  | .updateSpork env nSporkID _ =>
    ∀ spork, s.mapSporksActive nSporkID.toInt = some spork → spork.nTimeSigned ≤ env.getTime
  | .restart _ => ∀ nSporkID : Spork,
    s.sporkDB nSporkID.toInt = s.mapSporksActive nSporkID.toInt

variable {env s} {l : List Op} {op : Op} {spork m : CSporkMessage}

/-! ### The database -/

lemma exists_def (nSporkID : Spork) : ∃ d ∈ sporkDefs, d.1 = nSporkID := by
  cases nSporkID <;> decide

lemma sporkDefsById_isSome {id : ℤ} :
    (sporkDefsById id).isSome = true ↔ ∃ nSporkID : Spork, nSporkID.toInt = id := by
  rw [sporkDefsById, List.find?_isSome]
  constructor
  · rintro ⟨d, -, hd⟩
    exact ⟨d.1, by simpa using hd⟩
  · rintro ⟨nSporkID, rfl⟩
    obtain ⟨d, hd, rfl⟩ := exists_def nSporkID
    exact ⟨d, hd, by simp⟩

lemma load_active (hdb : ∀ id m, s.sporkDB id = some m → m.nSporkID = id) (L : List (Spork × ℤ))
    (id : ℤ) :
    (L.foldl (loadSpork env) s).mapSporksActive id =
    if L.any fun d => d.1.toInt == id then (s.sporkDB id).or (s.mapSporksActive id)
    else s.mapSporksActive id := by
  induction L generalizing s with
  | nil => simp
  | cons d L ih =>
    rw [List.foldl_cons, loadSpork]
    by_cases hid : d.1.toInt = id
    · subst hid
      cases hd : s.sporkDB d.1.toInt with
      | none =>
        rw [ih hdb]
        simp [hd]
      | some spork =>
        have hspork : spork.nSporkID = d.1.toInt := hdb _ _ hd
        rw [ih (s := s.activate env spork) hdb]
        simp [activate, hspork, hd]
    · have hany : ((d :: L).any fun d => d.1.toInt == id) = L.any fun d => d.1.toInt == id := by
        rw [List.any_cons, beq_eq_false_iff_ne.mpr hid, Bool.false_or]
      rw [hany]
      cases hd : s.sporkDB d.1.toInt with
      | none => exact ih hdb
      | some spork =>
        have hspork : id ≠ spork.nSporkID := by
          rw [hdb _ _ hd]
          exact fun h => hid h.symm
        rw [ih (s := s.activate env spork) hdb]
        simp only [activate, Function.update_of_ne hspork]

lemma loadSpork_sporkDB (d : Spork × ℤ) : (s.loadSpork env d).sporkDB = s.sporkDB := by
  unfold loadSpork
  split <;> rfl

lemma restart_sporkDB : (s.restart env).sporkDB = s.sporkDB := by
  have hfold : ∀ (L : List (Spork × ℤ)) (t : CSporkManager),
      (L.foldl (loadSpork env) t).sporkDB = t.sporkDB := by
    intro L
    induction L with
    | nil => exact fun _ => rfl
    | cons d L ih => exact fun t => (ih _).trans (loadSpork_sporkDB d)
  unfold restart loadSporksFromDB
  rw [hfold]

lemma restart_active (hdb : ∀ id m, s.sporkDB id = some m → m.nSporkID = id) (id : ℤ) :
    (s.restart env).mapSporksActive id =
      if (sporkDefsById id).isSome then s.sporkDB id else none := by
  have hknown : (sporkDefsById id).isSome = sporkDefs.any fun d => d.1.toInt == id := by
    rw [sporkDefsById, List.isSome_find?]
  rw [hknown, restart, loadSporksFromDB,
    load_active (s := ⟨fun _ => none, fun _ => none, s.sporkDB⟩) hdb, Option.or_none]

/-! ### The latest message -/

/-- The messages that some operations bring in. -/
def brought (l : List Op) : List CSporkMessage := l.filterMap brings

/-- The memory has, for every spork, one of the messages that were signed last. -/
structure Inv (l : List Op) (s : CSporkManager) : Prop where
  keyed : ∀ id m, s.mapSporksActive id = some m →
    m.nSporkID = id ∧ ∃ nSporkID : Spork, nSporkID.toInt = id
  dbKeyed : ∀ id m, s.sporkDB id = some m → m.nSporkID = id
  mem : ∀ id m, s.mapSporksActive id = some m → m ∈ brought l
  newest : ∀ m ∈ brought l, ∃ active, s.mapSporksActive m.nSporkID = some active ∧
    m.nTimeSigned ≤ active.nTimeSigned

lemma inv_initial : Inv [] initial := ⟨by simp [initial], by simp [initial], by simp [initial],
  by simp [brought]⟩

lemma brought_snoc (l : List Op) (op : Op) :
    brought (l ++ [op]) = brought l ++ (brings op).toList := by
  rw [brought, List.filterMap_append]
  cases h : brings op <;> simp [brought, h]

lemma Inv.activate (h : Inv l s) (hbrings : brings op = some spork)
    (hknown : ∃ nSporkID : Spork, nSporkID.toInt = spork.nSporkID)
    (hlast : ∀ m, s.mapSporksActive spork.nSporkID = some m → m.nTimeSigned ≤ spork.nTimeSigned)
    {db : ℤ → Option CSporkMessage} (hdb : ∀ id m, db id = some m → m.nSporkID = id) :
    Inv (l ++ [op]) { s.activate env spork with sporkDB := db } := by
  have hbrought : brought (l ++ [op]) = brought l ++ [spork] := by
    rw [brought_snoc, hbrings]
    rfl
  refine ⟨fun id m hm => ?_, hdb, fun id m hm => ?_, fun m hm => ?_⟩
  · rcases eq_or_ne id spork.nSporkID with rfl | hid
    · obtain rfl : spork = m := by simpa [CSporkManager.activate] using hm
      exact ⟨rfl, hknown⟩
    · exact h.keyed id m (by simpa [CSporkManager.activate, hid] using hm)
  · rw [hbrought]
    rcases eq_or_ne id spork.nSporkID with rfl | hid
    · obtain rfl : spork = m := by simpa [CSporkManager.activate] using hm
      simp
    · exact List.mem_append_left _ (h.mem id m (by simpa [CSporkManager.activate, hid] using hm))
  · rw [hbrought, List.mem_append, List.mem_singleton] at hm
    rcases hm with hm | rfl
    · obtain ⟨active, hactive, hle⟩ := h.newest m hm
      rcases eq_or_ne m.nSporkID spork.nSporkID with hid | hid
      · rw [hid] at hactive
        exact ⟨spork, by simp [CSporkManager.activate, hid], hle.trans (hlast active hactive)⟩
      · exact ⟨active, by simpa [CSporkManager.activate, hid] using hactive, hle⟩
    · exact ⟨m, by simp [CSporkManager.activate], le_rfl⟩

lemma Inv.keep (h : Inv l s) (hbrings : ∀ m, brings op = some m → ∃ active,
    s.mapSporksActive m.nSporkID = some active ∧ m.nTimeSigned ≤ active.nTimeSigned) :
    Inv (l ++ [op]) s := by
  refine ⟨h.keyed, h.dbKeyed, fun id m hm => ?_, fun m hm => ?_⟩
  · rw [brought_snoc]
    exact List.mem_append_left _ (h.mem id m hm)
  · rw [brought_snoc, List.mem_append, Option.mem_toList] at hm
    rcases hm with hm | hm
    · exact h.newest m hm
    · exact hbrings m hm

lemma isAcceptable_iff : isAcceptable env spork = true ↔ env.fLiteMode = false ∧
    (sporkDefsById spork.nSporkID).isSome = true ∧
    ¬ env.getAdjustedTime + 2 * 60 * 60 < spork.nTimeSigned ∧
    spork.nMessVersion = MESS_VER_HASH ∧ spork.isValidSig env = true := by
  simp [isAcceptable, and_assoc]

lemma processSpork_of_not_acceptable (h : isAcceptable env spork = false) :
    s.processSpork env spork = (s, false) := by
  unfold processSpork
  split_ifs with h1 h2 h3 h4 h5 h6
  · rfl
  · rfl
  · rfl
  · rfl
  · rfl
  · rfl
  · have hok : isAcceptable env spork = true := by
      rw [isAcceptable_iff]
      refine ⟨by simpa using h1, ?_, h3, not_not.mp h4, by simpa using h6⟩
      simpa [Option.isSome_iff_ne_none] using h2
    simp [hok] at h

lemma processSpork_of_acceptable (h : isAcceptable env spork = true) :
    (s.processSpork env spork).1 = if (s.mapSporksActive spork.nSporkID).any
      fun active => decide (spork.nTimeSigned ≤ active.nTimeSigned) then s
      else (s.activate env spork).writeSpork spork := by
  obtain ⟨h1, h2, h3, h4, h5⟩ := isAcceptable_iff.mp h
  have h2 : ¬ (sporkDefsById spork.nSporkID).isNone = true := by
    simpa [Option.isSome_iff_ne_none] using h2
  unfold processSpork
  rw [if_neg (by simp [h1]), if_neg h2, if_neg h3, if_neg (by simp [h4])]
  split_ifs with h6 h7
  · rfl
  · simp [h5] at h7
  · rfl

lemma Inv.step (h : Inv l s) (hop : s.Careful op) : Inv (l ++ [op]) (s.step op) := by
  cases op with
  | processSpork env spork =>
    rw [CSporkManager.step]
    cases hok : isAcceptable env spork with
    | false =>
      rw [processSpork_of_not_acceptable hok]
      exact h.keep (by simp [brings, hok])
    | true =>
      have hbrings : brings (.processSpork env spork) = some spork := by simp [brings, hok]
      rw [processSpork_of_acceptable hok]
      split_ifs with hold
      · -- the message that is there has been signed later
        refine h.keep fun m hm => ?_
        obtain rfl := Option.some.inj (hbrings.symm.trans hm)
        rw [Option.any_eq_true] at hold
        obtain ⟨active, hactive, hle⟩ := hold
        exact ⟨active, hactive, by simpa using hle⟩
      · refine h.activate hbrings (sporkDefsById_isSome.mp (isAcceptable_iff.mp hok).2.1)
          (fun m hm => ?_) fun id m hm => ?_
        · simp only [hm, Option.any_some, decide_eq_true_eq, not_le] at hold
          exact hold.le
        · rcases eq_or_ne id spork.nSporkID with rfl | hid
          · obtain rfl : spork = m := by simpa [CSporkManager.activate] using hm
            rfl
          · exact h.dbKeyed id m (by simpa [CSporkManager.activate, hid] using hm)
  | updateSpork env nSporkID nValue =>
    rw [CSporkManager.step, updateSpork]
    cases hnew : newSpork env nSporkID nValue with
    | none => exact h.keep (by simp [brings, hnew])
    | some spork =>
      obtain ⟨hid, htime⟩ : spork.nSporkID = nSporkID.toInt ∧ spork.nTimeSigned = env.getTime := by
        obtain ⟨sig, -, rfl⟩ := Option.map_eq_some_iff.mp hnew
        exact ⟨rfl, rfl⟩
      refine h.activate (by simp [brings, hnew]) ⟨nSporkID, hid.symm⟩ ?_ h.dbKeyed
      rw [hid, htime]
      exact hop
  | restart env =>
    rw [CSporkManager.step]
    have hactive : (s.restart env).mapSporksActive = s.mapSporksActive := by
      funext id
      rw [restart_active h.dbKeyed]
      split_ifs with hknown
      · obtain ⟨nSporkID, rfl⟩ := sporkDefsById_isSome.mp hknown
        exact hop nSporkID
      · cases hm : s.mapSporksActive id with
        | none => rfl
        | some m => exact absurd (sporkDefsById_isSome.mpr (h.keyed id m hm).2) hknown
    have hkept : Inv (l ++ [.restart env]) s := h.keep (by simp [brings])
    refine ⟨?_, ?_, ?_, ?_⟩
    · rw [hactive]
      exact hkept.keyed
    · rw [restart_sporkDB]
      exact hkept.dbKeyed
    · rw [hactive]
      exact hkept.mem
    · rw [hactive]
      exact hkept.newest

lemma inv_of_run (h : Run step Careful initial l s) : Inv l s := by
  induction h with
  | nil => exact inv_initial
  | snoc _ hop ih => exact ih.step hop

/-- **Sporks converge.** As long as the node does not set a value with a clock behind the message
that is there, and is not started again with a message that is not in the database, every spork has
the value of the message that has been signed last, and its default when there is none. A message
whose signature is bad changes nothing in any state. -/
theorem sporks_converge (l : List Op) (s : CSporkManager) :
    (Run step Careful initial l s → ∀ nSporkID : Spork,
      (∀ m ∈ brought l, m.nSporkID = nSporkID.toInt →
        (∀ m' ∈ brought l, m'.nSporkID = nSporkID.toInt → m' = m ∨ m'.nTimeSigned < m.nTimeSigned) →
        s.getSporkValue nSporkID.toInt = m.nValue) ∧
      ((∀ m ∈ brought l, m.nSporkID ≠ nSporkID.toInt) → ∀ d ∈ sporkDefs, d.1 = nSporkID →
        s.getSporkValue nSporkID.toInt = d.2)) ∧
    ∀ env spork, spork.isValidSig env = false → s.processSpork env spork = (s, false) := by
  refine ⟨fun hrun nSporkID => ?_, fun env spork hbad => ?_⟩
  · have hinv := inv_of_run hrun
    refine ⟨fun m hm hid hlast => ?_, fun hnone d hd hid => ?_⟩
    · obtain ⟨active, hactive, hle⟩ := hinv.newest m hm
      rw [hid] at hactive
      have heq : active = m := by
        rcases hlast active (hinv.mem _ _ hactive) (hinv.keyed _ _ hactive).1 with heq | hlt
        · exact heq
        · exact absurd hle (not_le.mpr hlt)
      rw [getSporkValue, hactive, heq]
    · have hempty : s.mapSporksActive nSporkID.toInt = none := by
        cases hm : s.mapSporksActive nSporkID.toInt with
        | none => rfl
        | some m => exact absurd (hinv.keyed _ _ hm).1 (hnone m (hinv.mem _ _ hm))
      have hdefault : ∀ d ∈ sporkDefs, sporkDefsById d.1.toInt = some d := by decide
      rw [getSporkValue, hempty, ← hid, hdefault d hd]
      rfl
  · refine processSpork_of_not_acceptable ?_
    simp [isAcceptable, hbad]

end CSporkManager

end Agenor

namespace Agenor.Concrete

open CSporkManager

/-- A node that holds the key of the sporks, key 3. -/
def sporkEnv (now : ℤ) : SporkEnv where
  S := plainSigner
  signatureHash _ nSporkID nValue nTimeSigned := BitVec.ofInt 256 (nSporkID + nValue + nTimeSigned)
  hashQuark nSporkID nValue nTimeSigned := BitVec.ofInt 256 (nSporkID + nValue + nTimeSigned)
  sporkPubKey := [3]
  sporkPubKeyOld := [4]
  nTime_EnforceNewSporkKey := 0
  nTime_RejectOldSporkKey := 0
  getAdjustedTime := now
  getTime := now
  fLiteMode := false
  signHash hash := some [3, UInt8.ofNat hash.toNat]

/-- The message that sets the highest value of an instant transaction at some time. -/
def maxValueSpork (nValue nTimeSigned : ℤ) : CSporkMessage :=
  ⟨10004, nValue, nTimeSigned,
    [3, UInt8.ofNat (BitVec.ofInt 256 (10004 + nValue + nTimeSigned)).toNat],
    MESS_VER_HASH⟩

/-- Two messages come in, the later one first; the node is started again, and sets a new value. -/
def sporkRun : List Op :=
  [.processSpork (sporkEnv 300) (maxValueSpork 20 200),
    .processSpork (sporkEnv 300) (maxValueSpork 10 100), .restart (sporkEnv 400),
    .updateSpork (sporkEnv 500) .SPORK_5_MAX_VALUE 50]

/-- A value is set, and the node is started again. -/
def sporkLost : List Op :=
    [.updateSpork (sporkEnv 500) .SPORK_5_MAX_VALUE 50, .restart (sporkEnv 600)]

end Agenor.Concrete

namespace Agenor.CSporkManager

open Lib Concrete

set_option maxRecDepth 20000 in
/-- The value that has been set last counts. -/
theorem last_spork_counts :
    ∃ s, Run step Careful initial sporkRun s ∧ s.getSporkValue 10004 = 50 := by
  have hallowed : Run.Allowed step Careful initial sporkRun := by
    refine ⟨trivial, trivial, fun nSporkID => ?_, fun spork hspork => ?_, trivial⟩
    · cases nSporkID <;> decide
    · have hthere : ((((initial.step (.processSpork (sporkEnv 300) (maxValueSpork 20 200))).step
          (.processSpork (sporkEnv 300) (maxValueSpork 10 100))).step
          (.restart (sporkEnv 400))).mapSporksActive 10004) = some (maxValueSpork 20 200) := by
        decide
      obtain rfl := Option.some.inj (hthere.symm.trans hspork)
      decide
  have hrun := Run.nil.append_allowed hallowed
  refine ⟨_, hrun, ?_⟩
  exact (((sporks_converge _ _).1 hrun .SPORK_5_MAX_VALUE).1 (maxValueSpork 50 500) (by decide)
    (by decide) (by decide))

set_option maxRecDepth 20000 in
/-- A value that the node has set itself is lost when it is started again. -/
theorem own_value_is_lost :
    ¬ ∀ (l : List Op) (s : CSporkManager), Run step (fun _ _ => True) initial l s →
      ∀ nSporkID : Spork, ∀ m ∈ brought l, m.nSporkID = nSporkID.toInt →
        (∀ m' ∈ brought l, m'.nSporkID = nSporkID.toInt → m' = m ∨ m'.nTimeSigned < m.nTimeSigned) →
        s.getSporkValue nSporkID.toInt = m.nValue := by
  intro h
  have hrun : Run step (fun _ _ => True) initial sporkLost (sporkLost.foldl step initial) :=
    Run.nil.append fun _ _ _ => trivial
  have hvalue := h _ _ hrun .SPORK_5_MAX_VALUE (maxValueSpork 50 500) (by decide) (by decide)
    (by decide)
  exact absurd hvalue (by decide)

end Agenor.CSporkManager
