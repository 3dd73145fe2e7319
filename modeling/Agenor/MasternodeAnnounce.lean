import Agenor.MasternodePings

/-!
Entries that other nodes accept.

The signature of a broadcast covers either a hash or a text, and the version of the message says
which. `UpdateFromNewBroadcast` takes the signature of the new broadcast and keeps the version of
the old one, and the version is not written to `mncache.dat`. So the entry of a masternode that
changes from one kind of signature to the other, or that is read back after it has signed a text, is
refused by every node it is sent to.
-/

namespace Agenor.MnNode

open Lib CMasternodeMan

variable {S : Signer} {n : MnNode} {mn : CMasternode} {mnb : CMasternodeBroadcast} {op : MnOp}

/-- The broadcast that is built from an entry passes its check. -/
def IsAnnounceable (S : Signer) (mn : CMasternode) : Prop :=
  mn.toCMasternodeBroadcast.checkSignature S = true

/-- A broadcast changes an entry only when both are signed in the same way, and the entries that are
saved have signed a hash. -/
def VersionsKept (S : Signer) (n : MnNode) : MnOp → Prop
  | .broadcast env mnb => Reaches S env n.man mnb → ∀ mn, n.man.find mnb.vin = some mn →
    mn.isEnabled = true → (mn.nMessVersion = MESS_VER_HASH ↔ mnb.nMessVersion = MESS_VER_HASH)
  | .dump => ∀ mn ∈ n.man.vMasternodes, mn.nMessVersion = MESS_VER_HASH
  | _ => True

lemma checkSignature_copyFields
    (h : mn.nMessVersion = MESS_VER_HASH ↔ mnb.nMessVersion = MESS_VER_HASH) :
    (copyFields mnb mn).toCMasternodeBroadcast.checkSignature S = mnb.checkSignature S := by
  by_cases hmnb : mnb.nMessVersion = MESS_VER_HASH
  · have hmn := h.mpr hmnb
    simp [CMasternodeBroadcast.checkSignature, CMasternodeBroadcast.getSignatureHash, copyFields,
      hmn, hmnb]
  · have hmn := mt h.mp hmnb
    simp [CMasternodeBroadcast.checkSignature, CMasternodeBroadcast.getStrMessage, copyFields,
      hmn, hmnb]

lemma unserialize_serialize (h : mn.nMessVersion = MESS_VER_HASH) :
    mn.serialize.unserialize = mn := by
  obtain ⟨mnb, state, test⟩ := mn
  obtain ⟨vin, addr, collateral, key, sig, time, protocol, ping, version⟩ := mnb
  have h : version = MESS_VER_HASH := h
  subst h
  rfl

lemma VersionsKept.keeps (h : Listed (IsAnnounceable S) n) (hop : n.VersionsKept S op) :
    n.Keeps S (IsAnnounceable S) op := by
  cases op with
  | broadcast env mnb =>
    intro hreach x hx
    cases hx with
    | old hx => exact h.now x hx
    | @pinged e hfind _ => exact h.now e (find_mem hfind)
    | added hsig => exact hsig
    | updated hsig hfind henabled =>
      exact (checkSignature_copyFields (hop hreach _ hfind henabled)).trans hsig
    | fieldsOnly hsig hfind henabled _ =>
      exact (checkSignature_copyFields (hop hreach _ hfind henabled)).trans hsig
  | ping env mnp => exact fun x hx _ => h.now x hx
  | dump =>
    intro mn hmn
    rw [unserialize_serialize (hop mn hmn)]
    exact h.now mn hmn
  | getMNList _ _ => trivial
  | check _ => trivial
  | checkAndRemove _ _ => trivial
  | load _ => trivial

/-- **Every masternode can be announced again.** When no broadcast changes the way an entry is
signed, and no entry is saved that has signed a text, the broadcasts that are built from the entries
pass `CheckSignature`; so do those that other nodes are told of. -/
theorem checkSignature_of_run {l : List MnOp} (h : Run (step S) (VersionsKept S) initial l n) :
    (∀ mn ∈ n.man.vMasternodes, mn.toCMasternodeBroadcast.checkSignature S = true) ∧
    ∀ env vin, ∀ mnb ∈ n.man.served env vin, mnb.checkSignature S = true := by
  have hlisted : Listed (IsAnnounceable S) n := by
    refine h.invariant (listed_initial _) fun n op hn hop => hn.step ?_ (hop.keeps hn)
    rintro x e ⟨state, rfl⟩ hx
    exact hx
  refine ⟨hlisted.now, fun env vin mnb hmnb => ?_⟩
  obtain ⟨mn, hmn, rfl⟩ := List.mem_map.mp hmnb
  exact hlisted.now mn (List.mem_of_mem_filter hmn)

end Agenor.MnNode

namespace Agenor.Concrete

open MnNode

/-- The masternode is announced anew at 10700, and pings 700 seconds later. -/
def renewed (nMessVersion : ℤ) (vchSig : List UInt8) : CMasternodeBroadcast :=
  { mnBroadcast (mnPing 11400 [2, 114]) with
    sigTime := 10700
    vchSig := vchSig
    nMessVersion := nMessVersion }

/-- The list is saved and read back after an update. -/
def renewAndRestart : List MnOp :=
  [.broadcast (mnEnv 10000) (mnBroadcast (mnPing 10000 [2, 100])),
    .broadcast (mnEnv 11400) (renewed MESS_VER_HASH [1, 11]), .dump, .load (mnEnv 11500)]

/-- The new broadcast has signed a text. -/
def renewWithText : List MnOp :=
  [.broadcast (mnEnv 10000) (mnBroadcast (mnPing 10000 [2, 100])),
    .broadcast (mnEnv 11400) (renewed MESS_VER_STRMESS [1, 27])]

end Agenor.Concrete

namespace Agenor.MnNode

open Lib Concrete

set_option maxRecDepth 20000 in
/-- After an update and a restart the entry can be sent on. -/
theorem announced_after_restart :
    ∃ n, Run (step plainSigner) (VersionsKept plainSigner) initial renewAndRestart n ∧
      n.man.vMasternodes.map (·.sigTime) = [10700] ∧
      ∀ mn ∈ n.man.vMasternodes, mn.toCMasternodeBroadcast.checkSignature plainSigner = true := by
  have hallowed : Run.Allowed (step plainSigner) (VersionsKept plainSigner) initial
      renewAndRestart := by
    refine ⟨fun _ mn hmn _ => (by cases hmn), fun _ mn hmn _ => ?_, ?_, trivial, trivial⟩
    · obtain rfl := Option.some.inj hmn
      decide
    · change ∀ mn ∈ _, _
      decide
  have hrun := Run.nil.append_allowed hallowed
  exact ⟨_, hrun, by decide, (checkSignature_of_run hrun).1⟩

set_option maxRecDepth 20000 in
/-- An update whose signature covers a text leaves an entry that no other node accepts. -/
theorem refused_after_update :
    ¬ ∀ (S : Signer) (l : List MnOp) (n : MnNode), Run (step S) (fun _ _ => True) initial l n →
      ∀ mn ∈ n.man.vMasternodes, mn.toCMasternodeBroadcast.checkSignature S = true := by
  intro h
  have hrun : Run (step plainSigner) (fun _ _ => True) initial renewWithText
      (renewWithText.foldl (step plainSigner) initial) := Run.nil.append fun _ _ _ => trivial
  exact absurd (h _ _ _ hrun) (by decide)

end Agenor.MnNode
