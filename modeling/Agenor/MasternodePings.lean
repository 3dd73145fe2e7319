import Agenor.Lib.Run
import Agenor.Masternode

/-!
Who keeps a masternode alive.

The ping that comes with a broadcast is not covered by the signature of the broadcast. When the
masternode is not known yet the ping is not checked at all, so anybody can announce a masternode
anew with a ping of his own. When the broadcast changes the key of a known masternode and its ping
comes too early, the entry keeps a ping that the old key has signed.
-/

namespace Agenor

open Lib CMasternodeMan

variable {S : Signer} {env : MnEnv} {s : CMasternodeMan} {mn e : CMasternode}
  {mnb : CMasternodeBroadcast} {mnp : CMasternodePing} {vin : CTxIn}

/-- The last ping of an entry is missing, or signed with the key of the masternode. -/
def CMasternode.Vouched (S : Signer) (mn : CMasternode) : Prop :=
  mn.lastPing.isNull = true ∨ mn.lastPing.checkSignature S mn.pubKeyMasternode = true

namespace CMasternodeMan

/-! ### Entries of the list -/

lemma find_prevout (h : s.find vin = some mn) : mn.vin.prevout = vin.prevout := by
  have := List.find?_some h
  simpa using this

lemma find_congr {vin' : CTxIn} (h : vin'.prevout = vin.prevout) : s.find vin' = s.find vin := by
  simp [find, h]

lemma find_mem (h : s.find vin = some mn) : mn ∈ s.vMasternodes := List.mem_of_find?_eq_some h

lemma mem_modify {f : CMasternode → CMasternode} (h : e ∈ (s.modify vin f).vMasternodes) :
    e ∈ s.vMasternodes ∨ ∃ mn, s.find vin = some mn ∧ e = f mn := by
  unfold modify at h
  unfold find
  dsimp only at h
  generalize s.vMasternodes = l at h ⊢
  induction l with
  | nil => simp [modifyEntry] at h
  | cons mn l ih =>
    rw [modifyEntry] at h
    split_ifs at h with ho
    · rcases List.mem_cons.mp h with rfl | h
      · exact .inr ⟨mn, by simp [ho], rfl⟩
      · exact .inl (List.mem_cons_of_mem _ h)
    · rcases List.mem_cons.mp h with rfl | h
      · exact .inl (List.mem_cons_self ..)
      · rcases ih h with h | ⟨mn', hfind, rfl⟩
        · exact .inl (List.mem_cons_of_mem _ h)
        · refine .inr ⟨mn', ?_, rfl⟩
          rw [List.find?_cons_of_neg (by simpa using ho)]
          exact hfind

lemma find_modify {f : CMasternode → CMasternode} (hf : ∀ mn, (f mn).vin = mn.vin) (w : CTxIn) :
    (s.modify vin f).find w =
      if w.prevout = vin.prevout then (s.find w).map f else s.find w := by
  unfold modify find
  dsimp only
  induction s.vMasternodes with
  | nil => simp [modifyEntry]
  | cons mn l ih =>
    rw [modifyEntry]
    split_ifs with ho hw hw
    · rw [List.find?_cons_of_pos (by simp [hf, ho, hw]), List.find?_cons_of_pos (by simp [ho, hw])]
      rfl
    · have hne : ¬ mn.vin.prevout = w.prevout := fun heq => hw (heq.symm.trans ho)
      rw [List.find?_cons_of_neg (by simpa [hf] using hne),
        List.find?_cons_of_neg (by simpa using hne)]
    · have hne : ¬ mn.vin.prevout = w.prevout := fun heq => ho (heq.trans hw)
      rw [List.find?_cons_of_neg (by simpa using hne), List.find?_cons_of_neg (by simpa using hne),
        ih, if_pos hw]
    · rw [if_neg hw] at ih
      rw [List.find?_cons, List.find?_cons, ih]

lemma modifyEntry_modifyEntry {o : COutPoint} {f g : CMasternode → CMasternode}
    (hf : ∀ mn, (f mn).vin = mn.vin) (l : List CMasternode) :
    modifyEntry o g (modifyEntry o f l) = modifyEntry o (g ∘ f) l := by
  induction l with
  | nil => rfl
  | cons mn l ih =>
    by_cases ho : mn.vin.prevout = o
    · simp [modifyEntry, ho, hf]
    · simp [modifyEntry, ho, ih]

/-! ### What the handlers preserve

A property of lists that survives the changes a handler may make holds of what it returns. -/

section Preserves

variable {R : CMasternodeMan → Prop}

lemma passesChecks_of_checkAndUpdate {t : CMasternodeMan} {relayed : Bool}
    (h : s.checkAndUpdate S env mnb = (t, true, relayed)) : s.passesChecks S env mnb = true := by
  by_contra hpass
  rw [Bool.not_eq_true] at hpass
  simp [checkAndUpdate, hpass] at h

lemma checkAndUpdatePing_preserves {fRequireEnabled : Bool} (hs : R s)
    (htake : ∀ mn, s.find mnp.vin = some mn → mnp.checkSignature S mn.pubKeyMasternode = true →
      R (s.takePing S env mn mnp)) : R (s.checkAndUpdatePing S env mnp fRequireEnabled).1 := by
  unfold checkAndUpdatePing
  cases hfind : s.find mnp.vin with
  | none =>
    dsimp only
    split_ifs <;> exact hs
  | some mn =>
    dsimp only
    split_ifs with htimely hproto henabled hearly hsig hblock
    · exact hs
    · exact hs
    · exact hs
    · exact hs
    · exact hs
    · exact hs
    · exact htake mn hfind (by simpa using hsig)

lemma updateFromNewBroadcast_preserves (hfields : R (s.modify mnb.vin (copyFields mnb)))
    (hping : R ((s.modify mnb.vin (copyFields mnb)).checkAndUpdatePing S env mnb.lastPing false).1)
    (hcopy : ∀ t, R t → R (t.copyPing S mnb)) : R (s.updateFromNewBroadcast S env mnb) := by
  unfold updateFromNewBroadcast
  dsimp only
  split_ifs
  · exact hcopy _ hfields
  · cases hres : (s.modify mnb.vin (copyFields mnb)).checkAndUpdatePing S env mnb.lastPing false
      with
    | mk t ok =>
      rw [hres] at hping
      cases ok with
      | false => exact hping
      | true => exact hcopy t hping

lemma checkAndUpdate_preserves (hs : R s)
    (hupdate : ∀ mn, s.passesChecks S env mnb = true → s.find mnb.vin = some mn →
      mn.isEnabled = true →
      R ((s.updateFromNewBroadcast S env mnb).modify mnb.vin (·.check env true))) :
    R (s.checkAndUpdate S env mnb).1 := by
  unfold checkAndUpdate
  split_ifs with hpass
  · exact hs
  · cases hfind : s.find mnb.vin with
    | none => exact hs
    | some mn =>
      dsimp only
      split_ifs with htime henabled hsame
      · exact hs
      · exact hs
      · exact hupdate mn (by simpa using hpass) hfind (by simpa using henabled)
      · exact hs

/-- The list without the entry that is there. -/
def cleared (s : CMasternodeMan) (vin : CTxIn) : CMasternodeMan :=
  match s.find vin with
  | some mn => s.remove mn.vin
  | none => s

lemma cleared_cases (s : CMasternodeMan) (vin : CTxIn) :
    s.cleared vin = s ∨ ∃ mn, s.find vin = some mn ∧ s.cleared vin = s.remove mn.vin := by
  unfold cleared
  cases hfind : s.find vin with
  | none => exact .inl rfl
  | some mn => exact .inr ⟨mn, rfl, rfl⟩

lemma checkInputsAndAdd_cases (S : Signer) (env : MnEnv) (s : CMasternodeMan)
    (mnb : CMasternodeBroadcast) : ∃ t,
    (t = s ∨ ∃ mn, s.find mnb.vin = some mn ∧ t = s.remove mn.vin) ∧
    (s.checkInputsAndAdd S env mnb = (t, false) ∨
      s.checkInputsAndAdd S env mnb = (t.forget S mnb, false) ∨
      s.checkInputsAndAdd S env mnb = (t.add mnb.toMasternode, !env.isLocal mnb.addr)) := by
  unfold checkInputsAndAdd
  by_cases hactive : env.isActiveMasternode mnb.vin.prevout mnb.pubKeyMasternode = true
  · exact ⟨s, .inl rfl, .inl (if_pos hactive)⟩
  by_cases hping : (mnb.lastPing.isNull || !s.checkSigTime S env mnb.lastPing) = true
  · exact ⟨s, .inl rfl, .inl (by rw [if_neg hactive, if_pos hping])⟩
  by_cases henabled : (s.find mnb.vin).any (·.isEnabled) = true
  · exact ⟨s, .inl rfl, .inl (by rw [if_neg hactive, if_neg hping, if_pos henabled])⟩
  refine ⟨s.cleared mnb.vin, s.cleared_cases mnb.vin, ?_⟩
  rw [if_neg hactive, if_neg hping, if_neg henabled]
  -- the lock, the inputs, the depth of the collateral and the time of its block
  refine iteInduction (motive := fun r => r = _ ∨ r = _ ∨ r = _) (fun _ => .inr (.inl rfl))
    fun _ => ?_
  refine iteInduction (motive := fun r => r = _ ∨ r = _ ∨ r = _) (fun _ => .inl rfl) fun _ => ?_
  refine iteInduction (motive := fun r => r = _ ∨ r = _ ∨ r = _) (fun _ => .inr (.inl rfl))
    fun _ => ?_
  exact iteInduction (motive := fun r => r = _ ∨ r = _ ∨ r = _) (fun _ => .inl rfl)
    fun _ => .inr (.inr rfl)

lemma checkInputsAndAdd_preserves (hs : R s)
    (hremove : ∀ mn, s.find mnb.vin = some mn → R (s.remove mn.vin))
    (hforget : ∀ t, R t → R (t.forget S mnb)) (hadd : ∀ t, R t → R (t.add mnb.toMasternode)) :
    R (s.checkInputsAndAdd S env mnb).1 := by
  obtain ⟨t, ht, hres⟩ := checkInputsAndAdd_cases S env s mnb
  have hcleared : R t := by
    rcases ht with rfl | ⟨mn, hfind, rfl⟩
    · exact hs
    · exact hremove mn hfind
  rcases hres with hres | hres | hres
  · rw [hres]
    exact hcleared
  · rw [hres]
    exact hforget t hcleared
  · rw [hres]
    exact hadd t hcleared

lemma processBroadcast_preserves (hs : R s)
    (hcheck : R ((s.seeBroadcast S mnb).checkAndUpdate S env mnb).1)
    (hadd : (s.seeBroadcast S mnb).passesChecks S env mnb = true →
      R (((s.seeBroadcast S mnb).checkAndUpdate S env mnb).1.checkInputsAndAdd S env mnb).1) :
    R (s.processBroadcast S env mnb).1 := by
  unfold processBroadcast
  by_cases hlistens : (!listens env) = true
  · rw [if_pos hlistens]
    exact hs
  by_cases hseen : (s.mapSeenMasternodeBroadcast (mnb.getHash S)).isSome = true
  · rw [if_neg hlistens, if_pos hseen]
    exact hs
  rw [if_neg hlistens, if_neg hseen]
  cases hres : (s.seeBroadcast S mnb).checkAndUpdate S env mnb with
  | mk t r =>
    obtain ⟨ok, relayed⟩ := r
    rw [hres] at hcheck hadd
    cases ok with
    | false => exact hcheck
    | true =>
      dsimp only
      split_ifs
      · exact hcheck
      · exact hadd (passesChecks_of_checkAndUpdate hres)

lemma processPing_preserves (hs : R s)
    (hcheck : R ((s.seePing S mnp).checkAndUpdatePing S env mnp true).1) :
    R (s.processPing S env mnp).1 := by
  unfold processPing
  split_ifs
  · exact hs
  · exact hs
  · exact hcheck

end Preserves

/-! ### What a message can bring into the list -/

/-- A ping reaches the list: it comes from the masternode, in time and with a recent block. -/
structure Takes (env : MnEnv) (mn : CMasternode) (mnp : CMasternodePing) : Prop where
  vin : mnp.vin.prevout = mn.vin.prevout
  early : mn.isPingedWithin env (MASTERNODE_MIN_MNP_SECONDS - 60) mnp.sigTime = false
  block : env.isRecentBlock mnp.blockHash = true

/-- An entry is the given one but for its state. -/
def SameEntry (x e : CMasternode) : Prop := ∃ state, e = { x with activeState := state }

lemma sameEntry_refl (e : CMasternode) : SameEntry e e := ⟨e.activeState, rfl⟩

lemma sameEntry_check (force : Bool) : SameEntry e (e.check env force) := e.check_cases env force

lemma SameEntry.trans {x y z : CMasternode} (h : SameEntry x y) (h' : SameEntry y z) :
    SameEntry x z := by
  obtain ⟨state, rfl⟩ := h
  obtain ⟨state', rfl⟩ := h'
  exact ⟨state', rfl⟩

lemma mem_checkAndUpdatePing {fRequireEnabled : Bool}
    (he : e ∈ (s.checkAndUpdatePing S env mnp fRequireEnabled).1.vMasternodes) :
    e ∈ s.vMasternodes ∨ ∃ x, s.find mnp.vin = some x ∧
      mnp.checkSignature S x.pubKeyMasternode = true ∧ SameEntry { x with lastPing := mnp } e := by
  revert he
  refine checkAndUpdatePing_preserves (R := fun t => e ∈ t.vMasternodes → _) .inl
    fun x hfind hsig he => ?_
  rcases mem_modify (s := s) he with he | ⟨y, hy, rfl⟩
  · exact .inl he
  · obtain rfl := Option.some.inj (hfind.symm.trans hy)
    exact .inr ⟨x, hfind, hsig, sameEntry_check true⟩

lemma checkAndUpdatePing_of_takes (hfind : s.find mnp.vin = some mn) (htake : Takes env mn mnp)
    (htime : isTimely env mnp = true) (hproto : env.activeProtocol ≤ mn.protocolVersion)
    (hsig : mnp.checkSignature S mn.pubKeyMasternode = true) :
    (s.checkAndUpdatePing S env mnp false).1.vMasternodes =
      modifyEntry mnp.vin.prevout (fun mn => { mn with lastPing := mnp }.check env true)
        s.vMasternodes := by
  unfold checkAndUpdatePing
  simp only [htime, hfind, not_lt.mpr hproto, htake.early, hsig, htake.block, Bool.not_true,
    Bool.false_eq_true, Bool.false_and, if_false]
  rfl

lemma passesChecks_isTimely (h : s.passesChecks S env mnb = true) :
    isTimely env mnb.lastPing = true := by
  simp only [passesChecks, checkSigTime, Bool.and_eq_true] at h
  exact h.1.1.1.1.2.2.1

lemma passesChecks_protocol (h : s.passesChecks S env mnb = true) :
    env.activeProtocol ≤ mnb.protocolVersion := by
  simp only [passesChecks, Bool.and_eq_true, Bool.not_eq_true', decide_eq_false_iff_not,
    not_lt] at h
  exact h.1.1.1.2

lemma passesChecks_checkSignature (h : s.passesChecks S env mnb = true) :
    mnb.checkSignature S = true := by
  simp only [passesChecks, Bool.and_eq_true] at h
  exact h.1.2

/-- The entries that a broadcast can bring into the list. -/
inductive Brought (S : Signer) (env : MnEnv) (s : CMasternodeMan) (mnb : CMasternodeBroadcast) :
    CMasternode → Prop
  | old {e : CMasternode} : e ∈ s.vMasternodes → Brought S env s mnb e
  /-- The ping is for another masternode than the broadcast. -/
  | pinged {e : CMasternode} : s.find mnb.lastPing.vin = some e →
      mnb.lastPing.checkSignature S e.pubKeyMasternode = true →
      Brought S env s mnb { e with lastPing := mnb.lastPing }
  | added : mnb.checkSignature S = true → Brought S env s mnb mnb.toMasternode
  | updated {mn : CMasternode} : mnb.checkSignature S = true → s.find mnb.vin = some mn →
      mn.isEnabled = true →
      Brought S env s mnb { copyFields mnb mn with lastPing := mnb.lastPing }
  /-- The ping of the broadcast is not taken. -/
  | fieldsOnly {mn : CMasternode} : mnb.checkSignature S = true → s.find mnb.vin = some mn →
      mn.isEnabled = true → (mnb.lastPing.checkSignature S mnb.pubKeyMasternode = true →
        ¬ Takes env mn mnb.lastPing) → Brought S env s mnb (copyFields mnb mn)

/-- An entry of a list is one that a broadcast can bring into it, but for its state. -/
def FromBroadcast (S : Signer) (env : MnEnv) (s : CMasternodeMan) (mnb : CMasternodeBroadcast)
    (e : CMasternode) : Prop :=
  ∃ x, Brought S env s mnb x ∧ SameEntry x e

lemma copyFields_vin (mn : CMasternode) : (copyFields mnb mn).vin = mn.vin := rfl

lemma find_checkAndUpdatePing {fRequireEnabled : Bool} {w : CTxIn}
    (hw : (s.checkAndUpdatePing S env mnp fRequireEnabled).1.find w = some e) :
    ∃ x ping, s.find w = some x ∧ SameEntry { x with lastPing := ping } e := by
  have hsame : s.find w = some e → ∃ x ping, s.find w = some x ∧
      SameEntry { x with lastPing := ping } e := fun h => ⟨e, e.lastPing, h, sameEntry_refl e⟩
  revert hw
  refine checkAndUpdatePing_preserves (R := fun t => t.find w = some e → _) hsame
    fun y _ _ hw => ?_
  have hvin : ∀ mn : CMasternode, ({ mn with lastPing := mnp }.check env true).vin = mn.vin :=
    fun mn => CMasternode.check_vin env { mn with lastPing := mnp } true
  have heq : (s.takePing S env y mnp).find w = (s.modify mnp.vin fun mn =>
      { mn with lastPing := mnp }.check env true).find w := rfl
  rw [heq, find_modify hvin] at hw
  split_ifs at hw with hvw
  · obtain ⟨x, hx, rfl⟩ := Option.map_eq_some_iff.mp hw
    exact ⟨x, mnp, hx, sameEntry_check true⟩
  · exact hsame hw

lemma mem_updateFromNewBroadcast (hpass : s.passesChecks S env mnb = true)
    (hfind : s.find mnb.vin = some mn) (henabled : mn.isEnabled = true)
    (he : e ∈ (s.updateFromNewBroadcast S env mnb).vMasternodes) : FromBroadcast S env s mnb e := by
  have hsig := passesChecks_checkSignature hpass
  have hprevout := find_prevout hfind
  have hfind' : ∀ w, (s.modify mnb.vin (copyFields mnb)).find w = if w.prevout = mnb.vin.prevout
      then (s.find w).map (copyFields mnb) else s.find w := fun w => find_modify copyFields_vin w
  -- the list after the ping has been looked at
  have hpinged : ∀ x ∈ ((s.modify mnb.vin (copyFields mnb)).checkAndUpdatePing S env mnb.lastPing
      false).1.vMasternodes, FromBroadcast S env s mnb x := by
    intro x hx
    by_cases htake : mnb.lastPing.checkSignature S mnb.pubKeyMasternode = true ∧
        Takes env mn mnb.lastPing
    · obtain ⟨hping, htake⟩ := htake
      have hvin : mnb.lastPing.vin.prevout = mnb.vin.prevout := htake.vin.trans hprevout
      have hfound : (s.modify mnb.vin (copyFields mnb)).find mnb.lastPing.vin =
          some (copyFields mnb mn) := by
        rw [hfind', if_pos hvin, find_congr hvin, hfind]
        rfl
      have hproto : env.activeProtocol ≤ mnb.protocolVersion := passesChecks_protocol hpass
      rw [checkAndUpdatePing_of_takes hfound ⟨htake.vin, htake.early, htake.block⟩
        (passesChecks_isTimely hpass) hproto hping, hvin] at hx
      have hx : x ∈ (s.modify mnb.vin ((fun mn => { mn with lastPing := mnb.lastPing }.check env
          true) ∘ copyFields mnb)).vMasternodes := by
        unfold modify
        dsimp only
        rw [← modifyEntry_modifyEntry copyFields_vin]
        exact hx
      rcases mem_modify hx with hx | ⟨y, hy, rfl⟩
      · exact ⟨x, .old hx, sameEntry_refl x⟩
      · obtain rfl := Option.some.inj (hfind.symm.trans hy)
        exact ⟨_, .updated hsig hfind henabled, sameEntry_check true⟩
    · have hnot : mnb.lastPing.checkSignature S mnb.pubKeyMasternode = true →
          ¬ Takes env mn mnb.lastPing := fun hp ht => htake ⟨hp, ht⟩
      rcases mem_checkAndUpdatePing hx with hx | ⟨y, hy, hys, hyx⟩
      · rcases mem_modify hx with hx | ⟨z, hz, rfl⟩
        · exact ⟨x, .old hx, sameEntry_refl x⟩
        · obtain rfl := Option.some.inj (hfind.symm.trans hz)
          exact ⟨_, .fieldsOnly hsig hfind henabled hnot, sameEntry_refl _⟩
      · rw [hfind'] at hy
        split_ifs at hy with hvin
        · rw [find_congr hvin, hfind] at hy
          obtain rfl := Option.some.inj hy
          exact ⟨_, .updated hsig hfind henabled, hyx⟩
        · exact ⟨_, .pinged hy hys, hyx⟩
  unfold updateFromNewBroadcast at he
  -- the ping becomes that of the entry
  have hcopy : ∀ t : CMasternodeMan, (∀ x ∈ t.vMasternodes, FromBroadcast S env s mnb x) →
      (∀ x, t.find mnb.vin = some x → ∃ ping,
        SameEntry { copyFields mnb mn with lastPing := ping } x) →
      ∀ x ∈ (t.copyPing S mnb).vMasternodes, FromBroadcast S env s mnb x := by
    intro t ht hfound x hx
    rcases mem_modify (s := t) hx with hx | ⟨y, hy, rfl⟩
    · exact ht x hx
    · obtain ⟨ping, state, rfl⟩ := hfound y hy
      exact ⟨_, .updated hsig hfind henabled, state, rfl⟩
  have hnull : mnb.lastPing.isNull = false := by
    simp only [passesChecks, Bool.and_eq_true] at hpass
    simpa using hpass.1.1.1.1.2.1
  simp only [hnull, Bool.false_eq_true, if_false] at he
  cases hres : (s.modify mnb.vin (copyFields mnb)).checkAndUpdatePing S env mnb.lastPing false with
  | mk t ok =>
    rw [hres] at he hpinged
    cases ok with
    | false => exact hpinged e he
    | true =>
      refine hcopy t hpinged (fun x hx => ?_) e he
      have hx : ((s.modify mnb.vin (copyFields mnb)).checkAndUpdatePing S env mnb.lastPing
          false).1.find mnb.vin = some x := by
        rw [hres]
        exact hx
      obtain ⟨y, ping, hy, hyx⟩ := find_checkAndUpdatePing hx
      rw [hfind', if_pos rfl, hfind] at hy
      obtain rfl := Option.some.inj hy
      exact ⟨ping, hyx⟩

lemma mem_checkAndUpdate (he : e ∈ (s.checkAndUpdate S env mnb).1.vMasternodes) :
    FromBroadcast S env s mnb e := by
  revert he
  refine checkAndUpdate_preserves (R := fun t => e ∈ t.vMasternodes → _)
    (fun he => ⟨e, .old he, sameEntry_refl e⟩) fun mn hpass hfind henabled he => ?_
  rcases mem_modify (s := s.updateFromNewBroadcast S env mnb) he with he | ⟨x, hx, rfl⟩
  · exact mem_updateFromNewBroadcast hpass hfind henabled he
  · obtain ⟨y, hy, hyx⟩ := mem_updateFromNewBroadcast hpass hfind henabled (find_mem hx)
    exact ⟨y, hy, hyx.trans (sameEntry_check true)⟩

lemma mem_checkInputsAndAdd (he : e ∈ (s.checkInputsAndAdd S env mnb).1.vMasternodes) :
    e ∈ s.vMasternodes ∨ e = mnb.toMasternode := by
  revert he
  refine checkInputsAndAdd_preserves (R := fun t => e ∈ t.vMasternodes → _) .inl
    (fun mn _ he => .inl (List.eraseP_sublist.subset he)) (fun _ ht => ht) fun t ht he => ?_
  unfold add at he
  split_ifs at he
  · exact ht he
  · exact ht he
  · rcases List.mem_append.mp he with he | he
    · exact ht he
    · exact .inr (List.mem_singleton.mp he)

lemma mem_processBroadcast (he : e ∈ (s.processBroadcast S env mnb).1.vMasternodes) :
    FromBroadcast S env s mnb e := by
  -- the mark of the hash does not matter to the entries
  have hsee : ∀ {x}, FromBroadcast S env (s.seeBroadcast S mnb) mnb x →
      FromBroadcast S env s mnb x := by
    rintro x ⟨y, hy, hyx⟩
    refine ⟨y, ?_, hyx⟩
    cases hy with
    | old h => exact .old h
    | pinged hfind hping => exact .pinged hfind hping
    | added hsig => exact .added hsig
    | updated hsig hfind henabled => exact .updated hsig hfind henabled
    | fieldsOnly hsig hfind henabled hnot => exact .fieldsOnly hsig hfind henabled hnot
  have hcheck : ∀ {x}, x ∈ ((s.seeBroadcast S mnb).checkAndUpdate S env mnb).1.vMasternodes →
      FromBroadcast S env s mnb x := fun hx => hsee (mem_checkAndUpdate hx)
  revert he
  refine processBroadcast_preserves (R := fun t => e ∈ t.vMasternodes → _)
    (fun he => ⟨e, .old he, sameEntry_refl e⟩) hcheck fun hpass he => ?_
  rcases mem_checkInputsAndAdd he with he | rfl
  · exact hcheck he
  · exact ⟨_, .added (passesChecks_checkSignature hpass), sameEntry_refl _⟩

/-! ### Broadcasts that reach the list -/

/-- A broadcast is new, passes the checks, and is not turned away by the entry that is there. -/
structure Reaches (S : Signer) (env : MnEnv) (s : CMasternodeMan) (mnb : CMasternodeBroadcast) :
    Prop where
  listens : listens env = true
  unseen : s.mapSeenMasternodeBroadcast (mnb.getHash S) = none
  checks : s.passesChecks S env mnb = true
  newer : ∀ mn, s.find mnb.vin = some mn → mn.sigTime < mnb.sigTime
  update : ∀ mn, s.find mnb.vin = some mn → mn.isEnabled = true →
    mn.pubKeyCollateralAddress = mnb.pubKeyCollateralAddress ∧
    mn.isBroadcastedWithin env MASTERNODE_MIN_MNB_SECONDS = false

lemma processBroadcast_of_rejected
    (h : (s.seeBroadcast S mnb).checkAndUpdate S env mnb = (s.seeBroadcast S mnb, false, false)) :
    (s.processBroadcast S env mnb).1.vMasternodes = s.vMasternodes := by
  simp only [processBroadcast, h]
  split_ifs <;> rfl

lemma processBroadcast_of_not_reaches (h : ¬ Reaches S env s mnb) :
    (s.processBroadcast S env mnb).1.vMasternodes = s.vMasternodes := by
  by_cases hlistens : listens env = true
  swap
  · simp [processBroadcast, hlistens]
  by_cases hunseen : s.mapSeenMasternodeBroadcast (mnb.getHash S) = none
  · have hfound : (s.seeBroadcast S mnb).find mnb.vin = s.find mnb.vin := rfl
    have hsame : (s.seeBroadcast S mnb).passesChecks S env mnb = s.passesChecks S env mnb := rfl
    cases hpass : s.passesChecks S env mnb with
    | false =>
      refine processBroadcast_of_rejected ?_
      simp [checkAndUpdate, hsame, hpass]
    | true =>
      cases hfind : s.find mnb.vin with
      | none =>
        refine absurd ⟨hlistens, hunseen, hpass, fun mn hmn => ?_, fun mn hmn => ?_⟩ h
        · simp [hfind] at hmn
        · simp [hfind] at hmn
      | some mn =>
        by_cases htime : mn.sigTime < mnb.sigTime
        · have hturned : mn.isEnabled = true ∧ ¬ (mn.pubKeyCollateralAddress =
              mnb.pubKeyCollateralAddress ∧ (!mn.isBroadcastedWithin env
                MASTERNODE_MIN_MNB_SECONDS) = true) := by
            by_contra hno
            refine h ⟨hlistens, hunseen, hpass, fun x hx => ?_, fun x hx henabled => ?_⟩
            · obtain rfl := Option.some.inj (hfind.symm.trans hx)
              exact htime
            · obtain rfl := Option.some.inj (hfind.symm.trans hx)
              rw [not_and, not_not] at hno
              simpa using hno henabled
          have hcheck : (s.seeBroadcast S mnb).checkAndUpdate S env mnb =
              (s.seeBroadcast S mnb, true, false) := by
            simp only [checkAndUpdate, hsame, hpass, hfound, hfind, not_le.mpr htime, hturned.1,
              if_neg hturned.2]
            simp
          have hadd : ((s.seeBroadcast S mnb).checkInputsAndAdd S env mnb).1 =
              s.seeBroadcast S mnb := by
            unfold checkInputsAndAdd
            simp only [hfound, hfind, Option.any_some, hturned.1, if_true]
            split_ifs <;> rfl
          simp only [processBroadcast, hcheck, hadd]
          split_ifs <;> rfl
        · refine processBroadcast_of_rejected ?_
          simp only [checkAndUpdate, hsame, hpass, hfound, hfind, not_lt.mp htime]
          simp
  · rw [← ne_eq, Option.ne_none_iff_isSome] at hunseen
    simp [processBroadcast, hunseen]

end CMasternodeMan

/-! ### What holds of every entry -/

namespace MnNode

variable {n : MnNode} {P : CMasternode → Prop} {op : MnOp}

/-- Something holds of the entries of the list and of those in the file. -/
structure Listed (P : CMasternode → Prop) (n : MnNode) : Prop where
  now : ∀ mn ∈ n.man.vMasternodes, P mn
  saved : ∀ c, n.mncache = some c → ∀ r ∈ c.vMasternodes, P r.unserialize

lemma listed_initial (P : CMasternode → Prop) : Listed P initial where
  now := by simp [initial, CMasternodeMan.initial]
  saved := by simp [initial]

/-- The entries that an operation can make have the property. -/
def Keeps (S : Signer) (P : CMasternode → Prop) (n : MnNode) : MnOp → Prop
  | .broadcast env mnb => Reaches S env n.man mnb → ∀ x, Brought S env n.man mnb x → P x
  | .ping _ mnp => ∀ x ∈ n.man.vMasternodes, mnp.checkSignature S x.pubKeyMasternode = true →
    P { x with lastPing := mnp }
  | .dump => ∀ mn ∈ n.man.vMasternodes, P mn.serialize.unserialize
  | _ => True

lemma mem_checkAndRemove {force : Bool} (he : e ∈ (s.checkAndRemove env force).vMasternodes) :
    ∃ x ∈ s.vMasternodes, SameEntry x e := by
  obtain ⟨x, hx, rfl⟩ := List.mem_map.mp (List.mem_of_mem_filter he)
  exact ⟨x, hx, sameEntry_check false⟩

lemma Listed.step (hP : ∀ {x e}, SameEntry x e → P x → P e) (h : Listed P n)
    (hop : n.Keeps S P op) : Listed P (n.step S op) := by
  cases op with
  | broadcast env mnb =>
    refine ⟨fun e he => ?_, h.saved⟩
    by_cases hreach : Reaches S env n.man mnb
    · obtain ⟨x, hx, hxe⟩ := mem_processBroadcast he
      exact hP hxe (hop hreach x hx)
    · have he : e ∈ (n.man.processBroadcast S env mnb).1.vMasternodes := he
      rw [processBroadcast_of_not_reaches hreach] at he
      exact h.now e he
  | ping env mnp =>
    refine ⟨fun e he => ?_, h.saved⟩
    have he : e ∈ (n.man.processPing S env mnp).1.vMasternodes := he
    unfold processPing at he
    split_ifs at he
    · exact h.now e he
    · exact h.now e he
    · rcases mem_checkAndUpdatePing he with he | ⟨x, hx, hsig, hxe⟩
      · exact h.now e he
      · exact hP hxe (hop x (find_mem hx) hsig)
  | getMNList env vin =>
    refine ⟨fun e he => h.now e ?_, h.saved⟩
    have he : e ∈ (n.man.getMNList S env vin).vMasternodes := he
    unfold CMasternodeMan.getMNList at he
    split_ifs at he <;> exact he
  | check env =>
    refine ⟨fun e he => ?_, h.saved⟩
    obtain ⟨x, hx, rfl⟩ := List.mem_map.mp he
    exact hP (sameEntry_check false) (h.now x hx)
  | checkAndRemove env force =>
    refine ⟨fun e he => ?_, h.saved⟩
    obtain ⟨x, hx, hxe⟩ := mem_checkAndRemove he
    exact hP hxe (h.now x hx)
  | dump =>
    refine ⟨h.now, fun c hc r hr => ?_⟩
    obtain rfl := Option.some.inj hc
    obtain ⟨mn, hmn, rfl⟩ := List.mem_map.mp hr
    exact hop mn hmn
  | load env =>
    refine ⟨fun e he => ?_, h.saved⟩
    cases hcache : n.mncache with
    | none => simp [MnNode.step, hcache, CMasternodeMan.initial] at he
    | some c =>
      simp only [MnNode.step, hcache] at he
      obtain ⟨x, hx, hxe⟩ := mem_checkAndRemove he
      obtain ⟨r, hr, rfl⟩ := List.mem_map.mp hx
      exact hP hxe (h.saved c hcache r hr)

/-! ### One entry for an outpoint -/

def prevouts (s : CMasternodeMan) : List COutPoint := s.vMasternodes.map (·.vin.prevout)

lemma prevouts_modify {f : CMasternode → CMasternode} (hf : ∀ mn, (f mn).vin = mn.vin) :
    prevouts (s.modify vin f) = prevouts s := by
  unfold prevouts CMasternodeMan.modify
  dsimp only
  induction s.vMasternodes with
  | nil => rfl
  | cons mn l ih =>
    rw [modifyEntry]
    split_ifs
    · simp [hf]
    · simp [ih]

lemma prevouts_checkAndUpdatePing (fRequireEnabled : Bool) :
    prevouts (s.checkAndUpdatePing S env mnp fRequireEnabled).1 = prevouts s :=
  checkAndUpdatePing_preserves (R := fun t => prevouts t = prevouts s) rfl fun _ _ _ =>
    prevouts_modify (s := s) fun _ => CMasternode.check_vin env _ true

lemma prevouts_checkAndUpdate : prevouts (s.checkAndUpdate S env mnb).1 = prevouts s := by
  have hfields : prevouts (s.modify mnb.vin (copyFields mnb)) = prevouts s :=
    prevouts_modify copyFields_vin
  have hcopy : ∀ t : CMasternodeMan, prevouts (t.copyPing S mnb) = prevouts t := fun t =>
    prevouts_modify (s := t) fun _ => rfl
  have hupdate : prevouts (s.updateFromNewBroadcast S env mnb) = prevouts s :=
    updateFromNewBroadcast_preserves (R := fun t => prevouts t = prevouts s) hfields
      ((prevouts_checkAndUpdatePing false).trans hfields) fun t ht => (hcopy t).trans ht
  exact checkAndUpdate_preserves (R := fun t => prevouts t = prevouts s) rfl fun _ _ _ _ =>
    (prevouts_modify fun mn => CMasternode.check_vin env mn true).trans hupdate

lemma nodup_add (h : (prevouts s).Nodup) : (prevouts (s.add mnb.toMasternode)).Nodup := by
  unfold add
  split_ifs with _ hfound
  · exact h
  · exact h
  · -- the new entry is for another outpoint
    have hnew : mnb.vin.prevout ∉ prevouts s := by
      intro hmem
      obtain ⟨mn, hmn, heq⟩ := List.mem_map.mp hmem
      exact hfound (List.find?_isSome.mpr ⟨mn, hmn, beq_iff_eq.mpr heq⟩)
    have happend : prevouts { s with vMasternodes := s.vMasternodes ++ [mnb.toMasternode] } =
        prevouts s ++ [mnb.vin.prevout] := by
      simp [prevouts, CMasternodeBroadcast.toMasternode]
    rw [happend]
    refine List.nodup_append.mpr ⟨h, List.nodup_singleton _, fun a ha b hb heq => hnew ?_⟩
    rw [← List.mem_singleton.mp hb, ← heq]
    exact ha

lemma nodup_processBroadcast (h : (prevouts s).Nodup) :
    (prevouts (s.processBroadcast S env mnb).1).Nodup := by
  have hcheck : (prevouts ((s.seeBroadcast S mnb).checkAndUpdate S env mnb).1).Nodup := by
    rw [prevouts_checkAndUpdate]
    exact h
  exact processBroadcast_preserves (R := fun t => (prevouts t).Nodup) h hcheck fun _ =>
    checkInputsAndAdd_preserves (R := fun t => (prevouts t).Nodup) hcheck
      (fun _ _ => hcheck.sublist (List.eraseP_sublist.map _)) (fun _ ht => ht)
      fun _ ht => nodup_add ht

/-- **One entry for an outpoint.** `Add` sees to it that no outpoint is listed twice, and no other
step changes the outpoint of an entry. -/
theorem oneEach_of_run {ok : MnNode → MnOp → Prop} {l : List MnOp}
    (h : Run (step S) ok initial l n) : OneEach n.man.vMasternodes := by
  refine (h.invariant (P := fun n => OneEach n.man.vMasternodes ∧ ∀ c, n.mncache = some c →
    (c.vMasternodes.map (·.vin.prevout)).Nodup) ?_ fun n op ⟨hnow, hsaved⟩ _ => ?_).1
  · simp [OneEach, initial, CMasternodeMan.initial]
  have hclean : ∀ (env : MnEnv) (s : CMasternodeMan) (force : Bool), OneEach s.vMasternodes →
      OneEach (s.checkAndRemove env force).vMasternodes := by
    intro env s force hs
    have hcheck : OneEach (s.check env).vMasternodes := by
      simpa [OneEach, CMasternodeMan.check, List.map_map, Function.comp_def] using hs
    exact hcheck.sublist (List.filter_sublist.map _)
  cases op with
  | broadcast env mnb => exact ⟨nodup_processBroadcast hnow, hsaved⟩
  | ping env mnp =>
    have hping : prevouts ((n.man.seePing S mnp).checkAndUpdatePing S env mnp true).1 =
        prevouts n.man := prevouts_checkAndUpdatePing true
    exact ⟨processPing_preserves (R := fun t => (prevouts t).Nodup) hnow (hping ▸ hnow), hsaved⟩
  | getMNList env vin =>
    refine ⟨?_, hsaved⟩
    unfold MnNode.step CMasternodeMan.getMNList
    dsimp only
    split_ifs <;> exact hnow
  | check env =>
    refine ⟨?_, hsaved⟩
    simpa [OneEach, MnNode.step, CMasternodeMan.check, List.map_map, Function.comp_def] using hnow
  | checkAndRemove env force => exact ⟨hclean env _ force hnow, hsaved⟩
  | dump =>
    refine ⟨hnow, fun c hc => ?_⟩
    obtain rfl := Option.some.inj hc
    simpa [OneEach, CMasternodeMan.write, CMasternode.serialize, List.map_map, Function.comp_def]
      using hnow
  | load env =>
    refine ⟨?_, hsaved⟩
    cases hcache : n.mncache with
    | none => simp [OneEach, MnNode.step, hcache, CMasternodeMan.initial]
    | some c =>
      simp only [MnNode.step, hcache, Option.map_some, Option.getD_some]
      refine hclean env _ true ?_
      simpa [OneEach, MasternodeRecord.unserialize, List.map_map, Function.comp_def]
        using hsaved c hcache

/-! ### Pings that are signed -/

/-- The last ping of an entry is signed with the key of the masternode. -/
def IsSigned (S : Signer) (mn : CMasternode) : Prop :=
  mn.lastPing.checkSignature S mn.pubKeyMasternode = true

/-- A broadcast that reaches the list has a ping that is signed with the key it announces; and when
the entry has had another key, the ping takes the place of the one the old key has signed. -/
def PingsSigned (S : Signer) (n : MnNode) : MnOp → Prop
  | .broadcast env mnb => Reaches S env n.man mnb →
    mnb.lastPing.checkSignature S mnb.pubKeyMasternode = true ∧
    ∀ mn, n.man.find mnb.vin = some mn → mn.isEnabled = true →
      mn.pubKeyMasternode = mnb.pubKeyMasternode ∨ Takes env mn mnb.lastPing
  | _ => True

lemma PingsSigned.keeps (h : Listed (IsSigned S) n) (hop : n.PingsSigned S op) :
    n.Keeps S (IsSigned S) op := by
  cases op with
  | broadcast env mnb =>
    intro hreach x hx
    obtain ⟨hsig, hkey⟩ := hop hreach
    cases hx with
    | old hx => exact h.now x hx
    | pinged _ hping => exact hping
    | added _ => exact hsig
    | updated _ _ _ => exact hsig
    | @fieldsOnly mn _ hfind henabled hnot =>
      rcases hkey mn hfind henabled with hkey | htake
      · have hold : mn.lastPing.checkSignature S mn.pubKeyMasternode = true :=
          h.now mn (find_mem hfind)
        rw [hkey] at hold
        exact hold
      · exact absurd htake (hnot hsig)
  | ping env mnp => exact fun _ _ hsig => hsig
  | dump => exact fun mn hmn => h.now mn hmn
  | getMNList _ _ => trivial
  | check _ => trivial
  | checkAndRemove _ _ => trivial
  | load _ => trivial

lemma isPingedWithin_of_check {force : Bool} (hshutdown : env.shutdownRequested = false)
    (hmade : force = true ∨ env.recentlyChecked mn.vin.prevout = false)
    (h : (mn.check env force).isEnabled = true) :
    mn.isPingedWithin env MASTERNODE_EXPIRATION_SECONDS (-1) = true := by
  have hmade : ¬ (!force && env.recentlyChecked mn.vin.prevout) = true := by
    rcases hmade with hmade | hmade <;> simp [hmade]
  unfold CMasternode.check at h
  rw [if_neg (by simp [hshutdown]), if_neg hmade] at h
  split_ifs at h with hspent hremove hexpired
  · simp [CMasternode.isEnabled, hspent] at h
  · simp [CMasternode.isEnabled] at h
  · simp [CMasternode.isEnabled] at h
  all_goals simpa using hexpired

/-- **Liveness is authenticated.** When every broadcast that reaches the list has a ping of the
masternode it announces, the pings of all entries are signed with the keys of their masternodes. An
entry that is enabled, or is so after a check, has such a ping; and after the check it is at most
two hours old. -/
theorem liveness_of_run {l : List MnOp} (h : Run (step S) (PingsSigned S) initial l n) :
    ∀ mn ∈ n.man.vMasternodes, mn.Vouched S ∧
      (mn.isEnabled = true → mn.lastPing.checkSignature S mn.pubKeyMasternode = true) ∧
      ∀ (env : MnEnv) (force : Bool), env.shutdownRequested = false →
        (force = true ∨ env.recentlyChecked mn.vin.prevout = false) →
        (mn.check env force).isEnabled = true →
        mn.lastPing.checkSignature S mn.pubKeyMasternode = true ∧
        env.getAdjustedTime - mn.lastPing.sigTime < MASTERNODE_EXPIRATION_SECONDS := by
  have hlisted : Listed (IsSigned S) n := by
    refine h.invariant (listed_initial _) fun n op hn hop => hn.step ?_ (hop.keeps hn)
    rintro x e ⟨state, rfl⟩ hx
    exact hx
  intro mn hmn
  have hsigned : mn.lastPing.checkSignature S mn.pubKeyMasternode = true := hlisted.now mn hmn
  refine ⟨.inr hsigned, fun _ => hsigned, fun env force hshutdown hmade henabled => ?_⟩
  have hping := isPingedWithin_of_check hshutdown hmade henabled
  simp only [CMasternode.isPingedWithin, Bool.and_eq_true, decide_eq_true_eq, if_true] at hping
  exact ⟨hsigned, hping.2⟩

end MnNode

end Agenor

namespace Agenor.Concrete

/-- A key is known by its first byte, and signs a hash by writing itself and the last byte. -/
def plainSigner : Signer where
  getID pubkey := BitVec.ofNat 160 (pubkey.headD 0).toNat
  recoverCompact hash vchSig :=
    if vchSig.getD 1 0 = UInt8.ofNat hash.toNat then some (BitVec.ofNat 160 (vchSig.headD 0).toNat)
    else none
  getMessageHash text := BitVec.ofNat 256 text.length
  getHex hash := String.ofList (List.replicate (hash.toNat % 32) 'x')
  keyText key := String.ofList (List.replicate (key.toNat % 32) 'k')
  addrText addr := String.ofList (List.replicate addr.ip.length '.')
  vinText txin := String.ofList (List.replicate (txin.prevout.n + 1) 'i')
  intText z := String.ofList (List.replicate (z.toNat % 32) '1')
  broadcastSignature _ _ sigTime _ _ _ := BitVec.ofInt 256 (sigTime / 100)
  broadcastHash sigTime pubkey := BitVec.ofInt 256 (sigTime + 100000 * (pubkey.headD 0).toNat)
  pingHash vin _ sigTime := BitVec.ofInt 256 (sigTime / 100 + vin.prevout.n)

/-- A node that follows the chain; every collateral is fine. -/
def mnEnv (now : ℤ) : MnEnv where
  getAdjustedTime := now
  getTime := now
  activeProtocol := 70920
  fLiteMode := false
  isBlockchainSynced := true
  shutdownRequested := false
  isMainNet := true
  lockMain := true
  recentlyChecked _ := false
  isRecentBlock hash := hash == 1
  acceptableInputs _ _ := true
  isInputAssociatedWithPubkey _ _ := true
  getCoinDepth _ := 20
  confirmedAt _ := some 1000
  isActiveMasternode _ _ := false
  isLocal _ := false
  isRFC1918 _ := false

/-- The owner has key 1, the masternode key 2. -/
def mnPing (sigTime : ℤ) (vchSig : List UInt8) : CMasternodePing where
  vin := ⟨⟨7, 0⟩, [], 0⟩
  blockHash := 1
  sigTime := sigTime
  vchSig := vchSig
  nMessVersion := MESS_VER_HASH

def mnBroadcast (lastPing : CMasternodePing) : CMasternodeBroadcast where
  vin := ⟨⟨7, 0⟩, [], 0⟩
  addr := ⟨[1, 2, 3, 4], 31052⟩
  pubKeyCollateralAddress := [1]
  pubKeyMasternode := [2]
  vchSig := [1, 4]
  sigTime := 10000
  protocolVersion := 70920
  lastPing := lastPing
  nMessVersion := MESS_VER_HASH

def startAndPing : List MnOp :=
  [.broadcast (mnEnv 10000) (mnBroadcast (mnPing 10000 [2, 100])),
    .ping (mnEnv 11000) (mnPing 11000 [2, 110])]

end Agenor.Concrete

namespace Agenor.MnNode

open Lib Concrete

set_option maxRecDepth 20000 in
/-- A masternode is started, and pings when it has been there for some time. -/
theorem liveness_of_a_masternode :
    ∃ n mn, Run (step plainSigner) (PingsSigned plainSigner) initial startAndPing n ∧
      mn ∈ n.man.vMasternodes ∧ mn.isEnabled = true ∧ mn.lastPing.sigTime = 11000 ∧
      mn.lastPing.checkSignature plainSigner mn.pubKeyMasternode = true := by
  have hallowed : Run.Allowed (step plainSigner) (PingsSigned plainSigner) initial startAndPing :=
    ⟨fun _ => ⟨by decide, fun mn hmn => by cases hmn⟩, trivial, trivial⟩
  have hrun := Run.nil.append_allowed hallowed
  have hmem : { mnBroadcast (mnPing 11000 [2, 110]) with
      activeState := .MASTERNODE_ENABLED, unitTest := false } ∈
      (startAndPing.foldl (step plainSigner) initial).man.vMasternodes := by
    decide
  exact ⟨_, _, hrun, hmem, by decide, rfl, (liveness_of_run hrun _ hmem).2.1 (by decide)⟩

set_option maxRecDepth 20000 in
/-- Anybody can bring a masternode back with the broadcast of its owner and a ping that nobody has
signed. -/
theorem enabled_by_a_forged_ping :
    ¬ ∀ (S : Signer) (l : List MnOp) (n : MnNode), Run (step S) (fun _ _ => True) initial l n →
      ∀ mn ∈ n.man.vMasternodes, mn.Vouched S := by
  intro h
  have hrun : Run (step plainSigner) (fun _ _ => True) initial
      [.broadcast (mnEnv 10000) (mnBroadcast (mnPing 10000 []))] _ := .snoc .nil trivial
  have hmem : (mnBroadcast (mnPing 10000 [])).toMasternode ∈ (step plainSigner initial
      (.broadcast (mnEnv 10000) (mnBroadcast (mnPing 10000 [])))).man.vMasternodes := by
    decide
  have hvouched := h plainSigner _ _ hrun _ hmem
  revert hvouched
  unfold CMasternode.Vouched
  decide

end Agenor.MnNode
