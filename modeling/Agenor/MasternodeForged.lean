import Agenor.MasternodePings
import Agenor.SwiftConsensus

/-!
Forged masternode messages: what a message with a bad signature leaves behind.

The handlers of `mnb`, `mnp` and `txlvote` mark the hash of a message as seen before they check it,
and the hash does not cover the signature. Whoever sends a copy with a bad signature first keeps the
real message out. The hash of a broadcast covers the time and the key of the collateral only, so of
two masternodes that one owner starts in the same second one is not listed.
-/

namespace Agenor

open CMasternodeMan

variable {S : Signer} {env : MnEnv} {s t : CMasternodeMan} {mn : CMasternode}
  {mnb : CMasternodeBroadcast} {mnp : CMasternodePing} {vin w : CTxIn} {P : COutPoint → Prop}

namespace CMasternodeMan

/-! ### Lists that have the same entries for some outpoints -/

/-- Two lists have the same entries for some outpoints. -/
def Agree (P : COutPoint → Prop) (s t : CMasternodeMan) : Prop :=
  ∀ w : CTxIn, P w.prevout → s.find w = t.find w

lemma Agree.refl (s : CMasternodeMan) : Agree P s s := fun _ _ => rfl

lemma Agree.trans {u : CMasternodeMan} (h : Agree P s t) (h' : Agree P t u) : Agree P s u :=
  fun w hw => (h w hw).trans (h' w hw)

lemma Agree.modify {f : CMasternode → CMasternode} (h : Agree P s t)
    (hf : ∀ mn, (f mn).vin = mn.vin) : Agree P (s.modify vin f) (t.modify vin f) := by
  intro w hw
  rw [find_modify hf, find_modify hf, h w hw]

lemma agree_modify {f : CMasternode → CMasternode} (hf : ∀ mn, (f mn).vin = mn.vin)
    (ho : ¬ P vin.prevout) : Agree P s (s.modify vin f) := by
  intro w hw
  have hne : ¬ w.prevout = vin.prevout := fun heq => ho (heq ▸ hw)
  rw [find_modify hf, if_neg hne]

lemma Agree.checkAndUpdatePing {fRequireEnabled : Bool} (h : Agree P s t)
    (ho : P mnp.vin.prevout) :
    (s.checkAndUpdatePing S env mnp fRequireEnabled).2 =
      (t.checkAndUpdatePing S env mnp fRequireEnabled).2 ∧
    Agree P (s.checkAndUpdatePing S env mnp fRequireEnabled).1
      (t.checkAndUpdatePing S env mnp fRequireEnabled).1 := by
  unfold CMasternodeMan.checkAndUpdatePing
  rw [h mnp.vin ho]
  cases t.find mnp.vin with
  | none =>
    dsimp only
    split_ifs <;> exact ⟨rfl, h⟩
  | some mn =>
    dsimp only
    split_ifs
    all_goals first
      | exact ⟨rfl, h⟩
      | exact ⟨rfl, h.modify fun mn => CMasternode.check_vin env _ true⟩

lemma agree_checkAndUpdatePing {fRequireEnabled : Bool} (ho : ¬ P mnp.vin.prevout) :
    Agree P s (s.checkAndUpdatePing S env mnp fRequireEnabled).1 :=
  checkAndUpdatePing_preserves (R := Agree P s) (.refl s) fun _ _ _ =>
    agree_modify (fun _ => CMasternode.check_vin env _ true) ho

lemma Agree.updateFromNewBroadcast (h : Agree P s t) (ho : P mnb.lastPing.vin.prevout) :
    Agree P (s.updateFromNewBroadcast S env mnb) (t.updateFromNewBroadcast S env mnb) := by
  have hfields : Agree P (s.modify mnb.vin (copyFields mnb)) (t.modify mnb.vin (copyFields mnb)) :=
    h.modify copyFields_vin
  have hcopy : ∀ {s t : CMasternodeMan}, Agree P s t → Agree P (s.copyPing S mnb)
      (t.copyPing S mnb) := fun h => h.modify fun _ => rfl
  obtain ⟨hres, hping⟩ : ((s.modify mnb.vin (copyFields mnb)).checkAndUpdatePing S env mnb.lastPing
        false).2 = ((t.modify mnb.vin (copyFields mnb)).checkAndUpdatePing S env mnb.lastPing false).2 ∧
      Agree P ((s.modify mnb.vin (copyFields mnb)).checkAndUpdatePing S env mnb.lastPing false).1
        ((t.modify mnb.vin (copyFields mnb)).checkAndUpdatePing S env mnb.lastPing false).1 :=
    hfields.checkAndUpdatePing ho
  unfold CMasternodeMan.updateFromNewBroadcast
  dsimp only
  split_ifs
  · exact hcopy hfields
  · revert hres hping
    cases (s.modify mnb.vin (copyFields mnb)).checkAndUpdatePing S env mnb.lastPing false with
    | mk s' ok =>
      cases (t.modify mnb.vin (copyFields mnb)).checkAndUpdatePing S env mnb.lastPing false with
      | mk t' ok' =>
        rintro rfl hping
        cases ok with
        | false => exact hping
        | true => exact hcopy hping

lemma agree_updateFromNewBroadcast (hvin : ¬ P mnb.vin.prevout)
    (ho : ¬ P mnb.lastPing.vin.prevout) : Agree P s (s.updateFromNewBroadcast S env mnb) := by
  have hfields : Agree P s (s.modify mnb.vin (copyFields mnb)) := agree_modify copyFields_vin hvin
  have hcopy : ∀ t : CMasternodeMan, Agree P t (t.copyPing S mnb) := fun t =>
    agree_modify (s := t) (fun _ => rfl) hvin
  exact updateFromNewBroadcast_preserves (R := Agree P s) hfields
    (hfields.trans (agree_checkAndUpdatePing ho)) fun t ht => ht.trans (hcopy t)

lemma Agree.passesChecks (h : Agree P s t) (ho : P mnb.lastPing.vin.prevout) :
    s.passesChecks S env mnb = t.passesChecks S env mnb := by
  unfold CMasternodeMan.passesChecks checkSigTime
  rw [h mnb.lastPing.vin ho]

lemma Agree.checkAndUpdate (h : Agree P s t) (hvin : P mnb.vin.prevout)
    (ho : P mnb.lastPing.vin.prevout) :
    (s.checkAndUpdate S env mnb).2 = (t.checkAndUpdate S env mnb).2 ∧
    Agree P (s.checkAndUpdate S env mnb).1 (t.checkAndUpdate S env mnb).1 := by
  have hupdated : Agree P
      ((s.updateFromNewBroadcast S env mnb).modify mnb.vin (·.check env true))
      ((t.updateFromNewBroadcast S env mnb).modify mnb.vin (·.check env true)) :=
    (h.updateFromNewBroadcast ho).modify fun mn => CMasternode.check_vin env mn true
  unfold CMasternodeMan.checkAndUpdate
  rw [h.passesChecks ho, h mnb.vin hvin]
  split_ifs
  · exact ⟨rfl, h⟩
  · cases t.find mnb.vin with
    | none => exact ⟨rfl, h⟩
    | some mn =>
      dsimp only
      split_ifs
      · exact ⟨rfl, h⟩
      · exact ⟨rfl, h⟩
      · exact ⟨by rw [hupdated mnb.vin hvin], hupdated⟩
      · exact ⟨rfl, h⟩

lemma agree_checkAndUpdate (hvin : ¬ P mnb.vin.prevout) (ho : ¬ P mnb.lastPing.vin.prevout) :
    Agree P s (s.checkAndUpdate S env mnb).1 :=
  checkAndUpdate_preserves (R := Agree P s) (.refl s) fun _ _ _ _ =>
    (agree_updateFromNewBroadcast hvin ho).trans
      (agree_modify (fun mn => CMasternode.check_vin env mn true) hvin)

lemma Agree.checkInputsAndAdd (h : Agree P s t) (hvin : P mnb.vin.prevout)
    (ho : P mnb.lastPing.vin.prevout) :
    (s.checkInputsAndAdd S env mnb).2 = (t.checkInputsAndAdd S env mnb).2 := by
  unfold CMasternodeMan.checkInputsAndAdd checkSigTime
  rw [h mnb.lastPing.vin ho, h mnb.vin hvin]
  simp only [apply_ite Prod.snd]

lemma agree_remove (h : s.find vin = some mn) (ho : ¬ P vin.prevout) :
    Agree P s (s.remove mn.vin) := by
  intro w hw
  have hmn : mn.vin.prevout ≠ w.prevout := fun heq =>
    ho (find_prevout h ▸ heq ▸ hw)
  unfold find CMasternodeMan.remove
  dsimp only
  induction s.vMasternodes with
  | nil => rfl
  | cons x l ih =>
    by_cases hx : x.vin = mn.vin
    · rw [List.eraseP_cons_of_pos (by simpa using hx),
      List.find?_cons_of_neg (by simpa [hx] using hmn)]
    · rw [List.eraseP_cons_of_neg (by simpa using hx), List.find?_cons, List.find?_cons, ih]

lemma agree_add (ho : ¬ P mn.vin.prevout) : Agree P s (s.add mn) := by
  have hrefl : Agree P s s := fun _ _ => rfl
  unfold add
  split_ifs
  · exact hrefl
  · exact hrefl
  · intro w hw
    have hne : ¬ mn.vin.prevout = w.prevout := fun heq => ho (heq ▸ hw)
    simp [find, hne]

lemma agree_checkInputsAndAdd (hvin : ¬ P mnb.vin.prevout) :
    Agree P s (s.checkInputsAndAdd S env mnb).1 :=
  checkInputsAndAdd_preserves (R := Agree P s) (.refl s) (fun _ hfind => agree_remove hfind hvin)
    (fun _ ht => ht) fun _ ht => ht.trans (agree_add hvin)

/-! ### What is marked as seen -/

/-- The hash of a broadcast is marked as seen. -/
def isSeen (s : CMasternodeMan) (k : Uint256) : Bool := (s.mapSeenMasternodeBroadcast k).isSome

lemma isSeen_checkAndUpdatePing {fRequireEnabled : Bool} (k : Uint256) :
    (s.checkAndUpdatePing S env mnp fRequireEnabled).1.isSeen k = s.isSeen k := by
  refine checkAndUpdatePing_preserves (R := fun t => t.isSeen k = s.isSeen k) rfl fun mn _ _ => ?_
  -- the broadcast that is there gets the ping
  unfold isSeen takePing
  dsimp only
  rcases eq_or_ne k (mn.toCMasternodeBroadcast.getHash S) with rfl | hk
  · rw [Function.update_self, Option.isSome_map]
  · rw [Function.update_of_ne hk]

lemma isSeen_checkAndUpdate (k : Uint256) :
    (s.checkAndUpdate S env mnb).1.isSeen k = s.isSeen k := by
  have hping : ((s.modify mnb.vin (copyFields mnb)).checkAndUpdatePing S env mnb.lastPing
      false).1.isSeen k = s.isSeen k := isSeen_checkAndUpdatePing k
  have hupdate : (s.updateFromNewBroadcast S env mnb).isSeen k = s.isSeen k :=
    updateFromNewBroadcast_preserves (R := fun t => t.isSeen k = s.isSeen k) rfl hping
      fun _ ht => ht
  exact checkAndUpdate_preserves (R := fun t => t.isSeen k = s.isSeen k) rfl fun _ _ _ _ => hupdate

lemma checkInputsAndAdd_of_isEnabled (h : (s.find mnb.vin).any (·.isEnabled) = true) :
    s.checkInputsAndAdd S env mnb = (s, false) := by
  unfold checkInputsAndAdd
  simp only [h, if_true, ite_self]

lemma isSeen_checkInputsAndAdd {k : Uint256}
    (h : k ≠ mnb.getHash S ∨ (s.checkInputsAndAdd S env mnb).2 = true ∨
      (s.find mnb.vin).any (·.isEnabled) = true) :
    (s.checkInputsAndAdd S env mnb).1.isSeen k = s.isSeen k := by
  by_cases henabled : (s.find mnb.vin).any (·.isEnabled) = true
  · rw [checkInputsAndAdd_of_isEnabled henabled]
  obtain ⟨t, ht, hres⟩ := checkInputsAndAdd_cases S env s mnb
  have hcleared : t.isSeen k = s.isSeen k := by
    rcases ht with rfl | ⟨mn, -, rfl⟩
    · rfl
    · rfl
  rcases hres with hres | hres | hres
  · rw [hres]
    exact hcleared
  · rw [hres] at h ⊢
    have hk : k ≠ mnb.getHash S := by simpa [henabled] using h
    unfold isSeen forget at *
    dsimp only
    rw [Function.update_of_ne hk]
    exact hcleared
  · rw [hres, ← hcleared]
    unfold add
    split_ifs
    · rfl
    · rfl
    · rfl

/-! ### Broadcasts -/

/-- `CheckAndUpdate` or `CheckInputsAndAdd` take the broadcast and relay it. -/
def accepts (S : Signer) (env : MnEnv) (s : CMasternodeMan) (mnb : CMasternodeBroadcast) : Bool :=
  match s.checkAndUpdate S env mnb with
  | (_, false, relayed) => relayed
  | (s, true, relayed) =>
    if !env.isInputAssociatedWithPubkey mnb.vin mnb.pubKeyCollateralAddress then relayed
    else relayed || (s.checkInputsAndAdd S env mnb).2

lemma Agree.accepts (h : Agree P s t) (hvin : P mnb.vin.prevout) (ho : P mnb.lastPing.vin.prevout) :
    s.accepts S env mnb = t.accepts S env mnb := by
  have hres : (s.checkAndUpdate S env mnb).2 = (t.checkAndUpdate S env mnb).2 ∧
    Agree P (s.checkAndUpdate S env mnb).1 (t.checkAndUpdate S env mnb).1 :=
      h.checkAndUpdate hvin ho
  unfold CMasternodeMan.accepts
  revert hres
  cases s.checkAndUpdate S env mnb with
  | mk s' r =>
    cases t.checkAndUpdate S env mnb with
    | mk t' r' =>
      rintro ⟨rfl, hagree⟩
      obtain ⟨ok, relayed⟩ := r
      cases ok with
      | false => rfl
      | true =>
        dsimp only at hagree ⊢
        rw [hagree.checkInputsAndAdd hvin ho]

lemma processBroadcast_snd : (s.processBroadcast S env mnb).2 = true ↔
    listens env = true ∧ s.isSeen (mnb.getHash S) = false ∧ s.accepts S env mnb = true := by
  have hsame : (s.seeBroadcast S mnb).accepts S env mnb = s.accepts S env mnb :=
    Agree.accepts (P := fun _ => True) (fun _ _ => rfl) trivial trivial
  rw [← hsame]
  unfold processBroadcast CMasternodeMan.accepts isSeen
  cases listens env with
  | false => simp
  | true =>
    cases hseen : (s.mapSeenMasternodeBroadcast (mnb.getHash S)).isSome with
    | true => simp
    | false =>
      cases (s.seeBroadcast S mnb).checkAndUpdate S env mnb with
      | mk t r =>
        obtain ⟨ok, relayed⟩ := r
        cases ok with
        | false => simp
        | true =>
          simp only [Bool.not_true, Bool.false_eq_true, if_false]
          split_ifs <;> simp

lemma isEnabled_of_relayed (h : (s.checkAndUpdate S env mnb).2.2 = true) :
    ((s.checkAndUpdate S env mnb).1.find mnb.vin).any (·.isEnabled) = true := by
  unfold checkAndUpdate at h ⊢
  cases hfind : s.find mnb.vin with
  | none =>
    simp only [hfind] at h
    split_ifs at h
  | some mn =>
    simp only [hfind] at h ⊢
    split_ifs at h ⊢
    exact h

lemma isSeen_seeBroadcast (k : Uint256) :
    (s.seeBroadcast S mnb).isSeen k = (s.isSeen k || k == mnb.getHash S) := by
  unfold isSeen seeBroadcast
  dsimp only
  rcases eq_or_ne k (mnb.getHash S) with rfl | hk
  · simp
  · simp [hk]

lemma isSeen_processBroadcast (htaken : (s.processBroadcast S env mnb).2 = true) (k : Uint256) :
    (s.processBroadcast S env mnb).1.isSeen k = (s.isSeen k || k == mnb.getHash S) := by
  have hseen : ((s.seeBroadcast S mnb).checkAndUpdate S env mnb).1.isSeen k =
      (s.isSeen k || k == mnb.getHash S) := (isSeen_checkAndUpdate k).trans (isSeen_seeBroadcast k)
  have hrelayed : ((s.seeBroadcast S mnb).checkAndUpdate S env mnb).2.2 = true →
      (((s.seeBroadcast S mnb).checkAndUpdate S env mnb).1.find mnb.vin).any (·.isEnabled) = true :=
    isEnabled_of_relayed
  unfold processBroadcast at htaken ⊢
  revert hseen hrelayed htaken
  cases (s.seeBroadcast S mnb).checkAndUpdate S env mnb with
  | mk t r =>
    obtain ⟨ok, relayed⟩ := r
    cases ok with
    | false =>
      intro htaken hseen _
      split_ifs at htaken ⊢ <;> exact hseen
    | true =>
      intro htaken hseen hrelayed
      split_ifs at htaken ⊢
      · exact hseen
      · rw [← hseen]
        refine isSeen_checkInputsAndAdd (.inr ?_)
        rcases (Bool.or_eq_true _ _).mp htaken with htaken | htaken
        · exact .inr (hrelayed htaken)
        · exact .inl htaken

lemma agree_processBroadcast (hvin : ¬ P mnb.vin.prevout) (ho : ¬ P mnb.lastPing.vin.prevout) :
    Agree P s (s.processBroadcast S env mnb).1 := by
  have hcheck : Agree P s ((s.seeBroadcast S mnb).checkAndUpdate S env mnb).1 :=
    agree_checkAndUpdate (s := s.seeBroadcast S mnb) hvin ho
  exact processBroadcast_preserves (R := Agree P s) (.refl s) hcheck fun _ =>
    hcheck.trans (agree_checkInputsAndAdd hvin)

lemma both_taken_iff {env' : MnEnv} {mnb' : CMasternodeBroadcast}
    (hne : mnb.vin.prevout ≠ mnb'.vin.prevout)
    (hown : mnb.lastPing.vin.prevout = mnb.vin.prevout)
    (hown' : mnb'.lastPing.vin.prevout = mnb'.vin.prevout)
    (htaken : (s.processBroadcast S env mnb).2 = true)
    (htaken' : (s.processBroadcast S env' mnb').2 = true) :
    (((s.processBroadcast S env mnb).1.processBroadcast S env' mnb').2 = true ∧
      ((s.processBroadcast S env' mnb').1.processBroadcast S env mnb).2 = true) ↔
    mnb.getHash S ≠ mnb'.getHash S := by
  -- the second one of two is taken unless it has the hash of the first
  have hafter : ∀ {e e' : MnEnv} {b b' : CMasternodeBroadcast}, b.vin.prevout ≠ b'.vin.prevout →
      b.lastPing.vin.prevout = b.vin.prevout → b'.lastPing.vin.prevout = b'.vin.prevout →
      (s.processBroadcast S e b).2 = true → (s.processBroadcast S e' b').2 = true →
      (((s.processBroadcast S e b).1.processBroadcast S e' b').2 = true ↔
        b.getHash S ≠ b'.getHash S) := by
    intro e e' b b' hne hb hb' ht ht'
    have hagree : Agree (fun o => o = b'.vin.prevout) s (s.processBroadcast S e b).1 :=
      agree_processBroadcast hne (by rw [hb]; exact hne)
    obtain ⟨hlistens, hunseen, haccepts⟩ := processBroadcast_snd.mp ht'
    rw [processBroadcast_snd, ← hagree.accepts rfl hb', isSeen_processBroadcast ht, hunseen]
    simp only [hlistens, haccepts, Bool.false_or, beq_eq_false_iff_ne, true_and, and_true]
    exact ne_comm
  rw [hafter hne hown hown' htaken htaken', hafter hne.symm hown' hown htaken' htaken]
  exact ⟨fun h => h.1, fun h => ⟨h, h.symm⟩⟩

end CMasternodeMan

/-! ### Lock votes -/

namespace SwiftTX

variable {senv : SwiftEnv} {x : SwiftTX} {ctx : CConsensusVote}

def withMarks (x : SwiftTX) (m : Uint256 → Option CConsensusVote) : SwiftTX :=
  { x with mapTxLockVote := m }

lemma expire_withMarks (m : Uint256 → Option CConsensusVote) (h : Uint256) :
    (x.withMarks m).expire senv h = (x.expire senv h).withMarks m := by
  simp only [expire, withMarks]
  split <;> rfl

lemma completeLock_withMarks (m : Uint256 → Option CConsensusVote) (h : Uint256) :
    (x.withMarks m).completeLock senv h = (x.completeLock senv h).withMarks m := by
  obtain ⟨req, rejected, votes, locks, inputs, unknown⟩ := x
  simp only [completeLock, checkForConflictingLocks, conflicts, withMarks]
  generalize List.filterMap _ _ = c
  cases c with
  | nil =>
    dsimp only
    split_ifs <;> rfl
  | cons a _ =>
    let tx := (req h).getD emptyTransaction
    let y : SwiftTX := ⟨Function.update req h (some tx), rejected, votes, locks, inputs, unknown⟩
    have hfirst : (y.withMarks m).expire senv tx.hash = (y.expire senv tx.hash).withMarks m :=
      expire_withMarks m tx.hash
    exact (congrArg (expire senv · a) hfirst).trans (expire_withMarks m a)

lemma processConsensusVote_withMarks (m : Uint256 → Option CConsensusVote) :
    (x.withMarks m).processConsensusVote senv ctx =
      ((x.processConsensusVote senv ctx).1, (x.processConsensusVote senv ctx).2.withMarks m) := by
  unfold processConsensusVote
  split_ifs with hgood
  · rfl
  · have hset : (x.withMarks m).setLock ctx.txHash
        (((x.withMarks m).lockOf senv 0 ctx.txHash).addSignature ctx) =
      (x.setLock ctx.txHash ((x.lockOf senv 0 ctx.txHash).addSignature ctx)).withMarks m := rfl
    have hlock : (x.withMarks m).lockOf senv 0 ctx.txHash = x.lockOf senv 0 ctx.txHash := rfl
    dsimp only
    rw [hset, hlock]
    split_ifs
    · rw [completeLock_withMarks]
    · rfl

lemma checkUnknownVotes_withMarks (m : Uint256 → Option CConsensusVote) :
    ((x.withMarks m).checkUnknownVotes senv ctx).1 = (x.checkUnknownVotes senv ctx).1 := by
  obtain ⟨req, rejected, votes, locks, inputs, unknown⟩ := x
  unfold checkUnknownVotes withMarks
  dsimp only
  generalize ((req ctx.txHash).isSome || (rejected ctx.txHash).isSome) = known
  cases known with
  | true => rfl
  | false =>
    simp only [Bool.false_eq_true, if_false]
    generalize (unknown.lookup ctx.vinMasternode.prevout.hash).isSome = voted
    cases voted with
    | true =>
      simp only [if_true, getAverageVoteTime]
      split_ifs <;> rfl
    | false =>
      simp only [Bool.false_eq_true, if_false, getAverageVoteTime]
      split_ifs <;> rfl

/-- A vote counts, and its masternode does not send too many. -/
def accepts (senv : SwiftEnv) (x : SwiftTX) (ctx : CConsensusVote) : Bool :=
  let r := x.processConsensusVote senv ctx
  r.1 && (r.2.checkUnknownVotes senv ctx).1

lemma accepts_withMarks (m : Uint256 → Option CConsensusVote) :
    (x.withMarks m).accepts senv ctx = x.accepts senv ctx := by
  unfold accepts
  rw [processConsensusVote_withMarks]
  dsimp only
  rw [checkUnknownVotes_withMarks]

lemma processMessage_txlvote :
    (x.processMessageSwiftTX senv (.txlvote ctx)).2 ≠ [] ↔
      listens senv = true ∧ x.mapTxLockVote ctx.getHash = none ∧ x.accepts senv ctx = true := by
  have hsame : (x.remember ctx).accepts senv ctx = x.accepts senv ctx := accepts_withMarks _
  rw [← hsame]
  unfold processMessageSwiftTX listens
  cases senv.fLiteMode with
  | true => simp
  | false =>
    cases senv.isSwiftTXActive with
    | false => simp
    | true =>
      cases senv.isBlockchainSynced with
      | false => simp
      | true =>
        simp only [Bool.false_eq_true, if_false, Bool.not_true, processVote, accepts]
        cases hseen : x.mapTxLockVote ctx.getHash with
        | some _ => simp
        | none =>
          cases (x.remember ctx).processConsensusVote senv ctx with
          | mk b y =>
            cases b with
            | false => simp
            | true =>
              simp only [relayVote]
              cases y.checkUnknownVotes senv ctx with
              | mk b' z => cases b' <;> simp

lemma processMessage_of_forged (h : senv.checkSignature ctx = false) :
    (x.processMessageSwiftTX senv (.txlvote ctx)).1 =
      if listens senv = true ∧ x.mapTxLockVote ctx.getHash = none then x.remember ctx else x := by
  have hbad : isGoodVote senv ctx = false := by simp [isGoodVote, h]
  unfold processMessageSwiftTX listens
  cases senv.fLiteMode with
  | true => simp
  | false =>
    cases senv.isSwiftTXActive with
    | false => simp
    | true =>
      cases senv.isBlockchainSynced with
      | false => simp
      | true =>
        simp only [Bool.false_eq_true, if_false, Bool.not_true, processVote, processConsensusVote,
          hbad, Bool.not_false, if_true, Bool.and_self, true_and]
        cases hseen : x.mapTxLockVote ctx.getHash <;> simp

end SwiftTX

/-! ### Forged messages -/

namespace CMasternodeMan

lemma processBroadcast_of_forged
    (h : (mnb.checkSignature S && (s.find mnb.lastPing.vin).all fun mn =>
      mnb.lastPing.checkSignature S mn.pubKeyMasternode) = false) :
    (s.processBroadcast S env mnb).1 =
      if listens env = true ∧ s.isSeen (mnb.getHash S) = false then s.seeBroadcast S mnb
      else s := by
  have hpass : (s.seeBroadcast S mnb).passesChecks S env mnb = false := by
    by_contra hpass
    rw [Bool.not_eq_false] at hpass
    have hsig := passesChecks_checkSignature hpass
    simp only [passesChecks, checkSigTime, Bool.and_eq_true] at hpass
    have hping := hpass.1.1.1.1.2.2.2
    have hboth : (mnb.checkSignature S && (s.find mnb.lastPing.vin).all fun mn =>
        mnb.lastPing.checkSignature S mn.pubKeyMasternode) = true := by
      rw [hsig, Bool.true_and]
      exact hping
    simp [hboth] at h
  have hcheck : (s.seeBroadcast S mnb).checkAndUpdate S env mnb =
      (s.seeBroadcast S mnb, false, false) := by
    simp [checkAndUpdate, hpass]
  unfold processBroadcast isSeen
  rw [hcheck]
  cases listens env with
  | false => simp
  | true => cases (s.mapSeenMasternodeBroadcast (mnb.getHash S)).isSome <;> simp

lemma processPing_of_forged (h : ((s.find mnp.vin).all fun mn =>
      mnp.checkSignature S mn.pubKeyMasternode) = false) :
    (s.processPing S env mnp).1 =
      if listens env = true ∧ (s.mapSeenMasternodePing (mnp.getHash S)).isSome = false then
        s.seePing S mnp else s := by
  have hcheck : ((s.seePing S mnp).checkAndUpdatePing S env mnp true).1 = s.seePing S mnp := by
    have hfound : (s.seePing S mnp).find mnp.vin = s.find mnp.vin := rfl
    unfold checkAndUpdatePing
    rw [hfound]
    cases hfind : s.find mnp.vin with
    | none => simp
    | some mn =>
      have hbad : mnp.checkSignature S mn.pubKeyMasternode = false := by simpa [hfind] using h
      simp only [hbad, Bool.not_false, if_true]
      split_ifs <;> rfl
  unfold processPing
  cases listens env with
  | false => simp
  | true =>
    cases (s.mapSeenMasternodePing (mnp.getHash S)).isSome with
    | false => simpa using hcheck
    | true => simp

lemma processPing_snd : (s.processPing S env mnp).2 = true ↔
    listens env = true ∧ (s.mapSeenMasternodePing (mnp.getHash S)).isSome = false ∧
      (s.checkAndUpdatePing S env mnp true).2 = true := by
  have hagree : Agree (fun _ => True) (s.seePing S mnp) s := fun _ _ => rfl
  have hsame : ((s.seePing S mnp).checkAndUpdatePing S env mnp true).2 =
      (s.checkAndUpdatePing S env mnp true).2 := (hagree.checkAndUpdatePing trivial).1
  rw [← hsame]
  unfold processPing
  cases listens env with
  | false => simp
  | true => cases (s.mapSeenMasternodePing (mnp.getHash S)).isSome <;> simp

end CMasternodeMan

/-- The three messages that a masternode or its owner signs. -/
inductive MnMsg
  | mnb (mnb : CMasternodeBroadcast)
  | mnp (mnp : CMasternodePing)
  | txlvote (ctx : CConsensusVote)
  deriving DecidableEq, Repr

/-- What a message is remembered by. -/
inductive MnKey
  | mnb (hash : Uint256)
  | mnp (hash : Uint256)
  | txlvote (hash : Uint256)
  deriving DecidableEq, Repr

structure MnMsgEnv where
  S : Signer
  mn : MnEnv
  swift : SwiftEnv

structure MnMsgState where
  man : CMasternodeMan
  swift : SwiftTX

namespace MnMsgState

variable (me : MnMsgEnv) (st : MnMsgState)

/-- One message: the new state, and whether the message has changed the list or a lock and is
relayed. -/
def receive : MnMsg → MnMsgState × Bool
  | .mnb mnb =>
    let r := st.man.processBroadcast me.S me.mn mnb
    ({ st with man := r.1 }, r.2)
  | .mnp mnp =>
    let r := st.man.processPing me.S me.mn mnp
    ({ st with man := r.1 }, r.2)
  | .txlvote ctx =>
    let r := st.swift.processMessageSwiftTX me.swift (.txlvote ctx)
    ({ st with swift := r.1 }, !r.2.isEmpty)

/-- The state after some messages. -/
def after (F : List MnMsg) : MnMsgState := F.foldl (fun st f => (st.receive me f).1) st

/-- The signatures fit. That of a ping is looked at when its masternode is known. -/
def signed : MnMsg → Bool
  | .mnb mnb => mnb.checkSignature me.S && (st.man.find mnb.lastPing.vin).all fun mn =>
      mnb.lastPing.checkSignature me.S mn.pubKeyMasternode
  | .mnp mnp => (st.man.find mnp.vin).all fun mn => mnp.checkSignature me.S mn.pubKeyMasternode
  | .txlvote ctx => me.swift.checkSignature ctx

def key : MnMsg → MnKey
  | .mnb mnb => .mnb (mnb.getHash me.S)
  | .mnp mnp => .mnp (mnp.getHash me.S)
  | .txlvote ctx => .txlvote ctx.getHash

/-- Messages of that kind are listened to. -/
def listensTo : MnKey → Bool
  | .mnb _ => listens me.mn
  | .mnp _ => listens me.mn
  | .txlvote _ => SwiftTX.listens me.swift

/-- A message with that hash has been seen. -/
def isMarked : MnKey → Bool
  | .mnb hash => st.man.isSeen hash
  | .mnp hash => (st.man.mapSeenMasternodePing hash).isSome
  | .txlvote hash => (st.swift.mapTxLockVote hash).isSome

/-- The checks that follow take the message: `CheckAndUpdate` and `CheckInputsAndAdd` for a
broadcast, `CheckAndUpdate` for a ping, `ProcessConsensusVote` and the limit on votes for unknown
transactions for a vote. -/
def passes : MnMsg → Bool
  | .mnb mnb => st.man.accepts me.S me.mn mnb
  | .mnp mnp => (st.man.checkAndUpdatePing me.S me.mn mnp true).2
  | .txlvote ctx => st.swift.accepts me.swift ctx

variable {me st} {F : List MnMsg} {f g : MnMsg}

lemma receive_snd : (st.receive me g).2 = true ↔
    listensTo me (key me g) = true ∧ st.isMarked (key me g) = false ∧ st.passes me g = true := by
  cases g with
  | mnb mnb => exact processBroadcast_snd
  | mnp mnp => exact processPing_snd
  | txlvote ctx =>
    have htaken : (st.receive me (.txlvote ctx)).2 = true ↔
        (st.swift.processMessageSwiftTX me.swift (.txlvote ctx)).2 ≠ [] := by
      simp [receive]
    rw [htaken, SwiftTX.processMessage_txlvote]
    simp [listensTo, key, isMarked, passes]

/-- What a forged message leaves behind: the hash is marked, and nothing else matters. -/
structure Trace (me : MnMsgEnv) (st : MnMsgState) (F : List MnMsg) (st' : MnMsgState) : Prop where
  signed : ∀ g, st'.signed me g = st.signed me g
  passes : ∀ g, st'.passes me g = st.passes me g
  marked : ∀ k, st'.isMarked k = (st.isMarked k || F.any fun f => listensTo me k && key me f == k)

lemma trace_nil : Trace me st [] st := ⟨fun _ => rfl, fun _ => rfl, by simp⟩

lemma trace_man {m : CMasternodeMan} (hagree : Agree (fun _ => True) m st.man)
    (hmarked : ∀ k, isMarked { st with man := m } k =
      (st.isMarked k || (listensTo me k && key me f == k))) :
    Trace me st [f] { st with man := m } where
  signed g := by
    cases g with
    | mnb mnb => simp [MnMsgState.signed, hagree _ trivial]
    | mnp mnp => simp [MnMsgState.signed, hagree _ trivial]
    | txlvote ctx => rfl
  passes g := by
    cases g with
    | mnb mnb => exact hagree.accepts trivial trivial
    | mnp mnp => exact (hagree.checkAndUpdatePing trivial).1
    | txlvote ctx => rfl
  marked k := by simpa using hmarked k

lemma marked_of_not {marked on : Bool} (h : ¬ (on = true ∧ marked = false)) :
    marked = (marked || on) := by
  cases marked <;> cases on <;> simp_all

lemma trace_forged (h : st.signed me f = false) : Trace me st [f] (st.receive me f).1 := by
  cases f with
  | mnb mnb =>
    have hres : (st.man.processBroadcast me.S me.mn mnb).1 = if listens me.mn = true ∧
        st.man.isSeen (mnb.getHash me.S) = false then st.man.seeBroadcast me.S mnb else st.man :=
      processBroadcast_of_forged h
    unfold receive
    dsimp only
    rw [hres]
    split_ifs with hmark
    · refine trace_man (fun _ _ => rfl) fun k => ?_
      cases k with
      | mnb hash =>
        simp only [isMarked, key, listensTo, hmark.1, isSeen_seeBroadcast, Bool.true_and]
        rcases eq_or_ne hash (mnb.getHash me.S) with rfl | hne
        · simp
        · have hkey : (MnKey.mnb (mnb.getHash me.S) == .mnb hash) = false := by simp [hne.symm]
          rw [hkey, beq_eq_false_iff_ne.mpr hne]
      | mnp hash => simp [isMarked, key, seeBroadcast]
      | txlvote hash => simp [isMarked, key]
    · refine trace_man (fun _ _ => rfl) fun k => ?_
      by_cases hk : key me (.mnb mnb) = k
      · subst hk
        rw [beq_self_eq_true, Bool.and_true]
        exact marked_of_not hmark
      · simp [hk]
  | mnp mnp =>
    have hres : (st.man.processPing me.S me.mn mnp).1 = if listens me.mn = true ∧
        (st.man.mapSeenMasternodePing (mnp.getHash me.S)).isSome = false then
          st.man.seePing me.S mnp else st.man := processPing_of_forged h
    unfold receive
    dsimp only
    rw [hres]
    split_ifs with hmark
    · refine trace_man (fun _ _ => rfl) fun k => ?_
      cases k with
      | mnp hash =>
        simp only [isMarked, key, listensTo, hmark.1, seePing, Bool.true_and]
        rcases eq_or_ne hash (mnp.getHash me.S) with rfl | hne
        · simp
        · simp [hne, hne.symm]
      | mnb hash => simp [isMarked, key, isSeen, seePing]
      | txlvote hash => simp [isMarked, key]
    · refine trace_man (fun _ _ => rfl) fun k => ?_
      by_cases hk : key me (.mnp mnp) = k
      · subst hk
        rw [beq_self_eq_true, Bool.and_true]
        exact marked_of_not hmark
      · simp [hk]
  | txlvote ctx =>
    have hres := SwiftTX.processMessage_of_forged (x := st.swift) h
    unfold receive
    dsimp only
    rw [hres]
    split_ifs with hmark
    · refine ⟨fun g => by cases g <;> rfl, fun g => ?_, fun k => ?_⟩
      · cases g with
        | mnb mnb => rfl
        | mnp mnp => rfl
        | txlvote ctx => exact SwiftTX.accepts_withMarks _
      · cases k with
        | txlvote hash =>
          simp only [isMarked, key, listensTo, hmark.1, SwiftTX.remember, Bool.true_and,
            List.any_cons, List.any_nil, Bool.or_false]
          rcases eq_or_ne hash ctx.getHash with rfl | hne
          · simp
          · simp [hne, hne.symm]
        | mnb hash => simp [isMarked, key]
        | mnp hash => simp [isMarked, key]
    · refine ⟨fun g => by cases g <;> rfl, fun g => by cases g <;> rfl, fun k => ?_⟩
      by_cases hk : key me (.txlvote ctx) = k
      · subst hk
        have hmark' : ¬ (listensTo me (key me (.txlvote ctx)) = true ∧
            st.isMarked (key me (.txlvote ctx)) = false) := by
          simpa [listensTo, key, isMarked] using hmark
        simpa using marked_of_not hmark'
      · simp [hk]

lemma Trace.trans {st₁ st₂ : MnMsgState} {F' : List MnMsg} (h : Trace me st F st₁)
    (h' : Trace me st₁ F' st₂) : Trace me st (F ++ F') st₂ where
  signed g := (h'.signed g).trans (h.signed g)
  passes g := (h'.passes g).trans (h.passes g)
  marked k := by rw [h'.marked, h.marked, List.any_append, Bool.or_assoc]

lemma trace_after (hF : ∀ f ∈ F, st.signed me f = false) : Trace me st F (st.after me F) := by
  induction F using List.reverseRecOn with
  | nil => exact trace_nil
  | append_singleton F f ih =>
    have hrest := ih fun g hg => hF g (List.mem_append_left _ hg)
    have hf : (st.after me F).signed me f = false := by
      rw [hrest.signed]
      exact hF f (by simp)
    have hafter : st.after me (F ++ [f]) = ((st.after me F).receive me f).1 := by
      rw [after, List.foldl_append]
      rfl
    rw [hafter]
    exact hrest.trans (trace_forged hf)

/-- A message is taken after the others just when it would have been taken without them. -/
def Undisturbed (me : MnMsgEnv) (st : MnMsgState) (F : List MnMsg) (g : MnMsg) : Prop :=
  ((st.after me F).receive me g).2 = (st.receive me g).2

/-- No message with the hash of one that is listened to, is new and passes is among the others. -/
def Untouched (me : MnMsgEnv) (st : MnMsgState) (F : List MnMsg) (g : MnMsg) : Prop :=
  listensTo me (key me g) = true → st.isMarked (key me g) = false → st.passes me g = true →
    ∀ f ∈ F, key me f ≠ key me g

/-- **Forged messages leave a trace.** After any messages with bad signatures a message is taken
just when it would have been taken before, if and only if none of them has its hash; or it would not
be taken anyway. And of two broadcasts for different outpoints, each of which would be taken by
itself, both are taken in either order if and only if their hashes differ. -/
theorem forged_messages_iff (me : MnMsgEnv) (st : MnMsgState) :
    (∀ (F : List MnMsg) (g : MnMsg), (∀ f ∈ F, st.signed me f = false) → st.signed me g = true →
      (Undisturbed me st F g ↔ Untouched me st F g)) ∧
    ∀ (mn' : MnEnv) (b b' : CMasternodeBroadcast), b.vin.prevout ≠ b'.vin.prevout →
      b.lastPing.vin.prevout = b.vin.prevout → b'.lastPing.vin.prevout = b'.vin.prevout →
      (st.man.processBroadcast me.S me.mn b).2 = true →
      (st.man.processBroadcast me.S mn' b').2 = true →
      ((((st.man.processBroadcast me.S me.mn b).1.processBroadcast me.S mn' b').2 = true ∧
        ((st.man.processBroadcast me.S mn' b').1.processBroadcast me.S me.mn b).2 = true) ↔
      b.getHash me.S ≠ b'.getHash me.S) := by
  refine ⟨fun F g hF _ => ?_, fun mn' b b' hne hb hb' ht ht' => both_taken_iff hne hb hb' ht ht'⟩
  have htrace := trace_after hF
  unfold Undisturbed Untouched
  rw [Bool.eq_iff_iff, receive_snd, receive_snd, htrace.passes, htrace.marked]
  constructor
  · intro h hlistens hmarked hpasses f hf heq
    have hnone := (h.mpr ⟨hlistens, hmarked, hpasses⟩).2.1
    simp only [hmarked, hlistens, Bool.false_or, Bool.true_and, List.any_eq_false] at hnone
    exact hnone f hf (by simp [heq])
  · intro h
    constructor
    · rintro ⟨hlistens, hmarked, hpasses⟩
      rw [Bool.or_eq_false_iff] at hmarked
      exact ⟨hlistens, hmarked.1, hpasses⟩
    · rintro ⟨hlistens, hmarked, hpasses⟩
      refine ⟨hlistens, ?_, hpasses⟩
      rw [hmarked, Bool.false_or, List.any_eq_false]
      intro f hf
      simpa [hlistens] using h hlistens hmarked hpasses f hf

end MnMsgState

end Agenor

namespace Agenor.Concrete

open MnMsgState

/-- A vote with the signature `[1]` is signed. -/
def msgEnv (now : ℤ) : MnMsgEnv where
  S := plainSigner
  mn := mnEnv now
  swift := { swiftEnv now true with checkSignature := fun ctx => ctx.vchSig == [1] }

def emptyState : MnMsgState := ⟨.initial, .initial⟩

/-- The broadcast of a masternode with some signature of its owner. -/
def mnbWith (vchSig : List UInt8) : MnMsg :=
  .mnb { mnBroadcast (mnPing 10000 [2, 100]) with vchSig := vchSig }

/-- A node that knows the masternode. -/
def listedState : MnMsgState := emptyState.after (msgEnv 10000) [mnbWith [1, 4]]

def mnpWith (vchSig : List UInt8) : MnMsg := .mnp (mnPing 11000 vchSig)

def voteWith (vchSig : List UInt8) : MnMsg :=
  .txlvote { lockVote 1 500 with vchSig := vchSig }

/-- Another masternode of the same owner, started in the same second. -/
def secondBroadcast : CMasternodeBroadcast :=
  { mnBroadcast { mnPing 10000 [2, 100] with vin := ⟨⟨8, 0⟩, [], 0⟩ } with
    vin := ⟨⟨8, 0⟩, [], 0⟩ }

end Agenor.Concrete

namespace Agenor.MnMsgState

open Concrete

set_option maxRecDepth 20000 in
/-- A forged vote is in no broadcast's way, nor is a broadcast of another second. -/
theorem broadcasts_of_different_seconds :
    Undisturbed (msgEnv 10000) emptyState [voteWith []] (mnbWith [1, 4]) ∧
    ((CMasternodeMan.initial.processBroadcast plainSigner (mnEnv 10000)
        (mnBroadcast (mnPing 10000 [2, 100]))).1.processBroadcast plainSigner (mnEnv 10200)
          { secondBroadcast with sigTime := 10200, vchSig := [1, 6] }).2 = true := by
  have hiff := forged_messages_iff (msgEnv 10000) emptyState
  refine ⟨(hiff.1 [voteWith []] (mnbWith [1, 4]) (by decide) (by decide)).mpr ?_, ?_⟩
  · intro _ _ _
    decide
  · exact ((hiff.2 (mnEnv 10200) (mnBroadcast (mnPing 10000 [2, 100]))
      { secondBroadcast with sigTime := 10200, vchSig := [1, 6] } (by decide) rfl rfl (by decide)
      (by decide)).mpr (by decide)).1

set_option maxRecDepth 20000 in
/-- **A copy with a bad signature.** Each of the three messages would be taken, and none is after a
copy of it with a bad signature. Of two masternodes that are started in the same second the second
one is not taken. -/
theorem copy_keeps_message_out :
    ¬ (Undisturbed (msgEnv 10000) emptyState [mnbWith []] (mnbWith [1, 4])) ∧
    ¬ (Undisturbed (msgEnv 11000) listedState [mnpWith []] (mnpWith [2, 110])) ∧
    ¬ (Undisturbed (msgEnv 10000) emptyState [voteWith []] (voteWith [1])) ∧
    ((CMasternodeMan.initial.processBroadcast plainSigner (mnEnv 10000)
        (mnBroadcast (mnPing 10000 [2, 100]))).2 = true ∧
      (CMasternodeMan.initial.processBroadcast plainSigner (mnEnv 10000) secondBroadcast).2 = true ∧
      ((CMasternodeMan.initial.processBroadcast plainSigner (mnEnv 10000)
        (mnBroadcast (mnPing 10000 [2, 100]))).1.processBroadcast plainSigner (mnEnv 10000)
          secondBroadcast).2 = false) := by
  unfold Undisturbed
  decide

end Agenor.MnMsgState
