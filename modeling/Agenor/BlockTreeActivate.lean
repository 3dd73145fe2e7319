import Mathlib.Data.Finset.Card
import Agenor.BlockTreeInv

/-!
Choosing the best chain keeps the invariant of the block tree. During a call the tip may be worse
than one there was before; the call does not end there unless it is stopped.
-/

namespace Agenor.BlockTree

open Lib.Ancestry

variable {s s' : BlockTree} {a b c m p r t : ℕ} {l : List ℕ}

/-! ### The best candidate -/

lemma foldl_pickBetter (l : List ℕ) (best : Option ℕ) :
    (∀ b, l.foldl s.pickBetter best = some b → best = some b ∨
      b ∈ l ∧ s.setBlockIndexCandidates b = true) ∧
    ∀ c, best = some c ∨ c ∈ l ∧ s.setBlockIndexCandidates c = true →
      ∃ b, l.foldl s.pickBetter best = some b ∧ s.worse b c = false := by
  induction l generalizing best with
  | nil =>
    refine ⟨fun b hb => .inl hb, fun c hc => ⟨c, ?_, worse_self⟩⟩
    rcases hc with hc | ⟨hc, -⟩
    · exact hc
    · simp at hc
  | cons d l ih =>
    rw [List.foldl_cons]
    obtain ⟨hsound, hcomplete⟩ := ih (s.pickBetter best d)
    constructor
    · intro b hb
      rcases hsound b hb with hpick | ⟨hmem, hcand⟩
      · unfold pickBetter at hpick
        split_ifs at hpick with hcond
        · obtain rfl := Option.some.inj hpick
          rw [Bool.and_eq_true] at hcond
          exact .inr ⟨List.mem_cons_self .., hcond.1⟩
        · exact .inl hpick
      · exact .inr ⟨List.mem_cons_of_mem _ hmem, hcand⟩
    · intro c hc
      -- the pick is at least as good as the one before and as the new block
      have hpick : best = some c ∨ c = d ∧ s.setBlockIndexCandidates d = true →
          ∃ b, s.pickBetter best d = some b ∧ s.worse b c = false := by
        intro hc
        unfold pickBetter
        split_ifs with hcond
        · rw [Bool.and_eq_true] at hcond
          refine ⟨d, rfl, ?_⟩
          rcases hc with rfl | ⟨rfl, -⟩
          · exact worse_false_of_worse hcond.2
          · exact worse_self
        · rcases hc with rfl | ⟨rfl, hcand⟩
          · exact ⟨c, rfl, worse_self⟩
          · cases best with
            | none => simp [hcand] at hcond
            | some e => exact ⟨e, rfl, by simpa [hcand] using hcond⟩
      rcases hc with hc | ⟨hmem, hcand⟩
      · obtain ⟨e, he, hw⟩ := hpick (.inl hc)
        obtain ⟨b, hb, hw'⟩ := hcomplete e (.inl he)
        exact ⟨b, hb, worse_false_trans hw' hw⟩
      · rcases List.mem_cons.mp hmem with rfl | hmem
        · obtain ⟨e, he, hw⟩ := hpick (.inr ⟨rfl, hcand⟩)
          obtain ⟨b, hb, hw'⟩ := hcomplete e (.inl he)
          exact ⟨b, hb, worse_false_trans hw' hw⟩
        · exact hcomplete c (.inr ⟨hmem, hcand⟩)

lemma bestCandidate_sound (h : s.bestCandidate = some m) :
    m < s.size ∧ s.setBlockIndexCandidates m = true := by
  rcases (foldl_pickBetter _ _).1 m h with h | ⟨hm, hcand⟩
  · simp at h
  · exact ⟨List.mem_range.mp hm, hcand⟩

lemma bestCandidate_complete (hc : c < s.size) (hcand : s.setBlockIndexCandidates c = true) :
    ∃ m, s.bestCandidate = some m ∧ s.worse m c = false :=
  (foldl_pickBetter _ _).2 c (.inr ⟨List.mem_range.mpr hc, hcand⟩)

/-! ### The chain of a candidate -/

section OffChain

variable (h : Shape s) (htip : s.tip < s.size)
include h htip

lemma Shape.contains_iff : s.contains b = true ↔ Anc s.pprev b s.tip := h.isAncestor_iff htip

lemma Shape.mem_offChain {n : ℕ} (hb : b < s.size) (hn : s.nHeight b < n) :
    a ∈ s.offChain n b ↔ Anc s.pprev a b ∧ ¬ Anc s.pprev a s.tip := by
  induction n generalizing b with
  | zero => omega
  | succ n ih =>
    rw [offChain]
    split_ifs with hcon
    · rw [h.contains_iff htip] at hcon
      simp only [List.not_mem_nil, false_iff, not_and, not_not]
      exact fun ha => ha.trans hcon
    · rw [h.contains_iff htip] at hcon
      have hb0 : b ≠ 0 := by
        rintro rfl
        exact hcon (h.anc_zero htip)
      obtain ⟨p, hlt, hp, hh, -⟩ := h.parent b hb hb0
      rw [hp, Option.map_some, Option.getD_some, List.mem_cons, ih (hlt.trans hb) (by omega)]
      constructor
      · rintro (rfl | ⟨ha, hna⟩)
        · exact ⟨.refl a, hcon⟩
        · exact ⟨.step hp ha, hna⟩
      · rintro ⟨ha, hna⟩
        rcases ha.cases_parent with rfl | ⟨q, hq, ha⟩
        · exact .inl rfl
        · obtain rfl := Option.some.inj (hp.symm.trans hq)
          exact .inr ⟨ha, hna⟩

end OffChain

lemma anc_of_mem_above {n : ℕ} (ht : t ∈ s.offChain n b)
    (ha : a ∈ (s.offChain n b).takeWhile (· != t)) : Anc s.pprev t a := by
  -- a block of a line is an ancestor of the one the line starts at
  have hanc : ∀ {n b}, t ∈ s.offChain n b → Anc s.pprev t b := by
    intro n
    induction n with
    | zero => simp [offChain]
    | succ n ih =>
      intro b ht
      rw [offChain] at ht
      split_ifs at ht with hcon
      · simp at ht
      · rcases List.mem_cons.mp ht with rfl | ht
        · exact .refl t
        · cases hp : s.pprev b with
          | none => simp [hp] at ht
          | some p =>
            rw [hp, Option.map_some, Option.getD_some] at ht
            exact .step hp (ih ht)
  induction n generalizing b with
  | zero => simp [offChain] at ht
  | succ n ih =>
    have ht' := ht
    rw [offChain] at ht' ha
    split_ifs at ht' ha with hcon
    · simp at ht'
    · by_cases hbt : b = t
      · subst hbt
        simp at ha
      · rw [List.takeWhile_cons_of_pos (by simpa using hbt)] at ha
        rcases List.mem_cons.mp ha with rfl | ha
        · exact hanc ht
        · rcases List.mem_cons.mp ht' with rfl | ht'
          · exact absurd rfl hbt
          · cases hp : s.pprev b with
            | none => simp [hp] at ht'
            | some p =>
              rw [hp, Option.map_some, Option.getD_some] at ht' ha
              exact ih ht' ha

lemma foldl_markFailedChild (l : List ℕ) :
    Reflags s (l.foldl markFailedChild s) ∧
    (l.foldl markFailedChild s).tip = s.tip ∧
    (l.foldl markFailedChild s).setBlockIndexCandidates = s.setBlockIndexCandidates ∧
    ∀ c, ((l.foldl markFailedChild s).status c).failedValid = (s.status c).failedValid ∧
      (((l.foldl markFailedChild s).status c).failed = true ↔
        (s.status c).failed = true ∨ c ∈ l) := by
  induction l generalizing s with
  | nil => exact ⟨.refl s, rfl, rfl, fun c => ⟨rfl, by simp⟩⟩
  | cons b l ih =>
    obtain ⟨hre, htip, hcand, hst⟩ := ih (s := s.markFailedChild b)
    refine ⟨(Reflags.setFlags s b (·.failedValid) fun _ => true).trans hre, htip, hcand,
      fun c => ?_⟩
    rw [List.foldl_cons, (hst c).1, (hst c).2]
    by_cases hc : c = b
    · subst hc
      simp [markFailedChild, BlockStatus.failed]
    · rw [markFailedChild, setStatus_of_ne _ hc]
      simp [hc]

lemma foldl_eraseCandidate (l : List ℕ) :
    Reflags s (l.foldl eraseCandidate s) ∧ (l.foldl eraseCandidate s).tip = s.tip ∧
    (l.foldl eraseCandidate s).status = s.status ∧
    ∀ c, (l.foldl eraseCandidate s).setBlockIndexCandidates c = true ↔
      s.setBlockIndexCandidates c = true ∧ c ∉ l := by
  induction l generalizing s with
  | nil => exact ⟨.refl s, rfl, rfl, fun c => by simp⟩
  | cons b l ih =>
    obtain ⟨hre, htip, hst, hcand⟩ := ih (s := s.eraseCandidate b)
    refine ⟨(Reflags.eraseCandidate s b).trans hre, htip, hst, fun c => ?_⟩
    rw [List.foldl_cons, hcand]
    by_cases hc : c = b
    · subst hc
      simp [eraseCandidate]
    · simp [eraseCandidate, hc]

lemma removeChain_failed (line : List ℕ) (hf : (s.status t).failed = true) :
    Reflags s (s.removeChain line t) ∧ (s.removeChain line t).tip = s.tip ∧
    (∀ c, ((s.removeChain line t).status c).failedValid = (s.status c).failedValid ∧
      (((s.removeChain line t).status c).failed = true ↔
        (s.status c).failed = true ∨ c ∈ line.takeWhile (· != t))) ∧
    ∀ c, (s.removeChain line t).setBlockIndexCandidates c = true ↔
      s.setBlockIndexCandidates c = true ∧ c ∉ line.takeWhile (· != t) ∧ c ≠ t := by
  set above := line.takeWhile (· != t)
  have hdef : s.removeChain line t =
      (above.foldl eraseCandidate (above.foldl markFailedChild s)).eraseCandidate t := by
    simp only [removeChain, if_pos hf]
    rfl
  obtain ⟨hre, htip, hcand, hst⟩ := foldl_markFailedChild (s := s) above
  obtain ⟨hre', htip', hst', hcand'⟩ :=
    foldl_eraseCandidate (s := above.foldl markFailedChild s) above
  rw [hdef]
  refine ⟨(hre.trans hre').trans (.eraseCandidate _ t), htip'.trans htip, fun c => ?_, fun c => ?_⟩
  · rw [← (hst c).1, ← (hst c).2, ← hst']
    exact ⟨rfl, Iff.rfl⟩
  · rw [← hcand, ← and_assoc, ← hcand']
    by_cases hc : c = t
    · subst hc
      simp [eraseCandidate]
    · simp [eraseCandidate, hc]

lemma LoopInv.removeChain (h : LoopInv r s) {line : List ℕ} (hf : (s.status t).failed = true)
    (ht : t < s.size) (habove : ∀ c ∈ line.takeWhile (· != t), Anc s.pprev t c) :
    LoopInv r (s.removeChain line t) := by
  obtain ⟨hre, htip, hst, hcand⟩ := removeChain_failed line hf
  -- a good block has no failed ancestor, so it does not descend from a removed one
  have hgood : ∀ {b}, Good s b → Good (s.removeChain line t) b := by
    intro b hb
    refine hre.good hb fun a ha => ?_
    rw [← Bool.not_eq_true, (hst a).2]
    rintro (hfa | hmem)
    · simp [hb.unfailed a ha] at hfa
    · have := hb.unfailed t ((habove a hmem).trans ha)
      simp [hf] at this
  refine ⟨hre.core h.core ?_, hgood h.best, htip ▸ hgood h.tip, ?_, ?_⟩
  · refine h.core.flagged.mark hre.size hre.node (fun a ha => (hst a).1.trans ha) fun b hb hfb => ?_
    rcases (hst b).2.mp hfb with hfb | hmem
    · exact .inl hfb
    · obtain ⟨a, ha, hv⟩ := h.core.flagged t ht hf
      exact .inr ⟨a, ha.trans (habove b hmem), (hst a).1.trans hv⟩
  · rw [hre.worse, htip]
    exact h.best_le
  · refine hre.candidates h.candidates (fun b hb => ((hcand b).mp hb).1) fun b hfb => ?_
    rw [← Bool.not_eq_true, (hst b).2, not_or, Bool.not_eq_true] at hfb
    refine ⟨hfb.1, fun hb => (hcand b).mpr ⟨hb, hfb.2, ?_⟩⟩
    rintro rfl
    simp [hf] at hfb

def numCandidates (s : BlockTree) : ℕ :=
  ((Finset.range s.size).filter fun b => s.setBlockIndexCandidates b = true).card

/-- **The best candidate is found.** It and its ancestors are good, and the reference block is not
better. -/
lemma LoopInv.findMostWorkChain {n : ℕ} (h : LoopInv r s) (hn : s.numCandidates < n) :
    ∃ s' m, findMostWorkChain n s = (s', some m) ∧ LoopInv r s' ∧ Reflags s s' ∧ s'.tip = s.tip ∧
      m < s'.size ∧ s'.Linked m ∧ s'.worse m r = false ∧
      ∀ a, Anc s'.pprev a m → (s'.status a).failed = false := by
  induction n generalizing s with
  | zero => omega
  | succ n ih =>
    -- the reference block is always left in the set
    have hr := h.candidates.complete r h.best.lt h.best.linked (h.best.unfailed r (.refl r))
      worse_self
    obtain ⟨m, hm, hw⟩ := bestCandidate_complete h.best.lt hr
    obtain ⟨hlt, hcand⟩ := bestCandidate_sound hm
    have hl := (h.candidates.sound m hcand).2.1
    have hmem : ∀ a, a ∈ s.offChain (s.nHeight m + 1) m ↔
        Anc s.pprev a m ∧ ¬ Anc s.pprev a s.tip := fun a =>
      h.core.shape.mem_offChain h.tip.lt hlt (Nat.lt_succ_self _)
    have hdata : ∀ a, Anc s.pprev a m → (s.status a).haveData = true :=
      (h.core.linked_iff hlt).mp hl
    rw [BlockTree.findMostWorkChain, hm]
    dsimp only
    cases hfind : (s.offChain (s.nHeight m + 1) m).find? s.isUnusable with
    | none =>
      refine ⟨s, m, rfl, h, .refl s, rfl, hlt, hl, hw, fun a ha => ?_⟩
      by_cases hat : Anc s.pprev a s.tip
      · exact h.tip.unfailed a hat
      · have := List.find?_eq_none.mp hfind a ((hmem a).mpr ⟨ha, hat⟩)
        rw [isUnusable, Bool.or_eq_true, not_or, Bool.not_eq_true] at this
        exact this.1
    | some t =>
      have htmem := List.mem_of_find?_eq_some hfind
      have htm := ((hmem t).mp htmem).1
      have hf : (s.status t).failed = true := by
        have := List.find?_some hfind
        rw [isUnusable, hdata t htm] at this
        simpa using this
      have habove : ∀ c ∈ (s.offChain (s.nHeight m + 1) m).takeWhile (· != t), Anc s.pprev t c :=
        fun c hc => anc_of_mem_above htmem hc
      obtain ⟨hre, htip, -, hcand'⟩ := removeChain_failed (s.offChain (s.nHeight m + 1) m) hf
      have hinv := h.removeChain hf (h.core.shape.graded.mem hlt htm) habove
      have hcount : (s.removeChain (s.offChain (s.nHeight m + 1) m) t).numCandidates <
          s.numCandidates := by
        refine Finset.card_lt_card ((Finset.ssubset_iff_of_subset ?_).mpr ⟨m, ?_, ?_⟩)
        · intro c hc
          rw [Finset.mem_filter, hre.size] at hc
          exact Finset.mem_filter.mpr ⟨hc.1, ((hcand' c).mp hc.2).1⟩
        · exact Finset.mem_filter.mpr ⟨Finset.mem_range.mpr hlt, hcand⟩
        · intro hmc
          obtain ⟨-, hna, hmt⟩ := (hcand' m).mp (Finset.mem_filter.mp hmc).2
          refine hna ?_
          -- the line starts at the candidate itself
          have hhead : ∃ l, s.offChain (s.nHeight m + 1) m = m :: l := by
            rw [offChain]
            split_ifs with hcon
            · rw [h.core.shape.contains_iff h.tip.lt] at hcon
              exact absurd (htm.trans hcon) ((hmem t).mp htmem).2
            · exact ⟨_, rfl⟩
          obtain ⟨l, hl⟩ := hhead
          rw [hl, List.takeWhile_cons_of_pos (by simpa using hmt)]
          exact List.mem_cons_self ..
      obtain ⟨s', m', heq, hinv', hre', htip', hrest⟩ := ih hinv (by omega)
      exact ⟨s', m', heq, hinv', hre.trans hre', htip'.trans htip, hrest⟩

lemma numCandidates_le : s.numCandidates ≤ s.size :=
  (Finset.card_filter_le _ _).trans_eq (Finset.card_range _)

/-! ### Connecting blocks -/

lemma raiseScripts_true (s : BlockTree) (b : ℕ) :
    s.raiseScripts true b = s.setStatus b (·.raiseValidity BLOCK_VALID_SCRIPTS) := rfl

lemma sameLinks_raiseScripts (s : BlockTree) (raised : Bool) (b : ℕ) :
    SameLinks s (s.raiseScripts raised b) := by
  cases raised with
  | false => exact .refl s
  | true =>
    rw [raiseScripts_true]
    refine .setStatus fun st => ?_
    rw [BlockStatus.raiseValidity]
    split_ifs <;> exact ⟨rfl, rfl, rfl, rfl⟩

lemma raiseScripts_flags (s : BlockTree) (raised : Bool) (b c : ℕ) :
    ((s.raiseScripts raised b).status c).failedValid = (s.status c).failedValid ∧
    ((s.raiseScripts raised b).status c).failedChild = (s.status c).failedChild := by
  cases raised with
  | false => exact ⟨rfl, rfl⟩
  | true =>
    rw [raiseScripts_true]
    refine setStatus_rel (R := fun st st' => st.failedValid = st'.failedValid ∧
      st.failedChild = st'.failedChild) ?_ (fun _ => ⟨rfl, rfl⟩) c
    rw [BlockStatus.raiseValidity]
    split_ifs <;> exact ⟨rfl, rfl⟩

lemma raiseScripts_failed (s : BlockTree) (raised : Bool) (b c : ℕ) :
    ((s.raiseScripts raised b).status c).failed = (s.status c).failed := by
  rw [BlockStatus.failed, BlockStatus.failed, (s.raiseScripts_flags raised b c).1,
    (s.raiseScripts_flags raised b c).2]

lemma raiseScripts_validity (s : BlockTree) (raised : Bool) (b c : ℕ) :
    ((s.raiseScripts raised b).status c).validity = (s.status c).validity ∨
      c = b ∧ ((s.raiseScripts raised b).status c).validity =
        max (s.status c).validity BLOCK_VALID_SCRIPTS := by
  cases raised with
  | false => exact .inl rfl
  | true =>
    by_cases hc : c = b
    · subst hc
      rw [raiseScripts_true, setStatus_self, BlockStatus.raiseValidity]
      split_ifs
      · exact .inl rfl
      · exact .inr ⟨rfl, rfl⟩
    · rw [raiseScripts_true, setStatus_of_ne _ hc]
      exact .inl rfl

lemma raiseScripts_connected {raised : Bool} (hc : s.Connected c) :
    (s.raiseScripts raised b).Connected c := by
  refine hc.imp id fun hv => ?_
  rcases s.raiseScripts_validity raised b c with h | ⟨-, h⟩
  · exact hv.trans_eq h.symm
  · rw [h]
    exact le_max_right _ _

lemma raiseScripts_connected_self (hf : (s.status b).failed = false) :
    (s.raiseScripts true b).Connected b := by
  refine .inr ?_
  rw [raiseScripts_true, setStatus_self, BlockStatus.raiseValidity, if_neg (by simp [hf])]
  exact le_max_right _ _

lemma Core.raiseScripts (h : Core s) {raised : Bool} (hb : b < s.size) (hl : s.Linked b)
    (hp : ∀ p, s.pprev b = some p → s.Connected p) : Core (s.raiseScripts raised b) := by
  have hsame := s.sameLinks_raiseScripts raised b
  refine ⟨hsame.shape h.shape, hsame.linking h.linking, ?_,
    h.flagged.congr hsame.size hsame.node (s.raiseScripts_flags raised b)⟩
  refine ⟨fun c hc => ?_, fun c hc => ?_, fun c hc hv => ?_⟩
  · rw [hsame.size] at hc
    have := h.levels.tree c hc
    rcases s.raiseScripts_validity raised b c with h | ⟨-, h⟩ <;> omega
  · rw [hsame.size] at hc
    rw [(hsame.status c).2.1, ← h.levels.transactions c hc]
    rcases s.raiseScripts_validity raised b c with hv | ⟨rfl, hv⟩
    · rw [hv]
    · have := h.validity hb hl
      rw [hv]
      omega
  · rw [hsame.size] at hc
    rw [hsame.pprev]
    rcases s.raiseScripts_validity raised b c with hv' | ⟨rfl, hv'⟩
    · rw [hv'] at hv
      obtain ⟨hcc, hcp⟩ := h.levels.connected c hc hv
      exact ⟨raiseScripts_connected hcc, fun p hpp => raiseScripts_connected (hcp p hpp)⟩
    · refine ⟨.inr ?_, fun p hpp => raiseScripts_connected (hp p hpp)⟩
      rw [hv']
      exact le_max_right _ _

lemma Good.raiseScripts {raised : Bool} (h : Good s c) : Good (s.raiseScripts raised b) c := by
  have hsame := s.sameLinks_raiseScripts raised b
  refine ⟨hsame.size ▸ h.lt, (hsame.linked c).mpr h.linked, raiseScripts_connected h.connected,
    fun a ha => ?_⟩
  rw [hsame.pprev] at ha
  rw [raiseScripts_failed]
  exact h.unfailed a ha

@[simp] lemma raiseScripts_tip (s : BlockTree) (raised : Bool) (b : ℕ) :
    (s.raiseScripts raised b).tip = s.tip := by
  cases raised <;> rfl

lemma raiseScripts_candidates (s : BlockTree) (raised : Bool) (b : ℕ) :
    (s.raiseScripts raised b).setBlockIndexCandidates = s.setBlockIndexCandidates := by
  cases raised <;> rfl

lemma LoopInv.raiseScripts (h : LoopInv r s) (raised : Bool) (hb : b < s.size) (hl : s.Linked b)
    (hp : s.pprev b = some s.tip) : LoopInv r (s.raiseScripts raised b) := by
  have hsame := s.sameLinks_raiseScripts raised b
  refine ⟨h.core.raiseScripts hb hl fun p hpp => ?_, h.best.raiseScripts, ?_, ?_, ?_⟩
  · obtain rfl := Option.some.inj (hp.symm.trans hpp)
    exact h.tip.connected
  · rw [raiseScripts_tip]
    exact h.tip.raiseScripts
  · rw [hsame.worse, raiseScripts_tip]
    exact h.best_le
  · constructor
    · intro c hc
      rw [raiseScripts_candidates] at hc
      rw [hsame.size, hsame.linked, hsame.worse]
      exact h.candidates.sound c hc
    · intro c hc hlc hf hw
      rw [raiseScripts_candidates]
      rw [hsame.size] at hc
      rw [hsame.linked] at hlc
      rw [raiseScripts_failed] at hf
      rw [hsame.worse] at hw
      exact h.candidates.complete c hc hlc hf hw

/-- The tip moves to another block and the candidates that are worse go. The reference block
becomes the better one of the two. -/
lemma LoopInv.advance (h : LoopInv r s) (hb : Good s b) :
    ∃ r', (r' = r ∨ r' = b) ∧ LoopInv r' { s with tip := b }.pruneBlockIndexCandidates := by
  have hre : Reflags s { s with tip := b }.pruneBlockIndexCandidates :=
    ⟨⟨rfl, rfl, rfl, fun _ => ⟨rfl, rfl, rfl, rfl⟩⟩, fun _ => rfl⟩
  have hprune : ∀ c,
      { s with tip := b }.pruneBlockIndexCandidates.setBlockIndexCandidates c = true ↔
      s.setBlockIndexCandidates c = true ∧ s.worse c b = false := fun c => by
    simp only [pruneBlockIndexCandidates, Bool.and_eq_true, Bool.not_eq_true']
    exact Iff.rfl
  have hcore := hre.core h.core h.core.flagged
  have hgood : ∀ {c}, Good s c → Good { s with tip := b }.pruneBlockIndexCandidates c := fun hc =>
    hre.good hc hc.unfailed
  by_cases hw : s.worse b r = true
  · have hle := worse_false_of_worse hw
    refine ⟨r, .inl rfl, hcore, hgood h.best, hgood hb, ?_, ?_, ?_⟩
    · exact (hre.worse r b).trans hle
    · intro c hc
      obtain ⟨hlt, hl, hwc⟩ := h.candidates.sound c ((hprune c).mp hc).1
      exact ⟨hlt, hl, (hre.worse c r).trans hwc⟩
    · intro c hc hl hf hwc
      have hwc' : s.worse c r = false := (hre.worse c r).symm.trans hwc
      exact (hprune c).mpr ⟨h.candidates.complete c hc hl hf hwc', worse_false_trans hwc' hle⟩
  · rw [Bool.not_eq_true] at hw
    refine ⟨b, .inr rfl, hcore, hgood hb, hgood hb, worse_self, ?_, ?_⟩
    · intro c hc
      obtain ⟨hcand, hwc⟩ := (hprune c).mp hc
      obtain ⟨hlt, hl, -⟩ := h.candidates.sound c hcand
      exact ⟨hlt, hl, (hre.worse c b).trans hwc⟩
    · intro c hc hl hf hwc
      have hwc' : s.worse c b = false := (hre.worse c b).symm.trans hwc
      exact (hprune c).mpr ⟨h.candidates.complete c hc hl hf (worse_false_trans hwc' hw), hwc'⟩

lemma invalidBlockFound_false (s : BlockTree) (b : ℕ) : s.invalidBlockFound false b =
    (s.setStatus b fun st => { st with failedValid := true }).eraseCandidate b := rfl

lemma reflags_invalidBlockFound (s : BlockTree) (corruptionPossible : Bool) (b : ℕ) :
    Reflags s (s.invalidBlockFound corruptionPossible b) := by
  cases corruptionPossible with
  | true => exact .refl s
  | false =>
    exact (Reflags.setFlags s b (fun _ => true) (·.failedChild)).trans (.eraseCandidate _ b)

@[simp] lemma invalidBlockFound_tip (s : BlockTree) (corruptionPossible : Bool) (b : ℕ) :
    (s.invalidBlockFound corruptionPossible b).tip = s.tip := by
  cases corruptionPossible <;> rfl

lemma invalidBlockFound_self :
    ((s.invalidBlockFound false b).status b).failedValid = true := by
  rw [invalidBlockFound_false, eraseCandidate_status, setStatus_self]

lemma invalidBlockFound_of_ne (h : c ≠ b) :
    (s.invalidBlockFound false b).status c = s.status c := by
  rw [invalidBlockFound_false, eraseCandidate_status, setStatus_of_ne _ h]

lemma invalidBlockFound_candidates :
    (s.invalidBlockFound false b).setBlockIndexCandidates c = true ↔
      s.setBlockIndexCandidates c = true ∧ c ≠ b := by
  rw [invalidBlockFound_false]
  by_cases hc : c = b
  · subst hc
    simp [eraseCandidate]
  · simp [eraseCandidate, setStatus, hc]

lemma Core.invalidBlockFound (h : Core s) (b : ℕ) : Core (s.invalidBlockFound false b) := by
  have hre := s.reflags_invalidBlockFound false b
  refine hre.core h (h.flagged.mark hre.size hre.node (fun a ha => ?_) fun c _ hf => ?_)
  · by_cases hab : a = b
    · rw [hab]
      exact invalidBlockFound_self
    · rw [invalidBlockFound_of_ne hab]
      exact ha
  · by_cases hcb : c = b
    · exact .inr ⟨b, hcb ▸ .refl c, invalidBlockFound_self⟩
    · rw [invalidBlockFound_of_ne hcb] at hf
      exact .inl hf

lemma Good.invalidBlockFound (h : Good s c) (hbc : ¬ Anc s.pprev b c) :
    Good (s.invalidBlockFound false b) c := by
  refine (s.reflags_invalidBlockFound false b).good h fun a ha => ?_
  have hab : a ≠ b := fun hab => hbc (hab ▸ ha)
  rw [invalidBlockFound_of_ne hab]
  exact h.unfailed a ha

lemma Candidates.invalidBlockFound (h : Candidates r s) :
    Candidates r (s.invalidBlockFound false b) := by
  refine (s.reflags_invalidBlockFound false b).candidates h
    (fun c hc => (invalidBlockFound_candidates.mp hc).1) fun c hf => ?_
  have hcb : c ≠ b := by
    rintro rfl
    simp [BlockStatus.failed, invalidBlockFound_self] at hf
  rw [invalidBlockFound_of_ne hcb] at hf
  exact ⟨hf, fun hc => invalidBlockFound_candidates.mpr ⟨hc, hcb⟩⟩

lemma LoopInv.invalidBlockFound (h : LoopInv r s) (corruptionPossible : Bool)
    (hr : corruptionPossible = false → ¬ Anc s.pprev b r)
    (ht : ¬ Anc s.pprev b s.tip) : LoopInv r (s.invalidBlockFound corruptionPossible b) := by
  cases corruptionPossible with
  | true => exact h
  | false =>
    refine ⟨h.core.invalidBlockFound b, h.best.invalidBlockFound (hr rfl),
      h.tip.invalidBlockFound ht, ?_, h.candidates.invalidBlockFound⟩
    rw [(s.reflags_invalidBlockFound false b).worse]
    exact h.best_le

/-! ### A call of `ActivateBestChain` -/

/-- A call that comes to have this tip can be stopped there: the tip cannot be disconnected, or a
block on it can neither be connected nor refused. -/
def Stops (s : BlockTree) (env : ChainEnv) (t : ℕ) : Prop :=
  env.disconnects t = false ∨
    ∃ b raised, b < s.size ∧ s.pprev b = some t ∧ env.connects b = .failed raised

/-- The blocks of the active chain are not found invalid now, and where a call can be stopped it
has not left a better tip. -/
structure Steady (s : BlockTree) (env : ChainEnv) : Prop where
  again : ∀ b raised, s.contains b = true → env.connects b ≠ .invalid false raised
  stops : ∀ t c, s.Stops env t → c < s.size → c = s.tip ∨ env.connects c = .connected →
    s.worse t c = false

/-- Neither the block nor an ancestor of it is found invalid during the call. -/
def Accepted (s : BlockTree) (env : ChainEnv) (b : ℕ) : Prop :=
  ∀ a, Anc s.pprev a b → ∀ raised, env.connects a ≠ .invalid false raised

/-- What holds during a call that started at `s₀`. -/
structure CallInv (env : ChainEnv) (s₀ : BlockTree) (r : ℕ) (s : BlockTree) : Prop where
  loop : LoopInv r s
  links : SameLinks s₀ s
  best : s.Accepted env r
  tip : s.Accepted env s.tip
  reached : r = s₀.tip ∨ env.connects r = .connected

variable {env : ChainEnv} {s₀ : BlockTree}

lemma CallInv.inv_of_stops (h : CallInv env s₀ r s) (hs : s₀.Steady env)
    (hstop : s₀.Stops env s.tip) : Inv s := by
  refine h.loop.inv ?_
  rw [h.links.worse]
  exact hs.stops _ _ hstop (h.links.size ▸ h.loop.best.lt) h.reached

lemma CallInv.disconnectTo {fork n : ℕ} (h : CallInv env s₀ r s)
    (hfork : Anc s.pprev fork s.tip) (hn : s.nHeight s.tip ≤ n) :
    ∃ t ok, disconnectTo env fork n s = ({ s with tip := t }, ok) ∧
      CallInv env s₀ r { s with tip := t } ∧ (ok = true → t = fork) ∧
      (ok = false → s₀.Stops env t) := by
  have hshape := h.loop.core.shape
  induction n generalizing s with
  | zero =>
    have hle := hshape.graded.height_le h.loop.tip.lt hfork
    have heq := hshape.graded.eq_of_height h.loop.tip.lt hfork (by omega)
    refine ⟨s.tip, true, ?_, h, fun _ => heq.symm, by simp⟩
    simp [BlockTree.disconnectTo, heq]
  | succ n ih =>
    rw [BlockTree.disconnectTo]
    split_ifs with htip
    · exact ⟨s.tip, true, rfl, h, fun _ => htip, by simp⟩
    · rcases hfork.cases_parent with heq | ⟨q, hq, hfork⟩
      · exact absurd heq.symm htip
      · rw [disconnectTip]
        split_ifs with hd
        · rw [hq, Option.map_some]
          have hheight := hshape.graded.height h.loop.tip.lt hq
          have hanc : Anc s.pprev q s.tip := .of_parent hq
          have hre : Reflags s { s with tip := q } :=
            ⟨⟨rfl, rfl, rfl, fun _ => ⟨rfl, rfl, rfl, rfl⟩⟩, fun _ => rfl⟩
          have hgood := h.loop.core.good_anc h.loop.tip hanc
          have hle := worse_false_trans h.loop.best_le
            (hshape.worse_false_of_anc h.loop.tip.lt hanc)
          have hcall : CallInv env s₀ r { s with tip := q } :=
            { loop :=
                { core := hre.core h.loop.core h.loop.core.flagged
                  best := hre.good h.loop.best h.loop.best.unfailed
                  tip := hre.good hgood hgood.unfailed
                  best_le := (hre.worse r q).trans hle
                  candidates := hre.candidates h.loop.candidates (fun _ => id)
                    fun _ hf => ⟨hf, id⟩ }
              links := h.links.trans hre.toSameLinks
              best := h.best
              tip := fun a ha => h.tip a (ha.trans hanc)
              reached := h.reached }
          exact ih hcall hfork (by change s.nHeight q ≤ n; omega) hcall.loop.core.shape
        · rw [Bool.not_eq_true] at hd
          exact ⟨s.tip, false, rfl, h, by simp, fun _ => .inl hd⟩

lemma Accepted.raiseScripts (h : s.Accepted env c) (raised : Bool) (b : ℕ) :
    (s.raiseScripts raised b).Accepted env c := by
  intro a ha
  rw [(s.sameLinks_raiseScripts raised b).pprev] at ha
  exact h a ha

lemma LoopInv.not_anc_tip (h : LoopInv r s) (hb : b < s.size) (hp : s.pprev b = some s.tip) :
    ¬ Anc s.pprev b s.tip := by
  intro hbt
  have hle := h.core.shape.graded.height_le h.tip.lt hbt
  have hlt := h.core.shape.graded.height hb hp
  omega

lemma CallInv.connected (h : CallInv env s₀ r s) (hb : b < s.size) (hl : s.Linked b)
    (hp : s.pprev b = some s.tip) (hf : ∀ a, Anc s.pprev a b → (s.status a).failed = false)
    (hres : env.connects b = .connected) :
    ∃ r', (r' = r ∨ r' = b) ∧
      CallInv env s₀ r' { s.raiseScripts true b with tip := b }.pruneBlockIndexCandidates := by
  have hsame := s.sameLinks_raiseScripts true b
  have hgood : Good (s.raiseScripts true b) b := by
    refine ⟨hsame.size ▸ hb, (hsame.linked b).mpr hl,
      raiseScripts_connected_self (hf b (.refl b)), fun a ha => ?_⟩
    rw [hsame.pprev] at ha
    rw [raiseScripts_failed]
    exact hf a ha
  obtain ⟨r', hr', hloop⟩ := (h.loop.raiseScripts true hb hl hp).advance hgood
  have hsame' : SameLinks s { s.raiseScripts true b with tip := b }.pruneBlockIndexCandidates :=
    hsame.trans ⟨rfl, rfl, rfl, fun _ => ⟨rfl, rfl, rfl, rfl⟩⟩
  have haccb : s.Accepted env b := by
    intro a ha raised
    rcases ha.cases_parent with rfl | ⟨q, hq, ha⟩
    · simp [hres]
    · obtain rfl := Option.some.inj (hp.symm.trans hq)
      exact h.tip a ha raised
  refine ⟨r', hr', hloop, h.links.trans hsame', fun a ha => ?_, fun a ha => ?_, ?_⟩
  · rw [hsame'.pprev] at ha
    rcases hr' with rfl | rfl
    · exact h.best a ha
    · exact haccb a ha
  · rw [hsame'.pprev] at ha
    exact haccb a ha
  · rcases hr' with rfl | rfl
    · exact h.reached
    · exact .inr hres

lemma CallInv.invalid (h : CallInv env s₀ r s) (hb : b < s.size) (hl : s.Linked b)
    (hp : s.pprev b = some s.tip) {corruptionPossible raised : Bool}
    (hres : env.connects b = .invalid corruptionPossible raised) :
    CallInv env s₀ r ((s.raiseScripts raised b).invalidBlockFound corruptionPossible b) := by
  have hsame := s.sameLinks_raiseScripts raised b
  have hsame' : SameLinks s ((s.raiseScripts raised b).invalidBlockFound corruptionPossible b) :=
    hsame.trans (reflags_invalidBlockFound _ corruptionPossible b).toSameLinks
  have hnot : corruptionPossible = false → ¬ Anc (s.raiseScripts raised b).pprev b r := by
    rintro rfl
    rw [hsame.pprev]
    intro hbr
    exact h.best b hbr raised hres
  have htip : ¬ Anc (s.raiseScripts raised b).pprev b (s.raiseScripts raised b).tip := by
    rw [hsame.pprev, raiseScripts_tip]
    exact h.loop.not_anc_tip hb hp
  refine ⟨(h.loop.raiseScripts raised hb hl hp).invalidBlockFound corruptionPossible hnot htip,
    h.links.trans hsame', fun a ha => ?_, fun a ha => ?_, h.reached⟩
  · rw [hsame'.pprev] at ha
    exact h.best a ha
  · rw [hsame'.pprev, invalidBlockFound_tip, raiseScripts_tip] at ha
    exact h.tip a ha

lemma CallInv.failed (h : CallInv env s₀ r s) (hb : b < s.size) (hl : s.Linked b)
    (hp : s.pprev b = some s.tip) (raised : Bool) : CallInv env s₀ r (s.raiseScripts raised b) := by
  refine ⟨h.loop.raiseScripts raised hb hl hp, h.links.trans (s.sameLinks_raiseScripts raised b),
    h.best.raiseScripts raised b, ?_, h.reached⟩
  rw [raiseScripts_tip]
  exact h.tip.raiseScripts raised b

lemma CallInv.connectLine {oldWork : ℕ} (h : CallInv env s₀ r s)
    (hline : Leads s.pprev s.tip l m) (hm : m < s.size) (hl : s.Linked m)
    (hf : ∀ a, Anc s.pprev a m → (s.status a).failed = false) (hle : s.worse m r = false) :
    ∃ r' s' ok, connectLine env oldWork s l = (s', ok) ∧ CallInv env s₀ r' s' ∧
      s'.worse m r' = false ∧ (ok = false → s₀.Stops env s'.tip) := by
  induction l generalizing s r with
  | nil => exact ⟨r, s, true, rfl, h, hle, by simp⟩
  | cons b l ih =>
    obtain ⟨hp, hline⟩ := hline
    have hcore := h.loop.core
    have hanc := hline.anc
    obtain ⟨hb, hlb⟩ := hcore.linked_anc hm hl hanc
    rw [BlockTree.connectLine]
    cases hres : env.connects b with
    | connected =>
      obtain ⟨r', hr', hcall⟩ :=
        h.connected hb hlb hp (fun a ha => hf a (ha.trans hanc)) hres
      have hsame : SameLinks s { s.raiseScripts true b with tip := b }.pruneBlockIndexCandidates :=
        (s.sameLinks_raiseScripts true b).trans ⟨rfl, rfl, rfl, fun _ => ⟨rfl, rfl, rfl, rfl⟩⟩
      have hle' : { s.raiseScripts true b with tip := b }.pruneBlockIndexCandidates.worse m r' =
          false := by
        rw [hsame.worse]
        rcases hr' with rfl | rfl
        · exact hle
        · exact hcore.shape.worse_false_of_anc hm hanc
      dsimp only
      split_ifs with hbetter
      · exact ⟨r', _, true, rfl, hcall, hle', by simp⟩
      · refine ih hcall ?_ (hsame.size ▸ hm) ((hsame.linked m).mpr hl) (fun a ha => ?_) hle'
        · rw [hsame.pprev]
          exact hline
        · rw [hsame.pprev] at ha
          exact (s.raiseScripts_failed true b a).trans (hf a ha)
    | invalid corruptionPossible raised =>
      refine ⟨r, _, true, rfl, h.invalid hb hlb hp hres, ?_, by simp⟩
      have hsame : SameLinks s
          ((s.raiseScripts raised b).invalidBlockFound corruptionPossible b) :=
        (s.sameLinks_raiseScripts raised b).trans
          (reflags_invalidBlockFound _ corruptionPossible b).toSameLinks
      rw [hsame.worse]
      exact hle
    | failed raised =>
      refine ⟨r, _, false, rfl, h.failed hb hlb hp raised, ?_,
        fun _ => .inr ⟨b, raised, ?_, ?_, hres⟩⟩
      · rw [(s.sameLinks_raiseScripts raised b).worse]
        exact hle
      · exact h.links.size ▸ hb
      · rw [raiseScripts_tip, ← h.links.pprev]
        exact hp

lemma Shape.findFork (h : Shape s) (htip : s.tip < s.size) {n : ℕ} (hb : b < s.size)
    (hn : s.nHeight b < n) :
    ∃ fork, s.findFork n b = some fork ∧ Anc s.pprev fork b ∧ Anc s.pprev fork s.tip := by
  induction n generalizing b with
  | zero => omega
  | succ n ih =>
    rw [BlockTree.findFork]
    split_ifs with hcon
    · exact ⟨b, rfl, .refl b, (h.contains_iff htip).mp hcon⟩
    · rw [h.contains_iff htip] at hcon
      have hb0 : b ≠ 0 := by
        rintro rfl
        exact hcon (h.anc_zero htip)
      obtain ⟨p, hlt, hp, hh, -⟩ := h.parent b hb hb0
      obtain ⟨fork, hfork, hanc, htip⟩ := ih (hlt.trans hb) (by omega)
      refine ⟨fork, ?_, .step hp hanc, htip⟩
      rw [hp, Option.bind_some]
      exact hfork

lemma CallInv.activateBestChainStep (h : CallInv env s₀ r s) (hm : m < s.size) (hl : s.Linked m)
    (hf : ∀ a, Anc s.pprev a m → (s.status a).failed = false) (hle : s.worse m r = false) :
    ∃ r' s' ok, s.activateBestChainStep env m = (s', ok) ∧ CallInv env s₀ r' s' ∧
      s'.worse m r' = false ∧ (ok = false → s₀.Stops env s'.tip) := by
  have hshape := h.loop.core.shape
  obtain ⟨fork, hfork, hanc, htip⟩ := hshape.findFork h.loop.tip.lt hm (Nat.lt_succ_self _)
  obtain ⟨t, ok, hdis, hcall, hok, hstop⟩ := h.disconnectTo htip le_rfl
  rw [BlockTree.activateBestChainStep, hfork]
  dsimp only
  rw [hdis]
  cases ok with
  | false => exact ⟨r, _, false, rfl, hcall, hle, fun _ => hstop rfl⟩
  | true =>
    obtain rfl := hok rfl
    exact hcall.connectLine (hshape.graded.leads_line hm hanc) hm hl hf hle

lemma CallInv.activateBestChain {n : ℕ} (hs : s₀.Steady env) (h : CallInv env s₀ r s) {ok : Bool}
    (heq : activateBestChain env n s = some (s', ok)) : Inv s' := by
  induction n generalizing s r with
  | zero => simp [BlockTree.activateBestChain] at heq
  | succ n ih =>
    obtain ⟨s₁, m, hfind, hloop, hre, htip, hm, hl, hle, hf⟩ :=
      h.loop.findMostWorkChain (Nat.lt_succ_of_le s.numCandidates_le)
    have hcall : CallInv env s₀ r s₁ := by
      refine ⟨hloop, h.links.trans hre.toSameLinks, ?_, ?_, h.reached⟩
      · intro a ha
        rw [hre.pprev] at ha
        exact h.best a ha
      · intro a ha
        rw [hre.pprev, htip] at ha
        exact h.tip a ha
    rw [BlockTree.activateBestChain, hfind] at heq
    dsimp only at heq
    split_ifs at heq with hmt
    · obtain ⟨rfl, rfl⟩ := Prod.mk.inj (Option.some.inj heq)
      exact hloop.inv (hmt ▸ hle)
    · obtain ⟨r', s₂, ok', hstep, hcall', hle', hstop⟩ :=
        hcall.activateBestChainStep hm hl hf hle
      rw [hstep] at heq
      cases ok' with
      | false =>
        obtain ⟨rfl, rfl⟩ := Prod.mk.inj (Option.some.inj heq)
        exact hcall'.inv_of_stops hs (hstop rfl)
      | true =>
        dsimp only at heq
        split_ifs at heq with hmt'
        · obtain ⟨rfl, rfl⟩ := Prod.mk.inj (Option.some.inj heq)
          exact hcall'.loop.inv (hmt' ▸ hle')
        · exact ih hcall' heq

lemma Inv.activateBestChain (h : Inv s) (hs : s.Steady env) {n : ℕ} {ok : Bool}
    (heq : activateBestChain env n s = some (s', ok)) : Inv s' := by
  have hacc : s.Accepted env s.tip := fun a ha raised =>
    hs.again a raised ((h.core.shape.contains_iff h.tip.lt).mpr ha)
  have hcall : CallInv env s s.tip s := ⟨h.loopInv, .refl s, hacc, hacc, .inl rfl⟩
  exact hcall.activateBestChain hs heq

end Agenor.BlockTree
