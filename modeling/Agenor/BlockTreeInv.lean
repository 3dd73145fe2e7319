import Agenor.BlockTree

/-!
The invariant of the block tree and the consistency check. The invariant is stated about a block
that the candidates are compared with. Between two calls this is the tip; inside a call that first
goes back on the active chain it is a tip that was left, and is returned to or surpassed before the
call ends.
-/

namespace Agenor.BlockTree

open Lib.Ancestry

variable {s s' : BlockTree} {a b c p r : ℕ} {queue : List ℕ}

/-! ### The order of blocks -/

lemma worse_iff : s.worse a b = true ↔ s.nChainWork a < s.nChainWork b ∨
    s.nChainWork a = s.nChainWork b ∧ ((s.status b).nSequenceId < (s.status a).nSequenceId ∨
      (s.status a).nSequenceId = (s.status b).nSequenceId ∧ b < a) := by
  unfold worse
  split_ifs <;> simp only [decide_eq_true_eq, false_iff, true_iff] <;> omega

lemma worse_false_iff : s.worse a b = false ↔ s.nChainWork b < s.nChainWork a ∨
    s.nChainWork a = s.nChainWork b ∧ ((s.status a).nSequenceId < (s.status b).nSequenceId ∨
      (s.status a).nSequenceId = (s.status b).nSequenceId ∧ a ≤ b) := by
  rw [← Bool.not_eq_true, worse_iff]
  omega

@[simp] lemma worse_self : s.worse a a = false := by
  rw [worse_false_iff]
  omega

lemma worse_false_trans (hab : s.worse a b = false) (hbc : s.worse b c = false) :
    s.worse a c = false := by
  rw [worse_false_iff] at *
  omega

lemma eq_of_worse_false (hab : s.worse a b = false) (hba : s.worse b a = false) : a = b := by
  rw [worse_false_iff] at *
  omega

lemma worse_false_of_worse (h : s.worse a b = true) : s.worse b a = false := by
  rw [worse_iff] at h
  rw [worse_false_iff]
  omega

lemma worse_congr (hnode : s'.node = s.node)
    (ha : (s'.status a).nSequenceId = (s.status a).nSequenceId)
    (hb : (s'.status b).nSequenceId = (s.status b).nSequenceId) : s'.worse a b = s.worse a b := by
  rw [Bool.eq_iff_iff, worse_iff, worse_iff, nChainWork, nChainWork, hnode, ha, hb]
  rfl

/-! ### The shape of the tree -/

/-- The fields that are set when a block is added. -/
structure Shape (s : BlockTree) : Prop where
  pos : 0 < s.size
  root : s.pprev 0 = none
  root_height : s.nHeight 0 = 0
  parent : ∀ b < s.size, b ≠ 0 → ∃ p < b, s.pprev b = some p ∧ s.nHeight b = s.nHeight p + 1 ∧
    s.nChainWork p < s.nChainWork b
  skip : ∀ b < s.size, 2 ≤ s.nHeight b →
    ∃ k < b, (s.node b).pskip = some k ∧ s.nHeight k < s.nHeight b

lemma pprev_congr (h : s'.node = s.node) : s'.pprev = s.pprev := by
  funext b
  rw [pprev, h, ← pprev]

lemma Shape.congr (h : Shape s) (hsize : s'.size = s.size) (hnode : s'.node = s.node) :
    Shape s' := by
  have hpprev := pprev_congr hnode
  have hheight : s'.nHeight = s.nHeight := by
    funext b
    rw [nHeight, hnode, ← nHeight]
  have hwork : s'.nChainWork = s.nChainWork := by
    funext b
    rw [nChainWork, hnode, ← nChainWork]
  constructor
  · rw [hsize]
    exact h.pos
  · rw [hpprev]
    exact h.root
  · rw [hheight]
    exact h.root_height
  · rw [hsize, hpprev, hheight, hwork]
    exact h.parent
  · rw [hsize, hheight, hnode]
    exact h.skip

lemma Shape.of_pprev (h : Shape s) (hb : b < s.size) (hp : s.pprev b = some p) :
    p < b ∧ s.nHeight b = s.nHeight p + 1 ∧ s.nChainWork p < s.nChainWork b := by
  have hb0 : b ≠ 0 := by
    rintro rfl
    simp [h.root] at hp
  obtain ⟨q, hq, hp', hh, hw⟩ := h.parent b hb hb0
  obtain rfl := Option.some.inj (hp.symm.trans hp')
  exact ⟨hq, hh, hw⟩

lemma Shape.graded (h : Shape s) : Graded s.pprev s.nHeight (· < s.size) where
  closed := fun hb hp => (h.of_pprev hb hp).1.trans hb
  height := fun hb hp => (h.of_pprev hb hp).2.1

lemma Shape.eq_zero (h : Shape s) (hb : b < s.size) (hp : s.pprev b = none) : b = 0 := by
  by_contra hb0
  obtain ⟨p, -, hp', -⟩ := h.parent b hb hb0
  simp [hp] at hp'

lemma Shape.height_le_self (h : Shape s) (hb : b < s.size) : s.nHeight b ≤ b := by
  induction b using Nat.strong_induction_on with
  | _ b ih =>
    by_cases hb0 : b = 0
    · subst hb0
      exact h.root_height.le
    · obtain ⟨p, hp, -, hh, -⟩ := h.parent b hb hb0
      have := ih p hp (hp.trans hb)
      omega

lemma Shape.anc_zero (h : Shape s) (hb : b < s.size) : Anc s.pprev 0 b := by
  induction b using Nat.strong_induction_on with
  | _ b ih =>
    by_cases hb0 : b = 0
    · subst hb0
      exact .refl 0
    · obtain ⟨p, hp, hpp, -⟩ := h.parent b hb hb0
      exact .step hpp (ih p hp (hp.trans hb))

lemma Shape.worse_false_of_anc (h : Shape s) (hb : b < s.size) (ha : Anc s.pprev a b) :
    s.worse b a = false := by
  induction ha with
  | refl => exact worse_self
  | @step p b hp _ ih =>
    obtain ⟨hlt, -, hw⟩ := h.of_pprev hb hp
    refine worse_false_trans ?_ (ih (hlt.trans hb))
    rw [worse_false_iff]
    exact .inl hw

lemma Shape.isAncestor_iff (h : Shape s) (hb : b < s.size) :
    s.isAncestor a b = true ↔ Anc s.pprev a b := by
  rw [← h.graded.climb_iff hb, isAncestor, getAncestor]
  split_ifs with hlt
  · simp only [Option.none_beq_some, Bool.false_eq_true, false_iff]
    omega
  · simp only [beq_iff_eq, iff_and_self]
    omega

/-! ### The invariant -/

/-- The data of the block and of all its ancestors is there. -/
def Linked (s : BlockTree) (b : ℕ) : Prop := (s.status b).nChainTx ≠ 0

/-- The block was connected at some time. -/
def Connected (s : BlockTree) (b : ℕ) : Prop :=
  b = 0 ∨ BLOCK_VALID_SCRIPTS ≤ (s.status b).validity

/-- Which blocks are linked, while those of `queue` are about to be. -/
structure Linking (queue : List ℕ) (s : BlockTree) : Prop where
  data : ∀ b < s.size, (s.status b).haveData = true ↔ (s.status b).nTx ≠ 0
  linked : ∀ b < s.size, s.Linked b ↔
    (s.status b).haveData = true ∧ b ∉ queue ∧ ∀ p, s.pprev b = some p → s.Linked p
  seq : ∀ b < s.size, ¬ s.Linked b → (s.status b).nSequenceId = 0
  unlinked : ∀ p b, (p, b) ∈ s.mapBlocksUnlinked ↔ b < s.size ∧ s.pprev b = some p ∧
    (s.status b).haveData = true ∧ b ∉ queue ∧ ¬ s.Linked b
  nodup : s.mapBlocksUnlinked.Nodup
  waiting : ∀ b ∈ queue, b < s.size ∧ (s.status b).haveData = true ∧
    ∀ p, s.pprev b = some p → s.Linked p
  waiting_nodup : queue.Nodup

/-- How far the blocks are validated. -/
structure Levels (s : BlockTree) : Prop where
  tree : ∀ b < s.size, BLOCK_VALID_TREE ≤ (s.status b).validity
  transactions : ∀ b < s.size,
    BLOCK_VALID_TRANSACTIONS ≤ (s.status b).validity ↔ (s.status b).nTx ≠ 0
  connected : ∀ b < s.size, BLOCK_VALID_CHAIN ≤ (s.status b).validity →
    s.Connected b ∧ ∀ p, s.pprev b = some p → s.Connected p

/-- A failure goes back to a block that is itself invalid. -/
def Flagged (s : BlockTree) : Prop :=
  ∀ b < s.size, (s.status b).failed = true →
    ∃ a, Anc s.pprev a b ∧ (s.status a).failedValid = true

/-- What does not depend on the active chain. -/
structure Core (s : BlockTree) : Prop where
  shape : Shape s
  linking : Linking [] s
  levels : Levels s
  flagged : Flagged s

/-- A block that the active chain can end in. -/
structure Good (s : BlockTree) (b : ℕ) : Prop where
  lt : b < s.size
  linked : s.Linked b
  connected : s.Connected b
  unfailed : ∀ a, Anc s.pprev a b → (s.status a).failed = false

/-- The candidates are the linked blocks that are as good as `r`, though some of those that failed
may be missing. -/
structure Candidates (r : ℕ) (s : BlockTree) : Prop where
  sound : ∀ b, s.setBlockIndexCandidates b = true →
    b < s.size ∧ s.Linked b ∧ s.worse b r = false
  complete : ∀ b < s.size, s.Linked b → (s.status b).failed = false → s.worse b r = false →
    s.setBlockIndexCandidates b = true

/-- What holds inside a call, with `r` the best tip there was. -/
structure LoopInv (r : ℕ) (s : BlockTree) : Prop where
  core : Core s
  best : Good s r
  tip : Good s s.tip
  best_le : s.worse r s.tip = false
  candidates : Candidates r s

/-- What holds between the calls. -/
structure Inv (s : BlockTree) : Prop where
  core : Core s
  tip : Good s s.tip
  candidates : Candidates s.tip s

lemma Inv.loopInv (h : Inv s) : LoopInv s.tip s := ⟨h.core, h.tip, h.tip, worse_self, h.candidates⟩

lemma LoopInv.inv (h : LoopInv r s) (hr : s.worse s.tip r = false) : Inv s := by
  obtain rfl := eq_of_worse_false h.best_le hr
  exact ⟨h.core, h.tip, h.candidates⟩

/-! ### Changes of the status -/

@[simp] lemma setStatus_self (f : BlockStatus → BlockStatus) :
    (s.setStatus b f).status b = f (s.status b) := Function.update_self _ _ _

lemma setStatus_of_ne (f : BlockStatus → BlockStatus) (h : c ≠ b) :
    (s.setStatus b f).status c = s.status c := Function.update_of_ne h _ _

@[simp] lemma eraseCandidate_status : (s.eraseCandidate b).status = s.status := rfl

lemma setStatus_rel {R : BlockStatus → BlockStatus → Prop} {f : BlockStatus → BlockStatus}
    (hf : R (f (s.status b)) (s.status b)) (hrefl : ∀ st, R st st) (c : ℕ) :
    R ((s.setStatus b f).status c) (s.status c) := by
  by_cases hc : c = b
  · subst hc
    rw [setStatus_self]
    exact hf
  · rw [setStatus_of_ne f hc]
    exact hrefl _

lemma Levels.congr (h : Levels s) (hsize : s'.size = s.size) (hnode : s'.node = s.node)
    (hst : ∀ b, (s'.status b).validity = (s.status b).validity ∧
      (s'.status b).nTx = (s.status b).nTx) : Levels s' := by
  have hconn : ∀ b, s'.Connected b ↔ s.Connected b := fun b => by
    rw [Connected, Connected, (hst b).1]
  refine ⟨fun b hb => ?_, fun b hb => ?_, fun b hb hv => ?_⟩
  · rw [(hst b).1]
    exact h.tree b (hsize ▸ hb)
  · rw [(hst b).1, (hst b).2]
    exact h.transactions b (hsize ▸ hb)
  · rw [(hst b).1] at hv
    obtain ⟨hb', hp⟩ := h.connected b (hsize ▸ hb) hv
    refine ⟨(hconn b).mpr hb', fun p hpp => (hconn p).mpr (hp p ?_)⟩
    rw [← hpp, pprev_congr hnode]

lemma Flagged.mark (h : Flagged s) (hsize : s'.size = s.size) (hnode : s'.node = s.node)
    (hmono : ∀ a, (s.status a).failedValid = true → (s'.status a).failedValid = true)
    (hnew : ∀ b < s.size, (s'.status b).failed = true → (s.status b).failed = true ∨
      ∃ a, Anc s.pprev a b ∧ (s'.status a).failedValid = true) : Flagged s' := by
  intro b hb hf
  rw [hsize] at hb
  rw [pprev_congr hnode]
  rcases hnew b hb hf with hf | hnew
  · obtain ⟨a, ha, hv⟩ := h b hb hf
    exact ⟨a, ha, hmono a hv⟩
  · exact hnew

lemma Flagged.congr (h : Flagged s) (hsize : s'.size = s.size) (hnode : s'.node = s.node)
    (hst : ∀ b, (s'.status b).failedValid = (s.status b).failedValid ∧
      (s'.status b).failedChild = (s.status b).failedChild) : Flagged s' := by
  refine h.mark hsize hnode (fun a ha => (hst a).1.trans ha) fun b _ hf => .inl ?_
  rw [BlockStatus.failed, (hst b).1, (hst b).2] at hf
  exact hf

/-- The two trees have the same blocks, linked in the same way. -/
structure SameLinks (s s' : BlockTree) : Prop where
  size : s'.size = s.size
  node : s'.node = s.node
  unlinked : s'.mapBlocksUnlinked = s.mapBlocksUnlinked
  status : ∀ b, (s'.status b).haveData = (s.status b).haveData ∧
    (s'.status b).nTx = (s.status b).nTx ∧ (s'.status b).nChainTx = (s.status b).nChainTx ∧
    (s'.status b).nSequenceId = (s.status b).nSequenceId

namespace SameLinks

lemma refl (s : BlockTree) : SameLinks s s := ⟨rfl, rfl, rfl, fun _ => ⟨rfl, rfl, rfl, rfl⟩⟩

lemma trans {s'' : BlockTree} (h : SameLinks s s') (h' : SameLinks s' s'') : SameLinks s s'' where
  size := h'.size.trans h.size
  node := h'.node.trans h.node
  unlinked := h'.unlinked.trans h.unlinked
  status := fun b =>
    ⟨(h'.status b).1.trans (h.status b).1, (h'.status b).2.1.trans (h.status b).2.1,
      (h'.status b).2.2.1.trans (h.status b).2.2.1, (h'.status b).2.2.2.trans (h.status b).2.2.2⟩

lemma setStatus {f : BlockStatus → BlockStatus} (hf : ∀ st, (f st).haveData = st.haveData ∧
    (f st).nTx = st.nTx ∧ (f st).nChainTx = st.nChainTx ∧ (f st).nSequenceId = st.nSequenceId) :
    SameLinks s (s.setStatus b f) :=
  ⟨rfl, rfl, rfl, fun c => setStatus_rel (R := fun st st' => st.haveData = st'.haveData ∧
    st.nTx = st'.nTx ∧ st.nChainTx = st'.nChainTx ∧ st.nSequenceId = st'.nSequenceId) (hf _)
    (fun _ => ⟨rfl, rfl, rfl, rfl⟩) c⟩

section

variable (h : SameLinks s s')
include h

lemma pprev : s'.pprev = s.pprev := pprev_congr h.node

lemma linked (b : ℕ) : s'.Linked b ↔ s.Linked b := by
  rw [Linked, Linked, (h.status b).2.2.1]

lemma worse (a b : ℕ) : s'.worse a b = s.worse a b :=
  worse_congr h.node (h.status a).2.2.2 (h.status b).2.2.2

lemma shape (hs : Shape s) : Shape s' := hs.congr h.size h.node

lemma linking (hl : Linking queue s) : Linking queue s' := by
  refine ⟨fun b hb => ?_, fun b hb => ?_, fun b hb hlb => ?_, fun p b => ?_, ?_, fun b hb => ?_,
    hl.waiting_nodup⟩
  · rw [(h.status b).1, (h.status b).2.1]
    exact hl.data b (h.size ▸ hb)
  · simp only [h.linked, (h.status b).1, h.pprev]
    exact hl.linked b (h.size ▸ hb)
  · rw [(h.status b).2.2.2]
    exact hl.seq b (h.size ▸ hb) (mt (h.linked b).mpr hlb)
  · rw [h.unlinked, h.size, h.pprev, h.linked, (h.status b).1]
    exact hl.unlinked p b
  · rw [h.unlinked]
    exact hl.nodup
  · simp only [h.linked, (h.status b).1, h.pprev, h.size]
    exact hl.waiting b hb

end

end SameLinks

/-- The two trees differ in failure flags, candidates and the tip only. -/
structure Reflags (s s' : BlockTree) : Prop extends SameLinks s s' where
  validity : ∀ b, (s'.status b).validity = (s.status b).validity

namespace Reflags

lemma refl (s : BlockTree) : Reflags s s := ⟨.refl s, fun _ => rfl⟩

lemma trans {s'' : BlockTree} (h : Reflags s s') (h' : Reflags s' s'') : Reflags s s'' :=
  ⟨h.toSameLinks.trans h'.toSameLinks, fun b => (h'.validity b).trans (h.validity b)⟩

lemma setFlags (s : BlockTree) (b : ℕ) (valid child : BlockStatus → Bool) : Reflags s
    (s.setStatus b fun st => { st with failedValid := valid st, failedChild := child st }) where
  toSameLinks := .setStatus fun _ => ⟨rfl, rfl, rfl, rfl⟩
  validity := setStatus_rel (R := fun st st' => st.validity = st'.validity) rfl fun _ => rfl

lemma eraseCandidate (s : BlockTree) (b : ℕ) : Reflags s (s.eraseCandidate b) :=
  ⟨⟨rfl, rfl, rfl, fun _ => ⟨rfl, rfl, rfl, rfl⟩⟩, fun _ => rfl⟩

variable (h : Reflags s s')
include h

lemma connected (b : ℕ) : s'.Connected b ↔ s.Connected b := by
  rw [Connected, Connected, h.validity]

lemma core (hc : Core s) (hf : Flagged s') : Core s' where
  shape := h.shape hc.shape
  linking := h.linking hc.linking
  levels := hc.levels.congr h.size h.node fun b => ⟨h.validity b, (h.status b).2.1⟩
  flagged := hf

lemma good (hb : Good s b) (hf : ∀ a, Anc s.pprev a b → (s'.status a).failed = false) :
    Good s' b where
  lt := h.size ▸ hb.lt
  linked := (h.linked b).mpr hb.linked
  connected := (h.connected b).mpr hb.connected
  unfailed := fun a ha => hf a (h.pprev ▸ ha)

lemma candidates (hc : Candidates r s)
    (hsub : ∀ b, s'.setBlockIndexCandidates b = true → s.setBlockIndexCandidates b = true)
    (hdrop : ∀ b, (s'.status b).failed = false → (s.status b).failed = false ∧
      (s.setBlockIndexCandidates b = true → s'.setBlockIndexCandidates b = true)) :
    Candidates r s' := by
  constructor
  · intro b hb
    obtain ⟨hlt, hl, hw⟩ := hc.sound b (hsub b hb)
    refine ⟨h.size ▸ hlt, (h.linked b).mpr hl, ?_⟩
    rw [h.worse]
    exact hw
  · intro b hb hl hf hw
    obtain ⟨hf, hkeep⟩ := hdrop b hf
    rw [h.worse] at hw
    exact hkeep (hc.complete b (h.size ▸ hb) ((h.linked b).mp hl) hf hw)

end Reflags

section Core

variable (h : Core s)
include h

lemma Core.linked_parent (hb : b < s.size) (hl : s.Linked b) (hp : s.pprev b = some p) :
    s.Linked p :=
  ((h.linking.linked b hb).mp hl).2.2 p hp

lemma Core.linked_anc (hb : b < s.size) (hl : s.Linked b) (ha : Anc s.pprev a b) :
    a < s.size ∧ s.Linked a :=
  ha.induct (P := fun c => c < s.size ∧ s.Linked c) ⟨hb, hl⟩ fun _ _ hp hc =>
    ⟨h.shape.graded.closed hc.1 hp, h.linked_parent hc.1 hc.2 hp⟩

lemma Core.haveData (hb : b < s.size) (hl : s.Linked b) : (s.status b).haveData = true :=
  ((h.linking.linked b hb).mp hl).1

lemma Core.validity (hb : b < s.size) (hl : s.Linked b) :
    BLOCK_VALID_TRANSACTIONS ≤ (s.status b).validity := by
  rw [h.levels.transactions b hb, ← h.linking.data b hb]
  exact h.haveData hb hl

lemma Core.linked_iff (hb : b < s.size) :
    s.Linked b ↔ ∀ a, Anc s.pprev a b → (s.status a).haveData = true := by
  constructor
  · intro hl a ha
    obtain ⟨ha, hl⟩ := h.linked_anc hb hl ha
    exact h.haveData ha hl
  · intro hdata
    induction b using Nat.strong_induction_on with
    | _ b ih =>
      refine (h.linking.linked b hb).mpr ⟨hdata b (.refl b), by simp, fun p hp => ?_⟩
      have hlt := (h.shape.of_pprev hb hp).1
      exact ih p hlt (hlt.trans hb) fun a ha => hdata a (.step hp ha)

lemma Core.connected_parent (hb : b < s.size) (hc : s.Connected b) (hp : s.pprev b = some p) :
    s.Connected p := by
  rcases hc with rfl | hc
  · simp [h.shape.root] at hp
  · exact (h.levels.connected b hb ((by decide : BLOCK_VALID_CHAIN ≤ _).trans hc)).2 p hp

lemma Core.connected_anc (hb : b < s.size) (hc : s.Connected b) (ha : Anc s.pprev a b) :
    s.Connected a :=
  (ha.induct (P := fun c => c < s.size ∧ s.Connected c) ⟨hb, hc⟩ fun _ _ hp hc =>
    ⟨h.shape.graded.closed hc.1 hp, h.connected_parent hc.1 hc.2 hp⟩).2

lemma Core.good_anc (hb : Good s b) (ha : Anc s.pprev a b) : Good s a where
  lt := (h.linked_anc hb.lt hb.linked ha).1
  linked := (h.linked_anc hb.lt hb.linked ha).2
  connected := h.connected_anc hb.lt hb.connected ha
  unfailed := fun c hc => hb.unfailed c (hc.trans ha)

end Core

/-! ### The check -/

section Path

variable (h : Core s) (hb : b < s.size)
include h hb

lemma Core.mem_lineTo : a ∈ s.lineTo s.size b ↔ Anc s.pprev a b :=
  h.shape.graded.mem_line hb ((h.shape.height_le_self hb).trans_lt hb)

lemma Core.length_lineTo : (s.lineTo s.size b).length = s.nHeight b + 1 := by
  refine h.shape.graded.length_line ?_ hb ((h.shape.height_le_self hb).trans_lt hb)
  intro c hc hp
  rw [h.shape.eq_zero hc hp, h.shape.root_height]

lemma Core.find_isSome (f : ℕ → Bool) : ((s.lineTo s.size b).find? f).isSome = true ↔
    ∃ a, Anc s.pprev a b ∧ f a = true := by
  simp only [List.find?_isSome, h.mem_lineTo hb]

lemma Core.find_isNone (f : ℕ → Bool) : ((s.lineTo s.size b).find? f).isNone = true ↔
    ∀ a, Anc s.pprev a b → f a = false := by
  simp only [Option.isNone_iff_eq_none, List.find?_eq_none, h.mem_lineTo hb, Bool.not_eq_true]

lemma Core.missing_isSome :
    ((s.lineTo s.size b).find? fun a => !(s.status a).haveData).isSome = true ↔ ¬ s.Linked b := by
  rw [h.find_isSome hb, h.linked_iff hb]
  simp

lemma Core.missing_isNone :
    ((s.lineTo s.size b).find? fun a => !(s.status a).haveData).isNone = true ↔ s.Linked b := by
  rw [← Option.not_isSome, Bool.not_eq_true', ← Bool.not_eq_true, h.missing_isSome hb, not_not]

lemma Core.below_isNone {nUpTo : ℕ} (hup : nUpTo ≤ BLOCK_VALID_SCRIPTS)
    (hc : s.Connected b) : ((s.lineTo s.size b).find? fun a =>
      (s.pprev a).isSome && decide ((s.status a).validity < nUpTo)).isNone = true := by
  rw [h.find_isNone hb]
  intro a ha
  rcases h.connected_anc hb hc ha with rfl | hv
  · simp [h.shape.root]
  · have : ¬ (s.status a).validity < nUpTo := by omega
    simp [this]

end Path

lemma Inv.checkBlock (h : Inv s) (hb : b < s.size) : s.checkBlock b = true := by
  have hc := h.core
  have hmissing := hc.missing_isSome hb
  have hinvalid := hc.find_isSome hb fun a => (s.status a).failedValid
  have hdata := hc.linking.data b hb
  have hlen := hc.length_lineTo hb
  -- the failure flags only stand below an invalid block
  have hfailed : (s.status b).failed = true →
      ((s.lineTo s.size b).find? fun a => (s.status a).failedValid).isSome = true := fun hf =>
    hinvalid.mpr (hc.flagged b hb hf)
  simp only [BlockTree.checkBlock, Bool.and_eq_true]
  and_intros
  · by_cases hb0 : b = 0
    · subst hb0
      have := (hc.shape.isAncestor_iff h.tip.lt).mpr (hc.shape.anc_zero h.tip.lt)
      rw [isAncestor, hc.shape.root_height] at this
      simp [this]
    · obtain ⟨p, -, hp, -⟩ := hc.shape.parent b hb hb0
      simp [hp]
  · rw [beq_iff_eq, Bool.eq_iff_iff, Bool.not_eq_true', ← Bool.not_eq_true, hdata, not_not,
      beq_iff_eq]
  · rw [beq_iff_eq, decide_eq_decide, hc.levels.transactions b hb, Nat.pos_iff_ne_zero]
  · by_cases hl : s.Linked b
    · simp [show (s.status b).nChainTx ≠ 0 from hl]
    · simp [hc.linking.seq b hb hl]
  · rw [beq_iff_eq, Bool.eq_iff_iff, hmissing, Linked, not_not, beq_iff_eq]
  · simp [hlen]
  · rw [Option.all_eq_true]
    intro p hp
    exact decide_eq_true (hc.shape.of_pprev hb hp).2.2.le
  · rw [hlen, Nat.add_sub_cancel]
    by_cases hh : s.nHeight b < 2
    · simp [hh]
    · obtain ⟨k, -, hk, hlt⟩ := hc.shape.skip b hb (not_lt.mp hh)
      simp [hk, hlt]
  · rw [hc.find_isNone hb]
    intro a ha
    have := hc.levels.tree a (hc.shape.graded.mem hb ha)
    simp [this]
  · by_cases hv : (s.status b).validity < BLOCK_VALID_CHAIN
    · simp [hv]
    · have hcon := (hc.levels.connected b hb (not_lt.mp hv)).1
      rw [hc.below_isNone hb (by decide) hcon, Bool.or_true]
  · by_cases hv : (s.status b).validity < BLOCK_VALID_SCRIPTS
    · simp [hv]
    · rw [hc.below_isNone hb le_rfl (.inr (not_lt.mp hv)), Bool.or_true]
  · cases hf : (s.status b).failed with
    | false => simp
    | true => simp [hfailed hf]
  · split
    · rename_i hcond
      rw [Bool.not_eq_true', hc.missing_isNone hb] at hcond
      cases hf : (s.status b).failed with
      | true => simp [hfailed hf]
      | false => simp [h.candidates.complete b hb hcond.2 hf hcond.1]
    · rename_i hcond
      rw [Bool.not_eq_true', hc.missing_isNone hb] at hcond
      cases hcand : s.setBlockIndexCandidates b with
      | false => rfl
      | true =>
        obtain ⟨-, hl, hw⟩ := h.candidates.sound b hcand
        exact absurd ⟨hw, hl⟩ hcond
  · split
    · rename_i hcond
      rw [hmissing] at hcond
      obtain ⟨⟨hp, hd⟩, hl⟩ := hcond
      obtain ⟨p, hp⟩ := Option.isSome_iff_exists.mp hp
      have := (hc.linking.unlinked p b).mpr ⟨hb, hp, hd, by simp, hl⟩
      rw [Bool.or_eq_true, List.any_eq_true]
      exact .inr ⟨(p, b), this, by simp [hp]⟩
    · rename_i hcond
      rw [hmissing] at hcond
      rw [Bool.not_eq_true', List.any_eq_false]
      rintro ⟨p, c⟩ hmem hfound
      simp only [Bool.and_eq_true, beq_iff_eq] at hfound
      obtain ⟨hp, rfl⟩ := hfound
      obtain ⟨-, -, hd, -, hl⟩ := (hc.linking.unlinked p c).mp hmem
      exact hcond ⟨⟨by simp [← hp], hd⟩, hl⟩

lemma Shape.forward_none (h : Shape s) : s.forward none = [0] := by
  obtain ⟨n, hn⟩ := Nat.exists_eq_succ_of_ne_zero h.pos.ne'
  have hrest : (List.map Nat.succ (List.range n)).filter (fun b => s.pprev b == none) = [] := by
    rw [List.filter_eq_nil_iff]
    intro b hb hp
    obtain ⟨m, hm, rfl⟩ := List.mem_map.mp hb
    have hlt : m.succ < s.size := by
      rw [hn]
      exact Nat.succ_lt_succ (List.mem_range.mp hm)
    exact absurd (h.eq_zero hlt (beq_iff_eq.mp hp)) (Nat.succ_ne_zero m)
  rw [forward, hn, List.range_succ_eq_map, List.filter_cons, h.root, hrest]
  rfl

lemma Inv.checkBlockIndex (h : Inv s) : s.checkBlockIndex = true := by
  have hshape := h.core.shape
  have hchild : ∀ b c, c ∈ s.forward (some b) ↔ c < s.size ∧ s.pprev c = some b := by
    simp [forward]
  have hmem : ∀ c, c ∈ visit (fun b => s.forward (some b)) s.size 0 ↔ c < s.size := by
    intro c
    rw [hshape.graded.mem_visit hchild hshape.pos]
    refine ⟨fun h => h.1, fun hc => ⟨hc, hshape.anc_zero hc, ?_⟩⟩
    have := hshape.height_le_self hc
    omega
  have hnodup : (visit (fun b => s.forward (some b)) s.size 0).Nodup :=
    hshape.graded.nodup_visit hchild (fun b => List.nodup_range.filter _) hshape.pos
  rw [BlockTree.checkBlockIndex, hshape.forward_none]
  simp only [Bool.and_eq_true, List.all_eq_true, beq_iff_eq]
  constructor
  · intro b hb
    exact h.checkBlock ((hmem b).mp hb)
  · have hperm := (List.perm_ext_iff_of_nodup hnodup List.nodup_range).mpr
      fun c => (hmem c).trans List.mem_range.symm
    rw [hperm.length_eq, List.length_range]

end Agenor.BlockTree
