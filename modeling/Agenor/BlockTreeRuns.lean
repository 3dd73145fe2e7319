import Agenor.Lib.Run
import Agenor.BlockTreeAccept
import Agenor.BlockTreeActivate

/-!
Taking blocks out of consideration and back, and runs of all operations on the block tree.

`ReconsiderBlock` clears the failure flags of the ancestors of a block, but not of what else
descends from them. Blocks that failed for such an ancestor then stay marked for no reason, and the
consistency check does not pass. It passes in every run in which a block is reconsidered only when
its ancestors are fine, and in which no call is stopped on its way back to a tip.
-/

namespace Agenor.BlockTree

open Lib Lib.Ancestry

variable {s s' : BlockTree} {a b c p q : ℕ} {env : ChainEnv}

/-! ### Invalidating a block -/

/-- While the active chain goes back to below the block `p`. -/
structure Backing (p q : ℕ) (s : BlockTree) : Prop where
  core : Core s
  marked : (s.status p).failedValid = true
  lt : s.tip < s.size
  on : Anc s.pprev p s.tip
  pprev : s.pprev p = some q
  parent : Good s q
  sound : ∀ b, s.setBlockIndexCandidates b = true →
    b < s.size ∧ s.Linked b ∧ s.worse b s.tip = false

/-- What is left to be completed by `addCandidates`. -/
structure Backed (s : BlockTree) : Prop where
  core : Core s
  tip : Good s s.tip
  sound : ∀ b, s.setBlockIndexCandidates b = true →
    b < s.size ∧ s.Linked b ∧ s.worse b s.tip = false

lemma Backed.addCandidates (h : Backed s) : Inv s.addCandidates := by
  have hre : Reflags s s.addCandidates :=
    ⟨⟨rfl, rfl, rfl, fun _ => ⟨rfl, rfl, rfl, rfl⟩⟩, fun _ => rfl⟩
  refine ⟨hre.core h.core h.core.flagged, hre.good h.tip h.tip.unfailed, ?_, ?_⟩
  · intro b hb
    simp only [BlockTree.addCandidates, Bool.or_eq_true, Bool.and_eq_true, decide_eq_true_eq,
      Bool.not_eq_true'] at hb
    rcases hb with hb | ⟨⟨⟨hlt, -⟩, hl⟩, hw⟩
    · exact h.sound b hb
    · exact ⟨hlt, hl, hw⟩
  · intro b hb hl hf hw
    have hlt : b < s.size := hb
    have hv : (s.status b).isValid BLOCK_VALID_TRANSACTIONS = true := by
      have hf : (s.status b).failed = false := hf
      simp [BlockStatus.isValid, hf, h.core.validity hlt hl]
    simp only [BlockTree.addCandidates, Bool.or_eq_true, Bool.and_eq_true, decide_eq_true_eq,
      Bool.not_eq_true']
    exact .inr ⟨⟨⟨hlt, hv⟩, hl⟩, hw⟩

lemma invalidateLoop_off {n : ℕ} (h : s.contains p = false) :
    invalidateLoop env p n s = (s, true) := by
  cases n <;> simp [invalidateLoop, h]

def leaveTip (s : BlockTree) (c : ℕ) : BlockTree :=
  { (s.markFailedChild s.tip).eraseCandidate s.tip with tip := c }

lemma leaveTip_of_ne (h : b ≠ s.tip) : (s.leaveTip c).status b = s.status b := by
  have : (s.leaveTip c).status = (s.markFailedChild s.tip).status := rfl
  rw [this, markFailedChild, setStatus_of_ne _ h]

lemma leaveTip_failedValid (b : ℕ) :
    ((s.leaveTip c).status b).failedValid = (s.status b).failedValid := by
  by_cases hb : b = s.tip
  · have : (s.leaveTip c).status = (s.markFailedChild s.tip).status := rfl
    rw [hb, this, markFailedChild, setStatus_self]
  · rw [leaveTip_of_ne hb]

lemma reflags_leaveTip (s : BlockTree) (c : ℕ) : Reflags s (s.leaveTip c) :=
  ((Reflags.setFlags s s.tip (·.failedValid) fun _ => true).trans (.eraseCandidate _ s.tip)).trans
    ⟨⟨rfl, rfl, rfl, fun _ => ⟨rfl, rfl, rfl, rfl⟩⟩, fun _ => rfl⟩

lemma Good.leaveTip (h : Good s b) (hb : ¬ Anc s.pprev s.tip b) : Good (s.leaveTip c) b := by
  refine (s.reflags_leaveTip c).good h fun a ha => ?_
  rw [leaveTip_of_ne fun hat => hb (hat ▸ ha)]
  exact h.unfailed a ha

lemma Backing.core_leaveTip (h : Backing p q s) : Core (s.leaveTip c) := by
  have hre := s.reflags_leaveTip c
  refine hre.core h.core (h.core.flagged.mark hre.size hre.node
    (fun a ha => (leaveTip_failedValid a).trans ha) fun b _ hf => ?_)
  by_cases hbt : b = s.tip
  · exact .inr ⟨p, hbt ▸ h.on, (leaveTip_failedValid p).trans h.marked⟩
  · rw [leaveTip_of_ne hbt] at hf
    exact .inl hf

lemma Backing.sound_leaveTip (h : Backing p q s) (hc : s.pprev s.tip = some c)
    (hb : (s.leaveTip c).setBlockIndexCandidates b = true) :
    b < (s.leaveTip c).size ∧ (s.leaveTip c).Linked b ∧ (s.leaveTip c).worse b c = false := by
  have hre := s.reflags_leaveTip c
  have hb : Function.update s.setBlockIndexCandidates s.tip false b = true := hb
  by_cases hbt : b = s.tip
  · simp [hbt] at hb
  · rw [Function.update_of_ne hbt] at hb
    obtain ⟨hlt, hl, hw⟩ := h.sound b hb
    refine ⟨hre.size ▸ hlt, (hre.linked b).mpr hl, ?_⟩
    rw [hre.worse]
    exact worse_false_trans hw (h.core.shape.worse_false_of_anc h.lt (.of_parent hc))

lemma Backing.invalidateLoop {n : ℕ} (h : Backing p q s)
    (hdis : ∀ b, Anc s.pprev p b → Anc s.pprev b s.tip → env.disconnects b = true)
    (hn : s.nHeight s.tip < n) :
    ∃ s', invalidateLoop env p n s = (s', true) ∧ Backed s' := by
  induction n generalizing s with
  | zero => omega
  | succ n ih =>
    have hshape := h.core.shape
    have hp0 : p ≠ 0 := by
      rintro rfl
      have := h.pprev
      simp [hshape.root] at this
    have ht0 : s.tip ≠ 0 := by
      intro ht
      have hle := hshape.graded.mem h.lt h.on
      have := h.on
      rw [ht] at this
      exact hp0 (hshape.graded.antisymm hshape.pos this (hshape.anc_zero hle))
    obtain ⟨c, hlt, hc, hheight, -⟩ := hshape.parent s.tip h.lt ht0
    have hcon : s.contains p = true := (hshape.contains_iff h.lt).mpr h.on
    have hpass : BlockTree.invalidateLoop env p (n + 1) s =
        BlockTree.invalidateLoop env p n (s.leaveTip c) := by
      have hd := hdis s.tip h.on (.refl _)
      have hc' : ((s.markFailedChild s.tip).eraseCandidate s.tip).pprev s.tip = some c := hc
      have htip : ((s.markFailedChild s.tip).eraseCandidate s.tip).tip = s.tip := rfl
      rw [BlockTree.invalidateLoop, hcon]
      simp only [Bool.not_true, Bool.false_eq_true, if_false, disconnectTip, htip, hd, if_true,
        hc', Option.map_some]
      rfl
    rw [hpass]
    -- the parent of `p` is not below the tip, which descends from `p`
    have hqt : ¬ Anc s.pprev s.tip q := by
      intro hqt
      have hle := hshape.graded.height_le h.parent.lt (h.on.trans hqt)
      have := hshape.graded.height (hshape.graded.mem h.lt h.on) h.pprev
      omega
    have hcore : Core (s.leaveTip c) := h.core_leaveTip
    rcases h.on.cases_parent with htip | ⟨c', hc', hon⟩
    · have hqc : c = q := by
        have := h.pprev
        rw [htip, hc] at this
        exact Option.some.inj this
      subst hqc
      refine ⟨_, invalidateLoop_off ?_, hcore, h.parent.leaveTip hqt,
        fun b hb => h.sound_leaveTip hc hb⟩
      rw [← Bool.not_eq_true, hcore.shape.contains_iff h.parent.lt]
      exact fun hpq => hqt (htip ▸ hpq)
    · obtain rfl := Option.some.inj (hc.symm.trans hc')
      refine ih ?_ ?_ ?_
      · exact ⟨hcore, (leaveTip_failedValid p).trans h.marked, hlt.trans h.lt, hon, h.pprev,
          h.parent.leaveTip hqt, fun b hb => h.sound_leaveTip hc hb⟩
      · intro b hpb hbt
        exact hdis b hpb (hbt.trans (.of_parent hc))
      · change s.nHeight c < n
        omega

/-- **Invalidating.** `InvalidateBlock` keeps the invariant, for a block other than the genesis
block, when the blocks from it to the tip can be disconnected. -/
lemma Inv.invalidateBlock (h : Inv s) (hp : p < s.size) (hp0 : p ≠ 0)
    (hdis : ∀ b, Anc s.pprev p b → Anc s.pprev b s.tip → env.disconnects b = true) :
    Inv (s.invalidateBlock env p).1 := by
  obtain ⟨q, hq, hpq, hheight, -⟩ := h.core.shape.parent p hp hp0
  have hre := s.reflags_invalidBlockFound false p
  have hend : ∀ {t}, invalidateLoop env p (s.nHeight s.tip + 1) (s.invalidBlockFound false p) =
      (t, true) → Backed t → Inv (s.invalidateBlock env p).1 := by
    intro t heq ht
    have hdef : s.invalidateBlock env p = (t.addCandidates, true) := by
      rw [invalidBlockFound_false] at heq
      unfold BlockTree.invalidateBlock
      dsimp only
      have hheight : ((s.setStatus p fun st =>
          { st with failedValid := true }).eraseCandidate p).nHeight = s.nHeight := rfl
      have htip : ((s.setStatus p fun st =>
          { st with failedValid := true }).eraseCandidate p).tip = s.tip := rfl
      rw [hheight, htip, heq]
    rw [hdef]
    exact ht.addCandidates
  by_cases hon : Anc s.pprev p s.tip
  · have hback : Backing p q (s.invalidBlockFound false p) := by
      refine ⟨h.core.invalidBlockFound p, invalidBlockFound_self, h.tip.lt, hon, hpq,
        (h.core.good_anc h.tip ((Anc.of_parent hpq).trans hon)).invalidBlockFound ?_,
        h.candidates.invalidBlockFound.sound⟩
      intro hpq'
      have := h.core.shape.graded.height_le (hq.trans hp) hpq'
      omega
    obtain ⟨t, heq, ht⟩ := hback.invalidateLoop (n := s.nHeight s.tip + 1) hdis (Nat.lt_succ_self _)
    exact hend heq ht
  · have hinv := h.loopInv.invalidBlockFound false (fun _ => hon) hon
    refine hend (invalidateLoop_off ?_) ⟨hinv.core, hinv.tip, hinv.candidates.sound⟩
    rw [← Bool.not_eq_true, hinv.core.shape.contains_iff hinv.tip.lt]
    exact hon

/-! ### Reconsidering a block -/

lemma reflags_reconsiderBlock (s : BlockTree) (p : ℕ) : Reflags s (s.reconsiderBlock p) := by
  refine ⟨⟨rfl, rfl, rfl, fun b => ?_⟩, fun b => ?_⟩
  · simp only [reconsiderBlock]
    split_ifs <;> exact ⟨rfl, rfl, rfl, rfl⟩
  · simp only [reconsiderBlock]
    split_ifs <;> rfl

lemma reconsiderBlock_status (s : BlockTree) (p b : ℕ) :
    (s.reconsiderBlock p).status b = s.status b ∨
      ((s.reconsiderBlock p).status b).failed = false := by
  simp only [reconsiderBlock]
  split_ifs
  · exact .inr rfl
  · exact .inl rfl

section Reconsider

variable (h : Core s) (hp : p < s.size)
include h hp

omit hp in
lemma Core.reconsiderBlock_below (hb : b < s.size) (hanc : Anc s.pprev p b) :
    ((s.reconsiderBlock p).status b).failed = false := by
  have ha := (h.shape.isAncestor_iff hb).mpr hanc
  cases hf : (s.status b).failed with
  | false =>
    rcases s.reconsiderBlock_status p b with hst | hst
    · rw [hst]
      exact hf
    · exact hst
  | true =>
    have hre : s.isReconsidered p b = true := by
      simp [isReconsidered, hb, ha, BlockStatus.isValid, hf]
    simp only [reconsiderBlock, hre, Bool.true_or, if_true]
    rfl

lemma Core.reconsiderBlock_off (hb : b < s.size) (hanc : ¬ Anc s.pprev p b)
    (hanc' : ¬ Anc s.pprev b p) : (s.reconsiderBlock p).status b = s.status b := by
  have ha := mt (h.shape.isAncestor_iff hb).mp hanc
  have ha' := mt (h.shape.isAncestor_iff hp).mp hanc'
  simp [reconsiderBlock, isReconsidered, ha, ha']

end Reconsider

/-- **Reconsidering.** `ReconsiderBlock` keeps the invariant for a block whose ancestors did not
fail. -/
lemma Inv.reconsiderBlock (h : Inv s) (hp : p < s.size)
    (hclean : ∀ a, a ≠ p → Anc s.pprev a p → (s.status a).failed = false) :
    Inv (s.reconsiderBlock p) := by
  have hre := s.reflags_reconsiderBlock p
  have hunfailed : ∀ b, (s.status b).failed = false →
      ((s.reconsiderBlock p).status b).failed = false := by
    intro b hb
    rcases s.reconsiderBlock_status p b with hst | hst
    · rw [hst]
      exact hb
    · exact hst
  refine ⟨hre.core h.core ?_, hre.good h.tip fun a ha => hunfailed a (h.tip.unfailed a ha), ?_, ?_⟩
  · intro b hb hf
    have hlt : b < s.size := hb
    have hpb : ¬ Anc s.pprev p b := by
      intro hpb
      simp [h.core.reconsiderBlock_below hlt hpb] at hf
    have hfb : (s.status b).failed = true := by
      rcases s.reconsiderBlock_status p b with hst | hst
      · rw [hst] at hf
        exact hf
      · simp [hst] at hf
    -- the block that is to blame neither descends from `p` nor is above it
    obtain ⟨a, ha, hv⟩ := h.core.flagged b hlt hfb
    have hpa : ¬ Anc s.pprev p a := fun hpa => hpb (hpa.trans ha)
    have hap : ¬ Anc s.pprev a p := by
      intro hap
      have hne : a ≠ p := fun hap => hpa (hap ▸ .refl a)
      have := hclean a hne hap
      simp [BlockStatus.failed, hv] at this
    refine ⟨a, ha, ?_⟩
    rw [h.core.reconsiderBlock_off hp (h.core.shape.graded.mem hlt ha) hpa hap]
    exact hv
  · intro b hb
    simp only [BlockTree.reconsiderBlock, Bool.or_eq_true, Bool.and_eq_true,
      decide_eq_true_eq] at hb
    rcases hb with hb | ⟨⟨⟨hb, -⟩, hl⟩, hw⟩
    · obtain ⟨hlt, hl, hw⟩ := h.candidates.sound b hb
      exact ⟨hlt, (hre.linked b).mpr hl, (hre.worse b _).trans hw⟩
    · simp only [isReconsidered, Bool.and_eq_true, decide_eq_true_eq] at hb
      exact ⟨hb.1.1, (hre.linked b).mpr hl,
        (hre.worse b _).trans (worse_false_of_worse hw)⟩
  · intro b hb hl hf hw
    have hlt : b < s.size := hb
    have hl := (hre.linked b).mp hl
    have hw : s.worse b s.tip = false := (hre.worse b _).symm.trans hw
    have hor : ∀ x, s.setBlockIndexCandidates b = true ∨ x = true →
        (s.setBlockIndexCandidates b || x) = true := fun x hx => by simpa using hx
    refine hor _ ?_
    cases hfb : (s.status b).failed with
    | false => exact .inl (h.candidates.complete b hlt hl hfb hw)
    | true =>
      -- a block that failed and does not any more descends from `p`
      have hpb : Anc s.pprev p b := by
        by_contra hpb
        by_cases hbp : Anc s.pprev b p
        · have hne : b ≠ p := fun hbp => hpb (hbp ▸ .refl b)
          simp [hclean b hne hbp] at hfb
        · rw [h.core.reconsiderBlock_off hp hlt hpb hbp] at hf
          simp [hfb] at hf
      have hbt : b ≠ s.tip := by
        rintro rfl
        simp [h.tip.unfailed _ (.refl _)] at hfb
      have hbetter : s.worse s.tip b = true := by
        by_contra hnw
        rw [Bool.not_eq_true] at hnw
        exact hbt (eq_of_worse_false hw hnw)
      have hv := h.core.validity hlt hl
      have hre : s.isReconsidered p b = true := by
        simp [isReconsidered, hlt, (h.core.shape.isAncestor_iff hlt).mpr hpb, BlockStatus.isValid,
          hfb]
      have hvalid : (s.status b).clearFailed.isValid BLOCK_VALID_TRANSACTIONS = true := by
        simp [BlockStatus.isValid, BlockStatus.clearFailed, BlockStatus.failed, hv]
      refine .inr ?_
      simp only [hre, hvalid, hbetter, Bool.and_true, Bool.true_and, decide_eq_true_eq]
      exact hl

/-! ### Runs -/

/-- The operations on the block tree. -/
inductive Op
  | acceptBlock (block : IncomingBlock) (result : AcceptResult)
  /-- A call that returns after at most that many passes. -/
  | activateBestChain (env : ChainEnv) (passes : ℕ)
  | invalidateBlock (env : ChainEnv) (pindex : ℕ)
  | reconsiderBlock (pindex : ℕ)

/-- What an operation makes of the tree. Only blocks of the index are invalidated or
reconsidered. -/
def step (s : BlockTree) : Op → BlockTree
  | .acceptBlock block result => s.acceptBlock block result
  | .activateBestChain env passes =>
    ((BlockTree.activateBestChain env passes s).map (·.1)).getD s
  | .invalidateBlock env pindex =>
    if pindex < s.size then (s.invalidateBlock env pindex).1 else s
  | .reconsiderBlock pindex => if pindex < s.size then s.reconsiderBlock pindex else s

/-- The operation does not go wrong in that state. -/
def Careful (s : BlockTree) : Op → Prop
  | .acceptBlock _ _ => True
  | .activateBestChain env _ => s.Steady env
  | .invalidateBlock env pindex => pindex ≠ 0 ∧ ∀ b < s.size,
    s.isAncestor pindex b = true → s.contains b = true → env.disconnects b = true
  | .reconsiderBlock pindex => ∀ a < s.size, a ≠ pindex → s.isAncestor a pindex = true →
    (s.status a).failed = false

lemma Inv.step {op : Op} (h : Inv s) (hop : s.Careful op) : Inv (s.step op) := by
  have hshape := h.core.shape
  cases op with
  | acceptBlock block result => exact h.acceptBlock block result
  | activateBestChain env passes =>
    rw [BlockTree.step]
    cases heq : BlockTree.activateBestChain env passes s with
    | none => exact h
    | some res => exact h.activateBestChain hop heq
  | invalidateBlock env p =>
    rw [BlockTree.step]
    split_ifs with hp
    · refine h.invalidateBlock hp hop.1 fun b hpb hbt => ?_
      have hb := hshape.graded.mem h.tip.lt hbt
      exact hop.2 b hb ((hshape.isAncestor_iff hb).mpr hpb)
        ((hshape.contains_iff h.tip.lt).mpr hbt)
    · exact h
  | reconsiderBlock p =>
    rw [BlockTree.step]
    split_ifs with hp
    · refine h.reconsiderBlock hp fun a hne hap => ?_
      exact hop a (hshape.graded.mem hp hap) hne ((hshape.isAncestor_iff hp).mpr hap)
    · exact h

/-- **The block tree is consistent.** In every state that careful operations lead to, all asserts
of `CheckBlockIndex` hold. -/
theorem checkBlockIndex_of_run {w : ℕ} {l : List Op}
    (h : Run step Careful (genesis w) l s) : s.checkBlockIndex = true :=
  (h.invariant (inv_genesis w) fun _ _ hinv hop => hinv.step hop).checkBlockIndex

end Agenor.BlockTree

namespace Agenor.Concrete

open BlockTree

/-- Every block can be connected and disconnected. -/
def fineChain : ChainEnv := ⟨fun _ => .connected, fun _ => true⟩

/-- A block on the genesis block and two on that one; the first is invalidated. -/
def forkInvalidated : List Op :=
  [.acceptBlock (.unknown 0 1) (.accepted 1), .acceptBlock (.unknown 1 1) (.accepted 1),
    .acceptBlock (.unknown 1 1) (.accepted 1), .activateBestChain fineChain 5,
    .invalidateBlock fineChain 1, .activateBestChain fineChain 5]

lemma steady_fineChain (s : BlockTree) : s.Steady fineChain where
  again := fun _ _ _ h => by cases h
  stops := by
    rintro t c (h | ⟨b, raised, -, -, h⟩) <;> cases h

end Agenor.Concrete

namespace Agenor.BlockTree

open Lib Concrete

/-- The fork comes back when the block it is on is reconsidered. -/
theorem check_after_the_fork_is_back :
    ∃ s, Run step Careful (genesis 1) (forkInvalidated ++ [Op.reconsiderBlock 1]) s ∧
      s.checkBlockIndex = true := by
  have hallowed : Run.Allowed step Careful (genesis 1)
      (forkInvalidated ++ [Op.reconsiderBlock 1]) := by
    refine ⟨trivial, trivial, trivial, steady_fineChain _, ⟨by decide, fun _ _ _ _ => rfl⟩,
      steady_fineChain _, ?_, trivial⟩
    change ∀ a < _, _
    decide
  have hrun := Run.nil.append_allowed hallowed
  exact ⟨_, hrun, checkBlockIndex_of_run hrun⟩

/-- When one block of the fork is reconsidered instead, the other one stays marked. -/
theorem one_side_of_the_fork :
    ¬ ∀ (w : ℕ) (l : List Op) (s : BlockTree), Run step (fun _ _ => True) (genesis w) l s →
      s.checkBlockIndex = true := by
  intro h
  have hrun : Run step (fun _ _ => True) (genesis 1) (forkInvalidated ++ [Op.reconsiderBlock 2])
      ((forkInvalidated ++ [Op.reconsiderBlock 2]).foldl step (genesis 1)) :=
    Run.nil.append fun _ _ _ => trivial
  exact absurd (h _ _ _ hrun) (by decide)

end Agenor.BlockTree
