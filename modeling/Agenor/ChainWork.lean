import Agenor.Pow

/-!
The work of a chain (`pow.cpp`, `main.cpp`).

The work of a block is what it adds to the work of its parent, in 256 bits. As long as the sum
fits, a block has more work than each of its ancestors, and the order of the candidates for the tip
puts it behind them.
-/

namespace Agenor

open Lib.Ancestry CompactTarget

/-- The work of a block, in integers. -/
def blockWork (nBits : BitVec 32) : ℕ :=
  2 ^ 256 / ((Uint256.setCompact nBits).value.value + 1)

/-! ### The work of a block -/

lemma Encodes.lt {nBits : BitVec 32} {t : ℕ} (h : Encodes nBits t) : t + 1 < 2 ^ 256 := by
  have hvalue : t = decode nBits := h.value.symm.trans (setCompact_exact h.pfOverflow)
  have hlt : t < 2 ^ 256 := h.value ▸ BaseUint.value_lt _
  have hword := shiftedWord_lt nBits
  rw [decode_eq] at hvalue
  split_ifs at hvalue with hsize
  · omega
  · -- the number is even
    have hpow : 8 * (nSize nBits - 3) = 8 * (nSize nBits - 3) - 1 + 1 := by omega
    rw [hpow, pow_succ, ← Nat.mul_assoc] at hvalue
    omega

lemma getBlockProof_eq {nBits : BitVec 32} {t : ℕ} (h : Encodes nBits t) (ht : t ≠ 0) :
    ∃ proof, getBlockProof nBits = some proof ∧ proof.value = 2 ^ 256 / (t + 1) := by
  have hlt := h.lt
  have hone : (BaseUint.ofUint64 8 1).value = 1 := by decide
  have hnull : (Uint256.setCompact nBits).value.isNull = false := by
    rw [Bool.eq_false_iff, Ne, BaseUint.isNull_iff, h.value]
    exact ht
  have hsucc : ((Uint256.setCompact nBits).value.add (BaseUint.ofUint64 8 1)).value = t + 1 := by
    rw [BaseUint.value_add, hone, h.value, Nat.mod_eq_of_lt hlt]
  have hcompl : (Uint256.setCompact nBits).value.compl.value = 2 ^ 256 - 1 - t := by
    rw [BaseUint.value_compl, h.value]
  obtain ⟨q, hq, hvalue⟩ := (BaseUint.div_eq (Uint256.setCompact nBits).value.compl
    ((Uint256.setCompact nBits).value.add (BaseUint.ofUint64 8 1))).2 (by omega)
  rw [hcompl, hsucc] at hvalue
  -- the complement is short of the power by the divisor
  have hquot : 2 ^ 256 / (t + 1) = (2 ^ 256 - 1 - t) / (t + 1) + 1 := by
    rw [← Nat.add_div_right _ (Nat.succ_pos t)]
    congr 1
    omega
  have hhalf : 2 ^ 256 / (t + 1) ≤ 2 ^ 256 / 2 := Nat.div_le_div_left (by omega) (by decide)
  unfold getBlockProof
  dsimp only
  rw [h.pfNegative, h.pfOverflow, hnull, if_neg (by decide), hq]
  refine ⟨_, rfl, ?_⟩
  rw [BaseUint.value_add, hvalue, hone, ← hquot, Nat.mod_eq_of_lt (by omega)]

lemma one_le_work {t : ℕ} (h : t + 1 < 2 ^ 256) : 1 ≤ 2 ^ 256 / (t + 1) :=
  Nat.div_pos h.le (Nat.succ_pos t)

/-- A block that can be mined: the target is positive and fits. -/
def HasTarget (nBits : BitVec 32) : Prop := ∃ t, Encodes nBits t ∧ t ≠ 0

lemma HasTarget.proof {nBits : BitVec 32} (h : HasTarget nBits) :
    ∃ proof, getBlockProof nBits = some proof ∧ proof.value = blockWork nBits ∧
      1 ≤ blockWork nBits := by
  obtain ⟨t, ht, h0⟩ := h
  obtain ⟨proof, hproof, hvalue⟩ := getBlockProof_eq ht h0
  have hwork : blockWork nBits = 2 ^ 256 / (t + 1) := by rw [blockWork, ht.value]
  exact ⟨proof, hproof, hvalue.trans hwork.symm, hwork ▸ one_le_work ht.lt⟩

/-! ### The index -/

namespace HeaderMap

variable {α : Type*} [DecidableEq α] (s : HeaderMap α)

/-- `AddToBlockIndex`, for a block that is not there yet; `none` when it throws. -/
def addToBlockIndex (pindexNew : α) (miPrev : Option α) (nTime nBits : BitVec 32) :
    Option (HeaderMap α) :=
  (s.toBlockMap.addToBlockIndex pindexNew miPrev).bind fun t =>
  (getBlockProof nBits).map fun proof =>
    { t with
      nTime := Function.update s.nTime pindexNew nTime
      nBits := Function.update s.nBits pindexNew nBits
      nChainWork := Function.update s.nChainWork pindexNew
        (((miPrev.map s.nChainWork).getD (BaseUint.zero 8)).add proof) }

/-- The headers that are added one after the other, each after its parent and with a pointer of its
own. -/
inductive Built : HeaderMap α → Prop
  | empty (s : HeaderMap α) (h : s.mapBlockIndex = []) : Built s
  | add {s s' : HeaderMap α} {b : α} {miPrev : Option α} {nTime nBits : BitVec 32} (h : Built s)
      (hb : b ∉ s.mapBlockIndex) (hprev : ∀ p, miPrev = some p → p ∈ s.mapBlockIndex)
      (hs : s.addToBlockIndex b miPrev nTime nBits = some s') : Built s'

/-- `CBlockIndexWorkComparator`. -/
def workComparator [LT α] [DecidableLT α] (nSequenceId : α → ℤ) (pa pb : α) : Bool :=
  if 0 < (s.nChainWork pa).compareTo (s.nChainWork pb) then false
  else if (s.nChainWork pa).compareTo (s.nChainWork pb) < 0 then true
  else if nSequenceId pa < nSequenceId pb then false
  else if nSequenceId pb < nSequenceId pa then true
  else if pa < pb then false
  else if pb < pa then true
  else false

/-- The work of all blocks from the root to a block, in integers. -/
def totalWork (b : α) : ℕ :=
  ((line s.pprev (s.nHeight b + 1) b).map fun a => blockWork (s.nBits a)).sum

/-! ### The work along a chain -/

variable {s} {a b c : α}

/-- The work of every entry is that of its parent and its own. -/
structure Worked (s : HeaderMap α) : Prop where
  work : ∀ b ∈ s.mapBlockIndex, ∃ proof, getBlockProof (s.nBits b) = some proof ∧
    s.nChainWork b = (((s.pprev b).map s.nChainWork).getD (BaseUint.zero 8)).add proof

lemma addToBlockIndex_eq_some {s s' : HeaderMap α} {b : α} {miPrev : Option α}
    {nTime nBits : BitVec 32} (h : s.addToBlockIndex b miPrev nTime nBits = some s') :
    s.toBlockMap.addToBlockIndex b miPrev = some s'.toBlockMap ∧
    ∃ proof, getBlockProof nBits = some proof ∧
      s'.nBits = Function.update s.nBits b nBits ∧
      s'.nChainWork = Function.update s.nChainWork b
        (((miPrev.map s.nChainWork).getD (BaseUint.zero 8)).add proof) := by
  unfold addToBlockIndex at h
  obtain ⟨t, ht, h⟩ := Option.bind_eq_some_iff.mp h
  obtain ⟨proof, hproof, rfl⟩ := Option.map_eq_some_iff.mp h
  exact ⟨ht, proof, hproof, rfl, rfl⟩

lemma Built.toBlockMap (h : s.Built) : s.toBlockMap.Built := by
  induction h with
  | empty s h =>
    obtain ⟨⟨mapBlockIndex, node⟩, nTime, nBits, nChainWork⟩ := s
    obtain rfl : mapBlockIndex = [] := h
    exact .empty node
  | add _ hb hprev hs ih => exact .add ih hb hprev (addToBlockIndex_eq_some hs).1

lemma Worked.add {s s' : HeaderMap α} {b : α} {miPrev : Option α} {nTime nBits : BitVec 32}
    (hw : Worked s) (hbuilt : s.Built) (hb : b ∉ s.mapBlockIndex)
    (hprev : ∀ p, miPrev = some p → p ∈ s.mapBlockIndex)
    (hs : s.addToBlockIndex b miPrev nTime nBits = some s') : Worked s' := by
  obtain ⟨hadd, proof, hproof, hbits, hwork⟩ := addToBlockIndex_eq_some hs
  obtain ⟨hself, hother, hmap⟩ := BlockMap.addToBlockIndex_fields hadd
  have hclosed := hbuilt.toBlockMap.skipped.graded
  -- the work of what was there before is not touched
  have hmapped : ∀ parent : Option α, (∀ p, parent = some p → p ∈ s.mapBlockIndex) →
      parent.map s'.nChainWork = parent.map s.nChainWork := by
    intro parent hparent
    cases parent with
    | none => rfl
    | some p =>
      have hne : p ≠ b := fun heq => hb (heq ▸ hparent p rfl)
      rw [Option.map_some, Option.map_some, hwork, Function.update_of_ne hne]
  refine ⟨fun c hc => ?_⟩
  rw [hmap, List.mem_append, List.mem_singleton] at hc
  rcases hc with hc | rfl
  · have hne : c ≠ b := fun heq => hb (heq ▸ hc)
    obtain ⟨q, hq, hvalue⟩ := hw.work c hc
    refine ⟨q, ?_, ?_⟩
    · rw [hbits, Function.update_of_ne hne, hq]
    · rw [(hother c hne).1, hmapped _ fun p hp => hclosed.closed hc hp, ← hvalue, hwork,
        Function.update_of_ne hne]
  · refine ⟨proof, ?_, ?_⟩
    · rw [hbits, Function.update_self, hproof]
    · rw [hself, hmapped _ hprev, hwork, Function.update_self]

lemma Built.worked (h : s.Built) : Worked s := by
  induction h with
  | empty s h => exact ⟨fun b hb => absurd hb (by simp [h])⟩
  | add h hb hprev hs ih => exact ih.add h hb hprev hs

omit [DecidableEq α] in
lemma totalWork_root (h : s.pprev b = none) : s.totalWork b = blockWork (s.nBits b) := by
  rw [totalWork, line, h]
  simp

omit [DecidableEq α] in
lemma totalWork_succ {S : α → Prop} (hs : BlockMap.Skipped s.toBlockMap S) {p : α} (hb : S b)
    (h : s.pprev b = some p) : s.totalWork b = s.totalWork p + blockWork (s.nBits b) := by
  rw [totalWork, line, h, hs.graded.height hb h, Option.map_some, Option.getD_some,
    List.map_append, List.sum_append, ← totalWork]
  simp

omit [DecidableEq α] in
lemma totalWork_le {S : α → Prop} (hs : BlockMap.Skipped s.toBlockMap S) (hb : S b)
    (h : Anc s.pprev a b) : s.totalWork a ≤ s.totalWork b := by
  induction h with
  | refl => exact Nat.le_refl _
  | step hp _ ih =>
    rw [totalWork_succ hs hb hp]
    exact (ih (hs.graded.closed hb hp)).trans (Nat.le_add_right _ _)

lemma value_nChainWork (h : s.Built) (hb : b ∈ s.mapBlockIndex)
    (htarget : ∀ a, Anc s.pprev a b → HasTarget (s.nBits a)) (hfits : s.totalWork b < 2 ^ 256) :
    (s.nChainWork b).value = s.totalWork b := by
  have hskip := h.toBlockMap.skipped
  induction hheight : s.nHeight b generalizing b with
  | zero =>
    have hroot : s.pprev b = none := by
      by_contra hp
      obtain ⟨p, hp⟩ := Option.ne_none_iff_exists'.mp hp
      have := hskip.graded.height hb hp
      omega
    obtain ⟨proof, hproof, hwork⟩ := h.worked.work b hb
    obtain ⟨proof', hproof', hvalue, -⟩ := (htarget b (.refl b)).proof
    obtain rfl := Option.some.inj (hproof.symm.trans hproof')
    rw [totalWork_root hroot] at hfits ⊢
    rw [hwork, hroot, Option.map_none, Option.getD_none, BaseUint.value_add, BaseUint.value_zero,
      Nat.zero_add, hvalue, Nat.mod_eq_of_lt hfits]
  | succ n ih =>
    obtain ⟨p, hp⟩ : ∃ p, s.pprev b = some p := by
      refine Option.ne_none_iff_exists'.mp fun hnone => ?_
      have := hskip.root b hb hnone
      omega
    have hpmem := hskip.graded.closed hb hp
    have hpheight := hskip.graded.height hb hp
    have htotal := totalWork_succ hskip hb hp
    obtain ⟨proof, hproof, hwork⟩ := h.worked.work b hb
    obtain ⟨proof', hproof', hvalue, -⟩ := (htarget b (.refl b)).proof
    obtain rfl := Option.some.inj (hproof.symm.trans hproof')
    have hparent := ih hpmem (fun a ha => htarget a (.step hp ha)) (by omega) (by omega)
    rw [hwork, hp, Option.map_some, Option.getD_some, BaseUint.value_add, hparent, hvalue, htotal,
      Nat.mod_eq_of_lt (htotal ▸ hfits)]

/-- **Work.** The work of a block is the exact quotient and at least one, and no less for a lower
target. Along a chain whose total work fits it strictly increases, and the comparator orders the
chain by it. -/
theorem work_exact [LT α] [DecidableLT α] :
    (∀ nBits t, Encodes nBits t → t ≠ 0 → ∃ proof, getBlockProof nBits = some proof ∧
      proof.value = 2 ^ 256 / (t + 1) ∧ 1 ≤ proof.value) ∧
    (∀ nBits nBits' t t' proof proof', Encodes nBits t → Encodes nBits' t' → t ≠ 0 → t ≤ t' →
      getBlockProof nBits = some proof → getBlockProof nBits' = some proof' →
      proof'.value ≤ proof.value) ∧
    ∀ s : HeaderMap α, s.Built → ∀ b ∈ s.mapBlockIndex,
      (∀ a, Anc s.pprev a b → HasTarget (s.nBits a)) → s.totalWork b < 2 ^ 256 →
      ∀ a c, Anc s.pprev a c → Anc s.pprev c b → a ≠ c →
        (s.nChainWork a).compareTo (s.nChainWork c) < 0 ∧
        ∀ nSequenceId, s.workComparator nSequenceId a c = true ∧
          s.workComparator nSequenceId c a = false := by
  refine ⟨fun nBits t h ht => ?_, fun nBits nBits' t t' proof proof' h h' ht hle hp hp' => ?_,
    fun s h b hb htarget hfits a c hac hcb hne => ?_⟩
  · obtain ⟨proof, hproof, hvalue⟩ := getBlockProof_eq h ht
    exact ⟨proof, hproof, hvalue, hvalue ▸ one_le_work h.lt⟩
  · obtain ⟨q, hq, hvalue⟩ := getBlockProof_eq h ht
    obtain ⟨q', hq', hvalue'⟩ := getBlockProof_eq h' (by omega)
    obtain rfl := Option.some.inj (hp.symm.trans hq)
    obtain rfl := Option.some.inj (hp'.symm.trans hq')
    rw [hvalue, hvalue']
    exact Nat.div_le_div_left (by omega) (Nat.succ_pos t)
  · have hskip := h.toBlockMap.skipped
    have hc := hskip.graded.mem hb hcb
    have ha := hskip.graded.mem hc hac
    have hlec := totalWork_le hskip hb hcb
    obtain ⟨p, hp, hap⟩ := hac.cases_parent.resolve_left hne
    have hlep := totalWork_le hskip (hskip.graded.closed hc hp) hap
    have hsucc := totalWork_succ hskip hc hp
    obtain ⟨-, -, -, hone⟩ := (htarget c hcb).proof
    have hva := value_nChainWork h ha (fun d hd => htarget d ((hd.trans hac).trans hcb))
      (by omega)
    have hvc := value_nChainWork h hc (fun d hd => htarget d (hd.trans hcb)) (by omega)
    have hlt : (s.nChainWork a).compareTo (s.nChainWork c) < 0 :=
      BaseUint.compareTo_neg_iff.mpr (by omega)
    have hgt : 0 < (s.nChainWork c).compareTo (s.nChainWork a) :=
      BaseUint.compareTo_pos_iff.mpr (by omega)
    refine ⟨hlt, fun nSequenceId => ⟨?_, ?_⟩⟩
    · rw [workComparator, if_neg (by omega), if_pos hlt]
    · rw [workComparator, if_pos hgt]

end HeaderMap

end Agenor
