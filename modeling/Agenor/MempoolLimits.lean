import Agenor.Lib.Run
import Agenor.MempoolRuns
import Agenor.MempoolSpends

/-!
The limits of `CalculateMemPoolAncestors`.

They are checked on the way: the number of ancestors when parents are found, their size and the
descendants of an ancestor when it is seen. All these numbers only grow, so that the search returns
exactly when they are within the limits at its end, in whatever order it meets the ancestors.
-/

namespace Agenor

open Lib

/-- A number is within a limit, which there may be none. -/
def Within (n : ℤ) (limit : Option ℕ) : Prop := ∀ l ∈ limit, n ≤ l

lemma exceeds_eq_false {n : ℤ} {limit : Option ℕ} : exceeds n limit = false ↔ Within n limit := by
  cases limit with
  | none => simp [Within]
  | some l => simp [exceeds, Within]

lemma not_exceeds {n : ℤ} {limit : Option ℕ} : ¬ exceeds n limit = true ↔ Within n limit := by
  rw [Bool.not_eq_true, exceeds_eq_false]

lemma Within.mono {n n' : ℤ} {limit : Option ℕ} (h : Within n' limit) (hle : n ≤ n') :
    Within n limit := fun l hl => hle.trans (h l hl)

namespace CTxMemPool

variable {m m' : CTxMemPool} {limits : AncestorLimits} {nTxSize fuel : ℕ}
  {stage seen s A : SetEntries} {total base : ℤ}

/-! ### The steps of the search -/

lemma stageParents_eq_ok_iff {limit : Option ℕ} {l : List Uint256} :
    stageParents limit seen stage l = .ok s ↔
      s = stage ∪ l.toFinset \ seen ∧ (l = [] ∨ Within (s.card + seen.card + 1) limit) := by
  constructor
  · intro h
    refine ⟨stageParents_eq_ok h, ?_⟩
    induction l generalizing stage with
    | nil => exact .inl rfl
    | cons p l ih =>
      right
      rw [stageParents] at h
      generalize (if p ∈ seen then stage else insert p stage) = stage' at h
      split_ifs at h with hex
      rw [not_exceeds] at hex
      rcases ih h with rfl | hwithin
      · cases h
        exact hex
      · exact hwithin
  · rintro ⟨rfl, hl⟩
    induction l generalizing stage with
    | nil => simp [stageParents]
    | cons p l ih =>
      have hwithin := hl.resolve_left (List.cons_ne_nil p l)
      have hsplit : stage ∪ (p :: l).toFinset \ seen =
          (if p ∈ seen then stage else insert p stage) ∪ l.toFinset \ seen := by
        ext a
        by_cases hap : a = p
        · split_ifs with hp
          · simp [hap, hp]
          · simp [hap, hp]
        · split_ifs with hp
          · simp [hap]
          · simp [hap]
      rw [hsplit] at hwithin ⊢
      have hfirst : Within ((if p ∈ seen then stage else insert p stage).card + seen.card + 1)
          limit := by
        refine hwithin.mono ?_
        have hsub : (if p ∈ seen then stage else insert p stage) ⊆
            (if p ∈ seen then stage else insert p stage) ∪ l.toFinset \ seen :=
          Finset.subset_union_left
        have := Finset.card_le_card hsub
        omega
      rw [stageParents]
      rw [if_neg (not_exceeds.mpr hfirst)]
      exact ih (.inr hwithin)

lemma searchParents_eq_ok_iff {limit : Option ℕ} {l : List CTxIn} :
    m.searchParents limit stage l = .ok s ↔
      s = stage ∪ (l.map (·.prevout.hash)).toFinset.filter (· ∈ m.mapTx) ∧
        ((l.map (·.prevout.hash)).toFinset.filter (· ∈ m.mapTx) = ∅ ∨
          Within (s.card + 1) limit) := by
  constructor
  · intro h
    refine ⟨searchParents_eq_ok h, ?_⟩
    induction l generalizing stage with
    | nil => exact .inl rfl
    | cons i l ih =>
      rw [searchParents] at h
      dsimp only at h
      split_ifs at h with hi hex
      · right
        rw [not_exceeds] at hex
        rcases ih h with hnone | hwithin
        · have heq := searchParents_eq_ok h
          rw [hnone, Finset.union_empty] at heq
          rw [heq]
          exact hex
        · exact hwithin
      · rw [has_eq_true] at hi
        rcases ih h with hnone | hwithin
        · left
          rw [List.map_cons, List.toFinset_cons, Finset.filter_insert, if_neg hi]
          exact hnone
        · exact .inr hwithin
  · rintro ⟨rfl, hl⟩
    induction l generalizing stage with
    | nil => simp [searchParents]
    | cons i l ih =>
      rw [searchParents]
      rw [List.map_cons, List.toFinset_cons, Finset.filter_insert] at hl ⊢
      by_cases hi : m.has i.prevout.hash = true
      · rw [if_pos hi]
        rw [has_eq_true] at hi
        rw [if_pos hi] at hl ⊢
        rw [Finset.union_insert, ← Finset.insert_union] at hl ⊢
        have hwithin := hl.resolve_left (Finset.insert_ne_empty _ _)
        have hfirst : Within ((insert i.prevout.hash stage).card + 1) limit := by
          refine hwithin.mono ?_
          have hsub : insert i.prevout.hash stage ⊆ insert i.prevout.hash stage ∪
              (l.map (·.prevout.hash)).toFinset.filter (· ∈ m.mapTx) := Finset.subset_union_left
          have := Finset.card_le_card hsub
          omega
        rw [if_neg (not_exceeds.mpr hfirst)]
        exact ih (.inr hwithin)
      · rw [if_neg hi]
        rw [has_eq_true] at hi
        rw [if_neg hi] at hl ⊢
        exact ih hl

lemma ancestorFits_eq_ok {stageit : CTxMemPoolEntry} {u : Unit} :
    ancestorFits limits nTxSize stageit total = .ok u ↔
      Within (stageit.nSizeWithDescendants + nTxSize) limits.limitDescendantSize ∧
        Within (stageit.nCountWithDescendants + 1) limits.limitDescendantCount ∧
        Within total limits.limitAncestorSize := by
  rw [ancestorFits, ← not_exceeds, ← not_exceeds, ← not_exceeds]
  split_ifs with h₁ h₂ h₃
  · simp [h₁]
  · simp [h₂]
  · simp [h₃]
  · simp [h₁, h₂, h₃]

lemma ancestorsLoop_succ {a : Uint256} {e : CTxMemPoolEntry}
    (hfirst : SetEntries.first stage = some a) (he : m.mapTx.lookup a = some e) :
    m.ancestorsLoop limits nTxSize (fuel + 1) stage seen total = .ok s ↔
      Within (e.nSizeWithDescendants + nTxSize) limits.limitDescendantSize ∧
        Within (e.nCountWithDescendants + 1) limits.limitDescendantCount ∧
        Within (total + m.txSize a) limits.limitAncestorSize ∧
        ∃ stage', stageParents limits.limitAncestorCount (insert a seen) (stage.erase a)
            (SetEntries.inOrder (m.getMemPoolParents a)) = .ok stage' ∧
          m.ancestorsLoop limits nTxSize fuel stage' (insert a seen) (total + m.txSize a) =
            .ok s := by
  rw [ancestorsLoop, hfirst]
  dsimp only
  rw [he]
  dsimp only
  rw [Fallible.bind_eq_ok]
  simp only [ancestorFits_eq_ok, Fallible.bind_eq_ok, exists_const]
  tauto

/-! ### The whole search -/

/-- The checks on a set of ancestors, with the numbers that they keep. -/
structure Fits (m : CTxMemPool) (limits : AncestorLimits) (nTxSize : ℕ) (A : SetEntries) :
    Prop where
  count : Within (A.card + 1) limits.limitAncestorCount
  size : Within (nTxSize + ∑ a ∈ A, m.txSize a) limits.limitAncestorSize
  descendants : ∀ a ∈ A, ∀ e, m.mapTx.lookup a = some e →
    Within (e.nSizeWithDescendants + nTxSize) limits.limitDescendantSize ∧
      Within (e.nCountWithDescendants + 1) limits.limitDescendantCount

lemma txSize_nonneg (m : CTxMemPool) (a : Uint256) : 0 ≤ m.txSize a := by
  rw [txSize]
  cases m.mapTx.lookup a with
  | none => exact le_rfl
  | some e => exact Int.natCast_nonneg _

/-- What the loop has checked on its way from the ancestors `seen` to the ancestors `s`. -/
structure Checked (m : CTxMemPool) (limits : AncestorLimits) (nTxSize : ℕ) (seen s : SetEntries) :
    Prop where
  count : Within (s.card + 1) limits.limitAncestorCount
  size : s = seen ∨ Within (nTxSize + ∑ a ∈ s, m.txSize a) limits.limitAncestorSize
  descendants : ∀ a ∈ s, a ∉ seen → ∀ e, m.mapTx.lookup a = some e →
    Within (e.nSizeWithDescendants + nTxSize) limits.limitDescendantSize ∧
      Within (e.nCountWithDescendants + 1) limits.limitDescendantCount

lemma Checked.refl (hcount : Within (stage.card + seen.card + 1) limits.limitAncestorCount) :
    Checked m limits nTxSize seen seen :=
  ⟨hcount.mono (by omega), .inl rfl, fun _ ha hn => absurd ha hn⟩

lemma checked_of_ancestorsLoop (hU : ∀ a ∈ m.mapTx.keys, m.getMemPoolParents a ⊆ m.mapTx.keys)
    (hstage : stage ⊆ m.mapTx.keys) (hdisj : Disjoint stage seen)
    (htotal : total = nTxSize + ∑ a ∈ seen, m.txSize a)
    (hcount : Within (stage.card + seen.card + 1) limits.limitAncestorCount)
    (h : m.ancestorsLoop limits nTxSize fuel stage seen total = .ok s) :
    Checked m limits nTxSize seen s := by
  induction fuel generalizing stage seen total with
  | zero =>
    cases h
    exact .refl hcount
  | succ fuel ih =>
    cases hfirst : SetEntries.first stage with
    | none =>
      rw [ancestorsLoop, hfirst] at h
      cases h
      exact .refl hcount
    | some a =>
      have ha := picks_first.some hfirst
      have hseen : a ∉ seen := Finset.disjoint_left.mp hdisj ha
      obtain ⟨e, he⟩ := Finmap.mem_iff.mp (Finmap.mem_keys.mp (hstage ha))
      obtain ⟨hsize, hdesc, hanc, stage', hs', h⟩ := (ancestorsLoop_succ hfirst he).mp h
      obtain ⟨rfl, hl⟩ := stageParents_eq_ok_iff.mp hs'
      rw [toFinset_inOrder] at h hl
      have hsum : total + m.txSize a = nTxSize + ∑ b ∈ insert a seen, m.txSize b := by
        rw [Finset.sum_insert hseen, htotal]
        omega
      have hcount' : Within ((stage.erase a ∪ m.getMemPoolParents a \ insert a seen).card +
          (insert a seen).card + 1) limits.limitAncestorCount := by
        rcases hl with hnil | hwithin
        · have hnone : m.getMemPoolParents a = ∅ := by
            rw [← toFinset_inOrder (m.getMemPoolParents a), hnil, List.toFinset_nil]
          rw [hnone, Finset.empty_sdiff, Finset.union_empty]
          have := card_stage ha hdisj
          exact hcount.mono (by omega)
        · exact hwithin
      have hstage' : stage.erase a ∪ m.getMemPoolParents a \ insert a seen ⊆ m.mapTx.keys :=
        Finset.union_subset ((Finset.erase_subset a stage).trans hstage)
          (Finset.sdiff_subset.trans (hU a (hstage ha)))
      have hrest := ih hstage' (disjoint_stage _ hdisj) hsum hcount' h
      refine ⟨hrest.count, .inr ?_, fun b hb hn e' he' => ?_⟩
      · rcases hrest.size with rfl | hz
        · rw [← hsum]
          exact hanc
        · exact hz
      · by_cases hba : b = a
        · subst hba
          obtain rfl := Option.some.inj (he.symm.trans he')
          exact ⟨hsize, hdesc⟩
        · exact hrest.descendants b hb (by simp [hba, hn]) e' he'

lemma ancestorsLoop_of_fits (hfits : Fits m limits nTxSize A) (hA : A ⊆ m.mapTx.keys)
    (hclosed : ∀ a ∈ A, m.getMemPoolParents a ⊆ A) (hstage : stage ⊆ A) (hseen : seen ⊆ A)
    (hdisj : Disjoint stage seen) (htotal : total = nTxSize + ∑ a ∈ seen, m.txSize a) :
    ∃ s, m.ancestorsLoop limits nTxSize fuel stage seen total = .ok s := by
  induction fuel generalizing stage seen total with
  | zero => exact ⟨_, rfl⟩
  | succ fuel ih =>
    cases hfirst : SetEntries.first stage with
    | none =>
      rw [ancestorsLoop, hfirst]
      exact ⟨_, rfl⟩
    | some a =>
      have ha := picks_first.some hfirst
      have hnot : a ∉ seen := Finset.disjoint_left.mp hdisj ha
      obtain ⟨e, he⟩ := Finmap.mem_iff.mp (Finmap.mem_keys.mp (hA (hstage ha)))
      have hsum : total + m.txSize a = nTxSize + ∑ b ∈ insert a seen, m.txSize b := by
        rw [Finset.sum_insert hnot, htotal]
        omega
      have hseen' : insert a seen ⊆ A := Finset.insert_subset (hstage ha) hseen
      have hstage' : stage.erase a ∪ m.getMemPoolParents a \ insert a seen ⊆ A :=
        Finset.union_subset ((Finset.erase_subset a stage).trans hstage)
          (Finset.sdiff_subset.trans (hclosed a (hstage ha)))
      have hdisj' := disjoint_stage (a := a) (m.getMemPoolParents a) hdisj
      obtain ⟨s, hs⟩ := ih hstage' hseen' hdisj' hsum
      obtain ⟨hsize, hdesc⟩ := hfits.descendants a (hstage ha) e he
      refine ⟨s, (ancestorsLoop_succ hfirst he).mpr ⟨hsize, hdesc, ?_, _,
        stageParents_eq_ok_iff.mpr ⟨rfl, .inr ?_⟩, ?_⟩⟩
      · rw [hsum]
        refine hfits.size.mono ?_
        have := Finset.sum_le_sum_of_subset_of_nonneg hseen' fun b _ _ => m.txSize_nonneg b
        omega
      · rw [toFinset_inOrder]
        refine hfits.count.mono ?_
        have := Finset.card_le_card (Finset.union_subset hstage' hseen')
        rw [Finset.card_union_of_disjoint hdisj'] at this
        omega
      · rw [toFinset_inOrder]
        exact hs

lemma checked_of_calculateMemPoolAncestors {entry : CTxMemPoolEntry}
    (hU : ∀ a, m.getMemPoolParents a ⊆ m.mapTx.keys)
    (hs : m.calculateMemPoolAncestors entry limits true = .ok s)
    (hp : (m.poolParents entry.tx).Nonempty) : Checked m limits entry.nTxSize ∅ s := by
  have hparents : ∅ ∪ (entry.tx.vin.map (·.prevout.hash)).toFinset.filter (· ∈ m.mapTx) =
      m.poolParents entry.tx := Finset.empty_union _
  unfold calculateMemPoolAncestors at hs
  simp only [if_true, Fallible.bind_eq_ok] at hs
  obtain ⟨stage, hstage, hs⟩ := hs
  obtain ⟨hst, hcount⟩ := searchParents_eq_ok_iff.mp hstage
  rw [hparents] at hst
  subst hst
  have hstart := hcount.resolve_left hp.ne_empty
  exact checked_of_ancestorsLoop (fun a _ => hU a)
    (fun p hp => Finmap.mem_keys.mpr (mem_poolParents.mp hp).1) (Finset.disjoint_empty_right _)
    (by simp) (by simpa using hstart) hs

/-! ### Exactness -/

/-- The links and the numbers of all entries are right. -/
structure Exact (m : CTxMemPool) : Prop where
  links : m.mapLinks.keys = m.mapTx.keys
  children : ∀ p c, c ∈ m.getMemPoolChildren p ↔ m.Spends p c
  parents : ∀ p c, p ∈ m.getMemPoolParents c ↔ m.Spends p c
  count : ∀ it e, m.mapTx.lookup it = some e →
    e.nCountWithDescendants = (m.withDescendants it).card
  size : ∀ it e, m.mapTx.lookup it = some e →
    e.nSizeWithDescendants = ∑ d ∈ m.withDescendants it, m.txSize d

lemma Consistent.exact {mu : MemUsage} (h : Consistent mu m)
    (hclean : ∀ it e, m.mapTx.lookup it = some e → e.isDirty = false) : Exact m where
  links := h.links
  children := h.children
  parents := h.parents
  count it e he := ((h.sums it e he).resolve_left (by simp [hclean it e he])).1
  size it e he := ((h.sums it e he).resolve_left (by simp [hclean it e he])).2.1

open Classical in
/-- The entries that a transaction depends on, directly or not. -/
noncomputable def ancestorsOf (m : CTxMemPool) (tx : CTransaction) : SetEntries :=
  m.mapTx.keys.filter fun a => ∃ p ∈ m.poolParents tx, Reach m.dependents a p

open Classical in
lemma mem_ancestorsOf {tx : CTransaction} {a : Uint256} :
    a ∈ m.ancestorsOf tx ↔ a ∈ m.mapTx ∧ ∃ p ∈ m.poolParents tx, Reach m.dependents a p := by
  rw [ancestorsOf, Finset.mem_filter, Finmap.mem_keys]

lemma poolParents_subset_ancestorsOf (tx : CTransaction) : m.poolParents tx ⊆ m.ancestorsOf tx :=
  fun p hp => mem_ancestorsOf.mpr ⟨(mem_poolParents.mp hp).1, p, hp, .refl p⟩

/-- The transaction can be added to its ancestors within the limits. -/
structure AncestorsWithin (m : CTxMemPool) (limits : AncestorLimits) (entry : CTxMemPoolEntry) :
    Prop where
  count : Within ((m.ancestorsOf entry.tx).card + 1) limits.limitAncestorCount
  size : Within (entry.nTxSize + ∑ a ∈ m.ancestorsOf entry.tx, m.txSize a) limits.limitAncestorSize
  descendantCount : ∀ a ∈ m.ancestorsOf entry.tx,
    Within ((m.withDescendants a).card + 1) limits.limitDescendantCount
  descendantSize : ∀ a ∈ m.ancestorsOf entry.tx,
    Within (∑ d ∈ m.withDescendants a, m.txSize d + entry.nTxSize) limits.limitDescendantSize

namespace Exact

variable {entry : CTxMemPoolEntry}

lemma parents_subset (h : Exact m) (a : Uint256) : m.getMemPoolParents a ⊆ m.mapTx.keys :=
  fun p hp => Finmap.mem_keys.mpr ((h.parents p a).mp hp).1

lemma parents_closed (h : Exact m) {tx : CTransaction} {a : Uint256} (ha : a ∈ m.ancestorsOf tx) :
    m.getMemPoolParents a ⊆ m.ancestorsOf tx := by
  intro p hp
  have hspends := (h.parents p a).mp hp
  obtain ⟨-, q, hq, hreach⟩ := mem_ancestorsOf.mp ha
  exact mem_ancestorsOf.mpr ⟨hspends.1, q, hq, .head (mem_dependents.mpr hspends) hreach⟩

lemma eq_ancestorsOf (h : Exact m)
    (hs : m.calculateMemPoolAncestors entry limits true = .ok s) : s = m.ancestorsOf entry.tx := by
  have hprev : ∀ x y, x ∈ m.getMemPoolParents y ↔ y ∈ m.dependents x := by
    intro x y
    rw [h.parents, mem_dependents]
  ext a
  rw [mem_calculateMemPoolAncestors (fun a => h.parents_subset a) hs, mem_ancestorsOf]
  simp only [reach_swap hprev]
  refine ⟨fun ha => ⟨?_, ha⟩, fun ha => ha.2⟩
  obtain ⟨p, hp, hreach⟩ := ha
  rcases hreach.cases_head with rfl | ⟨c, hc, -⟩
  · exact (mem_poolParents.mp hp).1
  · exact (mem_dependents.mp hc).1

lemma fits_iff (h : Exact m) :
    Fits m limits entry.nTxSize (m.ancestorsOf entry.tx) ↔ AncestorsWithin m limits entry := by
  have hlook : ∀ {a}, a ∈ m.ancestorsOf entry.tx → ∃ e, m.mapTx.lookup a = some e :=
    fun ha => Finmap.mem_iff.mp (mem_ancestorsOf.mp ha).1
  constructor
  · intro hf
    refine ⟨hf.count, hf.size, fun a ha => ?_, fun a ha => ?_⟩
    · obtain ⟨e, he⟩ := hlook ha
      rw [← h.count a e he]
      exact (hf.descendants a ha e he).2
    · obtain ⟨e, he⟩ := hlook ha
      rw [← h.size a e he]
      exact (hf.descendants a ha e he).1
  · intro hw
    refine ⟨hw.count, hw.size, fun a ha e he => ?_⟩
    rw [h.size a e he, h.count a e he]
    exact ⟨hw.descendantSize a ha, hw.descendantCount a ha⟩

lemma returns_iff (h : Exact m) (hp : (m.poolParents entry.tx).Nonempty) :
    (∃ s, m.calculateMemPoolAncestors entry limits true = .ok s) ↔
      AncestorsWithin m limits entry := by
  have hparents : ∅ ∪ (entry.tx.vin.map (·.prevout.hash)).toFinset.filter (· ∈ m.mapTx) =
      m.poolParents entry.tx := Finset.empty_union _
  rw [← h.fits_iff]
  constructor
  · rintro ⟨s, hs⟩
    have hchecked := checked_of_calculateMemPoolAncestors h.parents_subset hs hp
    obtain rfl := h.eq_ancestorsOf hs
    have hne : m.ancestorsOf entry.tx ≠ ∅ :=
      (hp.mono (poolParents_subset_ancestorsOf entry.tx)).ne_empty
    exact ⟨hchecked.count, hchecked.size.resolve_left hne, fun a ha e he =>
      hchecked.descendants a ha (Finset.notMem_empty a) e he⟩
  · intro hf
    have hstage : m.searchParents limits.limitAncestorCount ∅ entry.tx.vin =
        .ok (m.poolParents entry.tx) := by
      refine searchParents_eq_ok_iff.mpr ⟨hparents.symm, .inr (hf.count.mono ?_)⟩
      have := Finset.card_le_card (poolParents_subset_ancestorsOf (m := m) entry.tx)
      omega
    have hloop : ∃ s, m.ancestorsLoop limits entry.nTxSize m.mapTx.keys.card
        (m.poolParents entry.tx) ∅ entry.nTxSize = .ok s :=
      ancestorsLoop_of_fits hf (fun a ha => Finmap.mem_keys.mpr (mem_ancestorsOf.mp ha).1)
        (fun a ha => h.parents_closed ha) (poolParents_subset_ancestorsOf entry.tx)
        (Finset.empty_subset _) (Finset.disjoint_empty_right _) (by simp)
    obtain ⟨s, hs⟩ := hloop
    refine ⟨s, ?_⟩
    unfold calculateMemPoolAncestors
    simp only [if_true, Fallible.bind_eq_ok]
    exact ⟨_, hstage, hs⟩

end Exact

/-! ### What an addition does to the entries -/

section

variable {mu : MemUsage} {entry : CTxMemPoolEntry} {setAncestors : SetEntries}

lemma mapTx_foldl {α : Type} {f : CTxMemPool → α → CTxMemPool}
    (hf : ∀ m a, (f m a).mapTx = m.mapTx) (l : List α) (m : CTxMemPool) :
    (l.foldl f m).mapTx = m.mapTx := by
  induction l generalizing m with
  | nil => rfl
  | cons a l ih => rw [List.foldl_cons, ih, hf]

lemma mapTx_updateChild (m : CTxMemPool) (a b : Uint256) (add : Bool) :
    (m.updateChild mu a b add).mapTx = m.mapTx := by
  unfold updateChild
  dsimp only
  split_ifs <;> rfl

lemma mapTx_updateParent (m : CTxMemPool) (a b : Uint256) (add : Bool) :
    (m.updateParent mu a b add).mapTx = m.mapTx := by
  unfold updateParent
  dsimp only
  split_ifs <;> rfl

lemma updateAncestorsOf_add (m : CTxMemPool) (it : Uint256) (setAncestors : SetEntries)
    (a : Uint256) :
    (m.updateAncestorsOf mu true it setAncestors).mapTx.lookup a =
        (if a ∈ setAncestors then
          (m.mapTx.lookup a).map (·.updateState (m.txSize it) (m.fee it) 1)
        else m.mapTx.lookup a) ∧
      (m.updateAncestorsOf mu true it setAncestors).getMemPoolParents a =
        m.getMemPoolParents a := by
  have hshift := shifted_foldl (nodup_ascending hashLe setAncestors)
    (1 * m.txSize it, 1 * m.fee it, 1)
    ((SetEntries.inOrder (m.getMemPoolParents it)).foldl
      (fun m piter => m.updateChild mu piter it true) m)
  constructor
  · refine (hshift.lookup a).trans ?_
    rw [mapTx_foldl fun m b => mapTx_updateChild m b it true]
    simp only [mem_ascending, one_mul]
  · have hlinks := hshift.links
    change (m.updateAncestorsOf mu true it setAncestors).mapLinks = _ at hlinks
    rw [getMemPoolParents, linksAt, hlinks, ← linksAt, linksAt_foldl_updateChild]
    split_ifs <;> rfl

lemma addUncheckedWith_eq (mu : MemUsage) (hnew : entry.tx.hash ∉ m.mapTx)
    (setAncestors : SetEntries) : ∃ m₁ : CTxMemPool,
      (m.addUncheckedWith mu entry setAncestors).mapTx =
        (m₁.updateAncestorsOf mu true entry.tx.hash setAncestors).mapTx ∧
      (m.addUncheckedWith mu entry setAncestors).mapLinks =
        (m₁.updateAncestorsOf mu true entry.tx.hash setAncestors).mapLinks ∧
      (∀ a, m₁.mapTx.lookup a = if a = entry.tx.hash then some entry else m.mapTx.lookup a) ∧
      ∀ a, m₁.getMemPoolParents a ⊆ m.getMemPoolParents a ∪ m₁.mapTx.keys := by
  refine ⟨_, rfl, rfl, fun a => ?_, fun a => ?_⟩
  · have hhas : m.has entry.tx.hash = false := by simp [has, hnew]
    have hins : (m.insertEntry entry).mapTx = m.mapTx.insert entry.tx.hash entry := by
      rw [insertEntry, hhas]
      rfl
    rw [mapTx_foldl, apply_ite CTxMemPool.mapTx]
    · change (if _ then (m.insertEntry entry).mapTx else (m.insertEntry entry).mapTx).lookup a = _
      rw [ite_self, hins]
      exact lookup_insert_eq _ _ _ _
    · intro m' b
      split_ifs
      · exact mapTx_updateParent m' _ _ _
      · rfl
  · generalize hm₁ : (if entry.tx.hasZerocoinSpendInputs = true then m.insertEntry entry
      else (m.insertEntry entry).setNextTx entry.tx) = m₁
    have hlinks : ∀ b, m₁.linksAt b = m.linksAt b := by
      intro b
      have hmap : m₁.mapLinks = (m.insertEntry entry).mapLinks := by
        rw [← hm₁]
        split_ifs <;> rfl
      rw [linksAt, hmap, insertEntry]
      dsimp only
      split_ifs with hb
      · rfl
      · rw [lookup_insert_eq]
        split_ifs with hbh
        · rw [linksAt, hbh, Finmap.lookup_eq_none.mpr hb]
          rfl
        · rfl
    rw [getMemPoolParents, linksAt_linkParents, mapTx_foldl]
    · by_cases ha : a = entry.tx.hash
      · rw [if_pos ha, hlinks, ha]
        refine Finset.union_subset_union (Finset.Subset.refl _) fun p hp => ?_
        exact Finmap.mem_keys.mpr (Finset.mem_filter.mp hp).2
      · rw [if_neg ha, hlinks]
        exact Finset.subset_union_left
    · intro m' b
      split_ifs
      · exact mapTx_updateParent m' _ _ _
      · rfl

lemma lookup_addUncheckedWith (mu : MemUsage) (hnew : entry.tx.hash ∉ m.mapTx)
    (hold : entry.tx.hash ∉ setAncestors) (a : Uint256) :
    (m.addUncheckedWith mu entry setAncestors).mapTx.lookup a =
      if a = entry.tx.hash then some entry
      else if a ∈ setAncestors then
        (m.mapTx.lookup a).map (·.updateState entry.nTxSize entry.nFee 1)
      else m.mapTx.lookup a := by
  obtain ⟨m₁, hmap, -, hlook, -⟩ := addUncheckedWith_eq mu hnew setAncestors
  have hsize : m₁.txSize entry.tx.hash = entry.nTxSize := by
    rw [txSize, hlook, if_pos rfl]
    rfl
  have hfee : m₁.fee entry.tx.hash = entry.nFee := by
    rw [fee, hlook, if_pos rfl]
    rfl
  rw [hmap, (updateAncestorsOf_add m₁ _ setAncestors a).1, hsize, hfee, hlook]
  by_cases ha : a = entry.tx.hash
  · rw [if_pos ha, if_pos ha, if_neg (ha ▸ hold)]
  · rw [if_neg ha, if_neg ha]

lemma parents_addUncheckedWith (mu : MemUsage) (hnew : entry.tx.hash ∉ m.mapTx)
    (hU : ∀ a, m.getMemPoolParents a ⊆ m.mapTx.keys) (a : Uint256) :
    (m.addUncheckedWith mu entry setAncestors).getMemPoolParents a ⊆
      (m.addUncheckedWith mu entry setAncestors).mapTx.keys := by
  obtain ⟨m₁, hmap, hlinks, hlook, hparents⟩ := addUncheckedWith_eq mu hnew setAncestors
  have hkeys : ∀ b, b ∈ m.mapTx ∨ b ∈ m₁.mapTx →
      b ∈ (m.addUncheckedWith mu entry setAncestors).mapTx.keys := by
    intro b hb
    rw [Finmap.mem_keys, ← Finmap.lookup_isSome, hmap, (updateAncestorsOf_add m₁ _ _ b).1]
    have hb₁ : (m₁.mapTx.lookup b).isSome := by
      rcases hb with hb | hb
      · rw [hlook]
        split_ifs
        · rfl
        · exact Finmap.lookup_isSome.mpr hb
      · exact Finmap.lookup_isSome.mpr hb
    split_ifs
    · simpa using hb₁
    · exact hb₁
  intro p hp
  rw [getMemPoolParents, linksAt, hlinks, ← linksAt, ← getMemPoolParents,
    (updateAncestorsOf_add m₁ _ _ a).2] at hp
  rcases Finset.mem_union.mp (hparents a hp) with hp | hp
  · exact hkeys p (.inl (Finmap.mem_keys.mp (hU a hp)))
  · exact hkeys p (.inr (Finmap.mem_keys.mp hp))

end

/-! ### Runs of additions -/

/-- All entries are within the limits for descendants. -/
def DescendantsWithin (limits : AncestorLimits) (m : CTxMemPool) : Prop :=
  ∀ it e, m.mapTx.lookup it = some e →
    Within e.nCountWithDescendants limits.limitDescendantCount ∧
      Within e.nSizeWithDescendants limits.limitDescendantSize

/-- What `AcceptToMemoryPool` adds: a new entry with the ancestors that were found for it within the
limits. It spends from an entry; one that does not is not checked, and must be within the limits by
itself. -/
structure Accepted (mu : MemUsage) (limits : AncestorLimits) (m : CTxMemPool)
    (added : CTxMemPoolEntry × SetEntries) : Prop where
  made : added.1 =
    .new mu added.1.tx added.1.nFee added.1.nTime added.1.spendsCoinbaseOrCoinstake
  absent : added.1.tx.hash ∉ m.mapTx
  found : m.calculateMemPoolAncestors added.1 limits true = .ok added.2
  parented : (m.poolParents added.1.tx).Nonempty ∨
    Within 1 limits.limitDescendantCount ∧ Within added.1.nTxSize limits.limitDescendantSize

def addAccepted (mu : MemUsage) (m : CTxMemPool) (added : CTxMemPoolEntry × SetEntries) :
    CTxMemPool := m.addUncheckedWith mu added.1 added.2

/-- What additions keep of a pool. -/
structure Bounded (limits : AncestorLimits) (m : CTxMemPool) : Prop where
  parents : ∀ a, m.getMemPoolParents a ⊆ m.mapTx.keys
  nonneg : ∀ it e, m.mapTx.lookup it = some e →
    0 ≤ e.nCountWithDescendants ∧ 0 ≤ e.nSizeWithDescendants
  within : DescendantsWithin limits m

lemma Exact.bounded (h : Exact m) (hw : DescendantsWithin limits m) : Bounded limits m where
  parents := h.parents_subset
  nonneg it e he := by
    rw [h.count it e he, h.size it e he]
    exact ⟨Int.natCast_nonneg _, Finset.sum_nonneg fun d _ => m.txSize_nonneg d⟩
  within := hw

lemma subset_of_calculateMemPoolAncestors {entry : CTxMemPoolEntry}
    (hU : ∀ a, m.getMemPoolParents a ⊆ m.mapTx.keys)
    (hs : m.calculateMemPoolAncestors entry limits true = .ok s) : s ⊆ m.mapTx.keys := by
  intro a ha
  obtain ⟨p, hp, hreach⟩ := (mem_calculateMemPoolAncestors hU hs).mp ha
  exact hreach.mem_of_closed (Finmap.mem_keys.mpr (mem_poolParents.mp hp).1) fun b _ => hU b

lemma updateState_within {e : CTxMemPoolEntry} {size fee : ℤ}
    (hsize : 0 ≤ size) (hnonneg : 0 ≤ e.nCountWithDescendants ∧ 0 ≤ e.nSizeWithDescendants)
    (hwithin : Within e.nCountWithDescendants limits.limitDescendantCount ∧
      Within e.nSizeWithDescendants limits.limitDescendantSize)
    (hmore : Within (e.nSizeWithDescendants + size) limits.limitDescendantSize ∧
      Within (e.nCountWithDescendants + 1) limits.limitDescendantCount) :
    let e' := e.updateState size fee 1
    (0 ≤ e'.nCountWithDescendants ∧ 0 ≤ e'.nSizeWithDescendants) ∧
      Within e'.nCountWithDescendants limits.limitDescendantCount ∧
        Within e'.nSizeWithDescendants limits.limitDescendantSize := by
  dsimp only
  rw [CTxMemPoolEntry.updateState]
  split_ifs
  · exact ⟨hnonneg, hwithin⟩
  · exact ⟨⟨by dsimp only; omega, by dsimp only; omega⟩, hmore.2, hmore.1⟩

lemma Bounded.new_within {mu : MemUsage} (h : Bounded limits m)
    {added : CTxMemPoolEntry × SetEntries} (ha : Accepted mu limits m added) :
    Within 1 limits.limitDescendantCount ∧ Within added.1.nTxSize limits.limitDescendantSize := by
  rcases ha.parented with hp | halone
  · have hchecked := checked_of_calculateMemPoolAncestors h.parents ha.found hp
    obtain ⟨p, hp⟩ := hp
    have hpS : p ∈ added.2 :=
      (mem_calculateMemPoolAncestors h.parents ha.found).mpr ⟨p, hp, .refl p⟩
    obtain ⟨e, he⟩ := Finmap.mem_iff.mp (mem_poolParents.mp hp).1
    obtain ⟨hsize, hcount⟩ := hchecked.descendants p hpS (Finset.notMem_empty p) e he
    have hnonneg := h.nonneg p e he
    exact ⟨hcount.mono (by omega), hsize.mono (by omega)⟩
  · exact halone

lemma Bounded.addAccepted {mu : MemUsage} (h : Bounded limits m)
    {added : CTxMemPoolEntry × SetEntries} (ha : Accepted mu limits m added) :
    Bounded limits (m.addAccepted mu added) := by
  have hsub := subset_of_calculateMemPoolAncestors h.parents ha.found
  have hold : added.1.tx.hash ∉ added.2 := fun hmem => ha.absent (Finmap.mem_keys.mp (hsub hmem))
  have hentry : ∀ it e, (m.addAccepted mu added).mapTx.lookup it = some e →
      (0 ≤ e.nCountWithDescendants ∧ 0 ≤ e.nSizeWithDescendants) ∧
        Within e.nCountWithDescendants limits.limitDescendantCount ∧
          Within e.nSizeWithDescendants limits.limitDescendantSize := by
    intro it e he
    rw [CTxMemPool.addAccepted, lookup_addUncheckedWith mu ha.absent hold] at he
    split_ifs at he with hit hanc
    · obtain rfl := Option.some.inj he
      have hcount : added.1.nCountWithDescendants = 1 := by rw [ha.made]; rfl
      have hsize : added.1.nSizeWithDescendants = added.1.nTxSize := by rw [ha.made]; rfl
      rw [hcount, hsize]
      exact ⟨⟨Int.one_pos.le, Int.natCast_nonneg _⟩, h.new_within ha⟩
    · obtain ⟨e₀, he₀, rfl⟩ := Option.map_eq_some_iff.mp he
      obtain ⟨p, hp, -⟩ := (mem_calculateMemPoolAncestors h.parents ha.found).mp hanc
      have hchecked := checked_of_calculateMemPoolAncestors h.parents ha.found ⟨p, hp⟩
      exact updateState_within (Int.natCast_nonneg _) (h.nonneg it e₀ he₀) (h.within it e₀ he₀)
        (hchecked.descendants it hanc (Finset.notMem_empty it) e₀ he₀)
    · exact ⟨h.nonneg it e he, h.within it e he⟩
  exact ⟨parents_addUncheckedWith mu ha.absent h.parents, fun it e he => (hentry it e he).1,
    fun it e he => (hentry it e he).2⟩

/-- **The limits.** Over right links and numbers the search for the ancestors of a transaction that
spends from an entry returns exactly when they are within the limits, and then it returns them. So
additions keep all entries within the limits for descendants. -/
theorem calculateMemPoolAncestors_exact (mu : MemUsage) (limits : AncestorLimits)
    (start : CTxMemPool) (hstart : Exact start) :
    (∀ entry, (start.poolParents entry.tx).Nonempty →
      ((∃ setAncestors, start.calculateMemPoolAncestors entry limits true = .ok setAncestors) ↔
        AncestorsWithin start limits entry) ∧
      ∀ setAncestors, start.calculateMemPoolAncestors entry limits true = .ok setAncestors →
        setAncestors = start.ancestorsOf entry.tx) ∧
    (DescendantsWithin limits start →
      ∀ l m, Run (addAccepted mu) (Accepted mu limits) start l m → DescendantsWithin limits m) := by
  refine ⟨fun entry hp => ⟨hstart.returns_iff hp, fun s hs => hstart.eq_ancestorsOf hs⟩,
    fun hw l m hrun => ?_⟩
  exact (hrun.invariant (hstart.bounded hw) fun s a hs ha => hs.addAccepted ha).within

end CTxMemPool

/-! ### A child joins its parent -/

namespace Concrete

open CTxMemPool

def usualLimits : AncestorLimits := ⟨some 25, some 101000, some 25, some 101000⟩

/-- The pool with `olderTx`. -/
def olderPool : CTxMemPool := CTxMemPool.empty.addUncheckedWith fixedUsage (entryOf olderTx) ∅

lemma lookup_olderPool (it : Uint256) :
    olderPool.mapTx.lookup it = if it = 10 then some (entryOf olderTx) else none := by
  have hlook : olderPool.mapTx.lookup it = _ := lookup_addUncheckedWith fixedUsage (by decide)
    (Finset.notMem_empty (entryOf olderTx).tx.hash) it
  rw [if_neg (Finset.notMem_empty it)] at hlook
  exact hlook

lemma inv_olderPool : Inv fixedUsage ∅ olderPool := by
  have hnew : IsNew fixedUsage CTxMemPool.empty (entryOf olderTx) :=
    ⟨rfl, by decide, by decide +kernel, by decide, by decide +kernel, by decide⟩
  have hfound : CTxMemPool.empty.calculateMemPoolAncestors (entryOf olderTx) .nNoLimit true =
      .ok ∅ := by decide +kernel
  refine (Inv.empty fixedUsage).addUncheckedWith hnew.fresh
    ⟨fun _ _ => Iff.rfl, fun p hp => ?_, fun c hc => ?_⟩ hfound
  · exact absurd (mem_poolParents.mp hp).1 Finmap.notMem_empty
  · exact absurd hc.mem Finmap.notMem_empty

lemma exact_olderPool : Exact olderPool := by
  refine inv_olderPool.consistent.exact fun it e he => ?_
  rw [lookup_olderPool] at he
  split_ifs at he
  obtain rfl := Option.some.inj he
  decide

/-- `youngerTx` is accepted with its parent, and both are within the limits. -/
theorem calculateMemPoolAncestors_exact_younger :
    olderPool.calculateMemPoolAncestors (entryOf youngerTx) usualLimits true = .ok {10} ∧
      AncestorsWithin olderPool usualLimits (entryOf youngerTx) ∧
      olderPool.ancestorsOf youngerTx = {10} ∧
      DescendantsWithin usualLimits
        (olderPool.addAccepted fixedUsage (entryOf youngerTx, {10})) := by
  have hfound : olderPool.calculateMemPoolAncestors (entryOf youngerTx) usualLimits true =
      .ok {10} := by decide +kernel
  have hmem : (10 : Uint256) ∈ olderPool.mapTx := by
    rw [← Finmap.lookup_isSome, lookup_olderPool]
    rfl
  have hparents : (olderPool.poolParents (entryOf youngerTx).tx).Nonempty :=
    ⟨10, mem_poolParents.mpr ⟨hmem, ⟨10, 0⟩, by decide, rfl⟩⟩
  have habsent : (entryOf youngerTx).tx.hash ∉ olderPool.mapTx := by
    rw [← Finmap.lookup_isSome, lookup_olderPool]
    decide
  have hstart : DescendantsWithin usualLimits olderPool := by
    intro it e he
    rw [lookup_olderPool] at he
    split_ifs at he
    obtain rfl := Option.some.inj he
    rw [← exceeds_eq_false, ← exceeds_eq_false]
    decide
  obtain ⟨hsearch, hruns⟩ :=
    calculateMemPoolAncestors_exact fixedUsage usualLimits olderPool exact_olderPool
  obtain ⟨hiff, heq⟩ := hsearch (entryOf youngerTx) hparents
  exact ⟨hfound, hiff.mp ⟨_, hfound⟩, (heq _ hfound).symm,
    hruns hstart [(entryOf youngerTx, {10})] _ (.snoc .nil ⟨rfl, habsent, hfound, .inl hparents⟩)⟩

end Concrete

end Agenor
