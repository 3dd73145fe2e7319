import Mathlib.Algebra.BigOperators.Group.List.Basic
import Mathlib.Algebra.Order.Monoid.Defs
import Mathlib.Data.List.Nodup

/-!
A greedy pass over a list: every element is taken that fits into what is left of a capacity.

The pass takes a part of the list in its order, it never exceeds the capacity, and it is maximal in
the sense that what it leaves did not fit when its turn came.
-/

namespace Agenor.Lib

variable {α M : Type*} [AddMonoid M] [LinearOrder M] (weight : α → M) (cap : M)

/-- What is taken from a list when some of the capacity is used already. -/
def greedy : M → List α → List α
  | _, [] => []
  | used, x :: l =>
    if used + weight x ≤ cap then x :: greedy (used + weight x) l else greedy used l

/-- The weight of what is taken. -/
def greedyWeight (used : M) (l : List α) : M := ((greedy weight cap used l).map weight).sum

variable {weight cap} {used : M} {l l₁ l₂ : List α} {e : α}

lemma greedy_sublist (weight : α → M) (cap used : M) (l : List α) :
    (greedy weight cap used l).Sublist l := by
  induction l generalizing used with
  | nil => exact .slnil
  | cons x l ih =>
    rw [greedy]
    split_ifs
    · exact (ih _).cons_cons _
    · exact (ih _).cons _

lemma greedyWeight_le (weight : α → M) (l : List α) (h : used ≤ cap) :
    used + greedyWeight weight cap used l ≤ cap := by
  induction l generalizing used with
  | nil => simpa [greedyWeight, greedy] using h
  | cons x l ih =>
    rw [greedyWeight, greedy]
    split_ifs with hx
    · rw [List.map_cons, List.sum_cons, ← add_assoc]
      exact ih hx
    · exact ih h

lemma greedy_append (weight : α → M) (cap used : M) (l₁ l₂ : List α) :
    greedy weight cap used (l₁ ++ l₂) = greedy weight cap used l₁ ++
      greedy weight cap (used + greedyWeight weight cap used l₁) l₂ := by
  induction l₁ generalizing used with
  | nil => simp [greedyWeight, greedy]
  | cons x l₁ ih =>
    rw [List.cons_append, greedy, greedyWeight, greedy]
    split_ifs with hx
    · rw [List.map_cons, List.sum_cons, ← add_assoc, ih]
      rfl
    · exact ih used

lemma mem_greedy_iff (weight : α → M) (cap used : M) (hnodup : (l₁ ++ e :: l₂).Nodup) :
    e ∈ greedy weight cap used (l₁ ++ e :: l₂) ↔
      used + greedyWeight weight cap used l₁ + weight e ≤ cap := by
  have hnotMem : ∀ {u l}, e ∉ l → e ∉ greedy weight cap u l :=
    fun hl hmem => hl ((greedy_sublist weight cap _ _).subset hmem)
  obtain ⟨-, htail, hdisjoint⟩ := List.nodup_append.mp hnodup
  have hfront : e ∉ l₁ := fun he => hdisjoint e he e (List.mem_cons_self ..) rfl
  have hback : e ∉ l₂ := (List.nodup_cons.mp htail).1
  rw [greedy_append, List.mem_append, greedy]
  split_ifs with hx
  · exact iff_of_true (.inr (List.mem_cons_self ..)) hx
  · exact iff_of_false (not_or.mpr ⟨hnotMem hfront, hnotMem hback⟩) hx

end Agenor.Lib
