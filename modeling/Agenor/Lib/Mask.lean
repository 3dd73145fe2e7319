import Mathlib.Algebra.BigOperators.Group.List.Basic
import Mathlib.Algebra.Order.BigOperators.Group.List
import Mathlib.Algebra.Order.Ring.Int

/-!
Selections from a list by a mask: the elements at whose places the mask is set, and how their total
changes when one place is set or cleared.
-/

namespace Agenor.Lib

variable {α : Type}

/-- The elements at the places that are set. -/
def pick : List Bool → List α → List α
  | b :: mask, a :: l => if b then a :: pick mask l else pick mask l
  | _, _ => []

@[simp] lemma pick_nil (mask : List Bool) : pick mask ([] : List α) = [] := by
  cases mask <;> rfl

lemma pick_sublist (mask : List Bool) (l : List α) : (pick mask l).Sublist l := by
  induction l generalizing mask with
  | nil => rw [pick_nil]
  | cons a l ih =>
    cases mask with
    | nil => exact List.nil_sublist _
    | cons b mask =>
      cases b with
      | false => exact (ih mask).cons a
      | true => exact (ih mask).cons_cons a

lemma pick_none (l : List α) : pick (List.replicate l.length false) l = [] := by
  induction l with
  | nil => rfl
  | cons a l ih => exact ih

lemma pick_all (l : List α) : pick (List.replicate l.length true) l = l := by
  induction l with
  | nil => rfl
  | cons a l ih =>
    show a :: pick _ l = a :: l
    rw [ih]

lemma pick_map {β : Type} (f : α → β) (mask : List Bool) (l : List α) :
    pick mask (l.map f) = (pick mask l).map f := by
  induction l generalizing mask with
  | nil => simp
  | cons a l ih =>
    cases mask with
    | nil => rfl
    | cons b mask => cases b <;> simp [pick, ih]

variable {mask : List Bool} {l : List ℤ} {i : ℕ} {v : ℤ}

lemma sum_pick_set (hm : mask[i]? = some false) (hv : l[i]? = some v) :
    (pick (mask.set i true) l).sum = (pick mask l).sum + v := by
  induction l generalizing mask i with
  | nil => simp at hv
  | cons a l ih =>
    cases mask with
    | nil => simp at hm
    | cons b mask =>
      cases i with
      | zero =>
        obtain rfl : b = false := by simpa using hm
        obtain rfl : a = v := by simpa using hv
        show a + (pick mask l).sum = (pick mask l).sum + a
        exact add_comm _ _
      | succ i =>
        rw [List.getElem?_cons_succ] at hm hv
        have hset := ih hm hv
        cases b with
        | false => exact hset
        | true =>
          show a + (pick (mask.set i true) l).sum = a + (pick mask l).sum + v
          rw [hset, add_assoc]

lemma sum_pick_le (hl : ∀ v ∈ l, 0 ≤ v) (mask : List Bool) : (pick mask l).sum ≤ l.sum :=
  (pick_sublist mask l).sum_le_sum hl

end Agenor.Lib
