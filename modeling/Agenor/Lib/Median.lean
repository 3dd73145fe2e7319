import Mathlib.Data.List.Sort
import Mathlib.Tactic.Ring

/-!
The middle of a list: what stands in the middle place when the values are put in order.

How the median compares with a bound is a matter of counting: it is at most the bound just when
more than half of the values are. So a minority of the values moves the median only among the
others.
-/

namespace Agenor.Lib.Median

variable {α : Type*} [LinearOrder α] {l s : List α} {a b m x : α} {k : ℕ}

/-- The values of a list in order. -/
def ordered (l : List α) : List α := l.insertionSort (· ≤ ·)

@[simp] lemma length_ordered (l : List α) : (ordered l).length = l.length :=
  List.length_insertionSort _ _

lemma perm_ordered (l : List α) : (ordered l).Perm l := List.perm_insertionSort _ _

lemma pairwise_ordered (l : List α) : (ordered l).Pairwise (· ≤ ·) :=
  List.pairwise_insertionSort _ _

/-- The value in the middle, of a list with an odd number of values. -/
def IsMedian (l : List α) (m : α) : Prop :=
  l.length % 2 = 1 ∧ (ordered l)[l.length / 2]? = some m

lemma holds_iff_lt_countP {P : α → Bool} (hP : ∀ {a b}, a ≤ b → P b = true → P a = true)
    (hs : s.Pairwise (· ≤ ·)) (hx : s[k]? = some x) : P x = true ↔ k < s.countP P := by
  induction s generalizing k with
  | nil => simp at hx
  | cons a s ih =>
    obtain ⟨ha, hs⟩ := List.pairwise_cons.mp hs
    cases hPa : P a with
    | true =>
      rw [List.countP_cons_of_pos hPa]
      cases k with
      | zero =>
        obtain rfl : a = x := by simpa using hx
        simp [hPa]
      | succ k =>
        rw [ih hs (by simpa using hx)]
        omega
    | false =>
      have hle : ∀ c ∈ a :: s, a ≤ c := by
        intro c hc
        rcases List.mem_cons.mp hc with rfl | hc
        · exact le_rfl
        · exact ha c hc
      have hnone : ∀ c ∈ a :: s, ¬ P c = true := fun c hc hPc => by
        rw [hP (hle c hc) hPc] at hPa
        cases hPa
      rw [List.countP_eq_zero.mpr hnone]
      exact iff_of_false (hnone x (List.mem_of_getElem? hx)) (Nat.not_lt_zero k)

/-- **The median counts.** What holds of all smaller values too holds of the median when it holds
of more than half of the values. -/
theorem IsMedian.holds_iff (h : IsMedian l m) {P : α → Bool}
    (hP : ∀ {a b}, a ≤ b → P b = true → P a = true) :
    P m = true ↔ l.length < 2 * l.countP P := by
  rw [holds_iff_lt_countP hP (pairwise_ordered l) h.2, (perm_ordered l).countP_eq]
  have hodd := h.1
  omega

lemma IsMedian.le_iff (h : IsMedian l m) (b : α) :
    m ≤ b ↔ l.length < 2 * l.countP (· ≤ b) := by
  rw [← h.holds_iff fun hab hb => by simpa using hab.trans (by simpa using hb)]
  simp

lemma IsMedian.lt_iff (h : IsMedian l m) (a : α) :
    m < a ↔ l.length < 2 * l.countP (· < a) := by
  rw [← h.holds_iff fun hab hb => by simpa using hab.trans_lt (by simpa using hb)]
  simp

/-- The median is within an interval when fewer than half of the values are outside it. -/
theorem IsMedian.mem_of_minority (h : IsMedian l m)
    (hout : 2 * l.countP (fun x => !decide (a ≤ x ∧ x ≤ b)) < l.length) : a ≤ m ∧ m ≤ b := by
  have hsplit := l.length_eq_countP_add_countP (fun x => !decide (a ≤ x ∧ x ≤ b))
  constructor
  · rw [← not_lt, h.lt_iff]
    have hbelow : l.countP (· < a) ≤ l.countP (fun x => !decide (a ≤ x ∧ x ≤ b)) :=
      List.countP_mono_left fun x _ hx => by
        have hxa : x < a := by simpa using hx
        simp [hxa.not_ge]
    omega
  · rw [h.le_iff]
    have habove : l.countP (fun x => !(!decide (a ≤ x ∧ x ≤ b))) ≤ l.countP (· ≤ b) :=
      List.countP_mono_left fun x _ hx => by
        have hxab : a ≤ x ∧ x ≤ b := by simpa using hx
        simpa using hxab.2
    simp only [Bool.not_not] at habove hsplit
    have hcount : l.countP (fun x => decide ¬((!decide (a ≤ x ∧ x ≤ b)) = true)) =
        l.countP (fun x => decide (a ≤ x ∧ x ≤ b)) := by
      congr 1
      funext x
      simp
    rw [hcount] at hsplit
    omega

end Agenor.Lib.Median
