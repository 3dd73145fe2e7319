import Mathlib.Data.Nat.Size
import Mathlib.Tactic.Ring

/-!
Rounding a number down to its leading digits, in base `2 ^ g`.

At least `g * (p - 1)` leading bits are kept: one digit more than that is read, and as many bits of
it are lost as the first digit has leading zeros.
-/

namespace Agenor.Lib.Truncate

/-- How many low bits are dropped where `p` digits are kept, the first of which has its top bit
free. -/
def dropped (g p x : ℕ) : ℕ := g * (x.size / g + 1 - p)

/-- The number without the bits that are dropped. -/
def trunc (g p x : ℕ) : ℕ := x / 2 ^ dropped g p x * 2 ^ dropped g p x

variable {g p x y : ℕ}

lemma trunc_le (g p x : ℕ) : trunc g p x ≤ x := Nat.div_mul_le_self x _

lemma trunc_div {j : ℕ} (h : dropped g p x ≤ j) : trunc g p x / 2 ^ j = x / 2 ^ j := by
  obtain ⟨k, rfl⟩ := Nat.exists_eq_add_of_le h
  rw [pow_add, ← Nat.div_div_eq_div_mul, ← Nat.div_div_eq_div_mul, trunc,
    Nat.mul_div_cancel _ (Nat.two_pow_pos _)]

lemma trunc_eq_self (h : 2 ^ dropped g p x ∣ x) : trunc g p x = x := Nat.div_mul_cancel h

lemma dropped_add_le (hp : 1 ≤ p) (h : dropped g p x ≠ 0) :
    dropped g p x + g * (p - 1) ≤ x.size := by
  have hdiv := Nat.mul_div_le x.size g
  have hkeep : x.size / g + 1 - p + (p - 1) = x.size / g := by
    have hne : x.size / g + 1 - p ≠ 0 := fun h0 => h (by rw [dropped, h0, Nat.mul_zero])
    omega
  calc dropped g p x + g * (p - 1) = g * (x.size / g + 1 - p + (p - 1)) := by
        rw [dropped, Nat.mul_add]
    _ = g * (x.size / g) := by rw [hkeep]
    _ ≤ x.size := hdiv

lemma trunc_leading (hp : 1 ≤ p) {k : ℕ} (hk : k ≤ g * (p - 1)) :
    trunc g p x / 2 ^ (x.size - k) = x / 2 ^ (x.size - k) := by
  by_cases h : dropped g p x = 0
  · exact trunc_div (by omega)
  · have := dropped_add_le hp h
    exact trunc_div (by omega)

lemma two_pow_le_trunc {j : ℕ} (hj : dropped g p x ≤ j) (h : 2 ^ j ≤ x) : 2 ^ j ≤ trunc g p x := by
  obtain ⟨k, rfl⟩ := Nat.exists_eq_add_of_le hj
  rw [pow_add, Nat.mul_comm] at h ⊢
  exact Nat.mul_le_mul_right _ ((Nat.le_div_iff_mul_le (Nat.two_pow_pos _)).mpr h)

section

variable (hg : 1 ≤ g) (hp : 2 ≤ p)
include hg hp

lemma dropped_lt_size (hx : x ≠ 0) : dropped g p x < x.size := by
  have hsize : 0 < x.size := Nat.size_pos.mpr (Nat.pos_of_ne_zero hx)
  by_cases h : dropped g p x = 0
  · omega
  · have hle := dropped_add_le (by omega) h
    have hmul : 1 * 1 ≤ g * (p - 1) := Nat.mul_le_mul hg (by omega)
    omega

lemma trunc_mono (h : x ≤ y) : trunc g p x ≤ trunc g p y := by
  have hsize := Nat.size_le_size h
  by_cases heq : x.size / g = y.size / g
  · have hdrop : dropped g p x = dropped g p y := by rw [dropped, dropped, heq]
    rw [trunc, trunc, hdrop]
    exact Nat.mul_le_mul_right _ (Nat.div_le_div_right h)
  · -- between the two is a power of two with which a new digit begins
    have hlt : x.size / g < y.size / g := lt_of_le_of_ne (Nat.div_le_div_right hsize) heq
    set m := g * (y.size / g) with hm
    have hmle : m ≤ y.size := Nat.mul_div_le y.size g
    have hxm : x.size < m := by
      rw [hm, Nat.mul_comm]
      exact (Nat.div_lt_iff_lt_mul (by omega)).mp hlt
    have hdrop : dropped g p y + g ≤ m := by
      have hpos := Nat.zero_lt_of_lt hlt
      have hdigits : y.size / g + 1 - p + 1 ≤ y.size / g := by omega
      calc dropped g p y + g = g * (y.size / g + 1 - p + 1) := by rw [dropped, Nat.mul_succ]
        _ ≤ m := Nat.mul_le_mul_left _ hdigits
    have hy : 2 ^ (m - 1) ≤ y := Nat.lt_size.mp (by omega)
    calc trunc g p x ≤ x := trunc_le g p x
      _ ≤ 2 ^ x.size := (Nat.lt_size_self x).le
      _ ≤ 2 ^ (m - 1) := Nat.pow_le_pow_right (by decide) (by omega)
      _ ≤ trunc g p y := two_pow_le_trunc (by omega) hy

end

lemma trunc_mul_two_pow {m e : ℕ} (hg : 1 ≤ g) (hm : m < 2 ^ (g * p - 1)) :
    trunc g p (m * 2 ^ (g * e)) = m * 2 ^ (g * e) := by
  refine trunc_eq_self ?_
  by_cases hzero : m = 0
  · rw [hzero, Nat.zero_mul]
    exact dvd_zero _
  refine Dvd.dvd.mul_left (pow_dvd_pow 2 (Nat.mul_le_mul_left g ?_)) _
  have hlt : m * 2 ^ (g * e) < 2 ^ (g * p - 1 + g * e) := by
    rw [pow_add]
    exact Nat.mul_lt_mul_of_pos_right hm (Nat.two_pow_pos _)
  have hsize : (m * 2 ^ (g * e)).size ≤ g * p - 1 + g * e := Nat.size_le.mpr hlt
  have hpos : g * p ≠ 0 := by
    intro h0
    rw [h0] at hm
    simp at hm
    omega
  have hdiv : (m * 2 ^ (g * e)).size / g < p + e := by
    refine (Nat.div_lt_iff_lt_mul (by omega)).mpr ?_
    rw [Nat.add_mul, Nat.mul_comm p, Nat.mul_comm e]
    omega
  omega

end Agenor.Lib.Truncate
