import Mathlib.Algebra.BigOperators.Group.Finset.Basic
import Mathlib.Algebra.Order.BigOperators.Group.Finset
import Mathlib.Algebra.Order.Ring.Int
import Mathlib.Tactic.Linarith
import Mathlib.Tactic.Ring

/-!
An amount that is paid at every height and at least halved after each interval: what has been paid
and twice the amount for the interval that is under way, less what of it is paid, stay within twice
the first interval.
-/

namespace Agenor.Lib.Halving

/-- The amount after some halvings is at most half of the one before. -/
structure Halves (f : ℕ → ℤ) : Prop where
  nonneg : ∀ k, 0 ≤ f k
  half : ∀ k, 2 * f (k + 1) ≤ f k

variable {f : ℕ → ℤ} {I : ℕ}

lemma Halves.le (h : Halves f) {j k : ℕ} (hjk : j ≤ k) : f k ≤ f j := by
  induction k, hjk using Nat.le_induction with
  | base => exact le_rfl
  | succ k _ ih => linarith [h.nonneg (k + 1), h.half k]

lemma div_mod_succ (hI : 0 < I) (n : ℕ) :
    ((n + 1) / I = n / I ∧ (n + 1) % I = n % I + 1) ∨
      ((n + 1) / I = n / I + 1 ∧ (n + 1) % I = 0 ∧ n % I + 1 = I) := by
  by_cases h : n % I + 1 = I
  · right
    have hn : n + 1 = I * (n / I + 1) := by
      have := Nat.div_add_mod n I
      rw [Nat.mul_add]
      omega
    refine ⟨?_, ?_, h⟩
    · rw [hn, Nat.mul_div_cancel_left _ hI]
    · rw [hn, Nat.mul_mod_right]
  · left
    have hlt := Nat.mod_lt n hI
    have hn : n + 1 = (n % I + 1) + I * (n / I) := by
      have := Nat.div_add_mod n I
      omega
    refine ⟨?_, ?_⟩
    · rw [hn, Nat.add_mul_div_left _ _ hI, Nat.div_eq_of_lt (by omega), Nat.zero_add]
    · rw [hn, Nat.add_mul_mod_self_left, Nat.mod_eq_of_lt (by omega)]

/-- **What can still be paid.** The amount paid so far and a bound on the rest. -/
theorem Halves.sum_add_rest_le (h : Halves f) (hI : 0 < I) (n : ℕ) :
    ∑ i ∈ Finset.range n, f (i / I) + (2 * I - (n % I : ℕ)) * f (n / I) ≤ 2 * I * f 0 := by
  induction n with
  | zero => simp
  | succ n ih =>
    rw [Finset.sum_range_succ]
    rcases div_mod_succ hI n with ⟨hdiv, hmod⟩ | ⟨hdiv, hmod, hlast⟩
    · rw [hdiv, hmod, Nat.cast_add, Nat.cast_one]
      linarith
    · have hhalf : (I : ℤ) * (2 * f (n / I + 1)) ≤ I * f (n / I) :=
        mul_le_mul_of_nonneg_left (h.half _) (by omega)
      have hcast : ((n % I : ℕ) : ℤ) = I - 1 := by omega
      rw [hdiv, hmod, Nat.cast_zero]
      rw [hcast] at ih
      linarith

theorem Halves.sum_le (h : Halves f) (hI : 0 < I) (n : ℕ) :
    ∑ i ∈ Finset.range n, f (i / I) ≤ 2 * I * f 0 := by
  have hrest : 0 ≤ (2 * (I : ℤ) - (n % I : ℕ)) * f (n / I) := by
    refine mul_nonneg ?_ (h.nonneg _)
    have := Nat.mod_lt n hI
    omega
  linarith [h.sum_add_rest_le hI n]

end Agenor.Lib.Halving
