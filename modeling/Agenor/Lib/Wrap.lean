import Mathlib.Tactic.Positivity
import Mathlib.Tactic.NormNum

/-!
Signed machine integers as integers: `wrap w x` is the value a signed `w`-bit register holds
after `x` has been stored into it.

Sums and differences may be wrapped at every step or once at the end; a value that fits is
kept as it is, and any other differs from what is stored by the number of times it has run past
the range.
-/

namespace Agenor.Lib.Wrap

/-- The signed `w`-bit value congruent to `x`. -/
def wrap (w : ℕ) (x : ℤ) : ℤ := x.bmod (2 ^ w)

variable {w : ℕ}

@[simp] lemma wrap_wrap_add (x y : ℤ) : wrap w (wrap w x + y) = wrap w (x + y) := by
  simp [wrap]

@[simp] lemma wrap_add_wrap (x y : ℤ) : wrap w (x + wrap w y) = wrap w (x + y) := by
  simp [wrap]

@[simp] lemma wrap_wrap_sub (x y : ℤ) : wrap w (wrap w x - y) = wrap w (x - y) := by
  simp [wrap]

@[simp] lemma wrap_sub_wrap (x y : ℤ) : wrap w (x - wrap w y) = wrap w (x - y) := by
  simp [wrap]

@[simp] lemma wrap_wrap_mul (x y : ℤ) : wrap w (wrap w x * y) = wrap w (x * y) := by
  simp [wrap]

@[simp] lemma wrap_wrap (x : ℤ) : wrap w (wrap w x) = wrap w x := by
  simp [wrap]

lemma wrap_zero : wrap w 0 = 0 := by simp [wrap]

lemma wrap_of_mem {x : ℤ} (h1 : -2 ^ w ≤ x) (h2 : x < 2 ^ w) : wrap (w + 1) x = x := by
  apply Int.bmod_eq_of_le <;> push_cast <;> rw [pow_succ] <;> omega

lemma wrap_lt (x : ℤ) : wrap (w + 1) x < 2 ^ w := by
  have hlt := Int.bmod_lt (x := x) (Nat.two_pow_pos (w + 1))
  have hpow : ((2 ^ (w + 1) : ℕ) : ℤ) = 2 * 2 ^ w := by
    push_cast
    exact pow_succ' 2 w
  rw [hpow] at hlt
  rw [wrap]
  omega

lemma wrap_of_fits {x : ℤ} (h1 : -2 ^ 63 ≤ x) (h2 : x < 2 ^ 63) : wrap 64 x = x := by
  apply Int.bmod_eq_of_le <;> norm_num at * <;> omega

lemma wrap_of_over {x : ℤ} (h1 : 2 ^ 63 ≤ x) (h2 : x < 2 ^ 63 + 2 ^ 64) :
    wrap 64 x = x - 2 ^ 64 := by
  have hmod : wrap 64 (x - 2 ^ 64) = wrap 64 x := Int.sub_bmod_right x (2 ^ 64)
  rw [← hmod]
  exact wrap_of_fits (by omega) (by omega)

lemma wrap_mem (x : ℤ) : -2 ^ 63 ≤ wrap 64 x ∧ wrap 64 x < 2 ^ 63 := by
  have hle := Int.le_bmod (x := x) (m := 2 ^ 64) (by norm_num)
  have hlt := Int.bmod_lt (x := x) (m := 2 ^ 64) (by norm_num)
  rw [wrap]
  norm_num at hle hlt ⊢
  omega

/-- How often a value has run past the range of a signed 64-bit register. -/
def wraps (x : ℤ) : ℤ := (x + 2 ^ 63) / 2 ^ 64

lemma wrap_eq_sub (x : ℤ) : wrap 64 x = x - 2 ^ 64 * wraps x := by
  obtain ⟨q, hq⟩ := Int.dvd_self_sub_bmod (x := x) (m := 2 ^ 64)
  have hmem := wrap_mem x
  rw [wrap] at hmem ⊢
  rw [wraps]
  norm_num at hq hmem ⊢
  omega

lemma wraps_nonpos {x : ℤ} (h : x < 2 ^ 63) : wraps x ≤ 0 := by
  rw [wraps]
  norm_num at h ⊢
  omega

lemma wraps_nonneg {x : ℤ} (h : -2 ^ 63 ≤ x) : 0 ≤ wraps x := by
  rw [wraps]
  norm_num at h ⊢
  omega

lemma wraps_of_fits {x : ℤ} (h1 : -2 ^ 63 ≤ x) (h2 : x < 2 ^ 63) : wraps x = 0 :=
  le_antisymm (wraps_nonpos h2) (wraps_nonneg h1)

end Agenor.Lib.Wrap
