import Mathlib.Algebra.Order.Field.Rat
import Mathlib.Tactic.Ring
import Mathlib.Tactic.NormNum
import Mathlib.Tactic.Positivity

/-!
Decimal numbers: when digits and a power of ten come to an integer.

A number whose last digit is not zero is an integer after scaling only if it is not scaled down, so
where it is too long no scaling brings it back.
-/

namespace Agenor.Lib.Decimal

scoped instance neZero_ten : NeZero 10 := ⟨by decide⟩

/-- The number that the digits give when `n` stands before them. -/
def after (n : ℕ) (ds : List (Fin 10)) : ℕ := ds.foldl (fun n d => 10 * n + d) n

@[simp] lemma after_nil (n : ℕ) : after n [] = n := rfl

@[simp] lemma after_cons (n : ℕ) (d : Fin 10) (ds : List (Fin 10)) :
    after n (d :: ds) = after (10 * n + d) ds := rfl

lemma after_append (n : ℕ) (ds ds' : List (Fin 10)) :
    after n (ds ++ ds') = after (after n ds) ds' := by
  induction ds generalizing n with
  | nil => rfl
  | cons d ds ih => exact ih (10 * n + d)

lemma after_zeros (n k : ℕ) : after n (List.replicate k 0) = n * 10 ^ k := by
  induction k generalizing n with
  | zero => exact (mul_one n).symm
  | succ k ih =>
    rw [List.replicate_succ, after_cons, ih, pow_succ, Fin.val_zero]
    ring

lemma after_lt {n k : ℕ} (ds : List (Fin 10)) (h : n < 10 ^ k) :
    after n ds < 10 ^ (k + ds.length) := by
  induction ds generalizing n k with
  | nil => exact h
  | cons d ds ih =>
    rw [List.length_cons, after_cons, ← Nat.add_assoc, Nat.add_right_comm]
    refine ih ?_
    rw [pow_succ]
    omega

/-- The digits of a number, without zeros in front. -/
def digits (n : ℕ) : List (Fin 10) :=
  if n < 10 then [Fin.ofNat 10 n] else digits (n / 10) ++ [Fin.ofNat 10 n]

lemma after_digits (n : ℕ) : after 0 (digits n) = n := by
  induction n using digits.induct with
  | case1 n hn =>
    rw [digits, if_pos hn, after_cons, after_nil, Fin.val_ofNat]
    omega
  | case2 n hn ih =>
    rw [digits, if_neg hn, after_append, ih, after_cons, after_nil, Fin.val_ofNat]
    omega

lemma length_digits_le {n k : ℕ} (h : n < 10 ^ (k + 1)) : (digits n).length ≤ k + 1 := by
  induction k generalizing n with
  | zero =>
    rw [digits, if_pos (by omega), List.length_singleton]
  | succ k ih =>
    rw [digits]
    split_ifs
    · rw [List.length_singleton]
      omega
    · rw [List.length_append, List.length_singleton]
      refine Nat.succ_le_succ (ih ?_)
      rw [pow_succ] at h
      omega

lemma le_after (n : ℕ) (ds : List (Fin 10)) : n ≤ after n ds := by
  induction ds generalizing n with
  | nil => exact le_rfl
  | cons d ds ih =>
    calc n ≤ 10 * n + d := by omega
      _ ≤ after n (d :: ds) := ih _

/-- More than `p` digits, without the zeros at both ends. -/
def Long (p n : ℕ) : Prop := ∃ j, 10 ^ p ≤ n / 10 ^ j ∧ n / 10 ^ j % 10 ≠ 0

variable {p n m : ℕ} {k z : ℤ}

lemma Long.digit (h : Long p n) (d : Fin 10) : Long p (10 * n + d) := by
  obtain ⟨j, hle, hne⟩ := h
  have hdiv : (10 * n + d) / 10 ^ (j + 1) = n / 10 ^ j := by
    rw [pow_succ', ← Nat.div_div_eq_div_mul]
    congr 1
    omega
  exact ⟨j + 1, by rwa [hdiv], by rwa [hdiv]⟩

lemma Long.after (h : Long p n) (ds : List (Fin 10)) : Long p (after n ds) := by
  induction ds generalizing n with
  | nil => exact h
  | cons d ds ih => exact ih (h.digit d)

/-! ### Scaling -/

lemma mul_pow_eq_int (n a : ℕ) : (n : ℚ) * 10 ^ (a : ℤ) = z ↔ (n : ℤ) * 10 ^ a = z := by
  rw [zpow_natCast]
  exact_mod_cast Iff.rfl

lemma mul_pow_neg_eq_int (n a : ℕ) : (n : ℚ) * 10 ^ (-(a : ℤ)) = z ↔ (n : ℤ) = z * 10 ^ a := by
  rw [zpow_neg, zpow_natCast, ← div_eq_mul_inv, div_eq_iff (by positivity)]
  exact_mod_cast Iff.rfl

lemma nonneg_of_eq_int (hm : m % 10 ≠ 0) (h : (m : ℚ) * 10 ^ k = z) : 0 ≤ k := by
  obtain ⟨a, rfl | rfl⟩ := k.eq_nat_or_neg
  · exact Int.natCast_nonneg a
  · rw [mul_pow_neg_eq_int] at h
    cases a with
    | zero => exact le_rfl
    | succ a =>
      rw [pow_succ, ← mul_assoc] at h
      omega

lemma Long.le_of_eq_int (hn : Long p n) (h : (n : ℚ) * 10 ^ k = z) : 10 ^ p ≤ z := by
  obtain ⟨j, hle, hne⟩ := hn
  obtain ⟨a, rfl | rfl⟩ := k.eq_nat_or_neg
  · rw [mul_pow_eq_int] at h
    calc (10 ^ p : ℤ) ≤ (n / 10 ^ j : ℕ) := by exact_mod_cast hle
      _ ≤ n := by exact_mod_cast Nat.div_le_self n _
      _ ≤ n * 10 ^ a := le_mul_of_one_le_right (by positivity) (one_le_pow₀ (by norm_num))
      _ = z := h
  · rw [mul_pow_neg_eq_int] at h
    have hz : 0 ≤ z := by
      have hpos : (0 : ℤ) < 10 ^ a := by positivity
      by_contra hneg
      have hmul := mul_neg_of_neg_of_pos (not_le.mp hneg) hpos
      omega
    obtain ⟨z, rfl⟩ := Int.eq_ofNat_of_zero_le hz
    have hn : n = z * 10 ^ a := by exact_mod_cast h
    rcases Nat.lt_or_ge j a with hja | haj
    · -- what stands at the place of the last digit is zero
      obtain ⟨b, rfl⟩ := Nat.exists_eq_add_of_lt hja
      rw [hn, show z * 10 ^ (j + b + 1) = z * 10 ^ b * 10 * 10 ^ j by ring,
        Nat.mul_div_cancel _ (by positivity), Nat.mul_mod_left] at hne
      exact absurd rfl hne
    · have hdiv : n / 10 ^ j ≤ z :=
        calc n / 10 ^ j ≤ n / 10 ^ a :=
              Nat.div_le_div_left (Nat.pow_le_pow_right (by norm_num) haj) (by positivity)
          _ = z := by rw [hn, Nat.mul_div_cancel _ (by positivity)]
      exact_mod_cast hle.trans hdiv

lemma eq_int_iff (hm : m % 10 ≠ 0 ∨ m = 0 ∧ 0 ≤ k ∧ k < p) :
    (m : ℚ) * 10 ^ k = z ∧ |z| < 10 ^ p ↔
      (0 ≤ k ∧ k < p ∧ m * 10 ^ k.toNat < 10 ^ p) ∧ z = (m * 10 ^ k.toNat : ℕ) := by
  constructor
  · rintro ⟨hz, hlt⟩
    have hk : 0 ≤ k := hm.elim (fun hm => nonneg_of_eq_int hm hz) fun hm => hm.2.1
    obtain ⟨a, rfl⟩ := Int.eq_ofNat_of_zero_le hk
    rw [mul_pow_eq_int] at hz
    rw [Int.toNat_natCast]
    have hz' : z = (m * 10 ^ a : ℕ) := by
      rw [← hz]
      push_cast
      rfl
    rw [hz', abs_of_nonneg (Int.natCast_nonneg _)] at hlt
    have hlt' : m * 10 ^ a < 10 ^ p := by exact_mod_cast hlt
    refine ⟨⟨hk, hm.elim (fun hm => ?_) fun hm => hm.2.2, hlt'⟩, hz'⟩
    have hpow : 10 ^ a < 10 ^ p := (Nat.le_mul_of_pos_left _ (by omega)).trans_lt hlt'
    exact_mod_cast (Nat.pow_lt_pow_iff_right (by norm_num)).mp hpow
  · rintro ⟨⟨hk, -, hlt⟩, rfl⟩
    obtain ⟨a, rfl⟩ := Int.eq_ofNat_of_zero_le hk
    rw [Int.toNat_natCast] at hlt ⊢
    rw [mul_pow_eq_int, abs_of_nonneg (Int.natCast_nonneg _)]
    exact ⟨by push_cast; rfl, by exact_mod_cast hlt⟩

end Agenor.Lib.Decimal
