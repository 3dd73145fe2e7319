import Agenor.Lib.Halving
import Agenor.MasternodeReward
import Mathlib.Algebra.BigOperators.Group.Finset.Piecewise
import Mathlib.Order.Interval.Finset.Nat

/-!
The reward schedule against the cap on the money supply (`GetBlockValue` of `main.cpp`).
-/

namespace Agenor

open Lib.Halving

/-- What the first block pays to fund the masternodes. -/
def premine : ℤ := 5000000 * COIN

lemma subsidyAfter_nonneg (k : ℕ) : 0 ≤ subsidyAfter k := by
  unfold subsidyAfter COIN
  split_ifs
  · exact le_rfl
  · exact Int.ediv_nonneg (by decide) (by positivity)

lemma halves_subsidyAfter : Halves subsidyAfter where
  nonneg := subsidyAfter_nonneg
  half k := by
    by_cases hk : 64 ≤ k + 1
    · have hzero : subsidyAfter (k + 1) = 0 := if_pos hk
      rw [hzero]
      exact subsidyAfter_nonneg k
    · have hdiv : 50 * COIN / 2 ^ (k + 1) = 50 * COIN / 2 ^ k / 2 := by
        rw [Int.ediv_ediv_of_nonneg (by positivity), pow_succ]
      rw [subsidyAfter, subsidyAfter, if_neg hk, if_neg (by omega), hdiv]
      omega

lemma subsidyAfter_eq_zero {k : ℕ} (hk : 33 ≤ k) : subsidyAfter k = 0 := by
  have h33 : subsidyAfter 33 = 0 := by decide
  exact le_antisymm (h33 ▸ halves_subsidyAfter.le hk) (subsidyAfter_nonneg k)

section

variable {net : Network} (hn : net ≠ .REGTEST)
include hn

lemma getBlockValue_eq {h : ℕ} (hh : 2 ≤ h) :
    (paramsOf net).getBlockValue h = subsidyAfter (h / 250000) := by
  rw [getBlockValue_eq_subsidyAfter hn (by omega)]
  congr 1

lemma getBlockValue_one : (paramsOf net).getBlockValue 1 = premine := by
  cases net with
  | MAIN => rfl
  | TESTNET => rfl
  | REGTEST => exact absurd rfl hn

lemma sum_getBlockValue_le (n : ℕ) :
    ∑ h ∈ Finset.Icc 1 n, (paramsOf net).getBlockValue h ≤ 30000000 * COIN := by
  have hterm : ∀ h ∈ Finset.Icc 1 n, (paramsOf net).getBlockValue h ≤
      subsidyAfter (h / 250000) + if h = 1 then premine else 0 := by
    intro h hmem
    rcases (Finset.mem_Icc.mp hmem).1.eq_or_lt with rfl | hlt
    · rw [if_pos rfl, Nat.cast_one, getBlockValue_one hn]
      linarith [subsidyAfter_nonneg (1 / 250000)]
    · rw [if_neg hlt.ne', add_zero, getBlockValue_eq hn hlt]
  have hsub : Finset.Icc 1 n ⊆ Finset.range (n + 1) := fun h hmem =>
    Finset.mem_range.mpr (Nat.lt_succ_of_le (Finset.mem_Icc.mp hmem).2)
  have hpremine : ∑ h ∈ Finset.Icc 1 n, (if h = 1 then premine else 0) ≤ premine := by
    rw [Finset.sum_ite_eq']
    split_ifs
    · exact le_rfl
    · decide
  calc ∑ h ∈ Finset.Icc 1 n, (paramsOf net).getBlockValue h
      ≤ ∑ h ∈ Finset.Icc 1 n, (subsidyAfter (h / 250000) + if h = 1 then premine else 0) :=
        Finset.sum_le_sum hterm
    _ = ∑ h ∈ Finset.Icc 1 n, subsidyAfter (h / 250000) +
          ∑ h ∈ Finset.Icc 1 n, (if h = 1 then premine else 0) := Finset.sum_add_distrib
    _ ≤ ∑ h ∈ Finset.range (n + 1), subsidyAfter (h / 250000) + premine :=
        add_le_add (Finset.sum_le_sum_of_subset_of_nonneg hsub fun _ _ _ =>
          subsidyAfter_nonneg _) hpremine
    _ ≤ 2 * (250000 : ℕ) * subsidyAfter 0 + premine :=
        add_le_add_left (halves_subsidyAfter.sum_le (by decide) (n + 1)) _
    _ = 30000000 * COIN := by decide

/-- **The schedule stays within the supply.** On the main and the test network the blocks up to any
height are worth no more than the cap, no block after the first is worth more than one before it,
and from some height on they are worth nothing. -/
theorem blockValue_within_supply :
    (∀ n : ℕ, ∑ h ∈ Finset.Icc 1 n, (paramsOf net).getBlockValue h ≤
      (paramsOf net).nMaxMoneyOut) ∧
    (∀ h h' : ℕ, 2 ≤ h → h ≤ h' →
      (paramsOf net).getBlockValue h' ≤ (paramsOf net).getBlockValue h) ∧
    ∃ last : ℕ, ∀ h : ℕ, last ≤ h → (paramsOf net).getBlockValue h = 0 := by
  have hcap : 30000000 * COIN ≤ (paramsOf net).nMaxMoneyOut := by cases net <;> decide
  refine ⟨fun n => (sum_getBlockValue_le hn n).trans hcap, fun h h' hh hle => ?_,
    33 * 250000, fun h hh => ?_⟩
  · rw [getBlockValue_eq hn hh, getBlockValue_eq hn (hh.trans hle)]
    exact halves_subsidyAfter.le (Nat.div_le_div_right hle)
  · rw [getBlockValue_eq hn (by omega)]
    exact subsidyAfter_eq_zero (by omega)

end

namespace Concrete

/-- A million blocks of the test network, whose cap is the lower one. -/
theorem blockValue_within_supply_million :
    ∑ h ∈ Finset.Icc (1 : ℕ) 1000000, testNetParams.getBlockValue h ≤
      testNetParams.nMaxMoneyOut :=
  (blockValue_within_supply (show Network.TESTNET ≠ .REGTEST by decide)).1 1000000

end Concrete

end Agenor
