import Mathlib.Data.Prod.Lex
import Agenor.Lib.Ranking
import Agenor.MempoolRuns

/-!
The orders in which `mapTx` keeps its entries (`txmempool.h`): by fee rate, where `TrimToSize`
begins, and by score, from which blocks are made. The products, which the code takes in `double`,
are exact here.

The score is a strict weak order. The fee rate is compared with `>=` where the rates are equal, so
that an entry comes before itself, and two entries of one rate and time come before each other.
-/

namespace Agenor

open Lib

/-! ### The comparators -/

/-- An entry with `feeDelta`, which only the score reads. -/
structure ScoredEntry extends CTxMemPoolEntry where
  feeDelta : ℤ
  deriving DecidableEq

def ScoredEntry.getModifiedFee (e : ScoredEntry) : ℤ := e.nFee + e.feeDelta

def useDescendantFeeRate (a : CTxMemPoolEntry) : Bool :=
  let f1 := a.nFee * a.nSizeWithDescendants
  let f2 := a.nFeesWithDescendants * a.nTxSize
  decide (f1 < f2)

def compareTxMemPoolEntryByFee (a b : CTxMemPoolEntry) : Bool :=
  let fUseADescendants := useDescendantFeeRate a
  let fUseBDescendants := useDescendantFeeRate b
  let aFees := if fUseADescendants then a.nFeesWithDescendants else a.nFee
  let aSize := if fUseADescendants then a.nSizeWithDescendants else a.nTxSize
  let bFees := if fUseBDescendants then b.nFeesWithDescendants else b.nFee
  let bSize := if fUseBDescendants then b.nSizeWithDescendants else b.nTxSize
  let f1 := aFees * bSize
  let f2 := aSize * bFees
  -- `a.GetTime() >= b.GetTime()`
  if f1 = f2 then decide (b.nTime ≤ a.nTime) else decide (f1 < f2)

def compareTxMemPoolEntryByScore (a b : ScoredEntry) : Bool :=
  let f1 := a.getModifiedFee * b.nTxSize
  let f2 := b.getModifiedFee * a.nTxSize
  if f1 = f2 then decide (b.tx.hash.toNat < a.tx.hash.toNat) else decide (f2 < f1)

/-! ### Their keys -/

/-- An entry whose sizes are positive. -/
structure SizedEntry extends ScoredEntry where
  nTxSize_pos : 0 < nTxSize
  nSizeWithDescendants_pos : 0 < nSizeWithDescendants

namespace SizedEntry

variable (a b : SizedEntry)

def ownRate : Rate := ⟨a.nFee, a.nTxSize, by exact_mod_cast a.nTxSize_pos⟩

def rateWithDescendants : Rate :=
  ⟨a.nFeesWithDescendants, a.nSizeWithDescendants, a.nSizeWithDescendants_pos⟩

def modifiedRate : Rate := ⟨a.getModifiedFee, a.nTxSize, by exact_mod_cast a.nTxSize_pos⟩

/-- The rate that the comparator by fee takes of an entry. -/
def feeRate : Rate := a.ownRate.best a.rateWithDescendants

lemma feeRate_amount : a.feeRate.amount =
    if useDescendantFeeRate a.toCTxMemPoolEntry then a.nFeesWithDescendants else a.nFee := by
  by_cases h : a.nFee * a.nSizeWithDescendants < a.nFeesWithDescendants * a.nTxSize
  · simp [feeRate, Rate.best, ownRate, rateWithDescendants, useDescendantFeeRate, h]
  · simp [feeRate, Rate.best, ownRate, rateWithDescendants, useDescendantFeeRate, h]

lemma feeRate_size : a.feeRate.size =
    if useDescendantFeeRate a.toCTxMemPoolEntry then a.nSizeWithDescendants else a.nTxSize := by
  by_cases h : a.nFee * a.nSizeWithDescendants < a.nFeesWithDescendants * a.nTxSize
  · simp [feeRate, Rate.best, ownRate, rateWithDescendants, useDescendantFeeRate, h]
  · simp [feeRate, Rate.best, ownRate, rateWithDescendants, useDescendantFeeRate, h]

/-- What the comparator by fee reads: the rate and, the later the less, the time. -/
def feeKey : ℚ ×ₗ ℤᵒᵈ := toLex (a.feeRate.value, OrderDual.toDual a.nTime)

/-- What the comparator by score reads: the rate and the hash, the greater the less. -/
def scoreKey : ℚᵒᵈ ×ₗ ℕᵒᵈ :=
  toLex (OrderDual.toDual a.modifiedRate.value, OrderDual.toDual a.tx.hash.toNat)

def ByFee : Prop :=
  compareTxMemPoolEntryByFee a.toCTxMemPoolEntry b.toCTxMemPoolEntry = true

/-- What the index by score asks. -/
def ByScore : Prop := compareTxMemPoolEntryByScore a.toScoredEntry b.toScoredEntry = true

/-- The two have one fee rate, and entered at one time. -/
def Tied : Prop :=
  a.feeRate.amount * b.feeRate.size = b.feeRate.amount * a.feeRate.size ∧ a.nTime = b.nTime

lemma tied_iff : a.Tied b ↔ a.feeKey = b.feeKey := by
  rw [Tied, Rate.cross_eq_iff, feeKey, feeKey, toLex_inj, Prod.mk.injEq, OrderDual.toDual_inj]

lemma byFee_iff : a.ByFee b ↔ a.feeKey ≤ b.feeKey := by
  have hcross : compareTxMemPoolEntryByFee a.toCTxMemPoolEntry b.toCTxMemPoolEntry =
      if a.feeRate.amount * b.feeRate.size = b.feeRate.amount * a.feeRate.size then
        decide (b.nTime ≤ a.nTime)
      else decide (a.feeRate.amount * b.feeRate.size < b.feeRate.amount * a.feeRate.size) := by
    rw [feeRate_amount, feeRate_amount, feeRate_size, feeRate_size, mul_comm (ite _ _ b.nFee)]
    rfl
  rw [ByFee, hcross, feeKey, feeKey, Prod.Lex.toLex_le_toLex]
  dsimp only
  rw [← Rate.cross_eq_iff, ← Rate.cross_lt_iff, OrderDual.toDual_le_toDual]
  split_ifs with h
  · simp [h]
  · simp [h]

lemma byScore_iff : a.ByScore b ↔ a.scoreKey < b.scoreKey := by
  have heq := a.modifiedRate.cross_eq_iff b.modifiedRate
  have hlt := b.modifiedRate.cross_lt_iff a.modifiedRate
  dsimp only [modifiedRate] at heq hlt
  rw [ByScore, compareTxMemPoolEntryByScore, scoreKey, scoreKey, Prod.Lex.toLex_lt_toLex]
  dsimp only
  rw [OrderDual.toDual_lt_toDual, OrderDual.toDual_lt_toDual, OrderDual.toDual_inj, modifiedRate,
    modifiedRate, ← heq, ← hlt]
  split_ifs with h
  · simp [h]
  · simp [h]

end SizedEntry

/-! ### The laws -/

open SizedEntry

/-- What the index by score needs of its comparator on some entries. -/
structure ScoreLawful (S : Set SizedEntry) : Prop where
  strictWeak : IsStrictWeakOrder S fun a b => a.1.ByScore b
  /-- `ordered_unique` holds any two transactions. -/
  separates : ∀ a ∈ S, ∀ b ∈ S, a.tx.hash ≠ b.tx.hash → a.ByScore b ∨ b.ByScore a

structure LawfulOrderings (S : Set SizedEntry) : Prop where
  byFee : IsStrictWeakOrder S fun a b => a.1.ByFee b
  byScore : ScoreLawful S

/-- The same where the comparator by fee is only asked about different entries. -/
structure LawfulBetween (S : Set SizedEntry) : Prop where
  asymm : S.Pairwise fun a b => a.ByFee b → ¬ b.ByFee a
  trans : ∀ a ∈ S, ∀ b ∈ S, ∀ c ∈ S, a.ByFee b → b.ByFee c → a.ByFee c
  incomp_trans : ∀ a ∈ S, ∀ b ∈ S, ∀ c ∈ S, ¬ a.ByFee b ∧ ¬ b.ByFee a →
    ¬ b.ByFee c ∧ ¬ c.ByFee b → ¬ a.ByFee c ∧ ¬ c.ByFee a
  byScore : ScoreLawful S

/-- The score orders any entries lawfully. -/
theorem scoreLawful (S : Set SizedEntry) : ScoreLawful S := by
  have hkey : ∀ a b : S, a.1.ByScore b ↔ a.1.scoreKey < b.1.scoreKey :=
    fun a b => byScore_iff a.1 b.1
  refine ⟨strictWeak_of_key hkey, ?_⟩
  intro a _ b _ hne
  rw [byScore_iff, byScore_iff]
  refine lt_or_gt_of_ne fun hkey => hne ?_
  rw [scoreKey, scoreKey, toLex_inj, Prod.mk.injEq, OrderDual.toDual_inj, OrderDual.toDual_inj]
    at hkey
  exact BitVec.eq_of_toNat_eq hkey.2

/-- **When the orders are lawful.** An entry comes before itself by fee, so that the order is lawful
on no entries only. Between different entries it is lawful when no two of them tie. -/
theorem lawfulOrderings_iff (S : Set SizedEntry) :
    (LawfulOrderings S ↔ S = ∅) ∧
      (LawfulBetween S ↔ ∀ a ∈ S, ∀ b ∈ S, a ≠ b → ¬ a.Tied b) := by
  constructor
  · rw [← strictWeak_iff_empty (cmp_self byFee_iff) S]
    exact ⟨fun h => h.byFee, fun h => ⟨h, scoreLawful S⟩⟩
  · have hties : (∀ a ∈ S, ∀ b ∈ S, a ≠ b → ¬ a.Tied b) ↔ S.InjOn feeKey := by
      constructor
      · intro h a ha b hb hab
        by_contra hne
        exact h a ha b hb hne ((tied_iff a b).mpr hab)
      · intro h a ha b hb hne htied
        exact hne (h ha hb ((tied_iff a b).mp htied))
    rw [hties, ← cmp_asymm_iff byFee_iff]
    refine ⟨fun h => h.asymm, fun h => ⟨h, ?_, ?_, scoreLawful S⟩⟩
    · intro a _ b _ c _
      exact cmp_trans byFee_iff
    · intro a _ b _ c _ hab
      exact absurd (cmp_total byFee_iff a b) (not_or.mpr hab)

/-! ### Two transactions of one size -/

namespace Concrete

/-- `olderTx`, with the fee and the time of `twinEntry`. -/
def olderEntry : SizedEntry := ⟨⟨entryOf olderTx, 0⟩, by decide, by decide⟩

def twinEntry : SizedEntry := ⟨⟨entryOf youngerTx, 0⟩, by decide, by decide⟩

/-- Each comes before the other, and before itself. -/
theorem not_lawfulOrderings :
    olderEntry.ByFee twinEntry ∧ twinEntry.ByFee olderEntry ∧ olderEntry.ByFee olderEntry ∧
      ¬ LawfulOrderings Set.univ := by
  have hself : olderEntry.ByFee olderEntry := by
    unfold ByFee
    decide
  refine ⟨?_, ?_, hself, ?_⟩
  · unfold ByFee
    decide
  · unfold ByFee
    decide
  · intro h
    exact h.byFee.irrefl ⟨olderEntry, Set.mem_univ _⟩ hself

end Concrete

end Agenor
