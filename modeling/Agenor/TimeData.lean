import Agenor.Lib.Median
import Agenor.Lib.Wrap
import Mathlib.Data.Finset.Insert
import Mathlib.Data.Finset.Card
import Mathlib.Tactic.IntervalCases

/-!
The offset of the clock (`timedata.cpp`, `timedata.h`).

Every peer brings one sample of the difference between its clock and ours. Each time the number of
samples is odd, and there are five of them or more, their median becomes the offset, if it is
within the limit. Its distance from zero is taken by hand, and the distance of the lowest 64-bit
number is that number again.
-/

namespace Agenor

open Lib.Wrap Lib.Median

/-! ### The filter -/

/-- `CMedianFilter<int64_t>`. -/
structure CMedianFilter where
  vValues : List ℤ
  vSorted : List ℤ
  nSize : ℕ
  deriving DecidableEq, Repr

namespace CMedianFilter

variable (f : CMedianFilter)

def create (size : ℕ) (initial_value : ℤ) : CMedianFilter where
  vValues := [initial_value]
  vSorted := [initial_value]
  nSize := size

/-- `input`: the oldest value makes room. -/
def input (value : ℤ) : CMedianFilter :=
  let vValues := (if f.vValues.length = f.nSize then f.vValues.tail else f.vValues) ++ [value]
  { f with vValues, vSorted := ordered vValues }

/-- `median`. The places that are read are there when there is a value, as the source asserts. -/
def median : ℤ :=
  let size := f.vSorted.length
  if size % 2 = 1 then f.vSorted.getD (size / 2) 0
  else (wrap 64 (f.vSorted.getD (size / 2 - 1) 0 + f.vSorted.getD (size / 2) 0)).tdiv 2

def size : ℕ := f.vValues.length

end CMedianFilter

def abs64 (n : ℤ) : ℤ := if 0 ≤ n then n else wrap 64 (-n)

/-! ### Samples -/

def BITCOIN_TIMEDATA_MAX_SAMPLES : ℕ := 200

/-- The static variables of `AddTimeData`, with the warning that it sets. -/
structure TimeData (Addr : Type) where
  nTimeOffset : ℤ
  setKnown : Finset Addr
  vTimeOffsets : CMedianFilter
  strMiscWarning : String

def strTimeWarning : String :=
  "Warning: Please check that your computer's date and time are correct! If your clock is wrong " ++
  "Agenor Core will not work properly."

namespace TimeData

variable {Addr : Type}

def initial : TimeData Addr where
  nTimeOffset := 0
  setKnown := ∅
  vTimeOffsets := .create BITCOIN_TIMEDATA_MAX_SAMPLES 0
  strMiscWarning := ""

/-- The offset and the warning that go with a median. -/
def setOffset (s : TimeData Addr) (nOffsetLimit nMedian : ℤ) : TimeData Addr :=
  if abs64 nMedian < nOffsetLimit then { s with nTimeOffset := nMedian, strMiscWarning := "" }
  else
    { s with
      nTimeOffset := (if 0 < nMedian then 1 else -1) * nOffsetLimit
      strMiscWarning := strTimeWarning }

@[simp] lemma vTimeOffsets_setOffset (s : TimeData Addr) (nOffsetLimit nMedian : ℤ) :
    (s.setOffset nOffsetLimit nMedian).vTimeOffsets = s.vTimeOffsets := by
  unfold setOffset
  split_ifs <;> rfl

lemma nTimeOffset_setOffset (s t : TimeData Addr) (nOffsetLimit nMedian : ℤ) :
    (s.setOffset nOffsetLimit nMedian).nTimeOffset =
      (t.setOffset nOffsetLimit nMedian).nTimeOffset := by
  unfold setOffset
  split_ifs <;> rfl

variable [DecidableEq Addr]

/-- A sample of this address is not ignored. -/
def counts (isRegTestNet : Bool) (s : TimeData Addr) (ip : Addr) : Bool :=
  decide (s.setKnown.card ≠ BITCOIN_TIMEDATA_MAX_SAMPLES) &&
    (isRegTestNet || decide (ip ∉ s.setKnown))

def addTimeData (isRegTestNet : Bool) (nOffsetLimit : ℤ) (s : TimeData Addr) (ip : Addr)
    (nOffsetSample : ℤ) : TimeData Addr :=
  if !s.counts isRegTestNet ip then s
  else
    let s :=
      { s with
        setKnown := if isRegTestNet then s.setKnown else insert ip s.setKnown
        vTimeOffsets := s.vTimeOffsets.input nOffsetSample }
    if 5 ≤ s.vTimeOffsets.size ∧ s.vTimeOffsets.size % 2 = 1 then
      s.setOffset nOffsetLimit s.vTimeOffsets.median
    else s

end TimeData

/-! ### What the offset is for -/

/-- The data, with the samples that have been counted, from the initial 0 on, and those that had
been when the offset was last set. -/
structure Watched (Addr : Type) where
  data : TimeData Addr
  counted : List ℤ
  atUpdate : List ℤ

namespace Watched

variable {Addr : Type}

def initial : Watched Addr := ⟨.initial, [0], []⟩

/-- The offset is kept as it should be. -/
structure InLimit (nOffsetLimit : ℤ) (w : Watched Addr) : Prop where
  bound : |w.data.nTimeOffset| ≤ nOffsetLimit
  median : w.atUpdate ≠ [] → ∃ m, IsMedian w.atUpdate m ∧
    w.data.nTimeOffset = max (-nOffsetLimit) (min m nOffsetLimit)
  inside : ∀ a b, a ≤ 0 → 0 ≤ b →
    2 * w.atUpdate.countP (fun x => !decide (a ≤ x ∧ x ≤ b)) < w.atUpdate.length →
    a ≤ w.data.nTimeOffset ∧ w.data.nTimeOffset ≤ b

/-- What the filter holds, and where the offset comes from. -/
structure Inv (nOffsetLimit : ℤ) (w : Watched Addr) : Prop where
  nSize : w.data.vTimeOffsets.nSize = BITCOIN_TIMEDATA_MAX_SAMPLES
  length : w.data.vTimeOffsets.vValues.length =
    min w.counted.length BITCOIN_TIMEDATA_MAX_SAMPLES
  values : w.counted.length ≤ BITCOIN_TIMEDATA_MAX_SAMPLES →
    w.data.vTimeOffsets.vValues = w.counted
  fits : ∀ x ∈ w.counted, -2 ^ 63 ≤ x ∧ x < 2 ^ 63
  updated : ∀ x ∈ w.atUpdate, x ∈ w.counted
  offset : w.atUpdate = [] ∧ w.data.nTimeOffset = 0 ∨
    ∃ m, IsMedian w.atUpdate m ∧
      w.data.nTimeOffset = (w.data.setOffset nOffsetLimit m).nTimeOffset

variable {isRegTestNet : Bool} {nOffsetLimit m : ℤ} {w : Watched Addr} {c : Addr × ℤ}

lemma inv_initial : Inv nOffsetLimit (initial : Watched Addr) where
  nSize := rfl
  length := rfl
  values _ := rfl
  fits x hx := by
    obtain rfl : x = 0 := by simpa [initial] using hx
    norm_num
  updated x hx := by simp [initial] at hx
  offset := .inl ⟨rfl, rfl⟩

lemma abs64_lowest : abs64 (-2 ^ 63) = -2 ^ 63 := by decide

lemma abs64_eq (hlow : -2 ^ 63 < m) (hhigh : m < 2 ^ 63) : abs64 m = |m| := by
  unfold abs64
  split_ifs with hpos
  · exact (abs_of_nonneg hpos).symm
  · rw [wrap_of_fits (by omega) (by omega), abs_of_neg (by omega)]

lemma nTimeOffset_eq_clamp (s : TimeData Addr) (hlimit : 0 < nOffsetLimit) (hlow : -2 ^ 63 < m)
    (hhigh : m < 2 ^ 63) :
    (s.setOffset nOffsetLimit m).nTimeOffset = max (-nOffsetLimit) (min m nOffsetLimit) := by
  rw [TimeData.setOffset, abs64_eq hlow hhigh]
  split_ifs with hsmall hpos
  · obtain ⟨hl, hr⟩ := abs_lt.mp hsmall
    rw [min_eq_left hr.le, max_eq_right hl.le]
  · rw [abs_of_pos hpos, not_lt] at hsmall
    rw [min_eq_right hsmall, max_eq_right (by omega), one_mul]
  · rw [abs_of_nonpos (not_lt.mp hpos), not_lt] at hsmall
    rw [min_eq_left (by omega), max_eq_left (by omega), neg_one_mul]

lemma nTimeOffset_lowest (s : TimeData Addr) (hlimit : 0 < nOffsetLimit) :
    (s.setOffset nOffsetLimit (-2 ^ 63)).nTimeOffset = -2 ^ 63 := by
  rw [TimeData.setOffset, abs64_lowest, if_pos (by omega)]

/-! ### Runs -/

variable [DecidableEq Addr]

/-- One call of `AddTimeData`. -/
def step (isRegTestNet : Bool) (nOffsetLimit : ℤ) (w : Watched Addr) (c : Addr × ℤ) :
    Watched Addr :=
  let data := w.data.addTimeData isRegTestNet nOffsetLimit c.1 c.2
  if w.data.counts isRegTestNet c.1 then
    let counted := w.counted ++ [c.2]
    let updated := 5 ≤ data.vTimeOffsets.size ∧ data.vTimeOffsets.size % 2 = 1
    ⟨data, counted, if updated then counted else w.atUpdate⟩
  else ⟨data, w.counted, w.atUpdate⟩

def run (isRegTestNet : Bool) (nOffsetLimit : ℤ) (calls : List (Addr × ℤ)) : Watched Addr :=
  calls.foldl (step isRegTestNet nOffsetLimit) initial

lemma input_eq {f : CMedianFilter} {l : List ℤ} (hsize : f.nSize = BITCOIN_TIMEDATA_MAX_SAMPLES)
    (hlen : f.vValues.length = min l.length BITCOIN_TIMEDATA_MAX_SAMPLES)
    (hval : l.length ≤ BITCOIN_TIMEDATA_MAX_SAMPLES → f.vValues = l) (x : ℤ) :
    (f.input x).vValues.length = min (l ++ [x]).length BITCOIN_TIMEDATA_MAX_SAMPLES ∧
      ((l ++ [x]).length ≤ BITCOIN_TIMEDATA_MAX_SAMPLES → (f.input x).vValues = l ++ [x]) := by
  have hmax : BITCOIN_TIMEDATA_MAX_SAMPLES = 200 := rfl
  simp only [CMedianFilter.input, hsize, List.length_append, List.length_singleton]
  split_ifs with hfull
  · rw [List.length_tail]
    exact ⟨by omega, fun hle => by omega⟩
  · refine ⟨by omega, fun hle => ?_⟩
    rw [hval (by omega)]

lemma isMedian_input {f : CMedianFilter} {x : ℤ} (hodd : (f.input x).size % 2 = 1) :
    IsMedian (f.input x).vValues (f.input x).median := by
  have hsorted : (f.input x).vSorted = ordered (f.input x).vValues := rfl
  have hlen : (f.input x).vSorted.length = (f.input x).vValues.length := by
    rw [hsorted, length_ordered]
  refine ⟨hodd, ?_⟩
  unfold CMedianFilter.size at hodd
  have hlt : (f.input x).vValues.length / 2 < (f.input x).vSorted.length := by omega
  rw [CMedianFilter.median, hlen, if_pos hodd, ← hsorted, List.getD_eq_getElem?_getD,
    List.getElem?_eq_getElem hlt, Option.getD_some]

lemma Inv.step (h : Inv nOffsetLimit w) (hfits : -2 ^ 63 ≤ c.2 ∧ c.2 < 2 ^ 63) :
    Inv nOffsetLimit (w.step isRegTestNet nOffsetLimit c) := by
  have hmax : BITCOIN_TIMEDATA_MAX_SAMPLES = 200 := rfl
  unfold Watched.step TimeData.addTimeData
  cases hcounts : w.data.counts isRegTestNet c.1 with
  | false =>
    simp only [Bool.not_false, if_true, Bool.false_eq_true, if_false]
    exact ⟨h.nSize, h.length, h.values, h.fits, h.updated, h.offset⟩
  | true =>
    obtain ⟨hlen, hval⟩ := input_eq h.nSize h.length h.values c.2
    have hall : ∀ x ∈ w.counted ++ [c.2], -2 ^ 63 ≤ x ∧ x < 2 ^ 63 := by
      intro x hx
      rcases List.mem_append.mp hx with hx | hx
      · exact h.fits x hx
      · obtain rfl := List.mem_singleton.mp hx
        exact hfits
    simp only [Bool.not_true, Bool.false_eq_true, if_false, if_true]
    by_cases hodd : 5 ≤ (w.data.vTimeOffsets.input c.2).size ∧
        (w.data.vTimeOffsets.input c.2).size % 2 = 1
    · -- an odd number of values is all that have been counted
      have hshort : (w.counted ++ [c.2]).length ≤ BITCOIN_TIMEDATA_MAX_SAMPLES := by
        have hsize := hodd.2
        unfold CMedianFilter.size at hsize
        omega
      have hmed := isMedian_input hodd.2
      rw [hval hshort] at hmed
      simp only [hodd, and_self, if_true, TimeData.vTimeOffsets_setOffset]
      refine ⟨?_, ?_, ?_, hall, fun x hx => hx, .inr ⟨_, hmed, ?_⟩⟩
      · rw [TimeData.vTimeOffsets_setOffset]
        exact h.nSize
      · rw [TimeData.vTimeOffsets_setOffset]
        exact hlen
      · rw [TimeData.vTimeOffsets_setOffset]
        exact hval
      · exact TimeData.nTimeOffset_setOffset _ _ _ _
    · simp only [hodd, if_false]
      refine ⟨h.nSize, hlen, hval, hall, fun x hx => List.mem_append_left _ (h.updated x hx), ?_⟩
      exact h.offset.imp_right fun ⟨m, hm, hoff⟩ =>
        ⟨m, hm, hoff.trans (TimeData.nTimeOffset_setOffset _ _ _ _)⟩

lemma inv_run {calls : List (Addr × ℤ)} (hfits : ∀ c ∈ calls, -2 ^ 63 ≤ c.2 ∧ c.2 < 2 ^ 63) :
    Inv nOffsetLimit (run isRegTestNet nOffsetLimit calls) := by
  induction calls using List.reverseRecOn with
  | nil => exact inv_initial
  | append_singleton calls c ih =>
    rw [run, List.foldl_append]
    exact (ih fun c hc => hfits c (List.mem_append_left _ hc)).step (hfits c (by simp))

/-! ### The limit -/

lemma isLowest_iff {l : List ℤ} (hm : IsMedian l m) (hl : ∀ x ∈ l, -2 ^ 63 ≤ x) :
    m ≤ -2 ^ 63 ↔ l.length < 2 * l.count (-2 ^ 63) := by
  rw [hm.le_iff, List.count]
  have hsame : l.countP (fun x => decide (x ≤ -2 ^ 63)) = l.countP (· == -2 ^ 63) := by
    refine List.countP_congr fun x hx => ?_
    have := hl x hx
    simp only [decide_eq_true_eq, beq_iff_eq]
    omega
  rw [hsame]

/-- **The clock is shifted within the limit**, to the clamped median and with the majority of the
values, as long as the values that the offset was last taken from are not mostly the lowest
number there is. -/
theorem inLimit_iff (hlimit : 0 < nOffsetLimit) (hint : nOffsetLimit < 2 ^ 31)
    {calls : List (Addr × ℤ)} (hfits : ∀ c ∈ calls, -2 ^ 63 ≤ c.2 ∧ c.2 < 2 ^ 63) :
    InLimit nOffsetLimit (run isRegTestNet nOffsetLimit calls) ↔
      2 * (run isRegTestNet nOffsetLimit calls).atUpdate.count (-2 ^ 63) ≤
        (run isRegTestNet nOffsetLimit calls).atUpdate.length := by
  have hinv : Inv nOffsetLimit (run isRegTestNet nOffsetLimit calls) := inv_run hfits
  generalize run isRegTestNet nOffsetLimit calls = w at hinv
  rcases hinv.offset with ⟨hnone, hzero⟩ | ⟨m, hm, hoff⟩
  · rw [hnone]
    refine iff_of_true ⟨?_, fun hne => absurd hnone hne, fun a b ha hb _ => ?_⟩ le_rfl
    · rw [hzero, abs_zero]
      exact hlimit.le
    · rw [hzero]
      exact ⟨ha, hb⟩
  · have hmem : m ∈ w.atUpdate := (perm_ordered _).mem_iff.mp (List.mem_of_getElem? hm.2)
    obtain ⟨hlow, hhigh⟩ := hinv.fits m (hinv.updated m hmem)
    rw [← not_lt, ← isLowest_iff hm fun x hx => (hinv.fits x (hinv.updated x hx)).1]
    constructor
    · intro h hle
      obtain rfl : m = -2 ^ 63 := le_antisymm hle hlow
      have hbound := h.bound
      rw [hoff, nTimeOffset_lowest _ hlimit] at hbound
      norm_num at hbound
      omega
    · intro hne
      rw [nTimeOffset_eq_clamp _ hlimit (not_le.mp hne) hhigh] at hoff
      refine ⟨?_, fun _ => ⟨m, hm, hoff⟩, fun a b ha hb hout => ?_⟩
      · rw [hoff, abs_le]
        omega
      · obtain ⟨hma, hmb⟩ := hm.mem_of_minority hout
        rw [hoff]
        omega

/-- Five counted values, three of them the lowest number. -/
theorem not_inLimit_lowest : ¬ InLimit 15
    (run false 15 [(1, -2 ^ 63), (2, 0), (3, -2 ^ 63), (4, -2 ^ 63)] : Watched ℕ) := by
  intro h
  have hbound := h.bound
  rw [show (run false 15 [(1, -2 ^ 63), (2, 0), (3, -2 ^ 63), (4, -2 ^ 63)] :
    Watched ℕ).data.nTimeOffset = -2 ^ 63 by decide] at hbound
  norm_num at hbound

/-- Of the same five values two may be the lowest number. -/
theorem inLimit_minority : InLimit 15
    (run false 15 [(1, -2 ^ 63), (2, 0), (3, 20), (4, -2 ^ 63)] : Watched ℕ) :=
  (inLimit_iff (by decide) (by decide) (by decide)).mpr (by decide)

end Watched

end Agenor
