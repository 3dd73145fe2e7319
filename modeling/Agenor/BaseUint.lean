import Agenor.Lib.Limbs
import Agenor.Transaction
import Mathlib.Data.Nat.Size

/-!
Unsigned numbers of fixed width (`base_uint` of `arith_uint256.h` and `arith_uint256.cpp`).

A number is an array of 32-bit words. Every operation is a loop over the words; here each is shown
to compute what it is named after, modulo the width.
-/

namespace Agenor

open Lib

/-- `base_uint<BITS>`, which has `BITS / 32` words. -/
structure BaseUint (WIDTH : ℕ) where
  pn : List (BitVec 32)
  length_pn : pn.length = WIDTH
  deriving DecidableEq

namespace BaseUint

variable {WIDTH : ℕ} (a b : BaseUint WIDTH)

/-- The number that is stood for. -/
def value : ℕ := Limbs.value a.pn

/-! ### The operations -/

/-- `base_uint()`. -/
def zero (WIDTH : ℕ) : BaseUint WIDTH := ⟨List.replicate WIDTH 0, List.length_replicate⟩

/-- `base_uint(uint64_t b)`. -/
def ofUint64 (WIDTH : ℕ) (b : BitVec 64) : BaseUint WIDTH :=
  ⟨((List.replicate WIDTH 0).set 0 (b.setWidth 32)).set 1 ((b >>> 32).setWidth 32), by simp⟩

/-- `operator~`. -/
def compl : BaseUint WIDTH := ⟨a.pn.map (~~~ ·), by rw [List.length_map, a.length_pn]⟩

/-- The loop of `operator++`. -/
def incLoop : List (BitVec 32) → List (BitVec 32)
  | [] => []
  | x :: xs => if x + 1 = 0 then (x + 1) :: incLoop xs else (x + 1) :: xs

lemma length_incLoop (xs : List (BitVec 32)) : (incLoop xs).length = xs.length := by
  induction xs with
  | nil => rfl
  | cons x xs ih =>
    unfold incLoop
    split_ifs
    · rw [List.length_cons, ih, List.length_cons]
    · rw [List.length_cons, List.length_cons]

/-- `operator++`. -/
def inc : BaseUint WIDTH := ⟨incLoop a.pn, by rw [length_incLoop, a.length_pn]⟩

/-- `operator-`. -/
def neg : BaseUint WIDTH := a.compl.inc

/-- `operator+=`. -/
def add : BaseUint WIDTH :=
  ⟨Limbs.carryLoop 32 (0 : BitVec 64)
    (List.zipWith (fun x y => x.setWidth 64 + y.setWidth 64) a.pn b.pn), by
    rw [Limbs.length_carryLoop, List.length_zipWith, a.length_pn, b.length_pn, min_self]⟩

/-- `operator-=`. -/
def sub : BaseUint WIDTH := a.add b.neg

/-- `operator*=(uint32_t b32)`. -/
def mulUint32 (b32 : BitVec 32) : BaseUint WIDTH :=
  ⟨Limbs.carryLoop 32 (0 : BitVec 64)
    (a.pn.map fun x => b32.setWidth 64 * x.setWidth 64), by
    rw [Limbs.length_carryLoop, List.length_map, a.length_pn]⟩

/-- What `operator<<=` writes, word by word of the number that is shifted. -/
def shlWrites (shift : ℕ) : List (ℕ × BitVec 32) :=
  let k := shift / 32
  let shift := shift % 32
  (List.range WIDTH).flatMap fun i =>
    (if i + k + 1 < WIDTH ∧ shift ≠ 0 then [(i + k + 1, a.pn.getD i 0 >>> (32 - shift))] else []) ++
    (if i + k < WIDTH then [(i + k, a.pn.getD i 0 <<< shift)] else [])

/-- `operator<<=`. -/
def shl (shift : ℕ) : BaseUint WIDTH :=
  ⟨Limbs.scatter (zero WIDTH).pn (a.shlWrites shift), by
    rw [Limbs.length_scatter, (zero WIDTH).length_pn]⟩

/-- What `operator>>=` writes. -/
def shrWrites (shift : ℕ) : List (ℕ × BitVec 32) :=
  let k := shift / 32
  let shift := shift % 32
  (List.range WIDTH).flatMap fun i =>
    (if k + 1 ≤ i ∧ shift ≠ 0 then [(i - k - 1, a.pn.getD i 0 <<< (32 - shift))] else []) ++
    (if k ≤ i then [(i - k, a.pn.getD i 0 >>> shift)] else [])

/-- `operator>>=`. -/
def shr (shift : ℕ) : BaseUint WIDTH :=
  ⟨Limbs.scatter (zero WIDTH).pn (a.shrWrites shift), by
    rw [Limbs.length_scatter, (zero WIDTH).length_pn]⟩

/-- The loop of `CompareTo`, which goes from the last word to the first. -/
def compareLoop : List (BitVec 32) → List (BitVec 32) → ℤ
  | x :: xs, y :: ys =>
    let above := compareLoop xs ys
    if above ≠ 0 then above else if x < y then -1 else if y < x then 1 else 0
  | _, _ => 0

def compareTo : ℤ := compareLoop a.pn b.pn

/-- The loop of `bits` inside a word that is not zero. -/
def scanWord (x : BitVec 32) : ℕ → ℕ
  | 0 => 1
  | bits + 1 => if x &&& (1 : BitVec 32) <<< (bits + 1) ≠ 0 then bits + 2 else scanWord x bits

/-- The loop of `bits` over the words, from the last to the first; `none` when all are zero. -/
def bitsLoop (pos : ℕ) : List (BitVec 32) → Option ℕ
  | [] => none
  | x :: xs =>
    match bitsLoop (pos + 1) xs with
    | some bits => some bits
    | none => if x ≠ 0 then some (32 * pos + scanWord x 31) else none

/-- `bits`: the position of the highest bit set plus one. -/
def bits : ℕ := (bitsLoop 0 a.pn).getD 0

def isNull : Bool := a.pn.all (· == 0)

def getLow64 : BitVec 64 :=
  (a.pn.getD 0 0).setWidth 64 ||| (a.pn.getD 1 0).setWidth 64 <<< 32

/-- `pn[shift / 32] |= (1 << (shift & 31))`. -/
def setBit (shift : ℕ) : BaseUint WIDTH :=
  ⟨Limbs.scatter a.pn [(shift / 32, (1 : BitVec 32) <<< (shift % 32))], by
    rw [Limbs.length_scatter, a.length_pn]⟩

/-- The loop of `operator/=`; it is given `shift + 1` passes. -/
def divLoop : ℕ → BaseUint WIDTH → BaseUint WIDTH → BaseUint WIDTH → BaseUint WIDTH
  | 0, _, _, quotient => quotient
  | shift + 1, num, div, quotient =>
    if 0 ≤ num.compareTo div then
      divLoop shift (num.sub div) (div.shr 1) (quotient.setBit shift)
    else divLoop shift num (div.shr 1) quotient

/-- `operator/=`; `none` when it throws, which it does on a division by zero. -/
def div : Option (BaseUint WIDTH) :=
  if b.bits = 0 then none
  else if a.bits < b.bits then some (zero WIDTH)
  else
    let shift := a.bits - b.bits
    some (divLoop (shift + 1) a (b.shl shift) (zero WIDTH))

/-! ### What they compute -/

variable {a b}

lemma value_lt (a : BaseUint WIDTH) : a.value < 2 ^ (32 * WIDTH) := by
  have h := Limbs.value_lt a.pn
  rwa [a.length_pn] at h

lemma eq_of_value (h : a.value = b.value) : a = b := by
  obtain ⟨pn, hlen⟩ := a
  obtain ⟨pn', hlen'⟩ := b
  obtain rfl : pn = pn' := Limbs.value_injective (hlen.trans hlen'.symm) h
  rfl

@[simp] lemma value_zero : (zero WIDTH).value = 0 := Limbs.value_replicate_zero WIDTH

lemma value_ofUint64 (n : ℕ) (x : BitVec 64) : (ofUint64 (n + 2) x).value = x.toNat := by
  have hx := x.isLt
  have hlow : (x.setWidth 32).toNat = x.toNat % 2 ^ 32 := BitVec.toNat_setWidth ..
  have hhigh : ((x >>> 32).setWidth 32).toNat = x.toNat / 2 ^ 32 := by
    rw [BitVec.toNat_setWidth, BitVec.toNat_ushiftRight, Nat.shiftRight_eq_div_pow]
    omega
  change Limbs.value (x.setWidth 32 :: (x >>> 32).setWidth 32 :: List.replicate n 0) = _
  rw [Limbs.value_cons, Limbs.value_cons, Limbs.value_replicate_zero, hlow, hhigh]
  omega

lemma value_compl (a : BaseUint WIDTH) : a.compl.value = 2 ^ (32 * WIDTH) - 1 - a.value := by
  have h := Limbs.value_complement a.pn
  rw [a.length_pn] at h
  have hcompl : a.compl.value = Limbs.value (a.pn.map (~~~ ·)) := rfl
  have hvalue : a.value = Limbs.value a.pn := rfl
  omega

lemma toNat_zero_word : (0 : BitVec 32).toNat = 0 := rfl

lemma toNat_zero_carry : (0 : BitVec 64).toNat = 0 := rfl

lemma value_incLoop (xs : List (BitVec 32)) :
    Limbs.value (incLoop xs) = (Limbs.value xs + 1) % 2 ^ (32 * xs.length) := by
  induction xs with
  | nil => rfl
  | cons x xs ih =>
    have hx := x.isLt
    have hsum := Limbs.value_lt (x :: xs)
    rw [List.length_cons] at hsum ⊢
    have hone : (x + 1).toNat = (x.toNat + 1) % 2 ^ 32 := by
      rw [BitVec.toNat_add]
      rfl
    unfold incLoop
    by_cases hwrap : x + 1 = 0
    · -- the word wraps, and the next one is increased
      have hmax : x.toNat + 1 = 2 ^ 32 := by
        rw [hwrap, toNat_zero_word] at hone
        omega
      rw [if_pos hwrap, Limbs.value_cons, Limbs.value_cons, ih, hwrap, Limbs.two_pow_mul_succ,
        toNat_zero_word, Nat.zero_add, ← Nat.mul_mod_mul_left]
      congr 1
      omega
    · have hlt : x.toNat + 1 < 2 ^ 32 := by
        by_contra hmax
        refine hwrap (BitVec.eq_of_toNat_eq ?_)
        rw [hone, toNat_zero_word]
        omega
      rw [if_neg hwrap, Limbs.value_cons, hone, Nat.mod_eq_of_lt hlt]
      have hnext := Limbs.value_lt (BitVec.ofNat 32 (x.toNat + 1) :: xs)
      rw [Limbs.value_cons, BitVec.toNat_ofNat, Nat.mod_eq_of_lt hlt, List.length_cons] at hnext
      rw [Limbs.value_cons, Nat.mod_eq_of_lt (by omega)]
      omega

lemma value_inc (a : BaseUint WIDTH) : a.inc.value = (a.value + 1) % 2 ^ (32 * WIDTH) := by
  have h := value_incLoop a.pn
  rwa [a.length_pn] at h

lemma value_neg (a : BaseUint WIDTH) :
    a.neg.value = (2 ^ (32 * WIDTH) - a.value) % 2 ^ (32 * WIDTH) := by
  have hlt := a.value_lt
  rw [neg, value_inc, value_compl]
  congr 1
  omega

lemma toNat_add_words (x y : BitVec 32) :
    (x.setWidth 64 + y.setWidth 64 : BitVec 64).toNat = x.toNat + y.toNat := by
  have hx := x.isLt
  have hy := y.isLt
  rw [BitVec.toNat_add, BitVec.toNat_setWidth, BitVec.toNat_setWidth]
  omega

lemma toNat_mul_words (x y : BitVec 32) :
    (x.setWidth 64 * y.setWidth 64 : BitVec 64).toNat = x.toNat * y.toNat ∧
      x.toNat * y.toNat + 2 ^ 32 + 2 ^ 32 ≤ 2 ^ 64 + 1 := by
  have hx := x.isLt
  have hy := y.isLt
  have hmul : x.toNat * y.toNat ≤ (2 ^ 32 - 1) * (2 ^ 32 - 1) :=
    Nat.mul_le_mul (by omega) (by omega)
  refine ⟨?_, by omega⟩
  rw [BitVec.toNat_mul, BitVec.toNat_setWidth, BitVec.toNat_setWidth,
    Nat.mod_eq_of_lt (by omega : x.toNat < 2 ^ 64), Nat.mod_eq_of_lt (by omega : y.toNat < 2 ^ 64)]
  omega

lemma weigh_zipWith_add {xs ys : List (BitVec 32)} (hlen : xs.length = ys.length) :
    Limbs.weigh 32 (List.zipWith (fun x y => (x.setWidth 64 + y.setWidth 64 : BitVec 64)) xs ys) =
      Limbs.value xs + Limbs.value ys := by
  induction xs generalizing ys with
  | nil =>
    obtain rfl := List.length_eq_zero_iff.mp hlen.symm
    rfl
  | cons x xs ih =>
    cases ys with
    | nil => exact absurd hlen (by simp)
    | cons y ys =>
      rw [List.zipWith_cons_cons, Limbs.weigh, ih (by simpa using hlen), toNat_add_words,
        Limbs.value_cons, Limbs.value_cons]
      omega

lemma value_add (a b : BaseUint WIDTH) :
    (a.add b).value = (a.value + b.value) % 2 ^ (32 * WIDTH) := by
  have hlen : a.pn.length = b.pn.length := a.length_pn.trans b.length_pn.symm
  refine (Limbs.value_carryLoop (w := 32) (0 : BitVec 64)
    (List.zipWith (fun x y => x.setWidth 64 + y.setWidth 64) a.pn b.pn) (by decide) ?_).trans ?_
  · intro t ht
    rw [← List.map_uncurry_zip_eq_zipWith, List.mem_map] at ht
    obtain ⟨⟨x, y⟩, -, rfl⟩ := ht
    have hx := x.isLt
    have hy := y.isLt
    have hsum := toNat_add_words x y
    change (x.setWidth 64 + y.setWidth 64 : BitVec 64).toNat + 2 ^ 32 ≤ 2 ^ 64
    omega
  · rw [weigh_zipWith_add hlen, List.length_zipWith, a.length_pn, b.length_pn, min_self,
      toNat_zero_carry, Nat.zero_add]
    rfl

lemma value_sub (a b : BaseUint WIDTH) :
    (a.sub b).value = (a.value + (2 ^ (32 * WIDTH) - b.value)) % 2 ^ (32 * WIDTH) := by
  rw [sub, value_add, value_neg, Nat.add_mod_mod]

lemma value_sub_of_le (h : b.value ≤ a.value) : (a.sub b).value = a.value - b.value := by
  have ha := a.value_lt
  have hb := b.value_lt
  have hsum : a.value + (2 ^ (32 * WIDTH) - b.value) =
      a.value - b.value + 2 ^ (32 * WIDTH) := by omega
  rw [value_sub, hsum, Nat.add_mod_right, Nat.mod_eq_of_lt (by omega)]

lemma weigh_map_mul (y : BitVec 32) (xs : List (BitVec 32)) :
    Limbs.weigh 32 (xs.map fun x => (y.setWidth 64 * x.setWidth 64 : BitVec 64)) =
      Limbs.value xs * y.toNat := by
  induction xs with
  | nil => simp [Limbs.weigh]
  | cons x xs ih =>
    rw [List.map_cons, Limbs.weigh, ih, (toNat_mul_words y x).1, Limbs.value_cons]
    ring

lemma value_mulUint32 (a : BaseUint WIDTH) (b32 : BitVec 32) :
    (a.mulUint32 b32).value = a.value * b32.toNat % 2 ^ (32 * WIDTH) := by
  refine (Limbs.value_carryLoop (w := 32) (0 : BitVec 64)
    (a.pn.map fun x => b32.setWidth 64 * x.setWidth 64) (by decide) ?_).trans ?_
  · intro t ht
    obtain ⟨x, -, rfl⟩ := List.mem_map.mp ht
    have hmul := toNat_mul_words b32 x
    change (b32.setWidth 64 * x.setWidth 64 : BitVec 64).toNat + 2 ^ 32 ≤ 2 ^ 64
    omega
  · rw [weigh_map_mul, List.length_map, a.length_pn, toNat_zero_carry, Nat.zero_add]
    rfl

/-! ### Shifts -/

lemma testBit_value (a : BaseUint WIDTH) (i : ℕ) {p : ℕ} (hp : p < 32) :
    a.value.testBit (32 * i + p) = (a.pn.getD i 0).getLsbD p :=
  Limbs.testBit_value a.pn i hp

lemma getD_of_le (a : BaseUint WIDTH) {i : ℕ} (h : WIDTH ≤ i) : a.pn.getD i 0 = 0 :=
  List.getD_eq_default _ _ (by rwa [a.length_pn])

lemma getLsbD_scatter_zero (writes : List (ℕ × BitVec 32)) {i : ℕ} (p : ℕ) (hi : i < WIDTH) :
    ((Limbs.scatter (zero WIDTH).pn writes).getD i 0).getLsbD p = true ↔
      ∃ x, (i, x) ∈ writes ∧ x.getLsbD p = true := by
  have hzero : (zero WIDTH).pn.getD i 0 = 0 := by simp [zero, hi]
  rw [Limbs.getLsbD_scatter _ _ _ (by rwa [(zero WIDTH).length_pn]), hzero]
  simp

lemma mem_shlWrites {a : BaseUint WIDTH} {shift j : ℕ} {x : BitVec 32} (hj : j < WIDTH) :
    (j, x) ∈ a.shlWrites shift ↔
      (shift / 32 + 1 ≤ j ∧ shift % 32 ≠ 0 ∧
        x = a.pn.getD (j - shift / 32 - 1) 0 >>> (32 - shift % 32)) ∨
      (shift / 32 ≤ j ∧ x = a.pn.getD (j - shift / 32) 0 <<< (shift % 32)) := by
  unfold shlWrites
  simp only [List.mem_flatMap, List.mem_range, List.mem_append]
  constructor
  · rintro ⟨i, hi, h | h⟩
    · split_ifs at h with hc
      · obtain ⟨rfl, rfl⟩ := Prod.mk.inj (List.mem_singleton.mp h)
        refine .inl ⟨by omega, hc.2, ?_⟩
        congr 2
        omega
      · exact absurd h (by simp)
    · split_ifs at h with hc
      · obtain ⟨rfl, rfl⟩ := Prod.mk.inj (List.mem_singleton.mp h)
        refine .inr ⟨by omega, ?_⟩
        congr 2
        omega
      · exact absurd h (by simp)
  · rintro (⟨hk, hs, rfl⟩ | ⟨hk, rfl⟩)
    · refine ⟨j - shift / 32 - 1, by omega, .inl ?_⟩
      rw [if_pos ⟨by omega, hs⟩, List.mem_singleton, Prod.mk.injEq]
      exact ⟨by omega, rfl⟩
    · refine ⟨j - shift / 32, by omega, .inr ?_⟩
      rw [if_pos (by omega), List.mem_singleton, Prod.mk.injEq]
      exact ⟨by omega, rfl⟩

lemma testBit_shl {a : BaseUint WIDTH} {shift i p : ℕ} (hi : i < WIDTH) (hp : p < 32) :
    (a.shl shift).value.testBit (32 * i + p) =
      (decide (shift ≤ 32 * i + p) && a.value.testBit (32 * i + p - shift)) := by
  rw [testBit_value _ _ hp, Bool.eq_iff_iff, Bool.and_eq_true, decide_eq_true_iff]
  refine (getLsbD_scatter_zero (a.shlWrites shift) p hi).trans ?_
  have hsplit := Nat.div_add_mod shift 32
  have hmod := Nat.mod_lt shift (show 0 < 32 by decide)
  by_cases hlow : shift % 32 ≤ p
  · -- the bit comes from the word `shift / 32` places below
    constructor
    · rintro ⟨x, hx, hbit⟩
      rcases (mem_shlWrites hi).mp hx with ⟨hk, hs, rfl⟩ | ⟨hk, rfl⟩
      · rw [BitVec.getLsbD_ushiftRight, BitVec.getLsbD_of_ge _ _ (by omega)] at hbit
        exact absurd hbit (by decide)
      · have hplace : 32 * i + p - shift = 32 * (i - shift / 32) + (p - shift % 32) := by omega
        rw [BitVec.getLsbD_shiftLeft, Bool.and_eq_true] at hbit
        rw [hplace, testBit_value _ _ (by omega)]
        exact ⟨by omega, hbit.2⟩
    · rintro ⟨hle, hbit⟩
      have hk : shift / 32 ≤ i := by omega
      have hplace : 32 * i + p - shift = 32 * (i - shift / 32) + (p - shift % 32) := by omega
      rw [hplace, testBit_value _ _ (by omega)] at hbit
      refine ⟨_, (mem_shlWrites hi).mpr (.inr ⟨hk, rfl⟩), ?_⟩
      rw [BitVec.getLsbD_shiftLeft, hbit, decide_eq_true hp]
      simpa using hlow
  · -- it comes from the word below that
    have hne : shift % 32 ≠ 0 := by omega
    constructor
    · rintro ⟨x, hx, hbit⟩
      rcases (mem_shlWrites hi).mp hx with ⟨hk, hs, rfl⟩ | ⟨hk, rfl⟩
      · have hplace : 32 * i + p - shift =
            32 * (i - shift / 32 - 1) + (32 - shift % 32 + p) := by omega
        rw [BitVec.getLsbD_ushiftRight] at hbit
        rw [hplace, testBit_value _ _ (by omega)]
        exact ⟨by omega, hbit⟩
      · rw [BitVec.getLsbD_shiftLeft, decide_eq_true (by omega : p < shift % 32)] at hbit
        exact absurd hbit (by simp)
    · rintro ⟨hle, hbit⟩
      have hk : shift / 32 + 1 ≤ i := by omega
      have hplace : 32 * i + p - shift =
          32 * (i - shift / 32 - 1) + (32 - shift % 32 + p) := by omega
      rw [hplace, testBit_value _ _ (by omega)] at hbit
      refine ⟨_, (mem_shlWrites hi).mpr (.inl ⟨hk, hne, rfl⟩), ?_⟩
      rw [BitVec.getLsbD_ushiftRight]
      exact hbit

lemma value_shl (a : BaseUint WIDTH) (shift : ℕ) :
    (a.shl shift).value = a.value * 2 ^ shift % 2 ^ (32 * WIDTH) := by
  refine Limbs.eq_of_bits (show 0 < 32 by decide) (value_lt _)
    (Nat.mod_lt _ (Nat.two_pow_pos _)) fun i p hi hp => ?_
  have hin : 32 * i + p < 32 * WIDTH := by omega
  rw [testBit_shl hi hp, Nat.testBit_mod_two_pow, decide_eq_true hin, Bool.true_and,
    Nat.testBit_mul_two_pow]

lemma value_shl_of_lt {a : BaseUint WIDTH} {shift : ℕ}
    (h : a.value * 2 ^ shift < 2 ^ (32 * WIDTH)) : (a.shl shift).value = a.value * 2 ^ shift := by
  rw [value_shl, Nat.mod_eq_of_lt h]

lemma mem_shrWrites {a : BaseUint WIDTH} {shift j : ℕ} {x : BitVec 32} :
    (j, x) ∈ a.shrWrites shift ↔
      (j + shift / 32 + 1 < WIDTH ∧ shift % 32 ≠ 0 ∧
        x = a.pn.getD (j + shift / 32 + 1) 0 <<< (32 - shift % 32)) ∨
      (j + shift / 32 < WIDTH ∧ x = a.pn.getD (j + shift / 32) 0 >>> (shift % 32)) := by
  unfold shrWrites
  simp only [List.mem_flatMap, List.mem_range, List.mem_append]
  constructor
  · rintro ⟨i, hi, h | h⟩
    · split_ifs at h with hc
      · obtain ⟨rfl, rfl⟩ := Prod.mk.inj (List.mem_singleton.mp h)
        have hplace : i - shift / 32 - 1 + shift / 32 + 1 = i := by omega
        rw [hplace]
        exact .inl ⟨hi, hc.2, rfl⟩
      · exact absurd h (by simp)
    · split_ifs at h with hc
      · obtain ⟨rfl, rfl⟩ := Prod.mk.inj (List.mem_singleton.mp h)
        have hplace : i - shift / 32 + shift / 32 = i := by omega
        rw [hplace]
        exact .inr ⟨hi, rfl⟩
      · exact absurd h (by simp)
  · rintro (⟨hk, hs, rfl⟩ | ⟨hk, rfl⟩)
    · refine ⟨j + shift / 32 + 1, hk, .inl ?_⟩
      rw [if_pos ⟨by omega, hs⟩, List.mem_singleton, Prod.mk.injEq]
      exact ⟨by omega, rfl⟩
    · refine ⟨j + shift / 32, hk, .inr ?_⟩
      rw [if_pos (by omega), List.mem_singleton, Prod.mk.injEq]
      exact ⟨by omega, rfl⟩

lemma testBit_shr {a : BaseUint WIDTH} {shift i p : ℕ} (hi : i < WIDTH) (hp : p < 32) :
    (a.shr shift).value.testBit (32 * i + p) = a.value.testBit (32 * i + p + shift) := by
  rw [testBit_value _ _ hp, Bool.eq_iff_iff]
  refine (getLsbD_scatter_zero (a.shrWrites shift) p hi).trans ?_
  have hsplit := Nat.div_add_mod shift 32
  have hmod := Nat.mod_lt shift (show 0 < 32 by decide)
  by_cases hlow : p + shift % 32 < 32
  · have hplace : 32 * i + p + shift = 32 * (i + shift / 32) + (p + shift % 32) := by omega
    rw [hplace, testBit_value _ _ hlow]
    constructor
    · rintro ⟨x, hx, hbit⟩
      rcases mem_shrWrites.mp hx with ⟨hk, hs, rfl⟩ | ⟨hk, rfl⟩
      · rw [BitVec.getLsbD_shiftLeft, decide_eq_true (by omega : p < 32 - shift % 32)] at hbit
        exact absurd hbit (by simp)
      · rwa [BitVec.getLsbD_ushiftRight, Nat.add_comm _ p] at hbit
    · intro hbit
      by_cases hk : i + shift / 32 < WIDTH
      · refine ⟨_, mem_shrWrites.mpr (.inr ⟨hk, rfl⟩), ?_⟩
        rwa [BitVec.getLsbD_ushiftRight, Nat.add_comm _ p]
      · rw [a.getD_of_le (by omega)] at hbit
        exact absurd hbit (by simp)
  · -- the shift is past the end of the word
    have hplace : 32 * i + p + shift = 32 * (i + shift / 32 + 1) + (p - (32 - shift % 32)) := by
      omega
    rw [hplace, testBit_value _ _ (by omega)]
    constructor
    · rintro ⟨x, hx, hbit⟩
      rcases mem_shrWrites.mp hx with ⟨hk, hs, rfl⟩ | ⟨hk, rfl⟩
      · rw [BitVec.getLsbD_shiftLeft, Bool.and_eq_true] at hbit
        exact hbit.2
      · rw [BitVec.getLsbD_ushiftRight, BitVec.getLsbD_of_ge _ _ (by omega)] at hbit
        exact absurd hbit (by decide)
    · intro hbit
      by_cases hk : i + shift / 32 + 1 < WIDTH
      · refine ⟨_, mem_shrWrites.mpr (.inl ⟨hk, by omega, rfl⟩), ?_⟩
        rw [BitVec.getLsbD_shiftLeft, hbit, decide_eq_true hp]
        simp only [Bool.true_and, Bool.and_true, Bool.not_eq_true', decide_eq_false_iff_not]
        omega
      · rw [a.getD_of_le (by omega)] at hbit
        exact absurd hbit (by simp)

lemma value_shr (a : BaseUint WIDTH) (shift : ℕ) : (a.shr shift).value = a.value / 2 ^ shift := by
  refine Limbs.eq_of_bits (show 0 < 32 by decide) (value_lt _)
    ((Nat.div_le_self _ _).trans_lt a.value_lt) fun i p hi hp => ?_
  rw [testBit_shr hi hp, Nat.testBit_div_two_pow]

/-! ### Comparison and size -/

lemma compareLoop_spec {xs ys : List (BitVec 32)} (hlen : xs.length = ys.length) :
    (compareLoop xs ys < 0 ↔ Limbs.value xs < Limbs.value ys) ∧
      (0 < compareLoop xs ys ↔ Limbs.value ys < Limbs.value xs) := by
  induction xs generalizing ys with
  | nil =>
    obtain rfl := List.length_eq_zero_iff.mp hlen.symm
    simp [compareLoop]
  | cons x xs ih =>
    cases ys with
    | nil => exact absurd hlen (by simp)
    | cons y ys =>
      obtain ⟨hlt, hgt⟩ := ih (show xs.length = ys.length by simpa using hlen)
      rw [Limbs.value_lt_iff, Limbs.value_lt_iff, ← BitVec.lt_def, ← BitVec.lt_def]
      unfold compareLoop
      dsimp only
      by_cases habove : compareLoop xs ys = 0
      · -- the words above agree
        have heq : Limbs.value xs = Limbs.value ys := by omega
        rw [if_neg (not_not.mpr habove), heq]
        have hasymm : x < y → ¬ y < x := fun h => BitVec.not_lt.mpr (BitVec.le_of_lt h)
        split_ifs with hxy hyx
        · simp [hxy, hasymm hxy]
        · simp [hyx, hxy]
        · simp [hyx, hxy]
      · rw [if_pos habove]
        have hne : Limbs.value xs ≠ Limbs.value ys := by omega
        simp only [hne, hne.symm, false_and, or_false]
        exact ⟨hlt, hgt⟩

lemma compareTo_neg_iff : a.compareTo b < 0 ↔ a.value < b.value :=
  (compareLoop_spec (a.length_pn.trans b.length_pn.symm)).1

lemma compareTo_pos_iff : 0 < a.compareTo b ↔ b.value < a.value :=
  (compareLoop_spec (a.length_pn.trans b.length_pn.symm)).2

lemma compareTo_nonneg_iff : 0 ≤ a.compareTo b ↔ b.value ≤ a.value := by
  have h := compareTo_neg_iff (a := a) (b := b)
  omega

lemma compareTo_nonpos_iff : a.compareTo b ≤ 0 ↔ a.value ≤ b.value := by
  have h := compareTo_pos_iff (a := a) (b := b)
  omega

lemma size_eq {n k : ℕ} (hle : 2 ^ k ≤ n) (hlt : n < 2 ^ (k + 1)) : n.size = k + 1 :=
  Nat.le_antisymm (Nat.size_le.mpr hlt) (Nat.lt_size.mpr hle)

lemma toNat_one_shiftLeft {k : ℕ} (hk : k < 32) : ((1 : BitVec 32) <<< k).toNat = 2 ^ k := by
  have hone : (1 : BitVec 32).toNat = 1 := rfl
  have hpow : 2 ^ k < 2 ^ 32 := Nat.pow_lt_pow_right (by decide) hk
  rw [BitVec.toNat_shiftLeft, Nat.shiftLeft_eq, hone, Nat.one_mul, Nat.mod_eq_of_lt hpow]

lemma and_one_shiftLeft_ne_zero (x : BitVec 32) {k : ℕ} (hk : k < 32) :
    x &&& (1 : BitVec 32) <<< k ≠ 0 ↔ x.toNat.testBit k = true := by
  have hand : (x &&& (1 : BitVec 32) <<< k).toNat = (x.toNat.testBit k).toNat * 2 ^ k := by
    rw [BitVec.toNat_and, toNat_one_shiftLeft hk, Nat.and_two_pow]
  have hpow := Nat.two_pow_pos k
  rw [not_iff_comm, Bool.not_eq_true, ← BitVec.toNat_inj, hand, toNat_zero_word]
  cases x.toNat.testBit k
  · simp
  · simp

lemma scanWord_eq {x : BitVec 32} {bits : ℕ} (hx : x ≠ 0) (hbits : bits < 32)
    (hlt : x.toNat < 2 ^ (bits + 1)) : scanWord x bits = x.toNat.size := by
  have hpos : 0 < x.toNat := by
    refine Nat.pos_of_ne_zero fun h => hx (BitVec.eq_of_toNat_eq ?_)
    rw [h, toNat_zero_word]
  induction bits with
  | zero => exact (size_eq hpos hlt).symm
  | succ bits ih =>
    unfold scanWord
    by_cases hbit : x.toNat.testBit (bits + 1) = true
    · rw [if_pos ((and_one_shiftLeft_ne_zero x hbits).mpr hbit)]
      exact (size_eq (Nat.ge_two_pow_of_testBit hbit) hlt).symm
    · rw [if_neg fun h => hbit ((and_one_shiftLeft_ne_zero x hbits).mp h)]
      refine ih (by omega) ?_
      by_contra hge
      exact hbit (Nat.testBit_of_two_pow_le_and_two_pow_add_one_gt (Nat.le_of_not_lt hge) hlt)

lemma size_cons {x : BitVec 32} {xs : List (BitVec 32)} (h : Limbs.value xs ≠ 0) :
    (Limbs.value (x :: xs)).size = 32 + (Limbs.value xs).size := by
  have hx := x.isLt
  have hlt := Nat.lt_size_self (Limbs.value xs)
  obtain ⟨k, hk⟩ := Nat.exists_eq_add_one.mpr (Nat.size_pos.mpr (Nat.pos_of_ne_zero h))
  have hle : 2 ^ k ≤ Limbs.value xs := Nat.lt_size.mp (by omega)
  rw [hk] at hlt ⊢
  rw [Limbs.value_cons, ← Nat.add_assoc]
  refine size_eq ?_ ?_
  · calc 2 ^ (32 + k) = 2 ^ 32 * 2 ^ k := pow_add ..
      _ ≤ 2 ^ 32 * Limbs.value xs := Nat.mul_le_mul_left _ hle
      _ ≤ x.toNat + 2 ^ 32 * Limbs.value xs := Nat.le_add_left _ _
  · calc x.toNat + 2 ^ 32 * Limbs.value xs < 2 ^ 32 * (Limbs.value xs + 1) := by omega
      _ ≤ 2 ^ 32 * 2 ^ (k + 1) := Nat.mul_le_mul_left _ hlt
      _ = 2 ^ (32 + k + 1) := by rw [← pow_add, Nat.add_assoc]

lemma bitsLoop_eq (pos : ℕ) (xs : List (BitVec 32)) :
    bitsLoop pos xs =
      if Limbs.value xs = 0 then none else some (32 * pos + (Limbs.value xs).size) := by
  induction xs generalizing pos with
  | nil => rfl
  | cons x xs ih =>
    unfold bitsLoop
    rw [ih]
    by_cases habove : Limbs.value xs = 0
    · have hvalue : Limbs.value (x :: xs) = x.toNat := by
        rw [Limbs.value_cons, habove, Nat.mul_zero, Nat.add_zero]
      rw [if_pos habove, hvalue]
      dsimp only
      by_cases hx : x = 0
      · rw [if_neg (not_not.mpr hx), if_pos (by rw [hx, toNat_zero_word])]
      · have hne : x.toNat ≠ 0 := fun h => hx (BitVec.eq_of_toNat_eq (by rw [h, toNat_zero_word]))
        rw [if_pos hx, if_neg hne, scanWord_eq hx (by decide) x.isLt]
    · have hne : Limbs.value (x :: xs) ≠ 0 := by
        rw [Limbs.value_cons]
        omega
      rw [if_neg habove, if_neg hne, size_cons habove]
      dsimp only
      congr 1
      omega

lemma bits_eq (a : BaseUint WIDTH) : a.bits = a.value.size := by
  have h := bitsLoop_eq 0 a.pn
  rw [bits, h]
  by_cases hzero : Limbs.value a.pn = 0
  · have hvalue : a.value = 0 := hzero
    rw [if_pos hzero, hvalue]
    rfl
  · rw [if_neg hzero, Option.getD_some, Nat.mul_zero, Nat.zero_add]
    rfl

lemma bits_eq_zero_iff : a.bits = 0 ↔ a.value = 0 := by rw [bits_eq, Nat.size_eq_zero]

lemma isNull_iff : a.isNull = true ↔ a.value = 0 := by
  rw [isNull, List.all_eq_true, value, Limbs.value_eq_zero_iff]
  simp

/-! ### Division -/

lemma testBit_setBit {shift i p : ℕ} (hi : i < WIDTH) (hp : p < 32) :
    (a.setBit shift).value.testBit (32 * i + p) = (a.value ||| 2 ^ shift).testBit (32 * i + p) := by
  have hmod := Nat.mod_lt shift (show 0 < 32 by decide)
  have hsplit := Nat.div_add_mod shift 32
  have hbit : ((1 : BitVec 32) <<< (shift % 32)).getLsbD p = decide (shift % 32 = p) := by
    rw [BitVec.getLsbD, toNat_one_shiftLeft hmod, Nat.testBit_two_pow]
  rw [testBit_value _ _ hp, Nat.testBit_or, Nat.testBit_two_pow, Bool.eq_iff_iff]
  refine (Limbs.getLsbD_scatter _ _ p (by rwa [a.length_pn])).trans ?_
  rw [testBit_value _ _ hp, Bool.or_eq_true, decide_eq_true_iff]
  refine or_congr Iff.rfl ⟨?_, fun h => ⟨_, List.mem_singleton.mpr ?_, hbit.trans ?_⟩⟩
  · rintro ⟨x, hx, hxp⟩
    obtain ⟨rfl, rfl⟩ := Prod.mk.inj (List.mem_singleton.mp hx)
    rw [hbit, decide_eq_true_iff] at hxp
    omega
  · rw [Prod.mk.injEq]
    exact ⟨by omega, rfl⟩
  · rw [decide_eq_true_iff]
    omega

lemma value_setBit {shift : ℕ} (h : shift < 32 * WIDTH) :
    (a.setBit shift).value = a.value ||| 2 ^ shift := by
  have hor : a.value ||| 2 ^ shift < 2 ^ (32 * WIDTH) :=
    Nat.or_lt_two_pow a.value_lt (Nat.pow_lt_pow_right (by decide) h)
  exact Limbs.eq_of_bits (show 0 < 32 by decide) (value_lt _) hor fun i p hi hp =>
    testBit_setBit hi hp

lemma divLoop_value {num₀ d shift : ℕ} {num div quotient : BaseUint WIDTH}
    (h : Limbs.Dividing num₀ d shift num.value quotient.value)
    (hdiv : ∀ k, shift = k + 1 → div.value = d * 2 ^ k) (hshift : shift ≤ 32 * WIDTH) :
    (divLoop shift num div quotient).value = num₀ / d := by
  induction shift generalizing num div quotient with
  | zero => exact h.quotient
  | succ shift ih =>
    have hd := hdiv shift rfl
    -- the divisor is shifted back until it stands where it came from
    have hnext : ∀ k, shift = k + 1 → (div.shr 1).value = d * 2 ^ k := by
      rintro k rfl
      rw [value_shr, hd, pow_one, pow_succ, ← Nat.mul_assoc, Nat.mul_div_cancel _ (by decide)]
    unfold divLoop
    split_ifs with hcmp
    · have hle : d * 2 ^ shift ≤ num.value := hd ▸ compareTo_nonneg_iff.mp hcmp
      have hsub : (num.sub div).value = num.value - d * 2 ^ shift := by
        rw [value_sub_of_le (hd ▸ hle), hd]
      have hset : (quotient.setBit shift).value = quotient.value + 2 ^ shift := by
        rw [value_setBit (by omega), h.or_two_pow]
      refine ih ?_ hnext (by omega)
      rw [hsub, hset]
      exact h.subtract hle
    · have hlt : num.value < d * 2 ^ shift := by
        rw [← hd]
        exact Nat.lt_of_not_le fun hle => hcmp (compareTo_nonneg_iff.mpr hle)
      exact ih (h.skip hlt) hnext (by omega)

/-- **Division.** The quotient is exact; only a division by zero throws. -/
theorem div_eq (a b : BaseUint WIDTH) :
    (b.value = 0 → a.div b = none) ∧
    (b.value ≠ 0 → ∃ q, a.div b = some q ∧ q.value = a.value / b.value) := by
  unfold div
  refine ⟨fun hb => if_pos (bits_eq_zero_iff.mpr hb), fun hb => ?_⟩
  rw [if_neg fun h => hb (bits_eq_zero_iff.mp h)]
  have hlta := Nat.lt_size_self a.value
  have hltb := Nat.lt_size_self b.value
  obtain ⟨k, hk⟩ := Nat.exists_eq_add_one.mpr (Nat.size_pos.mpr (Nat.pos_of_ne_zero hb))
  have hleb : 2 ^ k ≤ b.value := Nat.lt_size.mp (by omega)
  by_cases hsmall : a.bits < b.bits
  · rw [if_pos hsmall]
    refine ⟨zero WIDTH, rfl, ?_⟩
    rw [bits_eq, bits_eq, hk] at hsmall
    have hle : 2 ^ a.value.size ≤ 2 ^ k := Nat.pow_le_pow_right (by decide) (by omega)
    rw [value_zero, Nat.div_eq_of_lt (by omega)]
  · rw [if_neg hsmall]
    dsimp only
    refine ⟨_, rfl, ?_⟩
    rw [bits_eq, bits_eq] at hsmall ⊢
    have hsize : a.value.size ≤ 32 * WIDTH := Nat.size_le.mpr a.value_lt
    -- the shifted divisor has as many bits as the number
    have hfits : b.value * 2 ^ (a.value.size - b.value.size) < 2 ^ (32 * WIDTH) := by
      calc b.value * 2 ^ (a.value.size - b.value.size)
          < 2 ^ b.value.size * 2 ^ (a.value.size - b.value.size) :=
            Nat.mul_lt_mul_of_pos_right hltb (Nat.two_pow_pos _)
        _ = 2 ^ a.value.size := by
          rw [← pow_add]
          congr 1
          omega
        _ ≤ 2 ^ (32 * WIDTH) := Nat.pow_le_pow_right (by decide) hsize
    have hstart : a.value < b.value * 2 ^ (a.value.size - b.value.size + 1) := by
      calc a.value < 2 ^ a.value.size := hlta
        _ = 2 ^ k * 2 ^ (a.value.size - b.value.size + 1) := by
          rw [← pow_add]
          congr 1
          omega
        _ ≤ b.value * 2 ^ (a.value.size - b.value.size + 1) := Nat.mul_le_mul_right _ hleb
    refine divLoop_value ?_ ?_ (by omega)
    · rw [value_zero]
      exact .start hstart
    · rintro j hj
      obtain rfl : a.value.size - b.value.size = j := by omega
      exact value_shl_of_lt hfits

/-! ### The low words -/

lemma toNat_or_words (x y : BitVec 32) :
    (x.setWidth 64 ||| y.setWidth 64 <<< 32 : BitVec 64).toNat = x.toNat + 2 ^ 32 * y.toNat := by
  have hx := x.isLt
  have hy := y.isLt
  have hhigh : (y.setWidth 64 <<< 32 : BitVec 64).toNat = y.toNat <<< 32 := by
    rw [BitVec.toNat_shiftLeft, BitVec.toNat_setWidth, Nat.shiftLeft_eq, Nat.shiftLeft_eq]
    omega
  have hlow : (x.setWidth 64 : BitVec 64).toNat = x.toNat := by
    rw [BitVec.toNat_setWidth]
    omega
  rw [BitVec.toNat_or, hlow, hhigh, Nat.or_comm, ← Nat.shiftLeft_add_eq_or_of_lt hx,
    Nat.shiftLeft_eq]
  omega

lemma toNat_getLow64 (a : BaseUint WIDTH) : a.getLow64.toNat = a.value % 2 ^ 64 := by
  rw [getLow64, toNat_or_words, value]
  generalize a.pn = pn
  rcases pn with _ | ⟨x, _ | ⟨y, xs⟩⟩
  · rfl
  · have hx := x.isLt
    simp only [List.getD_cons_zero, List.getD_cons_succ, List.getD_nil, Limbs.value_cons,
      Limbs.value_nil, toNat_zero_word]
    omega
  · have hx := x.isLt
    have hy := y.isLt
    simp only [List.getD_cons_zero, List.getD_cons_succ, Limbs.value_cons]
    omega

end BaseUint

end Agenor
