import Agenor.BaseUint
import Agenor.Lib.Truncate
import Agenor.StakeKernel

/-!
Targets in compact form (`uint256.cpp`, `arith_uint256.cpp`).

A compact number has a size in bytes, a sign and the three leading bytes, of which the sign takes a
bit. Both classes of 256-bit numbers have the two conversions, word for word.
-/

namespace Agenor

open Lib Lib.Truncate

/-- What `SetCompact` leaves in the number and in the two flags it is given. -/
structure SetCompactResult where
  value : BaseUint 8
  pfNegative : Bool
  pfOverflow : Bool
  deriving DecidableEq

namespace ArithUint256

def setCompact (nCompact : BitVec 32) : SetCompactResult :=
  let nSize := (nCompact >>> 24).toNat
  let nWord := nCompact &&& 0x007fffff
  let nWord := if nSize ≤ 3 then nWord >>> (8 * (3 - nSize)) else nWord
  let value := BaseUint.ofUint64 8 (nWord.setWidth 64)
  let value := if nSize ≤ 3 then value else value.shl (8 * (nSize - 3))
  { value
    pfNegative := decide (nWord ≠ 0) && decide (nCompact &&& 0x00800000 ≠ 0)
    pfOverflow := decide (nWord ≠ 0) && (decide (34 < nSize) ||
      decide (0xff < nWord) && decide (33 < nSize) ||
      decide (0xffff < nWord) && decide (32 < nSize)) }

/-- `arith_uint256::GetCompact`; `none` when an assertion fails. -/
def getCompact (a : BaseUint 8) (fNegative : Bool) : Option (BitVec 32) :=
  let nSize := (a.bits + 7) / 8
  let nCompact : BitVec 32 :=
    if nSize ≤ 3 then (a.getLow64 <<< (8 * (3 - nSize))).setWidth 32
    else (a.shr (8 * (nSize - 3))).getLow64.setWidth 32
  -- the bit that would be the sign is kept free
  let fSign := nCompact &&& 0x00800000 ≠ 0
  let nCompact := if fSign then nCompact >>> 8 else nCompact
  let nSize := if fSign then nSize + 1 else nSize
  if nCompact &&& ~~~0x007fffff = 0 ∧ nSize < 256 then
    let nCompact := nCompact ||| BitVec.ofNat 32 nSize <<< 24
    some (nCompact ||| if fNegative && decide (nCompact &&& 0x007fffff ≠ 0) then 0x00800000 else 0)
  else none

end ArithUint256

namespace Uint256

def setCompact (nCompact : BitVec 32) : SetCompactResult :=
  let nSize := (nCompact >>> 24).toNat
  let nWord := nCompact &&& 0x007fffff
  let nWord := if nSize ≤ 3 then nWord >>> (8 * (3 - nSize)) else nWord
  let value := BaseUint.ofUint64 8 (nWord.setWidth 64)
  let value := if nSize ≤ 3 then value else value.shl (8 * (nSize - 3))
  { value
    pfNegative := decide (nWord ≠ 0) && decide (nCompact &&& 0x00800000 ≠ 0)
    pfOverflow := decide (nWord ≠ 0) && (decide (34 < nSize) ||
      decide (0xff < nWord) && decide (33 < nSize) ||
      decide (0xffff < nWord) && decide (32 < nSize)) }

/-- `uint256::GetCompact`; `none` when an assertion fails. -/
def getCompact (a : BaseUint 8) (fNegative : Bool) : Option (BitVec 32) :=
  let nSize := (a.bits + 7) / 8
  let nCompact : BitVec 32 :=
    if nSize ≤ 3 then (a.getLow64 <<< (8 * (3 - nSize))).setWidth 32
    else (a.shr (8 * (nSize - 3))).getLow64.setWidth 32
  -- the bit that would be the sign is kept free
  let fSign := nCompact &&& 0x00800000 ≠ 0
  let nCompact := if fSign then nCompact >>> 8 else nCompact
  let nSize := if fSign then nSize + 1 else nSize
  if nCompact &&& ~~~0x007fffff = 0 ∧ nSize < 256 then
    let nCompact := nCompact ||| BitVec.ofNat 32 nSize <<< 24
    some (nCompact ||| if fNegative && decide (nCompact &&& 0x007fffff ≠ 0) then 0x00800000 else 0)
  else none

end Uint256

namespace CompactTarget

/-! ### The fields of a compact number -/

variable (n : BitVec 32)

def nSize : ℕ := n.toNat / 2 ^ 24
def nWord : ℕ := n.toNat % 2 ^ 23
def sign : Bool := n.toNat.testBit 23

/-- The number that the fields describe, in integers. -/
def decode : ℕ :=
  if nSize n ≤ 3 then nWord n / 2 ^ (8 * (3 - nSize n)) else nWord n * 2 ^ (8 * (nSize n - 3))

/-- The size is the least there is, and the bytes that are not used are clear. -/
def Normalised : Prop :=
  n = 0 ∨ sign n = false ∧ 2 ^ 15 ≤ nWord n ∧ 2 ^ (8 * (3 - nSize n)) ∣ nWord n

/-- The size that `GetCompact` chooses, and the three bytes it keeps. -/
def packSize (x : ℕ) : ℕ := if x = 0 then 0 else x.size / 8 + 1

def packWord (x : ℕ) : ℕ :=
  if packSize x ≤ 3 then x * 2 ^ (8 * (3 - packSize x)) else x / 2 ^ (8 * (packSize x - 3))

variable {n}

lemma toNat_shiftRight_size : (n >>> 24).toNat = nSize n := by
  rw [BitVec.toNat_ushiftRight, Nat.shiftRight_eq_div_pow, nSize]

lemma toNat_and_word : (n &&& 0x007fffff).toNat = nWord n := by
  rw [BitVec.toNat_and]
  exact Nat.and_two_pow_sub_one_eq_mod _ 23

lemma and_sign_iff : n &&& 0x00800000 ≠ 0 ↔ sign n = true := by
  have hbit : (0x00800000 : BitVec 32) = 1 <<< 23 := rfl
  rw [hbit]
  exact BaseUint.and_one_shiftLeft_ne_zero n (by decide)

lemma nWord_lt (n : BitVec 32) : nWord n < 2 ^ 23 := Nat.mod_lt _ (by decide)

/-- The word that is left when the bytes that are not used are shifted out. -/
def shiftedWord (n : BitVec 32) : ℕ :=
  if nSize n ≤ 3 then nWord n / 2 ^ (8 * (3 - nSize n)) else nWord n

lemma shiftedWord_lt (n : BitVec 32) : shiftedWord n < 2 ^ 23 := by
  unfold shiftedWord
  split_ifs
  · exact (Nat.div_le_self _ _).trans_lt (nWord_lt n)
  · exact nWord_lt n

lemma toNat_shiftedWord :
    (if (n >>> 24).toNat ≤ 3 then (n &&& 0x007fffff) >>> (8 * (3 - (n >>> 24).toNat))
      else n &&& 0x007fffff).toNat = shiftedWord n := by
  rw [toNat_shiftRight_size, shiftedWord]
  split_ifs
  · rw [BitVec.toNat_ushiftRight, toNat_and_word, Nat.shiftRight_eq_div_pow]
  · exact toNat_and_word

lemma decode_eq : decode n =
    if nSize n ≤ 3 then shiftedWord n else shiftedWord n * 2 ^ (8 * (nSize n - 3)) := by
  rw [decode, shiftedWord]
  split_ifs <;> rfl

lemma setCompact_eq (n : BitVec 32) : ∃ w : BitVec 32, w.toNat = shiftedWord n ∧
    ArithUint256.setCompact n =
      { value := if nSize n ≤ 3 then BaseUint.ofUint64 8 (w.setWidth 64)
          else (BaseUint.ofUint64 8 (w.setWidth 64)).shl (8 * (nSize n - 3))
        pfNegative := decide (w ≠ 0) && decide (n &&& 0x00800000 ≠ 0)
        pfOverflow := decide (w ≠ 0) && (decide (34 < nSize n) ||
          decide (0xff < w) && decide (33 < nSize n) ||
          decide (0xffff < w) && decide (32 < nSize n)) } := by
  refine ⟨_, toNat_shiftedWord, ?_⟩
  rw [← toNat_shiftRight_size]
  rfl

lemma setCompact_value (n : BitVec 32) :
    (ArithUint256.setCompact n).value.value = decode n % 2 ^ 256 := by
  have hlt := shiftedWord_lt n
  obtain ⟨w, hword, heq⟩ := setCompact_eq n
  have hlow : (BaseUint.ofUint64 8 (w.setWidth 64)).value = shiftedWord n := by
    rw [BaseUint.value_ofUint64, BitVec.toNat_setWidth, hword]
    omega
  rw [heq, decode_eq]
  dsimp only
  split_ifs
  · rw [hlow, Nat.mod_eq_of_lt (by omega)]
  · rw [BaseUint.value_shl, hlow]

lemma setCompact_pfNegative (n : BitVec 32) : (ArithUint256.setCompact n).pfNegative = true ↔
    shiftedWord n ≠ 0 ∧ sign n = true := by
  have hzero : (0 : BitVec 32).toNat = 0 := rfl
  obtain ⟨w, hword, heq⟩ := setCompact_eq n
  rw [heq, Bool.and_eq_true, decide_eq_true_iff, decide_eq_true_iff, and_sign_iff, ne_eq,
    ← BitVec.toNat_inj, hword, hzero]

lemma two_pow_le_mul_iff {word : ℕ} (k : ℕ) (hword : word < 2 ^ 23) :
    2 ^ 256 ≤ word * 2 ^ (8 * k) ↔
      word ≠ 0 ∧ (31 < k ∨ 0xff < word ∧ 30 < k ∨ 0xffff < word ∧ 29 < k) := by
  by_cases h29 : k ≤ 29
  · have hle : word * 2 ^ (8 * k) ≤ word * 2 ^ (8 * 29) :=
      Nat.mul_le_mul_left _ (Nat.pow_le_pow_right (by decide) (by omega))
    omega
  by_cases h32 : 32 ≤ k
  · have hle : 2 ^ (8 * 32) ≤ 2 ^ (8 * k) := Nat.pow_le_pow_right (by decide) (by omega)
    by_cases hzero : word = 0
    · simp [hzero]
    · have hmul : 1 * 2 ^ (8 * k) ≤ word * 2 ^ (8 * k) :=
        Nat.mul_le_mul_right _ (Nat.pos_of_ne_zero hzero)
      omega
  · obtain rfl | rfl : k = 30 ∨ k = 31 := by omega
    · omega
    · omega

lemma setCompact_pfOverflow (n : BitVec 32) : (ArithUint256.setCompact n).pfOverflow = true ↔
    2 ^ 256 ≤ decode n := by
  have hzero : (0 : BitVec 32).toNat = 0 := rfl
  have hff : (0xff : BitVec 32).toNat = 0xff := rfl
  have hffff : (0xffff : BitVec 32).toNat = 0xffff := rfl
  have hlt := shiftedWord_lt n
  obtain ⟨w, hword, heq⟩ := setCompact_eq n
  rw [heq, Bool.and_eq_true, Bool.or_eq_true, Bool.or_eq_true, Bool.and_eq_true,
    Bool.and_eq_true]
  simp only [decide_eq_true_iff, BitVec.lt_def, ne_eq, ← BitVec.toNat_inj, hword, hzero, hff,
    hffff]
  rw [decode_eq]
  split_ifs with hsize
  · omega
  · rw [two_pow_le_mul_iff _ hlt]
    omega

/-! ### What `GetCompact` computes -/

lemma packSize_pos {x : ℕ} (h : x ≠ 0) : packSize x = x.size / 8 + 1 := if_neg h

lemma lt_of_packSize (x : ℕ) : x < 2 ^ (8 * packSize x - 1) ∨ x = 0 := by
  by_cases h : x = 0
  · exact .inr h
  · refine .inl ((Nat.lt_size_self x).trans_le (Nat.pow_le_pow_right (by decide) ?_))
    rw [packSize_pos h]
    omega

lemma lead_lt {x a b k : ℕ} (hx : x < 2 ^ k) (hab : k + a ≤ 24 + b) :
    x * 2 ^ a / 2 ^ b < 2 ^ 24 := by
  refine Nat.div_lt_of_lt_mul ?_
  calc x * 2 ^ a < 2 ^ k * 2 ^ a := Nat.mul_lt_mul_of_pos_right hx (Nat.two_pow_pos a)
    _ = 2 ^ (k + a) := (pow_add ..).symm
    _ ≤ 2 ^ (b + 24) := Nat.pow_le_pow_right (by decide) (by omega)
    _ = 2 ^ b * 2 ^ 24 := pow_add ..

/-- The bytes that `GetCompact` cuts out first, before it makes room for the sign. -/
def leadWord (x : ℕ) : ℕ :=
  x * 2 ^ (8 * (3 - (x.size + 7) / 8)) / 2 ^ (8 * ((x.size + 7) / 8 - 3))

lemma leadWord_lt (x : ℕ) : leadWord x < 2 ^ 24 := lead_lt (Nat.lt_size_self x) (by omega)

lemma packWord_eq (x : ℕ) :
    packWord x = x * 2 ^ (8 * (3 - packSize x)) / 2 ^ (8 * (packSize x - 3)) := by
  rw [packWord]
  split_ifs with hsize
  · rw [Nat.sub_eq_zero_of_le hsize, Nat.mul_zero, pow_zero, Nat.div_one]
  · rw [Nat.sub_eq_zero_of_le (by omega : 3 ≤ packSize x), Nat.mul_zero, pow_zero, Nat.mul_one]

lemma packWord_lt (x : ℕ) : packWord x < 2 ^ 23 := by
  rcases lt_of_packSize x with hlt | rfl
  · by_cases hx : x = 0
    · rw [hx]
      decide
    have hpos := packSize_pos hx
    rw [packWord_eq]
    refine Nat.div_lt_of_lt_mul ?_
    calc x * 2 ^ (8 * (3 - packSize x))
        < 2 ^ (8 * packSize x - 1) * 2 ^ (8 * (3 - packSize x)) :=
          Nat.mul_lt_mul_of_pos_right hlt (Nat.two_pow_pos _)
      _ = 2 ^ (8 * (packSize x - 3)) * 2 ^ 23 := by
        rw [← pow_add, ← pow_add]
        congr 1
        omega
  · decide

lemma lead_spec (x : ℕ) :
    (leadWord x).testBit 23 = true ∧ leadWord x / 2 ^ 8 = packWord x ∧
        (x.size + 7) / 8 + 1 = packSize x ∨
      (leadWord x).testBit 23 = false ∧ leadWord x = packWord x ∧
        (x.size + 7) / 8 = packSize x := by
  by_cases hx : x = 0
  · rw [hx]
    exact .inr (by decide)
  obtain ⟨k, hk⟩ := Nat.exists_eq_add_one.mpr (Nat.size_pos.mpr (Nat.pos_of_ne_zero hx))
  have hle : 2 ^ k ≤ x := Nat.lt_size.mp (by omega)
  have hlt := Nat.lt_size_self x
  have hsize := packSize_pos hx
  rw [hk] at hlt hsize
  rw [packWord_eq, leadWord, hk]
  by_cases hdvd : 8 ∣ k + 1
  · have hpack : (k + 1 + 7) / 8 + 1 = packSize x := by omega
    refine .inl ⟨?_, ?_, hpack⟩
    · refine Nat.testBit_of_two_pow_le_and_two_pow_add_one_gt ?_ (lead_lt hlt (by omega))
      rw [Nat.le_div_iff_mul_le (Nat.two_pow_pos _), ← pow_add]
      calc 2 ^ (23 + 8 * ((k + 1 + 7) / 8 - 3)) = 2 ^ k * 2 ^ (8 * (3 - (k + 1 + 7) / 8)) := by
            rw [← pow_add]
            congr 1
            omega
        _ ≤ x * 2 ^ (8 * (3 - (k + 1 + 7) / 8)) := Nat.mul_le_mul_right _ hle
    · rw [← hpack, Nat.div_div_eq_div_mul, ← pow_add]
      by_cases h3 : (k + 1 + 7) / 8 < 3
      · have hmul : 8 * (3 - (k + 1 + 7) / 8) = 8 * (3 - ((k + 1 + 7) / 8 + 1)) + 8 := by omega
        rw [Nat.sub_eq_zero_of_le (by omega : (k + 1 + 7) / 8 ≤ 3),
          Nat.sub_eq_zero_of_le (by omega : (k + 1 + 7) / 8 + 1 ≤ 3), hmul, pow_add, Nat.mul_zero,
          Nat.zero_add, pow_zero, Nat.div_one, ← Nat.mul_assoc,
          Nat.mul_div_cancel _ (by decide)]
      · rw [Nat.sub_eq_zero_of_le (by omega : 3 ≤ (k + 1 + 7) / 8),
          Nat.sub_eq_zero_of_le (by omega : 3 ≤ (k + 1 + 7) / 8 + 1)]
        congr 2
        omega
  · have hpack : (k + 1 + 7) / 8 = packSize x := by omega
    refine .inr ⟨?_, ?_, hpack⟩
    · refine Nat.testBit_lt_two_pow (Nat.div_lt_of_lt_mul ?_)
      calc x * 2 ^ (8 * (3 - (k + 1 + 7) / 8))
          < 2 ^ (k + 1) * 2 ^ (8 * (3 - (k + 1 + 7) / 8)) :=
            Nat.mul_lt_mul_of_pos_right hlt (Nat.two_pow_pos _)
        _ = 2 ^ (k + 1 + 8 * (3 - (k + 1 + 7) / 8)) := (pow_add ..).symm
        _ ≤ 2 ^ (8 * ((k + 1 + 7) / 8 - 3) + 23) := Nat.pow_le_pow_right (by decide) (by omega)
        _ = 2 ^ (8 * ((k + 1 + 7) / 8 - 3)) * 2 ^ 23 := pow_add ..
    · rw [hpack]

variable (x : BaseUint 8)

lemma toNat_lead :
    (if (x.bits + 7) / 8 ≤ 3 then (x.getLow64 <<< (8 * (3 - (x.bits + 7) / 8))).setWidth 32
      else (x.shr (8 * ((x.bits + 7) / 8 - 3))).getLow64.setWidth 32 : BitVec 32).toNat =
    leadWord x.value := by
  have hlead := leadWord_lt x.value
  have hlt := Nat.lt_size_self x.value
  rw [x.bits_eq]
  rw [leadWord] at hlead ⊢
  split_ifs with hsize
  · rw [Nat.sub_eq_zero_of_le hsize, Nat.mul_zero, pow_zero, Nat.div_one] at hlead ⊢
    have hsmall : x.value < 2 ^ 24 :=
      hlt.trans_le (Nat.pow_le_pow_right (by decide) (by omega))
    rw [BitVec.toNat_setWidth, BitVec.toNat_shiftLeft, x.toNat_getLow64, Nat.shiftLeft_eq,
      Nat.mod_eq_of_lt (by omega : x.value < 2 ^ 64)]
    omega
  · rw [Nat.sub_eq_zero_of_le (by omega : 3 ≤ (x.value.size + 7) / 8), Nat.mul_zero, pow_zero,
      Nat.mul_one] at hlead ⊢
    rw [BitVec.toNat_setWidth, BaseUint.toNat_getLow64, BaseUint.value_shr,
      Nat.mod_eq_of_lt (hlead.trans (by decide)), Nat.mod_eq_of_lt (hlead.trans (by decide))]

lemma or_zero_word (m : BitVec 32) : m ||| 0 = m := BitVec.or_zero

lemma pack_fields {m : BitVec 32} {size : ℕ} (hm : m.toNat < 2 ^ 23) (hsize : size < 2 ^ 8) :
    (m ||| BitVec.ofNat 32 size <<< 24).toNat = m.toNat + size * 2 ^ 24 := by
  have hhigh : (BitVec.ofNat 32 size <<< 24).toNat = size <<< 24 := by
    rw [BitVec.toNat_shiftLeft, BitVec.toNat_ofNat, Nat.shiftLeft_eq, Nat.shiftLeft_eq]
    omega
  rw [BitVec.toNat_or, hhigh, Nat.or_comm,
    ← Nat.shiftLeft_add_eq_or_of_lt (by omega : m.toNat < 2 ^ 24), Nat.shiftLeft_eq, Nat.add_comm]

lemma and_mask_eq_zero {m : BitVec 32} (hm : m.toNat < 2 ^ 23) : m &&& ~~~0x007fffff = 0 := by
  refine BitVec.eq_of_getLsbD_eq fun i hi => ?_
  by_cases hlow : i < 23
  · have hmask : (~~~(0x007fffff : BitVec 32)).getLsbD i = false := by
      revert hi
      revert i
      decide
    rw [BitVec.getLsbD_and, hmask]
    simp
  · have hbit : m.getLsbD i = false :=
      Nat.testBit_lt_two_pow (hm.trans_le (Nat.pow_le_pow_right (by decide) (by omega)))
    rw [BitVec.getLsbD_and, hbit]
    simp

lemma packSize_le : packSize x.value ≤ 33 := by
  have hsize : x.value.size ≤ 256 := Nat.size_le.mpr x.value_lt
  rw [packSize]
  split_ifs
  · omega
  · omega

lemma getCompact_spec : ∃ n, ArithUint256.getCompact x false = some n ∧
    n.toNat = packWord x.value + packSize x.value * 2 ^ 24 := by
  have hlead := toNat_lead x
  have hword := packWord_lt x.value
  have hle := packSize_le x
  unfold ArithUint256.getCompact
  dsimp only
  generalize (if (x.bits + 7) / 8 ≤ 3 then
      (x.getLow64 <<< (8 * (3 - (x.bits + 7) / 8))).setWidth 32
    else (x.shr (8 * ((x.bits + 7) / 8 - 3))).getLow64.setWidth 32 : BitVec 32) = c at hlead ⊢
  have hsign := and_sign_iff (n := c)
  rw [sign, hlead] at hsign
  rw [x.bits_eq]
  rcases lead_spec x.value with ⟨hbit, hpack, hsize⟩ | ⟨hbit, hpack, hsize⟩
  · have hc : (c >>> 8).toNat = packWord x.value := by
      rw [BitVec.toNat_ushiftRight, hlead, Nat.shiftRight_eq_div_pow, hpack]
    rw [if_pos (hsign.mpr hbit), if_pos (hsign.mpr hbit), hsize,
      if_pos ⟨and_mask_eq_zero (hc ▸ hword), by omega⟩]
    refine ⟨_, rfl, ?_⟩
    rw [Bool.false_and, if_neg (by decide), or_zero_word,
      pack_fields (hc ▸ hword) (by omega), hc]
  · have hclear : ¬ c &&& 0x00800000 ≠ 0 := fun h => by
      rw [hsign.mp h] at hbit
      exact absurd hbit (by decide)
    have hc : c.toNat = packWord x.value := hlead.trans hpack
    rw [if_neg hclear, if_neg hclear, hsize,
      if_pos ⟨and_mask_eq_zero (hc ▸ hword), by omega⟩]
    refine ⟨_, rfl, ?_⟩
    rw [Bool.false_and, if_neg (by decide), or_zero_word,
      pack_fields (hc ▸ hword) (by omega), hc]

lemma getCompact_fields {n : BitVec 32} (h : ArithUint256.getCompact x false = some n) :
    nWord n = packWord x.value ∧ nSize n = packSize x.value ∧ sign n = false := by
  obtain ⟨m, hm, hval⟩ := getCompact_spec x
  obtain rfl := Option.some.inj (h.symm.trans hm)
  have hword := packWord_lt x.value
  refine ⟨?_, ?_, ?_⟩
  · rw [nWord, hval]
    omega
  · rw [nSize, hval]
    omega
  · rw [sign, hval, Nat.testBit_eq_decide_div_mod_eq, decide_eq_false_iff_not]
    omega

/-! ### Round trips -/

variable {x}

lemma dropped_eq {v : ℕ} (hv : v ≠ 0) : dropped 8 3 v = 8 * (packSize v - 3) := by
  rw [dropped, packSize_pos hv]

lemma decode_pack {v : ℕ} (hword : nWord n = packWord v) (hsize : nSize n = packSize v) :
    decode n = trunc 8 3 v := by
  rw [decode, hword, hsize]
  by_cases hv : v = 0
  · rw [hv]
    decide
  rw [trunc, dropped_eq hv, packWord]
  by_cases h3 : packSize v ≤ 3
  · rw [if_pos h3, if_pos h3, Nat.mul_div_cancel _ (Nat.two_pow_pos _),
      Nat.sub_eq_zero_of_le h3, Nat.mul_zero, pow_zero, Nat.div_one, Nat.mul_one]
  · rw [if_neg h3, if_neg h3]

lemma trunc_decode (n : BitVec 32) : trunc 8 3 (decode n) = decode n := by
  have hlt := shiftedWord_lt n
  rw [decode_eq]
  split_ifs
  · have h := trunc_mul_two_pow (e := 0) (show 1 ≤ 8 by decide)
      (show shiftedWord n < 2 ^ (8 * 3 - 1) from hlt)
    simpa using h
  · exact trunc_mul_two_pow (by decide) hlt

lemma setCompact_getCompact_spec {m : BitVec 32} (h : ArithUint256.getCompact x false = some m) :
    (ArithUint256.setCompact m).value.value = trunc 8 3 x.value ∧
      (ArithUint256.setCompact m).pfNegative = false ∧
      (ArithUint256.setCompact m).pfOverflow = false := by
  obtain ⟨hword, hsize, hsign⟩ := getCompact_fields x h
  have hdecode := decode_pack hword hsize
  have hlt : decode m < 2 ^ 256 := by
    rw [hdecode]
    exact (trunc_le 8 3 x.value).trans_lt x.value_lt
  refine ⟨?_, ?_, ?_⟩
  · rw [setCompact_value, Nat.mod_eq_of_lt hlt, hdecode]
  · rw [Bool.eq_false_iff, Ne, setCompact_pfNegative, hsign]
    simp
  · rw [Bool.eq_false_iff, Ne, setCompact_pfOverflow]
    omega

lemma packSize_eq {v k : ℕ} (hlt : v < 2 ^ (8 * k + 7)) (hle : 2 ^ (8 * k - 1) ≤ v) :
    packSize v = k + 1 := by
  have hpos := Nat.two_pow_pos (8 * k - 1)
  rw [packSize_pos (by omega)]
  have hupper := Nat.size_le.mpr hlt
  have hlower := Nat.lt_size.mpr hle
  omega

lemma pack_of_normalised (h : Normalised n) :
    nWord n = packWord (decode n) ∧ nSize n = packSize (decode n) ∧ sign n = false := by
  rcases h with rfl | ⟨hsign, hle, hdvd⟩
  · decide
  have hlt := nWord_lt n
  obtain ⟨q, hq⟩ := hdvd
  obtain ⟨k, hk⟩ : ∃ k, nSize n = k + 1 := by
    refine Nat.exists_eq_add_one.mpr (Nat.pos_of_ne_zero fun hzero => ?_)
    rw [hzero] at hq
    omega
  have hpow := Nat.two_pow_pos (8 * (3 - nSize n))
  -- the number lies between two powers that have the same size
  have hbounds : decode n < 2 ^ (8 * k + 7) ∧ 2 ^ (8 * k - 1) ≤ decode n := by
    rw [decode, hk]
    split_ifs with h3
    · obtain rfl | rfl | rfl : k = 0 ∨ k = 1 ∨ k = 2 := by omega
      · rw [hk] at hq
        omega
      · omega
      · omega
    · have hsplit : 8 * (k + 1 - 3) = 8 * k - 16 := by omega
      rw [hsplit]
      constructor
      · calc nWord n * 2 ^ (8 * k - 16) < 2 ^ 23 * 2 ^ (8 * k - 16) :=
              Nat.mul_lt_mul_of_pos_right hlt (Nat.two_pow_pos _)
          _ = 2 ^ (8 * k + 7) := by
            rw [← pow_add]
            congr 1
            omega
      · calc 2 ^ (8 * k - 1) = 2 ^ 15 * 2 ^ (8 * k - 16) := by
              rw [← pow_add]
              congr 1
              omega
          _ ≤ nWord n * 2 ^ (8 * k - 16) := Nat.mul_le_mul_right _ hle
  have hsize : nSize n = packSize (decode n) := by rw [hk, packSize_eq hbounds.1 hbounds.2]
  refine ⟨?_, hsize, hsign⟩
  rw [packWord, ← hsize, decode]
  split_ifs with h3
  · rw [hq, Nat.mul_div_cancel_left _ hpow, Nat.mul_comm]
  · rw [Nat.mul_div_cancel _ (Nat.two_pow_pos _)]

lemma normalised_of_pack {v : ℕ} (hword : nWord n = packWord v) (hsize : nSize n = packSize v)
    (hsign : sign n = false) (hn : n.toNat = packWord v + packSize v * 2 ^ 24) :
    Normalised n := by
  by_cases hv : v = 0
  · refine .inl (BitVec.eq_of_toNat_eq ?_)
    rw [hn, hv]
    decide
  have hpos := packSize_pos hv
  obtain ⟨k, hk⟩ := Nat.exists_eq_add_one.mpr (Nat.size_pos.mpr (Nat.pos_of_ne_zero hv))
  have hle : 2 ^ k ≤ v := Nat.lt_size.mp (by omega)
  refine .inr ⟨hsign, ?_, ?_⟩
  · rw [hword, packWord_eq, Nat.le_div_iff_mul_le (Nat.two_pow_pos _), ← pow_add]
    calc 2 ^ (15 + 8 * (packSize v - 3)) ≤ 2 ^ (k + 8 * (3 - packSize v)) :=
          Nat.pow_le_pow_right (by decide) (by omega)
      _ = 2 ^ k * 2 ^ (8 * (3 - packSize v)) := pow_add ..
      _ ≤ v * 2 ^ (8 * (3 - packSize v)) := Nat.mul_le_mul_right _ hle
  · rw [hsize, hword, packWord]
    split_ifs with h3
    · exact Nat.dvd_mul_left _ _
    · rw [Nat.sub_eq_zero_of_le (by omega : 3 ≤ packSize v)]
      exact one_dvd _

lemma toNat_fields (hsign : sign n = false) : n.toNat = nWord n + nSize n * 2 ^ 24 := by
  rw [sign, Nat.testBit_eq_decide_div_mod_eq, decide_eq_false_iff_not] at hsign
  rw [nWord, nSize]
  omega

lemma exists_getCompact (x : BaseUint 8) : ∃ m, ArithUint256.getCompact x false = some m ∧
    m.toNat = packWord x.value + packSize x.value * 2 ^ 24 ∧
    (ArithUint256.setCompact m).value.value = trunc 8 3 x.value := by
  obtain ⟨m, hm, hval⟩ := getCompact_spec x
  exact ⟨m, hm, hval, (setCompact_getCompact_spec hm).1⟩

lemma getCompact_setCompact {m : BitVec 32} (h : ArithUint256.getCompact x false = some m) :
    ArithUint256.getCompact (ArithUint256.setCompact m).value false = some m := by
  obtain ⟨k, hk, hkval, hktrunc⟩ := exists_getCompact (ArithUint256.setCompact m).value
  obtain ⟨hword, hsize, hsign⟩ := getCompact_fields x h
  obtain ⟨j, hj, hjval⟩ := getCompact_spec x
  obtain rfl := Option.some.inj (h.symm.trans hj)
  have hnorm := pack_of_normalised (normalised_of_pack hword hsize hsign hjval)
  have hvalue : (ArithUint256.setCompact m).value.value = decode m := by
    rw [(setCompact_getCompact_spec h).1, decode_pack hword hsize]
  rw [hk, Option.some.injEq]
  refine BitVec.eq_of_toNat_eq ?_
  rw [hkval, hvalue, ← hnorm.1, ← hnorm.2.1, toNat_fields hsign]

lemma setCompact_exact (h : (ArithUint256.setCompact n).pfOverflow = false) :
    (ArithUint256.setCompact n).value.value = decode n := by
  rw [Bool.eq_false_iff, Ne, setCompact_pfOverflow, Nat.not_le] at h
  rw [setCompact_value, Nat.mod_eq_of_lt h]

/-- **Compact targets.** Encoding rounds down and keeps the sixteen leading bits, decoding undoes
it for the numbers that are normalised and only for these, and the two copies agree. -/
theorem compact_roundTrip :
    (∀ x : BaseUint 8, ∃ n, ArithUint256.getCompact x false = some n ∧
      (ArithUint256.setCompact n).pfNegative = false ∧
      (ArithUint256.setCompact n).pfOverflow = false ∧
      (ArithUint256.setCompact n).value.value ≤ x.value ∧
      (∀ k ≤ 16, (ArithUint256.setCompact n).value.value / 2 ^ (x.bits - k) =
        x.value / 2 ^ (x.bits - k)) ∧
      ArithUint256.getCompact (ArithUint256.setCompact n).value false = some n) ∧
    (∀ n : BitVec 32, (ArithUint256.setCompact n).pfNegative = false →
      (ArithUint256.setCompact n).pfOverflow = false →
      ∃ m, ArithUint256.getCompact (ArithUint256.setCompact n).value false = some m ∧
        (ArithUint256.setCompact m).value = (ArithUint256.setCompact n).value ∧
        (m = n ↔ Normalised n)) ∧
    (∀ x y : BaseUint 8, x.value ≤ y.value → ∀ m n, ArithUint256.getCompact x false = some m →
      ArithUint256.getCompact y false = some n →
      (ArithUint256.setCompact m).value.value ≤ (ArithUint256.setCompact n).value.value) ∧
    (∀ n, Uint256.setCompact n = ArithUint256.setCompact n) ∧
    ∀ x fNegative, Uint256.getCompact x fNegative = ArithUint256.getCompact x fNegative := by
  refine ⟨fun x => ?_, fun n hneg hover => ?_, fun x y hle m n hm hn => ?_, fun n => rfl,
    fun x fNegative => rfl⟩
  · obtain ⟨n, hn, -⟩ := getCompact_spec x
    obtain ⟨hvalue, hneg, hover⟩ := setCompact_getCompact_spec hn
    refine ⟨n, hn, hneg, hover, ?_, fun k hk => ?_, getCompact_setCompact hn⟩
    · rw [hvalue]
      exact trunc_le 8 3 x.value
    · rw [hvalue, x.bits_eq]
      exact trunc_leading (by decide) hk
  · have hexact := setCompact_exact hover
    obtain ⟨m, hm, hmval⟩ := getCompact_spec (ArithUint256.setCompact n).value
    refine ⟨m, hm, BaseUint.eq_of_value ?_, ?_⟩
    · rw [(setCompact_getCompact_spec hm).1, hexact, trunc_decode]
    · constructor
      · rintro rfl
        obtain ⟨hword, hsize, hsign⟩ := getCompact_fields _ hm
        exact normalised_of_pack hword hsize hsign hmval
      · intro hnorm
        obtain ⟨hword, hsize, hsign⟩ := pack_of_normalised hnorm
        refine BitVec.eq_of_toNat_eq ?_
        rw [hmval, hexact, ← hword, ← hsize, toNat_fields hsign]
  · rw [(setCompact_getCompact_spec hm).1, (setCompact_getCompact_spec hn).1]
    exact trunc_mono (by decide) (by decide) hle

/-! ### The bit vectors -/

/-- The number as it stands in hashes. -/
def toUint256 (a : BaseUint 8) : Uint256 := BitVec.ofNat 256 a.value

lemma toNat_toUint256 (a : BaseUint 8) : (toUint256 a).toNat = a.value := by
  rw [toUint256, BitVec.toNat_ofNat, Nat.mod_eq_of_lt a.value_lt]

lemma toUint256_setCompact (n : BitVec 32) :
    toUint256 (ArithUint256.setCompact n).value = setCompact n.toNat := by
  refine BitVec.eq_of_toNat_eq ?_
  rw [toNat_toUint256, setCompact_value, decode]
  unfold setCompact
  dsimp only
  rw [← nSize, ← nWord]
  have hword := nWord_lt n
  split_ifs
  · rw [BitVec.toNat_ofNat]
  · rw [BitVec.toNat_shiftLeft, BitVec.toNat_ofNat, Nat.shiftLeft_eq, Nat.mod_mul_mod]

lemma pack_eq {nCompact : ℕ} (nSize : ℕ) (h : nCompact < 2 ^ 24) :
    (if nCompact &&& 0x00800000 ≠ 0 then nCompact >>> 8 ||| (nSize + 1) <<< 24
      else nCompact ||| nSize <<< 24) =
    if nCompact / 2 ^ 23 % 2 = 1 then nCompact / 2 ^ 8 + (nSize + 1) * 2 ^ 24
      else nCompact + nSize * 2 ^ 24 := by
  have hbit : nCompact &&& 0x00800000 ≠ 0 ↔ nCompact / 2 ^ 23 % 2 = 1 := by
    rw [show (0x00800000 : ℕ) = 2 ^ 23 from rfl, Nat.and_two_pow, Nat.testBit_eq_decide_div_mod_eq]
    simp
  have hor : ∀ {a : ℕ} (k : ℕ), a < 2 ^ 24 → a ||| k <<< 24 = a + k * 2 ^ 24 := fun {a} k ha => by
    rw [Nat.or_comm, ← Nat.shiftLeft_add_eq_or_of_lt ha, Nat.shiftLeft_eq, Nat.add_comm]
  rw [if_congr hbit rfl rfl, Nat.shiftRight_eq_div_pow, hor _ (by omega), hor _ h]

lemma size_eq_log2 (v : ℕ) : (if v = 0 then 0 else v.log2 + 1) = v.size := by
  split_ifs with hv
  · rw [hv, Nat.size_zero]
  · exact (BaseUint.size_eq (Nat.log2_self_le hv) Nat.lt_log2_self).symm

/-- The words are those that the functions on bit vectors compute with. -/
theorem getCompact_toUint256 (x : BaseUint 8) :
    ∃ m, ArithUint256.getCompact x false = some m ∧ m.toNat = getCompact (toUint256 x) := by
  obtain ⟨m, hm, hval⟩ := getCompact_spec x
  refine ⟨m, hm, hval.trans ?_⟩
  unfold getCompact
  dsimp only
  rw [toNat_toUint256, size_eq_log2]
  have hlead : (if (x.value.size + 7) / 8 ≤ 3 then x.value <<< (8 * (3 - (x.value.size + 7) / 8))
      else x.value >>> (8 * ((x.value.size + 7) / 8 - 3))) = leadWord x.value := by
    rw [leadWord]
    split_ifs with h3
    · rw [Nat.sub_eq_zero_of_le h3, Nat.shiftLeft_eq, Nat.mul_zero, pow_zero, Nat.div_one]
    · rw [Nat.sub_eq_zero_of_le (by omega : 3 ≤ (x.value.size + 7) / 8),
        Nat.shiftRight_eq_div_pow, Nat.mul_zero, pow_zero, Nat.mul_one]
  rw [hlead, pack_eq _ (leadWord_lt x.value)]
  rcases lead_spec x.value with ⟨hbit, hpack, hsize⟩ | ⟨hbit, hpack, hsize⟩
  · rw [Nat.testBit_eq_decide_div_mod_eq, decide_eq_true_iff] at hbit
    rw [if_pos hbit, hpack, hsize]
  · rw [Nat.testBit_eq_decide_div_mod_eq, decide_eq_false_iff_not] at hbit
    rw [if_neg hbit, hpack, hsize]

end CompactTarget

end Agenor
