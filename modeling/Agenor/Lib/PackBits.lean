import Mathlib.Data.List.Basic
import Mathlib.Data.Nat.Bitwise
import Mathlib.Tactic.Ring

/-!
Bits in bytes, the first one in the lowest place. Unpacking gives the bits back, filled up to whole
bytes; bits can also be set one by one.
-/

namespace Agenor.Lib

/-- One bit is put into its place. -/
def packBit (vBits : List Bool) (vBytes : List UInt8) (p : ℕ) : List UInt8 :=
  vBytes.set (p / 8)
    (UInt8.ofNat ((vBytes.getD (p / 8) 0).toNat ||| (vBits.getD p false).toNat <<< (p % 8)))

def packBits (vBits : List Bool) : List UInt8 :=
  (List.range vBits.length).foldl (packBit vBits) (List.replicate ((vBits.length + 7) / 8) 0)

/-- The bit in place `p`. -/
def bitAt (vBytes : List UInt8) (p : ℕ) : Bool :=
  (vBytes.getD (p / 8) 0).toNat &&& 1 <<< (p % 8) != 0

def unpackBits (vBytes : List UInt8) : List Bool :=
  (List.range (vBytes.length * 8)).map (bitAt vBytes)

variable {vBits : List Bool} {vBytes : List UInt8} {p q n : ℕ}

lemma bitAt_eq : bitAt vBytes p = (vBytes.getD (p / 8) 0).toNat.testBit (p % 8) := by
  rw [bitAt, Nat.one_shiftLeft, Nat.and_two_pow]
  cases (vBytes.getD (p / 8) 0).toNat.testBit (p % 8) <;> simp

@[simp] lemma length_packBit : (packBit vBits vBytes p).length = vBytes.length := List.length_set

lemma bitAt_packBit (hp : p / 8 < vBytes.length) : bitAt (packBit vBits vBytes p) q =
    (bitAt vBytes q || (decide (q = p) && vBits.getD p false)) := by
  have hlow := Nat.mod_lt q (show 0 < 8 by decide)
  rw [bitAt_eq, bitAt_eq, packBit, List.getD_eq_getElem?_getD, List.getElem?_set]
  by_cases hbyte : p / 8 = q / 8
  · have hplace : (decide (q % 8 ≥ p % 8) && decide (q % 8 - p % 8 = 0)) = decide (q = p) := by
      rw [← Bool.decide_and, decide_eq_decide]
      omega
    rw [if_pos hbyte, if_pos hp, Option.getD_some, UInt8.toNat_ofNat', Nat.testBit_mod_two_pow,
      Nat.testBit_or, Nat.testBit_shiftLeft, Nat.testBit_bool_toNat, hbyte, decide_eq_true hlow,
      Bool.true_and, ← Bool.and_assoc, hplace]
  · have hne : decide (q = p) = false := by
      rw [decide_eq_false_iff_not]
      rintro rfl
      exact hbyte rfl
    rw [if_neg hbyte, hne, Bool.false_and, Bool.or_false, ← List.getD_eq_getElem?_getD]

lemma length_fold (n : ℕ) : ((List.range n).foldl (packBit vBits) vBytes).length =
    vBytes.length := by
  induction n with
  | zero => rfl
  | succ n ih =>
    rw [List.range_succ, List.foldl_append, List.foldl_cons, List.foldl_nil, length_packBit, ih]

@[simp] lemma length_packBits (vBits : List Bool) :
    (packBits vBits).length = (vBits.length + 7) / 8 := by
  rw [packBits, length_fold, List.length_replicate]

lemma bitAt_fold (hn : n ≤ vBytes.length * 8) (hempty : ∀ q, bitAt vBytes q = false) (q : ℕ) :
    bitAt ((List.range n).foldl (packBit vBits) vBytes) q =
      (decide (q < n) && vBits.getD q false) := by
  induction n with
  | zero => rw [List.range_zero, List.foldl_nil, hempty, decide_eq_false (by omega), Bool.false_and]
  | succ n ih =>
    rw [List.range_succ, List.foldl_append, List.foldl_cons, List.foldl_nil,
      bitAt_packBit (by rw [length_fold]; omega), ih (by omega)]
    by_cases heq : q = n
    · subst heq
      simp
    · have hlt : q < n ↔ q < n + 1 := by omega
      simp [heq, hlt]

lemma bitAt_of_all_zero (h : ∀ b ∈ vBytes, b = 0) (q : ℕ) : bitAt vBytes q = false := by
  rw [bitAt_eq, List.getD_eq_getElem?_getD]
  by_cases hq : q / 8 < vBytes.length
  · rw [List.getElem?_eq_getElem hq, Option.getD_some, h _ (List.getElem_mem hq)]
    exact Nat.zero_testBit _
  · rw [List.getElem?_eq_none (not_lt.mp hq)]
    exact Nat.zero_testBit _

lemma bitAt_packBits (vBits : List Bool) (q : ℕ) :
    bitAt (packBits vBits) q = vBits.getD q false := by
  have hempty : ∀ q, bitAt (List.replicate ((vBits.length + 7) / 8) 0) q = false :=
    bitAt_of_all_zero fun b hb => List.eq_of_mem_replicate hb
  rw [packBits, bitAt_fold (by rw [List.length_replicate]; omega) hempty]
  by_cases hlt : q < vBits.length
  · rw [decide_eq_true hlt, Bool.true_and]
  · rw [decide_eq_false hlt, Bool.false_and, List.getD_eq_default _ _ (by omega)]

/-- **Bits that are packed** come back, and bits that are not set after them. -/
theorem unpackBits_packBits (vBits : List Bool) : unpackBits (packBits vBits) =
    vBits ++ List.replicate ((8 - vBits.length % 8) % 8) false := by
  apply List.ext_getElem
  · rw [unpackBits, List.length_map, List.length_range, length_packBits, List.length_append,
      List.length_replicate]
    omega
  · intro q h₁ h₂
    simp only [unpackBits, List.getElem_map, List.getElem_range, bitAt_packBits]
    rw [List.getElem_append]
    split_ifs with hlt
    · exact List.getD_eq_getElem _ _ hlt
    · rw [List.getElem_replicate, List.getD_eq_default _ _ (by omega)]

/-! ### Setting bits -/

/-- A bit is set in its place. -/
def setBit (vBytes : List UInt8) (p : ℕ) : List UInt8 :=
  vBytes.modify (p / 8) (· ||| (1 <<< UInt8.ofNat (p % 8)))

@[simp] lemma length_setBit : (setBit vBytes p).length = vBytes.length := List.length_modify _ _ _

lemma toNat_one_shiftLeft {c : ℕ} (hc : c < 8) : (1 <<< UInt8.ofNat c : UInt8).toNat = 2 ^ c := by
  revert c
  decide

lemma bitAt_setBit (hp : p / 8 < vBytes.length) :
    bitAt (setBit vBytes p) q = (bitAt vBytes q || decide (q = p)) := by
  rw [bitAt_eq, bitAt_eq, setBit, List.getD_eq_getElem?_getD, List.getElem?_modify,
    List.getD_eq_getElem?_getD]
  by_cases hbyte : p / 8 = q / 8
  · obtain ⟨b, hb⟩ : ∃ b, vBytes[q / 8]? = some b :=
      ⟨_, List.getElem?_eq_getElem (hbyte ▸ hp)⟩
    have hplace : decide (p % 8 = q % 8) = decide (q = p) := by
      rw [decide_eq_decide]
      omega
    have hset := toNat_one_shiftLeft (Nat.mod_lt p (show 0 < 8 by decide))
    rw [hb, Option.map_eq_map, Option.map_some, Option.getD_some, Option.getD_some, if_pos hbyte,
      UInt8.toNat_or, hset, Nat.testBit_or, Nat.testBit_two_pow, hplace]
  · have hne : decide (q = p) = false := by
      rw [decide_eq_false_iff_not]
      rintro rfl
      exact hbyte rfl
    simp only [if_neg hbyte, hne, Bool.or_false, Option.map_eq_map, Option.map_id']

@[simp] lemma length_foldl_setBit (l : List ℕ) :
    (l.foldl setBit vBytes).length = vBytes.length := by
  induction l generalizing vBytes with
  | nil => rfl
  | cons p l ih => rw [List.foldl_cons, ih, length_setBit]

lemma bitAt_foldl_setBit {l : List ℕ} (hl : ∀ p ∈ l, p / 8 < vBytes.length) :
    bitAt (l.foldl setBit vBytes) q = (bitAt vBytes q || decide (q ∈ l)) := by
  induction l generalizing vBytes with
  | nil => simp
  | cons p l ih =>
    rw [List.foldl_cons, ih, bitAt_setBit (hl p List.mem_cons_self), Bool.or_assoc]
    · simp [← Bool.decide_or]
    · intro r hr
      rw [length_setBit]
      exact hl r (List.mem_cons_of_mem p hr)

lemma bitAt_zipWith_or {vBytes' : List UInt8} (h : vBytes'.length = vBytes.length) :
    bitAt (List.zipWith (· ||| ·) vBytes vBytes') q = (bitAt vBytes q || bitAt vBytes' q) := by
  simp only [bitAt_eq, List.getD_eq_getElem?_getD, List.getElem?_zipWith]
  by_cases hq : q / 8 < vBytes.length
  · rw [List.getElem?_eq_getElem hq, List.getElem?_eq_getElem (h ▸ hq)]
    simp
  · rw [List.getElem?_eq_none (not_lt.mp hq), List.getElem?_eq_none (h ▸ not_lt.mp hq)]
    simp

lemma bitAt_of_all_ones (h : ∀ b ∈ vBytes, b = 0xff) (hq : q / 8 < vBytes.length) :
    bitAt vBytes q = true := by
  have hones : ∀ c < 8, Nat.testBit (0xff : UInt8).toNat c = true := by decide
  rw [bitAt_eq, List.getD_eq_getElem _ _ hq, h _ (List.getElem_mem hq)]
  exact hones _ (Nat.mod_lt q (by decide))

end Agenor.Lib
