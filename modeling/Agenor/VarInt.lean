import Agenor.Serialize
import Mathlib.Algebra.BigOperators.Intervals
import Mathlib.Algebra.BigOperators.Ring.Finset
import Mathlib.Data.List.GetD
import Mathlib.Data.Nat.ModEq

/-!
Which byte sequences `VARINT` maps to which numbers (`serialize.h`).

Every number is that of exactly one complete sequence, by the formula of the format, and within the
width of the type this is the sequence that is written. What is read is the number modulo the width,
since nothing checks that it fits: the numbers of two sequences that differ by a multiple are read
as one.
-/

namespace Agenor

open Lib

namespace VarInt

/-- `GetSizeOfVarInt`; each pass adds one for the byte and goes on with fewer digits. -/
def getSizeOfVarInt (n : ℕ) : ℕ :=
  if n ≤ 0x7f then 1 else getSizeOfVarInt (n / 128 - 1) + 1
termination_by n
decreasing_by omega

/-- All but the last byte have bit 128 set. -/
def Complete (a : List UInt8) : Prop :=
  ∃ init last, a = init ++ [last] ∧ (∀ b ∈ init, 128 ≤ b.toNat) ∧ last.toNat < 128

/-- The number that a sequence encodes, as the format states it:
`(a[len-1] & 0x7F) + sum(i=1..len-1, 128^i*((a[len-i-1] & 0x7F)+1))`. -/
def encoded (a : List UInt8) : ℕ :=
  (a.getD (a.length - 1) 0).toNat % 128 +
    ∑ i ∈ Finset.Ico 1 a.length, 128 ^ i * ((a.getD (a.length - i - 1) 0).toNat % 128 + 1)

variable {w n room : ℕ} {a b init tmp rest : List UInt8}

/-! ### The number of a sequence -/

/-- What the bytes before the last one count for, in units of the last but one. -/
def carried (init : List UInt8) : ℕ := init.foldl (fun n b => n * 128 + b.toNat % 128 + 1) 0

lemma carried_append (init : List UInt8) (b : UInt8) :
    carried (init ++ [b]) = carried init * 128 + b.toNat % 128 + 1 := by
  rw [carried, List.foldl_append]
  rfl

lemma carried_eq_sum (init : List UInt8) :
    carried init = ∑ i ∈ Finset.range init.length,
      128 ^ i * ((init.getD (init.length - 1 - i) 0).toNat % 128 + 1) := by
  induction init using List.reverseRecOn with
  | nil => rfl
  | append_singleton init b ih =>
    rw [carried_append, List.length_append, List.length_singleton, Finset.sum_range_succ', ih,
      Finset.sum_mul, Nat.add_sub_cancel, Nat.sub_zero, List.getD_append_right _ _ _ _ le_rfl,
      Nat.sub_self, List.getD_cons_zero, pow_zero, one_mul, Nat.add_assoc]
    congr 1
    refine Finset.sum_congr rfl fun i hi => ?_
    have hi := Finset.mem_range.mp hi
    rw [List.getD_append _ _ _ _ (by omega), Nat.sub_sub, Nat.add_comm 1 i, pow_succ]
    ring

lemma encoded_append (init : List UInt8) (last : UInt8) :
    encoded (init ++ [last]) = carried init * 128 + last.toNat % 128 := by
  have hlast : (init ++ [last]).getD init.length 0 = last := by
    rw [List.getD_append_right _ _ _ _ le_rfl, Nat.sub_self, List.getD_cons_zero]
  have hsum : ∑ i ∈ Finset.Ico 1 (init.length + 1),
      128 ^ i * (((init ++ [last]).getD (init.length + 1 - i - 1) 0).toNat % 128 + 1) =
        carried init * 128 := by
    rw [Finset.sum_Ico_eq_sum_range, Nat.add_sub_cancel, carried_eq_sum, Finset.sum_mul]
    refine Finset.sum_congr rfl fun i hi => ?_
    have hi := Finset.mem_range.mp hi
    rw [List.getD_append _ _ _ _ (by omega), Nat.add_comm 1 i, pow_succ,
      show init.length + 1 - (i + 1) - 1 = init.length - 1 - i by omega]
    ring
  rw [encoded, List.length_append, List.length_singleton, Nat.add_sub_cancel, hlast, hsum,
    Nat.add_comm]

lemma pow_le_encoded (init : List UInt8) (last : UInt8) :
    init = [] ∨ 128 ^ init.length ≤ encoded (init ++ [last]) := by
  induction init using List.reverseRecOn generalizing last with
  | nil => exact Or.inl rfl
  | append_singleton init b ih =>
    right
    have hstep : carried (init ++ [b]) = encoded (init ++ [b]) + 1 := by
      rw [carried_append, encoded_append]
    rw [encoded_append, hstep, List.length_append, List.length_singleton, pow_succ]
    rcases ih b with rfl | hle
    · rw [List.length_nil, pow_zero]
      omega
    · have hmul := Nat.mul_le_mul_right 128 hle
      omega

lemma length_lt_of_encoded_lt {last : UInt8} (hw : 0 < w) (hlt : encoded (init ++ [last]) < 2 ^ w) :
    init.length < (w + 6) / 7 := by
  rcases pow_le_encoded init last with rfl | hle
  · rw [List.length_nil]
    omega
  · have hpow : 128 ^ init.length < 2 ^ w := hle.trans_lt hlt
    rw [show 128 = 2 ^ 7 from rfl, ← pow_mul, Nat.pow_lt_pow_iff_right (by decide)] at hpow
    omega

/-! ### Writing -/

lemma writeVarIntLoop_encoded (hinit : ∀ b ∈ init, 128 ≤ b.toNat) (hroom : init.length < room)
    (last : UInt8) :
    writeVarIntLoop room (encoded (init ++ [last])) tmp =
      init ++ UInt8.ofNat (last.toNat % 128 + if tmp.isEmpty then 0 else 128) :: tmp := by
  obtain ⟨room, rfl⟩ := Nat.exists_eq_add_of_le' (Nat.one_le_of_lt hroom)
  induction init using List.reverseRecOn generalizing room last tmp with
  | nil =>
    have hsmall : encoded ([] ++ [last]) = last.toNat % 128 := by
      rw [encoded_append, carried, List.foldl_nil, Nat.zero_mul, Nat.zero_add]
    have hlt := Nat.mod_lt last.toNat (show 0 < 128 by decide)
    rw [hsmall, writeVarIntLoop, if_pos (by omega), Nat.mod_mod]
    rfl
  | append_singleton init b ih =>
    obtain ⟨hinit, hb⟩ := List.forall_mem_append.mp hinit
    have hb := hb b (List.mem_singleton.mpr rfl)
    rw [List.length_append, List.length_singleton] at hroom
    obtain ⟨room, rfl⟩ := Nat.exists_eq_add_of_le' (show 1 ≤ room by omega)
    have hstep : encoded (init ++ [b] ++ [last]) =
        (encoded (init ++ [b]) + 1) * 128 + last.toNat % 128 := by
      rw [encoded_append, carried_append, encoded_append]
    have hlt := Nat.mod_lt last.toNat (show 0 < 128 by decide)
    have hmod : encoded (init ++ [b] ++ [last]) % 128 = last.toNat % 128 := by omega
    have hdiv : encoded (init ++ [b] ++ [last]) / 128 - 1 = encoded (init ++ [b]) := by omega
    have hbyte : UInt8.ofNat (b.toNat % 128 + 128) = b := by
      have hlt := b.toNat_lt
      rw [show b.toNat % 128 + 128 = b.toNat by omega, UInt8.ofNat_toNat]
    rw [writeVarIntLoop, if_neg (by omega), hdiv, hmod, ih hinit b room (by omega),
      List.isEmpty_cons, if_neg Bool.false_ne_true, hbyte, List.append_assoc]
    rfl

lemma writeVarInt_encoded (hw : 0 < w) (ha : Complete a) (hlt : encoded a < 2 ^ w) :
    writeVarInt w (encoded a) = a := by
  obtain ⟨init, last, rfl, hinit, hlast⟩ := ha
  rw [writeVarInt, writeVarIntLoop_encoded hinit (length_lt_of_encoded_lt hw hlt),
    Nat.mod_eq_of_lt hlast, List.isEmpty_nil, if_pos rfl, Nat.add_zero, UInt8.ofNat_toNat]

lemma encoded_injective (ha : Complete a) (hb : Complete b) (h : encoded a = encoded b) :
    a = b := by
  have hlt : encoded a < 2 ^ (encoded a + 1) :=
    Nat.lt_two_pow_self.trans (Nat.pow_lt_pow_succ (by decide))
  rw [← writeVarInt_encoded (Nat.succ_pos _) ha hlt, h,
    writeVarInt_encoded (Nat.succ_pos _) hb (h ▸ hlt)]

lemma exists_encoded (n : ℕ) : ∃ a, Complete a ∧ encoded a = n ∧ a.length = getSizeOfVarInt n := by
  induction n using getSizeOfVarInt.induct with
  | case1 n hsmall =>
    have hbyte : (UInt8.ofNat n).toNat = n :=
      UInt8.toNat_ofNat_of_lt' (show n < 256 by omega)
    refine ⟨[] ++ [UInt8.ofNat n], ⟨[], UInt8.ofNat n, rfl, by simp, by omega⟩, ?_, ?_⟩
    · rw [encoded_append, hbyte, carried, List.foldl_nil]
      omega
    · rw [getSizeOfVarInt, if_pos hsmall]
      rfl
  | case2 n hsmall ih =>
    obtain ⟨a, ⟨init, last, rfl, hinit, hlast⟩, henc, hlen⟩ := ih
    have hmod := Nat.mod_lt n (show 0 < 128 by decide)
    have hcont : (UInt8.ofNat (last.toNat + 128)).toNat = last.toNat + 128 :=
      UInt8.toNat_ofNat_of_lt' (show last.toNat + 128 < 256 by omega)
    have hbyte : (UInt8.ofNat (n % 128)).toNat = n % 128 :=
      UInt8.toNat_ofNat_of_lt' (show n % 128 < 256 by omega)
    refine ⟨init ++ [UInt8.ofNat (last.toNat + 128)] ++ [UInt8.ofNat (n % 128)],
      ⟨_, _, rfl, ?_, by omega⟩, ?_, ?_⟩
    · refine List.forall_mem_append.mpr ⟨hinit, fun b hb => ?_⟩
      rw [List.mem_singleton.mp hb, hcont]
      exact Nat.le_add_left 128 _
    · rw [encoded_append] at henc ⊢
      rw [carried_append, hcont, hbyte]
      omega
    · rw [getSizeOfVarInt, if_neg hsmall, ← hlen]
      simp

/-! ### Reading -/

lemma readVarIntLoop_append (hinit : ∀ b ∈ init, 128 ≤ b.toNat) {last : UInt8}
    (hlast : last.toNat < 128) (m : ℕ) :
    readVarIntLoop w (m % 2 ^ w) (init ++ last :: rest) =
      some ((init.foldl (fun n b => n * 128 + b.toNat % 128 + 1) m * 128 + last.toNat % 128) %
        2 ^ w, rest) := by
  have hround (k : ℕ) : (m % 2 ^ w * 128 + k) % 2 ^ w = (m * 128 + k) % 2 ^ w :=
    Nat.ModEq.add_right k (Nat.ModEq.mul_right 128 (Nat.mod_modEq m (2 ^ w)))
  induction init generalizing m with
  | nil =>
    rw [List.nil_append, readVarIntLoop]
    rw [if_neg (not_le.mpr hlast), hround]
    rfl
  | cons b init ih =>
    obtain ⟨hb, hinit⟩ := List.forall_mem_cons.mp hinit
    rw [List.cons_append, readVarIntLoop]
    rw [if_pos hb, hround, Nat.mod_add_mod]
    exact ih hinit _ fun k =>
      Nat.ModEq.add_right k (Nat.ModEq.mul_right 128 (Nat.mod_modEq _ (2 ^ w)))

lemma readsBack_encoded (ha : Complete a) : ReadsBack (readVarInt w) a (encoded a % 2 ^ w) := by
  obtain ⟨init, last, rfl, hinit, hlast⟩ := ha
  intro rest
  have hread : readVarIntLoop w (0 % 2 ^ w) (init ++ last :: rest) = _ :=
    readVarIntLoop_append hinit hlast 0
  rw [Nat.zero_mod] at hread
  rw [readVarInt, List.append_assoc, List.singleton_append, hread, encoded_append, carried]

lemma eq_of_readsBack {m : ℕ} (ha : Complete a) (h : ReadsBack (readVarInt w) a m) :
    m = encoded a % 2 ^ w := by
  have hread := (h []).symm.trans (readsBack_encoded ha [])
  exact congrArg Prod.fst (Option.some.inj hread)

/-- `VARINT` for a type of `w` bits. Every number is written in as many bytes as are computed for
it, which fit in the buffer, and is read back from them. A complete sequence is the one that is
written for the number read from it exactly if the number it encodes fits in the type; and two
different ones encode different numbers, but are read as one number exactly if these differ by a
multiple of `2 ^ w`. -/
theorem varInt_oneToOne {w : ℕ} (hw : 0 < w) :
    (∀ n < 2 ^ w, getSizeOfVarInt n ≤ (w + 6) / 7 ∧
      (writeVarInt w n).length = getSizeOfVarInt n ∧
      ReadsBack (readVarInt w) (writeVarInt w n) n) ∧
    (∀ a, Complete a → ∃ n < 2 ^ w, ReadsBack (readVarInt w) a n ∧
      (a = writeVarInt w n ↔ encoded a < 2 ^ w)) ∧
    (∀ a b, Complete a → Complete b → a ≠ b → encoded a ≠ encoded b ∧
      ((¬ ∃ n, ReadsBack (readVarInt w) a n ∧ ReadsBack (readVarInt w) b n) ↔
        ¬ encoded a ≡ encoded b [MOD 2 ^ w])) := by
  refine ⟨fun n hn => ?_, fun a ha => ?_, fun a b ha hb hne =>
    ⟨mt (encoded_injective ha hb) hne, ?_⟩⟩
  · obtain ⟨a, ha, rfl, hlen⟩ := exists_encoded n
    have hwrite := writeVarInt_encoded hw ha hn
    refine ⟨?_, by rw [hwrite, hlen], readsBack_varInt hw hn⟩
    obtain ⟨init, last, rfl, -, -⟩ := ha
    have hfits := length_lt_of_encoded_lt hw hn
    rw [← hlen, List.length_append, List.length_singleton]
    exact hfits
  · refine ⟨encoded a % 2 ^ w, Nat.mod_lt _ (Nat.two_pow_pos w), readsBack_encoded ha, ?_, ?_⟩
    · intro h
      obtain ⟨a', ha', henc, -⟩ := exists_encoded (encoded a % 2 ^ w)
      have hlt : encoded a' < 2 ^ w := henc ▸ Nat.mod_lt _ (Nat.two_pow_pos w)
      rw [← henc, writeVarInt_encoded hw ha' hlt] at h
      rwa [h]
    · intro h
      rw [Nat.mod_eq_of_lt h, writeVarInt_encoded hw ha h]
  · rw [not_iff_not]
    constructor
    · rintro ⟨n, hna, hnb⟩
      exact (eq_of_readsBack ha hna).symm.trans (eq_of_readsBack hb hnb)
    · intro h
      have hread := readsBack_encoded (w := w) hb
      rw [← h] at hread
      exact ⟨_, readsBack_encoded ha, hread⟩

theorem varInt_oneToOne_32 :
    getSizeOfVarInt (2 ^ 32 - 1) ≤ (32 + 6) / 7 ∧
      (writeVarInt 32 (2 ^ 32 - 1)).length = getSizeOfVarInt (2 ^ 32 - 1) ∧
      ReadsBack (readVarInt 32) (writeVarInt 32 (2 ^ 32 - 1)) (2 ^ 32 - 1) :=
  (varInt_oneToOne (w := 32) (by decide)).1 (2 ^ 32 - 1) (by decide)

/-- The sequence for `2 ^ 32` and that for zero. -/
theorem varInt_wraps :
    Complete [0x8E, 0xFE, 0xFE, 0xFF, 0x00] ∧ Complete [0x00] ∧
      [0x8E, 0xFE, 0xFE, 0xFF, 0x00] ≠ ([0x00] : List UInt8) ∧
      ReadsBack (readVarInt 32) [0x8E, 0xFE, 0xFE, 0xFF, 0x00] 0 ∧
      ReadsBack (readVarInt 32) [0x00] 0 := by
  have hlong : Complete [0x8E, 0xFE, 0xFE, 0xFF, 0x00] :=
    ⟨[0x8E, 0xFE, 0xFE, 0xFF], 0x00, rfl, by simp, by decide⟩
  have hshort : Complete [0x00] := ⟨[], 0x00, rfl, by simp, by decide⟩
  exact ⟨hlong, hshort, by decide, readsBack_encoded hlong, readsBack_encoded hshort⟩

end VarInt

end Agenor
