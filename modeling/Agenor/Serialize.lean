import Agenor.Zerocoin
import Agenor.Lib.ReadBack
import Mathlib.Algebra.Order.Group.Nat
import Mathlib.Tactic.Ring

/-!
Numbers in a stream (`serialize.h`): little-endian, with a size prefix (`CompactSize`), and with
seven bits in each byte (`VarInt`), and that they are read back as they have been written.

The value of an unsigned type with `w` bits is a number that is reduced modulo `2 ^ w`.
-/

namespace Agenor

open Lib

/-! ### Little-endian numbers -/

def writeLE : ℕ → ℕ → List UInt8
  | 0, _ => []
  | k + 1, n => UInt8.ofNat (n % 256) :: writeLE k (n / 256)

lemma length_writeLE (k n : ℕ) : (writeLE k n).length = k := by
  induction k generalizing n with
  | zero => rfl
  | succ k ih => rw [writeLE, List.length_cons, ih]

lemma readLE_writeLE {k n : ℕ} (h : n < 256 ^ k) : Script.readLE (writeLE k n) = n := by
  induction k generalizing n with
  | zero =>
    rw [pow_zero] at h
    rw [writeLE, Script.readLE]
    omega
  | succ k ih =>
    have hdiv : n / 256 < 256 ^ k := by
      rw [Nat.div_lt_iff_lt_mul (by decide), ← pow_succ]
      exact h
    rw [writeLE, Script.readLE, ih hdiv, UInt8.toNat_ofNat', Nat.mod_mod_of_dvd _ (by decide)]
    exact Nat.mod_add_div n 256

lemma readsBack_bytes (l : List UInt8) : ReadsBack (Reader.bytes l.length) l l := by
  intro rest
  simp [Reader.bytes]

lemma readsBack_uint {k n : ℕ} (h : n < 256 ^ k) : ReadsBack (Reader.uint k) (writeLE k n) n := by
  have hbytes := readsBack_bytes (writeLE k n)
  rw [length_writeLE] at hbytes
  have hmap := hbytes.map Script.readLE
  rwa [readLE_writeLE h] at hmap

lemma readsBack_many {α : Type} {r : Reader α} {write : α → List UInt8} {l : List α}
    (h : ∀ a ∈ l, ReadsBack r (write a) a) :
    ReadsBack (Reader.many r l.length) (l.flatMap write) l := by
  induction l with
  | nil => exact ReadsBack.pure []
  | cons a l ih =>
    rw [List.flatMap_cons]
    refine (h a List.mem_cons_self).bind ?_
    exact (ih fun b hb => h b (List.mem_cons_of_mem a hb)).map _

/-! ### Compact sizes -/

def writeCompactSize (nSize : ℕ) : List UInt8 :=
  if nSize < 253 then writeLE 1 nSize
  else if nSize ≤ 0xffff then writeLE 1 253 ++ writeLE 2 nSize
  else if nSize ≤ 0xffffffff then writeLE 1 254 ++ writeLE 4 nSize
  else writeLE 1 255 ++ writeLE 8 nSize

lemma readsBack_compactSize {n : ℕ} (h : n ≤ Reader.MAX_SIZE) :
    ReadsBack Reader.compactSize (writeCompactSize n) n := by
  have hend : ReadsBack (if Reader.MAX_SIZE < n then failure else pure n : Reader ℕ) [] n := by
    rw [if_neg (not_lt.mpr h)]
    exact ReadsBack.pure n
  unfold Reader.MAX_SIZE at h
  unfold Reader.compactSize writeCompactSize
  split_ifs with h1 h2 h3
  · refine (readsBack_uint (by omega)).bind_nil ?_
    dsimp only
    rw [if_pos h1]
    exact (ReadsBack.pure n).bind_nil hend
  · refine (readsBack_uint (by decide)).bind ?_
    dsimp only
    rw [if_neg (by decide), if_pos rfl]
    refine (readsBack_uint (by omega)).bind_nil ?_
    rw [if_neg h1]
    exact (ReadsBack.pure n).bind_nil hend
  · refine (readsBack_uint (by decide)).bind ?_
    dsimp only
    rw [if_neg (by decide), if_neg (by decide), if_pos rfl]
    refine (readsBack_uint (by omega)).bind_nil ?_
    rw [if_neg (by omega)]
    exact (ReadsBack.pure n).bind_nil hend
  · omega

/-! ### Variable-length integers -/

/-- The bytes of `tmp`, the last one that is written first. -/
def writeVarIntLoop : ℕ → ℕ → List UInt8 → List UInt8
  | 0, _, tmp => tmp
  | room + 1, n, tmp =>
    let b := UInt8.ofNat (n % 128 + if tmp.isEmpty then 0 else 128)
    if n ≤ 0x7f then b :: tmp else writeVarIntLoop room (n / 128 - 1) (b :: tmp)

/-- `WriteVarInt` for a type of `w` bits, with a buffer of `(w + 6) / 7` bytes. -/
def writeVarInt (w n : ℕ) : List UInt8 := writeVarIntLoop ((w + 6) / 7) n []

def readVarIntLoop (w : ℕ) : ℕ → Reader ℕ
  | _, [] => none
  | n, chData :: s =>
    let n := (n * 128 + chData.toNat % 128) % 2 ^ w
    if 128 ≤ chData.toNat then readVarIntLoop w ((n + 1) % 2 ^ w) s else some (n, s)

def readVarInt (w : ℕ) : Reader ℕ := readVarIntLoop w 0

lemma readVarIntLoop_byte {w n : ℕ} (tmp rest : List UInt8) (hn : n < 2 ^ w)
    (hnext : tmp.isEmpty = false → n + 1 < 2 ^ w) :
    readVarIntLoop w (n / 128)
        (UInt8.ofNat (n % 128 + if tmp.isEmpty then 0 else 128) :: (tmp ++ rest))
      = if tmp.isEmpty then some (n, rest) else readVarIntLoop w (n + 1) (tmp ++ rest) := by
  have hmod := Nat.mod_lt n (show 0 < 128 by decide)
  have hsum : n / 128 * 128 + n % 128 = n := Nat.div_add_mod' n 128
  cases tmp with
  | nil =>
    have hb : (UInt8.ofNat (n % 128 + 0)).toNat = n % 128 := by
      rw [UInt8.toNat_ofNat', Nat.add_zero]
      omega
    simp only [List.isEmpty_nil, if_true, List.nil_append, readVarIntLoop, hb, Nat.mod_mod, hsum,
      Nat.mod_eq_of_lt hn, if_neg (not_le.mpr hmod)]
  | cons b tmp =>
    have hb : (UInt8.ofNat (n % 128 + 128)).toNat = n % 128 + 128 := by
      rw [UInt8.toNat_ofNat']
      omega
    have hlow : (n % 128 + 128) % 128 = n % 128 := by omega
    have hcont : 128 ≤ n % 128 + 128 := Nat.le_add_left 128 (n % 128)
    rw [readVarIntLoop.eq_2]
    simp only [List.isEmpty_cons, Bool.false_eq_true, if_false, hb, hlow, hsum,
      Nat.mod_eq_of_lt hn, Nat.mod_eq_of_lt (hnext rfl), if_pos hcont]

/-- **Reading what the loop has written.** The bytes for `n` in front of others that follow leave
`n + 1` to go on with; without others they give `n`. -/
lemma readVarIntLoop_write {w : ℕ} : ∀ (room n : ℕ) (tmp rest : List UInt8), n < 128 ^ room →
    n < 2 ^ w → (tmp.isEmpty = false → n + 1 < 2 ^ w) → 0 < room →
    readVarIntLoop w 0 (writeVarIntLoop room n tmp ++ rest)
      = if tmp.isEmpty then some (n, rest) else readVarIntLoop w (n + 1) (tmp ++ rest) := by
  intro room
  induction room with
  | zero =>
    intro n tmp rest _ _ _ hroom
    omega
  | succ room ih =>
    intro n tmp rest hn hw hnext _
    rw [writeVarIntLoop]
    by_cases hsmall : n ≤ 0x7f
    · have hbyte := readVarIntLoop_byte tmp rest hw hnext
      rw [show n / 128 = 0 by omega] at hbyte
      rw [if_pos hsmall, List.cons_append]
      exact hbyte
    · have hroom : 0 < room := by
        rcases Nat.eq_zero_or_pos room with rfl | hpos
        · rw [Nat.zero_add, pow_one] at hn
          omega
        · exact hpos
      have hdiv : n / 128 < 128 ^ room := by
        rw [Nat.div_lt_iff_lt_mul (by decide), ← pow_succ]
        exact hn
      rw [if_neg hsmall, ih (n / 128 - 1) _ rest (by omega) (by omega) (fun _ => by omega) hroom]
      rw [show n / 128 - 1 + 1 = n / 128 by omega, List.isEmpty_cons, if_neg Bool.false_ne_true,
        List.cons_append]
      exact readVarIntLoop_byte tmp rest hw hnext

/-- **Variable-length integers** are read back, whatever follows. -/
theorem readsBack_varInt {w n : ℕ} (hw : 0 < w) (hn : n < 2 ^ w) :
    ReadsBack (readVarInt w) (writeVarInt w n) n := by
  intro rest
  have hroom : n < 128 ^ ((w + 6) / 7) := by
    refine lt_of_lt_of_le hn ?_
    rw [show 128 = 2 ^ 7 by rfl, ← pow_mul]
    exact Nat.pow_le_pow_right two_pos (by omega)
  rw [readVarInt, writeVarInt, readVarIntLoop_write _ n [] rest hroom hn (fun h => by cases h)
    (by omega)]
  rfl

lemma writeVarInt_of_le {w n : ℕ} (hw : 0 < w) (hn : n ≤ 0x7f) :
    writeVarInt w n = [UInt8.ofNat n] := by
  obtain ⟨room, hroom⟩ : ∃ room, (w + 6) / 7 = room + 1 := ⟨(w + 6) / 7 - 1, by omega⟩
  rw [writeVarInt, hroom, writeVarIntLoop, if_pos hn, Nat.mod_eq_of_lt (by omega)]
  rfl

end Agenor
