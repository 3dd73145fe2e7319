import Agenor.Base64
import Agenor.Lib.Bch
import Mathlib.Data.Nat.Bitwise

/-!
Bech32 strings (`bech32.cpp`).

A human-readable part, a separator, and values of five bits each as a character, of which the last
six are a checksum: the remainder of a polynomial, packed into thirty bits.
-/

namespace Agenor

open Lib.Bch

namespace Bech32

/-- The Bech32 character set for encoding. -/
def CHARSET : List UInt8 := "qpzry9x8gf2tvdw0s3jn54khce6mua7l".toList.map Char.toUInt8

/-- The Bech32 character set for decoding. -/
def CHARSET_REV : List ℤ :=
  [-1, -1, -1, -1, -1, -1, -1, -1, -1, -1, -1, -1, -1, -1, -1, -1,
    -1, -1, -1, -1, -1, -1, -1, -1, -1, -1, -1, -1, -1, -1, -1, -1,
    -1, -1, -1, -1, -1, -1, -1, -1, -1, -1, -1, -1, -1, -1, -1, -1,
    15, -1, 10, 17, 21, 20, 26, 30, 7, 5, -1, -1, -1, -1, -1, -1,
    -1, 29, -1, 24, 13, 25, 9, 8, 23, -1, 18, 22, 31, 27, 19, -1,
    1, 0, 3, 16, 11, 28, 12, 14, 6, 4, 2, -1, -1, -1, -1, -1,
    -1, 29, -1, 24, 13, 25, 9, 8, 23, -1, 18, 22, 31, 27, 19, -1,
    1, 0, 3, 16, 11, 28, 12, 14, 6, 4, 2, -1, -1, -1, -1, -1]

/-- One round of the loop of `PolyMod`. -/
def polyModStep (c : ℕ) (v : UInt8) : ℕ :=
  let c0 := c >>> 25
  let c := ((c &&& 0x1ffffff) <<< 5) ^^^ v.toNat
  let c := if c0 &&& 1 ≠ 0 then c ^^^ 0x3b6a57b2 else c
  let c := if c0 &&& 2 ≠ 0 then c ^^^ 0x26508e6d else c
  let c := if c0 &&& 4 ≠ 0 then c ^^^ 0x1ea119fa else c
  let c := if c0 &&& 8 ≠ 0 then c ^^^ 0x3d4233dd else c
  if c0 &&& 16 ≠ 0 then c ^^^ 0x2a1462b3 else c

def polyMod (v : List UInt8) : ℕ := v.foldl polyModStep 1

def lowerCase (c : UInt8) : UInt8 := if 65 ≤ c ∧ c ≤ 90 then (c - 65) + 97 else c

def expandHRP (hrp : List UInt8) : List UInt8 :=
  hrp.map (fun c : UInt8 => c >>> 5) ++ 0 :: hrp.map fun c : UInt8 => c &&& 0x1f

def verifyChecksum (hrp values : List UInt8) : Bool := polyMod (expandHRP hrp ++ values) = 1

def createChecksum (hrp values : List UInt8) : List UInt8 :=
  let enc := expandHRP hrp ++ values ++ List.replicate 6 0
  let mod := polyMod enc ^^^ 1
  (List.range 6).map fun i => UInt8.ofNat ((mod >>> (5 * (5 - i))) &&& 31)

/-- `CHARSET[c]` -/
def character (c : UInt8) : UInt8 := CHARSET.getD c.toNat 0

def encode (hrp values : List UInt8) : List UInt8 :=
  let combined := values ++ createChecksum hrp values
  if combined.any (32 ≤ ·) then [] else hrp ++ 49 :: combined.map character

/-- `str.rfind(c)` -/
def rfind (c : UInt8) (str : List UInt8) : Option ℕ :=
  (str.reverse.idxOf? c).map fun i => str.length - 1 - i

/-- The value of a character, or `none` for the return with nothing. -/
def charValue (c : UInt8) : Option UInt8 :=
  let rev := if c < 33 ∨ 126 < c then -1 else CHARSET_REV.getD c.toNat 0
  if rev = -1 then none else some (UInt8.ofNat rev.toNat)

/-- The pair is empty in case of failure. -/
def decode (str : List UInt8) : List UInt8 × List UInt8 :=
  let lower := str.any fun c => 97 ≤ c && c ≤ 122
  let upper := str.any fun c => 65 ≤ c && c ≤ 90
  if str.any fun c => c < 33 || 126 < c then ([], [])
  else if lower && upper then ([], [])
  else
    match rfind 49 str with
    | none => ([], [])
    | some pos =>
      if 1023 < str.length ∨ pos = 0 ∨ str.length < pos + 7 then ([], [])
      else
        match (str.drop (pos + 1)).mapM charValue with
        | none => ([], [])
        | some values =>
          let hrp := (str.take pos).map lowerCase
          if !verifyChecksum hrp values then ([], [])
          else (hrp, values.take (values.length - 6))

variable {c d : ℕ} {v w : UInt8} {hrp values : List UInt8}

/-! ### The checksum -/

/-- The constants of `PolyMod`: `{2^n}k(x)`. -/
def multiple (n : ℕ) : ℕ :=
  [0x3b6a57b2, 0x26508e6d, 0x1ea119fa, 0x3d4233dd, 0x2a1462b3].getD n 0

lemma xor_multiple (c c0 n : ℕ) :
    (if c0 &&& 2 ^ n ≠ 0 then c ^^^ multiple n else c) =
      c ^^^ if c0.testBit n then multiple n else 0 := by
  rw [Nat.and_two_pow]
  cases c0.testBit n <;> simp

lemma polyModStep_eq (c : ℕ) (v : UInt8) :
    polyModStep c v =
      ((c &&& 0x1ffffff) <<< 5) ^^^ v.toNat ^^^ xorBits multiple (c >>> 25) 5 := by
  have h0 (e : ℕ) : (if c >>> 25 &&& 1 ≠ 0 then e ^^^ 0x3b6a57b2 else e) =
      e ^^^ if (c >>> 25).testBit 0 then multiple 0 else 0 := xor_multiple e _ 0
  have h1 (e : ℕ) : (if c >>> 25 &&& 2 ≠ 0 then e ^^^ 0x26508e6d else e) =
      e ^^^ if (c >>> 25).testBit 1 then multiple 1 else 0 := xor_multiple e _ 1
  have h2 (e : ℕ) : (if c >>> 25 &&& 4 ≠ 0 then e ^^^ 0x1ea119fa else e) =
      e ^^^ if (c >>> 25).testBit 2 then multiple 2 else 0 := xor_multiple e _ 2
  have h3 (e : ℕ) : (if c >>> 25 &&& 8 ≠ 0 then e ^^^ 0x3d4233dd else e) =
      e ^^^ if (c >>> 25).testBit 3 then multiple 3 else 0 := xor_multiple e _ 3
  have h4 (e : ℕ) : (if c >>> 25 &&& 16 ≠ 0 then e ^^^ 0x2a1462b3 else e) =
      e ^^^ if (c >>> 25).testBit 4 then multiple 4 else 0 := xor_multiple e _ 4
  simp only [polyModStep, h0, h1, h2, h3, h4, xorBits, Nat.zero_xor]
  ac_rfl

lemma multiple_lt (n : ℕ) : multiple n < 2 ^ 30 := by
  rcases lt_or_ge n 5 with h | h
  · have hall : ∀ n < 5, multiple n < 2 ^ 30 := by decide
    exact hall n h
  · rw [multiple, List.getD_eq_default _ _ h]
    decide

lemma polyModStep_lt (c : ℕ) (v : UInt8) : polyModStep c v < 2 ^ 30 := by
  rw [polyModStep_eq]
  refine Nat.xor_lt_two_pow (Nat.xor_lt_two_pow ?_ ?_) (xorBits_lt _ fun b _ => multiple_lt b)
  · rw [Nat.shiftLeft_eq]
    have hlow : c &&& 0x1ffffff ≤ 0x1ffffff := Nat.and_le_right
    omega
  · exact v.toNat_lt.trans (by decide)

lemma polyMod_lt (c : ℕ) (hc : c < 2 ^ 30) (vs : List UInt8) :
    vs.foldl polyModStep c < 2 ^ 30 := by
  induction vs generalizing c with
  | nil => exact hc
  | cons v vs ih => exact ih _ (polyModStep_lt c v)

lemma polyModStep_xor (c d : ℕ) (v w : UInt8) :
    polyModStep (c ^^^ d) (v ^^^ w) = polyModStep c v ^^^ polyModStep d w := by
  rw [polyModStep_eq, polyModStep_eq, polyModStep_eq, Nat.and_xor_distrib_right,
    Nat.shiftLeft_xor_distrib, Nat.shiftRight_xor_distrib, xorBits_xor, UInt8.toNat_xor]
  ac_rfl

lemma polyMod_xor (c d : ℕ) {vs ws : List UInt8} (hlen : vs.length = ws.length) :
    (vs.zipWith (· ^^^ ·) ws).foldl polyModStep (c ^^^ d) =
      vs.foldl polyModStep c ^^^ ws.foldl polyModStep d := by
  induction vs generalizing c d ws with
  | nil =>
    obtain rfl := List.length_eq_zero_iff.mp hlen.symm
    rfl
  | cons v vs ih =>
    obtain _ | ⟨w, ws⟩ := ws
    · exact absurd hlen (by simp)
    · rw [List.zipWith_cons_cons, List.foldl_cons, List.foldl_cons, List.foldl_cons,
        polyModStep_xor, ih _ _ (Nat.succ.inj hlen)]

lemma polyModStep_of_lt (hc : c < 2 ^ 25) (v : UInt8) : polyModStep c v = c <<< 5 ^^^ v.toNat := by
  have hlow : c &&& 0x1ffffff = c := by
    rw [show 0x1ffffff = 2 ^ 25 - 1 from rfl, Nat.and_two_pow_sub_one_eq_mod, Nat.mod_eq_of_lt hc]
  have hhigh : c >>> 25 = 0 := by rw [Nat.shiftRight_eq_div_pow, Nat.div_eq_of_lt hc]
  rw [polyModStep_eq, hlow, hhigh, xorBits_zero, Nat.xor_zero]

lemma shiftLeft_xor_low (m : ℕ) : (m >>> 5) <<< 5 ^^^ (m &&& 31) = m := by
  refine Nat.eq_of_testBit_eq fun i => ?_
  rw [Nat.testBit_xor, Nat.testBit_shiftLeft, Nat.testBit_shiftRight, Nat.testBit_and,
    show 31 = 2 ^ 5 - 1 from rfl, Nat.testBit_two_pow_sub_one]
  rcases lt_or_ge i 5 with hi | hi
  · simp [hi, not_le.mpr hi]
  · simp [hi, not_lt.mpr hi, Nat.add_sub_of_le hi]

lemma polyMod_groups {m k : ℕ} (hm : m < 2 ^ 30) (hk : k ≤ 6) :
    ((List.range k).map fun i => UInt8.ofNat ((m >>> (5 * (5 - i))) &&& 31)).foldl polyModStep 0 =
      m >>> (5 * (6 - k)) := by
  induction k with
  | zero => exact (Nat.shiftRight_eq_zero m 30 hm).symm
  | succ k ih =>
    have hlt : m >>> (5 * (6 - k)) < 2 ^ 25 := by
      rw [Nat.shiftRight_eq_div_pow, Nat.div_lt_iff_lt_mul (Nat.two_pow_pos _), ← pow_add]
      exact hm.trans_le (Nat.pow_le_pow_right (by decide) (by omega))
    have hshift : m >>> (5 * (6 - k)) = (m >>> (5 * (5 - k))) >>> 5 := by
      rw [← Nat.shiftRight_add]
      congr 1
      omega
    have hbyte : (UInt8.ofNat ((m >>> (5 * (5 - k))) &&& 31)).toNat =
        (m >>> (5 * (5 - k))) &&& 31 :=
      UInt8.toNat_ofNat_of_lt' (Nat.and_le_right.trans_lt (by decide))
    rw [List.range_succ, List.map_append, List.foldl_append, ih (by omega), List.map_singleton,
      List.foldl_cons, List.foldl_nil, polyModStep_of_lt hlt, hbyte, hshift, shiftLeft_xor_low,
      show 6 - (k + 1) = 5 - k by omega]

lemma length_createChecksum (hrp values : List UInt8) :
    (createChecksum hrp values).length = 6 := by
  rw [createChecksum, List.length_map, List.length_range]

lemma createChecksum_lt (hrp values : List UInt8) : ∀ v ∈ createChecksum hrp values, v < 32 := by
  rw [createChecksum, List.forall_mem_map]
  intro i _
  rw [UInt8.lt_iff_toNat_lt, UInt8.toNat_ofNat']
  exact (Nat.mod_le _ _).trans_lt (Nat.and_le_right.trans_lt (by decide))

/-- **The checksum verifies.** -/
theorem verifyChecksum_createChecksum (hrp values : List UInt8) :
    verifyChecksum hrp (values ++ createChecksum hrp values) = true := by
  set c := (expandHRP hrp ++ values).foldl polyModStep 1 with hc
  set m := (List.replicate 6 0).foldl polyModStep c ^^^ 1 with hm
  have hsum : createChecksum hrp values =
      (List.range 6).map fun i => UInt8.ofNat ((m >>> (5 * (5 - i))) &&& 31) := by
    rw [createChecksum, polyMod, List.foldl_append]
  have hlt : m < 2 ^ 30 :=
    Nat.xor_lt_two_pow (polyMod_lt c (polyMod_lt 1 (by decide) _) _) (by decide)
  have hzip : (List.replicate 6 0).zipWith (· ^^^ ·) (createChecksum hrp values) =
      createChecksum hrp values := by
    refine List.ext_getElem (by simp [length_createChecksum]) fun i _ _ => ?_
    rw [List.getElem_zipWith, List.getElem_replicate, UInt8.zero_xor]
  have hlen : (List.replicate 6 (0 : UInt8)).length = (createChecksum hrp values).length := by
    rw [length_createChecksum, List.length_replicate]
  have hres := polyMod_xor c 0 hlen
  rw [hzip, Nat.xor_zero] at hres
  rw [verifyChecksum, decide_eq_true_iff, polyMod, ← List.append_assoc, List.foldl_append, ← hc,
    hres, hsum, polyMod_groups hlt le_rfl, Nat.sub_self, Nat.mul_zero, Nat.shiftRight_zero, hm,
    ← Nat.xor_assoc, Nat.xor_self, Nat.zero_xor]

/-! ### Characters -/

lemma charset_spec :
    (∀ n < 32, charValue (character (UInt8.ofNat n)) = some (UInt8.ofNat n) ∧
      33 ≤ character (UInt8.ofNat n) ∧ character (UInt8.ofNat n) ≤ 126 ∧
      character (UInt8.ofNat n) ≠ 49 ∧
      ¬ (65 ≤ character (UInt8.ofNat n) ∧ character (UInt8.ofNat n) ≤ 90)) ∧
    ∀ x ∈ CHARSET, ∃ n < 32, UInt8.ofNat n < 32 ∧ character (UInt8.ofNat n) = x := by
  decide +kernel

lemma character_spec (hv : v < 32) :
    charValue (character v) = some v ∧ 33 ≤ character v ∧ character v ≤ 126 ∧
      character v ≠ 49 ∧ ¬ (65 ≤ character v ∧ character v ≤ 90) := by
  have h := charset_spec.1 v.toNat hv
  rwa [UInt8.ofNat_toNat] at h

lemma mem_charset {x : UInt8} (hx : x ∈ CHARSET) : ∃ v < 32, character v = x := by
  obtain ⟨n, -, h⟩ := charset_spec.2 x hx
  exact ⟨UInt8.ofNat n, h⟩

lemma mapM_charValue {vs : List UInt8} (hvs : ∀ v ∈ vs, v < 32) :
    (vs.map character).mapM charValue = some vs := by
  induction vs with
  | nil => rfl
  | cons v vs ih =>
    obtain ⟨hv, hvs⟩ := List.forall_mem_cons.mp hvs
    rw [List.map_cons, List.mapM_cons, (character_spec hv).1, ih hvs]
    rfl

lemma rfind_append {x : UInt8} {tail : List UInt8} (hx : x ∉ tail) (s : List UInt8) :
    rfind x (s ++ x :: tail) = some s.length := by
  have hnone : tail.reverse.idxOf? x = none := by
    rw [List.idxOf?_eq_none_iff]
    simpa using hx
  have hidx : (s ++ x :: tail).reverse.idxOf? x = some tail.length := by
    rw [List.reverse_append, List.reverse_cons, List.append_assoc, List.idxOf?,
      List.findIdx?_append, ← List.idxOf?, hnone]
    simp [List.idxOf?_cons]
  rw [rfind, hidx, Option.map_some, List.length_append, List.length_cons]
  congr 1
  omega

/-- A human-readable part as it is written: printable, without upper case. -/
def ValidHRP (hrp : List UInt8) : Prop :=
  hrp ≠ [] ∧ ∀ c ∈ hrp, 33 ≤ c ∧ c ≤ 126 ∧ ¬ (65 ≤ c ∧ c ≤ 90)

/-- **Of a string that is well formed, decoding is the check of its checksum.** -/
theorem decode_append (hhrp : ValidHRP hrp) {vs : List UInt8} (hvs : ∀ v ∈ vs, v < 32)
    (hsix : 6 ≤ vs.length) (hlen : hrp.length + 1 + vs.length ≤ 1023) :
    decode (hrp ++ 49 :: vs.map character) =
      if verifyChecksum hrp vs then (hrp, vs.take (vs.length - 6)) else ([], []) := by
  obtain ⟨hne, hchars⟩ := hhrp
  have htail : ∀ c ∈ vs.map character, 33 ≤ c ∧ c ≤ 126 ∧ c ≠ 49 ∧ ¬ (65 ≤ c ∧ c ≤ 90) :=
    List.forall_mem_map.mpr fun v hv => (character_spec (hvs v hv)).2
  have hall : ∀ c ∈ hrp ++ 49 :: vs.map character, 33 ≤ c ∧ c ≤ 126 ∧ ¬ (65 ≤ c ∧ c ≤ 90) := by
    refine List.forall_mem_append.mpr ⟨hchars, List.forall_mem_cons.mpr ⟨by decide, ?_⟩⟩
    exact fun c hc => ⟨(htail c hc).1, (htail c hc).2.1, (htail c hc).2.2.2⟩
  have hprintable : (hrp ++ 49 :: vs.map character).any (fun c => c < 33 || 126 < c) = false := by
    rw [List.any_eq_false]
    intro c hc
    obtain ⟨hlow, hhigh, -⟩ := hall c hc
    simp [hlow, hhigh]
  have hupper : (hrp ++ 49 :: vs.map character).any (fun c => 65 ≤ c && c ≤ 90) = false := by
    rw [List.any_eq_false]
    intro c hc
    rw [Bool.and_eq_true, decide_eq_true_iff, decide_eq_true_iff]
    exact (hall c hc).2.2
  have hpos : rfind 49 (hrp ++ 49 :: vs.map character) = some hrp.length :=
    rfind_append (fun hmem => (htail 49 hmem).2.2.1 rfl) hrp
  have hlength : (hrp ++ 49 :: vs.map character).length = hrp.length + 1 + vs.length := by
    rw [List.length_append, List.length_cons, List.length_map]
    omega
  have hfits : ¬ (1023 < (hrp ++ 49 :: vs.map character).length ∨ hrp.length = 0 ∨
      (hrp ++ 49 :: vs.map character).length < hrp.length + 7) := by
    have hpos := List.length_pos_iff.mpr hne
    omega
  have hdrop : (hrp ++ 49 :: vs.map character).drop (hrp.length + 1) = vs.map character := by
    rw [List.append_cons, List.drop_left' (by simp)]
  have hlower : ((hrp ++ 49 :: vs.map character).take hrp.length).map lowerCase = hrp := by
    rw [List.take_left]
    exact (List.map_congr_left fun c hc => if_neg (hchars c hc).2.2).trans (List.map_id hrp)
  rw [decode, hprintable, hupper, hpos, Bool.and_false, if_neg Bool.false_ne_true,
    if_neg Bool.false_ne_true]
  dsimp only
  rw [if_neg hfits, hdrop, mapM_charValue hvs, hlower]
  dsimp only
  cases verifyChecksum hrp vs <;> rfl

lemma encode_eq (hvs : ∀ v ∈ values, v < 32) :
    encode hrp values = hrp ++ 49 :: (values ++ createChecksum hrp values).map character := by
  have hall : (values ++ createChecksum hrp values).any (32 ≤ ·) = false := by
    rw [List.any_eq_false]
    intro v hv
    rw [decide_eq_true_iff, UInt8.not_le]
    exact List.forall_mem_append.mpr ⟨hvs, createChecksum_lt hrp values⟩ v hv
  rw [encode]
  exact if_neg (ne_true_of_eq_false hall)

end Bech32

end Agenor
