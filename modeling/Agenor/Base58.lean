import Agenor.Lib.Radix
import Agenor.Lib.Wrap
import Agenor.Lib.Fallible
import Mathlib.Data.List.DropRight
import Mathlib.Data.List.GetD

/-!
Base58 strings (`base58.cpp`).

A vector of bytes is a number with leading zero bytes, and so is a string, to the base 58 and with
leading ones; both conversions go from the one numeral to the other. The size of the buffer is
computed in an `int`. A `std::string` is read as a C string, up to the first NUL.
-/

namespace Agenor

open Lib.Radix Lib.Fallible Lib.Wrap

/-- All alphanumeric characters except for "0", "I", "O", and "l" -/
def pszBase58 : List UInt8 :=
  "123456789ABCDEFGHJKLMNPQRSTUVWXYZabcdefghijkmnopqrstuvwxyz".toList.map Char.toUInt8

/-- In the C locale. -/
def isspace (c : UInt8) : Bool := (9 ≤ c && c ≤ 13) || c == 32

/-- What is read through `str.c_str()`. -/
def cStr (str : List UInt8) : List UInt8 := str.takeWhile (· ≠ 0)

namespace Base58

/-- How a call ends that does not return. -/
inductive Base58Fault
  /-- The count of leading zeroes leaves the range of `int`. -/
  | overflow
  /-- The size of a vector is negative. -/
  | lengthError
  | assertFailed
  deriving DecidableEq

/-- `pszBase58[digit]` -/
def base58Char (digit : ℕ) : UInt8 := pszBase58.getD digit 0

/-- `strchr(pszBase58, c) - pszBase58` -/
def base58Digit (c : UInt8) : Option ℕ := pszBase58.idxOf? c

/-- The buffer, after the conversion of its size to `int`. -/
def allocate (size : ℤ) : Except Base58Fault State :=
  if wrap 32 size < 0 then .error .lengthError else .ok (State.init (wrap 32 size).toNat)

/-- "Process the characters": the buffer and where the loop stops, or `none` for an invalid
character. -/
def decodeLoop (b256 : State) : List UInt8 → Except Base58Fault (Option (State × List UInt8))
  | [] => .ok (some (b256, []))
  | c :: psz =>
    if isspace c then .ok (some (b256, c :: psz))
    else
      match base58Digit c with
      | none => .ok none
      | some ch =>
        match b256.step 58 256 ch with
        | none => .error .assertFailed
        | some b256 => decodeLoop b256 psz

/-- `DecodeBase58` of a C string: the vector, or `none` for `false`. -/
def decodeBase58 (psz : List UInt8) : Except Base58Fault (Option (List UInt8)) := do
  let psz := psz.dropWhile isspace
  -- `'1'` is the digit zero
  let zeroes := (psz.takeWhile (· = 49)).length
  failIf (2 ^ 31 ≤ zeroes) .overflow
  let psz := psz.dropWhile (· = 49)
  -- the product is a `size_t`
  let b256 ← allocate ((psz.length * 733 % 2 ^ 64 / 1000 + 1 : ℕ) : ℤ)
  let r ← decodeLoop b256 psz
  return r.bind fun (b256, psz) =>
    if psz.dropWhile isspace ≠ [] then none
    else some (List.replicate zeroes 0 ++ b256.digits.map UInt8.ofNat)

/-- `DecodeBase58` of a `std::string`. -/
def decodeBase58Str (str : List UInt8) : Except Base58Fault (Option (List UInt8)) :=
  decodeBase58 (cStr str)

/-- "Process the bytes". -/
def encodeLoop (b58 : State) : List UInt8 → Except Base58Fault State
  | [] => .ok b58
  | c :: bytes =>
    match b58.step 256 58 c.toNat with
    | none => .error .assertFailed
    | some b58 => encodeLoop b58 bytes

def encodeBase58 (vch : List UInt8) : Except Base58Fault (List UInt8) := do
  let zeroes := (vch.takeWhile (· = 0)).length
  failIf (2 ^ 31 ≤ zeroes) .overflow
  let bytes := vch.dropWhile (· = 0)
  -- the product is a `ptrdiff_t`
  let b58 ← allocate ((wrap 64 (bytes.length * 138)).tdiv 100 + 1)
  let b58 ← encodeLoop b58 bytes
  return List.replicate zeroes 49 ++ b58.digits.map base58Char

section Check

variable (Hash : List UInt8 → List UInt8)

def decodeBase58Check (str : List UInt8) : Except Base58Fault (Option (List UInt8)) := do
  let r ← decodeBase58Str str
  return r.bind fun vchRet =>
    let size := vchRet.length - 4
    if vchRet.length < 4 ∨ (Hash (vchRet.take size)).take 4 ≠ vchRet.drop size then none
    else some (vchRet.take size)

end Check

/-! ### What it is to do -/

/-- The string without leading and trailing whitespace. -/
def trim (str : List UInt8) : List UInt8 := (str.dropWhile isspace).rdropWhile isspace

/-- The sizes are in the range of `int`. -/
def VectorFits (vch : List UInt8) : Prop :=
  (vch.takeWhile (· = 0)).length < 2 ^ 31 ∧
    (vch.dropWhile (· = 0)).length * 138 / 100 + 1 < 2 ^ 31

/-- The same for a string: its length counts from the first character that is neither a leading
space nor a leading one. -/
def StringFits (str : List UInt8) : Prop :=
  (((cStr str).dropWhile isspace).takeWhile (· = 49)).length < 2 ^ 31 ∧
    (((cStr str).dropWhile isspace).dropWhile (· = 49)).length * 733 / 1000 + 1 < 2 ^ 31

/-! ### The characters -/

lemma base58Digit_char : ∀ digit < 58, base58Digit (base58Char digit) = some digit := by decide

lemma base58Char_lt {digit : ℕ} {c : UInt8} (h : base58Digit c = some digit) :
    digit < 58 ∧ base58Char digit = c := by
  obtain ⟨hlt, hget, -⟩ := List.idxOf?_eq_some_iff.mp h
  refine ⟨hlt, ?_⟩
  rw [base58Char, List.getD_eq_getElem _ _ hlt, hget]

lemma isspace_base58Char : ∀ digit < 58,
    isspace (base58Char digit) = false ∧ base58Char digit ≠ 0 := by decide

lemma base58Char_eq_one (digit : ℕ) : base58Char digit = 49 ↔ digit = 0 := by
  rcases Nat.lt_or_ge digit 58 with h | h
  · revert digit
    decide
  · rw [base58Char, List.getD_eq_default _ _ h]
    refine iff_of_false (by decide) (by omega)

/-! ### The numerals -/

/-- The vector with this many leading zeros. -/
def bytesOf (z n : ℕ) : List UInt8 := (numeral 256 z n).map UInt8.ofNat

/-- The string with this many leading ones. -/
def textOf (z n : ℕ) : List UInt8 := (numeral 58 z n).map base58Char

variable {z n size digit : ℕ} {s s' : State} {v e str psz rest : List UInt8} {ds : List ℕ}

lemma toNat_bytesOf (z n : ℕ) : (bytesOf z n).map UInt8.toNat = numeral 256 z n := by
  rw [bytesOf, List.map_map]
  refine (List.map_congr_left fun d hd => ?_).trans (List.map_id _)
  rcases List.mem_append.mp hd with hd | hd
  · rw [List.eq_of_mem_replicate hd]
    rfl
  · exact UInt8.toNat_ofNat_of_lt (Nat.digits_lt_base (by decide) (List.mem_reverse.mp hd))

lemma exists_bytesOf (v : List UInt8) : ∃ z n, v = bytesOf z n := by
  have hlt : ∀ d ∈ v.map UInt8.toNat, d < 256 :=
    List.forall_mem_map.mpr fun b _ => b.toNat_lt
  refine ⟨zeros (v.map UInt8.toNat),
    valueAfter 256 0 ((v.map UInt8.toNat).dropWhile (· = 0)), ?_⟩
  rw [bytesOf, numeral_eq (by decide) hlt, List.map_map]
  refine ((List.map_congr_left fun b _ => ?_).trans (List.map_id v)).symm
  exact UInt8.ofNat_toNat

lemma isZero_eq : (fun b : UInt8 => decide (b = 0)) = (fun d => decide (d = 0)) ∘ UInt8.toNat := by
  funext b
  exact decide_eq_decide.mpr UInt8.toNat_inj.symm

lemma takeWhile_bytesOf (z n : ℕ) : ((bytesOf z n).takeWhile (· = 0)).length = z := by
  have hz := zeros_numeral 256 z n
  rwa [← toNat_bytesOf, zeros, List.takeWhile_map, List.length_map, ← isZero_eq] at hz

lemma dropWhile_bytesOf (z n : ℕ) :
    ((bytesOf z n).dropWhile (· = 0)).map UInt8.toNat = (Nat.digits 256 n).reverse := by
  rw [← dropWhile_numeral 256 z n, ← toNat_bytesOf, List.dropWhile_map, isZero_eq]

lemma takeWhile_textOf (z n : ℕ) : ((textOf z n).takeWhile (· = 49)).length = z := by
  rw [textOf, List.takeWhile_map, List.length_map]
  refine (congrArg (fun p => ((numeral 58 z n).takeWhile p).length) ?_).trans (zeros_numeral 58 z n)
  funext d
  exact decide_eq_decide.mpr (base58Char_eq_one d)

lemma dropWhile_textOf (z n : ℕ) :
    (textOf z n).dropWhile (· = 49) = (Nat.digits 58 n).reverse.map base58Char := by
  rw [textOf, List.dropWhile_map, ← dropWhile_numeral 58 z n]
  refine congrArg (fun p => ((numeral 58 z n).dropWhile p).map base58Char) ?_
  funext d
  exact decide_eq_decide.mpr (base58Char_eq_one d)

lemma mem_textOf {c : UInt8} (h : c ∈ textOf z n) : isspace c = false ∧ c ≠ 0 := by
  obtain ⟨d, hd, rfl⟩ := List.mem_map.mp h
  refine isspace_base58Char d ?_
  rcases List.mem_append.mp hd with hd | hd
  · rw [List.eq_of_mem_replicate hd]
    decide
  · exact Nat.digits_lt_base (by decide) (List.mem_reverse.mp hd)

/-! ### The loops -/

lemma encodeLoop_holds (h : Holds 58 size s n) (hr : encodeLoop s v = .ok s') :
    Holds 58 size s' (valueAfter 256 n (v.map UInt8.toNat)) := by
  induction v generalizing s n with
  | nil =>
    obtain rfl := Except.ok.inj hr
    exact h
  | cons c v ih =>
    rw [encodeLoop] at hr
    cases hstep : s.step 256 58 c.toNat with
    | none => simp [hstep] at hr
    | some t =>
      simp only [hstep] at hr
      exact ih (h.step (by decide) hstep) hr

lemma encodeLoop_fits (h : Holds 58 size s n)
    (hfits : valueAfter 256 n (v.map UInt8.toNat) < 58 ^ size) : ∃ s', encodeLoop s v = .ok s' := by
  induction v generalizing s n with
  | nil => exact ⟨s, rfl⟩
  | cons c v ih =>
    have hle := @le_valueAfter 256 (by decide) (256 * n + c.toNat) (v.map UInt8.toNat)
    rw [encodeLoop]
    cases hstep : s.step 256 58 c.toNat with
    | none => exact absurd ((h.step_eq_none_iff (by decide)).mp hstep) (hle.trans_lt hfits).not_ge
    | some t => exact ih (h.step (by decide) hstep) hfits

lemma decodeLoop_holds (h : Holds 256 size s n)
    (hr : decodeLoop s psz = .ok (some (s', rest))) :
    ∃ ds : List ℕ, (∀ d ∈ ds, d < 58) ∧ psz = ds.map base58Char ++ rest ∧
      Holds 256 size s' (valueAfter 58 n ds) := by
  induction psz generalizing s n with
  | nil =>
    obtain ⟨rfl, rfl⟩ : s = s' ∧ [] = rest := by simpa [decodeLoop] using hr
    exact ⟨[], nofun, rfl, h⟩
  | cons c psz ih =>
    rw [decodeLoop] at hr
    split_ifs at hr with hspace
    · obtain ⟨rfl, rfl⟩ : s = s' ∧ c :: psz = rest := by simpa using hr
      exact ⟨[], nofun, rfl, h⟩
    · cases hdigit : base58Digit c with
      | none => simp [hdigit] at hr
      | some digit =>
        cases hstep : s.step 58 256 digit with
        | none => simp [hdigit, hstep] at hr
        | some t =>
          simp only [hdigit, hstep] at hr
          obtain ⟨ds, hlt, rfl, hds⟩ := ih (h.step (by decide) hstep) hr
          obtain ⟨hd, rfl⟩ := base58Char_lt hdigit
          exact ⟨digit :: ds, List.forall_mem_cons.mpr ⟨hd, hlt⟩, rfl, hds⟩

lemma decodeLoop_fits (h : Holds 256 size s n) (hlt : ∀ d ∈ ds, d < 58)
    (hfits : valueAfter 58 n ds < 256 ^ size) :
    ∃ s', decodeLoop s (ds.map base58Char) = .ok (some (s', [])) ∧
      Holds 256 size s' (valueAfter 58 n ds) := by
  induction ds generalizing s n with
  | nil => exact ⟨s, rfl, h⟩
  | cons d ds ih =>
    obtain ⟨hd, hds⟩ := List.forall_mem_cons.mp hlt
    have hle := @le_valueAfter 58 (by decide) (58 * n + d) ds
    rw [List.map_cons, decodeLoop, (isspace_base58Char d hd).1, if_neg Bool.false_ne_true,
      base58Digit_char d hd]
    dsimp only
    cases hstep : s.step 58 256 d with
    | none => exact absurd ((h.step_eq_none_iff (by decide)).mp hstep) (hle.trans_lt hfits).not_ge
    | some t => exact ih (h.step (by decide) hstep) hds hfits

lemma decodeLoop_returns (h : Holds 256 size s n) (hroom : (n + 1) * 58 ^ psz.length ≤ 256 ^ size) :
    ∃ r, decodeLoop s psz = .ok r := by
  induction psz generalizing s n with
  | nil => exact ⟨_, rfl⟩
  | cons c psz ih =>
    rw [decodeLoop]
    split_ifs
    · exact ⟨_, rfl⟩
    · cases hdigit : base58Digit c with
      | none => exact ⟨_, rfl⟩
      | some digit =>
        have hd := (base58Char_lt hdigit).1
        have hnext : (58 * n + digit + 1) * 58 ^ psz.length ≤ 256 ^ size :=
          calc (58 * n + digit + 1) * 58 ^ psz.length ≤ (n + 1) * 58 * 58 ^ psz.length :=
                Nat.mul_le_mul_right _ (by omega)
            _ = (n + 1) * 58 ^ (psz.length + 1) := by ring
            _ ≤ 256 ^ size := hroom
        cases hstep : s.step 58 256 digit with
        | none =>
          have hover := (h.step_eq_none_iff (by decide)).mp hstep
          have hpos : 0 < 58 ^ psz.length := Nat.pow_pos (by decide)
          have hle := Nat.le_mul_of_pos_right (58 * n + digit + 1) hpos
          omega
        | some t =>
          dsimp only
          rw [hstep]
          exact ih (h.step (by decide) hstep) hnext

/-! ### The size of the buffer -/

lemma allocate_eq_ok {size : ℤ} (h : allocate size = .ok s) :
    0 ≤ wrap 32 size ∧ s = State.init (wrap 32 size).toNat := by
  rw [allocate] at h
  split_ifs at h with hneg
  exact ⟨not_lt.mp hneg, (Except.ok.inj h).symm⟩

lemma allocate_fits {k : ℕ} (h : k < 2 ^ 31) : allocate k = .ok (State.init k) := by
  have hwrap : wrap 32 k = k := @wrap_of_mem 31 _ (by omega) (by omega)
  rw [allocate, hwrap, if_neg (by omega), Int.toNat_natCast]

lemma pow_le_of_digits {k : ℕ} (hn : n ≠ 0) (h : k < (Nat.digits 256 n).length) : 256 ^ k ≤ n := by
  have hle := Nat.base_pow_length_digits_le 256 n (by decide) hn
  have hpow : 256 ^ (k + 1) ≤ 256 * n := (Nat.pow_le_pow_right (by decide) h).trans hle
  rw [pow_succ'] at hpow
  exact Nat.le_of_mul_le_mul_left hpow (by decide)

lemma fits_of_allocated
    (hsize : 0 ≤ wrap 32 ((wrap 64 ((Nat.digits 256 n).length * 138)).tdiv 100 + 1))
    (hn : n < 58 ^ (wrap 32 ((wrap 64 ((Nat.digits 256 n).length * 138)).tdiv 100 + 1)).toNat) :
    (Nat.digits 256 n).length * 138 / 100 + 1 < 2 ^ 31 := by
  generalize hk : (Nat.digits 256 n).length = k at hsize hn ⊢
  by_contra hover
  have hbound := @wrap_lt 31 ((wrap 64 (k * 138)).tdiv 100 + 1)
  rcases Nat.lt_or_ge (3 * 2 ^ 29) k with hlarge | hsmall
  · -- the number has too many digits for any size in the range
    have hzero : n ≠ 0 := by
      rintro rfl
      simp at hk
      omega
    generalize (wrap 32 ((wrap 64 (k * 138)).tdiv 100 + 1)) = size at hsize hn hbound
    have hle : size.toNat ≤ 4 * 2 ^ 29 := by omega
    have hpow := pow_le_of_digits hzero (hk ▸ hlarge)
    generalize 2 ^ 29 = m at hpow hle
    have hmax : 58 ^ size.toNat ≤ 256 ^ (3 * m) :=
      calc 58 ^ size.toNat ≤ 58 ^ (4 * m) := Nat.pow_le_pow_right (by decide) hle
        _ = (58 ^ 4) ^ m := pow_mul 58 4 m
        _ ≤ (256 ^ 3) ^ m := Nat.pow_le_pow_left (by decide) m
        _ = 256 ^ (3 * m) := (pow_mul 256 3 m).symm
    exact absurd (hn.trans_le (hmax.trans hpow)) (lt_irrefl n)
  · -- the size comes out negative
    rw [wrap_of_fits (by omega) (by omega), Int.tdiv_eq_ediv_of_nonneg (by omega)] at hsize
    have hsub : wrap 32 ((k : ℤ) * 138 / 100 + 1 - 2 ^ 32) = wrap 32 ((k : ℤ) * 138 / 100 + 1) :=
      Int.sub_bmod_right _ (2 ^ 32)
    rw [← hsub, @wrap_of_mem 31 _ (by omega) (by omega)] at hsize
    omega

/-! ### Encoding -/

lemma length_dropWhile_bytesOf (z n : ℕ) :
    ((bytesOf z n).dropWhile (· = 0)).length = (Nat.digits 256 n).length := by
  have hlen := congrArg List.length (dropWhile_bytesOf z n)
  rwa [List.length_map, List.length_reverse] at hlen

lemma vectorFits_bytesOf : VectorFits (bytesOf z n) ↔
    z < 2 ^ 31 ∧ (Nat.digits 256 n).length * 138 / 100 + 1 < 2 ^ 31 := by
  rw [VectorFits, takeWhile_bytesOf, length_dropWhile_bytesOf]

lemma textOf_eq (h : Holds 58 size s n) :
    List.replicate z 49 ++ s.digits.map base58Char = textOf z n := by
  rw [textOf, numeral, List.map_append, List.map_replicate, h.digits_eq (by decide)]
  rfl

lemma encodeBase58_eq_ok :
    encodeBase58 (bytesOf z n) = .ok e ↔ VectorFits (bytesOf z n) ∧ e = textOf z n := by
  have hvalue : valueAfter 256 0 (((bytesOf z n).dropWhile (· = 0)).map UInt8.toNat) = n := by
    rw [dropWhile_bytesOf, valueAfter_digits]
  rw [vectorFits_bytesOf]
  simp only [encodeBase58, bind_eq_ok, failIf_eq_ok, decide_eq_false_iff_not, pure_eq_ok,
    takeWhile_bytesOf, length_dropWhile_bytesOf, not_le]
  constructor
  · rintro ⟨-, hz, s, hs, s', hs', rfl⟩
    obtain ⟨hsize, rfl⟩ := allocate_eq_ok hs
    have hholds := encodeLoop_holds (Holds.init (by decide) _) hs'
    rw [hvalue] at hholds
    exact ⟨⟨hz, fits_of_allocated hsize (hholds.lt_pow (by decide))⟩, textOf_eq hholds⟩
  · rintro ⟨⟨hz, hfits⟩, rfl⟩
    have hsize : (wrap 64 ((Nat.digits 256 n).length * 138)).tdiv 100 + 1 =
        ((Nat.digits 256 n).length * 138 / 100 + 1 : ℕ) := by
      rw [wrap_of_fits (by omega) (by omega), Int.tdiv_eq_ediv_of_nonneg (by omega)]
      omega
    have hroom : n < 58 ^ ((Nat.digits 256 n).length * 138 / 100 + 1) :=
      (Nat.lt_base_pow_length_digits (by decide)).trans_le
        (pow_le_pow_div (by decide) (by decide) (by norm_num) _)
    obtain ⟨s', hs'⟩ := encodeLoop_fits (v := (bytesOf z n).dropWhile (· = 0))
      (Holds.init (by decide) _) (hvalue.trans_lt hroom)
    have hholds := encodeLoop_holds (Holds.init (by decide) _) hs'
    rw [hvalue] at hholds
    refine ⟨(), hz, _, ?_, s', hs', textOf_eq hholds⟩
    rw [hsize]
    exact allocate_fits hfits

/-! ### Decoding -/

lemma bytesOf_eq (h : Holds 256 size s n) :
    List.replicate z 0 ++ s.digits.map UInt8.ofNat = bytesOf z n := by
  rw [bytesOf, numeral, List.map_append, List.map_replicate, h.digits_eq (by decide)]
  rfl

lemma rdropWhile_textOf (h : ∀ c ∈ rest, isspace c = true) :
    (textOf z n ++ rest).rdropWhile isspace = textOf z n := by
  rw [List.rdropWhile, List.reverse_append, List.dropWhile_append_of_pos fun c hc =>
    h c (List.mem_reverse.mp hc)]
  have hnone : (textOf z n).rdropWhile isspace = textOf z n :=
    List.rdropWhile_eq_self_iff.mpr fun hne => by
      rw [(mem_textOf (List.getLast_mem hne)).1]
      exact Bool.false_ne_true
  exact hnone

lemma decodeBase58_accepts (h : decodeBase58 psz = .ok (some v)) :
    ∃ z n, v = bytesOf z n ∧ trim psz = textOf z n := by
  simp only [decodeBase58, bind_eq_ok, pure_eq_ok, failIf_eq_ok] at h
  obtain ⟨-, -, s, hs, r, hr, hsome⟩ := h
  obtain ⟨-, rfl⟩ := allocate_eq_ok hs
  obtain ⟨⟨s', rest⟩, rfl, hv⟩ := Option.bind_eq_some_iff.mp hsome
  dsimp only at hv
  split_ifs at hv with hspaces
  obtain rfl := Option.some.inj hv
  obtain ⟨ds, hlt, hds, hholds⟩ := decodeLoop_holds (Holds.init (by decide) _) hr
  -- what comes after the ones does not start with another one
  have hhead : ds.head? ≠ some 0 := by
    intro hzero
    obtain ⟨ds', rfl⟩ := List.head?_eq_some_iff.mp hzero
    have hnot := List.head?_dropWhile_not (· = 49) (psz.dropWhile isspace)
    rw [hds] at hnot
    have hone : decide (base58Char 0 = 49) = false := hnot
    exact absurd hone (by decide)
  have htext : psz.dropWhile isspace =
      textOf ((psz.dropWhile isspace).takeWhile (· = 49)).length (valueAfter 58 0 ds) ++ rest := by
    rw [textOf, numeral, digits_value (by decide) hlt hhead, List.map_append, List.map_replicate,
      List.append_assoc, ← hds]
    show psz.dropWhile isspace = List.replicate _ 49 ++ _
    rw [takeWhile_eq_replicate, List.takeWhile_append_dropWhile]
  refine ⟨_, _, bytesOf_eq hholds, ?_⟩
  rw [trim, htext, rdropWhile_textOf (List.dropWhile_eq_nil_iff.mp (not_not.mp hspaces)), ← htext]

lemma pow_58_le : 58 ^ 1000 ≤ 256 ^ 733 := by decide +kernel

lemma decodeBase58_textOf (hz : z < 2 ^ 31)
    (hlen : (Nat.digits 58 n).length * 733 / 1000 + 1 < 2 ^ 31) :
    decodeBase58 (textOf z n) = .ok (some (bytesOf z n)) := by
  have hlt : ∀ d ∈ (Nat.digits 58 n).reverse, d < 58 :=
    fun d hd => Nat.digits_lt_base (by decide) (List.mem_reverse.mp hd)
  have hspaces : (textOf z n).dropWhile isspace = textOf z n :=
    List.dropWhile_eq_self_iff.mpr fun hne => by
      rw [(mem_textOf (List.getElem_mem hne)).1]
      exact Bool.false_ne_true
  have hroom : n < 256 ^ ((Nat.digits 58 n).length * 733 / 1000 + 1) :=
    (Nat.lt_base_pow_length_digits (by decide)).trans_le
      (pow_le_pow_div (by decide) (by decide) pow_58_le _)
  obtain ⟨s', hs', hholds⟩ := decodeLoop_fits (Holds.init (by decide) _) hlt
    ((valueAfter_digits 58 n).trans_lt hroom)
  rw [valueAfter_digits] at hholds
  simp only [decodeBase58, bind_eq_ok, pure_eq_ok, failIf_eq_ok, decide_eq_false_iff_not, not_le,
    hspaces, takeWhile_textOf, dropWhile_textOf, List.length_map, List.length_reverse]
  refine ⟨(), hz, _, ?_, _, hs', ?_⟩
  · rw [Nat.mod_eq_of_lt (by omega)]
    exact allocate_fits hlen
  · exact congrArg some (bytesOf_eq hholds)

lemma decodeBase58Str_returns (h : StringFits str) : ∃ r, decodeBase58Str str = .ok r := by
  obtain ⟨hz, hlen⟩ := h
  have hroom : 58 ^ (((cStr str).dropWhile isspace).dropWhile (· = 49)).length ≤
      256 ^ ((((cStr str).dropWhile isspace).dropWhile (· = 49)).length * 733 / 1000 + 1) :=
    pow_le_pow_div (by decide) (by decide) pow_58_le _
  obtain ⟨r, hr⟩ := decodeLoop_returns (Holds.init (by decide) _)
    (((congrArg (· * _) (zero_add 1)).trans (one_mul _)).trans_le hroom)
  simp only [decodeBase58Str, decodeBase58, bind_eq_ok, pure_eq_ok, failIf_eq_ok,
    decide_eq_false_iff_not, not_le]
  refine ⟨_, (), hz, _, ?_, r, hr, rfl⟩
  rw [Nat.mod_eq_of_lt (by omega)]
  exact allocate_fits hlen

/-! ### Both ways -/

/-- The vector comes back from its encoding. -/
def RoundTrips (v : List UInt8) : Prop :=
  ∃ e, encodeBase58 v = .ok e ∧ decodeBase58Str e = .ok (some v)

lemma cStr_eq_self (h : 0 ∉ str) : cStr str = str :=
  List.takeWhile_eq_self_iff.mpr fun _ hc => decide_eq_true fun h0 => h (h0 ▸ hc)

lemma mem_trim {c : UInt8} (h : c ∈ str) (hc : isspace c = false) : c ∈ trim str := by
  have hleft : c ∈ str.dropWhile isspace := by
    rw [← List.takeWhile_append_dropWhile (p := isspace) (l := str), List.mem_append] at h
    refine h.resolve_left fun hmem => ?_
    rw [List.mem_takeWhile_imp hmem] at hc
    cases hc
  rw [trim]
  rw [← List.rdropWhile_append_rtakeWhile (p := isspace) (l := str.dropWhile isspace),
    List.mem_append] at hleft
  refine hleft.resolve_right fun hmem => ?_
  rw [List.mem_rtakeWhile_imp hmem] at hc
  cases hc

lemma roundTrips_iff (v : List UInt8) : RoundTrips v ↔ VectorFits v := by
  obtain ⟨z, n, rfl⟩ := exists_bytesOf v
  constructor
  · rintro ⟨e, he, -⟩
    exact (encodeBase58_eq_ok.mp he).1
  · intro hfits
    refine ⟨textOf z n, encodeBase58_eq_ok.mpr ⟨hfits, rfl⟩, ?_⟩
    obtain ⟨hz, hk⟩ := vectorFits_bytesOf.mp hfits
    -- the string is not longer than its buffer
    have hlen : (Nat.digits 58 n).length ≤ (Nat.digits 256 n).length * 138 / 100 + 1 :=
      (Nat.digits_length_le_iff (by decide) n).mpr
        ((Nat.lt_base_pow_length_digits (by decide)).trans_le
          (pow_le_pow_div (by decide) (by decide) (by norm_num) _))
    rw [decodeBase58Str, cStr_eq_self fun h0 => (mem_textOf h0).2 rfl]
    exact decodeBase58_textOf hz (by omega)

lemma encodeBase58_trim_iff (h : decodeBase58Str str = .ok (some v)) :
    encodeBase58 v = .ok (trim str) ↔ 0 ∉ str ∧ VectorFits v := by
  obtain ⟨z, n, rfl, htrim⟩ := decodeBase58_accepts h
  rw [encodeBase58_eq_ok, and_comm]
  refine and_congr_left fun _ => ⟨fun heq h0 => ?_, fun h0 => ?_⟩
  · have hmem := mem_trim h0 (by decide)
    rw [heq] at hmem
    exact (mem_textOf hmem).2 rfl
  · rwa [cStr_eq_self h0] at htrim

lemma trim_eq_trim {str' : List UInt8} (h0 : 0 ∉ str) (h0' : 0 ∉ str')
    (h : decodeBase58Str str = .ok (some v)) (h' : decodeBase58Str str' = .ok (some v)) :
    trim str = trim str' := by
  obtain ⟨z, n, rfl, htrim⟩ := decodeBase58_accepts h
  obtain ⟨z', n', hv, htrim'⟩ := decodeBase58_accepts h'
  rw [cStr_eq_self h0] at htrim
  rw [cStr_eq_self h0'] at htrim'
  have hz := takeWhile_bytesOf z n
  have hn := dropWhile_bytesOf z n
  rw [hv, takeWhile_bytesOf] at hz
  rw [hv, dropWhile_bytesOf, List.reverse_inj, Nat.digits_inj_iff] at hn
  rw [htrim, htrim', hz, hn]

lemma decodeBase58Str_of_check {Hash : List UInt8 → List UInt8} {data : List UInt8}
    (h : decodeBase58Check Hash str = .ok (some data)) :
    decodeBase58Str str = .ok (some (data ++ (Hash data).take 4)) := by
  simp only [decodeBase58Check, bind_eq_ok, pure_eq_ok] at h
  obtain ⟨r, hr, hsome⟩ := h
  obtain ⟨vchRet, rfl, hv⟩ := Option.bind_eq_some_iff.mp hsome
  split_ifs at hv with hcheck
  obtain rfl := Option.some.inj hv
  rw [not_or, not_not] at hcheck
  rw [hr, hcheck.2, List.take_append_drop]

/-- **Base58 is canonical.** Exactly the vectors whose sizes fit come back; the decoder returns for
every string whose sizes fit; and an accepted string is the encoding of what is returned, up to
whitespace around it, exactly if it has no NUL. So the address or key that a string without NUL
decodes to determines the string. -/
theorem base58_canonical_iff (Hash : List UInt8 → List UInt8) :
    (∀ v, RoundTrips v ↔ VectorFits v) ∧
    (∀ str, StringFits str → ∃ r, decodeBase58Str str = .ok r) ∧
    (∀ str v, decodeBase58Str str = .ok (some v) →
      (encodeBase58 v = .ok (trim str) ↔ 0 ∉ str ∧ VectorFits v)) ∧
    ∀ str str' data, 0 ∉ str → 0 ∉ str' → decodeBase58Check Hash str = .ok (some data) →
      decodeBase58Check Hash str' = .ok (some data) → trim str = trim str' :=
  ⟨roundTrips_iff, fun _ => decodeBase58Str_returns, fun _ _ => encodeBase58_trim_iff,
    fun _ _ _ h0 h0' h h' =>
      trim_eq_trim h0 h0' (decodeBase58Str_of_check h) (decodeBase58Str_of_check h')⟩

/-- A string that goes on behind a NUL decodes like the part before it. -/
theorem not_canonical_nul : ∃ v,
    decodeBase58Str [50, 0, 88] = .ok (some v) ∧ decodeBase58Str [50] = .ok (some v) ∧
    StringFits [50, 0, 88] ∧ encodeBase58 v = .ok [50] ∧
    ¬ encodeBase58 v = .ok (trim [50, 0, 88]) ∧ trim [50, 0, 88] ≠ trim [50] := by
  exact ⟨[1], by decide, by decide, ⟨by decide, by decide⟩, by decide, by decide, by decide⟩

end Base58

end Agenor
