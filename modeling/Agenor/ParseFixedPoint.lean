import Agenor.Lib.Decimal
import Agenor.Lib.Fallible

/-!
Parsing a decimal amount to a fixed-point integer (`ParseFixedPoint` of `utilstrencodings.cpp`).

The digits are collected without the zeros at the end, which are only counted; the exponent is the
literal one, less the digits of the fraction, plus those zeros. Every operation on an integer of the
machine is checked against its range.
-/

namespace Agenor

open Lib.Decimal Lib.Fallible

namespace FixedPoint

/-- How a call ends that does not return `true`: it returns `false`, or an operation leaves the
range of its type. -/
inductive Stop
  | refused
  | overflow
  deriving DecidableEq

def int64 (x : ℤ) : Except Stop ℤ := if -2 ^ 63 ≤ x ∧ x < 2 ^ 63 then .ok x else .error .overflow

def int32 (x : ℤ) : Except Stop ℤ := if -2 ^ 31 ≤ x ∧ x < 2 ^ 31 then .ok x else .error .overflow

def UPPER_BOUND : ℤ := 1000000000000000000 - 1

def isDigit (ch : UInt8) : Bool := 48 ≤ ch && ch ≤ 57

def startsWithDigit (val : List UInt8) : Bool := val.head?.any isDigit

/-- What has been read of the mantissa. -/
structure Scan where
  mantissa : ℤ
  mantissaTzeros : ℤ
  pointOfs : ℤ

/-- Multiplies by ten so many times. -/
def scale (tooLarge : ℤ → Bool) : ℕ → ℤ → Except Stop ℤ
  | 0, mantissa => .ok mantissa
  | i + 1, mantissa => do
    failIf (tooLarge mantissa) .refused
    let mantissa ← int64 (mantissa * 10)
    scale tooLarge i mantissa

def processMantissaDigit (ch : UInt8) (s : Scan) : Except Stop Scan := do
  if ch = 48 then
    let mantissaTzeros ← int32 (s.mantissaTzeros + 1)
    return { s with mantissaTzeros }
  else
    let mantissa ← scale (fun mantissa => UPPER_BOUND / 10 < mantissa)
      (s.mantissaTzeros + 1).toNat s.mantissa
    let mantissa ← int64 (mantissa + (ch.toNat - 48))
    return { s with mantissa, mantissaTzeros := 0 }

/-- The loop over digits; `point_ofs` is increased by `counts`, which is 1 behind the point. -/
def mantissaDigits (counts : ℤ) (s : Scan) : List UInt8 → Except Stop (Scan × List UInt8)
  | [] => .ok (s, [])
  | ch :: val =>
    if isDigit ch then do
      let s ← processMantissaDigit ch s
      let pointOfs ← int32 (s.pointOfs + counts)
      mantissaDigits counts { s with pointOfs } val
    else .ok (s, ch :: val)

def integerPart (s : Scan) : List UInt8 → Except Stop (Scan × List UInt8)
  | [] => .error .refused
  | ch :: val =>
    -- "pass single 0"
    if ch = 48 then .ok (s, val)
    else if isDigit ch then mantissaDigits 0 s (ch :: val)
    else .error .refused

def fractionPart (s : Scan) : List UInt8 → Except Stop (Scan × List UInt8)
  | [] => .ok (s, [])
  | ch :: val =>
    if ch = 46 then
      if startsWithDigit val then mantissaDigits 1 s val else .error .refused
    else .ok (s, ch :: val)

/-- The sign of the exponent, and what stands behind it. -/
def signOfExponent : List UInt8 → Bool × List UInt8
  | [] => (false, [])
  | ch :: val =>
    if ch = 43 then (false, val) else if ch = 45 then (true, val) else (false, ch :: val)

def exponentDigits (exponent : ℤ) : List UInt8 → Except Stop (ℤ × List UInt8)
  | [] => .ok (exponent, [])
  | ch :: val =>
    if isDigit ch then do
      failIf (UPPER_BOUND / 10 < exponent) .refused
      let exponent ← int64 (exponent * 10)
      let exponent ← int64 (exponent + ch.toNat)
      let exponent ← int64 (exponent - 48)
      exponentDigits exponent val
    else .ok (exponent, ch :: val)

/-- `exponent_sign`, `exponent`, and the rest. -/
def exponentPart : List UInt8 → Except Stop (Bool × ℤ × List UInt8)
  | [] => .ok (false, 0, [])
  | ch :: val =>
    if ch = 101 ∨ ch = 69 then
      if startsWithDigit (signOfExponent val).2 then do
        let (exponent, rest) ← exponentDigits 0 (signOfExponent val).2
        return ((signOfExponent val).1, exponent, rest)
      else .error .refused
    else .ok (false, 0, ch :: val)

/-- `if (sign) x = -x;` -/
def negateIf (sign : Bool) (x : ℤ) : Except Stop ℤ := if sign then int64 (-x) else .ok x

/-- From "finalize exponent" on. -/
def finalize (mantissaSign : Bool) (s : Scan) (exponentSign : Bool) (exponent decimals : ℤ) :
    Except Stop ℤ := do
  let exponent ← negateIf exponentSign exponent
  let exponent ← int64 (exponent - s.pointOfs)
  let exponent ← int64 (exponent + s.mantissaTzeros)
  let mantissa ← negateIf mantissaSign s.mantissa
  let exponent ← int64 (exponent + decimals)
  -- "cannot represent values smaller than 10^-decimals"
  failIf (exponent < 0) .refused
  -- "cannot represent values larger than or equal to 10^(18-decimals)"
  failIf (18 ≤ exponent) .refused
  let mantissa ← scale
    (fun mantissa => UPPER_BOUND / 10 < mantissa ∨ mantissa < -(UPPER_BOUND / 10))
    exponent.toNat mantissa
  failIf (UPPER_BOUND < mantissa ∨ mantissa < -UPPER_BOUND) .refused
  return mantissa

/-- `mantissa_sign`, and what stands behind it. -/
def signOfMantissa : List UInt8 → Bool × List UInt8
  | [] => (false, [])
  | ch :: val => if ch = 45 then (true, val) else (false, ch :: val)

/-- What is read before the check for "trailing garbage": the mantissa, sign and value of the
exponent, and the rest. -/
def scanNumber (val : List UInt8) : Except Stop (Scan × Bool × ℤ × List UInt8) := do
  let (s, val) ← integerPart ⟨0, 0, 0⟩ val
  let (s, val) ← fractionPart s val
  let (exponentSign, exponent, val) ← exponentPart val
  return (s, exponentSign, exponent, val)

/-- `ParseFixedPoint`: the amount, where it returns `true`. -/
def parseFixedPoint (val : List UInt8) (decimals : ℤ) : Except Stop ℤ := do
  let (s, exponentSign, exponent, rest) ← scanNumber (signOfMantissa val).2
  failIf (rest ≠ []) .refused
  finalize (signOfMantissa val).1 s exponentSign exponent decimals

/-! ### The grammar -/

def digitChar (d : Fin 10) : UInt8 := UInt8.ofNat (48 + d)

/-- `int` of the grammar: no digit stands behind a leading zero. -/
inductive JsonInt
  | zero
  | digits (first : Fin 10) (ne : first ≠ 0) (rest : List (Fin 10))

def JsonInt.text : JsonInt → List UInt8
  | zero => [48]
  | digits first _ rest => (first :: rest).map digitChar

def JsonInt.value : JsonInt → ℕ
  | zero => 0
  | digits first _ rest => after 0 (first :: rest)

/-- `frac`, which may be absent. -/
def fracText : List (Fin 10) → List UInt8
  | [] => []
  | ds => 46 :: ds.map digitChar

/-- `exp` -/
structure JsonExp where
  e : UInt8
  isE : e = 101 ∨ e = 69
  /-- `+` or `-`, if there is a sign -/
  sign : Option Bool
  first : Fin 10
  rest : List (Fin 10)

def JsonExp.text (x : JsonExp) : List UInt8 :=
  x.e :: ((x.sign.elim [] fun minus => [if minus then 45 else 43]) ++
    (x.first :: x.rest).map digitChar)

/-- The digits of the exponent, without its sign. -/
def JsonExp.size (x : JsonExp) : ℕ := after 0 (x.first :: x.rest)

def JsonExp.minus (x : JsonExp) : Bool := x.sign.getD false

structure JsonNumber where
  minus : Bool
  int : JsonInt
  frac : List (Fin 10)
  exp : Option JsonExp

def expText (exp : Option JsonExp) : List UInt8 := exp.elim [] JsonExp.text

def signed (minus : Bool) (n : ℤ) : ℤ := if minus then -n else n

def exponentOf (exp : Option JsonExp) : ℤ := exp.elim 0 fun x => signed x.minus x.size

namespace JsonNumber

variable (n : JsonNumber)

def unsignedText : List UInt8 := n.int.text ++ (fracText n.frac ++ expText n.exp)

def text : List UInt8 := (if n.minus then [45] else []) ++ n.unsignedText

/-- All digits of the mantissa, as one number. -/
def digits : ℕ := after n.int.value n.frac

def value : ℚ :=
  (if n.minus then -1 else 1) * (n.digits * 10 ^ (exponentOf n.exp - n.frac.length))

end JsonNumber

/-! ### Digits -/

lemma isDigit_digitChar (d : Fin 10) : isDigit (digitChar d) = true := by
  revert d
  decide

lemma digitChar_eq (d : Fin 10) : digitChar d = 48 ↔ d = 0 := by
  revert d
  decide

lemma digitChar_toNat (d : Fin 10) : ((digitChar d).toNat : ℤ) = 48 + (d : ℕ) := by
  revert d
  decide

lemma exists_digitChar {ch : UInt8} (h : isDigit ch = true) : ∃ d, ch = digitChar d := by
  have hmem : 48 ≤ ch.toNat ∧ ch.toNat ≤ 57 := by simpa [isDigit, UInt8.le_iff_toNat_le] using h
  refine ⟨⟨ch.toNat - 48, by omega⟩, ?_⟩
  rw [digitChar, show 48 + (ch.toNat - 48) = ch.toNat by omega, UInt8.ofNat_toNat]

lemma exists_digits (val : List UInt8) :
    ∃ ds rest, val = List.map digitChar ds ++ rest ∧ startsWithDigit rest = false := by
  induction val with
  | nil => exact ⟨[], [], rfl, rfl⟩
  | cons ch val ih =>
    cases hch : isDigit ch with
    | false => exact ⟨[], ch :: val, rfl, hch⟩
    | true =>
      obtain ⟨d, rfl⟩ := exists_digitChar hch
      obtain ⟨ds, rest, rfl, hrest⟩ := ih
      exact ⟨d :: ds, rest, rfl, hrest⟩

/-! ### Machine integers -/

lemma int64_of_fits {x : ℤ} (h1 : -2 ^ 63 ≤ x) (h2 : x < 2 ^ 63) : int64 x = .ok x :=
  if_pos ⟨h1, h2⟩

lemma int32_of_fits {x : ℤ} (h1 : -2 ^ 31 ≤ x) (h2 : x < 2 ^ 31) : int32 x = .ok x :=
  if_pos ⟨h1, h2⟩

lemma scale_eq {tooLarge : ℤ → Bool} {i : ℕ} {m : ℤ}
    (hlarge : ∀ j, tooLarge (m * 10 ^ j) = decide (10 ^ 17 ≤ |m * 10 ^ j|)) (hm : |m| < 10 ^ 18) :
    scale tooLarge i m =
      if |m * 10 ^ i| < 10 ^ 18 then .ok (m * 10 ^ i) else .error .refused := by
  induction i generalizing m with
  | zero => rw [pow_zero, mul_one, if_pos hm, scale]
  | succ i ih =>
    have hnow := hlarge 0
    rw [pow_zero, mul_one] at hnow
    have habs : |m * 10 ^ (i + 1)| = |m| * 10 * 10 ^ i := by
      rw [abs_mul, abs_of_nonneg (show (0 : ℤ) ≤ 10 ^ (i + 1) by positivity), pow_succ']
      ring
    have hpow : (1 : ℤ) ≤ 10 ^ i := one_le_pow₀ (by norm_num)
    rw [scale, hnow]
    by_cases hover : (10 : ℤ) ^ 17 ≤ |m|
    · have hge : 10 ^ 18 ≤ |m| * 10 * 10 ^ i :=
        calc (10 : ℤ) ^ 18 ≤ |m| * 10 := by omega
          _ ≤ |m| * 10 * 10 ^ i := le_mul_of_one_le_right (by positivity) hpow
      rw [decide_eq_true hover, failIf, if_pos rfl, habs, if_neg hge.not_gt]
      rfl
    · have hnext : |m * 10| < 10 ^ 18 := by
        rw [abs_mul, abs_of_nonneg (show (0 : ℤ) ≤ 10 by norm_num)]
        omega
      have hrange := abs_lt.mp hnext
      have hrest := @ih (m * 10) (fun j => by
        rw [mul_assoc, ← pow_succ']
        exact hlarge (j + 1)) hnext
      rw [mul_assoc, ← pow_succ'] at hrest
      rw [decide_eq_false hover, failIf, if_neg Bool.false_ne_true, int64_of_fits (by omega)
        (by omega)]
      exact hrest

/-! ### The mantissa -/

/-- The digits read give `n`; at most `k` of them are counted as zeros at the end. -/
structure Scan.Reads (s : Scan) (n k : ℕ) : Prop where
  nonneg : 0 ≤ s.mantissa
  fits : s.mantissa < 10 ^ 18
  stripped : s.mantissa = 0 ∨ s.mantissa % 10 ≠ 0
  tzeros : 0 ≤ s.mantissaTzeros ∧ s.mantissaTzeros ≤ k
  value : s.mantissa * 10 ^ s.mantissaTzeros.toNat = n

/-- And the digits of the fraction are counted; a zero is one of the form `0.000`. -/
structure Scan.Holds (s : Scan) (n k : ℕ) : Prop extends s.Reads n k where
  pointOfs : 0 ≤ s.pointOfs ∧ s.pointOfs ≤ k
  zero : n = 0 → s.mantissaTzeros = s.pointOfs

variable {s : Scan} {n k : ℕ} {counts : ℤ} {val rest : List UInt8} {ds : List (Fin 10)}

lemma holds_init : Scan.Holds ⟨0, 0, 0⟩ 0 0 :=
  ⟨⟨le_rfl, by norm_num, .inl rfl, ⟨le_rfl, le_rfl⟩, rfl⟩, ⟨le_rfl, le_rfl⟩, fun _ => rfl⟩

lemma Scan.Reads.shifted (h : s.Reads n k) :
    s.mantissa * 10 ^ (s.mantissaTzeros + 1).toNat = ((10 * n : ℕ) : ℤ) := by
  rw [Int.toNat_add h.tzeros.1 (by norm_num), pow_add, ← mul_assoc, h.value]
  push_cast
  exact mul_comm _ _

lemma Scan.Reads.scale_eq (h : s.Reads n k) :
    scale (fun mantissa => UPPER_BOUND / 10 < mantissa) (s.mantissaTzeros + 1).toNat s.mantissa =
      if 10 * n < 10 ^ 18 then .ok ((10 * n : ℕ) : ℤ) else .error .refused := by
  rw [FixedPoint.scale_eq (fun j => ?_) (by rw [abs_of_nonneg h.nonneg]; exact h.fits), h.shifted,
    abs_of_nonneg (Int.natCast_nonneg _)]
  · exact if_congr (by omega) rfl rfl
  · have hnonneg : 0 ≤ s.mantissa * 10 ^ j := mul_nonneg h.nonneg (by positivity)
    rw [abs_of_nonneg hnonneg, UPPER_BOUND]
    exact decide_eq_decide.mpr (by omega)

lemma processMantissaDigit_cases (h : s.Reads n k) (d : Fin 10) (hk : k + 1 < 2 ^ 31) :
    (∃ s', processMantissaDigit (digitChar d) s = .ok s' ∧ s'.Reads (10 * n + d) (k + 1) ∧
      s'.pointOfs = s.pointOfs ∧ (d = 0 → s'.mantissaTzeros = s.mantissaTzeros + 1)) ∨
    (processMantissaDigit (digitChar d) s = .error .refused ∧ Long 18 (10 * n + d)) := by
  obtain ⟨ht0, htk⟩ := h.tzeros
  simp only [processMantissaDigit, digitChar_eq]
  by_cases hd : d = 0
  · subst hd
    rw [if_pos rfl, int32_of_fits (by omega) (by omega)]
    refine .inl ⟨_, rfl, ⟨h.nonneg, h.fits, h.stripped, ?_, h.shifted⟩, rfl, fun _ => rfl⟩
    dsimp only
    omega
  · have hd0 : (d : ℕ) ≠ 0 := fun h0 => hd (Fin.ext h0)
    rw [if_neg hd, digitChar_toNat, h.scale_eq]
    by_cases hfits : 10 * n < 10 ^ 18
    · rw [if_pos hfits]
      have hsum :
          int64 (((10 * n : ℕ) : ℤ) + (48 + (d : ℕ) - 48)) = .ok ((10 * n + d : ℕ) : ℤ) := by
        rw [int64_of_fits (by omega) (by omega)]
        congr 1
        omega
      refine .inl ⟨⟨(10 * n + d : ℕ), 0, s.pointOfs⟩, ?_, ?_, rfl, fun h0 => absurd h0 hd⟩
      · show (int64 (((10 * n : ℕ) : ℤ) + (48 + (d : ℕ) - 48)) >>= _) = _
        rw [hsum]
        rfl
      · exact ⟨Int.natCast_nonneg _, by dsimp only; omega, .inr (by dsimp only; omega),
          ⟨le_rfl, Int.natCast_nonneg _⟩, mul_one _⟩
    · rw [if_neg hfits]
      exact .inr ⟨rfl, 0, by omega, by omega⟩

lemma mantissaDigits_cons (h : s.Holds n k) (d : Fin 10) (hk : k + 1 < 2 ^ 31)
    (hcounts : counts = 1 ∨ counts = 0 ∧ 0 < 10 * n + (d : ℕ)) (val : List UInt8) :
    (∃ s', mantissaDigits counts s (digitChar d :: val) = mantissaDigits counts s' val ∧
      s'.Holds (10 * n + d) (k + 1) ∧ s'.pointOfs = s.pointOfs + counts) ∨
    (mantissaDigits counts s (digitChar d :: val) = .error .refused ∧ Long 18 (10 * n + d)) := by
  obtain ⟨hp0, hpk⟩ := h.pointOfs
  simp only [mantissaDigits, isDigit_digitChar, if_true]
  rcases processMantissaDigit_cases h.toReads d hk with ⟨s', hs', hreads, hofs, hzero⟩ | ⟨hr, hlong⟩
  · left
    have hpoint : int32 (s'.pointOfs + counts) = .ok (s.pointOfs + counts) := by
      rw [hofs]
      exact int32_of_fits (by omega) (by omega)
    refine ⟨⟨s'.mantissa, s'.mantissaTzeros, s.pointOfs + counts⟩, ?_, ⟨⟨hreads.nonneg, hreads.fits,
      hreads.stripped, hreads.tzeros, hreads.value⟩, by dsimp only; omega, fun h0 => ?_⟩, rfl⟩
    · rw [hs']
      show (int32 (s'.pointOfs + counts) >>= _) = _
      rw [hpoint]
      rfl
    · -- the digit is a zero of the fraction
      have hn := h.zero (by omega)
      have htzeros := hzero (Fin.ext (by rw [Fin.val_zero]; omega))
      dsimp only
      omega
  · right
    rw [hr]
    exact ⟨rfl, hlong⟩

lemma mantissaDigits_cases (h : s.Holds n k) (hk : k + ds.length < 2 ^ 31)
    (hcounts : counts = 1 ∨ counts = 0 ∧ 0 < n) (hrest : startsWithDigit rest = false) :
    (∃ s', mantissaDigits counts s (ds.map digitChar ++ rest) = .ok (s', rest) ∧
      s'.Holds (after n ds) (k + ds.length) ∧ s'.pointOfs = s.pointOfs + counts * ds.length) ∨
    (mantissaDigits counts s (ds.map digitChar ++ rest) = .error .refused ∧
      Long 18 (after n ds)) := by
  induction ds generalizing s n k with
  | nil =>
    refine .inl ⟨s, ?_, h, by simp⟩
    cases rest with
    | nil => rfl
    | cons ch rest =>
      have hch : isDigit ch = false := hrest
      simp [mantissaDigits, hch]
  | cons d ds ih =>
    rw [List.length_cons] at hk
    rw [List.map_cons, List.cons_append, after_cons]
    rcases mantissaDigits_cons h d (by omega) (hcounts.imp_right fun ⟨h0, hn⟩ => ⟨h0, by omega⟩)
      (ds.map digitChar ++ rest) with ⟨s', hs', hholds, hofs⟩ | ⟨hr, hlong⟩
    · rw [hs', List.length_cons, ← Nat.add_assoc, Nat.add_right_comm]
      rcases ih hholds (by omega) (hcounts.imp_right fun ⟨h0, hn⟩ => ⟨h0, by omega⟩) with
        ⟨s'', hs'', hholds', hofs'⟩ | hr
      · refine .inl ⟨s'', hs'', hholds', ?_⟩
        rw [hofs', hofs]
        push_cast
        ring
      · exact .inr hr
    · rw [hr]
      exact .inr ⟨rfl, hlong.after ds⟩

/-! ### The parts of a number -/

lemma integerPart_cases (int : JsonInt) (hlen : int.text.length < 2 ^ 31)
    (hrest : int = .zero ∨ startsWithDigit rest = false) :
    (∃ s, integerPart ⟨0, 0, 0⟩ (int.text ++ rest) = .ok (s, rest) ∧
      s.Holds int.value int.text.length ∧ s.pointOfs = 0) ∨
    (integerPart ⟨0, 0, 0⟩ (int.text ++ rest) = .error .refused ∧ Long 18 int.value) := by
  cases int with
  | zero =>
    refine .inl ⟨⟨0, 0, 0⟩, rfl, ?_, rfl⟩
    exact ⟨⟨le_rfl, by norm_num, .inl rfl, ⟨le_rfl, Int.natCast_nonneg _⟩, rfl⟩,
      ⟨le_rfl, Int.natCast_nonneg _⟩, fun _ => rfl⟩
  | digits first ne ds =>
    have hfirst : (first : ℕ) ≠ 0 := fun h0 => ne (Fin.ext h0)
    have hnot := hrest.resolve_left nofun
    have htext : integerPart ⟨0, 0, 0⟩ ((JsonInt.digits first ne ds).text ++ rest) =
        mantissaDigits 0 ⟨0, 0, 0⟩ (digitChar first :: (ds.map digitChar ++ rest)) := by
      rw [JsonInt.text, List.map_cons, List.cons_append, integerPart,
        if_neg (mt (digitChar_eq first).mp ne), if_pos (isDigit_digitChar first)]
    have hsize : (JsonInt.digits first ne ds).text.length = ds.length + 1 := by
      simp [JsonInt.text]
    rw [hsize] at hlen
    rw [htext, hsize, JsonInt.value, after_cons]
    rcases mantissaDigits_cons holds_init first (by norm_num) (.inr ⟨rfl, by omega⟩)
      (ds.map digitChar ++ rest) with ⟨s', hs', hholds, hofs⟩ | ⟨hr, hlong⟩
    · rw [hs']
      have hk : 0 + 1 + ds.length < 2 ^ 31 := by omega
      rcases mantissaDigits_cases hholds hk (.inr ⟨rfl, by omega⟩) hnot with
        ⟨s'', hs'', hholds', hofs'⟩ | hr
      · refine .inl ⟨s'', hs'', ?_, ?_⟩
        · rwa [show 0 + 1 + ds.length = ds.length + 1 by omega] at hholds'
        · rw [hofs', hofs]
          simp
      · exact .inr hr
    · exact .inr ⟨hr, hlong.after ds⟩

lemma fractionPart_cases (h : s.Holds n k) (hk : k + ds.length < 2 ^ 31) (h0 : s.pointOfs = 0)
    (hpoint : ds = [] → rest.head? ≠ some 46) (hrest : ds ≠ [] → startsWithDigit rest = false) :
    (∃ s', fractionPart s (fracText ds ++ rest) = .ok (s', rest) ∧
      s'.Holds (after n ds) (k + ds.length) ∧ s'.pointOfs = ds.length) ∨
    (fractionPart s (fracText ds ++ rest) = .error .refused ∧ Long 18 (after n ds)) := by
  cases ds with
  | nil =>
    refine .inl ⟨s, ?_, h, h0⟩
    cases rest with
    | nil => rfl
    | cons ch rest =>
      have hch : ch ≠ 46 := by simpa using hpoint rfl
      simp [fracText, fractionPart, hch]
  | cons d ds =>
    have htext : fractionPart s (fracText (d :: ds) ++ rest) =
        mantissaDigits 1 s ((d :: ds).map digitChar ++ rest) := by
      have hstart : startsWithDigit ((d :: ds).map digitChar ++ rest) = true :=
        isDigit_digitChar d
      rw [fracText, List.cons_append, fractionPart, if_pos rfl, if_pos hstart]
      nofun
    rw [htext]
    rcases mantissaDigits_cases h hk (.inl rfl) (hrest (List.cons_ne_nil _ _)) with
      ⟨s', hs', hholds, hofs⟩ | hr
    · exact .inl ⟨s', hs', hholds, by rw [hofs, h0, zero_add, one_mul]⟩
    · exact .inr hr

lemma exponentDigits_cons {e : ℕ} (he : e < 10 ^ 18) (d : Fin 10) (val : List UInt8) :
    exponentDigits e (digitChar d :: val) =
      if 10 * e + d < 10 ^ 18 then exponentDigits ((10 * e + d : ℕ) : ℤ) val
      else .error .refused := by
  have hover : decide (UPPER_BOUND / 10 < (e : ℤ)) = !decide (10 * e + d < 10 ^ 18) := by
    rw [UPPER_BOUND, ← decide_not]
    exact decide_eq_decide.mpr (by omega)
  rw [exponentDigits, if_pos (isDigit_digitChar d), hover]
  by_cases hnext : 10 * e + (d : ℕ) < 10 ^ 18
  · rw [if_pos hnext, decide_eq_true hnext, digitChar_toNat, Bool.not_true, failIf,
      if_neg Bool.false_ne_true, ok_bind, int64_of_fits (by omega) (by omega), ok_bind,
      int64_of_fits (by omega) (by omega), ok_bind, int64_of_fits (by omega) (by omega), ok_bind]
    exact congrArg (exponentDigits · val) (by omega)
  · rw [if_neg hnext, decide_eq_false hnext]
    rfl

lemma exponentDigits_cases {e : ℕ} (he : e < 10 ^ 18) (hrest : startsWithDigit rest = false) :
    (exponentDigits e (ds.map digitChar ++ rest) = .ok ((after e ds : ℕ), rest) ∧
      after e ds < 10 ^ 18) ∨
    (exponentDigits e (ds.map digitChar ++ rest) = .error .refused ∧ 10 ^ 18 ≤ after e ds) := by
  induction ds generalizing e with
  | nil =>
    refine .inl ⟨?_, he⟩
    cases rest with
    | nil => rfl
    | cons ch rest =>
      have hch : isDigit ch = false := hrest
      simp [exponentDigits, hch]
  | cons d ds ih =>
    rw [List.map_cons, List.cons_append, exponentDigits_cons he, after_cons]
    by_cases hnext : 10 * e + (d : ℕ) < 10 ^ 18
    · rw [if_pos hnext]
      exact ih hnext
    · rw [if_neg hnext]
      exact .inr ⟨rfl, (not_lt.mp hnext).trans (le_after _ ds)⟩

lemma signOfExponent_text (x : JsonExp) (rest : List UInt8) :
    signOfExponent ((x.sign.elim [] fun minus => [if minus then 45 else 43]) ++
      (x.first :: x.rest).map digitChar ++ rest) =
      (x.minus, (x.first :: x.rest).map digitChar ++ rest) := by
  have hplus : digitChar x.first ≠ 43 := by
    generalize x.first = d
    revert d
    decide
  have hminus : digitChar x.first ≠ 45 := by
    generalize x.first = d
    revert d
    decide
  rw [JsonExp.minus]
  cases x.sign with
  | none => simp [signOfExponent, hplus, hminus]
  | some minus => cases minus <;> simp [signOfExponent]

lemma exponentPart_cases (exp : Option JsonExp)
    (hnone : exp = none → ∀ ch ∈ rest.head?, ¬ (ch = 101 ∨ ch = 69))
    (hrest : exp ≠ none → startsWithDigit rest = false) :
    (∃ e : ℕ, ∃ minus, exponentPart (expText exp ++ rest) = .ok (minus, (e : ℤ), rest) ∧
      e < 10 ^ 18 ∧ signed minus e = exponentOf exp) ∨
    (exponentPart (expText exp ++ rest) = .error .refused ∧
      ∃ x, exp = some x ∧ 10 ^ 18 ≤ x.size) := by
  cases exp with
  | none =>
    refine .inl ⟨0, false, ?_, by norm_num, rfl⟩
    cases rest with
    | nil => rfl
    | cons ch rest =>
      have hch : ¬ (ch = 101 ∨ ch = 69) := hnone rfl ch rfl
      show exponentPart (ch :: rest) = _
      rw [exponentPart, if_neg hch]
      rfl
  | some x =>
    have hstart : startsWithDigit ((x.first :: x.rest).map digitChar ++ rest) = true :=
      isDigit_digitChar x.first
    have htext : exponentPart (expText (some x) ++ rest) =
        (exponentDigits 0 ((x.first :: x.rest).map digitChar ++ rest) >>= fun r =>
          return (x.minus, r.1, r.2)) := by
      show exponentPart (x.e :: ((x.sign.elim [] fun minus => [if minus then 45 else 43]) ++
        (x.first :: x.rest).map digitChar ++ rest)) = _
      rw [exponentPart, if_pos x.isE, signOfExponent_text, if_pos hstart]
    rw [htext]
    rcases @exponentDigits_cases rest (x.first :: x.rest) 0 (by norm_num)
      (hrest (Option.some_ne_none x)) with ⟨hr, hlt⟩ | ⟨hr, hge⟩
    · refine .inl ⟨x.size, x.minus, ?_, hlt, rfl⟩
      rw [Nat.cast_zero] at hr
      rw [hr]
      rfl
    · rw [Nat.cast_zero] at hr
      rw [hr]
      exact .inr ⟨rfl, x, rfl, hge⟩

/-! ### The result -/

variable {decimals z : ℤ} {e : ℕ} {minus exponentSign : Bool}

lemma abs_signed (minus : Bool) (z : ℤ) : |signed minus z| = |z| := by
  cases minus
  · rfl
  · exact abs_neg z

lemma signed_mul (minus : Bool) (x y : ℤ) : signed minus x * y = signed minus (x * y) := by
  cases minus
  · rfl
  · exact neg_mul x y

lemma eq_signed_iff {minus : Bool} {x z : ℤ} : z = signed minus x ↔ signed minus z = x := by
  cases minus
  · exact Iff.rfl
  · exact neg_eq_iff_eq_neg.symm

lemma negateIf_eq {x : ℤ} (hx : |x| < 2 ^ 63) : negateIf minus x = .ok (signed minus x) := by
  have hrange := abs_lt.mp hx
  cases minus
  · rfl
  · exact int64_of_fits (by omega) (by omega)

/-- The power of ten that the mantissa is scaled by. -/
def Scan.exponent (s : Scan) (exponent decimals : ℤ) : ℤ :=
  exponent - s.pointOfs + s.mantissaTzeros + decimals

lemma finalize_eq (h : s.Holds n k) (hk : k < 2 ^ 31) (he : e < 10 ^ 18) (h0 : 0 ≤ decimals)
    (h8 : decimals ≤ 8) :
    finalize minus s exponentSign e decimals =
      let shift := s.exponent (signed exponentSign e) decimals
      if 0 ≤ shift ∧ shift < 18 ∧ s.mantissa.toNat * 10 ^ shift.toNat < 10 ^ 18 then
        .ok (signed minus (s.mantissa.toNat * 10 ^ shift.toNat : ℕ))
      else .error .refused := by
  obtain ⟨hp0, hpk⟩ := h.pointOfs
  obtain ⟨ht0, htk⟩ := h.tzeros
  have hm := h.fits
  obtain ⟨m, hm'⟩ := Int.eq_ofNat_of_zero_le h.nonneg
  rw [hm'] at hm
  have hsigned : |signed exponentSign (e : ℤ)| < 10 ^ 18 := by
    rw [abs_signed, abs_of_nonneg (Int.natCast_nonneg e)]
    omega
  rw [finalize, hm', negateIf_eq (by rw [abs_of_nonneg (Int.natCast_nonneg e)]; omega), ok_bind]
  generalize hE : signed exponentSign (e : ℤ) = E at hsigned
  obtain ⟨hE1, hE2⟩ := abs_lt.mp hsigned
  rw [int64_of_fits (by omega) (by omega), ok_bind, int64_of_fits (by omega) (by omega), ok_bind,
    negateIf_eq (by rw [abs_of_nonneg (Int.natCast_nonneg m)]; omega), ok_bind,
    int64_of_fits (by omega) (by omega), ok_bind]
  show _ = if 0 ≤ s.exponent E decimals ∧ s.exponent E decimals < 18 ∧
    m * 10 ^ (s.exponent E decimals).toNat < 10 ^ 18 then _ else _
  rw [show E - s.pointOfs + s.mantissaTzeros + decimals = s.exponent E decimals from rfl]
  generalize s.exponent E decimals = shift
  have hscale := @scale_eq (fun mantissa =>
    decide (UPPER_BOUND / 10 < mantissa ∨ mantissa < -(UPPER_BOUND / 10))) shift.toNat
    (signed minus m) (fun j => by
      rw [UPPER_BOUND]
      exact decide_eq_decide.mpr (by rw [le_abs]; omega))
    (by rw [abs_signed, abs_of_nonneg (Int.natCast_nonneg m)]; exact hm)
  have hvalue : signed minus m * 10 ^ shift.toNat = signed minus (m * 10 ^ shift.toNat : ℕ) := by
    rw [signed_mul]
    push_cast
    rfl
  rw [hvalue, abs_signed, abs_of_nonneg (Int.natCast_nonneg _)] at hscale
  by_cases hneg : shift < 0
  · rw [if_neg (by omega), decide_eq_true hneg]
    rfl
  by_cases hlarge : 18 ≤ shift
  · rw [if_neg (by omega), decide_eq_false hneg, decide_eq_true hlarge]
    rfl
  rw [decide_eq_false hneg, decide_eq_false hlarge, failIf, if_neg Bool.false_ne_true, ok_bind,
    ok_bind, hscale]
  by_cases hfits : m * 10 ^ shift.toNat < 10 ^ 18
  · have hbound := abs_signed minus (m * 10 ^ shift.toNat : ℕ)
    rw [abs_of_nonneg (Int.natCast_nonneg _)] at hbound
    have hrange := abs_le.mp hbound.le
    rw [if_pos (by exact_mod_cast hfits), if_pos ⟨by omega, by omega, hfits⟩, ok_bind,
      decide_eq_false (by rw [UPPER_BOUND]; omega), failIf, if_neg Bool.false_ne_true, ok_bind]
    rfl
  · rw [if_neg (by exact_mod_cast hfits), if_neg fun h => hfits h.2.2]
    rfl

lemma Scan.Reads.mul_pow (h : s.Reads n k) (j : ℤ) :
    (n : ℚ) * 10 ^ j = (s.mantissa.toNat : ℚ) * 10 ^ (j + s.mantissaTzeros) := by
  obtain ⟨m, hm⟩ := Int.eq_ofNat_of_zero_le h.nonneg
  obtain ⟨t, ht⟩ := Int.eq_ofNat_of_zero_le h.tzeros.1
  have hvalue := h.value
  rw [hm, ht, Int.toNat_natCast] at hvalue
  have hn : n = m * 10 ^ t := by exact_mod_cast hvalue.symm
  rw [hm, ht, Int.toNat_natCast, zpow_add₀ (by norm_num), zpow_natCast, hn]
  push_cast
  ring

lemma value_eq_iff (x : JsonNumber) : x.value * 10 ^ decimals = z ↔
    (x.digits : ℚ) * 10 ^ (exponentOf x.exp - x.frac.length + decimals) =
      (signed x.minus z : ℤ) := by
  rw [JsonNumber.value, mul_assoc, mul_assoc, ← zpow_add₀ (by norm_num)]
  cases x.minus
  · rw [if_neg Bool.false_ne_true, one_mul]
    exact Iff.rfl
  · rw [if_pos rfl, neg_one_mul, neg_eq_iff_eq_neg, signed, if_pos rfl, Int.cast_neg]

lemma Scan.Reads.mod_ne_zero (h : s.Reads n k) (hn : n ≠ 0) : s.mantissa.toNat % 10 ≠ 0 := by
  have hnonneg := h.nonneg
  have hne : s.mantissa ≠ 0 := by
    intro hzero
    have hvalue := h.value
    rw [hzero, zero_mul] at hvalue
    exact hn (by exact_mod_cast hvalue.symm)
  have hmod := h.stripped.resolve_left hne
  omega

lemma Scan.Holds.mantissa_cases (h : s.Holds n k) (hn : n ≠ 0 ∨ e = 0) (h0 : 0 ≤ decimals)
    (h8 : decimals ≤ 8) : s.mantissa.toNat % 10 ≠ 0 ∨ s.mantissa.toNat = 0 ∧
      0 ≤ s.exponent (signed exponentSign e) decimals ∧
      s.exponent (signed exponentSign e) decimals < (18 : ℕ) := by
  by_cases hzero : n = 0
  · have htzeros := h.zero hzero
    have hexp : signed exponentSign (e : ℤ) = 0 := by
      rw [hn.resolve_left (not_not.mpr hzero)]
      cases exponentSign <;> rfl
    have hvalue := h.value
    rw [hzero, Nat.cast_zero, mul_eq_zero, or_iff_left (by positivity)] at hvalue
    right
    rw [Scan.exponent, hexp, htzeros, hvalue]
    exact ⟨rfl, by omega, by omega⟩
  · exact .inl (h.mod_ne_zero hzero)

lemma Scan.exponent_eq (s : Scan) (x decimals : ℤ) :
    x - s.pointOfs + decimals + s.mantissaTzeros = s.exponent x decimals := by
  rw [Scan.exponent]
  ring

lemma finalize_eq_ok_iff (h : s.Holds n k) (hk : k < 2 ^ 31) (he : e < 10 ^ 18)
    (hn : n ≠ 0 ∨ e = 0) (h0 : 0 ≤ decimals) (h8 : decimals ≤ 8) :
    finalize minus s exponentSign e decimals = .ok z ↔
      (n : ℚ) * 10 ^ (signed exponentSign e - s.pointOfs + decimals) = (signed minus z : ℤ) ∧
        |z| < 10 ^ 18 := by
  rw [finalize_eq h hk he h0 h8, h.mul_pow, ← abs_signed minus z, s.exponent_eq,
    eq_int_iff (h.mantissa_cases hn h0 h8), ← eq_signed_iff]
  dsimp only
  split_ifs with hshift
  · rw [Except.ok.injEq]
    exact ⟨fun h => ⟨hshift, h.symm⟩, fun h => h.2.symm⟩
  · exact iff_of_false nofun fun h => hshift h.1

lemma not_eq_of_size (h : s.Holds n k) (hk : k < 2 ^ 31) (he : 10 ^ 18 ≤ e) (hn : n ≠ 0)
    (h0 : 0 ≤ decimals) (h8 : decimals ≤ 8) :
    ¬ ((n : ℚ) * 10 ^ (signed minus e - s.pointOfs + decimals) = z ∧ |z| < 10 ^ 18) := by
  obtain ⟨hp0, hpk⟩ := h.pointOfs
  obtain ⟨ht0, htk⟩ := h.tzeros
  rw [h.mul_pow, s.exponent_eq, eq_int_iff (.inl (h.mod_ne_zero hn)), Scan.exponent]
  rintro ⟨⟨hle, hlt, -⟩, -⟩
  cases minus
  · rw [signed, if_neg Bool.false_ne_true] at hlt
    omega
  · rw [signed, if_pos rfl] at hle
    omega

lemma not_eq_of_long {j : ℤ} (h : Long 18 n) : ¬ ((n : ℚ) * 10 ^ j = z ∧ |z| < 10 ^ 18) := by
  rintro ⟨hz, hlt⟩
  have hle := h.le_of_eq_int hz
  have habs := le_abs_self z
  omega

/-! ### Reading a number -/

/-- What may stand behind a number: nothing that would be read as a part of it. -/
structure Follows (x : JsonNumber) (rest : List UInt8) : Prop where
  int : x.int = .zero ∨ startsWithDigit (fracText x.frac ++ (expText x.exp ++ rest)) = false
  noFrac : x.frac = [] → (expText x.exp ++ rest).head? ≠ some 46
  frac : x.frac ≠ [] → startsWithDigit (expText x.exp ++ rest) = false
  noExp : x.exp = none → ∀ ch ∈ rest.head?, ¬ (ch = 101 ∨ ch = 69)
  exp : x.exp ≠ none → startsWithDigit rest = false

lemma scanNumber_cases (x : JsonNumber) (hx : Follows x rest)
    (hlen : x.unsignedText.length < 2 ^ 31) :
    (∃ (s : Scan) (e : ℕ) (minus : Bool) (k : ℕ),
      scanNumber (x.unsignedText ++ rest) = .ok (s, minus, (e : ℤ), rest) ∧ s.Holds x.digits k ∧
      k < 2 ^ 31 ∧ s.pointOfs = x.frac.length ∧ e < 10 ^ 18 ∧
      signed minus (e : ℤ) = exponentOf x.exp) ∨
    (scanNumber (x.unsignedText ++ rest) = .error .refused ∧
      (Long 18 x.digits ∨ ∃ (s : Scan) (k : ℕ) (y : JsonExp), s.Holds x.digits k ∧ k < 2 ^ 31 ∧
        s.pointOfs = x.frac.length ∧ x.exp = some y ∧ 10 ^ 18 ≤ y.size)) := by
  have hfrac : x.int.text.length + x.frac.length < 2 ^ 31 := by
    have hle : x.frac.length ≤ (fracText x.frac).length := by
      cases x.frac with
      | nil => exact le_rfl
      | cons d ds => simp [fracText]
    simp only [JsonNumber.unsignedText, List.length_append] at hlen
    omega
  rw [scanNumber, JsonNumber.unsignedText, List.append_assoc, List.append_assoc]
  rcases integerPart_cases x.int (by omega) hx.int with ⟨s, hs, hholds, hofs⟩ | ⟨hr, hlong⟩
  · rw [hs, ok_bind]
    dsimp only
    rcases fractionPart_cases hholds hfrac hofs hx.noFrac hx.frac with
      ⟨s', hs', hholds', hofs'⟩ | ⟨hr, hlong⟩
    · rw [hs', ok_bind]
      dsimp only
      rcases exponentPart_cases x.exp hx.noExp hx.exp with
        ⟨e, minus, he, hlt, hvalue⟩ | ⟨hr, y, hy, hge⟩
      · rw [he]
        exact .inl ⟨s', e, minus, _, rfl, hholds', hfrac, hofs', hlt, hvalue⟩
      · rw [hr]
        exact .inr ⟨rfl, .inr ⟨s', _, y, hholds', hfrac, hofs', hy, hge⟩⟩
    · rw [hr]
      exact .inr ⟨rfl, .inl hlong⟩
  · rw [hr]
    exact .inr ⟨rfl, .inl (hlong.after x.frac)⟩

/-! ### Numbers of the grammar -/

lemma startsWithDigit_expText (exp : Option JsonExp) : startsWithDigit (expText exp ++ []) = false ∧
    (expText exp ++ []).head? ≠ some 46 := by
  cases exp with
  | none => exact ⟨rfl, nofun⟩
  | some x =>
    show isDigit x.e = false ∧ some x.e ≠ some 46
    rcases x.isE with h | h <;> rw [h] <;> decide

lemma follows_nil (x : JsonNumber) : Follows x [] where
  int := by
    right
    cases x.frac with
    | nil => exact (startsWithDigit_expText x.exp).1
    | cons d ds => rfl
  noFrac _ := (startsWithDigit_expText x.exp).2
  frac _ := (startsWithDigit_expText x.exp).1
  noExp _ := nofun
  exp _ := rfl

lemma signOfMantissa_text (x : JsonNumber) : signOfMantissa x.text = (x.minus, x.unsignedText) := by
  have hhead : ∃ ch val, x.unsignedText = ch :: val ∧ ch ≠ 45 := by
    rw [JsonNumber.unsignedText]
    cases x.int with
    | zero => exact ⟨48, _, rfl, by decide⟩
    | digits first ne ds =>
      refine ⟨digitChar first, _, rfl, ?_⟩
      revert first
      decide
  obtain ⟨ch, val, htext, hne⟩ := hhead
  rw [JsonNumber.text, htext]
  cases x.minus
  · simp [signOfMantissa, hne]
  · rfl

lemma parseFixedPoint_text (x : JsonNumber) (hlen : x.text.length < 2 ^ 31) (h0 : 0 ≤ decimals)
    (h8 : decimals ≤ 8) (hx : x.value ≠ 0 ∨ x.exp = none) :
    parseFixedPoint x.text decimals = .ok z ↔ x.value * 10 ^ decimals = z ∧ |z| < 10 ^ 18 := by
  have hdigits : x.digits ≠ 0 ∨ x.exp = none :=
    hx.imp_left fun hne h0 => hne (by rw [JsonNumber.value, h0]; simp)
  have hunsigned : x.unsignedText.length < 2 ^ 31 := by
    rw [JsonNumber.text, List.length_append] at hlen
    omega
  have hscan := scanNumber_cases x (follows_nil x) hunsigned
  rw [List.append_nil] at hscan
  rw [value_eq_iff, parseFixedPoint, signOfMantissa_text]
  dsimp only
  rcases hscan with ⟨s, e, minus, k, hs, hholds, hk, hofs, hlt, hvalue⟩ | ⟨hr, hbig⟩
  · have he : x.digits ≠ 0 ∨ e = 0 := hdigits.imp_right fun hnone => by
      rw [hnone, exponentOf, Option.elim_none] at hvalue
      have habs := congrArg abs hvalue
      rw [abs_signed, abs_of_nonneg (Int.natCast_nonneg e), abs_zero] at habs
      exact_mod_cast habs
    rw [hs, ok_bind, ← hofs, ← hvalue, ← finalize_eq_ok_iff hholds hk hlt he h0 h8]
    rfl
  · rw [hr, ← abs_signed x.minus z]
    refine iff_of_false nofun ?_
    rcases hbig with hlong | ⟨s, k, y, hholds, hk, hofs, hy, hge⟩
    · exact not_eq_of_long hlong
    · have hne := hdigits.resolve_right (by rw [hy]; nofun)
      rw [hy, ← hofs]
      exact not_eq_of_size hholds hk hge hne h0 h8

/-! ### Other strings -/

lemma exists_int (val : List UInt8) : integerPart ⟨0, 0, 0⟩ val = .error .refused ∨
    ∃ (int : JsonInt) (rest : List UInt8), val = int.text ++ rest ∧
      (int = .zero ∨ startsWithDigit rest = false) := by
  cases val with
  | nil => exact .inl rfl
  | cons ch val =>
    by_cases hzero : ch = 48
    · exact .inr ⟨.zero, val, by rw [hzero]; rfl, .inl rfl⟩
    · cases hch : isDigit ch with
      | false => exact .inl (by rw [integerPart, if_neg hzero, hch]; rfl)
      | true =>
        obtain ⟨d, rfl⟩ := exists_digitChar hch
        obtain ⟨ds, rest, rfl, hrest⟩ := exists_digits val
        exact .inr ⟨.digits d (mt (digitChar_eq d).mpr hzero) ds, rest, rfl, .inr hrest⟩

lemma exists_frac (s : Scan) (val : List UInt8) : fractionPart s val = .error .refused ∨
    ∃ (ds : List (Fin 10)) (rest : List UInt8), val = fracText ds ++ rest ∧
      (ds = [] → rest.head? ≠ some 46) ∧ (ds ≠ [] → startsWithDigit rest = false) := by
  cases val with
  | nil => exact .inr ⟨[], [], rfl, nofun, fun h => absurd rfl h⟩
  | cons ch val =>
    by_cases hpoint : ch = 46
    · subst hpoint
      cases hstart : startsWithDigit val with
      | false => exact .inl (by rw [fractionPart, if_pos rfl, hstart]; rfl)
      | true =>
        obtain ⟨ds, rest, rfl, hrest⟩ := exists_digits val
        cases ds with
        | nil => exact absurd (hstart.symm.trans hrest) (by decide)
        | cons d ds => exact .inr ⟨d :: ds, rest, rfl, nofun, fun _ => hrest⟩
    · exact .inr ⟨[], ch :: val, rfl, fun _ h => hpoint (Option.some.inj h), fun h => absurd rfl h⟩

lemma exists_sign (val : List UInt8) : ∃ sign : Option Bool,
    val = (sign.elim [] fun minus => [if minus then 45 else 43]) ++ (signOfExponent val).2 := by
  cases val with
  | nil => exact ⟨none, rfl⟩
  | cons ch val =>
    rw [signOfExponent]
    split_ifs with hplus hminus
    · exact ⟨some false, by rw [hplus]; rfl⟩
    · exact ⟨some true, by rw [hminus]; rfl⟩
    · exact ⟨none, rfl⟩

lemma exists_exp (val : List UInt8) : exponentPart val = .error .refused ∨
    ∃ (exp : Option JsonExp) (rest : List UInt8), val = expText exp ++ rest ∧
      (exp = none → ∀ ch ∈ rest.head?, ¬ (ch = 101 ∨ ch = 69)) ∧
      (exp ≠ none → startsWithDigit rest = false) := by
  cases val with
  | nil => exact .inr ⟨none, [], rfl, fun _ => nofun, fun h => absurd rfl h⟩
  | cons ch val =>
    by_cases he : ch = 101 ∨ ch = 69
    · cases hstart : startsWithDigit (signOfExponent val).2 with
      | false => exact .inl (by rw [exponentPart, if_pos he, hstart]; rfl)
      | true =>
        obtain ⟨sign, hsign⟩ := exists_sign val
        obtain ⟨ds, rest, hds, hrest⟩ := exists_digits (signOfExponent val).2
        cases ds with
        | nil =>
          rw [hds] at hstart
          exact absurd (hstart.symm.trans hrest) (by decide)
        | cons d ds =>
          refine .inr ⟨some ⟨ch, he, sign, d, ds⟩, rest, ?_, nofun, fun _ => hrest⟩
          rw [hsign, hds]
          exact congrArg (ch :: ·) (List.append_assoc _ _ _).symm
    · refine .inr ⟨none, ch :: val, rfl, fun _ c hc => ?_, fun h => absurd rfl h⟩
      rwa [← Option.some.inj hc]

lemma exists_number (minus : Bool) (val : List UInt8) (hlen : val.length < 2 ^ 31) :
    scanNumber val = .error .refused ∨ ∃ (x : JsonNumber) (rest : List UInt8), x.minus = minus ∧
      val = x.unsignedText ++ rest ∧ Follows x rest := by
  rcases exists_int val with hr | ⟨int, rest, rfl, hint⟩
  · exact .inl (by rw [scanNumber, hr]; rfl)
  have hlen' : int.text.length < 2 ^ 31 := by
    rw [List.length_append] at hlen
    omega
  rcases integerPart_cases int hlen' hint with ⟨s, hs, hholds, hofs⟩ | ⟨hr, -⟩
  swap
  · exact .inl (by rw [scanNumber, hr]; rfl)
  rcases exists_frac s rest with hr | ⟨ds, rest, rfl, hnoFrac, hfrac⟩
  · exact .inl (by rw [scanNumber, hs, ok_bind]; dsimp only; rw [hr]; rfl)
  have hk : int.text.length + ds.length < 2 ^ 31 := by
    have hle : ds.length ≤ (fracText ds).length := by
      cases ds with
      | nil => exact le_rfl
      | cons d ds => simp [fracText]
    simp only [List.length_append] at hlen
    omega
  rcases fractionPart_cases hholds hk hofs hnoFrac hfrac with ⟨s', hs', -⟩ | ⟨hr, -⟩
  swap
  · exact .inl (by rw [scanNumber, hs, ok_bind]; dsimp only; rw [hr]; rfl)
  rcases exists_exp rest with hr | ⟨exp, rest, rfl, hnoExp, hexp⟩
  · exact .inl (by
      rw [scanNumber, hs, ok_bind]
      dsimp only
      rw [hs', ok_bind]
      dsimp only
      rw [hr]
      rfl)
  refine .inr ⟨⟨minus, int, ds, exp⟩, rest, rfl, ?_, hint, hnoFrac, hfrac, hnoExp, hexp⟩
  simp only [JsonNumber.unsignedText, List.append_assoc]

lemma signOfMantissa_spec (val : List UInt8) :
    val = (if (signOfMantissa val).1 then [45] else []) ++ (signOfMantissa val).2 := by
  cases val with
  | nil => rfl
  | cons ch val =>
    by_cases hminus : ch = 45
    · rw [signOfMantissa, if_pos hminus, hminus]
      rfl
    · rw [signOfMantissa, if_neg hminus]
      rfl

lemma parseFixedPoint_cases (val : List UInt8) (hlen : val.length < 2 ^ 31) (h0 : 0 ≤ decimals)
    (h8 : decimals ≤ 8) : parseFixedPoint val decimals = .error .refused ∨
      ∃ x : JsonNumber, val = x.text ∧ ∃ z, parseFixedPoint val decimals = .ok z := by
  have hval := signOfMantissa_spec val
  have hlen' : (signOfMantissa val).2.length < 2 ^ 31 := by
    rw [hval, List.length_append] at hlen
    omega
  rw [parseFixedPoint]
  dsimp only
  rcases exists_number (signOfMantissa val).1 _ hlen' with hr | ⟨x, rest, hminus, htext, hx⟩
  · exact .inl (by rw [hr]; rfl)
  have hunsigned : x.unsignedText.length < 2 ^ 31 := by
    rw [htext, List.length_append] at hlen'
    omega
  rcases scanNumber_cases x hx hunsigned with
    ⟨s, e, minus, k, hs, hholds, hk, -, hlt, -⟩ | ⟨hr, -⟩
  · rw [htext, hs, ok_bind]
    dsimp only
    cases rest with
    | cons ch rest => exact .inl rfl
    | nil =>
      rw [show failIf (decide (([] : List UInt8) ≠ [])) Stop.refused = .ok () from rfl, ok_bind,
        finalize_eq hholds hk hlt h0 h8]
      dsimp only
      split_ifs
      · refine .inr ⟨x, ?_, _, rfl⟩
        rw [JsonNumber.text, hminus, ← List.append_nil x.unsignedText, ← htext]
        exact hval
      · exact .inl rfl
  · exact .inl (by rw [htext, hr]; rfl)

/-- **`ParseFixedPoint` is exact.** No operation overflows; what is accepted is a number of the
grammar; and for a number that is not zero, or has no exponent, what is returned is its value in
units of `10 ^ -decimals`, exactly where that is an integer of at most 18 digits. -/
theorem parseFixedPoint_exact (val : List UInt8) (hlen : val.length < 2 ^ 31) (decimals : ℤ)
    (h0 : 0 ≤ decimals) (h8 : decimals ≤ 8) :
    parseFixedPoint val decimals ≠ .error .overflow ∧
    (∀ z, parseFixedPoint val decimals = .ok z → ∃ x : JsonNumber, val = x.text) ∧
    ∀ x : JsonNumber, val = x.text → x.value ≠ 0 ∨ x.exp = none → ∀ z,
      parseFixedPoint val decimals = .ok z ↔ x.value * 10 ^ decimals = z ∧ |z| < 10 ^ 18 := by
  refine ⟨fun hover => ?_, fun z hz => ?_, fun x hx hzero z => ?_⟩
  · rcases parseFixedPoint_cases val hlen h0 h8 with hr | ⟨x, -, z, hr⟩
    · exact absurd (hr.symm.trans hover) (by decide)
    · exact nomatch hr.symm.trans hover
  · rcases parseFixedPoint_cases val hlen h0 h8 with hr | ⟨x, hx, -⟩
    · exact nomatch hr.symm.trans hz
    · exact ⟨x, hx⟩
  · subst hx
    exact parseFixedPoint_text x hlen h0 h8 hzero

/-- `-0.1` -/
theorem parseFixedPoint_exact_tenth : parseFixedPoint [45, 48, 46, 49] 8 = .ok (-10000000) ∧
    ∃ x : JsonNumber, [45, 48, 46, 49] = x.text ∧ x.value * 10 ^ (8 : ℤ) = (-10000000 : ℤ) := by
  have hresult : parseFixedPoint [45, 48, 46, 49] 8 = .ok (-10000000) := by decide
  obtain ⟨-, -, hexact⟩ := parseFixedPoint_exact [45, 48, 46, 49] (by decide) 8 (by decide)
    (by decide)
  exact ⟨hresult, ⟨true, .zero, [1], none⟩, rfl,
    ((hexact ⟨true, .zero, [1], none⟩ rfl (.inr rfl) _).mp hresult).1⟩

end FixedPoint

end Agenor
