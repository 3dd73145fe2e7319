import Agenor.Base58
import Agenor.ParseFixedPoint
import Agenor.Transaction
import Mathlib.Tactic.FieldSimp

/-!
Amounts as text (`utilmoneystr.cpp`).

An amount is written with all eight places behind the point, of which the zeros at the end are cut
off again, but for two. It is read by a scan that stops at the first character it does not expect;
only spaces may follow. Every operation of the reader on an integer of the machine is checked
against its range.
-/

namespace Agenor

open Lib.Decimal Lib.Fallible

namespace Money

open FixedPoint (Stop isDigit digitChar startsWithDigit)

def CENT : ℤ := 1000000

/-! ### Writing -/

/-- `%d` for a number that is not negative, and with `width` also `%0*d`. -/
def printNat (width : ℕ) (n : ℕ) : List UInt8 := ((digits n).leftpad width 0).map digitChar

/-- `nTrim`; the argument is `i + 1`. The point stops the loop before `i - 2` is negative. -/
def countTrim (str : List UInt8) : ℕ → ℕ
  | 0 => 0
  | i + 1 => if str.getD i 0 = 48 ∧ isDigit (str.getD (i - 2) 0) then countTrim str i + 1 else 0

def formatMoney (n : ℤ) (fPlus : Bool) : List UInt8 :=
  let nAbs := if 0 < n then n else -n
  let str := printNat 0 (nAbs / COIN).toNat ++ 46 :: printNat 8 (nAbs % COIN).toNat
  let nTrim := countTrim str str.length
  let str := str.take (str.length - nTrim)
  if n < 0 then 45 :: str else if fPlus ∧ 0 < n then 43 :: str else str

/-! ### Reading -/

/-- The loop behind the point: `nUnits`, and where it stops. -/
def readUnits (nUnits nMult : ℤ) : List UInt8 → Except Stop (ℤ × List UInt8)
  | [] => .ok (nUnits, [])
  | c :: p =>
    if isDigit c ∧ 0 < nMult then do
      let x ← FixedPoint.int64 (nMult * (c.toNat - 48))
      let nUnits ← FixedPoint.int64 (nUnits + x)
      readUnits nUnits (nMult / 10) p
    else .ok (nUnits, c :: p)

/-- The loop over the whole part: `strWhole`, `nUnits`, and where it stops. -/
def readWhole (strWhole : List UInt8) : List UInt8 → Except Stop (List UInt8 × ℤ × List UInt8)
  | [] => .ok (strWhole, 0, [])
  | c :: p =>
    if c = 46 then do
      let (nUnits, p) ← readUnits 0 (CENT * 10) p
      return (strWhole, nUnits, p)
    else if isspace c then .ok (strWhole, 0, c :: p)
    else if !isDigit c then .error .refused
    else readWhole (strWhole ++ [c]) p

/-- `atoi64` of a text of digits; `strtoll` gives the largest number for one that is larger. -/
def atoi64 (str : List UInt8) : ℤ :=
  min (str.foldl (fun n c => 10 * n + (c.toNat - 48)) 0) (2 ^ 63 - 1)

/-- `ParseMoney` of a C string: the amount, where it returns `true`. -/
def parseMoney (str : List UInt8) : Except Stop ℤ := do
  let (strWhole, nUnits, p) ← readWhole [] ((cStr str).dropWhile isspace)
  failIf (p.any fun c => !isspace c) .refused
  -- "guard against 63 bit overflow"
  failIf (10 < strWhole.length) .refused
  failIf (nUnits < 0 ∨ COIN < nUnits) .refused
  let nWhole ← FixedPoint.int64 (atoi64 strWhole * COIN)
  FixedPoint.int64 (nWhole + nUnits)

/-! ### The texts of amounts -/

/-- A text that denotes an amount. -/
structure MoneyText where
  before : List UInt8
  whole : List (Fin 10)
  /-- The digits behind the point, if there is a point. -/
  point : Option (List (Fin 10))
  behind : List UInt8
  before_spaces : ∀ c ∈ before, isspace c = true
  whole_le : whole.length ≤ 10
  point_le : ∀ ds ∈ point, ds.length ≤ 8
  behind_spaces : ∀ c ∈ behind, isspace c = true

def pointText (point : Option (List (Fin 10))) : List UInt8 :=
  point.elim [] fun ds => 46 :: ds.map digitChar

def pointUnits (point : Option (List (Fin 10))) : ℤ :=
  point.elim 0 fun ds => after 0 ds * 10 ^ (8 - ds.length)

namespace MoneyText

def text (t : MoneyText) : List UInt8 :=
  t.before ++ (t.whole.map digitChar ++ (pointText t.point ++ t.behind))

def value (t : MoneyText) : ℚ :=
  after 0 t.whole + t.point.elim 0 fun ds => (after 0 ds : ℚ) / 10 ^ ds.length

/-- The number of units, in integers. -/
def units (t : MoneyText) : ℤ := after 0 t.whole * COIN + pointUnits t.point

lemma value_mul_coin (t : MoneyText) : t.value * COIN = t.units := by
  rw [value, units, pointUnits, add_mul]
  push_cast
  refine congrArg₂ (· + ·) rfl ?_
  cases hpoint : t.point with
  | none => simp
  | some ds =>
    have hle := t.point_le ds (by rw [hpoint]; rfl)
    have hpow : (COIN : ℚ) = 10 ^ ds.length * 10 ^ (8 - ds.length) := by
      rw [← pow_add, Nat.add_sub_of_le hle, COIN]
      norm_num
    simp only [Option.elim_some]
    rw [hpow]
    push_cast
    field_simp

end MoneyText

variable {ds : List (Fin 10)} {rest : List UInt8} {n k : ℕ}

/-! ### The scan -/

lemma startsWithDigit_cons {c : UInt8} (h : startsWithDigit (c :: rest) = false) :
    isDigit c = false := h

lemma readUnits_eq (hn : n < 10 ^ (8 - k)) (hk : k ≤ 8) (hrest : startsWithDigit rest = false) :
    readUnits (n * 10 ^ k) (10 ^ k / 10) (ds.map digitChar ++ rest) =
      .ok ((after n (ds.take k) : ℕ) * 10 ^ (k - ds.length),
        (ds.drop k).map digitChar ++ rest) := by
  induction ds generalizing n k with
  | nil =>
    rw [List.take_nil, List.drop_nil, List.map_nil, List.nil_append]
    cases rest with
    | nil => rfl
    | cons c rest =>
      rw [readUnits, if_neg fun h => absurd h.1 (by rw [startsWithDigit_cons hrest]; nofun)]
      rfl
  | cons d ds ih =>
    rw [List.map_cons, List.cons_append, readUnits]
    cases k with
    | zero =>
      -- no place is left
      rw [if_neg fun h => absurd h.2 (by norm_num)]
      simp
    | succ k =>
      have hdigit : ((digitChar d).toNat : ℤ) - 48 = (d : ℕ) := by
        rw [FixedPoint.digitChar_toNat]
        ring
      have hmult : (10 : ℤ) ^ (k + 1) / 10 = 10 ^ k := by
        rw [pow_succ, Int.mul_ediv_cancel _ (by norm_num)]
      have hnext : 10 * n + (d : ℕ) < 10 ^ (8 - k) := by
        rw [show 8 - k = 8 - (k + 1) + 1 by omega, pow_succ]
        omega
      have hpow : (10 : ℕ) ^ (8 - k) * 10 ^ k = 10 ^ 8 := by
        rw [← pow_add, Nat.sub_add_cancel (by omega)]
      have hsum : (n : ℤ) * 10 ^ (k + 1) + 10 ^ k * (d : ℕ) = ((10 * n + d : ℕ) : ℤ) * 10 ^ k := by
        push_cast
        ring
      have hlt : (10 * n + (d : ℕ)) * 10 ^ k < 10 ^ 8 :=
        hpow ▸ Nat.mul_lt_mul_of_pos_right hnext (by positivity)
      have hlt' : ((10 * n + d : ℕ) : ℤ) * 10 ^ k < 10 ^ 8 := by exact_mod_cast hlt
      have hle : (10 : ℤ) ^ k * (d : ℕ) ≤ ((10 * n + d : ℕ) : ℤ) * 10 ^ k := by
        rw [← hsum]
        exact le_add_of_nonneg_left (by positivity)
      have hnonneg : (0 : ℤ) ≤ 10 ^ k * (d : ℕ) := by positivity
      rw [if_pos ⟨FixedPoint.isDigit_digitChar d, hmult ▸ by positivity⟩, hdigit, hmult,
        FixedPoint.int64_of_fits (by omega) (by omega), ok_bind, hsum,
        FixedPoint.int64_of_fits (by omega) (by omega), ok_bind, ih hnext (by omega)]
      simp

lemma isspace_digitChar (d : Fin 10) : isspace (digitChar d) = false := by
  revert d
  decide

lemma digitChar_ne_point (d : Fin 10) : digitChar d ≠ 46 := by
  revert d
  decide

lemma readUnits_point (hrest : startsWithDigit rest = false) :
    readUnits 0 (CENT * 10) (ds.map digitChar ++ rest) =
      .ok ((after 0 (ds.take 8) : ℕ) * 10 ^ (8 - ds.length),
        (ds.drop 8).map digitChar ++ rest) := by
  have h : readUnits ((0 : ℕ) * 10 ^ 8) (10 ^ 8 / 10) (ds.map digitChar ++ rest) = _ :=
    readUnits_eq (by norm_num) le_rfl hrest
  rwa [Nat.cast_zero, zero_mul, show (10 : ℤ) ^ 8 / 10 = CENT * 10 by norm_num [CENT]] at h

lemma units_lt (ds : List (Fin 10)) :
    ((after 0 (ds.take 8) : ℕ) : ℤ) * 10 ^ (8 - ds.length) < COIN := by
  have hlt := after_lt (ds.take 8) (show 0 < 10 ^ 0 by norm_num)
  rw [zero_add, List.length_take] at hlt
  have hpow : (10 : ℕ) ^ min 8 ds.length * 10 ^ (8 - ds.length) = 10 ^ 8 := by
    rw [← pow_add]
    congr 1
    omega
  have hmul : after 0 (ds.take 8) * 10 ^ (8 - ds.length) < 10 ^ 8 :=
    hpow ▸ Nat.mul_lt_mul_of_pos_right hlt (by positivity)
  rw [COIN]
  exact_mod_cast hmul

lemma readWhole_digits (w : List UInt8) (ds : List (Fin 10)) (rest : List UInt8) :
    readWhole w (ds.map digitChar ++ rest) = readWhole (w ++ ds.map digitChar) rest := by
  induction ds generalizing w with
  | nil => rw [List.map_nil, List.append_nil, List.nil_append]
  | cons d ds ih =>
    rw [List.map_cons, List.cons_append, readWhole, if_neg (digitChar_ne_point d),
      isspace_digitChar, if_neg Bool.false_ne_true, FixedPoint.isDigit_digitChar, Bool.not_true,
      if_neg Bool.false_ne_true, ih, List.append_assoc, List.singleton_append]

lemma readWhole_space {w : List UInt8} {c : UInt8} (h : isspace c = true) :
    readWhole w (c :: rest) = .ok (w, 0, c :: rest) := by
  have hne : c ≠ 46 := by
    rintro rfl
    exact absurd h (by decide)
  rw [readWhole, if_neg hne, if_pos h]

lemma atoi64_digits (h : ds.length ≤ 10) :
    atoi64 (ds.map digitChar) = after 0 ds ∧ after 0 ds < 10 ^ 10 := by
  have hlt : after 0 ds < 10 ^ 10 := by
    have hlt := after_lt ds (show 0 < 10 ^ 0 by norm_num)
    rw [zero_add] at hlt
    exact hlt.trans_le (Nat.pow_le_pow_right (by norm_num) h)
  have hfold : ∀ n : ℕ, (ds.map digitChar).foldl (fun n c => 10 * n + ((c.toNat : ℤ) - 48)) n =
      after n ds := by
    clear h hlt
    induction ds with
    | nil => exact fun n => rfl
    | cons d ds ih =>
      intro n
      rw [List.map_cons, List.foldl_cons, after_cons, ← ih, FixedPoint.digitChar_toNat]
      push_cast
      congr 1
      ring
  refine ⟨?_, hlt⟩
  have hzero := hfold 0
  rw [Nat.cast_zero] at hzero
  rw [atoi64, hzero]
  omega

lemma pointUnits_bounds {point : Option (List (Fin 10))} (h : ∀ fs ∈ point, fs.length ≤ 8) :
    0 ≤ pointUnits point ∧ pointUnits point < COIN := by
  cases point with
  | none => exact ⟨le_rfl, by decide⟩
  | some fs =>
    have hlt := units_lt fs
    rw [List.take_of_length_le (h fs rfl)] at hlt
    exact ⟨by simp only [pointUnits, Option.elim_some]; positivity, hlt⟩

lemma readWhole_point {w p : List UInt8} {point : Option (List (Fin 10))}
    (hle : ∀ fs ∈ point, fs.length ≤ 8) (hdigit : startsWithDigit p = false)
    (hspace : point = none → ∀ c ∈ p.head?, isspace c = true) :
    readWhole w (pointText point ++ p) = .ok (w, pointUnits point, p) := by
  cases point with
  | none =>
    cases p with
    | nil => rfl
    | cons c p => exact readWhole_space (hspace rfl c rfl)
  | some fs =>
    have hfs := hle fs rfl
    have h : readUnits 0 (CENT * 10) (fs.map digitChar ++ p) = _ := readUnits_point hdigit
    rw [List.take_of_length_le hfs, List.drop_eq_nil_of_le hfs] at h
    simp only [pointText, pointUnits, Option.elim_some, List.cons_append]
    rw [readWhole, if_pos rfl, h]
    rfl

lemma parseMoney_of_readWhole {str p : List UInt8} {u : ℤ}
    (h : readWhole [] ((cStr str).dropWhile isspace) = .ok (ds.map digitChar, u, p))
    (h0 : 0 ≤ u) (hu : u < COIN) :
    parseMoney str = if p.all isspace = true ∧ ds.length ≤ 10 then
      .ok (after 0 ds * COIN + u) else .error .refused := by
  rw [parseMoney, h, ok_bind]
  dsimp only
  by_cases hp : p.all isspace = true
  · have hany : (p.any fun c => !isspace c) = false := by
      rw [List.any_eq_false]
      exact fun _ hc => by rw [List.all_eq_true.mp hp _ hc]; decide
    rw [hany, List.length_map, failIf, if_neg Bool.false_ne_true, ok_bind]
    by_cases hlen : ds.length ≤ 10
    · obtain ⟨hwhole, hlt⟩ := atoi64_digits hlen
      rw [decide_eq_false hlen.not_gt, failIf, if_neg Bool.false_ne_true, ok_bind,
        decide_eq_false (by omega), failIf, if_neg Bool.false_ne_true, ok_bind, hwhole,
        if_pos ⟨hp, hlen⟩]
      rw [COIN] at hu ⊢
      rw [FixedPoint.int64_of_fits (by omega) (by omega), ok_bind,
        FixedPoint.int64_of_fits (by omega) (by omega)]
    · rw [decide_eq_true (not_le.mp hlen), failIf, if_pos rfl, if_neg fun hc => hlen hc.2]
      rfl
  · have hany : (p.any fun c => !isspace c) = true := by
      simpa using hp
    rw [hany, failIf, if_pos rfl, if_neg fun hc => hp hc.1]
    rfl

lemma startsWithDigit_spaces {p : List UInt8} (h : ∀ c ∈ p.head?, isspace c = true) :
    startsWithDigit p = false := by
  cases p with
  | nil => rfl
  | cons c p =>
    by_contra hdigit
    obtain ⟨d, hd⟩ := FixedPoint.exists_digitChar ((Bool.not_eq_false _).mp hdigit)
    have hc := h c rfl
    rw [hd, isspace_digitChar] at hc
    exact Bool.false_ne_true hc

lemma parseMoney_cases (str : List UInt8) (h0 : 0 ∉ str) :
    parseMoney str = .error .refused ∨
      ∃ t : MoneyText, str = t.text ∧ parseMoney str = .ok t.units := by
  have hbefore : ∀ c ∈ str.takeWhile isspace, isspace c = true := fun _ hc =>
    List.mem_takeWhile_imp hc
  have hsplit := List.takeWhile_append_dropWhile (p := isspace) (l := str)
  obtain ⟨ds, rest, hdrop, hrest⟩ := FixedPoint.exists_digits (str.dropWhile isspace)
  have hread := readWhole_digits [] ds rest
  rw [← hdrop, List.nil_append, ← Base58.cStr_eq_self h0] at hread
  -- what stands behind the whole digits is read as a point with digits, or as nothing
  have hfound : ∀ point p, rest = pointText point ++ p → (∀ fs ∈ point, fs.length ≤ 8) →
      startsWithDigit p = false → (point = none → ∀ c ∈ p.head?, isspace c = true) →
      parseMoney str = .error .refused ∨
        ∃ t : MoneyText, str = t.text ∧ parseMoney str = .ok t.units := by
    intro point p hp hle hdigit hspace
    rw [hp, readWhole_point hle hdigit hspace] at hread
    obtain ⟨hu0, hu⟩ := pointUnits_bounds hle
    rw [parseMoney_of_readWhole hread hu0 hu]
    split_ifs with hok
    · refine Or.inr ⟨⟨_, ds, point, p, hbefore, hok.2, hle, List.all_eq_true.mp hok.1⟩, ?_, rfl⟩
      rw [MoneyText.text, ← hp, ← hdrop, hsplit]
    · exact Or.inl rfl
  cases rest with
  | nil => exact hfound none [] rfl nofun rfl fun _ => nofun
  | cons c rest =>
    by_cases hpoint : c = 46
    · obtain ⟨fs, p, rfl, hp⟩ := FixedPoint.exists_digits rest
      rcases le_or_gt fs.length 8 with hle | hgt
      · refine hfound (some fs) p (by rw [hpoint]; rfl) ?_ hp nofun
        rintro _ ⟨⟩
        exact hle
      · -- there is a ninth digit, and it is not a space
        obtain ⟨d, hd⟩ := List.exists_mem_of_length_pos (l := fs.drop 8) (by
          rw [List.length_drop]
          omega)
        rw [hpoint, readWhole, if_pos rfl, readUnits_point hp, ok_bind] at hread
        rw [parseMoney_of_readWhole hread (by positivity) (units_lt fs), if_neg]
        · exact Or.inl rfl
        · intro hok
          have hdigit :=
            List.all_eq_true.mp hok.1 _ (List.mem_append_left p (List.mem_map_of_mem hd))
          rw [isspace_digitChar] at hdigit
          exact Bool.false_ne_true hdigit
    · by_cases hspace : isspace c = true
      · refine hfound none (c :: rest) rfl nofun hrest fun _ => ?_
        rintro _ ⟨⟩
        exact hspace
      · refine Or.inl ?_
        rw [readWhole, if_neg hpoint, if_neg hspace, startsWithDigit_cons hrest, Bool.not_false,
          if_pos rfl] at hread
        rw [parseMoney, hread]
        rfl

lemma ne_zero_of_mem_text (t : MoneyText) : ∀ c ∈ t.text, c ≠ 0 := by
  have hspace : ∀ c, isspace c = true → c ≠ 0 := by
    rintro c hc rfl
    exact absurd hc (by decide)
  have hdigits : ∀ ds : List (Fin 10), ∀ c ∈ ds.map digitChar, c ≠ 0 := by
    intro ds c hc
    obtain ⟨d, -, rfl⟩ := List.mem_map.mp hc
    clear hc
    revert d
    decide
  have hpoint : ∀ c ∈ pointText t.point, c ≠ 0 := by
    cases t.point with
    | none => nofun
    | some fs => exact List.forall_mem_cons.mpr ⟨by decide, hdigits fs⟩
  intro c hc
  rcases List.mem_append.mp hc with hc | hc
  · exact hspace c (t.before_spaces c hc)
  · rcases List.mem_append.mp hc with hc | hc
    · exact hdigits _ c hc
    · rcases List.mem_append.mp hc with hc | hc
      · exact hpoint c hc
      · exact hspace c (t.behind_spaces c hc)

lemma parseMoney_text (t : MoneyText) : parseMoney t.text = .ok t.units := by
  have hcstr := Base58.cStr_eq_self fun h => ne_zero_of_mem_text t 0 h rfl
  have hbehind : ∀ c ∈ t.behind.head?, isspace c = true := fun c hc =>
    t.behind_spaces c (List.mem_of_mem_head? hc)
  have hdigit := startsWithDigit_spaces hbehind
  obtain ⟨hu0, hu⟩ := pointUnits_bounds t.point_le
  have hdrop : t.text.dropWhile isspace =
      (t.whole.map digitChar ++ (pointText t.point ++ t.behind)).dropWhile isspace :=
    List.dropWhile_append_of_pos t.before_spaces
  by_cases hempty : t.whole = [] ∧ t.point = none
  · -- there is nothing but spaces
    have hnil : t.text.dropWhile isspace = [] := by
      rw [hdrop, hempty.1, hempty.2]
      exact List.dropWhile_eq_nil_iff.mpr t.behind_spaces
    have hread : readWhole [] ((cStr t.text).dropWhile isspace) =
        .ok (([] : List (Fin 10)).map digitChar, 0, []) := by
      rw [hcstr, hnil]
      rfl
    rw [parseMoney_of_readWhole hread le_rfl (by decide), if_pos ⟨rfl, Nat.zero_le _⟩,
      MoneyText.units, hempty.1, hempty.2]
    rfl
  · obtain ⟨c, q, hcons, hc⟩ : ∃ c q, t.whole.map digitChar ++ (pointText t.point ++ t.behind) =
        c :: q ∧ ¬ isspace c = true := by
      cases hwhole : t.whole with
      | cons d ds => exact ⟨_, _, rfl, by rw [isspace_digitChar]; exact Bool.false_ne_true⟩
      | nil =>
        cases hpoint : t.point with
        | none => exact absurd ⟨hwhole, hpoint⟩ hempty
        | some fs => exact ⟨46, _, rfl, by decide⟩
    rw [hcons, List.dropWhile_cons_of_neg hc, ← hcons] at hdrop
    have hread : readWhole [] ((cStr t.text).dropWhile isspace) =
        .ok (t.whole.map digitChar, pointUnits t.point, t.behind) := by
      rw [hcstr, hdrop, readWhole_digits, List.nil_append,
        readWhole_point t.point_le hdigit fun _ => hbehind]
    rw [parseMoney_of_readWhole hread hu0 hu,
      if_pos ⟨List.all_eq_true.mpr t.behind_spaces, t.whole_le⟩]
    rfl

/-! ### The writer -/

lemma countTrim_spec {q : List UInt8} {fs : List (Fin 10)} {j : ℕ} (hj : j ≤ fs.length) :
    ∃ k ≤ j, countTrim (q ++ 46 :: fs.map digitChar) (q.length + 1 + j) = k ∧
      fs.take j = fs.take (j - k) ++ List.replicate k 0 := by
  induction j with
  | zero =>
    refine ⟨0, le_rfl, ?_, rfl⟩
    rw [Nat.add_zero, countTrim, if_neg]
    rintro ⟨h, -⟩
    simp at h
  | succ j ih =>
    obtain ⟨k, hk, hcount, htake⟩ := ih (by omega)
    rw [← Nat.add_assoc, countTrim]
    split_ifs with hzero
    · refine ⟨k + 1, by omega, by rw [hcount], ?_⟩
      have hlt : j < fs.length := hj
      have hget : (q ++ 46 :: fs.map digitChar).getD (q.length + 1 + j) 0 = digitChar fs[j] := by
        rw [List.getD_append_right _ _ _ _ (by omega),
          show q.length + 1 + j - q.length = j + 1 by omega, List.getD_cons_succ,
          List.getD_eq_getElem _ _ (by simpa using hlt), List.getElem_map]
      rw [hget, FixedPoint.digitChar_eq] at hzero
      rw [← List.take_append_getElem hlt, htake, hzero.1, List.append_assoc, ← List.replicate_succ',
        Nat.add_sub_add_right]
    · exact ⟨0, Nat.zero_le _, rfl, by simp⟩

lemma formatMoney_eq {n : ℤ} (h0 : 0 ≤ n) {whole fs : List (Fin 10)} {k : ℕ}
    (hwhole : printNat 0 (n / COIN).toNat = whole.map digitChar)
    (hfs : printNat 8 (n % COIN).toNat = fs.map digitChar) (hlen : fs.length = 8) (hk : k ≤ 8)
    (hcount : countTrim (whole.map digitChar ++ 46 :: fs.map digitChar)
      ((whole.map digitChar).length + 1 + 8) = k) :
    formatMoney n false = whole.map digitChar ++ 46 :: (fs.take (8 - k)).map digitChar := by
  have habs : (if 0 < n then n else -n) = n := by
    split_ifs <;> omega
  have hsize : (whole.map digitChar ++ 46 :: fs.map digitChar).length =
      (whole.map digitChar).length + 1 + 8 := by
    simp only [List.length_append, List.length_cons, List.length_map, hlen]
  simp only [formatMoney]
  rw [habs, hwhole, hfs, hsize, hcount, if_neg h0.not_gt, if_neg (by simp), List.take_append,
    List.take_of_length_le (by omega),
    show (whole.map digitChar).length + 1 + 8 - k - (whole.map digitChar).length = 8 - k + 1
      by omega,
    List.take_succ_cons, List.map_take]

lemma formatMoney_text {n : ℤ} (h0 : 0 ≤ n) (hn : n < 10 ^ 18) :
    ∃ t : MoneyText, formatMoney n false = t.text ∧ t.units = n := by
  have hwhole : (digits (n / COIN).toNat).length ≤ 10 := length_digits_le (by rw [COIN]; omega)
  have hunits : (digits (n % COIN).toNat).length ≤ 8 := length_digits_le (by rw [COIN]; omega)
  have hlen : ((digits (n % COIN).toNat).leftpad 8 0).length = 8 := by
    rw [List.length_leftpad]
    omega
  have hafter : after 0 ((digits (n % COIN).toNat).leftpad 8 0) = (n % COIN).toNat := by
    rw [List.leftpad, after_append, after_zeros, zero_mul, after_digits]
  obtain ⟨k, hk, hcount, htake⟩ := countTrim_spec
    (q := (digits (n / COIN).toNat).map digitChar) hlen.ge
  rw [List.take_of_length_le hlen.le] at htake
  have hprint : printNat 0 (n / COIN).toNat = (digits (n / COIN).toNat).map digitChar := by
    rw [printNat, List.leftpad, Nat.zero_sub]
    rfl
  have hfs : printNat 8 (n % COIN).toNat =
    ((digits (n % COIN).toNat).leftpad 8 0).map digitChar := rfl
  generalize (digits (n % COIN).toNat).leftpad 8 0 = fs at *
  have hle : (fs.take (8 - k)).length = 8 - k := by
    rw [List.length_take]
    omega
  refine ⟨⟨[], digits (n / COIN).toNat, some (fs.take (8 - k)), [], nofun, hwhole, ?_, nofun⟩,
    ?_, ?_⟩
  · rintro _ ⟨⟩
    omega
  · rw [formatMoney_eq h0 hprint hfs hlen hk hcount, MoneyText.text, List.append_nil]
    rfl
  · have hunit : after 0 (fs.take (8 - k)) * 10 ^ k = (n % COIN).toNat :=
      calc after 0 (fs.take (8 - k)) * 10 ^ k
          = after 0 (fs.take (8 - k) ++ List.replicate k 0) := by rw [after_append, after_zeros]
        _ = after 0 fs := by rw [← htake]
        _ = (n % COIN).toNat := hafter
    rw [MoneyText.units, pointUnits, Option.elim_some, after_digits, hle,
      show 8 - (8 - k) = k by omega]
    have hunit' : (after 0 (fs.take (8 - k)) : ℤ) * 10 ^ k = ((n % COIN).toNat : ℤ) := by
      exact_mod_cast hunit
    rw [hunit', COIN]
    omega

/-- **Texts of amounts**: what is written is read back, what is read is the text of an amount and
denotes the amount that is given, and nothing leaves the range of 64 bits. -/
theorem parseMoney_exact :
    (∀ n : ℤ, 0 ≤ n → n < 10 ^ 18 → parseMoney (formatMoney n false) = .ok n) ∧
    ∀ str : List UInt8, 0 ∉ str →
      parseMoney str ≠ .error .overflow ∧
      ∀ n : ℤ, parseMoney str = .ok n ↔
        ∃ t : MoneyText, str = t.text ∧ (n : ℚ) = t.value * COIN := by
  refine ⟨fun n h0 hn => ?_, fun str hnul => ⟨fun hover => ?_, fun n => ⟨fun hn => ?_, ?_⟩⟩⟩
  · obtain ⟨t, htext, hunits⟩ := formatMoney_text h0 hn
    rw [htext, parseMoney_text, hunits]
  · rcases parseMoney_cases str hnul with hr | ⟨t, -, ht⟩
    · rw [hr] at hover
      cases hover
    · rw [ht] at hover
      cases hover
  · rcases parseMoney_cases str hnul with hr | ⟨t, htext, ht⟩
    · rw [hr] at hn
      cases hn
    · rw [ht] at hn
      cases hn
      exact ⟨t, htext, t.value_mul_coin.symm⟩
  · rintro ⟨t, rfl, hn⟩
    rw [t.value_mul_coin] at hn
    rw [parseMoney_text, Int.cast_injective hn]

/-- Spaces may stand on both sides, and no digit need stand behind the point. -/
example : parseMoney [32, 55, 46, 32] = .ok 700000000 := by decide

end Money

end Agenor
