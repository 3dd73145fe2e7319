import Mathlib.Data.Nat.Bitwise
import Mathlib.Data.Nat.Digits.Defs
import Mathlib.Tactic.Ring
import Mathlib.Tactic.Positivity

/-!
Numbers as lists of machine words, the least significant first.

A loop that passes a carry from word to word computes a sum of weighted terms, as long as the
accumulator has twice the width of a word and no term leaves it too little room. A division that
shifts the divisor and subtracts it where it fits computes the quotient.
-/

namespace Agenor.Lib.Limbs

variable {w : ℕ}

/-- The number that the words stand for. -/
def value (xs : List (BitVec w)) : ℕ := Nat.ofDigits (2 ^ w) (xs.map BitVec.toNat)

@[simp] lemma value_nil : value ([] : List (BitVec w)) = 0 := rfl

@[simp] lemma value_cons (x : BitVec w) (xs : List (BitVec w)) :
    value (x :: xs) = x.toNat + 2 ^ w * value xs := by
  rw [value, List.map_cons, Nat.ofDigits_cons]
  rfl

lemma two_pow_mul_succ (w k : ℕ) : 2 ^ (w * (k + 1)) = 2 ^ w * 2 ^ (w * k) := by
  rw [Nat.mul_succ, pow_add, Nat.mul_comm]

lemma value_lt (xs : List (BitVec w)) : value xs < 2 ^ (w * xs.length) := by
  induction xs with
  | nil => simp
  | cons x xs ih =>
    have hx := x.isLt
    rw [List.length_cons, two_pow_mul_succ]
    calc x.toNat + 2 ^ w * value xs < 2 ^ w + 2 ^ w * value xs := by omega
      _ = 2 ^ w * (value xs + 1) := by ring
      _ ≤ 2 ^ w * 2 ^ (w * xs.length) := Nat.mul_le_mul_left _ ih

lemma value_mod (x : BitVec w) (xs : List (BitVec w)) : value (x :: xs) % 2 ^ w = x.toNat := by
  rw [value_cons, Nat.add_mul_mod_self_left, Nat.mod_eq_of_lt x.isLt]

lemma value_div (x : BitVec w) (xs : List (BitVec w)) : value (x :: xs) / 2 ^ w = value xs := by
  rw [value_cons, Nat.add_mul_div_left _ _ (Nat.two_pow_pos w), Nat.div_eq_of_lt x.isLt,
    Nat.zero_add]

lemma value_injective {xs ys : List (BitVec w)} (hlen : xs.length = ys.length)
    (h : value xs = value ys) : xs = ys := by
  induction xs generalizing ys with
  | nil => exact (List.length_eq_zero_iff.mp hlen.symm).symm
  | cons x xs ih =>
    cases ys with
    | nil => exact absurd hlen (by simp)
    | cons y ys =>
      have hx : x.toNat = y.toNat := by rw [← value_mod x xs, h, value_mod]
      have hxs : value xs = value ys := by rw [← value_div x xs, h, value_div]
      rw [BitVec.eq_of_toNat_eq hx, ih (by simpa using hlen) hxs]

lemma value_eq_zero_iff {xs : List (BitVec w)} : value xs = 0 ↔ ∀ x ∈ xs, x = 0 := by
  induction xs with
  | nil => simp
  | cons x xs ih =>
    have hpow := Nat.two_pow_pos w
    simp only [value_cons, Nat.add_eq_zero_iff, Nat.mul_eq_zero, List.forall_mem_cons, ih]
    constructor
    · rintro ⟨hx, hxs⟩
      exact ⟨BitVec.eq_of_toNat_eq (by simpa using hx), hxs.resolve_left (by omega)⟩
    · rintro ⟨rfl, hxs⟩
      exact ⟨by simp, .inr hxs⟩

@[simp] lemma value_replicate_zero (k : ℕ) : value (List.replicate k (0 : BitVec w)) = 0 :=
  value_eq_zero_iff.mpr fun _ hx => List.eq_of_mem_replicate hx

lemma testBit_value (xs : List (BitVec w)) (i : ℕ) {b : ℕ} (hb : b < w) :
    (value xs).testBit (w * i + b) = (xs.getD i 0).getLsbD b := by
  induction xs generalizing i with
  | nil => simp
  | cons x xs ih =>
    cases i with
    | zero =>
      have hbit : (value (x :: xs) % 2 ^ w).testBit b = (value (x :: xs)).testBit b := by
        rw [Nat.testBit_mod_two_pow, decide_eq_true hb, Bool.true_and]
      rw [Nat.mul_zero, Nat.zero_add, ← hbit, value_mod]
      rfl
    | succ i =>
      have hshift : w * (i + 1) + b = w * i + b + w := by ring
      rw [hshift, ← Nat.testBit_div_two_pow, value_div, ih]
      rfl

lemma value_lt_iff (x y : BitVec w) {xs ys : List (BitVec w)} :
    value (x :: xs) < value (y :: ys) ↔
      value xs < value ys ∨ value xs = value ys ∧ x.toNat < y.toNat := by
  have hx := x.isLt
  have hy := y.isLt
  rw [value_cons, value_cons]
  rcases Nat.lt_trichotomy (value xs) (value ys) with hlt | heq | hgt
  · have hmul : 2 ^ w * (value xs + 1) ≤ 2 ^ w * value ys := Nat.mul_le_mul_left _ hlt
    rw [Nat.mul_succ] at hmul
    omega
  · rw [heq]
    omega
  · have hmul : 2 ^ w * (value ys + 1) ≤ 2 ^ w * value xs := Nat.mul_le_mul_left _ hgt
    rw [Nat.mul_succ] at hmul
    omega

lemma value_complement (xs : List (BitVec w)) :
    value (xs.map (~~~ ·)) + value xs + 1 = 2 ^ (w * xs.length) := by
  induction xs with
  | nil => simp
  | cons x xs ih =>
    have hx := x.isLt
    rw [List.map_cons, value_cons, value_cons, List.length_cons, two_pow_mul_succ, ← ih,
      BitVec.toNat_not]
    ring_nf
    omega

/-! ### Bits -/

lemma bit_place (hw : 0 < w) (p : ℕ) : ∃ i b, b < w ∧ p = w * i + b :=
  ⟨p / w, p % w, Nat.mod_lt p hw, (Nat.div_add_mod p w).symm⟩

lemma eq_of_bits {m n k : ℕ} (hw : 0 < w) (hm : m < 2 ^ (w * k)) (hn : n < 2 ^ (w * k))
    (h : ∀ i b, i < k → b < w → m.testBit (w * i + b) = n.testBit (w * i + b)) : m = n := by
  refine Nat.eq_of_testBit_eq fun p => ?_
  obtain ⟨i, b, hb, rfl⟩ := bit_place hw p
  by_cases hi : i < k
  · exact h i b hi hb
  · have hpow : 2 ^ (w * k) ≤ 2 ^ (w * i + b) :=
      Nat.pow_le_pow_right (by decide)
        ((Nat.mul_le_mul_left w (Nat.le_of_not_lt hi)).trans (Nat.le_add_right _ _))
    rw [Nat.testBit_eq_false_of_lt (hm.trans_le hpow),
      Nat.testBit_eq_false_of_lt (hn.trans_le hpow)]

/-- Words are or-ed into places. -/
def scatter (xs : List (BitVec w)) (writes : List (ℕ × BitVec w)) : List (BitVec w) :=
  writes.foldl (fun xs write => xs.modify write.1 (· ||| write.2)) xs

@[simp] lemma length_scatter (xs : List (BitVec w)) (writes : List (ℕ × BitVec w)) :
    (scatter xs writes).length = xs.length := by
  induction writes generalizing xs with
  | nil => rfl
  | cons write writes ih =>
    rw [scatter, List.foldl_cons, ← scatter, ih, List.length_modify]

lemma getLsbD_scatter (xs : List (BitVec w)) (writes : List (ℕ × BitVec w)) {i : ℕ} (b : ℕ)
    (hi : i < xs.length) : ((scatter xs writes).getD i 0).getLsbD b = true ↔
      (xs.getD i 0).getLsbD b = true ∨ ∃ x, (i, x) ∈ writes ∧ x.getLsbD b = true := by
  induction writes generalizing xs with
  | nil => simp [scatter]
  | cons write writes ih =>
    obtain ⟨j, y⟩ := write
    have hlen : i < (xs.modify j (· ||| y)).length := by rwa [List.length_modify]
    have hstep : ((xs.modify j (· ||| y)).getD i 0).getLsbD b = true ↔
        (xs.getD i 0).getLsbD b = true ∨ i = j ∧ y.getLsbD b = true := by
      rw [List.getD_eq_getElem _ _ hlen, List.getElem_modify, List.getD_eq_getElem _ _ hi]
      by_cases hij : j = i
      · simp [hij]
      · simp [hij, Ne.symm hij]
    rw [scatter, List.foldl_cons, ← scatter, ih _ hlen, hstep]
    simp only [List.mem_cons, Prod.mk.injEq]
    constructor
    · rintro ((h | ⟨rfl, hy⟩) | ⟨x, hx, hb⟩)
      · exact .inl h
      · exact .inr ⟨y, .inl ⟨rfl, rfl⟩, hy⟩
      · exact .inr ⟨x, .inr hx, hb⟩
    · rintro (h | ⟨x, ⟨rfl, rfl⟩ | hx, hb⟩)
      · exact .inl (.inl h)
      · exact .inl (.inr ⟨rfl, hb⟩)
      · exact .inr ⟨x, hx, hb⟩

/-! ### Carries -/

/-- The terms, each with the weight of its place. -/
def weigh (w : ℕ) {v : ℕ} : List (BitVec v) → ℕ
  | [] => 0
  | t :: ts => t.toNat + 2 ^ w * weigh w ts

/-- The loop that adds a term and the carry in an accumulator, keeps the low word and passes on the
rest. -/
def carryLoop (w : ℕ) {v : ℕ} (carry : BitVec v) : List (BitVec v) → List (BitVec w)
  | [] => []
  | t :: ts => (carry + t).setWidth w :: carryLoop w ((carry + t) >>> w) ts

@[simp] lemma length_carryLoop {v : ℕ} (carry : BitVec v) (ts : List (BitVec v)) :
    (carryLoop w carry ts).length = ts.length := by
  induction ts generalizing carry with
  | nil => rfl
  | cons t ts ih => rw [carryLoop, List.length_cons, ih, List.length_cons]

/-- A term that leaves room for a carry of one word. -/
def Roomy (w : ℕ) {v : ℕ} (t : BitVec v) : Prop := t.toNat + 2 ^ w ≤ 2 ^ (w + w)

/-- **The carry loop.** Nothing is lost but what goes beyond the last word. -/
theorem value_carryLoop (carry : BitVec (w + w)) (ts : List (BitVec (w + w)))
    (hcarry : carry.toNat < 2 ^ w) (hts : ∀ t ∈ ts, Roomy w t) :
    value (carryLoop w carry ts) = (carry.toNat + weigh w ts) % 2 ^ (w * ts.length) := by
  induction ts generalizing carry with
  | nil => simp [carryLoop, Nat.mod_one]
  | cons t ts ih =>
    have ht : t.toNat + 2 ^ w ≤ 2 ^ (w + w) := hts t (by simp)
    have hsum : (carry + t).toNat = carry.toNat + t.toNat := by
      rw [BitVec.toNat_add, Nat.mod_eq_of_lt (by omega)]
    have hnext : ((carry + t) >>> w).toNat = (carry.toNat + t.toNat) / 2 ^ w := by
      rw [BitVec.toNat_ushiftRight, hsum, Nat.shiftRight_eq_div_pow]
    have hsmall : ((carry + t) >>> w).toNat < 2 ^ w := by
      rw [hnext]
      refine Nat.div_lt_of_lt_mul ?_
      rw [← pow_add]
      omega
    have hlow : ((carry + t).setWidth w).toNat = (carry.toNat + t.toNat) % 2 ^ w := by
      rw [BitVec.toNat_setWidth, hsum]
    have hdiv := Nat.mod_add_div (carry.toNat + t.toNat) (2 ^ w)
    have hsplit : carry.toNat + weigh w (t :: ts) = (carry.toNat + t.toNat) % 2 ^ w +
        2 ^ w * ((carry.toNat + t.toNat) / 2 ^ w + weigh w ts) := by
      rw [weigh, Nat.mul_add]
      omega
    have hmod : ((carry.toNat + t.toNat) % 2 ^ w) < 2 ^ w := Nat.mod_lt _ (Nat.two_pow_pos w)
    rw [carryLoop, value_cons, ih _ hsmall fun t ht => hts t (List.mem_cons_of_mem _ ht), hnext,
      hlow, List.length_cons, two_pow_mul_succ, hsplit, Nat.mod_mul, Nat.add_mul_mod_self_left,
      Nat.mod_eq_of_lt hmod, Nat.add_mul_div_left _ _ (Nat.two_pow_pos w), Nat.div_eq_of_lt hmod,
      Nat.zero_add]

/-! ### Division -/

/-- Where a division stands that still has so many bits of the quotient to find. -/
structure Dividing (num₀ d steps num q : ℕ) : Prop where
  sum : q * d + num = num₀
  rest : num < d * 2 ^ steps
  low : 2 ^ steps ∣ q

variable {num₀ d steps num q : ℕ}

lemma Dividing.start (h : num₀ < d * 2 ^ steps) : Dividing num₀ d steps num₀ 0 :=
  ⟨by simp, h, dvd_zero _⟩

lemma Dividing.subtract (h : Dividing num₀ d (steps + 1) num q) (hle : d * 2 ^ steps ≤ num) :
    Dividing num₀ d steps (num - d * 2 ^ steps) (q + 2 ^ steps) := by
  have hsum := h.sum
  have hrest : num < d * 2 ^ steps + d * 2 ^ steps := by
    have := h.rest
    rwa [pow_succ, ← Nat.mul_assoc, Nat.mul_two] at this
  have hmul : (q + 2 ^ steps) * d = q * d + d * 2 ^ steps := by ring
  refine ⟨by omega, by omega, Dvd.dvd.add ?_ dvd_rfl⟩
  exact (pow_dvd_pow 2 (Nat.le_succ steps)).trans h.low

lemma Dividing.skip (h : Dividing num₀ d (steps + 1) num q) (hlt : num < d * 2 ^ steps) :
    Dividing num₀ d steps num q :=
  ⟨h.sum, hlt, (pow_dvd_pow 2 (Nat.le_succ steps)).trans h.low⟩

lemma Dividing.quotient (h : Dividing num₀ d 0 num q) : q = num₀ / d := by
  have hrest : num < d := by simpa using h.rest
  rw [← h.sum, Nat.mul_comm, Nat.mul_add_div (by omega), Nat.div_eq_of_lt hrest, Nat.add_zero]

lemma Dividing.or_two_pow (h : Dividing num₀ d (steps + 1) num q) :
    q ||| 2 ^ steps = q + 2 ^ steps := by
  obtain ⟨c, rfl⟩ := h.low
  have hlt : 2 ^ steps < 2 ^ (steps + 1) := Nat.pow_lt_pow_right (by decide) (Nat.lt_succ_self _)
  rw [Nat.mul_comm, ← Nat.shiftLeft_eq, Nat.shiftLeft_add_eq_or_of_lt hlt]

end Agenor.Lib.Limbs
