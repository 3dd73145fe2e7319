import Mathlib.Data.List.TakeWhile
import Mathlib.Data.Nat.Digits.Lemmas
import Mathlib.Tactic.Ring
import Mathlib.Tactic.NormNum

/-!
Numbers in two bases: conversion in place, in a buffer of a fixed size.

The buffer holds the digits from the least significant one up. Each step multiplies the number by a
constant and adds a digit; beyond the digits in use it goes on only while there is a carry. What is
read off in the end, without leading zeros, is the numeral of the number, and a numeral together
with the count of its leading zeros stands for exactly one list of digits.
-/

namespace Agenor.Lib.Radix

variable {mul base : ℕ}

/-! ### One digit -/

/-- Multiplies in place and adds the carry: the buffer, the carry that is left, and the number of
digits that were visited. The first `length` digits are always visited. -/
def mulAdd (mul base length : ℕ) : ℕ → ℕ → List ℕ → List ℕ × ℕ × ℕ
  | carry, i, [] => ([], carry, i)
  | carry, i, d :: ds =>
    if carry ≠ 0 ∨ i < length then
      let r := mulAdd mul base length ((carry + mul * d) / base) (i + 1) ds
      ((carry + mul * d) % base :: r.1, r.2)
    else (d :: ds, carry, i)

lemma length_mulAdd (length carry i : ℕ) (ds : List ℕ) :
    (mulAdd mul base length carry i ds).1.length = ds.length := by
  induction ds generalizing carry i with
  | nil => rfl
  | cons d ds ih =>
    rw [mulAdd]
    split_ifs
    · exact congrArg (· + 1) (ih _ _)
    · rfl

lemma mulAdd_lt (hbase : 0 < base) {length carry i : ℕ} {ds : List ℕ} (h : ∀ d ∈ ds, d < base) :
    ∀ d ∈ (mulAdd mul base length carry i ds).1, d < base := by
  induction ds generalizing carry i with
  | nil => exact h
  | cons d ds ih =>
    rw [mulAdd]
    split_ifs
    · exact List.forall_mem_cons.mpr ⟨Nat.mod_lt _ hbase, ih (List.forall_mem_cons.mp h).2⟩
    · exact h

lemma ofDigits_of_zeros {ds : List ℕ} (h : ∀ d ∈ ds, d = 0) : Nat.ofDigits base ds = 0 := by
  rw [List.eq_replicate_iff.mpr ⟨rfl, h⟩, Nat.ofDigits_replicate_zero]

lemma drop_zeros {length i d : ℕ} {ds : List ℕ} (h : ∀ x ∈ (d :: ds).drop (length - i), x = 0) :
    ∀ x ∈ ds.drop (length - (i + 1)), x = 0 := by
  rcases Nat.lt_or_ge i length with hi | hi
  · rwa [show length - i = length - (i + 1) + 1 by omega, List.drop_succ_cons] at h
  · rw [show length - i = 0 by omega, List.drop_zero] at h
    rw [show length - (i + 1) = 0 by omega, List.drop_zero]
    exact (List.forall_mem_cons.mp h).2

lemma mulAdd_value {length carry i : ℕ} {ds : List ℕ}
    (h : ∀ d ∈ ds.drop (length - i), d = 0) :
    Nat.ofDigits base (mulAdd mul base length carry i ds).1 +
        base ^ ds.length * (mulAdd mul base length carry i ds).2.1 =
      carry + mul * Nat.ofDigits base ds := by
  induction ds generalizing carry i with
  | nil => simp [mulAdd]
  | cons d ds ih =>
    rw [mulAdd]
    split_ifs with hgo
    · have hrest := @ih ((carry + mul * d) / base) (i + 1) (drop_zeros h)
      have hcarry := Nat.mod_add_div (carry + mul * d) base
      dsimp only
      rw [Nat.ofDigits_cons, Nat.ofDigits_cons, List.length_cons, pow_succ]
      generalize mulAdd mul base length ((carry + mul * d) / base) (i + 1) ds = r at hrest ⊢
      calc (carry + mul * d) % base + base * Nat.ofDigits base r.1 +
            base ^ ds.length * base * r.2.1
          = (carry + mul * d) % base +
              base * (Nat.ofDigits base r.1 + base ^ ds.length * r.2.1) := by ring
        _ = (carry + mul * d) % base + base * ((carry + mul * d) / base) +
              mul * (base * Nat.ofDigits base ds) := by rw [hrest]; ring
        _ = carry + mul * (d + base * Nat.ofDigits base ds) := by rw [hcarry]; ring
    · obtain ⟨rfl, hi⟩ : carry = 0 ∧ length ≤ i := by omega
      rw [show length - i = 0 by omega, List.drop_zero] at h
      dsimp only
      rw [ofDigits_of_zeros h, mul_zero, mul_zero]

lemma mulAdd_zeros {length carry i : ℕ} {ds : List ℕ} (h : ∀ d ∈ ds.drop (length - i), d = 0) :
    i ≤ (mulAdd mul base length carry i ds).2.2 ∧
    (mulAdd mul base length carry i ds).2.2 ≤ i + ds.length ∧
    ∀ d ∈ (mulAdd mul base length carry i ds).1.drop
      ((mulAdd mul base length carry i ds).2.2 - i), d = 0 := by
  induction ds generalizing carry i with
  | nil => simp [mulAdd]
  | cons d ds ih =>
    rw [mulAdd]
    split_ifs with hgo
    · obtain ⟨hle, hlen, hzeros⟩ := @ih ((carry + mul * d) / base) (i + 1) (drop_zeros h)
      generalize mulAdd mul base length ((carry + mul * d) / base) (i + 1) ds = r at hle hlen hzeros
      dsimp only
      refine ⟨by omega, by rw [List.length_cons]; omega, ?_⟩
      rwa [show r.2.2 - i = r.2.2 - (i + 1) + 1 by omega, List.drop_succ_cons]
    · rw [show length - i = 0 by omega] at h
      dsimp only
      rw [Nat.sub_self]
      exact ⟨le_rfl, Nat.le_add_right _ _, h⟩

/-! ### The buffer -/

/-- The buffer and the number of digits in use. -/
structure State where
  buffer : List ℕ
  length : ℕ

/-- The buffer of this size holds a number. -/
structure Holds (base size : ℕ) (s : State) (n : ℕ) : Prop where
  sized : s.buffer.length = size
  lt : ∀ d ∈ s.buffer, d < base
  inUse : s.length ≤ size
  zeros : ∀ d ∈ s.buffer.drop s.length, d = 0
  value : Nat.ofDigits base s.buffer = n

def State.init (size : ℕ) : State := ⟨List.replicate size 0, 0⟩

/-- One digit; `none` when there is a carry at the end of the buffer. -/
def State.step (mul base : ℕ) (s : State) (digit : ℕ) : Option State :=
  let r := mulAdd mul base s.length digit 0 s.buffer
  if r.2.1 = 0 then some ⟨r.1, r.2.2⟩ else none

variable {size n digit : ℕ} {s s' : State}

lemma Holds.init (hbase : 0 < base) (size : ℕ) : Holds base size (State.init size) 0 where
  sized := List.length_replicate
  lt d hd := by rwa [List.eq_of_mem_replicate hd]
  inUse := Nat.zero_le _
  zeros _ hd := List.eq_of_mem_replicate hd
  value := Nat.ofDigits_replicate_zero

lemma Holds.lt_pow (hbase : 1 < base) (h : Holds base size s n) : n < base ^ size := by
  have hlt := Nat.ofDigits_lt_base_pow_length hbase h.lt
  rwa [h.value, h.sized] at hlt

lemma Holds.step (hbase : 1 < base) (h : Holds base size s n)
    (hs : s.step mul base digit = some s') : Holds base size s' (mul * n + digit) := by
  have hvalue := @mulAdd_value mul base s.length digit 0 s.buffer h.zeros
  obtain ⟨-, hlen, hzeros⟩ := @mulAdd_zeros mul base s.length digit 0 s.buffer h.zeros
  rw [State.step] at hs
  split_ifs at hs with hcarry
  obtain rfl := Option.some.inj hs
  rw [hcarry, mul_zero, add_zero, h.value, add_comm] at hvalue
  refine ⟨(length_mulAdd _ _ _ _).trans h.sized, mulAdd_lt (by omega) h.lt, ?_, hzeros, hvalue⟩
  rwa [h.sized, zero_add] at hlen

lemma Holds.step_eq_none_iff (hbase : 1 < base) (h : Holds base size s n) :
    s.step mul base digit = none ↔ base ^ size ≤ mul * n + digit := by
  have hvalue := @mulAdd_value mul base s.length digit 0 s.buffer h.zeros
  have hlt := Nat.ofDigits_lt_base_pow_length hbase
    (@mulAdd_lt mul base (by omega) s.length digit 0 s.buffer h.lt)
  rw [length_mulAdd] at hlt
  rw [h.value, add_comm digit] at hvalue
  rw [h.sized] at hvalue hlt
  rw [State.step, ← hvalue]
  split_ifs with hcarry
  · rw [hcarry, mul_zero, add_zero]
    simpa using hlt
  · exact iff_of_true rfl (le_add_left (Nat.le_mul_of_pos_right _ (Nat.pos_of_ne_zero hcarry)))

/-! ### Numerals -/

/-- The most significant digit first, after this many zeros. -/
def numeral (base z n : ℕ) : List ℕ := List.replicate z 0 ++ (base.digits n).reverse

/-- The number of leading zeros. -/
def zeros (ds : List ℕ) : ℕ := (ds.takeWhile (· = 0)).length

/-- The number that a list of digits stands for, when `n` stands before it. -/
def valueAfter (base n : ℕ) (ds : List ℕ) : ℕ := ds.foldl (fun n d => base * n + d) n

variable {z : ℕ} {ds : List ℕ}

lemma valueAfter_zero (ds : List ℕ) : valueAfter base 0 ds = Nat.ofDigits base ds.reverse := by
  rw [valueAfter, Nat.ofDigits_eq_foldr, List.foldr_reverse]
  congr 1
  funext n d
  exact Nat.add_comm _ _

lemma valueAfter_append (n : ℕ) (ds es : List ℕ) :
    valueAfter base n (ds ++ es) = valueAfter base (valueAfter base n ds) es := List.foldl_append

lemma le_valueAfter (hbase : 0 < base) (n : ℕ) (ds : List ℕ) : n ≤ valueAfter base n ds := by
  induction ds generalizing n with
  | nil => exact le_rfl
  | cons d ds ih =>
    calc n ≤ base * n + d := le_add_right (Nat.le_mul_of_pos_left n hbase)
      _ ≤ valueAfter base n (d :: ds) := ih _

lemma valueAfter_dropWhile (ds : List ℕ) :
    valueAfter base 0 (ds.dropWhile (· = 0)) = valueAfter base 0 ds := by
  induction ds with
  | nil => rfl
  | cons d ds ih =>
    rw [List.dropWhile_cons]
    split_ifs with hd
    · obtain rfl : d = 0 := of_decide_eq_true hd
      exact ih
    · rfl

lemma digits_value (hbase : 1 < base) (hlt : ∀ d ∈ ds, d < base) (hhead : ds.head? ≠ some 0) :
    (base.digits (valueAfter base 0 ds)).reverse = ds := by
  rw [valueAfter_zero, Nat.digits_ofDigits base hbase, List.reverse_reverse]
  · exact fun d hd => hlt d (List.mem_reverse.mp hd)
  · intro hne hlast
    rw [List.getLast_reverse] at hlast
    exact hhead (by rw [List.head?_eq_some_head (by simpa using hne), hlast])

lemma valueAfter_digits (base n : ℕ) : valueAfter base 0 (base.digits n).reverse = n := by
  rw [valueAfter_zero, List.reverse_reverse, Nat.ofDigits_digits]

lemma head?_digits (base n : ℕ) : (base.digits n).reverse.head? ≠ some 0 := by
  intro h
  have hne : n ≠ 0 := by
    rintro rfl
    simp at h
  rw [List.head?_reverse,
    List.getLast?_eq_some_getLast (Nat.digits_ne_nil_iff_ne_zero.mpr hne)] at h
  exact Nat.getLast_digit_ne_zero base hne (Option.some.inj h)

lemma head?_dropWhile (ds : List ℕ) : (ds.dropWhile (· = 0)).head? ≠ some 0 := by
  intro h
  have hnot := List.head?_dropWhile_not (· = 0) ds
  rw [h] at hnot
  simp at hnot

lemma takeWhile_digits (base n : ℕ) : (base.digits n).reverse.takeWhile (· = 0) = [] := by
  have hhead := head?_digits base n
  cases hds : (base.digits n).reverse with
  | nil => rfl
  | cons d ds =>
    rw [hds] at hhead
    rw [List.takeWhile_cons_of_neg]
    simpa using hhead

lemma zeros_numeral (base z n : ℕ) : zeros (numeral base z n) = z := by
  rw [zeros, numeral, List.takeWhile_append_of_pos fun d hd => by
    rw [List.eq_of_mem_replicate hd, decide_eq_true_iff], takeWhile_digits, List.append_nil,
    List.length_replicate]

lemma dropWhile_numeral (base z n : ℕ) :
    (numeral base z n).dropWhile (· = 0) = (base.digits n).reverse := by
  rw [numeral, List.dropWhile_append_of_pos fun d hd => by
    rw [List.eq_of_mem_replicate hd, decide_eq_true_iff]]
  have hsplit := List.takeWhile_append_dropWhile (p := (· = 0)) (l := (base.digits n).reverse)
  rwa [takeWhile_digits, List.nil_append] at hsplit

lemma takeWhile_eq_replicate {α : Type} [DecidableEq α] (a : α) (l : List α) :
    List.replicate (l.takeWhile (· = a)).length a = l.takeWhile (· = a) :=
  (List.eq_replicate_iff.mpr ⟨rfl, fun _ hb => by simpa using List.mem_takeWhile_imp hb⟩).symm

lemma numeral_eq (hbase : 1 < base) (hlt : ∀ d ∈ ds, d < base) :
    numeral base (zeros ds) (valueAfter base 0 (ds.dropWhile (· = 0))) = ds := by
  rw [numeral, digits_value hbase (fun d hd => hlt d (List.dropWhile_subset _ hd))
    (head?_dropWhile ds), zeros, takeWhile_eq_replicate, List.takeWhile_append_dropWhile]

/-! ### What is read off -/

/-- The digits in use from the most significant one down, without leading zeros. -/
def State.digits (s : State) : List ℕ :=
  (s.buffer.reverse.drop (s.buffer.length - s.length)).dropWhile (· = 0)

lemma Holds.digits_eq (hbase : 1 < base) (h : Holds base size s n) :
    s.digits = (base.digits n).reverse := by
  have hunused : ∀ d ∈ s.buffer.reverse.take (s.buffer.length - s.length), d = 0 := by
    intro d hd
    have hle := h.inUse
    have hsized := h.sized
    rw [List.take_reverse, List.mem_reverse,
      show s.buffer.length - (s.buffer.length - s.length) = s.length by omega] at hd
    exact h.zeros d hd
  have hvalue : valueAfter base 0 s.digits = n := by
    rw [State.digits, valueAfter_dropWhile, ← h.value, ← List.reverse_reverse s.buffer,
      ← valueAfter_zero, List.reverse_reverse]
    conv_rhs => rw [← List.take_append_drop (s.buffer.length - s.length) s.buffer.reverse]
    rw [valueAfter_append]
    congr 1
    rw [valueAfter_zero, ofDigits_of_zeros fun d hd => hunused d (List.mem_reverse.mp hd)]
  rw [← hvalue]
  refine (digits_value hbase (fun d hd => ?_) (head?_dropWhile _)).symm
  have hmem := List.mem_of_mem_drop (List.dropWhile_subset _ hd)
  exact h.lt d (List.mem_reverse.mp hmem)

/-! ### The size of the buffer -/

lemma pow_le_pow_div {a b p q : ℕ} (hb : 0 < b) (hq : 0 < q) (h : a ^ q ≤ b ^ p) (n : ℕ) :
    a ^ n ≤ b ^ (n * p / q + 1) := by
  refine le_of_pow_le_pow_left₀ hq.ne' (Nat.zero_le _) ?_
  have hdiv := Nat.lt_div_mul_add (a := n * p) hq
  calc (a ^ n) ^ q = (a ^ q) ^ n := pow_right_comm a n q
    _ ≤ (b ^ p) ^ n := Nat.pow_le_pow_left h n
    _ = b ^ (n * p) := by rw [← pow_mul, Nat.mul_comm]
    _ ≤ b ^ ((n * p / q + 1) * q) := by
      refine Nat.pow_le_pow_right hb ?_
      rw [Nat.succ_mul]
      omega
    _ = (b ^ (n * p / q + 1)) ^ q := pow_mul b _ q

end Agenor.Lib.Radix
