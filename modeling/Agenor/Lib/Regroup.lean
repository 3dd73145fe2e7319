import Mathlib.Data.Nat.Digits.Lemmas
import Mathlib.Tactic.Ring

/-!
Digits to one power of two, read as digits to another.

The bits of the digits, one digit after the other, are cut into groups of another size; what is left
at the end is fewer bits than a group has. Padded with zeros to a full group, the groups stand for
exactly one list of digits, and they are the only ones that do.
-/

namespace Agenor.Lib.Regroup

/-- The number that digits of `w` bits give, the most significant first. -/
def value (w : ℕ) (ds : List ℕ) : ℕ := Nat.ofDigits (2 ^ w) ds.reverse

variable {f t bits p rem : ℕ} {xs ds ds' : List ℕ}

lemma value_snoc (w : ℕ) (ds : List ℕ) (d : ℕ) : value w (ds ++ [d]) = value w ds * 2 ^ w + d := by
  rw [value, List.reverse_append, List.reverse_singleton, List.singleton_append, Nat.ofDigits_cons,
    value]
  ring

lemma forall_mem_snoc {P : ℕ → Prop} {d : ℕ} (h : ∀ x ∈ ds, P x) (hd : P d) :
    ∀ x ∈ ds ++ [d], P x :=
  List.forall_mem_append.mpr ⟨h, List.forall_mem_singleton.mpr hd⟩

lemma eq_of_value_eq (ht : 0 < t) (hlen : ds.length = ds'.length) (hds : ∀ d ∈ ds, d < 2 ^ t)
    (hds' : ∀ d ∈ ds', d < 2 ^ t) (h : value t ds = value t ds') : ds = ds' := by
  refine List.reverse_injective (Nat.ofDigits_inj_of_len_eq (Nat.one_lt_two_pow ht.ne') ?_ ?_ ?_ h)
  · rw [List.length_reverse, List.length_reverse, hlen]
  · exact fun d hd => hds d (List.mem_reverse.mp hd)
  · exact fun d hd => hds' d (List.mem_reverse.mp hd)

/-! ### Regrouping -/

/-- The digits in groups of another size, with so many bits left, which have this value. While a
digit is taken apart there may be more bits left than a group has. -/
structure Takes (f t : ℕ) (xs ds : List ℕ) (rem bits : ℕ) : Prop where
  length : f * xs.length = t * ds.length + bits
  digits : ∀ d ∈ ds, d < 2 ^ t
  rem_lt : rem < 2 ^ bits
  value : value f xs = value t ds * 2 ^ bits + rem

lemma Takes.nil (f t : ℕ) : Takes f t [] [] 0 0 where
  length := rfl
  digits := nofun
  rem_lt := Nat.one_pos
  value := rfl

lemma Takes.push (h : Takes f t xs ds rem bits) {x : ℕ} (hx : x < 2 ^ f) :
    Takes f t (xs ++ [x]) ds (rem * 2 ^ f + x) (bits + f) where
  length := by
    rw [List.length_append, List.length_singleton, mul_add, h.length]
    ring
  digits := h.digits
  rem_lt :=
    calc rem * 2 ^ f + x < rem * 2 ^ f + 2 ^ f := Nat.add_lt_add_left hx _
      _ = (rem + 1) * 2 ^ f := (Nat.succ_mul rem _).symm
      _ ≤ 2 ^ bits * 2 ^ f := Nat.mul_le_mul_right _ h.rem_lt
      _ = 2 ^ (bits + f) := (pow_add 2 bits f).symm
  value := by
    rw [value_snoc, h.value, pow_add]
    ring

lemma Takes.group (h : Takes f t xs ds rem (bits + t)) :
    Takes f t xs (ds ++ [rem / 2 ^ bits]) (rem % 2 ^ bits) bits where
  length := by
    rw [List.length_append, List.length_singleton, h.length]
    ring
  digits := by
    refine forall_mem_snoc h.digits (Nat.div_lt_of_lt_mul ?_)
    rw [← pow_add]
    exact h.rem_lt
  rem_lt := Nat.mod_lt _ (Nat.two_pow_pos bits)
  value := by
    have hdiv := Nat.div_add_mod' rem (2 ^ bits)
    rw [h.value, value_snoc, pow_add]
    calc Regroup.value t ds * (2 ^ bits * 2 ^ t) + rem
        = Regroup.value t ds * (2 ^ bits * 2 ^ t) +
            (rem / 2 ^ bits * 2 ^ bits + rem % 2 ^ bits) := by rw [hdiv]
      _ = (Regroup.value t ds * 2 ^ t + rem / 2 ^ bits) * 2 ^ bits + rem % 2 ^ bits := by ring

/-! ### Padding -/

/-- The groups are the digits with so many zero bits behind them, fewer than a group has. -/
structure Pads (f t : ℕ) (xs ds : List ℕ) (p : ℕ) : Prop where
  length : t * ds.length = f * xs.length + p
  lt : p < t
  digits : ∀ d ∈ ds, d < 2 ^ t
  value : value t ds = value f xs * 2 ^ p

lemma Takes.pads_of_zero (h : Takes f t xs ds rem 0) (ht : 0 < t) : Pads f t xs ds 0 where
  length := h.length.symm
  lt := ht
  digits := h.digits
  value := by
    have hrem := h.rem_lt
    rw [h.value]
    omega

lemma Takes.pads (h : Takes f t xs ds rem bits) (hb : 0 < bits) (hlt : bits < t) :
    Pads f t xs (ds ++ [rem * 2 ^ (t - bits)]) (t - bits) where
  length := by
    rw [List.length_append, List.length_singleton, h.length, mul_add]
    omega
  lt := by omega
  digits := by
    have hpow : 2 ^ bits * 2 ^ (t - bits) = 2 ^ t := by rw [← pow_add, Nat.add_sub_of_le hlt.le]
    refine forall_mem_snoc h.digits (hpow ▸ ?_)
    exact Nat.mul_lt_mul_of_pos_right h.rem_lt (Nat.two_pow_pos _)
  value := by
    have hpow : 2 ^ bits * 2 ^ (t - bits) = 2 ^ t := by rw [← pow_add, Nat.add_sub_of_le hlt.le]
    rw [value_snoc, h.value, ← hpow]
    ring

/-- **The groups are determined by the digits.** -/
theorem Pads.unique {p' : ℕ} (h : Pads f t xs ds p) (h' : Pads f t xs ds' p') : ds = ds' := by
  have ht : 0 < t := by
    have hlt := h.lt
    omega
  have hdiv : ∀ {ds : List ℕ} {p : ℕ}, Pads f t xs ds p →
      ds.length = (f * xs.length + (t - 1)) / t := by
    intro ds p hp
    have hlt := hp.lt
    rw [show f * xs.length + (t - 1) = t * ds.length + (t - 1 - p) by rw [hp.length]; omega,
      Nat.mul_add_div ht, Nat.div_eq_of_lt (by omega), add_zero]
  have hlen : ds.length = ds'.length := (hdiv h).trans (hdiv h').symm
  have hp : p = p' := by
    have h1 := h.length
    have h2 := h'.length
    rw [hlen] at h1
    omega
  subst hp
  exact eq_of_value_eq ht hlen h.digits h'.digits (h.value.trans h'.value.symm)

lemma Takes.pads_back (h : Takes t f ds xs 0 bits) (hlt : bits < t) (hds : ∀ d ∈ ds, d < 2 ^ t) :
    Pads f t xs ds bits where
  length := h.length
  lt := hlt
  digits := hds
  value := h.value

/-- **Padded groups regroup back to the digits**, and what is left is the padding. -/
theorem Pads.takes_back {xs' : List ℕ} (h : Pads f t xs ds p) (hft : t ≤ f)
    (hxs : ∀ x ∈ xs, x < 2 ^ f) (h' : Takes t f ds xs' rem bits) (hlt : bits < f) :
    xs' = xs ∧ rem = 0 ∧ bits = p := by
  have hp := h.lt
  have hf : 0 < f := by omega
  have hsum : f * xs.length + p = f * xs'.length + bits := h.length.symm.trans h'.length
  have hlen : xs.length = xs'.length :=
    calc xs.length = (f * xs.length + p) / f := by
          rw [Nat.mul_add_div hf, Nat.div_eq_of_lt (by omega), add_zero]
      _ = xs'.length := by rw [hsum, Nat.mul_add_div hf, Nat.div_eq_of_lt hlt, add_zero]
  have hbits : bits = p := by
    rw [hlen] at hsum
    omega
  subst hbits
  have hvalue : Regroup.value f xs * 2 ^ bits = Regroup.value f xs' * 2 ^ bits + rem :=
    h.value.symm.trans h'.value
  have hrem : rem = 0 := by
    have hmod := congrArg (· % 2 ^ bits) hvalue
    simp only [Nat.mul_mod_left] at hmod
    rw [Nat.mul_comm, Nat.mul_add_mod, Nat.mod_eq_of_lt h'.rem_lt] at hmod
    exact hmod.symm
  rw [hrem, add_zero] at hvalue
  have heq := Nat.eq_of_mul_eq_mul_right (Nat.two_pow_pos bits) hvalue
  exact ⟨(eq_of_value_eq hf hlen hxs h'.digits heq).symm, hrem, rfl⟩

end Agenor.Lib.Regroup
