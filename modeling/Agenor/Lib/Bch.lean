import Mathlib.Algebra.CharP.Algebra
import Mathlib.Algebra.CharP.Two
import Mathlib.Algebra.Field.ZMod
import Mathlib.Algebra.Polynomial.BigOperators
import Mathlib.Algebra.Polynomial.Eval.Degree
import Mathlib.Algebra.Ring.GeomSum
import Mathlib.RingTheory.AdjoinRoot

/-!
Codes over a ring of characteristic two, with the coefficients packed into the bits of a number.

The bound: a word with few non-zero places is not sent to zero by enough consecutive powers, if the
differences of the powers at its places are units. For a root of one whose exponent is known, three
differences are enough to look at. Which element a packed number stands for is computed on numbers.
-/

namespace Agenor.Lib.Bch

open Polynomial

variable {K ι : Type*} [CommRing K]

/-! ### The bound -/

/-- Of a word that consecutive powers send to zero, one place is picked out by the polynomial that
vanishes at the others. -/
lemma mul_prod_sub_eq_zero [DecidableEq ι] {S : Finset ι} {a g : ι → K} {d : ℕ} (hS : S.card ≤ d)
    (h : ∀ j < d, ∑ i ∈ S, a i * g i ^ j = 0) {i : ι} (hi : i ∈ S) :
    a i * ∏ j ∈ S.erase i, (g i - g j) = 0 := by
  set Q : K[X] := ∏ j ∈ S.erase i, (X - C (g j)) with hQ
  have hdegree : Q.natDegree < d := by
    have hle : Q.natDegree ≤ (S.erase i).card * 1 :=
      (natDegree_prod_le _ _).trans (Finset.sum_le_card_nsmul _ _ 1 fun j _ =>
        natDegree_X_sub_C_le (g j))
    rw [Finset.card_erase_of_mem hi] at hle
    have hpos := Finset.card_pos.mpr ⟨i, hi⟩
    omega
  have heval : ∀ k, Q.eval (g k) = ∏ j ∈ S.erase i, (g k - g j) := by
    intro k
    rw [hQ, eval_prod]
    exact Finset.prod_congr rfl fun j _ => by rw [eval_sub, eval_X, eval_C]
  have hsum : ∑ k ∈ S, a k * Q.eval (g k) = 0 :=
    calc ∑ k ∈ S, a k * Q.eval (g k)
        = ∑ k ∈ S, ∑ m ∈ Finset.range d, Q.coeff m * (a k * g k ^ m) := by
          refine Finset.sum_congr rfl fun k _ => ?_
          rw [eval_eq_sum_range' hdegree, Finset.mul_sum]
          exact Finset.sum_congr rfl fun m _ => by ring
      _ = ∑ m ∈ Finset.range d, Q.coeff m * ∑ k ∈ S, a k * g k ^ m := by
          rw [Finset.sum_comm]
          exact Finset.sum_congr rfl fun m _ => (Finset.mul_sum _ _ _).symm
      _ = 0 := Finset.sum_eq_zero fun m hm => by rw [h m (Finset.mem_range.mp hm), mul_zero]
  rw [Finset.sum_eq_single_of_mem i hi] at hsum
  · rwa [heval] at hsum
  · intro k hk hne
    rw [heval, Finset.prod_eq_zero (Finset.mem_erase.mpr ⟨hne, hk⟩) (sub_self _), mul_zero]

/-- **The bound.** -/
theorem eq_zero_of_syndromes {S : Finset ι} {a g : ι → K} {d : ℕ} (hS : S.card ≤ d)
    (h : ∀ j < d, ∑ i ∈ S, a i * g i ^ j = 0)
    (hg : ∀ i ∈ S, ∀ j ∈ S, i ≠ j → IsUnit (g i - g j)) : ∀ i ∈ S, a i = 0 := by
  classical
  intro i hi
  have hunit : IsUnit (∏ j ∈ S.erase i, (g i - g j)) :=
    IsUnit.prod_iff.mpr fun j hj =>
      hg i hi j (Finset.mem_of_mem_erase hj) (Finset.ne_of_mem_erase hj).symm
  exact hunit.mul_left_eq_zero.mp (mul_prod_sub_eq_zero hS h hi)

/-! ### Powers of a root of one -/

/-- It is enough that the differences to one are units for the largest proper divisors of the
exponent. -/
theorem isUnit_pow_sub_one {x : K} {n : ℕ} (hn : 0 < n) (hx : x ^ n = 1)
    (h : ∀ q, q.Prime → q ∣ n → IsUnit (x ^ (n / q) - 1)) {k : ℕ} (hk : ¬ n ∣ k) :
    IsUnit (x ^ k - 1) := by
  have hlt : Nat.gcd k n < n := by
    refine lt_of_le_of_ne (Nat.gcd_le_right k hn) fun heq => hk ?_
    rw [← heq]
    exact Nat.gcd_dvd_left k n
  obtain ⟨m, -, hm⟩ := Nat.exists_mul_mod_eq_gcd hlt
  -- a prime that the greatest common divisor leaves
  obtain ⟨r, hr⟩ := Nat.gcd_dvd_right k n
  have hr1 : r ≠ 1 := by
    rintro rfl
    omega
  obtain ⟨q, hq, hqr⟩ := Nat.exists_prime_and_dvd hr1
  obtain ⟨r', rfl⟩ := hqr
  have hdvd : Nat.gcd k n ∣ n / q :=
    ⟨r', Nat.div_eq_of_eq_mul_left hq.pos (hr.trans (by ring))⟩
  have hqn : q ∣ n := hr ▸ (Dvd.intro r' rfl).mul_left _
  refine isUnit_of_dvd_unit ?_ (h q hq hqn)
  calc x ^ k - 1 ∣ x ^ (k * m) - 1 := pow_one_sub_dvd_pow_mul_sub_one x k m
    _ = x ^ Nat.gcd k n - 1 := by rw [pow_eq_pow_mod _ hx, hm]
    _ ∣ x ^ (n / q) - 1 := dvd_pow_sub_one_of_dvd hdvd

/-! ### Packed coefficients -/

/-- The sum of the elements for the bits that are set, of the lowest `w` bits. -/
def sumBits (w : ℕ) (f : ℕ → K) (c : ℕ) : K :=
  ∑ b ∈ Finset.range w, if c.testBit b then f b else 0

/-- The same sum of packed elements. -/
def xorBits (f : ℕ → ℕ) (c : ℕ) : ℕ → ℕ
  | 0 => 0
  | w + 1 => xorBits f c w ^^^ if c.testBit w then f w else 0

variable {w v : ℕ} {f : ℕ → K} {c d : ℕ}

lemma sumBits_zero (w : ℕ) (f : ℕ → K) : sumBits w f 0 = 0 :=
  Finset.sum_eq_zero fun b _ => by rw [Nat.zero_testBit, if_neg Bool.false_ne_true]

lemma sumBits_xor [CharP K 2] (w : ℕ) (f : ℕ → K) (c d : ℕ) :
    sumBits w f (c ^^^ d) = sumBits w f c + sumBits w f d := by
  rw [sumBits, sumBits, sumBits, ← Finset.sum_add_distrib]
  refine Finset.sum_congr rfl fun b _ => ?_
  rw [Nat.testBit_xor]
  cases c.testBit b <;> cases d.testBit b <;> simp [CharTwo.add_self_eq_zero]

lemma sumBits_succ (w : ℕ) (f : ℕ → K) (c : ℕ) :
    sumBits (w + 1) f c = sumBits w f c + if c.testBit w then f w else 0 :=
  Finset.sum_range_succ ..

lemma sumBits_of_lt {k : ℕ} (hc : c < 2 ^ w) : sumBits (w + k) f c = sumBits w f c := by
  induction k with
  | zero => rfl
  | succ k ih =>
    have hbit : c.testBit (w + k) = false :=
      Nat.testBit_lt_two_pow (hc.trans_le (Nat.pow_le_pow_right (by decide) (by omega)))
    rw [← Nat.add_assoc, sumBits_succ, ih, hbit, if_neg Bool.false_ne_true, add_zero]

lemma sumBits_shiftLeft (k w : ℕ) (f : ℕ → K) (c : ℕ) :
    sumBits (w + k) f (c <<< k) = sumBits w (fun b => f (b + k)) c := by
  have hlow : ∑ b ∈ Finset.range k, (if (c <<< k).testBit b then f b else 0) = 0 := by
    refine Finset.sum_eq_zero fun b hb => ?_
    rw [Nat.testBit_shiftLeft, decide_eq_false (not_le.mpr (Finset.mem_range.mp hb)),
      Bool.false_and, if_neg Bool.false_ne_true]
  rw [sumBits, Nat.add_comm, Finset.sum_range_add, hlow, zero_add]
  refine Finset.sum_congr rfl fun b _ => ?_
  rw [Nat.testBit_shiftLeft, decide_eq_true (Nat.le_add_right k b), Bool.true_and,
    Nat.add_sub_cancel_left, Nat.add_comm k b]

lemma sumBits_xorBits [CharP K 2] (e : ℕ → K) (g : ℕ → ℕ) (c w : ℕ) :
    sumBits v e (xorBits g c w) = sumBits w (fun b => sumBits v e (g b)) c := by
  induction w with
  | zero => exact sumBits_zero v e
  | succ w ih =>
    rw [xorBits, sumBits_xor, ih, sumBits_succ]
    split_ifs
    · rfl
    · rw [sumBits_zero]

lemma xorBits_zero (g : ℕ → ℕ) (w : ℕ) : xorBits g 0 w = 0 := by
  induction w with
  | zero => rfl
  | succ w ih => rw [xorBits, ih, Nat.zero_testBit, if_neg Bool.false_ne_true, Nat.xor_zero]

lemma xorBits_xor (g : ℕ → ℕ) (c d w : ℕ) :
    xorBits g (c ^^^ d) w = xorBits g c w ^^^ xorBits g d w := by
  induction w with
  | zero => rw [xorBits, xorBits, xorBits, Nat.xor_zero]
  | succ w ih =>
    have hbit : (if (c ^^^ d).testBit w then g w else 0) =
        (if c.testBit w then g w else 0) ^^^ if d.testBit w then g w else 0 := by
      rw [Nat.testBit_xor]
      cases c.testBit w <;> cases d.testBit w <;> simp
    rw [xorBits, xorBits, xorBits, ih, hbit]
    ac_rfl

lemma xorBits_lt {g : ℕ → ℕ} {n : ℕ} (c : ℕ) (h : ∀ b < w, g b < 2 ^ n) :
    xorBits g c w < 2 ^ n := by
  induction w with
  | zero => exact Nat.two_pow_pos n
  | succ w ih =>
    refine Nat.xor_lt_two_pow (ih fun b hb => h b (by omega)) ?_
    split_ifs
    · exact h w (Nat.lt_succ_self w)
    · exact Nat.two_pow_pos n

/-! ### Powers of the root of a packed polynomial -/

/-- Times the root of the polynomial `p` of degree `w`. -/
def timesRoot (w p n : ℕ) : ℕ := if (n <<< 1).testBit w then (n <<< 1) ^^^ p else n <<< 1

/-- That many times the root. -/
def timesRoots (w p n : ℕ) : ℕ → ℕ
  | 0 => n
  | b + 1 => timesRoot w p (timesRoots w p n b)

def mulPacked (w p m n : ℕ) : ℕ := xorBits (timesRoots w p m) n w

/-- Powers of a power of the root. -/
def stridePow (w p stride : ℕ) : ℕ → ℕ
  | 0 => 1
  | q + 1 => mulPacked w p (timesRoots w p 1 stride) (stridePow w p stride q)

/-- The power of the root, in strides. -/
def rootPow (w p stride k : ℕ) : ℕ :=
  timesRoots w p (stridePow w p stride (k / stride)) (k % stride)

section Root

variable [CharP K 2] {α : K} {p n : ℕ}

/-- The polynomial has this degree, and the element is a root of it. -/
structure IsRoot (w p : ℕ) (α : K) : Prop where
  pos : 0 < w
  lt : p < 2 ^ (w + 1)
  monic : p.testBit w = true
  root : sumBits (w + 1) (α ^ ·) p = 0

lemma IsRoot.timesRoot (h : IsRoot w p α) (hn : n < 2 ^ w) :
    timesRoot w p n < 2 ^ w ∧ sumBits w (α ^ ·) (timesRoot w p n) = α * sumBits w (α ^ ·) n := by
  have hshift : sumBits (w + 1) (α ^ ·) (n <<< 1) = α * sumBits w (α ^ ·) n := by
    rw [sumBits_shiftLeft, sumBits, sumBits, Finset.mul_sum]
    refine Finset.sum_congr rfl fun b _ => ?_
    split_ifs
    · rw [pow_succ']
    · rw [mul_zero]
  have hlt : n <<< 1 < 2 ^ (w + 1) := by
    rw [Nat.shiftLeft_eq, pow_one, pow_succ]
    omega
  have hfits : ∀ m < 2 ^ (w + 1), m.testBit w = false → m < 2 ^ w := by
    intro m hm hbit
    refine Nat.lt_pow_two_of_testBit m fun i hi => ?_
    rcases hi.eq_or_lt with rfl | hi
    · exact hbit
    · exact Nat.testBit_lt_two_pow (hm.trans_le (Nat.pow_le_pow_right (by decide) hi))
  rw [Bch.timesRoot]
  split_ifs with hbit
  · have hsmall := hfits _ (Nat.xor_lt_two_pow hlt h.lt)
      (by rw [Nat.testBit_xor, hbit, h.monic]; rfl)
    refine ⟨hsmall, ?_⟩
    rw [← sumBits_of_lt (k := 1) hsmall, sumBits_xor, h.root, add_zero, hshift]
  · have hsmall := hfits _ hlt (Bool.eq_false_of_not_eq_true hbit)
    exact ⟨hsmall, by rw [← sumBits_of_lt (k := 1) hsmall, hshift]⟩

lemma IsRoot.timesRoots (h : IsRoot w p α) (hn : n < 2 ^ w) (b : ℕ) :
    timesRoots w p n b < 2 ^ w ∧
      sumBits w (α ^ ·) (timesRoots w p n b) = sumBits w (α ^ ·) n * α ^ b := by
  induction b with
  | zero => exact ⟨hn, by rw [pow_zero, mul_one, Bch.timesRoots]⟩
  | succ b ih =>
    obtain ⟨hlt, hsum⟩ := h.timesRoot ih.1
    exact ⟨hlt, by rw [Bch.timesRoots, hsum, ih.2, pow_succ]; ring⟩

lemma IsRoot.mulPacked (h : IsRoot w p α) (hn : n < 2 ^ w) (m : ℕ) :
    mulPacked w p n m < 2 ^ w ∧
      sumBits w (α ^ ·) (mulPacked w p n m) =
        sumBits w (α ^ ·) n * sumBits w (α ^ ·) m := by
  refine ⟨xorBits_lt m fun b _ => (h.timesRoots hn b).1, ?_⟩
  rw [Bch.mulPacked, sumBits_xorBits, sumBits, sumBits.eq_def w _ m, Finset.mul_sum]
  refine Finset.sum_congr rfl fun b _ => ?_
  rw [(h.timesRoots hn b).2, mul_ite, mul_zero]

omit [CharP K 2] in
lemma IsRoot.one (h : IsRoot w p α) : 1 < 2 ^ w ∧ sumBits w (α ^ ·) 1 = 1 := by
  refine ⟨Nat.one_lt_two_pow h.pos.ne', ?_⟩
  obtain ⟨k, rfl⟩ := Nat.exists_eq_add_of_le (show 1 ≤ w from h.pos)
  rw [sumBits_of_lt (by decide), sumBits_succ]
  simp [sumBits]

lemma IsRoot.stridePow (h : IsRoot w p α) (stride q : ℕ) :
    stridePow w p stride q < 2 ^ w ∧
      sumBits w (α ^ ·) (stridePow w p stride q) = α ^ (stride * q) := by
  induction q with
  | zero => exact ⟨h.one.1, by rw [Bch.stridePow, h.one.2, mul_zero, pow_zero]⟩
  | succ q ih =>
    obtain ⟨hlt, hsum⟩ := h.timesRoots h.one.1 stride
    obtain ⟨hmul, hprod⟩ := h.mulPacked hlt (Bch.stridePow w p stride q)
    refine ⟨hmul, ?_⟩
    rw [Bch.stridePow, hprod, hsum, h.one.2, ih.2, one_mul, mul_add, mul_one, pow_add, mul_comm]

lemma IsRoot.rootPow (h : IsRoot w p α) (stride k : ℕ) :
    sumBits w (α ^ ·) (rootPow w p stride k) = α ^ k := by
  obtain ⟨hlt, hsum⟩ := h.stridePow stride (k / stride)
  rw [Bch.rootPow, (h.timesRoots hlt _).2, hsum, ← pow_add, Nat.div_add_mod]

end Root

/-- Every such polynomial has a root in some ring. -/
theorem exists_isRoot {p : ℕ} (hw : 0 < w) (hp : p < 2 ^ (w + 1)) (hmonic : p.testBit w = true) :
    ∃ (L : Type) (_ : CommRing L) (_ : CharP L 2) (α : L), IsRoot w p α := by
  have : Fact (Nat.Prime 2) := ⟨Nat.prime_two⟩
  set P : (ZMod 2)[X] := sumBits (w + 1) (X ^ ·) p with hP
  have hlow : (sumBits w (X ^ ·) p : (ZMod 2)[X]).degree < w := by
    refine (degree_sum_le _ _).trans_lt ((Finset.sup_lt_iff (WithBot.bot_lt_coe w)).mpr ?_)
    intro b hb
    split_ifs
    · exact (degree_X_pow_le b).trans_lt (WithBot.coe_lt_coe.mpr (Finset.mem_range.mp hb))
    · rw [degree_zero]
      exact WithBot.bot_lt_coe w
  have hdegree : P.degree = w := by
    rw [hP, sumBits_succ, if_pos hmonic, degree_add_eq_right_of_degree_lt, degree_X_pow]
    rwa [degree_X_pow]
  have : Nontrivial (AdjoinRoot P) := AdjoinRoot.nontrivial P (by
    rw [hdegree]
    exact Nat.cast_ne_zero.mpr hw.ne')
  have : CharP (AdjoinRoot P) 2 :=
    charP_of_injective_algebraMap (algebraMap (ZMod 2) (AdjoinRoot P)).injective 2
  refine ⟨AdjoinRoot P, inferInstance, inferInstance, AdjoinRoot.root P, hw, hp, hmonic, ?_⟩
  calc sumBits (w + 1) (AdjoinRoot.root P ^ ·) p
      = AdjoinRoot.mk P (sumBits (w + 1) (X ^ ·) p) := by
        rw [sumBits, sumBits, map_sum]
        refine Finset.sum_congr rfl fun b _ => ?_
        rw [apply_ite (AdjoinRoot.mk P), map_pow, map_zero, AdjoinRoot.mk_X]
    _ = 0 := by rw [← hP, AdjoinRoot.mk_self]

end Agenor.Lib.Bch
