import Agenor.Bech32

/-!
The errors that the checksum of a Bech32 string detects.

The generator of the code has three consecutive powers of an element of order 1023 as roots. So the
remainder of a word gives three sums over its places, and up to three changes within 1023 places
do not make all of them zero.
-/

namespace Agenor

open Lib.Bch

namespace Bech32

variable {K : Type*} [CommRing K] [CharP K 2] {α : K} {c j : ℕ} {v : UInt8}

/-! ### Powers of a root of `x^10 + x^8 + x^5 + x + 1` -/

def power (n : ℕ) : ℕ := rootPow 10 1315 32 (n % 1023)

/-- What is computed on packed powers: the order of the root, what its largest proper powers differ
from one by, the powers that the values stand for, and the constants at the three roots. -/
lemma power_spec :
    rootPow 10 1315 32 1023 = power 0 ∧
      (power 341 ^^^ power 0 = power 682 ∧ power 93 ^^^ power 0 = power 426 ∧
        power 33 ^^^ power 0 = power 429) ∧
      (∀ n < 32, n ≠ 0 → ∃ m < 31, xorBits (fun b => power (924 * b)) n 5 = power (924 * m)) ∧
      ∀ j < 3, ∀ u < 5,
        xorBits (fun b => power (924 * (b % 5) + (24 + j) * (b / 5))) (multiple u) 30 =
          power (24 + j + (924 * u + (24 + j) * 5)) := by
  decide +kernel

/-- What a value of five bits stands for: `a` is a root of `a^5 + a^3 + 1`. -/
def symbol (α : K) (v : ℕ) : K := sumBits 5 (fun b => α ^ (924 * b)) v

/-- The polynomial packed in `c`, at one of the roots. -/
def syndrome (α : K) (j c : ℕ) : K :=
  sumBits 30 (fun b => α ^ (924 * (b % 5) + (24 + j) * (b / 5))) c

lemma pow_eq_one (h : IsRoot 10 1315 α) : α ^ 1023 = 1 := by
  rw [← h.rootPow 32, power_spec.1, power, h.rootPow, Nat.zero_mod, pow_zero]

lemma sumBits_power (h : IsRoot 10 1315 α) (n : ℕ) : sumBits 10 (α ^ ·) (power n) = α ^ n := by
  rw [power, h.rootPow, ← pow_eq_pow_mod n (pow_eq_one h)]

lemma isUnit_sub (h : IsRoot 10 1315 α) {p q : ℕ} (hp : p < 1023) (hpq : p < q) (hq : q < 1023) :
    IsUnit (α ^ q - α ^ p) := by
  have hα : IsUnit α := IsUnit.of_pow_eq_one (pow_eq_one h) (by decide)
  have hdiff : ∀ m n, power m ^^^ power 0 = power n → IsUnit (α ^ m - 1) := by
    intro m n hmn
    have hsum := congrArg (sumBits 10 (α ^ ·)) hmn
    rw [sumBits_xor, sumBits_power h, sumBits_power h, sumBits_power h, pow_zero] at hsum
    rw [CharTwo.sub_eq_add, hsum]
    exact hα.pow n
  have hone : IsUnit (α ^ (q - p) - 1) := by
    refine isUnit_pow_sub_one (by decide) (pow_eq_one h) (fun r hr hdvd => ?_) fun hdvd =>
      absurd (Nat.le_of_dvd (by omega) hdvd) (by omega)
    have hr : r = 3 ∨ r = 11 ∨ r = 31 := by
      rw [show 1023 = 3 * 11 * 31 from rfl, hr.dvd_mul, hr.dvd_mul,
        Nat.prime_dvd_prime_iff_eq hr Nat.prime_three, Nat.prime_dvd_prime_iff_eq hr (by decide),
        Nat.prime_dvd_prime_iff_eq hr (by decide)] at hdvd
      tauto
    rcases hr with rfl | rfl | rfl
    · exact hdiff 341 682 power_spec.2.1.1
    · exact hdiff 93 426 power_spec.2.1.2.1
    · exact hdiff 33 429 power_spec.2.1.2.2
  have hfactor : α ^ q - α ^ p = α ^ p * (α ^ (q - p) - 1) := by
    rw [mul_sub, ← pow_add, Nat.add_sub_of_le hpq.le, mul_one]
  rw [hfactor]
  exact (hα.pow p).mul hone

lemma isUnit_symbol (h : IsRoot 10 1315 α) (hv : v < 32) (hne : v ≠ 0) :
    IsUnit (symbol α v.toNat) := by
  obtain ⟨m, -, hm⟩ :=
    power_spec.2.2.1 v.toNat hv fun h0 => hne (UInt8.toNat_inj.mp h0)
  have hsymbol : symbol α v.toNat = α ^ (924 * m) := by
    rw [← sumBits_power h, ← hm, sumBits_xorBits, symbol]
    simp only [sumBits_power h]
  rw [hsymbol]
  exact (IsUnit.of_pow_eq_one (pow_eq_one h) (by decide)).pow _

/-! ### What `PolyMod` does to the sums -/

lemma syndrome_multiple (h : IsRoot 10 1315 α) (hj : j < 3) {u : ℕ} (hu : u < 5) :
    syndrome α j (multiple u) = α ^ (24 + j) * α ^ (924 * u + (24 + j) * 5) := by
  rw [← pow_add, ← sumBits_power h, ← power_spec.2.2.2 j hj u hu, sumBits_xorBits, syndrome]
  simp only [sumBits_power h]

lemma syndrome_step (h : IsRoot 10 1315 α) (hj : j < 3) (hv : v < 32) :
    syndrome α j (polyModStep c v) = α ^ (24 + j) * syndrome α j c + symbol α v.toNat := by
  set f : ℕ → K := fun b => α ^ (924 * (b % 5) + (24 + j) * (b / 5)) with hf
  have hlow : sumBits 30 f ((c &&& 0x1ffffff) <<< 5) = α ^ (24 + j) * sumBits 25 f c := by
    rw [show 30 = 25 + 5 from rfl, sumBits_shiftLeft, sumBits, sumBits, Finset.mul_sum]
    refine Finset.sum_congr rfl fun b hb => ?_
    have hbit : (c &&& 0x1ffffff).testBit b = c.testBit b := by
      rw [Nat.testBit_and, show 0x1ffffff = 2 ^ 25 - 1 from rfl, Nat.testBit_two_pow_sub_one,
        decide_eq_true (Finset.mem_range.mp hb), Bool.and_true]
    have hroot : f (b + 5) = α ^ (24 + j) * f b := by
      rw [hf]
      dsimp only
      rw [Nat.add_mod_right, Nat.add_div_right b (by decide), ← pow_add]
      congr 1
      ring
    rw [hbit, hroot, mul_ite, mul_zero]
  have hvalue : sumBits 30 f v.toNat = symbol α v.toNat := by
    rw [show 30 = 5 + 25 from rfl, sumBits_of_lt (UInt8.lt_iff_toNat_lt.mp hv), symbol]
    refine Finset.sum_congr rfl fun b hb => ?_
    rw [hf]
    dsimp only
    rw [Nat.mod_eq_of_lt (Finset.mem_range.mp hb), Nat.div_eq_of_lt (Finset.mem_range.mp hb),
      mul_zero, add_zero]
  have hhigh : sumBits 30 f (xorBits multiple (c >>> 25) 5) =
      α ^ (24 + j) * sumBits 5 (fun u => f (25 + u)) (c >>> 25) := by
    rw [sumBits_xorBits, sumBits, sumBits, Finset.mul_sum]
    refine Finset.sum_congr rfl fun u hu => ?_
    have hu := Finset.mem_range.mp hu
    have hroot : f (25 + u) = α ^ (924 * u + (24 + j) * 5) := by
      rw [hf]
      dsimp only
      rw [show (25 + u) % 5 = u by omega, show (25 + u) / 5 = 5 by omega]
    rw [← syndrome, syndrome_multiple h hj hu, hroot, mul_ite, mul_zero]
  have hsplit : sumBits 30 f c = sumBits 25 f c + sumBits 5 (fun u => f (25 + u)) (c >>> 25) := by
    rw [sumBits, show 30 = 25 + 5 from rfl, Finset.sum_range_add, sumBits, sumBits]
    simp only [Nat.testBit_shiftRight]
  calc syndrome α j (polyModStep c v)
      = α ^ (24 + j) * sumBits 25 f c + symbol α v.toNat +
          α ^ (24 + j) * sumBits 5 (fun u => f (25 + u)) (c >>> 25) := by
        rw [polyModStep_eq, syndrome, sumBits_xor, sumBits_xor, hlow, hvalue, hhigh]
    _ = α ^ (24 + j) * sumBits 30 f c + symbol α v.toNat := by
        rw [hsplit]
        ring

lemma syndrome_polyMod (h : IsRoot 10 1315 α) (hj : j < 3) {r : List UInt8}
    (hr : ∀ v ∈ r, v < 32) :
    syndrome α j (r.reverse.foldl polyModStep 0) =
      ∑ p ∈ Finset.range r.length, symbol α (r.getD p 0).toNat * α ^ ((24 + j) * p) := by
  induction r with
  | nil => exact sumBits_zero 30 _
  | cons v r ih =>
    obtain ⟨hv, hr⟩ := List.forall_mem_cons.mp hr
    rw [List.reverse_cons, List.foldl_append, List.foldl_cons, List.foldl_nil,
      syndrome_step h hj hv, ih hr, List.length_cons, Finset.sum_range_succ', Finset.mul_sum]
    congr 1
    · refine Finset.sum_congr rfl fun p _ => ?_
      rw [List.getD_cons_succ, mul_add, mul_one, pow_add]
      ring
    · rw [List.getD_cons_zero, mul_zero, pow_zero, mul_one]

/-! ### The distance -/

lemma card_support (r : List UInt8) :
    ((Finset.range r.length).filter fun p => r.getD p 0 ≠ 0).card = r.countP (· ≠ 0) := by
  induction r with
  | nil => rfl
  | cons v r ih =>
    rw [Finset.card_filter] at ih ⊢
    rw [List.length_cons, Finset.sum_range_succ', List.countP_cons, ← ih, List.getD_cons_zero]
    simp only [List.getD_cons_succ, decide_eq_true_eq]

/-- **A word with one to three values that are not zero** has a remainder. -/
theorem polyMod_ne_zero {e : List UInt8} (he : ∀ v ∈ e, v < 32) (hlen : e.length ≤ 1023)
    (hpos : 0 < e.countP (· ≠ 0)) (hthree : e.countP (· ≠ 0) ≤ 3) :
    e.foldl polyModStep 0 ≠ 0 := by
  intro hzero
  obtain ⟨K, _, _, α, h⟩ :=
    exists_isRoot (w := 10) (p := 1315) (by decide) (by decide) (by decide)
  have hα : IsUnit α := IsUnit.of_pow_eq_one (pow_eq_one h) (by decide)
  set r := e.reverse with hr
  have hmem : ∀ v ∈ r, v < 32 := fun v hv => he v (List.mem_reverse.mp hv)
  set S := (Finset.range r.length).filter fun p => r.getD p 0 ≠ 0 with hS
  have hcard : S.card = e.countP (· ≠ 0) := by rw [hS, card_support, hr, List.countP_reverse]
  have hplace : ∀ p ∈ S, p < 1023 ∧ r.getD p 0 < 32 ∧ r.getD p 0 ≠ 0 := by
    intro p hp
    obtain ⟨hp, hne⟩ := Finset.mem_filter.mp hp
    have hp := Finset.mem_range.mp hp
    refine ⟨hp.trans_le (by rw [hr, List.length_reverse]; exact hlen), ?_, hne⟩
    rw [List.getD_eq_getElem _ _ hp]
    exact hmem _ (List.getElem_mem hp)
  have hsum : ∀ j < 3,
      ∑ p ∈ S, symbol α (r.getD p 0).toNat * α ^ (24 * p) * (α ^ p) ^ j = 0 := by
    intro j hj
    have hres := syndrome_polyMod h hj hmem
    rw [hr, List.reverse_reverse, hzero, syndrome, sumBits_zero, ← hr] at hres
    rw [hS, Finset.sum_filter_of_ne, hres]
    · refine Finset.sum_congr rfl fun p _ => ?_
      rw [mul_assoc, ← pow_mul, ← pow_add]
      congr 2
      ring
    · intro p _ hne h0
      rw [h0] at hne
      exact hne (by rw [UInt8.toNat_zero, symbol, sumBits_zero, zero_mul, zero_mul])
  have hall := eq_zero_of_syndromes (hcard.trans_le hthree) hsum (by
    intro p hp q hq hne
    obtain ⟨hp, -⟩ := hplace p hp
    obtain ⟨hq, -⟩ := hplace q hq
    rcases hne.lt_or_gt with hlt | hlt
    · rw [← neg_sub]
      exact (isUnit_sub h hp hlt hq).neg
    · exact isUnit_sub h hq hlt hp)
  obtain ⟨p, hp⟩ := Finset.card_pos.mp (hcard ▸ hpos)
  obtain ⟨-, hlt, hne⟩ := hplace p hp
  have hunit := (isUnit_symbol h hlt hne).mul (hα.pow (24 * p))
  rw [hall p hp] at hunit
  have hnontrivial : Nontrivial K := CharP.nontrivial_of_char_ne_one (show 2 ≠ 1 by decide)
  exact not_isUnit_zero hunit

/-! ### Changed characters -/

def changes (s t : List UInt8) : ℕ := (s.zip t).countP fun p => p.1 ≠ p.2

lemma changes_append_left (p s t : List UInt8) : changes (p ++ s) (p ++ t) = changes s t := by
  induction p with
  | nil => rfl
  | cons x p ih =>
    rw [changes] at ih ⊢
    rw [List.cons_append, List.cons_append, List.zip_cons_cons, List.countP_cons, ih]
    simp

lemma character_inj {w : UInt8} (hv : v < 32) (hw : w < 32) (h : character v = character w) :
    v = w := by
  have hvalue := (character_spec hv).1
  rw [h, (character_spec hw).1] at hvalue
  exact (Option.some.inj hvalue).symm

lemma changes_map_character {vs ws : List UInt8} (hvs : ∀ v ∈ vs, v < 32) (hws : ∀ w ∈ ws, w < 32) :
    changes (vs.map character) (ws.map character) =
      (vs.zipWith (· ^^^ ·) ws).countP (· ≠ 0) := by
  induction vs generalizing ws with
  | nil => rfl
  | cons v vs ih =>
    obtain _ | ⟨w, ws⟩ := ws
    · rfl
    · obtain ⟨hv, hvs⟩ := List.forall_mem_cons.mp hvs
      obtain ⟨hw, hws⟩ := List.forall_mem_cons.mp hws
      have hiff : character v ≠ character w ↔ v ^^^ w ≠ 0 := by
        rw [not_iff_not, UInt8.xor_eq_zero_iff]
        exact ⟨character_inj hv hw, congrArg character⟩
      have htail := ih hvs hws
      rw [changes] at htail ⊢
      rw [List.map_cons, List.map_cons, List.zip_cons_cons, List.countP_cons, htail,
        List.zipWith_cons_cons, List.countP_cons]
      simp only [decide_eq_true_eq, hiff]

lemma exists_values {tail : List UInt8} (h : ∀ c ∈ tail, c ∈ CHARSET) :
    ∃ ws : List UInt8, (∀ w ∈ ws, w < 32) ∧ ws.map character = tail := by
  induction tail with
  | nil => exact ⟨[], by simp, rfl⟩
  | cons c tail ih =>
    obtain ⟨hc, htail⟩ := List.forall_mem_cons.mp h
    obtain ⟨w, hw, rfl⟩ := mem_charset hc
    obtain ⟨ws, hws, rfl⟩ := ih htail
    exact ⟨w :: ws, List.forall_mem_cons.mpr ⟨hw, hws⟩, rfl⟩

/-- **Of two words that differ in one to three places** at most one verifies. -/
theorem verifyChecksum_of_changes {hrp vs ws : List UInt8} (hvs : ∀ v ∈ vs, v < 32)
    (hws : ∀ w ∈ ws, w < 32) (hlen : vs.length = ws.length) (hmax : vs.length ≤ 1023)
    (hpos : 0 < (vs.zipWith (· ^^^ ·) ws).countP (· ≠ 0))
    (hthree : (vs.zipWith (· ^^^ ·) ws).countP (· ≠ 0) ≤ 3)
    (hverify : verifyChecksum hrp vs = true) : verifyChecksum hrp ws = false := by
  rw [verifyChecksum, decide_eq_true_iff, polyMod, List.foldl_append] at hverify
  rw [verifyChecksum, decide_eq_false_iff_not, polyMod, List.foldl_append]
  intro hverify'
  have hxor : ∀ v ∈ vs.zipWith (· ^^^ ·) ws, v < 32 := by
    intro x hx
    rw [← List.map_uncurry_zip_eq_zipWith, List.mem_map] at hx
    obtain ⟨⟨v, w⟩, hmem, rfl⟩ := hx
    have hv := UInt8.lt_iff_toNat_lt.mp (hvs v (List.of_mem_zip hmem).1)
    have hw := UInt8.lt_iff_toNat_lt.mp (hws w (List.of_mem_zip hmem).2)
    rw [UInt8.lt_iff_toNat_lt, Function.uncurry_apply_pair, UInt8.toNat_xor]
    exact Nat.xor_lt_two_pow (n := 5) hv hw
  have hzero := polyMod_xor ((expandHRP hrp).foldl polyModStep 1)
    ((expandHRP hrp).foldl polyModStep 1) hlen
  rw [hverify, hverify', Nat.xor_self, Nat.xor_self] at hzero
  refine polyMod_ne_zero hxor ?_ hpos hthree hzero
  rw [List.length_zipWith]
  omega

theorem bech32_detects (hrp values : List UInt8) (hhrp : ValidHRP hrp)
    (hvalues : ∀ v ∈ values, v < 32) (hlen : (encode hrp values).length ≤ 1023) :
    decode (encode hrp values) = (hrp, values) ∧
      ∀ str : List UInt8, str.length = (encode hrp values).length →
        str.take (hrp.length + 1) = (encode hrp values).take (hrp.length + 1) →
        (∀ c ∈ str.drop (hrp.length + 1), c ∈ CHARSET) →
        0 < changes (encode hrp values) str → changes (encode hrp values) str ≤ 3 →
        decode str = ([], []) := by
  have hcombined : ∀ v ∈ values ++ createChecksum hrp values, v < 32 :=
    List.forall_mem_append.mpr ⟨hvalues, createChecksum_lt hrp values⟩
  have hlength : (values ++ createChecksum hrp values).length = values.length + 6 := by
    rw [List.length_append, length_createChecksum]
  rw [encode_eq hvalues] at hlen ⊢
  have hmax : hrp.length + 1 + (values ++ createChecksum hrp values).length ≤ 1023 := by
    rw [List.length_append, List.length_cons, List.length_map] at hlen
    omega
  have hverify := verifyChecksum_createChecksum hrp values
  constructor
  · rw [decode_append hhrp hcombined (by omega) hmax, if_pos hverify, hlength, Nat.add_sub_cancel,
      List.take_left]
  · intro str hsame hprefix hcharset hpos hthree
    obtain ⟨ws, hws, hdrop⟩ := exists_values hcharset
    have htake : (hrp ++ 49 :: (values ++ createChecksum hrp values).map character).take
        (hrp.length + 1) = hrp ++ [49] := by
      rw [List.append_cons, List.take_left' (by simp)]
    have hstr : str = hrp ++ 49 :: ws.map character := by
      rw [hdrop, List.append_cons, ← htake, ← hprefix, List.take_append_drop]
    subst hstr
    have hlen' : (values ++ createChecksum hrp values).length = ws.length := by
      simpa using hsame.symm
    rw [List.append_cons, List.append_cons hrp 49 (ws.map character), changes_append_left,
      changes_map_character hcombined hws] at hpos hthree
    rw [decode_append hhrp hws (by omega) (by omega),
      verifyChecksum_of_changes hcombined hws hlen' (by omega) hpos hthree hverify]
    rfl

/-- `bc1qw50l87hc6ev`, and `bc1qp50z87hc6qv` instead of it. -/
theorem bech32_detects_three :
    encode [98, 99] [0, 14, 20, 15, 31, 7] =
        [98, 99, 49, 113, 119, 53, 48, 108, 56, 55, 104, 99, 54, 101, 118] ∧
      decode [98, 99, 49, 113, 119, 53, 48, 108, 56, 55, 104, 99, 54, 101, 118] =
        ([98, 99], [0, 14, 20, 15, 31, 7]) ∧
      decode [98, 99, 49, 113, 112, 53, 48, 122, 56, 55, 104, 99, 54, 113, 118] = ([], []) := by
  have hrun : encode [98, 99] [0, 14, 20, 15, 31, 7] =
      [98, 99, 49, 113, 119, 53, 48, 108, 56, 55, 104, 99, 54, 101, 118] ∧
      (∀ c ∈ ([113, 112, 53, 48, 122, 56, 55, 104, 99, 54, 113, 118] : List UInt8),
        c ∈ CHARSET) := by decide +kernel
  have hhrp : ValidHRP [98, 99] := ⟨List.cons_ne_nil _ _, by decide +kernel⟩
  have hvalues : ∀ v ∈ ([0, 14, 20, 15, 31, 7] : List UInt8), v < 32 := by decide +kernel
  have hlen : (encode [98, 99] [0, 14, 20, 15, 31, 7]).length ≤ 1023 := by
    rw [hrun.1]
    decide
  obtain ⟨hback, hdetects⟩ := bech32_detects [98, 99] [0, 14, 20, 15, 31, 7] hhrp hvalues hlen
  rw [hrun.1] at hback hdetects
  exact ⟨hrun.1, hback,
    hdetects [98, 99, 49, 113, 112, 53, 48, 122, 56, 55, 104, 99, 54, 113, 118] rfl rfl hrun.2
      (by decide) (by decide)⟩

end Bech32

end Agenor
