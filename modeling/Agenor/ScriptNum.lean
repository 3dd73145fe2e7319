import Agenor.Interpreter

/-!
Numbers on the stack (`CScriptNum`): sign and magnitude, with the sign in the top bit.

A magnitude without a zero byte at its end has one signed form for each sign, the minimal encodings
are these forms, and every other encoding comes from one of them by moving the sign into further
bytes.
-/

namespace Agenor

open Lib.Fallible

namespace Script

variable {vch mag : List UInt8} {b : UInt8} {neg : Bool} {fuel k n : ℕ}

/-! ### The top bit -/

lemma masks (b : UInt8) :
    (b &&& 0x80 = 0 → b &&& 0x7f = b ∧ (b ||| 0x80) &&& 0x80 = 0x80 ∧ (b ||| 0x80) &&& 0x7f = b) ∧
      (b &&& 0x80 ≠ 0 → b &&& 0x80 = 0x80 ∧ (b &&& 0x7f) ||| 0x80 = b) ∧
      (b &&& 0x7f) &&& 0x80 = 0 ∧ (b &&& 0x80) &&& 0x7f = 0 ∧
      (b &&& 0x80 ≠ 0 ↔ 128 ≤ b.toNat) := by
  have hall : ∀ n < 256,
      (UInt8.ofNat n &&& 0x80 = 0 → UInt8.ofNat n &&& 0x7f = UInt8.ofNat n ∧
        (UInt8.ofNat n ||| 0x80) &&& 0x80 = 0x80 ∧
        (UInt8.ofNat n ||| 0x80) &&& 0x7f = UInt8.ofNat n) ∧
      (UInt8.ofNat n &&& 0x80 ≠ 0 → UInt8.ofNat n &&& 0x80 = 0x80 ∧
        (UInt8.ofNat n &&& 0x7f) ||| 0x80 = UInt8.ofNat n) ∧
      (UInt8.ofNat n &&& 0x7f) &&& 0x80 = 0 ∧ (UInt8.ofNat n &&& 0x80) &&& 0x7f = 0 ∧
      (UInt8.ofNat n &&& 0x80 ≠ 0 ↔ 128 ≤ (UInt8.ofNat n).toNat) := by decide +kernel
  have h := hall b.toNat b.toNat_lt
  rwa [UInt8.ofNat_toNat] at h

lemma setVch_append (l : List UInt8) (b : UInt8) :
    setVch (l ++ [b]) = if b &&& 0x80 ≠ 0 then -(readLE (l ++ [b &&& 0x7f]) : ℤ)
      else readLE (l ++ [b &&& 0x7f]) := by
  rw [setVch, List.getLast?_concat]
  dsimp only
  rw [List.dropLast_concat]
  split_ifs with hsign
  · rfl
  · rw [((masks b).1 (not_not.mp hsign)).1]

lemma isMinimal_append (l : List UInt8) (b : UInt8) :
    isMinimal (l ++ [b]) = true ↔ b &&& 0x7f ≠ 0 ∨ ∃ d ∈ l.getLast?, d &&& 0x80 ≠ 0 := by
  rw [isMinimal, List.getLast?_concat]
  rcases List.eq_nil_or_concat l with rfl | ⟨l, d, rfl⟩
  · simp
  · have hsecond : (l.concat d ++ [b]).getD ((l.concat d ++ [b]).length - 2) 0 = d := by
      simp
    rw [hsecond]
    simp

lemma signBytes_append (neg : Bool) (l : List UInt8) (d : UInt8) :
    signBytes neg (l ++ [d]) =
      if d &&& 0x80 ≠ 0 then l ++ [d] ++ [if neg then 0x80 else 0]
      else if neg then l ++ [d ||| 0x80] else l ++ [d] := by
  rw [signBytes, List.getLast?_concat]
  dsimp only
  rw [List.dropLast_concat]

/-! ### Magnitudes -/

/-- No zero byte at the end. -/
def Magnitude (mag : List UInt8) : Prop := ∀ d ∈ mag.getLast?, d ≠ 0

lemma magnitude_append {l : List UInt8} {d : UInt8} : Magnitude (l ++ [d]) ↔ d ≠ 0 := by
  rw [Magnitude, List.getLast?_concat]
  simp

lemma Magnitude.tail (h : Magnitude (b :: mag)) : Magnitude mag := by
  intro d hd
  refine h d ?_
  rw [List.getLast?_cons, Option.mem_def.mp hd]
  rfl

lemma Magnitude.readLE_ne_zero (h : Magnitude (b :: mag)) : readLE (b :: mag) ≠ 0 := by
  induction mag generalizing b with
  | nil =>
    have hb : b ≠ 0 := h b rfl
    rw [readLE, readLE, Nat.mul_zero, Nat.add_zero]
    exact fun h0 => hb (UInt8.toNat_inj.mp h0)
  | cons c mag ih =>
    have hpos := ih h.tail
    rw [readLE]
    omega

lemma readLE_append (l : List UInt8) (b : UInt8) :
    readLE (l ++ [b]) = readLE l + 256 ^ l.length * b.toNat := by
  induction l with
  | nil => simp [readLE]
  | cons c l ih =>
    rw [List.cons_append, readLE, ih, readLE, List.length_cons, pow_succ]
    ring

lemma readLE_lt (l : List UInt8) : readLE l < 256 ^ l.length := by
  induction l with
  | nil => exact Nat.one_pos
  | cons b l ih =>
    have hb := b.toNat_lt
    rw [readLE, List.length_cons, pow_succ]
    omega

lemma Magnitude.absBytes_readLE (h : Magnitude mag) (hfuel : mag.length ≤ fuel) :
    absBytes fuel (readLE mag) = mag := by
  induction mag generalizing fuel with
  | nil =>
    cases fuel with
    | zero => rfl
    | succ fuel => rw [readLE, absBytes, if_pos rfl]
  | cons b mag ih =>
    obtain ⟨fuel, rfl⟩ := Nat.exists_eq_add_of_le' (Nat.one_le_of_lt hfuel)
    have hb := b.toNat_lt
    have hpos := h.readLE_ne_zero
    rw [readLE] at hpos ⊢
    rw [absBytes, if_neg hpos, show (b.toNat + 256 * readLE mag) % 256 = b.toNat by omega,
      show (b.toNat + 256 * readLE mag) / 256 = readLE mag by omega, UInt8.ofNat_toNat,
      ih h.tail (Nat.le_of_succ_le_succ hfuel)]

lemma readLE_absBytes (hn : n < 256 ^ fuel) : readLE (absBytes fuel n) = n := by
  induction fuel generalizing n with
  | zero =>
    rw [absBytes, readLE]
    omega
  | succ fuel ih =>
    rw [absBytes]
    split_ifs with hzero
    · exact hzero.symm
    · rw [pow_succ] at hn
      have hbyte : (UInt8.ofNat (n % 256)).toNat = n % 256 :=
        UInt8.toNat_ofNat_of_lt' (Nat.mod_lt n (by decide))
      rw [readLE, ih (by omega), hbyte, Nat.mod_add_div]

lemma magnitude_absBytes (hn : n < 256 ^ fuel) : Magnitude (absBytes fuel n) := by
  induction fuel generalizing n with
  | zero => exact fun d hd => absurd hd (by simp [absBytes])
  | succ fuel ih =>
    rw [pow_succ] at hn
    have hrest : n / 256 < 256 ^ fuel := by omega
    rw [absBytes]
    split_ifs with hzero
    · exact fun d hd => absurd hd (by simp)
    · intro d hd
      rw [List.getLast?_cons] at hd
      rcases hlast : (absBytes fuel (n / 256)).getLast? with _ | d'
      · -- no more bytes, so the byte is the whole number
        have hread := readLE_absBytes hrest
        rw [List.getLast?_eq_none_iff.mp hlast, readLE] at hread
        rw [hlast, Option.getD_none, Option.mem_some] at hd
        have hbyte : (UInt8.ofNat (n % 256)).toNat = n % 256 :=
          UInt8.toNat_ofNat_of_lt' (Nat.mod_lt n (by decide))
        rintro rfl
        rw [hd, UInt8.toNat_zero] at hbyte
        omega
      · rw [hlast, Option.getD_some, Option.mem_some] at hd
        exact hd ▸ ih hrest d' hlast

/-! ### Signed forms -/

lemma signBytes_spec (neg : Bool) (h : Magnitude mag) :
    isMinimal (signBytes neg mag) = true ∧
      setVch (signBytes neg mag) = if neg then -(readLE mag : ℤ) else readLE mag := by
  rcases List.eq_nil_or_concat' mag with rfl | ⟨l, d, rfl⟩
  · refine ⟨rfl, ?_⟩
    cases neg <;> rfl
  · have hd := magnitude_append.mp h
    obtain ⟨hclear, -, -, -, -⟩ := masks d
    rw [signBytes_append]
    by_cases htop : d &&& 0x80 = 0
    · obtain ⟨hsame, hsign, hlow⟩ := hclear htop
      rw [if_neg (not_not.mpr htop)]
      cases neg with
      | false =>
        refine ⟨(isMinimal_append _ _).mpr (Or.inl (by rwa [hsame])), ?_⟩
        exact (setVch_append l d).trans (by rw [if_neg (not_not.mpr htop), hsame]; rfl)
      | true =>
        refine ⟨(isMinimal_append _ _).mpr (Or.inl (by rwa [hlow])), ?_⟩
        exact (setVch_append l (d ||| 0x80)).trans (by rw [hsign, hlow]; rfl)
    · rw [if_pos htop]
      refine ⟨(isMinimal_append _ _).mpr (Or.inr ⟨d, List.getLast?_concat, htop⟩), ?_⟩
      rw [setVch_append, readLE_append (l ++ [d])]
      cases neg <;> simp

lemma exists_signBytes (h : isMinimal vch = true) :
    ∃ neg mag, Magnitude mag ∧ mag.length ≤ vch.length ∧ vch = signBytes neg mag := by
  rcases List.eq_nil_or_concat' vch with rfl | ⟨l, b, rfl⟩
  · exact ⟨false, [], fun d hd => absurd hd (by simp), le_rfl, rfl⟩
  · obtain ⟨hclear, hset, hlow, -, -⟩ := masks b
    refine ⟨decide (b &&& 0x80 ≠ 0), ?_⟩
    by_cases hzero : b &&& 0x7f = 0
    · -- the last byte is only there for the sign
      obtain ⟨d, hd, htop⟩ := ((isMinimal_append l b).mp h).resolve_left (not_not.mpr hzero)
      obtain ⟨l, rfl⟩ := List.getLast?_eq_some_iff.mp hd
      refine ⟨l ++ [d], magnitude_append.mpr ?_, by simp, ?_⟩
      · rintro rfl
        exact htop rfl
      · rw [signBytes_append, if_pos htop]
        congr 2
        by_cases hsign : b &&& 0x80 = 0
        · rw [← (hclear hsign).1, hzero, decide_eq_false (not_not.mpr (by decide))]
          rfl
        · rw [← (hset hsign).2, hzero, decide_eq_true (by decide)]
          rfl
    · refine ⟨l ++ [b &&& 0x7f], magnitude_append.mpr hzero, by simp, ?_⟩
      rw [signBytes_append, if_neg (not_not.mpr hlow)]
      by_cases hsign : b &&& 0x80 = 0
      · rw [decide_eq_false (not_not.mpr hsign), if_neg Bool.false_ne_true, (hclear hsign).1]
      · rw [decide_eq_true hsign, if_pos rfl, (hset hsign).2]

/-! ### Serialization -/

lemma serialize_eq_signBytes (h : Magnitude mag) (hlen : mag.length ≤ 8) :
    serialize (if neg then -(readLE mag : ℤ) else readLE mag) = signBytes neg mag := by
  cases mag with
  | nil => cases neg <;> rfl
  | cons b mag =>
    have hpos := h.readLE_ne_zero
    cases neg with
    | false =>
      rw [if_neg Bool.false_ne_true, serialize, Int.natAbs_natCast, h.absBytes_readLE hlen,
        decide_eq_false (by omega)]
    | true =>
      rw [if_pos rfl, serialize, Int.natAbs_neg, Int.natAbs_natCast, h.absBytes_readLE hlen,
        decide_eq_true (by omega)]

lemma serialize_spec {v : ℤ} (hv : v.natAbs < 256 ^ 8) :
    isMinimal (serialize v) = true ∧ setVch (serialize v) = v := by
  obtain ⟨hmin, hread⟩ := signBytes_spec (decide (v < 0)) (magnitude_absBytes hv)
  refine ⟨hmin, hread.trans ?_⟩
  simp only [readLE_absBytes hv, decide_eq_true_eq]
  split_ifs <;> omega

lemma serialize_setVch (h : isMinimal vch = true) (hlen : vch.length ≤ 8) :
    serialize (setVch vch) = vch := by
  obtain ⟨neg, mag, hmag, hle, rfl⟩ := exists_signBytes h
  rw [(signBytes_spec neg hmag).2, serialize_eq_signBytes hmag (hle.trans hlen)]

lemma length_signBytes (neg : Bool) (h : Magnitude mag) (hlt : readLE mag < 128 * 256 ^ k) :
    (signBytes neg mag).length ≤ k + 1 := by
  rcases List.eq_nil_or_concat' mag with rfl | ⟨l, d, rfl⟩
  · exact Nat.zero_le _
  · have hd : d.toNat ≠ 0 := fun h0 => magnitude_append.mp h (UInt8.toNat_inj.mp h0)
    have htop := (masks d).2.2.2.2
    rw [readLE_append] at hlt
    rw [signBytes_append]
    by_cases hset : d &&& 0x80 = 0
    · have hmul := Nat.mul_le_mul_left (256 ^ l.length) (Nat.one_le_iff_ne_zero.mpr hd)
      have hpow : 256 ^ l.length < 256 ^ (k + 1) := by
        rw [pow_succ]
        omega
      have hl := (Nat.pow_lt_pow_iff_right (by decide)).mp hpow
      rw [if_neg (not_not.mpr hset)]
      split_ifs
      all_goals
        rw [List.length_append, List.length_singleton]
        omega
    · have hmul := Nat.mul_le_mul_left (256 ^ l.length) (htop.mp hset)
      have hpow : 256 ^ l.length < 256 ^ k := by omega
      have hl := (Nat.pow_lt_pow_iff_right (by decide)).mp hpow
      rw [if_pos hset, List.length_append, List.length_append, List.length_singleton,
        List.length_singleton]
      omega

lemma length_serialize {v : ℤ} (hk : k < 8) (hv : v.natAbs < 128 * 256 ^ k) :
    (serialize v).length ≤ k + 1 := by
  have hpow : 256 ^ (k + 1) ≤ 256 ^ 8 := Nat.pow_le_pow_right (by decide) hk
  have hv8 : v.natAbs < 256 ^ 8 := by
    rw [pow_succ] at hpow
    omega
  exact length_signBytes _ (magnitude_absBytes hv8) (by rwa [readLE_absBytes hv8])

lemma natAbs_setVch_lt (vch : Valtype) : (setVch vch).natAbs < 256 ^ vch.length := by
  rcases List.eq_nil_or_concat' vch with rfl | ⟨l, b, rfl⟩
  · exact Nat.one_pos
  · have hlt := readLE_lt (l ++ [b &&& 0x7f])
    rw [List.length_append, List.length_singleton] at hlt ⊢
    rw [setVch_append]
    split_ifs
    · rwa [Int.natAbs_neg, Int.natAbs_natCast]
    · rwa [Int.natAbs_natCast]

/-! ### Padding -/

/-- One more byte that is not needed: the sign moves into it. Zero has the two signs. -/
inductive PadStep : Valtype → Valtype → Prop
  | zero (b : UInt8) : b &&& 0x7f = 0 → PadStep [] [b]
  | byte (l : List UInt8) (b : UInt8) : PadStep (l ++ [b]) (l ++ [b &&& 0x7f, b &&& 0x80])

/-- Redundant bytes have been put in. -/
def Padded : Valtype → Valtype → Prop := Relation.ReflTransGen PadStep

lemma PadStep.setVch {vch' : Valtype} (h : PadStep vch vch') :
    setVch vch' = Script.setVch vch ∧ vch.length ≤ vch'.length := by
  cases h with
  | zero b hb =>
    refine ⟨?_, Nat.zero_le _⟩
    rw [← List.nil_append [b], setVch_append, hb]
    split_ifs <;> rfl
  | byte l b =>
    obtain ⟨-, -, -, hlow, -⟩ := masks b
    have hsign : (b &&& 0x80) &&& 0x80 = b &&& 0x80 := by
      rw [UInt8.and_assoc]
      rfl
    refine ⟨?_, by simp⟩
    rw [List.append_cons, setVch_append, hlow, hsign, readLE_append (l ++ [_]), setVch_append]
    simp

lemma Padded.setVch {vch' : Valtype} (h : Padded vch vch') :
    setVch vch' = Script.setVch vch ∧ vch.length ≤ vch'.length := by
  induction h with
  | refl => exact ⟨rfl, le_rfl⟩
  | tail _ hstep ih => exact ⟨hstep.setVch.1.trans ih.1, ih.2.trans hstep.setVch.2⟩

lemma exists_padStep (h : isMinimal vch = false) :
    ∃ vch', PadStep vch' vch ∧ vch'.length < vch.length := by
  rcases List.eq_nil_or_concat' vch with rfl | ⟨l, b, rfl⟩
  · exact absurd h (by decide)
  · obtain ⟨hzero, hlast⟩ := not_or.mp (mt (isMinimal_append l b).mpr (ne_true_of_eq_false h))
    rcases List.eq_nil_or_concat' l with rfl | ⟨l, d, rfl⟩
    · exact ⟨[], .zero b (not_not.mp hzero), by simp⟩
    · have hd : d &&& 0x80 = 0 := not_not.mp fun htop => hlast ⟨d, List.getLast?_concat, htop⟩
      obtain ⟨hsame, hsign, hlow⟩ := (masks d).1 hd
      rw [List.append_assoc]
      -- the sign goes back into the byte before it
      by_cases hb : b &&& 0x80 = 0
      · have hbyte : b = 0 := ((masks b).1 hb).1.symm.trans (not_not.mp hzero)
        have hpad := PadStep.byte l d
        rw [hsame, hd, ← hbyte] at hpad
        exact ⟨l ++ [d], hpad, by simp⟩
      · have hbyte : b = 0x80 := by
          rw [← ((masks b).2.1 hb).2, not_not.mp hzero]
          rfl
        have hpad := PadStep.byte l (d ||| 0x80)
        rw [hlow, hsign, ← hbyte] at hpad
        exact ⟨l ++ [d ||| b], hpad, by simp⟩

lemma padded_serialize (vch : Valtype) (hlen : vch.length ≤ 8) :
    Padded (serialize (setVch vch)) vch := by
  induction hn : vch.length using Nat.strong_induction_on generalizing vch with
  | _ n ih =>
    cases hmin : isMinimal vch with
    | true =>
      rw [serialize_setVch hmin hlen]
      exact .refl
    | false =>
      obtain ⟨vch', hstep, hlt⟩ := exists_padStep hmin
      rw [hstep.setVch.1]
      exact (ih vch'.length (hn ▸ hlt) vch' (by omega) rfl).tail hstep

lemma scriptNum_eq_ok {fRequireMinimal : Bool} {v : ℤ} :
    scriptNum vch fRequireMinimal 5 = .ok v ↔
      vch.length ≤ 5 ∧ (fRequireMinimal = true → isMinimal vch = true) ∧ setVch vch = v := by
  simp only [scriptNum, bind_eq_ok, failIf_eq_ok, pure_eq_ok]
  simp

lemma scriptNum_of_length_le (hlen : vch.length ≤ 5) : scriptNum vch false 5 = .ok (setVch vch) :=
  scriptNum_eq_ok.mpr ⟨hlen, fun h => absurd h Bool.false_ne_true, rfl⟩

/-- Numbers of 39 bits and their sign: the minimal encoding is unique, an encoding is accepted as
minimal exactly if it is the one of its number, and the other encodings of a number are those with
redundant bytes. -/
theorem scriptNum_canonical :
    (∀ v : ℤ, |v| < 2 ^ 39 → ∀ vch, scriptNum vch true 5 = .ok v ↔ vch = serialize v) ∧
      (∀ vch : Valtype, vch.length ≤ 5 →
        ((∃ v, scriptNum vch true 5 = .ok v) ↔
          ∃ v, scriptNum vch false 5 = .ok v ∧ vch = serialize v)) ∧
      (∀ vch vch', Padded vch vch' → vch'.length ≤ 5 →
        scriptNum vch' false 5 = scriptNum vch false 5) ∧
      (∀ vch : Valtype, vch.length ≤ 5 →
        ∃ v, scriptNum vch false 5 = .ok v ∧ Padded (serialize v) vch) := by
  refine ⟨fun v hv vch => ?_, fun vch hlen => ?_, fun vch vch' hpadded hlen => ?_,
    fun vch hlen => ?_⟩
  · have habs : v.natAbs < 128 * 256 ^ 4 := by
      rw [Int.abs_eq_natAbs] at hv
      omega
    rw [scriptNum_eq_ok]
    constructor
    · rintro ⟨hlen, hmin, rfl⟩
      exact (serialize_setVch (hmin rfl) (by omega)).symm
    · rintro rfl
      obtain ⟨hmin, hread⟩ := serialize_spec (v := v) (by omega)
      exact ⟨length_serialize (by decide) habs, fun _ => hmin, hread⟩
  · constructor
    · rintro ⟨v, hv⟩
      obtain ⟨-, hmin, rfl⟩ := scriptNum_eq_ok.mp hv
      exact ⟨_, scriptNum_of_length_le hlen, (serialize_setVch (hmin rfl) (by omega)).symm⟩
    · rintro ⟨v, hv, heq⟩
      obtain ⟨-, -, rfl⟩ := scriptNum_eq_ok.mp hv
      have hlt : (setVch vch).natAbs < 256 ^ 8 :=
        (natAbs_setVch_lt vch).trans_le (Nat.pow_le_pow_right (by decide) (by omega))
      refine ⟨_, scriptNum_eq_ok.mpr ⟨hlen, fun _ => ?_, rfl⟩⟩
      rw [heq]
      exact (serialize_spec hlt).1
  · obtain ⟨hread, hle⟩ := hpadded.setVch
    rw [scriptNum_of_length_le hlen, scriptNum_of_length_le (hle.trans hlen), hread]
  · exact ⟨_, scriptNum_of_length_le hlen, padded_serialize vch (by omega)⟩

end Script

end Agenor
