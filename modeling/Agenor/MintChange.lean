import Agenor.MintSelection

/-!
The amounts of the mint selection.

The greedy passes spend exactly what is asked for if that is possible at all. The passes that have
to give change never take more coins than are held, and stay within one coin of the target.
-/

namespace Agenor.Mints

open Lib Lib.ChangeMaking CoinDenomination

def totalAmount (m : DenomMap) : ℤ := total toAmount zerocoinDenomList m

def FromHeld (held m : DenomMap) : Prop := ∀ d ∈ zerocoinDenomList, 0 ≤ m d ∧ m d ≤ held d

/-- The loops have passes enough for the coins held, and for the change of one coin. -/
structure Enough (fuel : ℕ) (held : DenomMap) : Prop where
  held : ∀ d ∈ zerocoinDenomList, held d < fuel
  change : ZQ_FIVE_THOUSAND.toAmount ≤ fuel

variable {fuel : ℕ} {held m : DenomMap} {T n x : ℤ} {denom d : CoinDenomination} {s t : Taking}
  {l : List CoinDenomination}

/-! ### Denominations -/

lemma nodup_zerocoinDenomList : zerocoinDenomList.Nodup := by decide

lemma toAmount_pos (hd : d ∈ zerocoinDenomList) : 0 < d.toAmount := by
  revert d
  decide

lemma toAmount_le : ∀ d : CoinDenomination, d.toAmount ≤ ZQ_FIVE_THOUSAND.toAmount := by
  intro d
  cases d <;> decide

lemma divides_denoms : Divides toAmount zerocoinDenomList.reverse where
  pos d hd := toAmount_pos (List.mem_reverse.mp hd)
  chain := by decide

lemma divides_suffix (hl : l <:+ zerocoinDenomList.reverse) : Divides toAmount l where
  pos d hd := divides_denoms.pos d (hl.subset hd)
  chain := divides_denoms.chain.suffix hl

lemma mem_denoms (hl : denom :: l <:+ zerocoinDenomList.reverse) : denom ∈ zerocoinDenomList :=
  List.mem_reverse.mp (hl.subset List.mem_cons_self)

lemma notMem_denoms (hl : denom :: l <:+ zerocoinDenomList.reverse) : denom ∉ l :=
  (List.nodup_cons.mp (hl.sublist.nodup (List.nodup_reverse.mpr nodup_zerocoinDenomList))).1

lemma suffix_tail (hl : denom :: l <:+ zerocoinDenomList.reverse) :
    l <:+ zerocoinDenomList.reverse :=
  (List.suffix_cons denom l).trans hl

lemma totalAmount_add (hd : d ∈ zerocoinDenomList) (m : DenomMap) (n : ℤ) :
    totalAmount (add m d n) = totalAmount m + n * d.toAmount :=
  total_update nodup_zerocoinDenomList hd m n

lemma totalAmount_zero : totalAmount (fun _ => 0) = 0 := by decide

lemma add_self (m : DenomMap) (d : CoinDenomination) (n : ℤ) : add m d n d = m d + n :=
  Function.update_self ..

lemma add_of_ne (m : DenomMap) (n : ℤ) (h : d ≠ denom) : add m denom n d = m d :=
  Function.update_of_ne h ..

lemma FromHeld.add (h : FromHeld held m) (h0 : 0 ≤ m denom + n) (hle : m denom + n ≤ held denom) :
    FromHeld held (add m denom n) := by
  intro d hd
  rcases eq_or_ne d denom with rfl | hne
  · rw [add_self]
    exact ⟨h0, hle⟩
  · rw [add_of_ne m n hne]
    exact h d hd

lemma FromHeld.zero (h : ∀ d ∈ zerocoinDenomList, 0 ≤ held d) : FromHeld held fun _ => 0 :=
  fun d hd => ⟨le_rfl, h d hd⟩

lemma FromHeld.payable (h : FromHeld held m) :
    Payable toAmount held zerocoinDenomList.reverse (totalAmount m) := by
  rw [totalAmount, ← total_reverse]
  exact payable_total fun d hd => h d (List.mem_reverse.mp hd)

/-! ### Taking coins -/

/-- The coins taken are held, and the amounts are those of these coins. -/
structure Within (held : DenomMap) (T : ℤ) (s : Taking) : Prop where
  used : FromHeld held s.mapOfDenomsUsed
  amount : s.amountUsed = totalAmount s.mapOfDenomsUsed
  remaining : s.nRemainingValue = T - s.amountUsed

lemma Within.init (h : ∀ d ∈ zerocoinDenomList, 0 ≤ held d) : Within held T (Taking.init T) where
  used := FromHeld.zero h
  amount := totalAmount_zero.symm
  remaining := (sub_zero T).symm

lemma Within.take (h : Within held T s) (hd : denom ∈ zerocoinDenomList)
    (hlt : s.mapOfDenomsUsed denom < held denom) : Within held T (s.take denom) where
  used := h.used.add (by have h0 := (h.used denom hd).1; omega) hlt
  amount := by
    simp only [Taking.take]
    rw [totalAmount_add hd, h.amount, one_mul]
  remaining := by
    simp only [Taking.take]
    rw [h.remaining, sub_sub]

lemma takeWhile_ends {more : ℤ → Bool} {I : Taking → Prop} (hd : denom ∈ zerocoinDenomList)
    (hI : ∀ t, I t → more t.nRemainingValue = true → I (t.take denom)) (hw : Within held T s)
    (hs : I s) :
    Ends (Enough fuel held) (takeWhile fuel more held denom s) fun t => Within held T t ∧ I t ∧
      (more t.nRemainingValue = true → t.mapOfDenomsUsed denom = held denom) := by
  refine (Ends.repeatWhile (P := fun t => Within held T t ∧ I t)
    (fun t => (held denom - t.mapOfDenomsUsed denom).toNat) (fun t ht hcond => ?_)
    (fun t ht hcond => ?_) ⟨hw, hs⟩ fun he => ?_).mono fun t ht => ⟨ht.1.1, ht.1.2, fun hmore => ?_⟩
  · rw [Bool.and_eq_true, decide_eq_true_iff] at hcond
    exact ⟨ht.1.take hd hcond.2, hI t ht.2 hcond.1⟩
  · rw [Bool.and_eq_true, decide_eq_true_iff] at hcond
    have hlt := hcond.2
    simp only [Taking.take, add_self]
    omega
  · have hlt := he.held denom hd
    obtain ⟨h0, hle⟩ := hw.used denom hd
    omega
  · have hfalse := ht.2
    rw [hmore, Bool.true_and, decide_eq_false_iff_not] at hfalse
    have hle := (ht.1.1.used denom hd).2
    omega

/-! ### The greedy passes -/

/-- `t` is `s` with more coins of this denomination, and nothing is overspent. -/
structure Takes (denom : CoinDenomination) (s t : Taking) : Prop where
  others : ∀ d, d ≠ denom → t.mapOfDenomsUsed d = s.mapOfDenomsUsed d
  remaining : t.nRemainingValue =
    s.nRemainingValue - (t.mapOfDenomsUsed denom - s.mapOfDenomsUsed denom) * denom.toAmount
  nonneg : 0 ≤ t.nRemainingValue

lemma Takes.refl (h : 0 ≤ s.nRemainingValue) : Takes denom s s where
  others _ _ := rfl
  remaining := by rw [sub_self, zero_mul, sub_zero]
  nonneg := h

lemma Takes.take (h : Takes denom s t) (hle : denom.toAmount ≤ t.nRemainingValue) :
    Takes denom s (t.take denom) where
  others d hd := (add_of_ne t.mapOfDenomsUsed 1 hd).trans (h.others d hd)
  remaining := by
    simp only [Taking.take, add_self]
    rw [h.remaining]
    ring
  nonneg := sub_nonneg.mpr hle

/-- What a greedy pass keeps, when these denominations are left. -/
structure Greedy (held : DenomMap) (T : ℤ) (l : List CoinDenomination) (s : Taking) : Prop where
  denoms : l <:+ zerocoinDenomList.reverse
  within : Within held T s
  nonneg : 0 ≤ s.nRemainingValue
  left : ∀ d ∈ l, s.mapOfDenomsUsed d = 0
  payable : Payable toAmount held zerocoinDenomList.reverse T →
    Payable toAmount held l s.nRemainingValue

lemma Greedy.init (h : ∀ d ∈ zerocoinDenomList, 0 ≤ held d) (hT : 0 ≤ T) :
    Greedy held T zerocoinDenomList.reverse (Taking.init T) where
  denoms := List.suffix_rfl
  within := Within.init h
  nonneg := hT
  left _ _ := rfl
  payable := id

lemma Greedy.step (h : Greedy held T (denom :: l) s) (hw : Within held T t) (ht : Takes denom s t)
    (hmost : t.nRemainingValue < denom.toAmount ∨ t.mapOfDenomsUsed denom = held denom) :
    Greedy held T l t where
  denoms := suffix_tail h.denoms
  within := hw
  nonneg := ht.nonneg
  left d hd := by
    rw [ht.others d fun heq => notMem_denoms h.denoms (heq ▸ hd)]
    exact h.left d (List.mem_cons_of_mem denom hd)
  payable hT := by
    have hrem := ht.remaining
    rw [h.left denom List.mem_cons_self, sub_zero] at hrem
    rw [hrem]
    refine (h.payable hT).greedy (divides_suffix h.denoms) ?_ ?_
    · exact hrem ▸ ht.nonneg
    · exact hrem ▸ hmost

lemma Greedy.remaining_eq_zero (h : Greedy held T [] s)
    (hT : Payable toAmount held zerocoinDenomList.reverse T) : s.nRemainingValue = 0 :=
  h.payable hT

lemma Within.totalAmount_eq (h : Within held T s) (h0 : s.nRemainingValue = 0) :
    totalAmount s.mapOfDenomsUsed = T := by
  have hrem := h.remaining
  rw [← h.amount]
  omega

/-- **What can be paid is paid exactly.** -/
theorem getSpendCoins_ends (hm : FromHeld held m) (hheld : ∀ d ∈ zerocoinDenomList, 0 ≤ held d) :
    Ends (Enough fuel held) (getSpendCoins fuel (totalAmount m) held) fun used =>
      FromHeld held used ∧ totalAmount used = totalAmount m := by
  have h0 : 0 ≤ totalAmount m := hm.payable.nonneg divides_denoms
  refine (Ends.foldlM (I := Greedy held (totalAmount m)) (fun coin l s h => ?_)
    (Greedy.init hheld h0)).map fun s h => ?_
  · refine (takeWhile_ends (I := Takes coin s) (mem_denoms h.denoms) (fun t ht hmore => ?_)
      h.within (Takes.refl h.nonneg)).mono fun t ⟨hw, ht, hmost⟩ => h.step hw ht ?_
    · exact ht.take (of_decide_eq_true hmore)
    · rcases lt_or_ge t.nRemainingValue coin.toAmount with hlt | hle
      · exact Or.inl hlt
      · exact Or.inr (hmost (decide_eq_true hle))
  · exact ⟨h.within.used, h.within.totalAmount_eq (h.remaining_eq_zero hm.payable)⟩

/-! ### Change -/

/-- **Change is given for a positive amount only.** -/
theorem getChange_ends (hx : x < ZQ_FIVE_THOUSAND.toAmount) :
    Ends (Enough fuel held) (getChange fuel x) fun mapChange =>
      getNumberOfCoinsUsed mapChange ≠ 0 → 0 < x := by
  let I (s : Taking) : Prop :=
    s.nRemainingValue ≤ x ∧ (x ≤ 0 → s.mapOfDenomsUsed = fun _ => 0)
  refine (Ends.foldlM (I := fun l s => l <:+ zerocoinDenomList.reverse ∧ I s)
    (fun coin l s ⟨hl, hs⟩ => ?_) ⟨List.suffix_rfl, le_rfl, fun _ => rfl⟩).map
    fun s ⟨_, hs⟩ hne => ?_
  · have hpos := toAmount_pos (mem_denoms hl)
    refine (Ends.repeatWhile (P := I) (fun t => t.nRemainingValue.toNat) (fun t ht hcond => ?_)
      (fun t ht hcond => ?_) hs fun he => ?_).mono fun t ht => ⟨suffix_tail hl, ht.1⟩
    · have hle := of_decide_eq_true hcond
      exact ⟨(sub_le_self _ hpos.le).trans ht.1, fun h0 => absurd (hle.trans ht.1) (by omega)⟩
    · have hle := of_decide_eq_true hcond
      simp only [Taking.take]
      omega
    · have hbound := hs.1
      have hfuel := he.change
      have hcoin := toAmount_pos (d := ZQ_FIVE_THOUSAND) (by decide)
      omega
  · by_contra h0
    rw [hs.2 (not_lt.mp h0)] at hne
    exact hne (by decide)

/-- The first two stages, and the coin on top, stay within one coin of the target. -/
structure Close (held : DenomMap) (T : ℤ) (s : Taking) : Prop extends Within held T s where
  close : -ZQ_FIVE_THOUSAND.toAmount < s.nRemainingValue

lemma Close.take (h : Close held T s) (hd : denom ∈ zerocoinDenomList)
    (hlt : s.mapOfDenomsUsed denom < held denom) (hrem : 0 < s.nRemainingValue) :
    Close held T (s.take denom) where
  toWithin := h.toWithin.take hd hlt
  close := by
    have hle := toAmount_le denom
    simp only [Taking.take]
    omega

lemma Close.amountUsed_lt (h : Close held T s) :
    s.amountUsed < T + ZQ_FIVE_THOUSAND.toAmount := by
  have hclose := h.close
  rw [h.remaining] at hclose
  omega

lemma Within.close (h : Within held T s) (hrem : 0 < s.nRemainingValue) : Close held T s where
  toWithin := h
  close := by
    have hpos := toAmount_pos (d := ZQ_FIVE_THOUSAND) (by decide)
    omega

lemma close_fillUp (hl : ∀ d ∈ l, d ∈ zerocoinDenomList) (h : Within held T s)
    (hrem : 0 < s.nRemainingValue) : Close held T (fillUp held l s) := by
  induction l with
  | nil => exact h.close hrem
  | cons denom l ih =>
    obtain ⟨hd, hl⟩ := List.forall_mem_cons.mp hl
    simp only [fillUp]
    by_cases hfit : s.nRemainingValue < denom.toAmount ∧
        s.mapOfDenomsUsed denom < held denom
    · -- the coin is worth more than what remains, and the loop ends
      rw [if_pos hfit, if_pos (show (s.take denom).nRemainingValue < 0 from sub_neg.mpr hfit.1)]
      exact (h.close hrem).take hd hfit.2 hrem
    · rw [if_neg hfit, if_neg hrem.le.not_gt]
      exact ih hl

lemma minimizeStages_ends (hT : 0 < T) (hheld : ∀ d ∈ zerocoinDenomList, 0 ≤ held d) :
    Ends (Enough fuel held) (minimizeStages fuel denom T held) (Close held T) := by
  let I (s : Taking) : Prop := 0 < s.nRemainingValue
  refine (Ends.foldlM (I := fun l s => l <:+ zerocoinDenomList.reverse ∧ Within held T s ∧ I s)
    (fun coin l s ⟨hl, hw, hs⟩ => ?_) ⟨List.suffix_rfl, Within.init hheld, hT⟩).map
    fun s ⟨_, hw, hs⟩ => close_fillUp (fun _ hd => hd) hw hs
  split_ifs with hle
  · refine (takeWhile_ends (I := I) (mem_denoms hl) (fun t ht hmore => ?_) hw hs).mono
      fun t ⟨hwt, ht, _⟩ => ⟨suffix_tail hl, hwt, ht⟩
    exact sub_pos.mpr (of_decide_eq_true hmore)
  · exact Ends.pure ⟨suffix_tail hl, hw, hs⟩

/-- What is left of the coins when those that come back as change are taken out. -/
structure Reduced (held : DenomMap) (bound : ℤ) (s : Overlap) : Prop where
  used : FromHeld held s.mapOfDenomsUsed
  amount : s.amountUsed = totalAmount s.mapOfDenomsUsed
  le : s.amountUsed ≤ bound

lemma removeOverlap_ends {bound : ℤ} {s : Overlap} (hd : denom ∈ zerocoinDenomList)
    (h : Reduced held bound s) :
    Ends (Enough fuel held) (removeOverlap fuel denom s) (Reduced held bound) := by
  have hpos := toAmount_pos hd
  refine (Ends.repeatWhile (P := Reduced held bound) (fun t => (t.mapOfDenomsUsed denom).toNat)
    (fun t ht hcond => ?_) (fun t ht hcond => ?_) h fun he => ?_).mono fun t ht => ht.1
  · have hne := of_decide_eq_true (Bool.and_eq_true_iff.mp hcond).2
    obtain ⟨h0, hle⟩ := ht.used denom hd
    refine ⟨ht.used.add (by omega) (by omega), ?_, (sub_le_self _ hpos.le).trans ht.le⟩
    rw [totalAmount_add hd, ht.amount]
    ring
  · have hne := of_decide_eq_true (Bool.and_eq_true_iff.mp hcond).2
    have h0 := (ht.used denom hd).1
    simp only [add_self]
    omega
  · obtain ⟨h0, hle⟩ := h.used denom hd
    have hlt := he.held denom hd
    omega

/-- **A way to meet the target**: coins that are held, the number of coins in the change, and not
more than one coin too much. -/
structure Covers (fuel : ℕ) (held : DenomMap) (T : ℤ) (r : ℤ × DenomMap) : Prop where
  used : FromHeld held r.2
  change : ∃ mapChange, getChange fuel (totalAmount r.2 - T) = some mapChange ∧
    r.1 = getNumberOfCoinsUsed mapChange
  lt : totalAmount r.2 < T + ZQ_FIVE_THOUSAND.toAmount

/-- **The change is less or the coins are as they were**; in both cases the target is met. -/
theorem minimizeChange_ends {nMaxNumberOfSpends nChangeCount : ℤ} (hT : 0 < T)
    (hheld : ∀ d ∈ zerocoinDenomList, 0 ≤ held d) (h : Covers fuel held T (nChangeCount, m)) :
    Ends (Enough fuel held) (minimizeChange fuel nMaxNumberOfSpends nChangeCount denom T held m)
      (Covers fuel held T) := by
  refine (minimizeStages_ends hT hheld).bind fun s hs => ?_
  have hlt := hs.amountUsed_lt
  refine (getChange_ends (sub_lt_iff_lt_add'.mpr hlt)).bind fun mapAltChange _ => ?_
  refine Ends.bind (P := Reduced held s.amountUsed) ?_ fun r hr => ?_
  · refine (Ends.foldlM (I := fun l r => (∀ d ∈ l, d ∈ zerocoinDenomList) ∧
      Reduced held s.amountUsed r) (fun coin l r ⟨hl, hr⟩ => ?_)
      ⟨fun _ hd => hd, hs.used, hs.amount, le_rfl⟩).mono fun r hr => hr.2
    obtain ⟨hd, hl⟩ := List.forall_mem_cons.mp hl
    exact (removeOverlap_ends hd hr).mono fun r hr => ⟨hl, hr⟩
  · have hbound := hr.le.trans_lt hlt
    rw [hr.amount] at hbound ⊢
    refine (getSpendCoins_ends hr.used hheld).bind fun mapAltUsed ⟨hused, hsum⟩ => ?_
    refine (getChange_ends (sub_lt_iff_lt_add'.mpr hbound)).withEq.map
      fun mapAltChange ⟨hget, _⟩ => ?_
    dsimp only
    split_ifs
    · rw [← hsum] at hget hbound
      exact ⟨hused, ⟨mapAltChange, hget, rfl⟩, hbound⟩
    · exact h

lemma Covers.lt_totalAmount {r : ℤ × DenomMap} (h : Covers fuel held T r) (hr : r.1 ≠ 0) :
    T < totalAmount r.2 := by
  obtain ⟨mapChange, hget, hcount⟩ := h.change
  rw [hcount] at hr
  have hends : Ends (Enough fuel held) (getChange fuel (totalAmount r.2 - T)) _ :=
    getChange_ends (sub_lt_iff_lt_add'.mpr h.lt)
  have hpos := hends.post mapChange hget hr
  omega

/-- The state of the cover while coins of one denomination are taken. -/
structure Covering (held : DenomMap) (T : ℤ) (denom : CoinDenomination) (s t : Taking) : Prop where
  close : Close held T t
  others : ∀ d, d ≠ denom → t.mapOfDenomsUsed d = s.mapOfDenomsUsed d

lemma coverBody (hd : denom ∈ zerocoinDenomList) (h : Covering held T denom s t)
    (hmore : 0 < t.nRemainingValue → held denom ≠ 0 → t.mapOfDenomsUsed denom < held denom) :
    Covering held T denom s
      (if held denom ≠ 0 ∧ 0 < t.nRemainingValue then t.take denom else t) := by
  split_ifs with hc
  · refine ⟨h.close.take hd (hmore hc.2 hc.1) hc.2, fun d hne => ?_⟩
    exact (add_of_ne t.mapOfDenomsUsed 1 hne).trans (h.others d hne)
  · exact h

lemma coverDenom_ends (hd : denom ∈ zerocoinDenomList) (h : Close held T s)
    (hleft : s.mapOfDenomsUsed denom = 0) :
    Ends (Enough fuel held)
      (doWhile (fun s => 0 < s.nRemainingValue && s.mapOfDenomsUsed denom < held denom)
        (fun s => if held denom ≠ 0 ∧ 0 < s.nRemainingValue then s.take denom else s) fuel s)
      (Covering held T denom s) := by
  refine (Ends.doWhile (P := Covering held T denom s) (Q := fun t => Covering held T denom s t ∧
      (0 < t.nRemainingValue → held denom ≠ 0 → t.mapOfDenomsUsed denom < held denom))
    (fun t => (held denom - t.mapOfDenomsUsed denom).toNat) (fun t ht => coverBody hd ht.1 ht.2)
    (fun t ht hcond => ⟨ht, fun _ _ => ?_⟩) (fun t ht hcond => ?_)
    ⟨⟨h, fun _ _ => rfl⟩, fun _ hne => ?_⟩ fun he => ?_).mono fun t ht => ht.1
  · exact of_decide_eq_true (Bool.and_eq_true_iff.mp hcond).2
  · obtain ⟨hrem, hlt⟩ := Bool.and_eq_true_iff.mp hcond
    replace hrem := of_decide_eq_true hrem
    replace hlt := of_decide_eq_true hlt
    have h0 := (ht.1.close.used denom hd).1
    split_ifs at hrem hlt ⊢ with hc
    · simp only [Taking.take, add_self] at hlt ⊢
      omega
    · -- there is a coin left, so that one was taken
      exact absurd ⟨(h0.trans_lt hlt).ne', hrem⟩ hc
  · have hle := (h.used denom hd).2
    omega
  · have hlt := he.held denom hd
    obtain ⟨h0, hle⟩ := h.used denom hd
    omega

lemma cover_ends (hl : l <:+ zerocoinDenomList.reverse) (h : Close held T s)
    (hleft : ∀ d ∈ l, s.mapOfDenomsUsed d = 0) :
    Ends (Enough fuel held) (cover fuel held l s) (Close held T) := by
  induction l generalizing s with
  | nil => exact Ends.pure h
  | cons denom l ih =>
    rw [cover]
    refine (coverDenom_ends (mem_denoms hl) h (hleft denom List.mem_cons_self)).bind
      fun t ht => ?_
    split_ifs
    · exact Ends.pure ht.close
    · refine ih (suffix_tail hl) ht.close fun d hmem => ?_
      rw [ht.others d fun heq => notMem_denoms hl (heq ▸ hmem)]
      exact hleft d (List.mem_cons_of_mem denom hmem)

/-- **Whatever is chosen meets the target**, and the number of coins in the change is right. -/
theorem calculateChange_ends {nMaxNumberOfSpends : ℤ} (hT : 0 < T)
    (hheld : ∀ d ∈ zerocoinDenomList, 0 ≤ held d) :
    Ends (Enough fuel held) (calculateChange fuel nMaxNumberOfSpends T held)
      (Covers fuel held T) := by
  unfold calculateChange
  split
  next coin hfind =>
    -- a single coin is enough
    have hd := List.mem_of_find?_eq_some hfind
    have hcoin := List.find?_some hfind
    rw [decide_eq_true_iff] at hcoin
    obtain ⟨hover, hne⟩ := hcoin
    have hsum : totalAmount (add (fun _ => 0) coin 1) = coin.toAmount := by
      rw [totalAmount_add hd, totalAmount_zero]
      ring
    have hle := toAmount_le coin
    refine (getChange_ends (by omega)).withEq.bind fun mapChange ⟨hget, _⟩ => ?_
    have hsingle : Covers fuel held T (getNumberOfCoinsUsed mapChange, add (fun _ => 0) coin 1) := {
      used := (FromHeld.zero hheld).add (by omega) (by have h0 := hheld coin hd; omega)
      change := ⟨mapChange, by rw [hsum]; exact hget, rfl⟩
      lt := by rw [hsum]; omega }
    refine (minimizeChange_ends hT hheld hsingle).map fun r hr => ?_
    dsimp only
    split_ifs
    · exact hr
    · exact hsingle
  next =>
    have hinit := (Within.init (T := T) hheld).close hT
    refine (cover_ends List.suffix_rfl hinit fun _ _ => rfl).bind fun s hs => ?_
    have hlt := hs.amountUsed_lt
    refine (getChange_ends (sub_lt_iff_lt_add'.mpr hlt)).withEq.bind fun mapChange ⟨hget, _⟩ => ?_
    rw [hs.amount] at hget hlt
    exact minimizeChange_ends hT hheld ⟨hs.used, ⟨mapChange, hget, rfl⟩, hlt⟩

end Agenor.Mints
