import Mathlib.Data.List.Nodup
import Agenor.MintChange

/-!
The mints that are spent.

The mints of a denomination are taken in the order of the list, as many as are to be used; since no
more are to be used than there are, one pass over the list is enough and none is taken twice.
-/

namespace Agenor.Mints

open Lib Lib.ChangeMaking CoinDenomination

/-- The mints of a denomination that can be spent. -/
def unused (coin : CoinDenomination) (listMints : List CMintMeta) : List CMintMeta :=
  listMints.filter fun mint => !mint.isUsed && coin = mint.denom

/-- `mapOfDenomsHeld` counts the unused mints of each denomination. -/
def Counts (listMints : List CMintMeta) (held : DenomMap) : Prop :=
  ∀ d ∈ zerocoinDenomList, held d = (unused d listMints).length

/-- The mints for these denominations. -/
def chosen (listMints : List CMintMeta) (used : DenomMap) (l : List CoinDenomination) :
    List CMintMeta :=
  l.flatMap fun coin => (unused coin listMints).take (used coin).toNat

def worth (v : List CMintMeta) : ℤ := (v.map fun mint => mint.denom.toAmount).sum

variable {fuel : ℕ} {held used : DenomMap} {T : ℤ} {coin d : CoinDenomination}
  {mint : CMintMeta} {listMints v : List CMintMeta} {l : List CoinDenomination}

lemma mem_unused : mint ∈ unused coin listMints ↔
    mint ∈ listMints ∧ mint.isUsed = false ∧ coin = mint.denom := by
  rw [unused, List.mem_filter, Bool.and_eq_true, Bool.not_eq_true', decide_eq_true_iff]

lemma Counts.nonneg (h : Counts listMints held) : ∀ d ∈ zerocoinDenomList, 0 ≤ held d := by
  intro d hd
  rw [h d hd]
  exact Int.natCast_nonneg _

/-! ### `getSpends` -/

lemma spendMint_eq_self {s : Spends} (h : mint.isUsed = false → coin = mint.denom →
    s.mapOfDenomsUsed coin = 0) : spendMint coin s mint = s := by
  rw [spendMint]
  split_ifs with hused hmint
  · rfl
  · exact absurd (h (Bool.eq_false_of_not_eq_true hused) hmint.1) hmint.2
  · rfl

lemma foldl_spendMint {s : Spends} (h0 : 0 ≤ s.mapOfDenomsUsed coin)
    (hle : s.mapOfDenomsUsed coin ≤ (unused coin v).length) :
    v.foldl (spendMint coin) s =
      ⟨s.vSelectedMints ++ (unused coin v).take (s.mapOfDenomsUsed coin).toNat,
        s.nCoinsSpentValue + s.mapOfDenomsUsed coin * coin.toAmount,
        Function.update s.mapOfDenomsUsed coin 0⟩ := by
  induction v generalizing s with
  | nil =>
    have hzero : s.mapOfDenomsUsed coin = 0 := le_antisymm hle h0
    rw [Function.update_eq_self_iff.mpr hzero.symm, hzero, zero_mul, add_zero, Int.toNat_zero,
      List.take_zero, List.append_nil]
    rfl
  | cons mint v ih =>
    rw [List.foldl_cons]
    by_cases hmint : (!mint.isUsed && decide (coin = mint.denom)) = true
    · have hcons : unused coin (mint :: v) = mint :: unused coin v := List.filter_cons_of_pos hmint
      rw [hcons] at hle ⊢
      rw [List.length_cons, Nat.cast_succ] at hle
      rcases eq_or_ne (s.mapOfDenomsUsed coin) 0 with hzero | hne
      · -- no more of them are to be used
        rw [spendMint_eq_self fun _ _ => hzero, ih h0 (by omega), hzero]
        rfl
      · obtain ⟨n, hn⟩ : ∃ n : ℕ, s.mapOfDenomsUsed coin = n + 1 :=
          ⟨(s.mapOfDenomsUsed coin - 1).toNat, by omega⟩
        obtain ⟨hunused, hcoin⟩ := Bool.and_eq_true_iff.mp hmint
        have hspend : spendMint coin s mint = ⟨s.vSelectedMints ++ [mint],
            s.nCoinsSpentValue + coin.toAmount, add s.mapOfDenomsUsed coin (-1)⟩ := by
          rw [spendMint, if_neg (by simpa using hunused), if_pos ⟨of_decide_eq_true hcoin, hne⟩]
        have hleft : add s.mapOfDenomsUsed coin (-1) coin = n := by
          rw [add_self, hn]
          ring
        rw [hspend, ih ((Int.natCast_nonneg n).trans_eq hleft.symm) (hleft.trans_le (by omega))]
        simp only [hleft, hn, Spends.mk.injEq]
        refine ⟨?_, by ring, Function.update_idem ..⟩
        rw [Int.toNat_natCast, show ((n : ℤ) + 1).toNat = n + 1 by omega, List.take_succ_cons,
          List.append_assoc, List.singleton_append]
    · have hcons : unused coin (mint :: v) = unused coin v := List.filter_cons_of_neg hmint
      rw [hcons] at hle ⊢
      rw [spendMint_eq_self fun hunused hcoin => ?_, ih h0 hle]
      exact absurd (by rw [hunused, hcoin]; simp) hmint

/-- What `getSpends` keeps, when these denominations are left. -/
structure Spending (listMints : List CMintMeta) (used : DenomMap) (l : List CoinDenomination)
    (s : Spends) : Prop where
  denoms : l <:+ zerocoinDenomList.reverse
  mints : s.vSelectedMints ++ chosen listMints used l =
    chosen listMints used zerocoinDenomList.reverse
  value : s.nCoinsSpentValue + total toAmount l used = totalAmount used
  left : ∀ d ∈ l, s.mapOfDenomsUsed d = used d

lemma Spending.init : Spending listMints used zerocoinDenomList.reverse ⟨[], 0, used⟩ where
  denoms := List.suffix_rfl
  mints := List.nil_append _
  value := (zero_add _).trans (total_reverse zerocoinDenomList used)
  left _ _ := rfl

lemma spendDenom_ends {s : Spends} (hcounts : Counts listMints held) (hused : FromHeld held used)
    (h : Spending listMints used (coin :: l) s) :
    Ends (Enough fuel held)
      (doWhile (fun s => s.mapOfDenomsUsed coin ≠ 0) (fun s => listMints.foldl (spendMint coin) s)
        fuel s)
      (Spending listMints used l) := by
  have hd := mem_denoms h.denoms
  have hcoin := h.left coin List.mem_cons_self
  obtain ⟨h0, hle⟩ := hused coin hd
  rw [hcounts coin hd, ← hcoin] at hle
  rw [← hcoin] at h0
  have hpass := foldl_spendMint h0 hle
  refine (Ends.doWhile (Q := (· = s)) (P := (· = listMints.foldl (spendMint coin) s))
    (fun _ => 0) (fun t ht => by rw [ht]) (fun t ht hcond => ?_) (fun t ht hcond => ?_) rfl
    fun he => ?_).mono fun t ht => ?_
  · -- after one pass none is left to be used
    rw [ht, hpass] at hcond
    exact absurd (Function.update_self ..) (of_decide_eq_true hcond)
  · rw [ht, hpass] at hcond
    exact absurd (Function.update_self ..) (of_decide_eq_true hcond)
  · have hpos := toAmount_pos (d := ZQ_FIVE_THOUSAND) (by decide)
    have hchange := he.change
    omega
  · obtain ⟨rfl, -⟩ := ht
    rw [hpass, hcoin]
    refine ⟨suffix_tail h.denoms, ?_, ?_, fun d hmem => ?_⟩
    · rw [List.append_assoc]
      exact h.mints
    · rw [add_assoc]
      exact h.value
    · have hne : d ≠ coin := fun heq => notMem_denoms h.denoms (heq ▸ hmem)
      exact (Function.update_of_ne hne ..).trans (h.left d (List.mem_cons_of_mem coin hmem))

/-- **The mints are those chosen**, and what is returned as their value is that of the counts. -/
theorem getSpends_ends (hcounts : Counts listMints held) (hused : FromHeld held used) :
    Ends (Enough fuel held) (getSpends fuel listMints used) fun s =>
      s.vSelectedMints = chosen listMints used zerocoinDenomList.reverse ∧
        s.nCoinsSpentValue = totalAmount used := by
  refine (Ends.foldlM (I := Spending listMints used)
    (fun coin l s h => spendDenom_ends hcounts hused h) Spending.init).mono fun s h => ⟨?_, ?_⟩
  · exact (List.append_nil _).symm.trans h.mints
  · exact (add_zero _).symm.trans h.value

/-! ### The chosen mints -/

lemma mem_chosen (h : mint ∈ chosen listMints used l) :
    mint ∈ listMints ∧ mint.isUsed = false ∧ mint.denom ∈ l := by
  obtain ⟨coin, hcoin, hmem⟩ := List.mem_flatMap.mp h
  obtain ⟨hlist, hunused, rfl⟩ := mem_unused.mp (List.mem_of_mem_take hmem)
  exact ⟨hlist, hunused, hcoin⟩

lemma nodup_chosen (h : listMints.Nodup) (hl : l.Nodup) : (chosen listMints used l).Nodup := by
  refine List.nodup_flatMap.mpr ⟨fun coin _ => ?_, hl.imp fun {a b} hab => ?_⟩
  · exact (h.filter _).sublist (List.take_sublist _ _)
  · intro mint ha hb
    have hadenom := (mem_unused.mp (List.mem_of_mem_take ha)).2.2
    have hbdenom := (mem_unused.mp (List.mem_of_mem_take hb)).2.2
    exact hab (hadenom.trans hbdenom.symm)

lemma worth_take_unused {n : ℕ} (hn : n ≤ (unused coin listMints).length) :
    worth ((unused coin listMints).take n) = n * coin.toAmount := by
  have hall : ∀ mint ∈ (unused coin listMints).take n, mint.denom.toAmount = coin.toAmount :=
    fun mint hmem => by rw [← (mem_unused.mp (List.mem_of_mem_take hmem)).2.2]
  rw [worth, List.map_congr_left hall, List.map_const', List.sum_replicate, List.length_take,
    min_eq_left hn, nsmul_eq_mul]

lemma worth_chosen (hcounts : Counts listMints held) (hused : FromHeld held used)
    (hl : ∀ d ∈ l, d ∈ zerocoinDenomList) :
    worth (chosen listMints used l) = total toAmount l used := by
  induction l with
  | nil => rfl
  | cons coin l ih =>
    obtain ⟨hd, hl⟩ := List.forall_mem_cons.mp hl
    obtain ⟨h0, hle⟩ := hused coin hd
    rw [hcounts coin hd] at hle
    have hhead := worth_take_unused (Int.toNat_le.mpr hle)
    rw [Int.toNat_of_nonneg h0] at hhead
    rw [chosen, List.flatMap_cons, worth, List.map_append, List.sum_append, total, List.map_cons,
      List.sum_cons]
    exact congrArg₂ (· + ·) hhead (ih hl)

/-! ### `getIdealSpends` -/

lemma idealCoin_takes {s t : Taking} (hd : coin ∈ zerocoinDenomList) (hw : Within held T t)
    (ht : Takes coin s t)
    (hleft : t.mapOfDenomsUsed coin + (unused coin v).length = held coin) :
    Within held T (idealCoin coin v t) ∧ Takes coin s (idealCoin coin v t) ∧
      ((idealCoin coin v t).nRemainingValue < coin.toAmount ∨
        (idealCoin coin v t).mapOfDenomsUsed coin = held coin) := by
  induction v generalizing t with
  | nil => exact ⟨hw, ht, Or.inr ((add_zero _).symm.trans hleft)⟩
  | cons mint v ih =>
    simp only [idealCoin]
    by_cases hused : mint.isUsed = true
    · rw [if_pos hused]
      refine ih hw ht ?_
      rwa [unused, List.filter_cons_of_neg (by simp [hused])] at hleft
    rw [if_neg hused]
    by_cases hfit : coin.toAmount ≤ t.nRemainingValue ∧ coin = mint.denom
    · rw [if_pos hfit]
      rw [unused, List.filter_cons_of_pos (by simp [hused, hfit.2]), List.length_cons,
        Nat.cast_succ] at hleft
      have hw' := hw.take hd (by omega)
      have ht' := ht.take hfit.1
      split_ifs with hlow
      · exact ⟨hw', ht', Or.inl hlow⟩
      · refine ih hw' ht' ?_
        simp only [Taking.take, add_self, unused]
        omega
    · rw [if_neg hfit]
      split_ifs with hlow
      · exact ⟨hw, ht, Or.inl hlow⟩
      · have hne : coin ≠ mint.denom := fun heq => hfit ⟨not_lt.mp hlow, heq⟩
        refine ih hw ht ?_
        rwa [unused, List.filter_cons_of_neg (by simp [hne])] at hleft

lemma greedy_idealCoin (hcounts : Counts listMints held) {s : Taking} (h : Greedy held T l s) :
    Greedy held T [] (l.foldl (fun s coin => idealCoin coin listMints s) s) := by
  induction l generalizing s with
  | nil => exact h
  | cons coin l ih =>
    have hd := mem_denoms h.denoms
    obtain ⟨hw, ht, hmost⟩ := idealCoin_takes (v := listMints) hd h.within (Takes.refl h.nonneg)
      (by rw [h.left coin List.mem_cons_self, zero_add, hcounts coin hd])
    exact ih (h.step hw ht hmost)

lemma getIdealSpends_greedy (hcounts : Counts listMints held) (hT : 0 ≤ T) :
    FromHeld held (getIdealSpends T listMints).2 ∧
      ((getIdealSpends T listMints).1 = true → totalAmount (getIdealSpends T listMints).2 = T) ∧
      (Payable toAmount held zerocoinDenomList.reverse T →
        (getIdealSpends T listMints).1 = true) := by
  have h := greedy_idealCoin hcounts (Greedy.init hcounts.nonneg hT)
  refine ⟨h.within.used, fun hexact => ?_, fun hpay => ?_⟩
  · exact h.within.totalAmount_eq (of_decide_eq_true hexact)
  · exact decide_eq_true (h.remaining_eq_zero hpay)

lemma toAmount_eq_zero (hd : d ∉ zerocoinDenomList) : d.toAmount = 0 := by
  cases d <;> revert hd <;> decide

lemma worth_eq_totalAmount (hv : ∀ mint ∈ v, mint.isUsed = false) :
    worth v = totalAmount fun d => (unused d v).length := by
  induction v with
  | nil => exact totalAmount_zero.symm
  | cons mint v ih =>
    obtain ⟨hused, hv⟩ := List.forall_mem_cons.mp hv
    have hself :
        ((unused mint.denom (mint :: v)).length : ℤ) = (unused mint.denom v).length + 1 := by
      rw [unused, List.filter_cons_of_pos (by simp [hused]), List.length_cons, Nat.cast_succ]
      rfl
    have hother : ∀ d, d ≠ mint.denom → unused d (mint :: v) = unused d v := fun d hne =>
      List.filter_cons_of_neg (by simp [hne])
    rw [worth, List.map_cons, List.sum_cons, ← worth, ih hv]
    by_cases hd : mint.denom ∈ zerocoinDenomList
    · have hadd : (fun d => ((unused d (mint :: v)).length : ℤ)) =
          add (fun d => (unused d v).length) mint.denom 1 := by
        funext d
        rcases eq_or_ne d mint.denom with rfl | hne
        · rw [hself, add_self]
        · rw [hother d hne, add_of_ne _ _ hne]
      rw [hadd, totalAmount_add hd]
      ring
    · rw [toAmount_eq_zero hd, zero_add]
      refine total_congr fun d hmem => ?_
      rw [hother d fun heq => hd (heq ▸ hmem)]

lemma fromHeld_of_subperm (hcounts : Counts listMints held)
    (hv : v.Subperm (listMints.filter fun mint => !mint.isUsed)) :
    FromHeld held fun d => (unused d v).length := by
  intro d hd
  refine ⟨Int.natCast_nonneg _, ?_⟩
  rw [hcounts d hd]
  exact Int.ofNat_le.mpr ((hv.trans List.filter_sublist.subperm).filter _).length_le

/-- **The exact pass succeeds if and only if the target can be met exactly at all.** -/
theorem getIdealSpends_iff (hnodup : listMints.Nodup) (hcounts : Counts listMints held)
    (hT : 0 ≤ T) : (getIdealSpends T listMints).1 = true ↔
      ∃ v : List CMintMeta,
        v.Subperm (listMints.filter fun mint => !mint.isUsed) ∧ worth v = T := by
  obtain ⟨hused, hsum, hpay⟩ := getIdealSpends_greedy hcounts hT
  constructor
  · intro hexact
    refine ⟨chosen listMints (getIdealSpends T listMints).2 zerocoinDenomList,
      List.subperm_of_subset (nodup_chosen hnodup nodup_zerocoinDenomList) fun mint hmem => ?_, ?_⟩
    · obtain ⟨hlist, hunused, -⟩ := mem_chosen hmem
      exact List.mem_filter.mpr ⟨hlist, by rw [hunused]; rfl⟩
    · exact (worth_chosen hcounts hused fun _ hd => hd).trans (hsum hexact)
  · rintro ⟨v, hv, rfl⟩
    have hunused : ∀ mint ∈ v, mint.isUsed = false := fun mint hmem =>
      by simpa using (List.mem_filter.mp (hv.subset hmem)).2
    rw [worth_eq_totalAmount hunused] at hpay ⊢
    exact hpay (fromHeld_of_subperm hcounts hv).payable

/-! ### `SelectMintsFromList` -/

/-- **A sound selection**: mints that can be spent, none twice, with their value, which covers the
target and goes beyond it by less than one coin, and with the number of coins in the change. -/
structure Sound (fuel : ℕ) (listMints : List CMintMeta) (T : ℤ) (r : Selection) : Prop where
  distinct : r.vSelectedMints.Nodup
  unused : ∀ mint ∈ r.vSelectedMints, mint ∈ listMints ∧ mint.isUsed = false
  value : r.nSelectedValue = worth r.vSelectedMints
  target : T ≤ r.nSelectedValue
  change : ∃ mapChange, getChange fuel (r.nSelectedValue - T) = some mapChange ∧
    r.nCoinsReturned = getNumberOfCoinsUsed mapChange
  lt : r.nSelectedValue < T + ZQ_FIVE_THOUSAND.toAmount

/-- What is got for counts that are held. -/
structure Got (listMints : List CMintMeta) (n : ℤ) (s : Spends) : Prop where
  distinct : s.vSelectedMints.Nodup
  unused : ∀ mint ∈ s.vSelectedMints, mint ∈ listMints ∧ mint.isUsed = false
  value : s.nCoinsSpentValue = worth s.vSelectedMints
  eq : s.nCoinsSpentValue = n

lemma getSpends_got (hnodup : listMints.Nodup) (hcounts : Counts listMints held)
    (hused : FromHeld held used) :
    Ends (Enough fuel held) (getSpends fuel listMints used) (Got listMints (totalAmount used)) := by
  refine (getSpends_ends hcounts hused).mono fun s ⟨hmints, hvalue⟩ => ?_
  refine ⟨?_, fun mint hmem => ?_, ?_, hvalue⟩
  · rw [hmints]
    exact nodup_chosen hnodup (List.nodup_reverse.mpr nodup_zerocoinDenomList)
  · rw [hmints] at hmem
    exact ⟨(mem_chosen hmem).1, (mem_chosen hmem).2.1⟩
  · rw [hmints, hvalue, worth_chosen hcounts hused fun _ hd => List.mem_reverse.mp hd,
      total_reverse]
    rfl

lemma getChange_zero {s : Spends} (h : getSpends fuel listMints used = some s) :
    getChange fuel 0 = some fun _ => 0 := by
  cases fuel with
  | zero => exact absurd h nofun
  | succ fuel => rfl

theorem withChange_ends {nMaxNumberOfSpends nSelectedValue : ℤ} {nNeededSpends : ℕ}
    (hnodup : listMints.Nodup) (hcounts : Counts listMints held) (hT : 0 < T) :
    Ends (Enough fuel held)
      ((calculateChange fuel nMaxNumberOfSpends T held).bind fun r =>
        if r.1 = 0 then some ⟨[], nSelectedValue, 0, nNeededSpends⟩
        else (getSpends fuel listMints r.2).map fun s =>
          ⟨s.vSelectedMints, s.nCoinsSpentValue, r.1, nNeededSpends⟩)
      fun r => r.vSelectedMints ≠ [] → Sound fuel listMints T r := by
  refine (calculateChange_ends hT hcounts.nonneg).bind fun r hr => ?_
  split_ifs with h0
  · exact Ends.pure fun hne => absurd rfl hne
  · have hover := hr.lt_totalAmount h0
    refine (getSpends_got hnodup hcounts hr.used).map fun s hs _ => ?_
    have hvalue := hs.eq
    exact ⟨hs.distinct, hs.unused, hs.value, hvalue ▸ hover.le, hvalue ▸ hr.change, hvalue ▸ hr.lt⟩

theorem selectMintsFromList_ends {nSelectedValue nMaxNumberOfSpends : ℤ}
    (hnodup : listMints.Nodup) (hcounts : Counts listMints held) (hT : 0 < T) :
    Ends (Enough fuel held)
      (selectMintsFromList fuel T nSelectedValue nMaxNumberOfSpends listMints held)
      fun r => r.vSelectedMints ≠ [] → Sound fuel listMints T r := by
  obtain ⟨hused, hsum, -⟩ := getIdealSpends_greedy hcounts hT.le
  unfold selectMintsFromList
  dsimp only
  split_ifs with hexact
  · refine (getSpends_got hnodup hcounts hused).withEq.bind fun s ⟨hget, hs⟩ => ?_
    split_ifs
    · refine Ends.pure fun _ => ?_
      have hvalue : s.nCoinsSpentValue = T := hs.eq.trans (hsum hexact)
      have hpos := toAmount_pos (d := ZQ_FIVE_THOUSAND) (by decide)
      have hchange : getChange fuel (s.nCoinsSpentValue - T) = some fun _ => 0 := by
        rw [hvalue, sub_self]
        exact getChange_zero hget
      exact ⟨hs.distinct, hs.unused, hs.value, hvalue.ge, ⟨_, hchange, rfl⟩,
        hvalue.trans_lt (lt_add_of_pos_right T hpos)⟩
    · -- too many spends
      exact withChange_ends hnodup hcounts hT
  · exact withChange_ends hnodup hcounts hT

/-- **The selection of mints is sound**: it ends, what is selected covers the target, and an exact
payment is found if there is one. -/
theorem selectMintsFromList_sound {nSelectedValue nMaxNumberOfSpends : ℤ}
    (hnodup : listMints.Nodup) (hcounts : Counts listMints held) (hT : 0 < T) :
    (∃ enough, ∀ fuel ≥ enough, ∃ r,
      selectMintsFromList fuel T nSelectedValue nMaxNumberOfSpends listMints held = some r) ∧
    (∀ fuel r,
      selectMintsFromList fuel T nSelectedValue nMaxNumberOfSpends listMints held = some r →
      r.vSelectedMints ≠ [] → Sound fuel listMints T r) ∧
    ((getIdealSpends T listMints).1 = true ↔
      ∃ v : List CMintMeta,
        v.Subperm (listMints.filter fun mint => !mint.isUsed) ∧ worth v = T) := by
  refine ⟨⟨listMints.length + ZQ_FIVE_THOUSAND.toAmount.toNat + 1, fun fuel hfuel => ?_⟩,
    fun fuel r hr => ?_, getIdealSpends_iff hnodup hcounts hT.le⟩
  · refine (selectMintsFromList_ends hnodup hcounts hT).ends ⟨fun d hd => ?_, ?_⟩
    · have hle : (unused d listMints).length ≤ listMints.length := List.length_filter_le ..
      rw [hcounts d hd]
      omega
    · have hself := Int.self_le_toNat ZQ_FIVE_THOUSAND.toAmount
      omega
  · exact (selectMintsFromList_ends hnodup hcounts hT).post r hr

/-- A mint of five and one of ten; the mint of one has been used. -/
def fiveAndTen : List CMintMeta := [⟨1, ZQ_FIVE, false⟩, ⟨2, ZQ_ONE, true⟩, ⟨3, ZQ_TEN, false⟩]

/-- Seven out of five and ten. -/
theorem selectMintsFromList_sound_seven :
    let held : DenomMap := fun d => (unused d fiveAndTen).length
    (∃ enough, ∀ fuel ≥ enough, ∃ r,
      selectMintsFromList fuel (7 * COIN) 0 3 fiveAndTen held = some r) ∧
    (∀ fuel r, selectMintsFromList fuel (7 * COIN) 0 3 fiveAndTen held = some r →
      r.vSelectedMints ≠ [] → Sound fuel fiveAndTen (7 * COIN) r) ∧
    ((getIdealSpends (7 * COIN) fiveAndTen).1 = true ↔ ∃ v : List CMintMeta,
      v.Subperm (fiveAndTen.filter fun mint => !mint.isUsed) ∧ worth v = 7 * COIN) :=
  selectMintsFromList_sound (by decide) (fun _ _ => rfl) (by decide)

end Agenor.Mints
