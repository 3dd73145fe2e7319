import Agenor.CoinSelection

/-!
Which coins a transaction of the wallet spends (`CWallet::SelectCoinsToSpend` of `wallet.cpp`).

The coins that the caller has chosen come first. Where other coins are allowed, they are selected
for what remains of the target, with fewer and fewer confirmations.
-/

namespace Agenor

open Lib Lib.Wrap

namespace CWallet

/-- `CCoinControl`. The destination for the change is the script that pays to it. -/
structure CCoinControl where
  destChange : Option CScript
  fSplitBlock : Bool
  nSplitBlock : ℤ
  fAllowOtherInputs : Bool
  nMinimumTotalFee : ℤ
  fOverrideFeeRate : Bool
  nFeeRate : ℤ
  setSelected : List COutPoint
  nodup : setSelected.Nodup

/-- The transactions of a wallet, by their hash. Their outputs have passed the check of amounts. -/
structure WalletTxs where
  mapWallet : Uint256 → Option CWalletTx
  hash_eq : ∀ {h tx}, mapWallet h = some tx → tx.tx.hash = h
  range : ∀ {h tx}, mapWallet h = some tx → ∀ out ∈ tx.tx.vout,
    0 ≤ out.nValue ∧ out.nValue ≤ 10 ^ 16
  bSpendZeroConfChange : Bool

namespace WalletTxs

variable (w : WalletTxs)

/-- The coin is an output of a transaction of the wallet. -/
def Known (coin : WalletCoin) : Prop :=
  w.mapWallet coin.1.tx.hash = some coin.1 ∧ coin.2 < coin.1.tx.vout.length

/-- What `AvailableCoins` finds. -/
structure Available where
  vCoins : List COutput
  known : ∀ out ∈ vCoins, w.Known out.coin
  nodup : (vCoins.map COutput.coin).Nodup

/-- A preset input is looked up, and its value is added. -/
def addPreset (presets : Selection) (outpoint : COutPoint) : Option Selection :=
  match w.mapWallet outpoint.hash with
  | none => none
  | some pcoin =>
    if pcoin.tx.vout.length ≤ outpoint.n then none else some (presets.add (pcoin, outpoint.n))

/-- `setPresetCoins` and `nValueFromPresetInputs`. -/
def presets (vPresetInputs : List COutPoint) : Option Selection :=
  vPresetInputs.foldlM w.addPreset Selection.empty

/-- The selections with 6 confirmations for coins of others, with one, and with none for own
coins. -/
def selectConfirmed (nTargetValue : ℤ) (vCoins : List COutput) (chance : ℕ → Chance) :
    Bool × Selection :=
  let r := selectCoinsMinConf nTargetValue 1 6 vCoins (chance 0)
  if r.1 then r
  else
    let r := selectCoinsMinConf nTargetValue 1 1 vCoins (chance 1)
    if r.1 then r
    else if w.bSpendZeroConfChange then selectCoinsMinConf nTargetValue 0 1 vCoins (chance 2)
    else r

def selectCoinsToSpend (vAvailableCoins : List COutput) (nTargetValue : ℤ)
    (coinControl : Option CCoinControl) (chance : ℕ → Chance) : Bool × Selection :=
  if coinControl.any fun c => !c.setSelected.isEmpty && !c.fAllowOtherInputs then
    let r := Selection.empty.addAll ((vAvailableCoins.filter (·.fSpendable)).map COutput.coin)
    (decide (nTargetValue ≤ r.nValueRet), r)
  else
    match w.presets (coinControl.elim [] CCoinControl.setSelected) with
    | none => (false, Selection.empty)
    | some presets =>
      let vCoins := vAvailableCoins.filter fun out => decide (out.coin ∉ presets.setCoinsRet)
      let r :=
        if nTargetValue ≤ presets.nValueRet then (true, Selection.empty)
        else w.selectConfirmed (wrap 64 (nTargetValue - presets.nValueRet)) vCoins chance
      (r.1, ⟨(r.2.addAll presets.setCoinsRet).setCoinsRet,
        wrap 64 (r.2.nValueRet + presets.nValueRet)⟩)

/-! ### The coins of a wallet -/

variable {w : WalletTxs} {av : w.Available} {coin coin' : WalletCoin} {coins : List WalletCoin}
variable {selected : List COutPoint} {p : Selection} {nTargetValue : ℤ} {vCoins : List COutput}
variable {chance : ℕ → Chance}

def outPoint (coin : WalletCoin) : COutPoint := ⟨coin.1.tx.hash, coin.2⟩

lemma Known.value (h : w.Known coin) : 0 ≤ coinValue coin ∧ coinValue coin ≤ 10 ^ 16 := by
  have hmem : coinOut coin ∈ coin.1.tx.vout := by
    rw [coinOut, List.getD_eq_getElem _ _ h.2]
    exact List.getElem_mem h.2
  exact w.range h.1 _ hmem

lemma Known.ext (h : w.Known coin) (h' : w.Known coin') (heq : outPoint coin = outPoint coin') :
    coin = coin' := by
  obtain ⟨hhash, hn⟩ := COutPoint.mk.inj heq
  have htx := h.1
  rw [hhash, h'.1] at htx
  exact Prod.ext (Option.some.inj htx).symm hn

lemma nodup_outPoint (hknown : ∀ coin ∈ coins, w.Known coin) (hnodup : coins.Nodup) :
    (coins.map outPoint).Nodup :=
  List.Nodup.map_on (fun _ hx _ hy heq => (hknown _ hx).ext (hknown _ hy) heq) hnodup

/-- The coins that a transaction may spend: those that are available and those that are chosen. -/
def Candidate (av : w.Available) (selected : List COutPoint) (coin : WalletCoin) : Prop :=
  coin ∈ av.vCoins.map COutput.coin ∨ (w.Known coin ∧ outPoint coin ∈ selected)

lemma Candidate.known (h : Candidate av selected coin) : w.Known coin := by
  rcases h with h | h
  · obtain ⟨out, hout, rfl⟩ := List.mem_map.mp h
    exact av.known out hout
  · exact h.1

/-- All that may be spent is worth less than an amount can hold. -/
def FundsFit (av : w.Available) (selected : List COutPoint) : Prop :=
  ∀ coins : List WalletCoin, coins.Nodup → (∀ coin ∈ coins, Candidate av selected coin) →
    (coins.map coinValue).sum < 2 ^ 63

lemma FundsFit.fit (h : FundsFit av selected) (hnodup : coins.Nodup)
    (hcand : ∀ coin ∈ coins, Candidate av selected coin) : Fit (coins.map coinValue) :=
  ⟨List.forall_mem_map.mpr fun coin hc => (hcand coin hc).known.value.1, h coins hnodup hcand⟩

/-! ### Preset inputs -/

lemma presets_holds (hfunds : FundsFit av selected) (hnodup : selected.Nodup)
    (h : w.presets selected = some p) : ∃ coins, p.Holds coins ∧
      (coins.map outPoint).reverse = selected ∧ ∀ coin ∈ coins, w.Known coin := by
  suffices ∀ l : List COutPoint, ∀ q, l <+: selected → w.presets l = some q → ∃ coins,
      q.Holds coins ∧ (coins.map outPoint).reverse = l ∧ ∀ coin ∈ coins, w.Known coin from
    this selected p List.prefix_rfl h
  intro l
  induction l using List.reverseRecOn with
  | nil =>
    intro q _ hq
    obtain rfl : Selection.empty = q := by simpa [presets] using hq
    exact ⟨[], ⟨.rfl, rfl⟩, rfl, nofun⟩
  | append_singleton l o ih =>
    intro q hpre hq
    rw [presets, List.foldlM_append] at hq
    obtain ⟨q', hq', hstep⟩ := Option.bind_eq_some_iff.mp hq
    obtain ⟨coins, hholds, hout, hknown⟩ := ih q' ((List.prefix_append l [o]).trans hpre) hq'
    have hadd : w.addPreset q' o = some q := by simpa using hstep
    rw [addPreset] at hadd
    cases hmap : w.mapWallet o.hash with
    | none => simp [hmap] at hadd
    | some tx =>
      rw [hmap] at hadd
      dsimp only at hadd
      split_ifs at hadd with hlen
      obtain rfl : q'.add (tx, o.n) = q := by simpa using hadd
      have hpoint : outPoint (tx, o.n) = o := by
        rw [outPoint, w.hash_eq hmap]
      have hnew : w.Known (tx, o.n) := by
        refine ⟨?_, not_le.mp hlen⟩
        rw [w.hash_eq hmap]
        exact hmap
      have hlist : (((tx, o.n) :: coins).map outPoint).reverse = l ++ [o] := by
        rw [List.map_cons, List.reverse_cons, hout, hpoint]
      have hknown' : ∀ coin ∈ (tx, o.n) :: coins, w.Known coin :=
        List.forall_mem_cons.mpr ⟨hnew, hknown⟩
      have hnodup' : ((tx, o.n) :: coins).Nodup := by
        have hsub := hpre.sublist.nodup hnodup
        rw [← hlist, List.nodup_reverse] at hsub
        exact hsub.of_map outPoint
      have hfit := hfunds.fit hnodup' fun coin hc => .inr ⟨hknown' coin hc, by
        refine hpre.subset ?_
        rw [← hlist, List.mem_reverse]
        exact List.mem_map_of_mem hc⟩
      have hsum := hfit.sum_lt
      have hpos := List.sum_nonneg hfit.nonneg
      rw [List.map_cons, List.sum_cons, add_comm, ← hholds.value] at hsum hpos
      refine ⟨_, hholds.add (List.nodup_cons.mp hnodup').1 hpos hsum, hlist, hknown'⟩

/-! ### The selection -/

/-- A set of these coins that is worth the target, with its value. -/
structure Pays (nTargetValue : ℤ) (P : WalletCoin → Prop) (sel : Selection) : Prop where
  nodup : sel.setCoinsRet.Nodup
  mem : ∀ coin ∈ sel.setCoinsRet, P coin
  value : sel.nValueRet = (sel.setCoinsRet.map coinValue).sum
  reach : nTargetValue ≤ sel.nValueRet

lemma pays_of_selects {outs : List COutput} {r : Bool × Selection} (h : Selects nTargetValue outs r)
    (hr : r.1 = true) : Pays nTargetValue (· ∈ outs.map COutput.coin) r.2 := by
  obtain ⟨hnodup, hmem, hvalue, hreach⟩ := h.sound hr
  exact ⟨hnodup, hmem, hvalue.symm, hreach⟩

lemma selectConfirmed_pays (hcoins : Coins vCoins) (hmax : ∀ out ∈ vCoins, out.value < 2 ^ 63 - 1)
    (hpos : 0 < nTargetValue) (hfits : nTargetValue + CENT < 2 ^ 63)
    (hr : (w.selectConfirmed nTargetValue vCoins chance).1 = true) :
    Pays nTargetValue (· ∈ vCoins.map COutput.coin)
      (w.selectConfirmed nTargetValue vCoins chance).2 := by
  have hone : ∀ nConfMine nConfTheirs c,
      (selectCoinsMinConf nTargetValue nConfMine nConfTheirs vCoins c).1 = true →
      Pays nTargetValue (· ∈ vCoins.map COutput.coin)
        (selectCoinsMinConf nTargetValue nConfMine nConfTheirs vCoins c).2 := by
    intro nConfMine nConfTheirs c hc
    have hsub := List.filter_sublist (p := (·.eligible nConfMine nConfTheirs)) (l := vCoins)
    have hpays := pays_of_selects
      (selectCoinsMinConf_selects (hcoins.sublist hsub) hmax hpos hfits) hc
    exact ⟨hpays.nodup, fun coin hm => (hsub.map _).subset (hpays.mem coin hm), hpays.value,
      hpays.reach⟩
  unfold selectConfirmed at hr ⊢
  dsimp only at hr ⊢
  split_ifs at hr ⊢ with h1 h2 h3
  · exact hone 1 6 _ h1
  · exact hone 1 1 _ h2
  · exact hone 0 1 _ hr
  · exact absurd hr h2

lemma available_coins (hfunds : FundsFit av selected) (hsub : vCoins.Sublist av.vCoins) :
    Coins vCoins := by
  refine (Coins.mk av.nodup ?_).sublist hsub
  have hfit := hfunds.fit av.nodup fun _ hc => .inl hc
  rwa [List.map_map] at hfit

lemma presets_spec (hfunds : FundsFit av selected) (hnodup : selected.Nodup)
    (h : w.presets selected = some p) :
    Pays p.nValueRet (fun coin => w.Known coin ∧ outPoint coin ∈ selected) p ∧
      ∀ o ∈ selected, ∃ coin ∈ p.setCoinsRet, outPoint coin = o := by
  obtain ⟨coins, hholds, hout, hknown⟩ := presets_holds hfunds hnodup h
  have hmem : ∀ coin ∈ coins, outPoint coin ∈ selected := by
    intro coin hc
    rw [← hout, List.mem_reverse]
    exact List.mem_map_of_mem hc
  refine ⟨⟨?_, fun coin hc => ?_, ?_, le_rfl⟩, fun o ho => ?_⟩
  · refine hholds.perm.nodup_iff.mpr ?_
    rw [← hout, List.nodup_reverse] at hnodup
    exact hnodup.of_map outPoint
  · have hc := hholds.perm.mem_iff.mp hc
    exact ⟨hknown coin hc, hmem coin hc⟩
  · rw [hholds.value]
    exact ((hholds.perm.map coinValue).sum_eq).symm
  · rw [← hout, List.mem_reverse] at ho
    obtain ⟨coin, hc, rfl⟩ := List.mem_map.mp ho
    exact ⟨coin, hholds.perm.mem_iff.mpr hc, rfl⟩

lemma Pays.union {P Q R : WalletCoin → Prop} {q : Selection} {t t' : ℤ} (nTargetValue : ℤ)
    (hq : Pays t' Q q) (hp : Pays t P p) (hdisj : ∀ coin ∈ q.setCoinsRet, coin ∉ p.setCoinsRet)
    (hP : ∀ coin, P coin → R coin) (hQ : ∀ coin, Q coin → R coin)
    (hfit : ∀ coins : List WalletCoin, coins.Nodup → (∀ coin ∈ coins, R coin) →
      Fit (coins.map coinValue)) (hreach : nTargetValue ≤ q.nValueRet + p.nValueRet) :
    Pays nTargetValue R ⟨(q.addAll p.setCoinsRet).setCoinsRet,
      wrap 64 (q.nValueRet + p.nValueRet)⟩ ∧
    ∀ coin ∈ p.setCoinsRet, coin ∈ (q.addAll p.setCoinsRet).setCoinsRet := by
  have hnodup : (p.setCoinsRet ++ q.setCoinsRet).Nodup :=
    List.nodup_append'.mpr ⟨hp.nodup, hq.nodup, fun coin h h' => hdisj coin h' h⟩
  have hR : ∀ coin ∈ p.setCoinsRet ++ q.setCoinsRet, R coin := by
    intro coin hc
    rcases List.mem_append.mp hc with hc | hc
    · exact hP coin (hp.mem coin hc)
    · exact hQ coin (hq.mem coin hc)
  have hall := hfit _ hnodup hR
  have hsum := hall.sum_lt
  have hpfit := hfit _ hp.nodup fun coin hc => hP coin (hp.mem coin hc)
  have hqfit := hfit _ hq.nodup fun coin hc => hQ coin (hq.mem coin hc)
  have hp0 := List.sum_nonneg hpfit.nonneg
  have hq0 := List.sum_nonneg hqfit.nonneg
  rw [List.map_append, List.sum_append, ← hp.value, ← hq.value] at hsum
  rw [← hp.value] at hp0
  rw [← hq.value] at hq0
  have hself : q.Holds q.setCoinsRet := ⟨.rfl, hq.value⟩
  have hholds := hself.addAll hnodup
    (fun coin hc => hpfit.nonneg _ (List.mem_map_of_mem hc)) hq0 (by rw [← hp.value]; omega)
  have hperm := hholds.perm.trans ((List.reverse_perm p.setCoinsRet).append_right _)
  have hwrap : wrap 64 (q.nValueRet + p.nValueRet) = q.nValueRet + p.nValueRet :=
    wrap_of_fits (by omega) (by omega)
  refine ⟨⟨hperm.nodup_iff.mpr hnodup, fun coin hc => hR coin (hperm.mem_iff.mp hc), ?_, ?_⟩,
    fun coin hc => hperm.mem_iff.mpr (List.mem_append_left _ hc)⟩
  · show wrap 64 (q.nValueRet + p.nValueRet) = _
    rw [hwrap, (hperm.map coinValue).sum_eq, List.map_append, List.sum_append, ← hp.value,
      ← hq.value, add_comm]
  · show nTargetValue ≤ wrap 64 (q.nValueRet + p.nValueRet)
    rw [hwrap]
    exact hreach

lemma selectCoinsToSpend_pays {coinControl : Option CCoinControl}
    (hfunds : FundsFit av (coinControl.elim [] CCoinControl.setSelected))
    (hfits : nTargetValue + CENT < 2 ^ 63)
    (hr : (w.selectCoinsToSpend av.vCoins nTargetValue coinControl chance).1 = true) :
    Pays nTargetValue (Candidate av (coinControl.elim [] CCoinControl.setSelected))
      (w.selectCoinsToSpend av.vCoins nTargetValue coinControl chance).2 ∧
    ((coinControl.any fun c => !c.setSelected.isEmpty && !c.fAllowOtherInputs) = false →
      ∀ o ∈ coinControl.elim [] CCoinControl.setSelected,
        ∃ coin ∈ (w.selectCoinsToSpend av.vCoins nTargetValue coinControl chance).2.setCoinsRet,
          outPoint coin = o) := by
  have hnodup : (coinControl.elim [] CCoinControl.setSelected).Nodup := by
    cases coinControl with
    | none => exact List.nodup_nil
    | some c => exact c.nodup
  rw [selectCoinsToSpend] at hr ⊢
  split_ifs at hr ⊢ with honly
  · -- all that has been chosen is spent
    refine ⟨?_, fun hcon => absurd honly (by simp [hcon])⟩
    have hsub := List.filter_sublist (p := (·.fSpendable)) (l := av.vCoins)
    have hcoins := available_coins hfunds hsub
    have hholds := hcoins.addAll
    refine ⟨?_, fun coin hc => .inl ?_, ?_, of_decide_eq_true hr⟩
    · exact hholds.perm.nodup_iff.mpr (List.nodup_reverse.mpr hcoins.nodup)
    · exact (hsub.map _).subset (List.mem_reverse.mp (hholds.perm.mem_iff.mp hc))
    · rw [hholds.value]
      exact ((hholds.perm.map coinValue).sum_eq).symm
  · cases hpre : w.presets (coinControl.elim [] CCoinControl.setSelected) with
    | none => simp [hpre] at hr
    | some presets =>
      rw [hpre] at hr
      dsimp only at hr ⊢
      obtain ⟨hset, hpoints⟩ := presets_spec hfunds hnodup hpre
      have hpresets := hfunds.fit hset.nodup fun coin hc => .inr (hset.mem coin hc)
      have hpos := List.sum_nonneg hpresets.nonneg
      have hsum := hpresets.sum_lt
      rw [← hset.value] at hpos hsum
      split_ifs at hr ⊢ with hcover
      · -- the preset inputs are enough
        have hnone : Pays 0 (fun _ => False) Selection.empty :=
          ⟨List.nodup_nil, nofun, rfl, le_rfl⟩
        obtain ⟨hpays, hin⟩ := hnone.union nTargetValue hset nofun
          (fun _ h => .inr h) nofun (fun _ => hfunds.fit) (by simpa [Selection.empty] using hcover)
        refine ⟨hpays, fun _ o ho => ?_⟩
        obtain ⟨coin, hc, rfl⟩ := hpoints o ho
        exact ⟨coin, hin coin hc, rfl⟩
      · have hCENT : 0 < CENT := by decide
        rw [wrap_of_fits (by omega) (by omega)] at hr ⊢
        have hsub := List.filter_sublist
          (p := fun out : COutput => decide (out.coin ∉ presets.setCoinsRet)) (l := av.vCoins)
        have hmax : ∀ out ∈ av.vCoins, out.value < 2 ^ 63 - 1 := by
          intro out ho
          have hle := (av.known out ho).value.2
          rw [COutput.value]
          omega
        have hrest := selectConfirmed_pays (available_coins hfunds hsub)
          (fun out ho => hmax out (hsub.subset ho)) (by omega) (by omega) hr
        have hreach := hrest.reach
        have hdisj : ∀ coin ∈ (w.selectConfirmed (nTargetValue - presets.nValueRet)
            (av.vCoins.filter fun out => decide (out.coin ∉ presets.setCoinsRet))
            chance).2.setCoinsRet, coin ∉ presets.setCoinsRet := by
          intro coin hc
          obtain ⟨out, ho, rfl⟩ := List.mem_map.mp (hrest.mem coin hc)
          exact of_decide_eq_true (List.mem_filter.mp ho).2
        obtain ⟨hpays, hin⟩ := hrest.union nTargetValue hset hdisj (fun _ h => .inr h)
          (fun coin hc => .inl ((hsub.map _).subset hc)) (fun _ => hfunds.fit) (by omega)
        refine ⟨hpays, fun _ o ho => ?_⟩
        obtain ⟨coin, hc, rfl⟩ := hpoints o ho
        exact ⟨coin, hin coin hc, rfl⟩

end WalletTxs

end CWallet

end Agenor
