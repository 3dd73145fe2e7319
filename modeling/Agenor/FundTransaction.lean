import Agenor.CreateTransaction

/-!
Adding coins to a transaction that has outputs already (`CWallet::FundTransaction` of `wallet.cpp`).

A second transaction is made for the outputs, and what it has more is copied from it: its inputs,
and the output at the position of the change.
-/

namespace Agenor

open Lib Lib.Fallible Lib.Wrap

namespace CWallet

/-- The arguments of `FundTransaction`: the transaction, and how change and fee are to be. -/
structure FundArgs where
  vin : List CTxIn
  vout : List CTxOut
  overrideEstimatedFeeRate : Bool
  specificFeeRate : ℤ
  nChangePosRequest : ℤ
  destChange : Option CScript

/-- The transaction afterwards, and `nFeeRet`. -/
structure Funded where
  vin : List CTxIn
  vout : List CTxOut
  nFeeRet : ℤ

/-- How a call ends that does not return `true`. -/
inductive FundFault
  | failed (strFailReason : String)
  /-- The position of the change is not one of an output. -/
  | outOfRange
  deriving DecidableEq

namespace FundArgs

variable (f : FundArgs)

def coinControl : CCoinControl where
  destChange := f.destChange
  fSplitBlock := false
  nSplitBlock := 1
  fAllowOtherInputs := true
  nMinimumTotalFee := 0
  fOverrideFeeRate := f.overrideEstimatedFeeRate
  nFeeRate := f.specificFeeRate
  setSelected := (f.vin.map CTxIn.prevout).dedup
  nodup := List.nodup_dedup _

/-- The call of `CreateTransaction`. -/
def createArgs : CreateArgs where
  vecSend := f.vout.map fun txOut => ⟨txOut.scriptPubKey, txOut.nValue⟩
  nChangePosRequest := f.nChangePosRequest
  coinControl := some f.coinControl
  allCoins := true
  sign := false
  useIX := false
  nFeePay := 0

/-- What is copied from the second transaction. -/
def copyFrom (wtx : Created) : Except FundFault Funded := do
  let vout ←
    if wtx.nChangePosInOut = -1 then .ok f.vout
    else if 0 ≤ wtx.nChangePosInOut ∧ wtx.nChangePosInOut ≤ f.vout.length then
      match wtx.vout[wtx.nChangePosInOut.toNat]? with
      | some txout => .ok (f.vout.insertIdx wtx.nChangePosInOut.toNat txout)
      | none => .error .outOfRange
    else .error .outOfRange
  return ⟨f.vin ++ wtx.vin.filter fun txin => decide (txin.prevout ∉ f.coinControl.setSelected),
    vout, wtx.nFeeRet⟩

end FundArgs

/-- `FundTransaction`; `none` when the loop of `CreateTransaction` takes more rounds. -/
def fundTransaction (env : CreateEnv) (w : WalletTxs) (vAvailableCoins : List COutput)
    (f : FundArgs) (rounds : ℕ) : Option (Except FundFault Funded) :=
  (createTransaction env w vAvailableCoins f.createArgs rounds).map fun r =>
    match r with
    | .error strFailReason => .error (.failed strFailReason)
    | .ok wtx => f.copyFrom wtx

/-! ### What it is to do -/

/-- The value of the output that an input spends. -/
def inputValue (w : WalletTxs) (o : COutPoint) : ℤ :=
  (w.mapWallet o.hash).elim 0 fun pcoin => coinValue (pcoin, o.n)

/-- The outputs are the original ones and at most one more, the original inputs come first, and what
the inputs are worth beyond the outputs is the fee. -/
structure FundsWell (w : WalletTxs) (f : FundArgs) (r : Funded) : Prop where
  outputs : r.vout = f.vout ∨ ∃ i o, i ≤ f.vout.length ∧ r.vout = f.vout.insertIdx i o
  inputs : f.vin <+: r.vin
  value : (r.vin.map fun txin => inputValue w txin.prevout).sum - valueOf r.vout = r.nFeeRet

/-- The preset inputs are different coins of the wallet. -/
structure FundArgs.Presets (w : WalletTxs) (f : FundArgs) : Prop where
  nodup : (f.vin.map CTxIn.prevout).Nodup
  known : ∀ txin ∈ f.vin, ∃ coin, w.Known coin ∧ WalletTxs.outPoint coin = txin.prevout

/-- When what is copied is the change: there is change that is not merged with an output; or there
is none, and no position was asked for; or the output that stands at the position (after the change
has been merged) happens to be worth the change. -/
def ChangeKept (f : FundArgs) (nChange : ℤ) : Prop :=
  let merged := f.destChange.bind fun script => mergeChange script nChange f.vout
  (0 < nChange ∧ merged = none) ∨
  (nChange = 0 ∧ f.nChangePosRequest = -1) ∨
  (0 ≤ f.nChangePosRequest ∧ ∃ txout,
    (if 0 < nChange then merged.getD f.vout else f.vout)[f.nChangePosRequest.toNat]? = some txout ∧
      txout.nValue = nChange)

/-- The loop ends in a round that starts with this state, and the change of that round. -/
structure EndsWith (env : CreateEnv) (w : WalletTxs) (vAvailableCoins : List COutput)
    (a : CreateArgs) (nValue : ℤ) (n : ℕ) (s : FeeLoop) (wtx : Created) : Prop where
  total : CreateArgs.total a.vecSend 0 = some nValue
  reaches : Reaches env w vAvailableCoins a nValue n s
  round : ∃ s', feeRound env w vAvailableCoins a nValue (env.round n) s = .ok (.inr (s', wtx))

variable {env : CreateEnv} {w : WalletTxs} {av : w.Available} {f : FundArgs} {wtx : Created}
variable {a : CreateArgs} {vAvailableCoins : List COutput} {nValue nChange : ℤ} {n rounds : ℕ}
variable {s : FeeLoop} {coins : List WalletCoin}

/-! ### The second transaction -/

lemma feeLoop_endsWith (htotal : CreateArgs.total a.vecSend 0 = some nValue)
    (h : Reaches env w vAvailableCoins a nValue n s)
    (hr : feeLoop env w vAvailableCoins a nValue rounds n s = some (.ok wtx)) :
    ∃ n s, EndsWith env w vAvailableCoins a nValue n s wtx := by
  obtain ⟨n, s, s', hreach, hfee⟩ := feeLoop_ends h hr
  exact ⟨n, s, htotal, hreach, s', hfee⟩

lemma createTransaction_endsWith
    (h : createTransaction env w vAvailableCoins a rounds = some (.ok wtx)) :
    ∃ nValue n s, EndsWith env w vAvailableCoins a nValue n s wtx := by
  rw [createTransaction] at h
  cases htotal : CreateArgs.total a.vecSend 0 with
  | none => simp [htotal] at h
  | some nValue =>
    simp only [htotal] at h
    split_ifs at h
    · simp at h
    · exact ⟨nValue, feeLoop_endsWith htotal .start h⟩

lemma loop_payee {minRelayTxFee : ℤ} {vout l l' : List CTxOut}
    (h : loop (CreateArgs.payee minRelayTxFee) l
      (vout.map fun txOut => ⟨txOut.scriptPubKey, txOut.nValue⟩) = .ok l') : l' = l ++ vout := by
  induction vout generalizing l with
  | nil =>
    obtain rfl : l = l' := by simpa using h
    exact (List.append_nil l).symm
  | cons o vout ih =>
    simp only [List.map_cons, loop_cons, bind_eq_ok] at h
    obtain ⟨t, ht, hrest⟩ := h
    rw [CreateArgs.payee] at ht
    split_ifs at ht
    obtain rfl : l ++ [o] = t := by simpa using ht
    rw [ih hrest, List.append_assoc, List.singleton_append]

lemma payees_eq {minRelayTxFee : ℤ} {l : List CTxOut}
    (h : f.createArgs.payees minRelayTxFee = .ok l) : l = f.vout := by
  have hloop : loop (CreateArgs.payee minRelayTxFee) []
      (f.vout.map fun txOut => ⟨txOut.scriptPubKey, txOut.nValue⟩) = .ok l := h
  rw [loop_payee hloop, List.nil_append]

lemma nonneg_of_total {vecSend : List CRecipient} {v nValue : ℤ}
    (h : CreateArgs.total vecSend v = some nValue) : ∀ rec ∈ vecSend, 0 ≤ rec.nAmount := by
  induction vecSend generalizing v with
  | nil => nofun
  | cons rec vecSend ih =>
    rw [CreateArgs.total] at h
    split_ifs at h with hneg
    exact List.forall_mem_cons.mpr ⟨not_lt.mp hneg, ih h⟩

/-! ### The inputs -/

lemma inputValue_outPoint {coin : WalletCoin} (h : w.Known coin) :
    inputValue w (WalletTxs.outPoint coin) = coinValue coin := by
  rw [inputValue, WalletTxs.outPoint, h.1]
  rfl

lemma sum_inputs (hpre : f.Presets w) (hknown : ∀ coin ∈ coins, w.Known coin)
    (hnodup : coins.Nodup) (hvin : wtx.vin.map CTxIn.prevout = coins.map WalletTxs.outPoint)
    (hin : ∀ o ∈ f.createArgs.selected, ∃ coin ∈ coins, WalletTxs.outPoint coin = o) :
    ((f.vin ++ wtx.vin.filter fun txin =>
      decide (txin.prevout ∉ f.coinControl.setSelected)).map fun txin =>
        inputValue w txin.prevout).sum = (coins.map coinValue).sum := by
  have hsel : ∀ o, o ∈ f.coinControl.setSelected ↔ o ∈ f.vin.map CTxIn.prevout :=
    fun o => List.mem_dedup
  have hpoints := WalletTxs.nodup_outPoint hknown hnodup
  -- the preset inputs are the selected ones among the coins
  have hperm : ((coins.map WalletTxs.outPoint).filter fun o =>
      decide (o ∈ f.coinControl.setSelected)).Perm (f.vin.map CTxIn.prevout) := by
    rw [List.perm_ext_iff_of_nodup (hpoints.filter _) hpre.nodup]
    intro o
    rw [List.mem_filter, decide_eq_true_iff, hsel, and_iff_right_iff_imp]
    intro ho
    obtain ⟨coin, hc, rfl⟩ := hin o ((hsel o).mpr ho)
    exact List.mem_map_of_mem hc
  have hrest : (wtx.vin.filter fun txin =>
      decide (txin.prevout ∉ f.coinControl.setSelected)).map CTxIn.prevout =
        (coins.map WalletTxs.outPoint).filter fun o =>
          !decide (o ∈ f.coinControl.setSelected) := by
    rw [← hvin, List.filter_map]
    simp [Function.comp_def]
  have hall : ((f.vin ++ wtx.vin.filter fun txin =>
      decide (txin.prevout ∉ f.coinControl.setSelected)).map CTxIn.prevout).Perm
        (coins.map WalletTxs.outPoint) := by
    rw [List.map_append, hrest]
    exact (hperm.symm.append_right _).trans (List.filter_append_perm _ _)
  have hsum := (hall.map (inputValue w)).sum_eq
  rw [List.map_map, List.map_map] at hsum
  refine hsum.trans (congrArg List.sum (List.map_congr_left fun coin hc => ?_))
  exact inputValue_outPoint (hknown coin hc)

/-! ### What is copied -/

/-- The transaction with these outputs. -/
def FundArgs.fundedWith (f : FundArgs) (wtx : Created) (vout : List CTxOut) : Funded :=
  ⟨f.vin ++ wtx.vin.filter fun txin => decide (txin.prevout ∉ f.coinControl.setSelected),
    vout, wtx.nFeeRet⟩

variable {nValueIn : ℤ}

lemma fundsWell_same (hin : ((f.fundedWith wtx f.vout).vin.map fun txin =>
      inputValue w txin.prevout).sum = nValueIn) :
    FundsWell w f (f.fundedWith wtx f.vout) ↔ nValueIn - valueOf f.vout = wtx.nFeeRet := by
  refine ⟨fun h => ?_, fun h => ⟨.inl rfl, List.prefix_append _ _, ?_⟩⟩
  · rw [← hin]
    exact h.value
  · rw [hin]
    exact h

lemma fundsWell_insert {i : ℕ} {o : CTxOut} (hi : i ≤ f.vout.length)
    (hin : ((f.fundedWith wtx (f.vout.insertIdx i o)).vin.map fun txin =>
      inputValue w txin.prevout).sum = nValueIn) :
    FundsWell w f (f.fundedWith wtx (f.vout.insertIdx i o)) ↔
      nValueIn - (o.nValue + valueOf f.vout) = wtx.nFeeRet := by
  have hvalue := valueOf_insertIdx (o := o) hi
  refine ⟨fun h => ?_, fun h => ⟨.inr ⟨i, o, hi, rfl⟩, List.prefix_append _ _, ?_⟩⟩
  · rw [← hin, ← hvalue]
    exact h.value
  · rw [hin]
    show nValueIn - valueOf (f.vout.insertIdx i o) = wtx.nFeeRet
    rw [hvalue]
    exact h

lemma copyFrom_position (hpos : wtx.nChangePosInOut ≠ -1)
    (hlen : wtx.vout.length = f.vout.length)
    (hin : ∀ vout, ((f.fundedWith wtx vout).vin.map fun txin =>
      inputValue w txin.prevout).sum = nValueIn) :
    (∃ r, f.copyFrom wtx = .ok r ∧ FundsWell w f r) ↔
      0 ≤ wtx.nChangePosInOut ∧ ∃ txout, wtx.vout[wtx.nChangePosInOut.toNat]? = some txout ∧
        nValueIn - (txout.nValue + valueOf f.vout) = wtx.nFeeRet := by
  rw [FundArgs.copyFrom, if_neg hpos]
  by_cases hrange : 0 ≤ wtx.nChangePosInOut ∧ wtx.nChangePosInOut ≤ f.vout.length
  · rw [if_pos hrange]
    have hi : wtx.nChangePosInOut.toNat ≤ f.vout.length := by omega
    cases hget : wtx.vout[wtx.nChangePosInOut.toNat]? with
    | none =>
      refine ⟨fun ⟨r, hr, _⟩ => ?_, fun ⟨_, txout, h, _⟩ => nomatch h⟩
      cases hr
    | some txout =>
      have hcopied := fundsWell_insert (o := txout) hi (hin _)
      constructor
      · rintro ⟨r, hr, hwell⟩
        obtain rfl := Except.ok.inj hr
        exact ⟨hrange.1, txout, rfl, hcopied.mp hwell⟩
      · rintro ⟨-, txout', h, hvalue⟩
        obtain rfl := Option.some.inj h
        exact ⟨_, rfl, hcopied.mpr hvalue⟩
  · rw [if_neg hrange]
    refine ⟨fun ⟨r, hr, _⟩ => ?_, fun ⟨h0, txout, hget, _⟩ => ?_⟩
    · cases hr
    · obtain ⟨hlt, -⟩ := List.getElem?_eq_some_iff.mp hget
      exact absurd ⟨h0, by omega⟩ hrange

lemma copyFrom_none (hpos : wtx.nChangePosInOut = -1)
    (hin : ∀ vout, ((f.fundedWith wtx vout).vin.map fun txin =>
      inputValue w txin.prevout).sum = nValueIn) :
    (∃ r, f.copyFrom wtx = .ok r ∧ FundsWell w f r) ↔ nValueIn - valueOf f.vout = wtx.nFeeRet := by
  rw [FundArgs.copyFrom, if_pos hpos, ← fundsWell_same (hin _)]
  refine ⟨fun ⟨r, hr, hwell⟩ => ?_, fun h => ⟨_, rfl, h⟩⟩
  obtain rfl := Except.ok.inj hr
  exact hwell

lemma copyFrom_iff {d d' : Draft} {minRelayTxFee : ℤ}
    (hplaced : Placed minRelayTxFee f.destChange nChange d d') (hd : d.vout = f.vout)
    (hrequest : d.nChangePosInOut = f.nChangePosRequest) (hvout : wtx.vout = d'.vout)
    (hposition : wtx.nChangePosInOut = d'.nChangePosInOut) (hfee : wtx.nFeeRet = d'.loop.nFeeRet)
    (hpos : 0 ≤ nChange) (hfeeFits : wrap 64 (d.loop.nFeeRet + nChange) = d.loop.nFeeRet + nChange)
    (hchange : nValueIn - valueOf f.vout - d.loop.nFeeRet = nChange)
    (hin : ∀ vout, ((f.fundedWith wtx vout).vin.map fun txin =>
      inputValue w txin.prevout).sum = nValueIn) :
    (∃ r, f.copyFrom wtx = .ok r ∧ FundsWell w f r) ↔ ChangeKept f nChange := by
  have hmerged : (∀ script, f.destChange = some script →
      mergeChange script nChange f.vout = none) →
      (f.destChange.bind fun script => mergeChange script nChange f.vout) = none := by
    intro h
    cases hdest : f.destChange with
    | none => rfl
    | some script => exact h script hdest
  cases hplaced with
  | nothing hle =>
    obtain rfl : nChange = 0 := by omega
    rw [hrequest] at hposition
    by_cases hneg : f.nChangePosRequest = -1
    · rw [copyFrom_none (hposition.trans hneg) hin]
      exact iff_of_true (by omega) (.inr (.inl ⟨rfl, hneg⟩))
    · rw [copyFrom_position (by rwa [hposition]) (by rw [hvout, hd]) hin, hposition, hvout, hd,
        ChangeKept]
      simp only [lt_irrefl, false_and, false_or, hneg, and_false, if_false]
      refine and_congr_right fun _ => exists_congr fun txout => and_congr_right fun _ => ?_
      omega
  | @merged script vout s' hlt hdest hmerge hfeeEq =>
    have hlen : vout.length = f.vout.length := by
      obtain ⟨pre, o, post, hl, -, rfl⟩ := mergeChange_eq_some hmerge
      rw [← hd, hl]
      simp
    have hbind : (f.destChange.bind fun script => mergeChange script nChange f.vout) =
        some vout := by
      rw [hdest, ← hd]
      exact hmerge
    dsimp only at hvout hposition hfee
    rw [hrequest] at hposition
    by_cases hneg : f.nChangePosRequest = -1
    · rw [copyFrom_none (hposition.trans hneg) hin]
      refine iff_of_false (by omega) ?_
      rintro (⟨-, hnone⟩ | ⟨hzero, -⟩ | ⟨h0, -⟩)
      · rw [hbind] at hnone
        cases hnone
      · omega
      · omega
    · rw [copyFrom_position (by rwa [hposition]) (by rw [hvout, hlen]) hin, hposition, hvout,
        ChangeKept, hbind]
      simp only [reduceCtorEq, and_false, false_or, hlt.ne', false_and, if_pos hlt,
        Option.getD_some]
      refine and_congr_right fun _ => exists_congr fun txout => and_congr_right fun _ => ?_
      omega
  | dust hlt hnone hfeeEq =>
    rw [hd] at hnone
    dsimp only at hfee hposition
    rw [copyFrom_none hposition hin]
    exact iff_of_true (by omega) (.inl ⟨hlt, hmerged hnone⟩)
  | @inserted i o s' hlt hnone hi ho hfeeEq _ =>
    rw [hd] at hnone hi
    dsimp only at hfee hposition hvout
    refine iff_of_true ?_ (.inl ⟨hlt, hmerged hnone⟩)
    have hget : wtx.vout[i]? = some o := by
      rw [hvout, hd, List.getElem?_insertIdx_self, if_pos hi]
    have hcopied := (fundsWell_insert (o := o) hi (hin _)).mpr (by omega)
    refine ⟨f.fundedWith wtx (f.vout.insertIdx i o), ?_, hcopied⟩
    rw [FundArgs.copyFrom, hposition, if_neg (by omega), if_pos (by omega), Int.toNat_natCast, hget]
    rfl

namespace ThreeCoins

/-- An output, to be funded with change to this script. -/
def toFund (out : CTxOut) (nChangePosRequest : ℤ) (destChange : CScript) : FundArgs :=
  ⟨[], [out], false, 0, nChangePosRequest, some destChange⟩

/-- A script that pays to the hash of a key. -/
def payToKeyHash : CScript :=
  [0x76, 0xa9, 20] ++ (List.replicate 20 7 ++ [0x88, 0xac])

end ThreeCoins

end CWallet

end Agenor
