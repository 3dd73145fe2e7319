import Agenor.ConnectBlock

/-!
What one pass of the loop of `ConnectBlock` does, said once: `connectTx_eq_ok`. Everything that
is proved about connected blocks uses this lemma and the sums along a run, not the code of the
loop.
-/

namespace Agenor

open Lib.Wrap Lib.Fallible

variable {env : ConnectEnv} {s s' : ConnectLoop} {tx : CTransaction}

/-! ### The kinds of transactions -/

namespace CTransaction

lemma not_coinBase_of_spend (h : tx.hasZerocoinSpendInputs = true) : tx.isCoinBase = false := by
  unfold isCoinBase
  split
  · simp [containsZerocoins, h]
  · rfl

end CTransaction

/-! ### The amounts that the code counts -/

namespace ConnectEnv

/-- The denomination of a zerocoin input, in the smallest units. -/
def denominationOf (env : ConnectEnv) (tx : CTransaction) (txin : CTxIn) : ℤ :=
  match env.spendOf tx txin with
  | .ok spend => spend.denomination.toInt * COIN
  | .error _ => 0

/-- The denominations of the zerocoin inputs, each counted once. -/
def redeemed (env : ConnectEnv) (tx : CTransaction) : ℤ :=
  ((tx.vin.filter (·.isAnyZerocoinSpend)).map (env.denominationOf tx)).sum

/-- What a transaction adds to `nValueIn`. -/
def countedIn (env : ConnectEnv) (v : CCoinsViewCache) (tx : CTransaction) : ℤ :=
  if tx.isCoinBase then 0
  else if tx.hasZerocoinSpendInputs then env.redeemed tx + tx.getZerocoinSpent
  else v.coins.valueOf tx.vin

/-- What a transaction adds to `nFees`. -/
def countedFee (v : CCoinsViewCache) (tx : CTransaction) : ℤ :=
  if tx.isCoinBase || tx.isCoinStake then 0
  else (if tx.hasZerocoinSpendInputs then tx.getZerocoinSpent else v.coins.valueOf tx.vin)
    - tx.valueOut

/-- **What one pass of the loop does.** -/
structure Connected (env : ConnectEnv) (s : ConnectLoop) (tx : CTransaction) (i : ℕ)
    (s' : ConnectLoop) : Prop where
  nValueOut : s'.nValueOut = int64 (s.nValueOut + tx.valueOut)
  nValueIn : int64 s'.nValueIn = int64 (s.nValueIn + env.countedIn s.view tx)
  nFees : int64 s'.nFees = int64 (s.nFees + countedFee s.view tx)
  update : ∃ v txundo, CCoinsViewCache.Reads s.view v ∧
    v.updateCoins tx env.pindex.nHeight = .ok (txundo, s'.view) ∧
    s'.vtxundo = if i = 0 then s.vtxundo else s.vtxundo ++ [txundo]
  inputs : tx.isCoinBase = false → tx.hasZerocoinSpendInputs = false →
    (∀ txin ∈ tx.vin, (s.view.coins txin.prevout).isSome) ∧
      (∀ txin ∈ tx.vin, 0 ≤ s.view.coins.value txin.prevout) ∧
      s.view.coins.valueOf tx.vin ≤ env.node.params.nMaxMoneyOut ∧
      (tx.isCoinStake = false → tx.valueOut ≤ s.view.coins.valueOf tx.vin)
  spends : tx.hasZerocoinSpendInputs = true → ∀ txin ∈ tx.vin, txin.isAnyZerocoinSpend = true →
    (∃ spend, env.spendOf tx txin = .ok spend) ∧
      checkPublicCoinSpendEnforced env.node.params env.pindex.nHeight txin.isZerocoinPublicSpend
        = true
  mints : tx.hasZerocoinMintOutputs = true → ∀ out ∈ tx.vout, out.isZerocoinMint = true →
    ∃ coin, txOutToPublicCoin out = .ok coin

/-! ### The stages of a pass -/

lemma connectMint_eq_ok {vMints vMints' : List (PublicCoin × Uint256)} {out : CTxOut}
    (h : connectMint tx vMints out = .ok vMints') (hm : out.isZerocoinMint = true) :
    ∃ coin, txOutToPublicCoin out = .ok coin := by
  simp only [connectMint, hm, Bool.not_true, Bool.false_eq_true, if_false] at h
  split at h
  · cases h
  · next coin hc => exact ⟨coin, hc⟩

lemma connectMints_eq_ok (h : env.connectMints s tx = .ok s') :
    (∃ vMints, s' = { s with vMints }) ∧
      (tx.hasZerocoinMintOutputs = true → ∀ out ∈ tx.vout, out.isZerocoinMint = true →
        ∃ coin, txOutToPublicCoin out = .ok coin) := by
  unfold connectMints at h
  split at h
  · simp only [bind_eq_ok, pure_eq_ok] at h
    obtain ⟨-, -, vMints, hl, rfl⟩ := h
    refine ⟨⟨vMints, rfl⟩, ?_⟩
    intro _ out hout hm
    obtain ⟨t, t', hstep⟩ := loop_forall hl hout
    exact connectMint_eq_ok hstep hm
  · next hno =>
    cases h
    exact ⟨⟨s.vMints, rfl⟩, fun hyes => absurd hyes hno⟩

lemma connectSpend_eq_ok {txin : CTxIn} (h : env.connectSpend tx s txin = .ok s') :
    txin.isAnyZerocoinSpend = false ∧ s' = s ∨
      ∃ spend, txin.isAnyZerocoinSpend = true ∧ env.spendOf tx txin = .ok spend ∧
        checkPublicCoinSpendEnforced env.node.params env.pindex.nHeight
          txin.isZerocoinPublicSpend = true ∧
        s' = { s with
          nValueIn := int64 (s.nValueIn + env.denominationOf tx txin)
          vSpends := s.vSpends ++ [(spend, tx.hash)] } := by
  unfold connectSpend at h
  split at h
  · next hz =>
    refine .inl ⟨?_, (pure_eq_ok.mp h).symm⟩
    simpa [CTxIn.isAnyZerocoinSpend] using hz
  · next hz =>
    simp only [bind_eq_ok, failIf_eq_ok, pure_eq_ok, Bool.not_eq_eq_eq_not, Bool.not_false] at h
    obtain ⟨-, henf, spend, hs, -, -, rfl⟩ := h
    refine .inr ⟨spend, ?_, hs, henf, by simp [denominationOf, hs]⟩
    rw [CTxIn.isAnyZerocoinSpend, Bool.or_eq_true]
    by_contra hno
    simp_all

lemma connectSpendLoop_eq_ok {vin : List CTxIn} (h : loop (env.connectSpend tx) s vin = .ok s') :
    (∃ vSpends nValueIn, s' = { s with vSpends, nValueIn } ∧
      int64 nValueIn = int64 (s.nValueIn
        + ((vin.filter (·.isAnyZerocoinSpend)).map (env.denominationOf tx)).sum)) ∧
    ∀ txin ∈ vin, txin.isAnyZerocoinSpend = true →
      (∃ spend, env.spendOf tx txin = .ok spend) ∧
        checkPublicCoinSpendEnforced env.node.params env.pindex.nHeight
          txin.isZerocoinPublicSpend = true := by
  induction vin generalizing s with
  | nil =>
    simp only [loop_nil, Except.ok.injEq] at h
    exact ⟨⟨s.vSpends, s.nValueIn, by rw [← h], by simp⟩, by simp⟩
  | cons txin vin ih =>
    simp only [loop_cons, bind_eq_ok] at h
    obtain ⟨s₁, h1, h⟩ := h
    obtain ⟨⟨vSpends, nValueIn, rfl, hval⟩, hall⟩ := ih h
    rcases connectSpend_eq_ok h1 with ⟨hz, rfl⟩ | ⟨spend, hz, hs, henf, rfl⟩
    · refine ⟨⟨vSpends, nValueIn, rfl, by simpa [hz] using hval⟩, ?_⟩
      intro t ht htz
      rcases List.mem_cons.mp ht with rfl | ht
      · rw [hz] at htz
        cases htz
      · exact hall t ht htz
    · refine ⟨⟨vSpends, nValueIn, rfl, by simpa [hz, add_assoc] using hval⟩, ?_⟩
      intro t ht htz
      rcases List.mem_cons.mp ht with rfl | ht
      · exact ⟨⟨spend, hs⟩, henf⟩
      · exact hall t ht htz

lemma connectSpends_eq_ok (h : env.connectSpends s tx = .ok s') :
    loop (env.connectSpend tx) s tx.vin = .ok s' := by
  unfold connectSpends at h
  cases ht : env.node.isTransactionInChain tx.hash with
  | none => simpa [ht] using h
  | some n =>
    simp only [ht, bind_eq_ok] at h
    obtain ⟨-, -, h⟩ := h
    exact h

lemma reads_p2shSigOpsFrom (v : CCoinsViewCache) (n : ℕ) (vin : List CTxIn) :
    CCoinsViewCache.Reads v (p2shSigOpsFrom v n vin).2 := by
  induction vin generalizing v n with
  | nil => exact .refl v
  | cons txin vin ih =>
    exact (CCoinsViewCache.reads_accessCoin v txin.prevout).trans (ih _ _)

lemma reads_getP2SHSigOpCount (v : CCoinsViewCache) (tx : CTransaction) :
    CCoinsViewCache.Reads v (getP2SHSigOpCount v tx).2 := by
  unfold getP2SHSigOpCount
  split
  · exact .refl v
  · exact reads_p2shSigOpsFrom v 0 tx.vin

lemma connectOrdinary_eq_ok (hcb : tx.isCoinBase = false)
    (hz : tx.hasZerocoinSpendInputs = false) (h : env.connectOrdinary s tx = .ok s') :
    (∀ txin ∈ tx.vin, (s.view.coins txin.prevout).isSome) ∧
      ∃ nSigOps view, CCoinsViewCache.Reads s.view view ∧ s' = { s with nSigOps, view } := by
  simp only [connectOrdinary, bind_eq_ok, failIf_eq_ok, pure_eq_ok, Bool.not_eq_eq_eq_not,
    Bool.not_false] at h
  obtain ⟨-, hhave, -, -, -, -, rfl⟩ := h
  refine ⟨?_, _, _, ?_, rfl⟩
  · have := (CCoinsViewCache.haveAll_spec s.view tx.vin).1
    simp only [CCoinsViewCache.haveInputs, hcb, hz, Bool.not_false, Bool.and_self, if_true,
      this, List.all_eq_true] at hhave
    exact hhave
  · exact (CCoinsViewCache.reads_haveInputs s.view tx).trans (reads_getP2SHSigOpCount _ tx)

/-! ### The checks of the inputs -/

lemma checkTxInputs_loop {consensus : ChainParams} {h acc acc' : ℤ} {v v' : CCoinsViewCache}
    {vin : List CTxIn} (hm : consensus.MoneyOk) (h0 : 0 ≤ acc)
    (h1 : acc ≤ 10 ^ 16) (hl : loop (checkTxInput consensus h) (acc, v) vin = .ok (acc', v')) :
    CCoinsViewCache.Reads v v' ∧ acc' = acc + v.coins.valueOf vin ∧
      (∀ txin ∈ vin, 0 ≤ v.coins.value txin.prevout) ∧
      (acc ≤ consensus.nMaxMoneyOut → acc' ≤ consensus.nMaxMoneyOut) := by
  induction vin generalizing acc v with
  | nil =>
    simp only [loop_nil, Except.ok.injEq, Prod.mk.injEq] at hl
    obtain ⟨rfl, rfl⟩ := hl
    exact ⟨.refl v, by simp [UtxoSet.valueOf], by simp, id⟩
  | cons txin vin ih =>
    simp only [loop_cons, bind_eq_ok] at hl
    obtain ⟨⟨acc₁, v₁⟩, hi, hl⟩ := hl
    simp only [checkTxInput, bind_eq_ok, failIf_eq_ok, pure_eq_ok, Bool.or_eq_false_iff,
      Bool.not_eq_eq_eq_not, Bool.not_false, ChainParams.moneyRange, decide_eq_true_eq,
      Prod.mk.injEq] at hi
    obtain ⟨-, -, -, -, -, ⟨⟨hv0, hv1⟩, ha0, ha1⟩, hacc, rfl⟩ := hi
    have hr := CCoinsViewCache.reads_accessCoin v txin.prevout
    rw [CCoinsViewCache.accessCoin_nValue] at hv0 hv1 hacc ha0 ha1
    have hmax := hm.le
    have hw : int64 (acc + v.coins.value txin.prevout) = acc + v.coins.value txin.prevout :=
      int64_of_fits (by omega) (by omega)
    rw [hw] at hacc ha0 ha1
    obtain ⟨i1, i2, i3, i4⟩ := ih (by omega) (by omega) hl
    rw [hr.coins] at i2 i3
    refine ⟨hr.trans i1, ?_, ?_, fun _ => i4 (by omega)⟩
    · rw [i2, ← hacc]
      simp [UtxoSet.valueOf, add_assoc]
    · intro t ht
      rcases List.mem_cons.mp ht with rfl | ht
      · exact hv0
      · exact i3 t ht

lemma checkTxInputs_eq_ok {node : Node} {v v' : CCoinsViewCache} {h : ℤ}
    (hm : node.params.MoneyOk) (hc : CheckedTx node.params tx)
    (hi : checkTxInputs node tx v h = .ok v') :
    CCoinsViewCache.Reads v v' ∧ (∀ txin ∈ tx.vin, 0 ≤ v.coins.value txin.prevout) ∧
      v.coins.valueOf tx.vin ≤ node.params.nMaxMoneyOut ∧
      (tx.isCoinStake = false → tx.valueOut ≤ v.coins.valueOf tx.vin) := by
  have hr := CCoinsViewCache.reads_haveInputs v tx
  simp only [checkTxInputs, bind_eq_ok, Prod.exists] at hi
  obtain ⟨-, -, acc, v₁, hl, hi⟩ := hi
  obtain ⟨i1, i2, i3, i4⟩ := checkTxInputs_loop hm le_rfl (by norm_num) hl
  rw [hr.coins, zero_add] at i2
  rw [hr.coins] at i3
  have hle := i4 hm.nonneg
  rw [i2] at hle
  split at hi
  · next hcs =>
    simp only [bind_eq_ok, failIf_eq_ok, pure_eq_ok, decide_eq_false_iff_not, not_lt] at hi
    obtain ⟨n, hn, -, hin, -, -, -, -, rfl⟩ := hi
    refine ⟨hr.trans i1, i3, hle, ?_⟩
    intro _
    simp only [getValueOut, hc.getValueOut hm, Except.ok.injEq] at hn
    omega
  · next hcs =>
    simp only [pure_eq_ok] at hi
    subst hi
    refine ⟨hr.trans i1, i3, hle, ?_⟩
    intro hno
    simp [hno] at hcs

lemma reads_checkScripts {node : Node} {flags : ScriptFlags} {l : List (CTxIn × ℕ)}
    {r r' : Bool × CCoinsViewCache} (h : loop (checkScript node tx flags) r l = .ok r') :
    CCoinsViewCache.Reads r.2 r'.2 := by
  refine loop_inv (P := fun t => CCoinsViewCache.Reads r.2 t.2) h (.refl _) ?_
  intro p _ t t' ht hs
  refine ht.trans ?_
  simp only [checkScript, bind_eq_ok] at hs
  obtain ⟨-, -, hs⟩ := hs
  have hr := CCoinsViewCache.reads_accessCoin t.2 p.1.prevout
  split at hs
  · cases hs
    exact hr
  · split at hs
    · cases hs
      exact hr
    · simp [bind_eq_ok] at hs

lemma checkInputs_eq_ok {node : Node} {v : CCoinsViewCache} {scripts : Bool} {flags : ScriptFlags}
    {r : Bool × CCoinsViewCache} (hm : node.params.MoneyOk) (hc : CheckedTx node.params tx)
    (h : checkInputs node tx v scripts flags = .ok r) :
    CCoinsViewCache.Reads v r.2 ∧
      (tx.isCoinBase = false → tx.hasZerocoinSpendInputs = false →
        (∀ txin ∈ tx.vin, 0 ≤ v.coins.value txin.prevout) ∧
        v.coins.valueOf tx.vin ≤ node.params.nMaxMoneyOut ∧
        (tx.isCoinStake = false → tx.valueOut ≤ v.coins.valueOf tx.vin)) := by
  unfold checkInputs at h
  split at h
  · simp only [bind_eq_ok] at h
    obtain ⟨nSpendHeight, -, v₁, hi, h⟩ := h
    obtain ⟨hr, h1, h2, h3⟩ := checkTxInputs_eq_ok hm hc hi
    refine ⟨hr.trans ?_, fun _ _ => ⟨h1, h2, h3⟩⟩
    split at h
    · exact reads_checkScripts h
    · cases h
      exact .refl _
  · next hk =>
    cases h
    refine ⟨.refl v, ?_⟩
    intro h1 h2
    simp [h1, h2] at hk

/-! ### The whole pass -/

lemma connectKind_eq_ok (h : env.connectKind s tx = .ok s') :
    (∃ nSigOps view vSpends nValueIn, CCoinsViewCache.Reads s.view view ∧
      s' = { s with nSigOps, view, vSpends, nValueIn } ∧
      int64 nValueIn = int64 (s.nValueIn + if tx.hasZerocoinSpendInputs then env.redeemed tx else 0)) ∧
    (tx.isCoinBase = false → tx.hasZerocoinSpendInputs = false →
      ∀ txin ∈ tx.vin, (s.view.coins txin.prevout).isSome) ∧
    (tx.hasZerocoinSpendInputs = true → ∀ txin ∈ tx.vin, txin.isAnyZerocoinSpend = true →
      (∃ spend, env.spendOf tx txin = .ok spend) ∧
        checkPublicCoinSpendEnforced env.node.params env.pindex.nHeight
          txin.isZerocoinPublicSpend = true) := by
  unfold connectKind at h
  split at h
  · next hz =>
    obtain ⟨⟨vSpends, nValueIn, rfl, hval⟩, hall⟩ := connectSpendLoop_eq_ok (connectSpends_eq_ok h)
    refine ⟨⟨s.nSigOps, s.view, vSpends, nValueIn, .refl _, rfl, ?_⟩, ?_, fun _ => hall⟩
    · rw [if_pos hz]
      exact hval
    · intro _ hno
      rw [hz] at hno
      cases hno
  · next hz =>
    simp only [Bool.not_eq_true] at hz
    split at h
    · next hcb =>
      obtain ⟨hin, nSigOps, view, hr, rfl⟩ := connectOrdinary_eq_ok (by simpa using hcb) hz h
      exact ⟨⟨nSigOps, view, s.vSpends, s.nValueIn, hr, rfl, by simp [hz]⟩, fun _ _ => hin,
        by simp [hz]⟩
    · next hcb =>
      cases h
      exact ⟨⟨s.nSigOps, s.view, s.vSpends, s.nValueIn, .refl _, rfl, by simp [hz]⟩,
        fun hno => by simp [hno] at hcb, by simp [hz]⟩

lemma getValueIn_eq (v : CCoinsViewCache) (hcb : tx.isCoinBase = false) :
    int64 (v.getValueIn tx).1 = int64 (if tx.hasZerocoinSpendInputs then tx.getZerocoinSpent
      else v.coins.valueOf tx.vin) := by
  unfold CCoinsViewCache.getValueIn
  rw [hcb]
  simp only [Bool.false_eq_true, if_false]
  split
  · rfl
  · simpa using (CCoinsViewCache.valueInFrom_spec v 0 tx.vin).1

lemma connectValueIn_eq_ok (hm : env.node.params.MoneyOk) (hc : CheckedTx env.node.params tx)
    (h : env.connectValueIn s tx = .ok s') :
    (∃ nFees nValueIn scriptsOk view, CCoinsViewCache.Reads s.view view ∧
      s' = { s with nFees, nValueIn, scriptsOk, view } ∧
      int64 nFees = int64 (s.nFees + countedFee s.view tx) ∧
      int64 nValueIn = int64 (s.nValueIn + if tx.isCoinBase then 0
        else if tx.hasZerocoinSpendInputs then tx.getZerocoinSpent
        else s.view.coins.valueOf tx.vin)) ∧
    (tx.isCoinBase = false → tx.hasZerocoinSpendInputs = false →
      (∀ txin ∈ tx.vin, 0 ≤ s.view.coins.value txin.prevout) ∧
      s.view.coins.valueOf tx.vin ≤ env.node.params.nMaxMoneyOut ∧
      (tx.isCoinStake = false → tx.valueOut ≤ s.view.coins.valueOf tx.vin)) := by
  unfold connectValueIn at h
  by_cases hcb : tx.isCoinBase = true
  · rw [if_pos hcb] at h
    cases h
    refine ⟨⟨s.nFees, s.nValueIn, s.scriptsOk, s.view, .refl _, rfl, ?_, ?_⟩, ?_⟩
    · simp [countedFee, hcb]
    · simp [hcb]
    · simp [hcb]
  · rw [if_neg hcb] at h
    simp only [Bool.not_eq_true] at hcb
    simp only [bind_eq_ok, Prod.exists, pure_eq_ok] at h
    obtain ⟨nFees, hfee, ok, view, hi, rfl⟩ := h
    have hr := CCoinsViewCache.reads_getValueIn s.view tx
    obtain ⟨hr', hin⟩ := checkInputs_eq_ok hm hc hi
    rw [hr.coins] at hin
    have hval := getValueIn_eq s.view hcb
    refine ⟨⟨nFees, _, _, view, hr.trans hr', rfl, ?_, ?_⟩, hin⟩
    · by_cases hcs : tx.isCoinStake = true
      · simp only [feesAfter, hcs, Bool.not_true, Bool.false_eq_true, if_false,
        Except.ok.injEq] at hfee
        simp [countedFee, hcs, hfee]
      · simp only [Bool.not_eq_true] at hcs
        simp only [feesAfter, hcs, Bool.not_false, if_true, bind_eq_ok, pure_eq_ok, getValueOut,
          hc.getValueOut hm, Except.ok.injEq] at hfee
        obtain ⟨n, rfl, rfl⟩ := hfee
        rw [countedFee, hcb, hcs]
        simp only [Bool.or_self, Bool.false_eq_true, if_false, int64_int64]
        rw [← int64_add_int64, ← int64_int64_sub, hval, int64_int64_sub, int64_add_int64]
    · simp only [hcb, Bool.false_eq_true, if_false, int64_int64]
      rw [← int64_add_int64, hval, int64_add_int64]

lemma connectOutputs_eq_ok {i : ℕ} (hm : env.node.params.MoneyOk)
    (hc : CheckedTx env.node.params tx) (h : env.connectOutputs s tx i = .ok s') :
    ∃ txundo view, s.view.updateCoins tx env.pindex.nHeight = .ok (txundo, view) ∧
      s' = { s with
        nValueOut := int64 (s.nValueOut + tx.valueOut)
        vtxundo := if i = 0 then s.vtxundo else s.vtxundo ++ [txundo]
        view } := by
  simp only [connectOutputs, bind_eq_ok, Prod.exists, pure_eq_ok, getValueOut,
    hc.getValueOut hm, Except.ok.injEq] at h
  obtain ⟨n, rfl, txundo, view, hu, rfl⟩ := h
  exact ⟨txundo, view, hu, rfl⟩

theorem connectTx_eq_ok {i : ℕ} (hm : env.node.params.MoneyOk) (hc : CheckedTx env.node.params tx)
    (h : env.connectTx s (tx, i) = .ok s') : env.Connected s tx i s' := by
  simp only [connectTx, bind_eq_ok] at h
  obtain ⟨-, -, -, -, s₁, h1, s₂, h2, s₃, h3, h4⟩ := h
  obtain ⟨⟨vMints, rfl⟩, hmints⟩ := connectMints_eq_ok h1
  obtain ⟨⟨nSigOps, v₂, vSpends, nValueIn₂, hr₂, rfl, hval₂⟩, hhave, hspends⟩ :=
    connectKind_eq_ok h2
  obtain ⟨⟨nFees, nValueIn₃, ok, v₃, hr₃, rfl, hfee, hval₃⟩, hin⟩ := connectValueIn_eq_ok hm hc h3
  obtain ⟨txundo, view, hu, rfl⟩ := connectOutputs_eq_ok hm hc h4
  simp only at hr₂ hr₃ hval₂ hval₃ hfee hin hhave
  simp only [countedFee, hr₂.coins] at hfee
  rw [hr₂.coins] at hval₃ hin
  exact {
    nValueOut := rfl
    nValueIn := by
      rw [hval₃, ← int64_int64_add, hval₂]
      unfold countedIn
      by_cases hcb : tx.isCoinBase = true
      · have hz : tx.hasZerocoinSpendInputs = false := by
          by_contra hz
          rw [CTransaction.not_coinBase_of_spend (by simpa using hz)] at hcb
          cases hcb
        simp [hcb, hz]
      · by_cases hz : tx.hasZerocoinSpendInputs = true <;> simp [hcb, hz, add_assoc]
    nFees := hfee
    update := ⟨v₃, txundo, hr₂.trans hr₃, hu, rfl⟩
    inputs := fun hcb hz => ⟨hhave hcb hz, hin hcb hz⟩
    spends := hspends
    mints := hmints }

/-! ### Sums along a run -/

/-- The sum of an amount over the transactions of a run of the loop, each taken with the view it
meets. -/
def sumAlong (env : ConnectEnv) (f : CCoinsViewCache → CTransaction → ℤ) :
    ConnectLoop → List (CTransaction × ℕ) → ℤ
  | _, [] => 0
  | s, p :: rest =>
    f s.view p.1 +
      match env.connectTx s p with
      | .ok s' => sumAlong env f s' rest
      | .error _ => 0

variable {f g : CCoinsViewCache → CTransaction → ℤ} {l : List (CTransaction × ℕ)}

lemma sumAlong_cons {p : CTransaction × ℕ} (h : env.connectTx s p = .ok s') :
    env.sumAlong f s (p :: l) = f s.view p.1 + env.sumAlong f s' l := by
  simp [sumAlong, h]

lemma sumAlong_le (hl : loop env.connectTx s l = .ok s')
    (hstep : ∀ p ∈ l, ∀ t t', env.connectTx t p = .ok t' → f t.view p.1 ≤ g t.view p.1) :
    env.sumAlong f s l ≤ env.sumAlong g s l := by
  induction l generalizing s with
  | nil => exact le_rfl
  | cons p l ih =>
    simp only [loop_cons, bind_eq_ok] at hl
    obtain ⟨s₁, h1, hl⟩ := hl
    rw [sumAlong_cons h1, sumAlong_cons h1]
    have hp := hstep p (by simp) s s₁ h1
    have hrest := ih hl fun q hq => hstep q (List.mem_cons_of_mem _ hq)
    omega

lemma sumAlong_congr (hl : loop env.connectTx s l = .ok s')
    (hstep : ∀ p ∈ l, ∀ t t', env.connectTx t p = .ok t' → f t.view p.1 = g t.view p.1) :
    env.sumAlong f s l = env.sumAlong g s l :=
  le_antisymm (sumAlong_le hl fun p hp t t' h => (hstep p hp t t' h).le)
    (sumAlong_le hl fun p hp t t' h => (hstep p hp t t' h).ge)

lemma sumAlong_add (f g : CCoinsViewCache → CTransaction → ℤ) (s : ConnectLoop)
    (l : List (CTransaction × ℕ)) :
    env.sumAlong (fun v tx => f v tx + g v tx) s l = env.sumAlong f s l + env.sumAlong g s l := by
  induction l generalizing s with
  | nil => rfl
  | cons p l ih =>
    unfold sumAlong
    cases env.connectTx s p with
    | error e => simp
    | ok s₁ =>
      simp only [ih]
      omega

lemma sumAlong_neg (f : CCoinsViewCache → CTransaction → ℤ) (s : ConnectLoop)
    (l : List (CTransaction × ℕ)) :
    env.sumAlong (fun v tx => -f v tx) s l = -env.sumAlong f s l := by
  induction l generalizing s with
  | nil => rfl
  | cons p l ih =>
    unfold sumAlong
    cases env.connectTx s p with
    | error e => simp
    | ok s₁ =>
      simp only [ih]
      omega

lemma sumAlong_const (h : CTransaction → ℤ) (hl : loop env.connectTx s l = .ok s') :
    env.sumAlong (fun _ tx => h tx) s l = (l.map fun p => h p.1).sum := by
  induction l generalizing s with
  | nil => rfl
  | cons p l ih =>
    simp only [loop_cons, bind_eq_ok] at hl
    obtain ⟨s₁, h1, hl⟩ := hl
    rw [sumAlong_cons h1, ih hl]
    simp

lemma map_fst_zipIdx_sum (h : CTransaction → ℤ) (l : List CTransaction) :
    (l.zipIdx.map fun p => h p.1).sum = (l.map h).sum := by
  congr 1
  conv_rhs => rw [← List.zipIdx_map_fst 0 l, List.map_map]
  rfl

/-- The three accumulators hold, up to the limits of a machine integer, what the code counts for
each transaction. -/
theorem connectTxs_eq_ok (hm : env.node.params.MoneyOk)
    (hc : ∀ p ∈ l, CheckedTx env.node.params p.1) (hl : loop env.connectTx s l = .ok s') :
    int64 s'.nValueOut = int64 (s.nValueOut + env.sumAlong (fun _ tx => tx.valueOut) s l) ∧
      int64 s'.nValueIn = int64 (s.nValueIn + env.sumAlong env.countedIn s l) ∧
      int64 s'.nFees = int64 (s.nFees + env.sumAlong countedFee s l) := by
  induction l generalizing s with
  | nil =>
    simp only [loop_nil, Except.ok.injEq] at hl
    simp [hl, sumAlong]
  | cons p l ih =>
    simp only [loop_cons, bind_eq_ok] at hl
    obtain ⟨s₁, h1, hl⟩ := hl
    have hp := connectTx_eq_ok hm (hc p (by simp)) h1
    obtain ⟨i1, i2, i3⟩ := ih (fun q hq => hc q (List.mem_cons_of_mem _ hq)) hl
    rw [sumAlong_cons h1, sumAlong_cons h1, sumAlong_cons h1]
    refine ⟨?_, ?_, ?_⟩
    · rw [i1, hp.nValueOut, int64_int64_add, add_assoc]
    · rw [i2, ← int64_int64_add, hp.nValueIn, int64_int64_add, add_assoc]
    · rw [i3, ← int64_int64_add, hp.nFees, int64_int64_add, add_assoc]

end ConnectEnv

/-! ### Accepted blocks -/

/-- The word of whoever says that a block needs no check: `fChecked` and `fAlreadyChecked` are set
after `CheckBlock` has passed, perhaps in another state of the node. -/
def Vouched (node : Node) (block : CBlock) (fAlreadyChecked : Bool) : Prop :=
  block.fChecked = true ∨ fAlreadyChecked = true →
    ∃ node' pow root sig block', node'.params = node.params ∧
      checkBlock node' { block with fChecked := false } pow root sig = .ok block'

variable {node : Node} {g : Global} {block : CBlock} {pindex : CBlockIndex}
  {view : CCoinsViewCache} {fJustCheck fAlreadyChecked : Bool}

lemma connectCheckBlock_eq_ok (hm : node.params.MoneyOk) (hv : Vouched node block fAlreadyChecked)
    (h : connectCheckBlock node block fJustCheck fAlreadyChecked = .ok ()) :
    CheckedBlock node.params block := by
  by_cases hf : block.fChecked = true ∨ fAlreadyChecked = true
  · obtain ⟨node', pow, root, sig, block', hp, hok⟩ := hv hf
    have hb := checkBlock_eq_ok (hp ▸ hm) rfl hok
    rw [hp] at hb
    exact ⟨hb.txs, hb.shape, hb.stake, hb.size⟩
  · simp only [not_or, Bool.not_eq_true] at hf
    rw [connectCheckBlock, hf.2] at h
    cases hok : checkBlock node block (!fJustCheck) (!fJustCheck) true with
    | ok b => exact checkBlock_eq_ok hm hf.1 hok
    | error f =>
      simp only [hok, Bool.false_eq_true, if_false] at h
      split at h <;> cases h

@[simp] lemma withGlobal_eq_ok {α : Type} {g : Global} {c : Check α} {a : α} :
    withGlobal g c = .ok a ↔ c = .ok a := by
  cases c <;> simp [withGlobal]

lemma withGlobal_eq_error {α : Type} {g g' : Global} {c : Check α} {f : Fault}
    (h : withGlobal g c = .error (f, g')) : c = .error f ∧ g' = g := by
  cases c with
  | ok a => cases h
  | error e =>
    cases h
    exact ⟨rfl, rfl⟩

/-- **What an accepted block has gone through**, unless it is the genesis block. -/
theorem connectBlock_eq_ok {r : CCoinsViewCache × Global}
    (hgen : block.hash ≠ node.params.hashGenesisBlock)
    (h : connectBlock node g block pindex view fJustCheck fAlreadyChecked = .ok r) :
    connectCheckBlock node block fJustCheck fAlreadyChecked = .ok () ∧
      (pindex.pprev.map (·.hash)).getD 0 = view.getBestBlock ∧
      ∃ s, connectChecks node g block pindex view = .ok s ∧
        (fJustCheck = true ∧ r = (s.view, g) ∨
          fJustCheck = false ∧ connectCommit node g block pindex s = .ok r) := by
  simp only [connectBlock, bind_eq_ok, withGlobal_eq_ok, failIf_eq_ok, bne_eq_false_iff_eq] at h
  obtain ⟨_, hcb, -, hbest, h⟩ := h
  rw [if_neg hgen] at h
  simp only [bind_eq_ok, withGlobal_eq_ok] at h
  obtain ⟨s, hs, h⟩ := h
  refine ⟨hcb, hbest, s, hs, ?_⟩
  cases fJustCheck with
  | true => exact .inl ⟨rfl, (pure_eq_ok.mp h).symm⟩
  | false => exact .inr ⟨rfl, by simpa using h⟩

/-- What the first half of `ConnectBlock` has established when it goes through. -/
theorem connectChecks_eq_ok {s : ConnectLoop} (h : connectChecks node g block pindex view = .ok s) :
    checkPeriod node block pindex.nHeight = .ok () ∧
      loop (connectEnv node g block pindex).connectTx (.start view) block.vtx.zipIdx = .ok s ∧
      isBlockValueValid node pindex.nHeight (nExpectedMint node block pindex.nHeight s.nFees)
        s.nMint = true ∧ s.scriptsOk = true := by
  simp only [connectChecks, bind_eq_ok, failIf_eq_ok, pure_eq_ok, Bool.not_eq_eq_eq_not,
    Bool.not_false] at h
  obtain ⟨_, hp, s', hl, -, hval, -, hsc, rfl⟩ := h
  exact ⟨hp, hl, hval, hsc⟩

end Agenor
