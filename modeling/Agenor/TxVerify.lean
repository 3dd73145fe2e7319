import Agenor.Node

/-!
Checks of one transaction (`consensus/tx_verify.cpp`) and of the zerocoin spends in it
(`consensus/zerocoin_verify.cpp`, `zage/zagemodule.cpp`).
-/

namespace Agenor

open Lib.Wrap Lib.Fallible

/-! ### Signature operations -/

def getLegacySigOpCount (tx : CTransaction) : ℕ :=
  (tx.vin.map fun txin => Script.getSigOpCount txin.scriptSig false).sum
    + (tx.vout.map fun txout => Script.getSigOpCount txout.scriptPubKey false).sum

/-- The loop of `GetP2SHSigOpCount`. -/
def p2shSigOpsFrom (v : CCoinsViewCache) (nSigOps : ℕ) : List CTxIn → ℕ × CCoinsViewCache
  | [] => (nSigOps, v)
  | txin :: rest =>
    let r := v.accessCoin txin.prevout
    let script := r.1.out.scriptPubKey
    let n := if Script.isPayToScriptHash script then
      Script.getSigOpCountWith script txin.scriptSig else 0
    p2shSigOpsFrom r.2 (nSigOps + n) rest

def getP2SHSigOpCount (v : CCoinsViewCache) (tx : CTransaction) : ℕ × CCoinsViewCache :=
  if tx.isCoinBase || tx.hasZerocoinSpendInputs then (0, v) else p2shSigOpsFrom v 0 tx.vin

/-! ### Public spends -/

/-- `parseCoinSpend`: the spend and the minted value it opens. -/
def parseCoinSpend (node : Node) (txin : CTxIn) (tx : CTransaction) (prevOut : CTxOut) :
    Check (CoinSpend × ℤ) := do
  failIf (!txin.isZerocoinPublicSpend || !prevOut.isZerocoinMint) .fail
  let data ← scriptSigToSerializedSpend txin.scriptSig
  match node.lib.readPublicCoinSpend data with
  | none => .error (.throws "CBaseDataStream::read() : end of data")
  | some spend =>
    -- a failed TxOutToPublicCoin is reported to a state of its own
    match txOutToPublicCoin prevOut with
    | .error (.outOfRange site) => .error (.outOfRange site)
    | .error _ => .error .fail
    | .ok pubCoin =>
      let hashed := { spend with ptxHash := node.lib.noInputsHash tx }
      return ({ hashed with denomination := pubCoin.denomination }, pubCoin.value)

def parseZerocoinPublicSpend (node : Node) (txin : CTxIn) (tx : CTransaction) : Check CoinSpend :=
  match node.getOutput txin.prevout.hash txin.prevout.n with
  | .error f => .error (f.redos 100 0 "")
  | .ok prevOut =>
    match parseCoinSpend node txin tx prevOut with
    | .error f => .error (f.redos 0 REJECT_INVALID "bad-txns-invalid-zage")
    | .ok (spend, _) => .ok spend

def validateInput (node : Node) (txin : CTxIn) (prevOut : CTxOut) (tx : CTransaction) :
    Check Unit := do
  let (spend, value) ← parseCoinSpend node txin tx prevOut
  failIf ((CoinDenomination.ofInt txin.nSequence).toAmount != prevOut.nValue) .fail
  failIf (!node.lib.verify spend value) .fail

/-! ### `CheckZerocoinSpend` -/

/-- The spend of an input, and for a public one the output it spends. -/
def newSpend (node : Node) (txin : CTxIn) (tx : CTransaction) : Check (CoinSpend × Option CTxOut) :=
  if txin.isZerocoinPublicSpend then
    match node.getOutput txin.prevout.hash txin.prevout.n with
    | .error f => .error (f.redos 100 0 "")
    | .ok prevOut =>
      match parseCoinSpend node txin tx prevOut with
      | .error f => .error (f.redos 100 0 "")
      | .ok (spend, _) => .ok (spend, some prevOut)
  else do
    let spend ← txInToZerocoinSpend node.lib txin
    return (spend, none)

/-- What the loop of `CheckZerocoinSpend` carries. -/
structure SpendLoop where
  serials : List ℤ
  nTotalRedeemed : ℤ
  fValidated : Bool

/-- One input in the loop of `CheckZerocoinSpend`. -/
def checkSpendInput (node : Node) (tx : CTransaction) (hashTxOut : Uint256) (s : SpendLoop)
    (txin : CTxIn) : Check SpendLoop := do
  if !txin.isZerocoinSpend && !txin.isZerocoinPublicSpend then return s
  let (spend, prevOut) ← newSpend node txin tx
  failIf (spend.denomination == .ZQ_ERROR) (.dos 100 0 "" false)
  failIf (spend.denomination.toInt != txin.nSequence) (.dos 100 0 "" false)
  failIf (spend.ptxHash != hashTxOut) (.dos 100 0 "" false)
  match prevOut with
  | none => pure ()
  | some prevOut =>
    match validateInput node txin prevOut tx with
    | .error f => .error (f.redos 100 0 "")
    | .ok () => pure ()
  failIf (s.serials.contains spend.coinSerialNumber) (.dos 100 0 "" false)
  return {
    serials := spend.coinSerialNumber :: s.serials
    nTotalRedeemed := int64 (s.nTotalRedeemed + spend.denomination.toAmount)
    fValidated := true }

def checkZerocoinSpend (node : Node) (tx : CTransaction) : Check Unit := do
  failIf (decide (2 < tx.vout.length) &&
    decide (2 < (tx.vout.filter (!·.isZerocoinMint)).length) && !tx.isCoinStake)
    (.dos 100 0 "" false)
  let s ← loop (checkSpendInput node tx (node.lib.outsHash tx.vout)) ⟨[], 0, false⟩ tx.vin
  if !tx.isCoinStake then
    match tx.getValueOut with
    | none => .error (.throws "CTransaction::GetValueOut() : value out of range")
    | some nValueOut => failIf (decide (s.nTotalRedeemed < nValueOut)) (.dos 100 0 "" false)
  failIf (!s.fValidated) .fail

/-! ### `CheckTransaction` -/

def MAX_ZEROCOIN_TX_SIZE : ℕ := 150000

def MIN_COLDSTAKING_AMOUNT : ℤ := 1 * COIN

/-- One output in the loop of `CheckTransaction`; the state is `nValueOut`. -/
def checkTxOut (consensus : ChainParams) (tx : CTransaction) (fColdStakingActive : Bool)
    (nValueOut : ℤ) (txout : CTxOut) : Check ℤ := do
  failIf (txout.isEmpty && !tx.isCoinBase && !tx.isCoinStake)
    (.dos 100 REJECT_INVALID "bad-txns-vout-empty" false)
  failIf (decide (txout.nValue < 0)) (.dos 100 REJECT_INVALID "bad-txns-vout-negative" false)
  failIf (decide (consensus.nMaxMoneyOut < txout.nValue))
    (.dos 100 REJECT_INVALID "bad-txns-vout-toolarge" false)
  let nValueOut := int64 (nValueOut + txout.nValue)
  failIf (!consensus.moneyRange nValueOut)
    (.dos 100 REJECT_INVALID "bad-txns-txouttotal-toolarge" false)
  if Script.isPayToColdStaking txout.scriptPubKey then
    failIf (!fColdStakingActive) (.dos 10 REJECT_INVALID "cold-stake-inactive" false)
    failIf (decide (txout.nValue < MIN_COLDSTAKING_AMOUNT))
      (.dos 100 REJECT_INVALID "cold-stake-vout-toosmall" false)
  return nValueOut

/-- One input in the loop of `CheckTransaction`; the state is `vInOutPoints` and
`nZCSpendCount`. The outpoints of private spends are not recorded. -/
def checkTxIn (s : List COutPoint × ℕ) (txin : CTxIn) : Check (List COutPoint × ℕ) := do
  failIf (s.1.contains txin.prevout) (.dos 100 REJECT_INVALID "bad-txns-inputs-duplicate" false)
  if !txin.isZerocoinSpend then return (txin.prevout :: s.1, s.2)
  else if !txin.isZerocoinPublicSpend then return (s.1, s.2 + 1)
  else return s

/-- The part of `CheckTransaction` that is skipped while zerocoin is off. -/
def checkZerocoinActive (node : Node) (tx : CTransaction) (nZCSpendCount : ℕ) : Check Unit := do
  failIf (decide (node.params.ZC_MaxSpendsPerTx < nZCSpendCount)) (.dos 100 0 "" false)
  if tx.hasZerocoinSpendInputs then
    failIf (tx.vin.any fun i => !i.isZerocoinSpend && !i.isZerocoinPublicSpend)
      (.dos 100 0 "" false)
    match checkZerocoinSpend node tx with
    | .error f => .error (f.redos 100 0 "")
    | .ok () => pure ()

/-- The last part of `CheckTransaction`: the shape of the inputs. -/
def checkInputShape (node : Node) (tx : CTransaction) (fZerocoinActive : Bool) : Check Unit := do
  if tx.isCoinBase then
    let size := ((tx.vin.map (·.scriptSig)).headD []).length
    failIf (decide (size < 2) || decide (150 < size))
      (.dos 100 REJECT_INVALID "bad-cb-length" false)
  else if fZerocoinActive && tx.hasZerocoinSpendInputs then
    failIf (decide (tx.vin.length < 1)) (.dos 10 REJECT_INVALID "bad-zc-spend-min-inputs" false)
    if tx.hasZerocoinPublicSpendInputs then
      failIf (decide (node.params.ZC_MaxPublicSpendsPerTx < tx.vin.length))
        (.dos 10 REJECT_INVALID "bad-zc-spend-max-inputs" false)
    else
      failIf (decide (node.params.ZC_MaxSpendsPerTx < tx.vin.length))
        (.dos 10 REJECT_INVALID "bad-zc-spend-max-inputs" false)
  else
    failIf (tx.vin.any fun i => i.prevout.isNull && (fZerocoinActive && !i.isZerocoinSpend))
      (.dos 10 REJECT_INVALID "bad-txns-prevout-null" false)

/-- `CheckTransaction`. Two of its parameters are not used. -/
def checkTransaction (node : Node) (tx : CTransaction) (fZerocoinActive fColdStakingActive : Bool) :
    Check Unit := do
  failIf tx.vin.isEmpty (.dos 10 REJECT_INVALID "bad-txns-vin-empty" false)
  failIf tx.vout.isEmpty (.dos 10 REJECT_INVALID "bad-txns-vout-empty" false)
  failIf (decide (MAX_ZEROCOIN_TX_SIZE < tx.serializeSize))
    (.dos 100 REJECT_INVALID "bad-txns-oversize" false)
  let _ ← loop (checkTxOut node.params tx fColdStakingActive) 0 tx.vout
  let s ← loop checkTxIn ([], 0) tx.vin
  if fZerocoinActive then checkZerocoinActive node tx s.2
  checkInputShape node tx fZerocoinActive

/-! ### What a checked transaction is like -/

/-- What `CheckTransaction` establishes, whether zerocoin is active or not. -/
structure CheckedTx (consensus : ChainParams) (tx : CTransaction) : Prop where
  nonneg : ∀ o ∈ tx.vout, 0 ≤ o.nValue
  total : tx.valueOut ≤ consensus.nMaxMoneyOut
  distinct : ((tx.vin.filter (!·.isZerocoinSpend)).map (·.prevout)).Nodup
  vin_ne : tx.vin ≠ []
  vout_ne : tx.vout ≠ []
  size : tx.serializeSize ≤ MAX_ZEROCOIN_TX_SIZE

lemma checkTxOut_eq_ok {consensus : ChainParams} {tx : CTransaction} {cold : Bool}
    {acc acc' : ℤ} {txout : CTxOut}
    (h : checkTxOut consensus tx cold acc txout = .ok acc') :
    0 ≤ txout.nValue ∧ txout.nValue ≤ consensus.nMaxMoneyOut ∧
      acc' = int64 (acc + txout.nValue) ∧ 0 ≤ acc' ∧ acc' ≤ consensus.nMaxMoneyOut := by
  simp only [checkTxOut, bind_eq_ok, failIf_eq_ok, decide_eq_false_iff_not, not_lt,
    Bool.not_eq_eq_eq_not, Bool.not_false, ChainParams.moneyRange, decide_eq_true_eq] at h
  obtain ⟨-, -, -, hneg, -, hlarge, -, ⟨h1, h2⟩, h⟩ := h
  split at h
  · simp only [bind_eq_ok, failIf_eq_ok, pure_eq_ok] at h
    obtain ⟨-, -, -, -, rfl⟩ := h
    exact ⟨hneg, hlarge, rfl, h1, h2⟩
  · simp only [pure_eq_ok] at h
    subst h
    exact ⟨hneg, hlarge, rfl, h1, h2⟩

lemma checkTxOuts_eq_ok {consensus : ChainParams} {tx : CTransaction} {cold : Bool}
    (hm : consensus.MoneyOk) {outs : List CTxOut} {acc acc' : ℤ}
    (h0 : 0 ≤ acc) (h1 : acc ≤ 10 ^ 16)
    (h : loop (checkTxOut consensus tx cold) acc outs = .ok acc') :
    (∀ o ∈ outs, 0 ≤ o.nValue) ∧ acc' = acc + (outs.map (·.nValue)).sum ∧
      (outs ≠ [] → acc' ≤ consensus.nMaxMoneyOut) := by
  induction outs generalizing acc with
  | nil =>
    simp only [loop_nil, Except.ok.injEq] at h
    simp [h]
  | cons o outs ih =>
    simp only [loop_cons, bind_eq_ok] at h
    obtain ⟨acc₁, ho, h⟩ := h
    obtain ⟨hpos, hle, hacc, ha0, ha1⟩ := checkTxOut_eq_ok ho
    have hmax := hm.le
    have hw : acc₁ = acc + o.nValue := by
      rw [hacc]
      exact wrap_of_fits (by omega) (by omega)
    obtain ⟨i1, i2, i3⟩ := ih ha0 (by omega) h
    refine ⟨?_, ?_, ?_⟩
    · intro p hp
      rcases List.mem_cons.mp hp with rfl | hp
      · exact hpos
      · exact i1 p hp
    · rw [i2, hw]
      simp [add_assoc]
    · intro _
      by_cases houts : outs = []
      · subst houts
        simp only [loop_nil, Except.ok.injEq] at h
        exact h ▸ ha1
      · exact i3 houts

lemma checkTxIns_eq_ok {vin : List CTxIn} {s s' : List COutPoint × ℕ}
    (h : loop checkTxIn s vin = .ok s') :
    ((vin.filter (!·.isZerocoinSpend)).map (·.prevout)).Nodup ∧
      ∀ o ∈ s.1, o ∉ (vin.filter (!·.isZerocoinSpend)).map (·.prevout) := by
  induction vin generalizing s with
  | nil => simp
  | cons i vin ih =>
    simp only [loop_cons, bind_eq_ok] at h
    obtain ⟨s₁, hi, h⟩ := h
    obtain ⟨hnd, hout⟩ := ih h
    simp only [checkTxIn, bind_eq_ok, failIf_eq_ok] at hi
    obtain ⟨-, hdup, hi⟩ := hi
    by_cases hz : i.isZerocoinSpend = true
    · have hs : s₁.1 = s.1 := by
        simp only [hz, Bool.not_true, Bool.false_eq_true, if_false] at hi
        split at hi <;> (cases hi; rfl)
      have hf : (i :: vin).filter (!·.isZerocoinSpend) = vin.filter (!·.isZerocoinSpend) := by
        simp [hz]
      rw [hf]
      exact ⟨hnd, hs ▸ hout⟩
    · have hs : s₁.1 = i.prevout :: s.1 := by
        simp only [hz, Bool.not_false, if_true, pure_eq_ok] at hi
        rw [← hi]
      rw [hs] at hout
      have hf : (i :: vin).filter (!·.isZerocoinSpend)
          = i :: vin.filter (!·.isZerocoinSpend) := by
        simp [hz]
      rw [hf, List.map_cons]
      refine ⟨List.nodup_cons.mpr ⟨hout _ (by simp), hnd⟩, ?_⟩
      intro o ho hmem
      rcases List.mem_cons.mp hmem with rfl | hmem
      · simp [ho] at hdup
      · exact hout o (List.mem_cons_of_mem _ ho) hmem

/-- **A transaction that passes.** -/
theorem checkTransaction_eq_ok {node : Node} {tx : CTransaction} {zc cold : Bool}
    (hm : node.params.MoneyOk) (h : checkTransaction node tx zc cold = .ok ()) :
    CheckedTx node.params tx := by
  simp only [checkTransaction, bind_eq_ok, failIf_eq_ok, decide_eq_false_iff_not, not_lt,
    List.isEmpty_eq_false_iff] at h
  obtain ⟨-, hvin, -, hvout, -, hsize, acc, houts, s, hins, -⟩ := h
  obtain ⟨h1, h2, h3⟩ := checkTxOuts_eq_ok hm le_rfl (by norm_num) houts
  exact {
    nonneg := h1
    total := by
      rw [CTransaction.valueOut, ← zero_add (List.sum _), ← h2]
      exact h3 hvout
    distinct := (checkTxIns_eq_ok hins).1
    vin_ne := hvin
    vout_ne := hvout
    size := hsize }

namespace CheckedTx

variable {consensus : ChainParams} {tx : CTransaction}

lemma valueOut_nonneg (h : CheckedTx consensus tx) : 0 ≤ tx.valueOut := by
  apply List.sum_nonneg
  simpa using h.nonneg

lemma getValueOut (h : CheckedTx consensus tx) (hm : consensus.MoneyOk) :
    tx.getValueOut = some tx.valueOut := by
  have := h.total
  have hs := CTransaction.valueOutFrom_eq (le_refl (0 : ℤ)) h.nonneg (by
    simp only [zero_add]
    exact lt_of_le_of_lt (h.total.trans hm.le) (by norm_num))
  simpa [CTransaction.getValueOut, CTransaction.valueOut] using hs

lemma prevouts_nodup (h : CheckedTx consensus tx) (hz : tx.hasZerocoinSpendInputs = false) :
    (tx.vin.map (·.prevout)).Nodup := by
  have hall : tx.vin.filter (!·.isZerocoinSpend) = tx.vin := by
    rw [List.filter_eq_self]
    intro i hi
    simp only [CTransaction.hasZerocoinSpendInputs, List.any_eq_false,
      CTxIn.isAnyZerocoinSpend, Bool.or_eq_true, not_or] at hz
    simpa using (hz i hi).1
  have hd := h.distinct
  rwa [hall] at hd

end CheckedTx

/-! ### Zerocoin spends in the context of a chain -/

def isBlockBetweenFakeSerialAttackRange (consensus : ChainParams) (nHeight : ℤ) : Bool :=
  consensus.networkID == .MAIN && decide (nHeight ≤ consensus.height_last_ZC_WrappedSerials)

def checkPublicCoinSpendEnforced (consensus : ChainParams) (blockHeight : ℤ)
    (isPublicSpend : Bool) : Bool :=
  if consensus.networkUpgradeActive blockHeight .UPGRADE_ZC_PUBLIC then isPublicSpend
  else !isPublicSpend

def currentPublicCoinSpendVersion (node : Node) : ℕ :=
  if node.isSporkActive .SPORK_18_ZEROCOIN_PUBLICSPEND_V4 then 4 else 3

/-- The signature and the type of a spend, checked from `UPGRADE_ZC_V2` on. -/
def signedSpendOk (node : Node) (tx : CTransaction) (spend : CoinSpend) (nHeight : ℤ) : Bool :=
  let signed :=
    match node.lib.hasValidSignature spend with
    | some b => b
    | none => isBlockBetweenFakeSerialAttackRange node.params nHeight
  let expectedType := if tx.isCoinStake then SpendType.STAKE else SpendType.SPEND
  signed && spend.spendType == expectedType

def contextualCheckZerocoinSpendNoSerialCheck (node : Node) (tx : CTransaction)
    (spend : CoinSpend) (nHeight : ℤ) : Bool :=
  (!node.params.networkUpgradeActive nHeight .UPGRADE_ZC_V2 ||
      signedSpendOk node tx spend nHeight) &&
    (node.lib.isValidSerial (decide (spend.coinVersion < PUBKEY_VERSION)) spend.coinSerialNumber ||
      isBlockBetweenFakeSerialAttackRange node.params nHeight)

def contextualCheckZerocoinSpend (node : Node) (g : Global) (tx : CTransaction)
    (spend : CoinSpend) (nHeight : ℤ) : Bool :=
  contextualCheckZerocoinSpendNoSerialCheck node tx spend nHeight &&
    !isSerialInBlockchain node g spend.coinSerialNumber

end Agenor
