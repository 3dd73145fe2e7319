import Agenor.CoinsToSpend
import Agenor.Lib.Fallible
import Mathlib.Tactic.Linarith

/-!
How the wallet makes a transaction (`CWallet::CreateTransaction` of `wallet.cpp`).

Coins are selected for the amounts and a fee, the outputs and the inputs are put together, and the
size of the result says which fee is demanded. When the fee is too low, everything is done again
with the fee that has been demanded. Change that would be dust goes to the fee.
-/

namespace Agenor

open Lib Lib.Fallible Lib.Wrap

namespace CWallet

/-! ### Fees -/

/-- `CFeeRate::GetFee`. The product is an unsigned number of 64 bits. -/
def getFee (nSatoshisPerK : ℤ) (nSize : ℕ) : ℤ :=
  let nFee := nSatoshisPerK * nSize % 2 ^ 64 / 1000
  if nFee = 0 ∧ 0 < nSatoshisPerK then nSatoshisPerK else nFee

def getDustThreshold (txout : CTxOut) (minRelayTxFee : ℤ) : ℤ :=
  if Script.isUnspendable txout.scriptPubKey then 0
  else wrap 64 (3 * getFee minRelayTxFee (8 + sizeOfBytes txout.scriptPubKey + 148))

def isDust (txout : CTxOut) (minRelayTxFee : ℤ) : Bool :=
  decide (txout.nValue < getDustThreshold txout minRelayTxFee)

def MAX_STANDARD_TX_SIZE : ℕ := 100000

def MAX_FREE_TRANSACTION_CREATE_SIZE : ℕ := 1000

/-! ### What the fee loop works with -/

structure CRecipient where
  scriptPubKey : CScript
  nAmount : ℤ

/-- The arguments of `CreateTransaction`. -/
structure CreateArgs where
  vecSend : List CRecipient
  nChangePosRequest : ℤ
  coinControl : Option CCoinControl
  /-- The type of coins is `ALL_COINS`. -/
  allCoins : Bool
  sign : Bool
  useIX : Bool
  nFeePay : ℤ

/-- What one round of the loop draws from outside. -/
structure Round where
  chance : ℕ → Chance
  getRandInt : ℕ → ℕ
  lt : ∀ n, getRandInt (n + 1) < n + 1
  /-- The script for a key of the key pool, if there is one left. -/
  reservedKey : Option CScript

structure CreateEnv where
  /-- The order of the coins in a set: by the addresses of their transactions. -/
  setOrder : List WalletCoin → List WalletCoin
  perm : ∀ coins, (setOrder coins).Perm coins
  minRelayTxFee : ℤ
  getMinimumFee : ℕ → ℤ
  fSendFreeTransactions : Bool
  /-- `ProduceSignature` for an input, with a real or with a dummy signature. -/
  produceSignature : Bool → CTransaction → ℕ → WalletCoin → Option CScript
  /-- The priority, which is computed with floating-point numbers, is high enough. -/
  allowFree : List WalletCoin → ℕ → Bool
  round : ℕ → Round

/-- What a round leaves to the next one. -/
structure FeeLoop where
  nFeeRet : ℤ
  scriptChange : CScript
  strFailReason : String

/-- The transaction, and how it has been made. -/
structure Created where
  vin : List CTxIn
  vout : List CTxOut
  nFeeRet : ℤ
  nChangePosInOut : ℤ
  setCoins : List WalletCoin
  /-- The size with the signatures. -/
  nBytes : ℕ
  /-- The loop has been left for a free transaction. -/
  free : Bool

namespace CreateArgs

variable (a : CreateArgs)

/-- The fee that is paid at least. -/
def feePay : ℤ := if a.useIX && decide (a.nFeePay < CENT) then CENT else a.nFeePay

/-- What the first round starts with. -/
def start : FeeLoop := ⟨if 0 < a.feePay then a.feePay else 0, [], ""⟩

/-- The sum of the amounts; `none` when one of them is negative. -/
def total : List CRecipient → ℤ → Option ℤ
  | [], nValue => some nValue
  | rec :: vecSend, nValue =>
    if rec.nAmount < 0 then none else total vecSend (wrap 64 (nValue + rec.nAmount))

def selected : List COutPoint := a.coinControl.elim [] CCoinControl.setSelected

def destChange : Option CScript := a.coinControl.bind CCoinControl.destChange

/-- The outputs for one recipient of a split; the last one gets what remains. -/
def split (nSplitBlock : ℤ) (rec : CRecipient) : List CTxOut :=
  (List.range nSplitBlock.toNat).map fun i : ℕ =>
    if (i : ℤ) = nSplitBlock - 1 then
      ⟨wrap 64 (rec.nAmount.tdiv nSplitBlock + rec.nAmount.tmod nSplitBlock), rec.scriptPubKey⟩
    else ⟨rec.nAmount.tdiv nSplitBlock, rec.scriptPubKey⟩

def payee (minRelayTxFee : ℤ) (vout : List CTxOut) (rec : CRecipient) :
    Except String (List CTxOut) :=
  let txout : CTxOut := ⟨rec.nAmount, rec.scriptPubKey⟩
  if isDust txout minRelayTxFee then .error "Transaction amount too small"
  else .ok (vout ++ [txout])

/-- The outputs to the recipients. -/
def payees (minRelayTxFee : ℤ) : Except String (List CTxOut) :=
  match a.coinControl with
  | none => .ok (a.vecSend.flatMap (split 1))
  | some c =>
    if c.fSplitBlock then .ok (a.vecSend.flatMap (split c.nSplitBlock))
    else loop (payee minRelayTxFee) [] a.vecSend

/-- `nFeeNeeded`, the fee that is demanded for a size. -/
def feeNeeded (env : CreateEnv) (nBytes : ℕ) : ℤ :=
  let nFeeNeeded := max a.feePay (env.getMinimumFee nBytes)
  match a.coinControl with
  | none => nFeeNeeded
  | some c =>
    if c.fOverrideFeeRate then getFee c.nFeeRate nBytes
    else if 0 < nFeeNeeded ∧ nFeeNeeded < c.nMinimumTotalFee then c.nMinimumTotalFee
    else nFeeNeeded

/-- The reason that is given when the coins do not suffice. -/
def insufficientFunds (strFailReason : String) : String :=
  let strFailReason := if a.allCoins then "Insufficient funds." else strFailReason
  if a.useIX then strFailReason ++ " SwiftX requires inputs with at least 6 confirmations, " ++
    "you might need to wait a few minutes and try again." else strFailReason

end CreateArgs

/-! ### The change -/

/-- The outputs, the position of the change, the fee and the script for the change. -/
structure Draft where
  vout : List CTxOut
  nChangePosInOut : ℤ
  loop : FeeLoop

/-- The change is added to the first output with the same script. -/
def mergeChange (scriptChange : CScript) (nChange : ℤ) : List CTxOut → Option (List CTxOut)
  | [] => none
  | txout :: vout =>
    if scriptChange = txout.scriptPubKey then
      some ({ txout with nValue := wrap 64 (txout.nValue + nChange) } :: vout)
    else (mergeChange scriptChange nChange vout).map (txout :: ·)

/-- The change becomes an output of its own, or goes to the fee. -/
def insertChange (minRelayTxFee : ℤ) (round : Round) (nChange : ℤ) (d : Draft) :
    Except String Draft :=
  let newTxOut : CTxOut := ⟨nChange, d.loop.scriptChange⟩
  if isDust newTxOut minRelayTxFee then
    .ok { d with
      nChangePosInOut := -1
      loop := { d.loop with nFeeRet := wrap 64 (d.loop.nFeeRet + nChange) } }
  else if d.nChangePosInOut = -1 then
    let position := round.getRandInt (d.vout.length + 1)
    .ok { d with vout := d.vout.insertIdx position newTxOut, nChangePosInOut := position }
  else if d.nChangePosInOut < 0 ∨ d.vout.length < d.nChangePosInOut then
    .error "Change index out of range"
  else .ok { d with vout := d.vout.insertIdx d.nChangePosInOut.toNat newTxOut }

/-- The reason that is given when there is no key for the change. -/
def keyPoolEmpty : String :=
  "Can't generate a change-address key. Please call keypoolrefill first."

/-- What is done with the change. -/
def placeChange (minRelayTxFee : ℤ) (round : Round) (destChange : Option CScript) (nChange : ℤ)
    (d : Draft) : Except String Draft :=
  if 0 < nChange then
    match destChange with
    | some script =>
      let d := { d with loop := { d.loop with scriptChange := script } }
      match mergeChange script nChange d.vout with
      | some vout => .ok { d with vout }
      | none => insertChange minRelayTxFee round nChange d
    | none =>
      insertChange minRelayTxFee round nChange
        { d with loop := match round.reservedKey with
          | some script => { d.loop with scriptChange := script }
          | none =>
            { d.loop with scriptChange := [], strFailReason := keyPoolEmpty } }
  else .ok d

/-! ### The loop -/

/-- An input, before it is signed. -/
def unsignedInput (coin : WalletCoin) : CTxIn := ⟨WalletTxs.outPoint coin, [], 4294967295⟩

/-- The inputs with their signatures. -/
def signInputs (env : CreateEnv) (sign : Bool) (tx : CTransaction) (coins : List WalletCoin) :
    Option (List CTxIn) :=
  coins.zipIdx.mapM fun p => (env.produceSignature sign tx p.2 p.1).map fun scriptSig =>
    { unsignedInput p.1 with scriptSig }

/-- What follows when the transaction is complete: the loop goes on or it ends. -/
def checkFee (env : CreateEnv) (a : CreateArgs) (created : Created) (s : FeeLoop) :
    Except String (FeeLoop ⊕ FeeLoop × Created) :=
  if MAX_STANDARD_TX_SIZE ≤ created.nBytes then .error "Transaction too large"
  else if env.fSendFreeTransactions && decide (created.nBytes ≤ MAX_FREE_TRANSACTION_CREATE_SIZE) &&
      env.allowFree created.setCoins created.nBytes then
    .ok (.inr (s, { created with free := true }))
  else if a.feeNeeded env created.nBytes < getFee env.minRelayTxFee created.nBytes then
    .error "Transaction too large for fee policy"
  else if a.feeNeeded env created.nBytes ≤ s.nFeeRet then .ok (.inr (s, created))
  else .ok (.inl { s with nFeeRet := a.feeNeeded env created.nBytes })

/-- The coins that a round selects. -/
def roundCoins (w : WalletTxs) (vAvailableCoins : List COutput) (a : CreateArgs) (nValue : ℤ)
    (round : Round) (s : FeeLoop) : Bool × Selection :=
  w.selectCoinsToSpend vAvailableCoins (wrap 64 (nValue + s.nFeeRet)) a.coinControl round.chance

/-- One round of the loop: what is left to the next one, or the transaction. -/
def feeRound (env : CreateEnv) (w : WalletTxs) (vAvailableCoins : List COutput) (a : CreateArgs)
    (nValue : ℤ) (round : Round) (s : FeeLoop) : Except String (FeeLoop ⊕ FeeLoop × Created) := do
  let payees ← a.payees env.minRelayTxFee
  let r := roundCoins w vAvailableCoins a nValue round s
  failIf (!r.1) (a.insufficientFunds s.strFailReason)
  let setCoins := env.setOrder r.2.setCoinsRet
  let nChange := wrap 64 (r.2.nValueRet - nValue - s.nFeeRet)
  let d ← placeChange env.minRelayTxFee round a.destChange nChange ⟨payees, a.nChangePosRequest, s⟩
  let txNew : CTransaction := ⟨0, setCoins.map unsignedInput, d.vout⟩
  match signInputs env a.sign txNew setCoins with
  | none => .error "Signing transaction failed"
  | some vin =>
    checkFee env a
      { vin := if a.sign then vin else txNew.vin
        vout := d.vout
        nFeeRet := d.loop.nFeeRet
        nChangePosInOut := d.nChangePosInOut
        setCoins
        nBytes := CTransaction.serializeSize ⟨0, vin, d.vout⟩
        free := false }
      d.loop

/-- The loop; `none` when it has not come to its end in this many rounds. -/
def feeLoop (env : CreateEnv) (w : WalletTxs) (vAvailableCoins : List COutput) (a : CreateArgs)
    (nValue : ℤ) : ℕ → ℕ → FeeLoop → Option (Except String Created)
  | 0, _, _ => none
  | rounds + 1, n, s =>
    match feeRound env w vAvailableCoins a nValue (env.round n) s with
    | .error strFailReason => some (.error strFailReason)
    | .ok (.inl s) => feeLoop env w vAvailableCoins a nValue rounds (n + 1) s
    | .ok (.inr (s, created)) =>
      -- the key pool has run out
      if s.scriptChange.isEmpty && decide (created.nChangePosInOut ≠ -1) then
        some (.error s.strFailReason)
      else some (.ok created)

def createTransaction (env : CreateEnv) (w : WalletTxs) (vAvailableCoins : List COutput)
    (a : CreateArgs) (rounds : ℕ) : Option (Except String Created) :=
  match CreateArgs.total a.vecSend 0 with
  | none => some (.error "Transaction amounts must be positive")
  | some nValue =>
    if a.vecSend.isEmpty || decide (nValue < 0) then
      some (.error "Transaction amounts must be positive")
    else
      feeLoop env w vAvailableCoins a nValue rounds 0 a.start

lemma getFee_nonneg (nSatoshisPerK : ℤ) (nSize : ℕ) : 0 ≤ getFee nSatoshisPerK nSize := by
  rw [getFee]
  split_ifs with h
  · exact h.2.le
  · exact Int.ediv_nonneg (Int.emod_nonneg _ (by decide)) (by decide)

/-! ### The outputs -/

variable {destChange : Option CScript} {rec : CRecipient} {vecSend : List CRecipient}
variable {vout vout' : List CTxOut} {minRelayTxFee nChange : ℤ} {a : CreateArgs} {round : Round}
variable {d d' : Draft}

def valueOf (vout : List CTxOut) : ℤ := (vout.map CTxOut.nValue).sum

/-- These outputs are for the recipient, worth at least the amount, and exactly the amount unless
the change goes to the same script. -/
structure Receives (destChange : Option CScript) (rec : CRecipient) (outs : List CTxOut) : Prop
    where
  script : ∀ o ∈ outs, o.scriptPubKey = rec.scriptPubKey
  nonneg : ∀ o ∈ outs, 0 ≤ o.nValue
  amount : rec.nAmount ≤ valueOf outs
  exact : valueOf outs = rec.nAmount ∨ destChange = some rec.scriptPubKey

/-- The outputs are put together from those for each recipient. -/
def SendsTo (destChange : Option CScript) (vecSend : List CRecipient) (vout : List CTxOut) : Prop :=
  ∃ groups : List (List CTxOut), vout = groups.flatten ∧
    List.Forall₂ (Receives destChange) vecSend groups

@[simp] lemma valueOf_append (l l' : List CTxOut) : valueOf (l ++ l') = valueOf l + valueOf l' := by
  simp [valueOf]

@[simp] lemma valueOf_cons (o : CTxOut) (l : List CTxOut) :
    valueOf (o :: l) = o.nValue + valueOf l := by
  simp [valueOf]

lemma valueOf_nonneg {l : List CTxOut} (h : ∀ o ∈ l, 0 ≤ o.nValue) : 0 ≤ valueOf l :=
  List.sum_nonneg (List.forall_mem_map.mpr h)

lemma SendsTo.nil : SendsTo destChange [] [] := ⟨[], rfl, .nil⟩

lemma SendsTo.append {vecSend' : List CRecipient} (h : SendsTo destChange vecSend vout)
    (h' : SendsTo destChange vecSend' vout') :
    SendsTo destChange (vecSend ++ vecSend') (vout ++ vout') := by
  obtain ⟨groups, rfl, hg⟩ := h
  obtain ⟨groups', rfl, hg'⟩ := h'
  exact ⟨groups ++ groups', List.flatten_append.symm, List.rel_append hg hg'⟩

lemma Receives.sendsTo (h : Receives destChange rec vout) : SendsTo destChange [rec] vout :=
  ⟨[vout], by simp, .cons h .nil⟩

lemma SendsTo.value (h : SendsTo none vecSend vout) :
    valueOf vout = (vecSend.map CRecipient.nAmount).sum ∧ ∀ o ∈ vout, 0 ≤ o.nValue := by
  obtain ⟨groups, rfl, hg⟩ := h
  induction hg with
  | nil => exact ⟨rfl, nofun⟩
  | cons hr _ ih =>
    have hexact := hr.exact.resolve_right nofun
    rw [List.flatten_cons, valueOf_append, List.map_cons, List.sum_cons, hexact, ih.1]
    refine ⟨rfl, fun o ho => ?_⟩
    rcases List.mem_append.mp ho with ho | ho
    · exact hr.nonneg o ho
    · exact ih.2 o ho

lemma SendsTo.mono (h : SendsTo none vecSend vout) (destChange : Option CScript) :
    SendsTo destChange vecSend vout := by
  obtain ⟨groups, rfl, hg⟩ := h
  refine ⟨groups, rfl, hg.imp fun rec outs hr => ?_⟩
  exact ⟨hr.script, hr.nonneg, hr.amount, .inl (hr.exact.resolve_right nofun)⟩

lemma receives_split {nSplitBlock : ℤ} (hn : 1 ≤ nSplitBlock) (hpos : 0 ≤ rec.nAmount)
    (hfit : rec.nAmount < 2 ^ 63) : Receives none rec (CreateArgs.split nSplitBlock rec) := by
  obtain ⟨m, rfl⟩ : ∃ m : ℕ, nSplitBlock = (m : ℤ) + 1 := ⟨(nSplitBlock - 1).toNat, by omega⟩
  have hdiv : rec.nAmount.tdiv (m + 1) * (m + 1) + rec.nAmount.tmod (m + 1) = rec.nAmount :=
    Int.tdiv_mul_add_tmod _ _
  have hquot : 0 ≤ rec.nAmount.tdiv (m + 1) := Int.tdiv_nonneg hpos (by omega)
  have hmod : 0 ≤ rec.nAmount.tmod (m + 1) := Int.tmod_nonneg _ hpos
  have hlast : rec.nAmount.tdiv (m + 1) + rec.nAmount.tmod (m + 1) ≤ rec.nAmount := by
    nlinarith
  have hwrap : wrap 64 (rec.nAmount.tdiv (m + 1) + rec.nAmount.tmod (m + 1)) =
      rec.nAmount.tdiv (m + 1) + rec.nAmount.tmod (m + 1) :=
    wrap_of_fits (by omega) (by omega)
  have heq : CreateArgs.split (m + 1) rec =
      List.replicate m ⟨rec.nAmount.tdiv (m + 1), rec.scriptPubKey⟩ ++
        [⟨rec.nAmount.tdiv (m + 1) + rec.nAmount.tmod (m + 1), rec.scriptPubKey⟩] := by
    rw [CreateArgs.split, hwrap, show ((m : ℤ) + 1).toNat = m + 1 by omega, List.range_succ,
      List.map_append]
    congr 1
    · rw [List.eq_replicate_iff]
      refine ⟨by simp, fun o ho => ?_⟩
      obtain ⟨i, hi, rfl⟩ := List.mem_map.mp ho
      rw [if_neg]
      have := List.mem_range.mp hi
      omega
    · simp
  have hsum : valueOf (CreateArgs.split (m + 1) rec) = rec.nAmount := by
    rw [heq, valueOf_append, valueOf, List.map_replicate, List.sum_replicate]
    simp only [valueOf, List.map_cons, List.map_nil, List.sum_cons, List.sum_nil, nsmul_eq_mul]
    linarith [mul_comm (rec.nAmount.tdiv (m + 1)) ((m : ℤ) + 1)]
  refine ⟨fun o ho => ?_, fun o ho => ?_, hsum.ge, .inl hsum⟩
  all_goals
    rw [heq] at ho
    rcases List.mem_append.mp ho with ho | ho
    · obtain ⟨-, rfl⟩ := List.mem_replicate.mp ho
      first | rfl | exact hquot
    · obtain rfl := List.mem_singleton.mp ho
      first | rfl | exact add_nonneg hquot hmod

/-- A recipient with an amount that fits. -/
def CRecipient.Fits (rec : CRecipient) : Prop := 0 ≤ rec.nAmount ∧ rec.nAmount < 2 ^ 63

lemma sendsTo_split {nSplitBlock : ℤ} (hn : 1 ≤ nSplitBlock) (hfit : ∀ rec ∈ vecSend, rec.Fits) :
    SendsTo none vecSend (vecSend.flatMap (CreateArgs.split nSplitBlock)) := by
  induction vecSend with
  | nil => exact .nil
  | cons rec vecSend ih =>
    obtain ⟨hpos, hlt⟩ := hfit rec List.mem_cons_self
    rw [List.flatMap_cons]
    exact (receives_split hn hpos hlt).sendsTo.append
      (ih fun r hr => hfit r (List.mem_cons_of_mem _ hr))

lemma sendsTo_payees (hfit : ∀ rec ∈ vecSend, rec.Fits)
    (h : loop (CreateArgs.payee minRelayTxFee) vout vecSend = .ok vout') :
    ∃ sent, vout' = vout ++ sent ∧ SendsTo none vecSend sent := by
  induction vecSend generalizing vout with
  | nil =>
    obtain rfl : vout = vout' := by simpa using h
    exact ⟨[], (List.append_nil _).symm, .nil⟩
  | cons rec vecSend ih =>
    simp only [loop_cons, bind_eq_ok] at h
    obtain ⟨t, ht, hrest⟩ := h
    rw [CreateArgs.payee] at ht
    split_ifs at ht with hdust
    obtain rfl : vout ++ [⟨rec.nAmount, rec.scriptPubKey⟩] = t := by simpa using ht
    obtain ⟨sent, rfl, hsent⟩ := ih (fun r hr => hfit r (List.mem_cons_of_mem _ hr)) hrest
    refine ⟨⟨rec.nAmount, rec.scriptPubKey⟩ :: sent, by simp, ?_⟩
    have hone : Receives none rec [⟨rec.nAmount, rec.scriptPubKey⟩] :=
      ⟨by simp, by simpa using (hfit rec List.mem_cons_self).1, by simp [valueOf],
        .inl (by simp [valueOf])⟩
    exact hone.sendsTo.append hsent

lemma payees_sendsTo (hfit : ∀ rec ∈ a.vecSend, rec.Fits)
    (hn : ∀ c, a.coinControl = some c → 1 ≤ c.nSplitBlock)
    (h : a.payees minRelayTxFee = .ok vout) : SendsTo none a.vecSend vout := by
  rw [CreateArgs.payees] at h
  cases hc : a.coinControl with
  | none =>
    obtain rfl : a.vecSend.flatMap (CreateArgs.split 1) = vout := by simpa [hc] using h
    exact sendsTo_split le_rfl hfit
  | some c =>
    simp only [hc] at h
    split_ifs at h with hsplit
    · obtain rfl : a.vecSend.flatMap (CreateArgs.split c.nSplitBlock) = vout := by simpa using h
      exact sendsTo_split (hn c hc) hfit
    · obtain ⟨sent, rfl, hsent⟩ := sendsTo_payees hfit h
      exact hsent

/-! ### The change -/

lemma mergeChange_append {script : CScript} (l l' : List CTxOut) :
    mergeChange script nChange (l ++ l') =
      match mergeChange script nChange l with
      | some m => some (m ++ l')
      | none => (mergeChange script nChange l').map (l ++ ·) := by
  induction l with
  | nil => simp [mergeChange]
  | cons o l ih =>
    rw [List.cons_append, mergeChange, mergeChange]
    split_ifs
    · rfl
    · rw [ih]
      cases mergeChange script nChange l with
      | some m => rfl
      | none => cases mergeChange script nChange l' <;> rfl

lemma mergeChange_eq_some {script : CScript} {l l' : List CTxOut}
    (h : mergeChange script nChange l = some l') :
    ∃ pre o post, l = pre ++ o :: post ∧ o.scriptPubKey = script ∧
      l' = pre ++ { o with nValue := wrap 64 (o.nValue + nChange) } :: post := by
  induction l generalizing l' with
  | nil => cases h
  | cons o l ih =>
    rw [mergeChange] at h
    split_ifs at h with hs
    · obtain rfl := Option.some.inj h
      exact ⟨[], o, l, rfl, hs.symm, rfl⟩
    · obtain ⟨m, hm, rfl⟩ := Option.map_eq_some_iff.mp h
      obtain ⟨pre, o', post, rfl, hs', rfl⟩ := ih hm
      exact ⟨o :: pre, o', post, rfl, hs', rfl⟩

lemma SendsTo.merge {script : CScript} (h : SendsTo none vecSend vout) (hpos : 0 ≤ nChange)
    (hlt : valueOf vout + nChange < 2 ^ 63) (hm : mergeChange script nChange vout = some vout') :
    SendsTo (some script) vecSend vout' ∧ valueOf vout' = valueOf vout + nChange := by
  obtain ⟨groups, rfl, hg⟩ := h
  induction hg generalizing vout' with
  | nil => cases hm
  | @cons rec outs vecSend groups hr hrest ih =>
    have hexact := hr.exact.resolve_right nofun
    have hrestValue := SendsTo.value ⟨groups, rfl, hrest⟩
    have hpart := valueOf_nonneg hrestValue.2
    rw [List.flatten_cons, valueOf_append] at hlt
    rw [List.flatten_cons, mergeChange_append] at hm
    cases hmerge : mergeChange script nChange outs with
    | some outs' =>
      obtain rfl : outs' ++ groups.flatten = vout' := by simpa [hmerge] using hm
      obtain ⟨pre, o, post, rfl, hs, rfl⟩ := mergeChange_eq_some hmerge
      have ho := hr.nonneg o (by simp)
      have hpre := valueOf_nonneg fun o ho => hr.nonneg o (List.mem_append_left _ ho)
      have hpost := valueOf_nonneg fun o' ho =>
        hr.nonneg o' (List.mem_append_right pre (List.mem_cons_of_mem o ho))
      simp only [valueOf_append, valueOf_cons, List.flatten_cons] at hlt hexact ⊢
      have hwrap : wrap 64 (o.nValue + nChange) = o.nValue + nChange :=
        wrap_of_fits (by omega) (by omega)
      have hscript : rec.scriptPubKey = script := (hr.script o (by simp)).symm.trans hs
      have hreceives : Receives (some script) rec
          (pre ++ { o with nValue := wrap 64 (o.nValue + nChange) } :: post) := by
        refine ⟨fun o' ho' => ?_, fun o' ho' => ?_, ?_, .inr (by rw [hscript])⟩
        · rcases List.mem_append.mp ho' with ho' | ho'
          · exact hr.script o' (List.mem_append_left _ ho')
          · rcases List.mem_cons.mp ho' with rfl | ho'
            · exact hr.script o (by simp)
            · exact hr.script o' (List.mem_append_right pre (List.mem_cons_of_mem o ho'))
        · rcases List.mem_append.mp ho' with ho' | ho'
          · exact hr.nonneg o' (List.mem_append_left _ ho')
          · rcases List.mem_cons.mp ho' with rfl | ho'
            · rw [hwrap]
              exact add_nonneg ho hpos
            · exact hr.nonneg o' (List.mem_append_right pre (List.mem_cons_of_mem o ho'))
        · rw [valueOf_append, valueOf_cons, hwrap]
          dsimp only
          omega
      have hsends := SendsTo.mono ⟨groups, rfl, hrest⟩ (some script)
      refine ⟨hreceives.sendsTo.append hsends, ?_⟩
      rw [hwrap]
      omega
    | none =>
      have hm' : (mergeChange script nChange groups.flatten).map (outs ++ ·) = some vout' := by
        simpa [hmerge] using hm
      obtain ⟨rest, hrest', rfl⟩ := Option.map_eq_some_iff.mp hm'
      have houts := valueOf_nonneg hr.nonneg
      obtain ⟨hsends, hvalue⟩ := ih (by omega) hrest'
      have hone : Receives (some script) rec outs :=
        ⟨hr.script, hr.nonneg, hr.amount, .inl hexact⟩
      refine ⟨hone.sendsTo.append hsends, ?_⟩
      rw [List.flatten_cons, valueOf_append, valueOf_append, hvalue, add_assoc]

lemma valueOf_insertIdx {i : ℕ} {o : CTxOut} {l : List CTxOut} (hi : i ≤ l.length) :
    valueOf (l.insertIdx i o) = o.nValue + valueOf l := by
  have hperm := List.perm_insertIdx o l hi
  exact (hperm.map CTxOut.nValue).sum_eq.trans (valueOf_cons o l)

/-- What can become of the change. -/
inductive Placed (minRelayTxFee : ℤ) (destChange : Option CScript) (nChange : ℤ) (d : Draft) :
    Draft → Prop
  | nothing : nChange ≤ 0 → Placed minRelayTxFee destChange nChange d d
  | merged {script : CScript} {vout : List CTxOut} {s : FeeLoop} : 0 < nChange →
      destChange = some script → mergeChange script nChange d.vout = some vout →
      s.nFeeRet = d.loop.nFeeRet →
      Placed minRelayTxFee destChange nChange d ⟨vout, d.nChangePosInOut, s⟩
  | dust {s : FeeLoop} : 0 < nChange →
      (∀ script, destChange = some script → mergeChange script nChange d.vout = none) →
      s.nFeeRet = wrap 64 (d.loop.nFeeRet + nChange) →
      Placed minRelayTxFee destChange nChange d ⟨d.vout, -1, s⟩
  | inserted {i : ℕ} {o : CTxOut} {s : FeeLoop} : 0 < nChange →
      (∀ script, destChange = some script → mergeChange script nChange d.vout = none) →
      i ≤ d.vout.length → o.nValue = nChange → s.nFeeRet = d.loop.nFeeRet →
      (d.nChangePosInOut = -1 ∨ d.nChangePosInOut = i) →
      Placed minRelayTxFee destChange nChange d ⟨d.vout.insertIdx i o, i, s⟩

lemma insertChange_placed {s : FeeLoop} (hpos : 0 < nChange)
    (hmerge : ∀ script, destChange = some script → mergeChange script nChange d.vout = none)
    (hs : s.nFeeRet = d.loop.nFeeRet)
    (h : insertChange minRelayTxFee round nChange ⟨d.vout, d.nChangePosInOut, s⟩ = .ok d') :
    Placed minRelayTxFee destChange nChange d d' := by
  rw [insertChange] at h
  dsimp only at h
  split_ifs at h with hdust hrandom hrange
  · obtain rfl := Except.ok.inj h
    exact .dust hpos hmerge (by rw [← hs])
  · obtain rfl := Except.ok.inj h
    have hlt := round.lt d.vout.length
    exact .inserted hpos hmerge (by omega) rfl hs (.inl hrandom)
  · obtain rfl := Except.ok.inj h
    have hi : ((d.nChangePosInOut.toNat : ℕ) : ℤ) = d.nChangePosInOut := by omega
    have hplaced : Placed minRelayTxFee destChange nChange d
        ⟨d.vout.insertIdx d.nChangePosInOut.toNat ⟨nChange, s.scriptChange⟩,
          d.nChangePosInOut.toNat, s⟩ :=
      .inserted hpos hmerge (by omega) rfl hs (.inr hi.symm)
    rwa [hi] at hplaced

lemma placeChange_placed (h : placeChange minRelayTxFee round destChange nChange d = .ok d') :
    Placed minRelayTxFee destChange nChange d d' := by
  unfold placeChange at h
  split_ifs at h with hpos
  · cases hdest : destChange with
    | none =>
      simp only [hdest] at h
      refine insertChange_placed hpos nofun ?_ h
      cases round.reservedKey <;> rfl
    | some script =>
      simp only [hdest] at h
      cases hm : mergeChange script nChange d.vout with
      | some vout =>
        simp only [hm] at h
        obtain rfl := Except.ok.inj h
        exact .merged hpos rfl hm rfl
      | none =>
        simp only [hm] at h
        exact insertChange_placed hpos (fun s hs => Option.some.inj hs ▸ hm) (by rfl) h
  · obtain rfl := Except.ok.inj h
    exact .nothing (not_lt.mp hpos)

/-- The outputs are those to the recipients and at most one more. -/
def SendsWith (destChange : Option CScript) (vecSend : List CRecipient) (vout : List CTxOut) :
    Prop :=
  ∃ sent, SendsTo destChange vecSend sent ∧
    (vout = sent ∨ ∃ i o, i ≤ sent.length ∧ vout = sent.insertIdx i o)

lemma Placed.conserves (h : Placed minRelayTxFee destChange nChange d d') (hpos : 0 ≤ nChange)
    (hsends : SendsTo none vecSend d.vout) (hlt : valueOf d.vout + nChange < 2 ^ 63)
    (hfee : 0 ≤ d.loop.nFeeRet) (hfeeLt : d.loop.nFeeRet + nChange < 2 ^ 63) :
    valueOf d'.vout + d'.loop.nFeeRet = valueOf d.vout + d.loop.nFeeRet + nChange ∧
      d.loop.nFeeRet ≤ d'.loop.nFeeRet ∧ SendsWith destChange vecSend d'.vout := by
  have hmono := hsends.mono destChange
  cases h with
  | nothing hle => exact ⟨by omega, le_rfl, _, hmono, .inl rfl⟩
  | merged _ hdest hmerge hfeeEq =>
    obtain ⟨hsent, hvalue⟩ := hsends.merge hpos hlt hmerge
    refine ⟨?_, hfeeEq.ge, _, hdest ▸ hsent, .inl rfl⟩
    dsimp only
    rw [hvalue, hfeeEq]
    omega
  | dust _ _ hfeeEq =>
    rw [wrap_of_fits (by omega) hfeeLt] at hfeeEq
    refine ⟨?_, ?_, _, hmono, .inl rfl⟩
    · dsimp only
      omega
    · dsimp only
      omega
  | @inserted i o s _ _ hi ho hfeeEq _ =>
    refine ⟨?_, hfeeEq.ge, _, hmono, .inr ⟨i, o, hi, rfl⟩⟩
    dsimp only
    rw [valueOf_insertIdx hi, ho, hfeeEq]
    omega

/-! ### One round -/

variable {env : CreateEnv} {w : WalletTxs} {av : w.Available} {s s' : FeeLoop} {nValue : ℤ}
variable {created : Created} {r : FeeLoop ⊕ FeeLoop × Created}

lemma map_eq_of_mapM {α β γ : Type} {f : α → Option β} {g : β → γ} {k : α → γ} {l : List α}
    {l' : List β} (hf : ∀ x y, f x = some y → g y = k x) (h : l.mapM f = some l') :
    l'.map g = l.map k := by
  induction l generalizing l' with
  | nil =>
    obtain rfl : [] = l' := by simpa using h
    rfl
  | cons x l ih =>
    rw [List.mapM_cons] at h
    obtain ⟨y, hy, hrest⟩ := Option.bind_eq_some_iff.mp h
    obtain ⟨ys, hys, hcons⟩ := Option.bind_eq_some_iff.mp hrest
    obtain rfl : y :: ys = l' := by simpa using hcons
    rw [List.map_cons, List.map_cons, hf x y hy, ih hys]

lemma prevout_signInputs {sign : Bool} {tx : CTransaction} {coins : List WalletCoin}
    {vin : List CTxIn} (h : signInputs env sign tx coins = some vin) :
    vin.map CTxIn.prevout = coins.map WalletTxs.outPoint := by
  have hmap := map_eq_of_mapM (g := CTxIn.prevout) (k := fun p => WalletTxs.outPoint p.1)
    (fun p y hy => by
      obtain ⟨scriptSig, -, rfl⟩ := Option.map_eq_some_iff.mp hy
      rfl) h
  rw [hmap]
  conv_rhs => rw [← List.zipIdx_map_fst 0 coins, List.map_map]
  rfl

lemma checkFee_cases (h : checkFee env a created s = .ok r) :
    (∃ free, r = .inr (s, { created with free }) ∧
      (free = true ∨ a.feeNeeded env created.nBytes ≤ s.nFeeRet)) ∨
    ∃ s', r = .inl s' ∧ s.nFeeRet < s'.nFeeRet ∧ 0 ≤ s'.nFeeRet ∧
      s'.nFeeRet = a.feeNeeded env created.nBytes := by
  unfold checkFee at h
  split_ifs at h with hsize hfree hlow hdone
  · obtain rfl := Except.ok.inj h
    exact .inl ⟨true, rfl, .inl rfl⟩
  · obtain rfl := Except.ok.inj h
    exact .inl ⟨created.free, rfl, .inr hdone⟩
  · obtain rfl := Except.ok.inj h
    have hnonneg := getFee_nonneg env.minRelayTxFee created.nBytes
    exact .inr ⟨_, rfl, not_le.mp hdone, hnonneg.trans (not_lt.mp hlow), rfl⟩

/-- How a round has put the transaction together. -/
structure Drafted (env : CreateEnv) (a : CreateArgs) (nValue : ℤ) (sel : Bool × Selection)
    (s : FeeLoop) (payees : List CTxOut) (d : Draft) (created : Created) : Prop where
  outputs : a.payees env.minRelayTxFee = .ok payees
  found : sel.1 = true
  placed : Placed env.minRelayTxFee a.destChange (wrap 64 (sel.2.nValueRet - nValue - s.nFeeRet))
    ⟨payees, a.nChangePosRequest, s⟩ d
  coins : created.setCoins.Perm sel.2.setCoinsRet
  vin : created.vin.map CTxIn.prevout = created.setCoins.map WalletTxs.outPoint
  vout : created.vout = d.vout
  fee : created.nFeeRet = d.loop.nFeeRet
  position : created.nChangePosInOut = d.nChangePosInOut
  size : a.sign = true →
    created.nBytes = CTransaction.serializeSize ⟨0, created.vin, created.vout⟩

lemma feeRound_drafted {vAvailableCoins : List COutput}
    (h : feeRound env w vAvailableCoins a nValue round s = .ok r) :
    ∃ payees d created, Drafted env a nValue (roundCoins w vAvailableCoins a nValue round s) s
      payees d created ∧ checkFee env a created d.loop = .ok r := by
  rw [feeRound] at h
  simp only [bind_eq_ok, failIf_eq_ok] at h
  obtain ⟨payees, hpayees, -, hfound, d, hd, hcheck⟩ := h
  split at hcheck
  · cases hcheck
  · next vin hsign =>
    have hvin := prevout_signInputs hsign
    refine ⟨payees, d, _, ⟨hpayees, by simpa using hfound, placeChange_placed hd, env.perm _, ?_,
      rfl, rfl, rfl, fun hs => by simp only [hs, if_true]⟩, hcheck⟩
    cases a.sign with
    | true => exact hvin
    | false =>
      simp only [Bool.false_eq_true, if_false, List.map_map]
      rfl

/-- What a transaction is to satisfy that the wallet has made. -/
structure Conserves (env : CreateEnv) (av : w.Available) (a : CreateArgs) (created : Created) :
    Prop where
  distinct : (created.vin.map CTxIn.prevout).Nodup
  inputs : created.vin.map CTxIn.prevout = created.setCoins.map WalletTxs.outPoint
  known : ∀ coin ∈ created.setCoins, WalletTxs.Candidate av a.selected coin
  value : (created.setCoins.map coinValue).sum = valueOf created.vout + created.nFeeRet
  recipients : SendsWith a.destChange a.vecSend created.vout
  size : a.sign = true →
    created.nBytes = CTransaction.serializeSize ⟨0, created.vin, created.vout⟩
  fee : created.free = true ∨ a.feeNeeded env created.nBytes ≤ created.nFeeRet

/-- What a round relies on: the amounts, the fee so far and a cent fit into an amount. -/
structure RoundFits (a : CreateArgs) (nValue : ℤ) (s : FeeLoop) : Prop where
  recipients : ∀ rec ∈ a.vecSend, rec.Fits
  sum : nValue = (a.vecSend.map CRecipient.nAmount).sum
  split : ∀ c, a.coinControl = some c → 1 ≤ c.nSplitBlock
  nonneg : 0 ≤ s.nFeeRet
  lt : nValue + s.nFeeRet + CENT < 2 ^ 63

lemma RoundFits.nValue_nonneg (h : RoundFits a nValue s) : 0 ≤ nValue := by
  rw [h.sum]
  exact List.sum_nonneg (List.forall_mem_map.mpr fun rec hr => (h.recipients rec hr).1)

lemma RoundFits.selects (hfits : RoundFits a nValue s)
    (hfunds : WalletTxs.FundsFit av a.selected)
    (hfound : (roundCoins w av.vCoins a nValue round s).1 = true) :
    WalletTxs.Pays (nValue + s.nFeeRet) (WalletTxs.Candidate av a.selected)
        (roundCoins w av.vCoins a nValue round s).2 ∧
      ((a.coinControl.any fun c => !c.setSelected.isEmpty && !c.fAllowOtherInputs) = false →
        ∀ o ∈ a.selected, ∃ coin ∈ (roundCoins w av.vCoins a nValue round s).2.setCoinsRet,
          WalletTxs.outPoint coin = o) := by
  have hpos := hfits.nValue_nonneg
  have hfee := hfits.nonneg
  have hlt := hfits.lt
  have hCENT : 0 < CENT := by decide
  unfold roundCoins at hfound ⊢
  rw [wrap_of_fits (by omega) (by omega)] at hfound ⊢
  exact WalletTxs.selectCoinsToSpend_pays hfunds hlt hfound

lemma Drafted.balance {payees : List CTxOut} {d : Draft}
    (hd : Drafted env a nValue (roundCoins w av.vCoins a nValue round s) s payees d created)
    (hfits : RoundFits a nValue s) (hfunds : WalletTxs.FundsFit av a.selected) :
    valueOf d.vout + d.loop.nFeeRet =
        ((roundCoins w av.vCoins a nValue round s).2.setCoinsRet.map coinValue).sum ∧
      s.nFeeRet ≤ d.loop.nFeeRet ∧ SendsWith a.destChange a.vecSend d.vout := by
  have hpays := (hfits.selects hfunds hd.found).1
  have hin := (hfunds.fit hpays.nodup hpays.mem).sum_lt
  have hreach := hpays.reach
  rw [← hpays.value] at hin ⊢
  have hpos := hfits.nValue_nonneg
  have hnonneg := hfits.nonneg
  have hplaced := hd.placed
  rw [wrap_of_fits (by omega) (by omega)] at hplaced
  have hsends := payees_sendsTo hfits.recipients hfits.split hd.outputs
  have hvalue : valueOf payees = nValue := by
    rw [hsends.value.1, hfits.sum]
  obtain ⟨hsum, hle, hwith⟩ := hplaced.conserves (by omega) hsends
    (by dsimp only; omega) hnonneg (by dsimp only; omega)
  dsimp only at hsum
  exact ⟨by omega, hle, hwith⟩

lemma feeRound_conserves (hfits : RoundFits a nValue s) (hfunds : WalletTxs.FundsFit av a.selected)
    (h : feeRound env w av.vCoins a nValue round s = .ok (.inr (s', created))) :
    Conserves env av a created := by
  obtain ⟨payees, d, c, hd, hcheck⟩ := feeRound_drafted h
  have hpays := (hfits.selects hfunds hd.found).1
  obtain ⟨hsum, -, hwith⟩ := hd.balance hfits hfunds
  have hnodup : c.setCoins.Nodup := hd.coins.nodup_iff.mpr hpays.nodup
  have hknown : ∀ coin ∈ c.setCoins, WalletTxs.Candidate av a.selected coin :=
    fun coin hc => hpays.mem coin (hd.coins.mem_iff.mp hc)
  have hdistinct : (c.vin.map CTxIn.prevout).Nodup := by
    rw [hd.vin]
    exact WalletTxs.nodup_outPoint (fun coin hc => (hknown coin hc).known) hnodup
  have hconserved : (c.setCoins.map coinValue).sum = valueOf c.vout + c.nFeeRet := by
    rw [(hd.coins.map coinValue).sum_eq, hd.vout, hd.fee, hsum]
  rcases checkFee_cases hcheck with ⟨free, hr, hfee⟩ | ⟨s'', hr, -⟩
  · obtain ⟨rfl, rfl⟩ : s' = d.loop ∧ created = { c with free } := by simpa using hr
    exact ⟨hdistinct, hd.vin, hknown, hconserved, hd.vout ▸ hwith, hd.size, hd.fee ▸ hfee⟩
  · cases hr

lemma feeRound_again (hfits : RoundFits a nValue s) (hfunds : WalletTxs.FundsFit av a.selected)
    (h : feeRound env w av.vCoins a nValue round s = .ok (.inl s')) :
    s.nFeeRet < s'.nFeeRet ∧ 0 ≤ s'.nFeeRet := by
  obtain ⟨payees, d, c, hd, hcheck⟩ := feeRound_drafted h
  obtain ⟨-, hle, -⟩ := hd.balance hfits hfunds
  rcases checkFee_cases hcheck with ⟨free, hr, -⟩ | ⟨s'', hr, hlt, hnonneg, -⟩
  · cases hr
  · obtain rfl : s' = s'' := by simpa using hr
    exact ⟨lt_of_le_of_lt hle hlt, hnonneg⟩

/-! ### Runs of the loop -/

/-- The loop comes to a round with this state. -/
inductive Reaches (env : CreateEnv) (w : WalletTxs) (vAvailableCoins : List COutput)
    (a : CreateArgs) (nValue : ℤ) : ℕ → FeeLoop → Prop
  | start : Reaches env w vAvailableCoins a nValue 0 a.start
  | next {n : ℕ} {s s' : FeeLoop} : Reaches env w vAvailableCoins a nValue n s →
      feeRound env w vAvailableCoins a nValue (env.round n) s = .ok (.inl s') →
      Reaches env w vAvailableCoins a nValue (n + 1) s'

lemma Reaches.eq_start {vAvailableCoins : List COutput} {n : ℕ} {r : FeeLoop × Created}
    (hfirst : feeRound env w vAvailableCoins a nValue (env.round 0) a.start = .ok (.inr r))
    (h : Reaches env w vAvailableCoins a nValue n s) : n = 0 ∧ s = a.start := by
  induction h with
  | start => exact ⟨rfl, rfl⟩
  | next _ hround ih =>
    obtain ⟨rfl, rfl⟩ := ih
    cases Except.ok.inj (hround.symm.trans hfirst)

lemma Reaches.nonneg {vAvailableCoins : List COutput} {n : ℕ}
    (h : Reaches env w vAvailableCoins a nValue n s) : 0 ≤ s.nFeeRet := by
  cases h with
  | start =>
    rw [CreateArgs.start]
    dsimp only
    split_ifs with hpos
    · exact hpos.le
    · exact le_rfl
  | next _ hround =>
    obtain ⟨payees, d, c, hd, hcheck⟩ := feeRound_drafted hround
    rcases checkFee_cases hcheck with ⟨free, hr, -⟩ | ⟨s'', hr, -, hnonneg, -⟩
    · cases hr
    · obtain rfl : s = s'' := by simpa using hr
      exact hnonneg

/-- The fees that can be asked for are at most `nMaxFee`: what the caller is ready to pay, what is
demanded for any size, and what the coin control says. -/
structure FeesWithin (env : CreateEnv) (a : CreateArgs) (nMaxFee : ℤ) : Prop where
  pay : a.nFeePay ≤ nMaxFee
  minimum : ∀ nBytes, env.getMinimumFee nBytes ≤ nMaxFee
  control : ∀ c, a.coinControl = some c → c.nMinimumTotalFee ≤ nMaxFee ∧ c.nFeeRate ≤ nMaxFee

lemma getFee_le (nSatoshisPerK : ℤ) (nSize : ℕ) :
    getFee nSatoshisPerK nSize ≤ max nSatoshisPerK (2 ^ 64 / 1000) := by
  have hlt := Int.emod_lt_of_pos (nSatoshisPerK * nSize) (show (0 : ℤ) < 2 ^ 64 by decide)
  rw [getFee]
  split_ifs
  · exact le_max_left _ _
  · exact le_max_of_le_right (Int.ediv_le_ediv (by decide) hlt.le)

lemma FeesWithin.feePay_le {nMaxFee : ℤ} (h : FeesWithin env a nMaxFee) :
    a.feePay ≤ max nMaxFee (2 ^ 64 / 1000) := by
  rw [CreateArgs.feePay]
  split_ifs
  · exact le_max_of_le_right (by decide)
  · exact le_max_of_le_left h.pay

lemma FeesWithin.feeNeeded_le {nMaxFee : ℤ} (h : FeesWithin env a nMaxFee) (nBytes : ℕ) :
    a.feeNeeded env nBytes ≤ max nMaxFee (2 ^ 64 / 1000) := by
  have hneeded : max a.feePay (env.getMinimumFee nBytes) ≤ max nMaxFee (2 ^ 64 / 1000) :=
    max_le h.feePay_le (le_max_of_le_left (h.minimum nBytes))
  rw [CreateArgs.feeNeeded]
  cases hc : a.coinControl with
  | none => exact hneeded
  | some c =>
    obtain ⟨htotal, hrate⟩ := h.control c hc
    dsimp only
    split_ifs
    · exact (getFee_le _ _).trans (max_le_max_right _ hrate)
    · exact le_max_of_le_left htotal
    · exact hneeded

lemma Reaches.nFeeRet_le {vAvailableCoins : List COutput} {n : ℕ} {nMaxFee : ℤ}
    (hfees : FeesWithin env a nMaxFee) (h : Reaches env w vAvailableCoins a nValue n s) :
    s.nFeeRet ≤ max nMaxFee (2 ^ 64 / 1000) := by
  cases h with
  | start =>
    rw [CreateArgs.start]
    dsimp only
    split_ifs
    · exact hfees.feePay_le
    · exact le_max_of_le_right (by decide)
  | next _ hround =>
    obtain ⟨payees, d, c, hd, hcheck⟩ := feeRound_drafted hround
    rcases checkFee_cases hcheck with ⟨free, hr, -⟩ | ⟨s'', hr, -, -, heq⟩
    · cases hr
    · obtain rfl : s = s'' := by simpa using hr
      rw [heq]
      exact hfees.feeNeeded_le _

lemma feeLoop_ends {vAvailableCoins : List COutput} {rounds n : ℕ}
    (h : Reaches env w vAvailableCoins a nValue n s)
    (hr : feeLoop env w vAvailableCoins a nValue rounds n s = some (.ok created)) :
    ∃ n s s', Reaches env w vAvailableCoins a nValue n s ∧
      feeRound env w vAvailableCoins a nValue (env.round n) s = .ok (.inr (s', created)) := by
  induction rounds generalizing n s with
  | zero => cases hr
  | succ rounds ih =>
    cases hfee : feeRound env w vAvailableCoins a nValue (env.round n) s with
    | error e => simp [feeLoop, hfee] at hr
    | ok r =>
      rcases r with s' | ⟨s', c⟩
      · simp only [feeLoop, hfee] at hr
        exact ih (.next h hfee) hr
      · simp only [feeLoop, hfee] at hr
        split_ifs at hr
        · simp at hr
        · obtain rfl : c = created := by simpa using hr
          exact ⟨n, s, s', h, hfee⟩

section Loop

variable (hrecipients : ∀ rec ∈ a.vecSend, rec.Fits)
  (hsum : nValue = (a.vecSend.map CRecipient.nAmount).sum)
  (hsplit : ∀ c, a.coinControl = some c → 1 ≤ c.nSplitBlock)
  (hfunds : WalletTxs.FundsFit av a.selected)
  (hfits : ∀ n s, Reaches env w av.vCoins a nValue n s → nValue + s.nFeeRet + CENT < 2 ^ 63)

include hrecipients hsum hsplit hfits in
lemma Reaches.fits {n : ℕ} (h : Reaches env w av.vCoins a nValue n s) : RoundFits a nValue s :=
  ⟨hrecipients, hsum, hsplit, h.nonneg, hfits n s h⟩

include hrecipients hsum hsplit hfunds hfits in
lemma feeLoop_terminates {n : ℕ} (h : Reaches env w av.vCoins a nValue n s) :
    ∃ rounds, (feeLoop env w av.vCoins a nValue rounds n s).isSome = true := by
  induction hm : (2 ^ 63 - s.nFeeRet).toNat using Nat.strong_induction_on generalizing n s with
  | _ m ih =>
    have hround := h.fits hrecipients hsum hsplit hfits
    cases hr : feeRound env w av.vCoins a nValue (env.round n) s with
    | error e => exact ⟨1, by simp [feeLoop, hr]⟩
    | ok r =>
      rcases r with s' | ⟨s', created⟩
      · obtain ⟨hrise, -⟩ := feeRound_again hround hfunds hr
        have hnext := Reaches.next h hr
        have hlt := hfits _ _ hnext
        have hpos := hround.nValue_nonneg
        have hCENT : 0 < CENT := by decide
        obtain ⟨rounds, hrounds⟩ := ih _ (by omega) hnext rfl
        exact ⟨rounds + 1, by simpa [feeLoop, hr] using hrounds⟩
      · refine ⟨1, ?_⟩
        simp only [feeLoop, hr]
        split_ifs <;> rfl

include hrecipients hsum hsplit hfunds hfits in
lemma feeLoop_conserves {rounds n : ℕ} (h : Reaches env w av.vCoins a nValue n s)
    (hr : feeLoop env w av.vCoins a nValue rounds n s = some (.ok created)) :
    Conserves env av a created := by
  obtain ⟨n, s, s', hreach, hfee⟩ := feeLoop_ends h hr
  exact feeRound_conserves (hreach.fits hrecipients hsum hsplit hfits) hfunds hfee

end Loop

lemma total_eq (h : ∀ rec ∈ vecSend, 0 ≤ rec.nAmount) (hpos : 0 ≤ nValue)
    (hlt : nValue + (vecSend.map CRecipient.nAmount).sum < 2 ^ 63) :
    CreateArgs.total vecSend nValue = some (nValue + (vecSend.map CRecipient.nAmount).sum) := by
  induction vecSend generalizing nValue with
  | nil => simp [CreateArgs.total]
  | cons rec vecSend ih =>
    have hrec := h rec List.mem_cons_self
    have hrest : ∀ r ∈ vecSend, 0 ≤ r.nAmount := fun r hr => h r (List.mem_cons_of_mem _ hr)
    have hsum := List.sum_nonneg (List.forall_mem_map.mpr hrest)
    rw [List.map_cons, List.sum_cons] at hlt ⊢
    rw [CreateArgs.total, if_neg (not_lt.mpr hrec), wrap_of_fits (by omega) (by omega),
      ih hrest (by omega) (by omega), add_assoc]

namespace ThreeCoins

def tx : CWalletTx := ⟨⟨1, [], [⟨2000001, []⟩, ⟨3000000, []⟩, ⟨50000000, []⟩]⟩, true⟩

def txs : WalletTxs where
  mapWallet h := if h = 1 then some tx else none
  hash_eq := by
    intro h t ht
    split_ifs at ht with h1
    rw [← Option.some.inj ht, h1]
    rfl
  range := by
    intro h t ht out ho
    split_ifs at ht with h1
    obtain rfl : tx = t := Option.some.inj ht
    revert out
    decide
  bSpendZeroConfChange := true

def available : txs.Available where
  vCoins := (List.range 3).map fun i => ⟨tx, i, 6, true⟩
  known := by
    intro out ho
    obtain ⟨i, hi, rfl⟩ := List.mem_map.mp ho
    exact ⟨rfl, List.mem_range.mp hi⟩
  nodup := by decide

/-- Payments of these amounts, with a fee of that much to start with. -/
def pay (amounts : List ℤ) (nFeePay : ℤ) : CreateArgs :=
  ⟨amounts.map fun nAmount => ⟨[0x51], nAmount⟩, -1, none, true, true, false, nFeePay⟩

/-- The same fee is demanded for every size. -/
def demanding (minRelayTxFee minimumFee : ℤ) : CreateEnv where
  setOrder := id
  perm _ := .rfl
  minRelayTxFee
  getMinimumFee _ := minimumFee
  fSendFreeTransactions := false
  produceSignature _ _ _ _ := some []
  allowFree _ _ := false
  round _ :=
    ⟨fun _ => ⟨id, fun _ => .rfl, fun _ _ _ => true⟩, fun _ => 0, Nat.succ_pos, some [0x52]⟩

lemma fundsFit : WalletTxs.FundsFit available [] := by
  intro coins hnodup hcand
  have hsub : coins ⊆ available.vCoins.map COutput.coin := by
    intro coin hc
    rcases hcand coin hc with h | ⟨-, h⟩
    · exact h
    · cases h
  have hvalue : ∀ coin ∈ available.vCoins.map COutput.coin, coinValue coin ≤ 50000000 := by decide
  have hle := List.sum_le_card_nsmul (coins.map coinValue) 50000000
    (List.forall_mem_map.mpr fun coin hc => hvalue coin (hsub hc))
  have hlen := (hnodup.subperm hsub).length_le
  have hthree : (available.vCoins.map COutput.coin).length = 3 := rfl
  rw [List.length_map, nsmul_eq_mul] at hle
  omega

end ThreeCoins

end CWallet

end Agenor
