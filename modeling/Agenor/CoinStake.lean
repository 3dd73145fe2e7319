import Agenor.Budget
import Agenor.MasternodeReward
import Agenor.Solver
import Agenor.StakeInput
import Agenor.SwiftTX
import Agenor.Compressor

/-!
The coinstake that a wallet makes for a new block (`CWallet::CreateCoinStake` of `wallet.cpp`, with
`Stake` of `kernel.cpp` and `CAgeStake::CreateTxOuts` of `stakeinput.cpp`).

The search looks at one coin after the other. It goes on to the next when the kernel of a coin is
not found, and also when it is found but no outputs can be made for the coin; after the last coin
only the flag of that coin is asked whether there is a coinstake.
-/

namespace Agenor

open Lib.Fallible Lib.Wrap

/-! ### The wallet -/

/-- `COutput`: an output that `AvailableCoins` has found. It is worth something, and no more than
the money that a transaction may move. -/
structure COutput where
  tx : CTransaction
  i : ℕ
  lt : i < tx.vout.length
  int : i < 2 ^ 31
  pos : 0 < tx.vout[i].nValue
  le : tx.vout[i].nValue ≤ 10 ^ 16

namespace COutput

variable (out : COutput)

def txOut : CTxOut := out.tx.vout.get ⟨out.i, out.lt⟩

/-- The outpoint that `SetPrevout` remembers. -/
def prevout : COutPoint := ⟨out.tx.hash, out.i⟩

/-- `CAgeStake::CreateTxIn`, which does not fail. -/
def createTxIn : Option CTxIn := some ⟨out.prevout, [], 4294967295⟩

end COutput

structure StakeWallet where
  /-- `GetKey`: the public key of a key that the wallet has, by the hash of it. -/
  getKey : Valtype → Option Valtype
  nStakeSplitThreshold : ℤ
  /-- `SignSignature`: the script for an input of a transaction. -/
  signSignature : List CTxIn → List CTxOut → ℕ → Option CScript

/-- What the search meets at one coin. -/
structure StakeEnv where
  node : Node
  isLocked : Bool
  shutdownRequested : Bool
  budget : CBudgetManager
  /-- `GetBestHeight()` of the budget. -/
  nBestHeight : ℤ
  masternodePayments : CMasternodePayments
  /-- `mnodeman.GetCurrentMasterNode(1)`, by the script it is paid to. -/
  currentMasterNode : Option CScript

def StakeEnv.fillBlockPayee (e : StakeEnv) (pindexPrev : CBlockIndex) (fProofOfStake : Bool)
    (vout : List CTxOut) : List CTxOut :=
  if e.node.isSporkActive .SPORK_13_ENABLE_SUPERBLOCKS &&
      e.node.isBudgetPaymentBlock (pindexPrev.nHeight + 1) then
    e.budget.fillBlockPayee e.node.params e.nBestHeight fProofOfStake vout
  else
    e.masternodePayments.fillBlockPayee e.node.params e.currentMasterNode pindexPrev.nHeight
      fProofOfStake vout

/-- How a call ends that does not return `true`: with `false`, or by copying from past the end of a
script. -/
inductive StakeFault
  | refused
  | outOfRange
  deriving DecidableEq, Repr

/-! ### The kernel -/

def nTimeSlotLength : ℤ := 15

def getTimeSlot (nTime : ℤ) : ℤ := nTime.tdiv nTimeSlotLength * nTimeSlotLength

/-- `CAgeStake::GetIndexFrom`, for the transaction of a coin. -/
def getIndexFrom (node : Node) (txFrom : CTransaction) : Option CBlockIndex := do
  let (_, hashBlock) ← node.getTransaction txFrom.hash
  let pindex ← node.mapBlockIndex hashBlock
  if node.contains pindex then return pindex else failure

/-- The time of the block that `Stake` tries: the current time slot, or the time itself on the
regression test network. -/
def stakeTime (node : Node) : ℤ :=
  if node.params.isRegTestNet then node.adjustedTime else getTimeSlot node.adjustedTime

/-- `Stake`: whether the kernel is found, and the time it leaves behind. -/
def stake (K : KernelEnv) (node : Node) (pindexPrev : CBlockIndex) (out : COutput) (nBits : ℕ)
    (nTimeTx : ℤ) : Bool × ℤ :=
  match getIndexFrom node out.tx with
  | none => (false, nTimeTx)
  | some pindexFrom =>
    let stakeInput : CAgeStake := ⟨out.tx, out.i, pindexFrom⟩
    if !stakeInput.contextCheck node.params (pindexPrev.nHeight + 1) (uint32 nTimeTx) then
      (false, nTimeTx)
    else
      let nTimeTx := stakeTime node
      if decide (nTimeTx ≤ pindexPrev.nTime) && !node.params.isRegTestNet then (false, nTimeTx)
      else (stakeInput.checkKernelHash K node.params pindexPrev nBits (uint32 nTimeTx)
        out.txOut.nValue, nTimeTx)

/-! ### The outputs -/

/-- `MAX_STANDARD_TX_SIZE >> 11`. -/
def txSizeMax : ℤ := 100000 / 2 ^ 11

def DEFAULT_BLOCK_MAX_SIZE : ℕ := 750000

/-- The number of outputs that `CreateTxOuts` makes. -/
def StakeWallet.nOutputs (w : StakeWallet) (nTotal : ℤ) : ℕ :=
  if 0 < w.nStakeSplitThreshold then
    let nSplit := int32 (nTotal.tdiv w.nStakeSplitThreshold)
    if 1 < nSplit then (min nSplit txSizeMax).toNat else 1
  else 1

open Script in
def createTxOuts (w : StakeWallet) (nTotal : ℤ) (onlyP2PK : Bool) (out : COutput) :
    Except StakeFault (List CTxOut) :=
  match solver out.txOut.scriptPubKey with
  | none => .error .outOfRange
  | some r => do
    failIf (!r.ret) .refused
    failIf (r.typeRet != .TX_PUBKEY && r.typeRet != .TX_PUBKEYHASH && r.typeRet != .TX_COLDSTAKE)
      .refused
    let key := w.getKey (r.vSolutionsRet.headD [])
    failIf ((r.typeRet == .TX_PUBKEYHASH || r.typeRet == .TX_COLDSTAKE) && key.isNone) .refused
    let scriptPubKey :=
      if r.typeRet == .TX_PUBKEYHASH && onlyP2PK then pushData (key.getD []) ++ [OP_CHECKSIG]
      else out.txOut.scriptPubKey
    return List.replicate (w.nOutputs nTotal) ⟨0, scriptPubKey⟩

/-- `nValue = nShare`, and `nValue += nAmount`. -/
def CTxOut.withValue (nShare : ℤ) (o : CTxOut) : CTxOut := { o with nValue := nShare }

@[inherit_doc CTxOut.withValue]
def CTxOut.plus (nAmount : ℤ) (o : CTxOut) : CTxOut := { o with nValue := o.nValue + nAmount }

/-- The credit is split across the outputs after the first; the last one gets what remains. -/
def setOutputAmount (nCredit : ℤ) (vout : List CTxOut) : List CTxOut :=
  let outputs := vout.length - 1
  if 1 < outputs then
    let nShare := nCredit.tdiv outputs
    let split := List.range' 1 (outputs - 1)
    let nRemaining := split.foldl (fun nRemaining _ => nRemaining - nShare) nCredit
    (split.foldl (fun vout i => vout.modify i (CTxOut.withValue nShare)) vout).modify outputs
      (CTxOut.plus nRemaining)
  else vout.modify outputs (CTxOut.plus nCredit)

/-! ### The search -/

/-- The transaction that is made, and what the search carries besides. -/
structure CoinStake where
  vin : List CTxIn
  vout : List CTxOut
  nTxNewTime : ℤ
  fKernelFound : Bool
  /-- `vout` as it was before `FillBlockPayee`. -/
  voutBeforePayee : List CTxOut
  deriving DecidableEq, Repr

section

variable (K : KernelEnv) (w : StakeWallet) (pindexPrev : CBlockIndex) (nBits : ℕ)

/-- What the stake of a coin is worth, with the reward of the block. -/
def nCreditOf (consensus : ChainParams) (out : COutput) : ℤ :=
  int64 (out.txOut.nValue + consensus.getBlockValue (pindexPrev.nHeight + 1))

/-- The outputs that can be made for a coin. Signatures of blocks by the hash of a key are not
accepted before `UPGRADE_V5_DUMMY`. -/
def outputsFor (consensus : ChainParams) (out : COutput) : Except StakeFault (List CTxOut) :=
  createTxOuts w (nCreditOf pindexPrev consensus out)
    (!consensus.networkUpgradeActive (pindexPrev.nHeight + 1) .UPGRADE_V5_DUMMY) out

/-- A coin whose kernel has been found and that outputs have been made for; the flag says whether
the search is over. -/
def stakeCoin (s : CoinStake) (out : COutput) (e : StakeEnv) (vout : List CTxOut) :
    Except StakeFault (Bool × CoinStake) := do
  let vout := setOutputAmount (nCreditOf pindexPrev e.node.params out) (s.vout ++ vout)
  failIf (decide (DEFAULT_BLOCK_MAX_SIZE / 5 ≤ CTransaction.serializeSize ⟨0, s.vin, vout⟩))
    .refused
  let s := { s with vout := e.fillBlockPayee pindexPrev true vout, voutBeforePayee := vout }
  match out.createTxIn with
  | none => return (false, { s with vin := [], vout := [] })
  | some txin => return (true, { s with vin := s.vin ++ [txin] })

def examineCoin (s : CoinStake) (p : COutput × StakeEnv) :
    Except StakeFault (Bool × CoinStake) := do
  failIf (p.2.node.height != pindexPrev.nHeight) .refused
  failIf (p.2.isLocked || p.2.shutdownRequested) .refused
  let r := stake K p.2.node pindexPrev p.1 nBits s.nTxNewTime
  let s := { s with fKernelFound := r.1, nTxNewTime := r.2 }
  if !r.1 then return (false, s)
  else match outputsFor w pindexPrev p.2.node.params p.1 with
    | .error .outOfRange => .error .outOfRange
    | .error .refused => return (false, s)
    | .ok vout => stakeCoin pindexPrev s p.1 p.2 vout

def searchKernel : List (COutput × StakeEnv) → CoinStake → Except StakeFault CoinStake
  | [], s => .ok s
  | p :: rest, s => do
    let r ← examineCoin K w pindexPrev nBits s p
    if r.1 then return r.2 else searchKernel rest r.2

/-- The loop that signs the inputs. -/
def signInputs (vout : List CTxOut) (vin : List CTxIn) : Except StakeFault (List CTxIn) :=
  loop (fun vin nIn =>
    match w.signSignature vin vout nIn with
    | none => .error .refused
    | some scriptSig => .ok (vin.modify nIn fun txin => { txin with scriptSig })) vin
    (List.range vin.length)

/-- The coins, each with what the search meets there. -/
def stakePasses (availableCoins : List COutput) (env : ℕ → StakeEnv) :
    List (COutput × StakeEnv) :=
  availableCoins.zipIdx.map fun p => (p.1, env p.2)

/-- `CWallet::CreateCoinStake`, for a time to start with. -/
def createCoinStake (availableCoins : List COutput) (env : ℕ → StakeEnv) (nTxNewTime : ℤ) :
    Except StakeFault CoinStake := do
  let s ← searchKernel K w pindexPrev nBits (stakePasses availableCoins env)
    ⟨[], [⟨0, []⟩], nTxNewTime, false, [⟨0, []⟩]⟩
  failIf (!s.fKernelFound) .refused
  let vin ← signInputs w s.vout s.vin
  return { s with vin }

end

/-! ### The outputs hold the credit -/

section

variable {w : StakeWallet} {consensus : ChainParams} {out : COutput} {nCredit : ℤ}
  {vout : List CTxOut}

lemma StakeWallet.nOutputs_pos (w : StakeWallet) (nTotal : ℤ) : 0 < w.nOutputs nTotal := by
  unfold StakeWallet.nOutputs txSizeMax
  split_ifs
  · dsimp only
    split_ifs <;> omega
  · omega

lemma createTxOuts_eq_ok {nTotal : ℤ} {onlyP2PK : Bool}
    (h : createTxOuts w nTotal onlyP2PK out = .ok vout) :
    ∃ k script, vout = List.replicate (k + 1) ⟨0, script⟩ := by
  unfold createTxOuts at h
  split at h
  · cases h
  · simp only [bind_eq_ok, pure_eq_ok] at h
    obtain ⟨-, -, -, -, -, -, rfl⟩ := h
    obtain ⟨k, hk⟩ : ∃ k, w.nOutputs nTotal = k + 1 :=
      Nat.exists_eq_add_one.mpr (w.nOutputs_pos nTotal)
    rw [hk]
    exact ⟨k, _, rfl⟩

lemma foldl_sub_const (l : List ℕ) (n nShare : ℤ) :
    l.foldl (fun r _ => r - nShare) n = n - l.length * nShare := by
  induction l generalizing n with
  | nil => simp
  | cons a l ih =>
    rw [List.foldl_cons, ih, List.length_cons]
    push_cast
    ring

lemma setOutputAmount_eq (nCredit : ℤ) (first : CTxOut) (script : CScript) (k : ℕ) :
    setOutputAmount nCredit (first :: List.replicate (k + 1) ⟨0, script⟩) =
      first :: (List.replicate k ⟨nCredit.tdiv (k + 1), script⟩ ++
        [⟨nCredit - k * nCredit.tdiv (k + 1), script⟩]) := by
  have hlen : (first :: List.replicate (k + 1) (⟨0, script⟩ : CTxOut)).length - 1 = k + 1 := by simp
  have hrep : List.replicate (k + 1) (⟨0, script⟩ : CTxOut) =
      List.replicate k ⟨0, script⟩ ++ [⟨0, script⟩] := List.replicate_succ'
  have hlast : ∀ (l : List CTxOut) (f : CTxOut → CTxOut), l.length = k →
      (first :: (l ++ [⟨0, script⟩])).modify (k + 1) f = first :: (l ++ [f ⟨0, script⟩]) := by
    intro l f hl
    have := modify_length f (first :: l) [] ⟨0, script⟩
    rwa [List.length_cons, hl] at this
  unfold setOutputAmount
  dsimp only
  rw [hlen]
  by_cases hk : 1 < k + 1
  · have hloop := foldl_modify_range (CTxOut.withValue (nCredit.tdiv (k + 1)))
      (List.replicate k ⟨0, script⟩) [first] [⟨0, script⟩]
    rw [List.length_replicate, List.length_singleton, List.append_assoc, List.append_assoc,
      List.singleton_append, List.singleton_append, List.map_replicate] at hloop
    rw [if_pos hk, Nat.add_sub_cancel, foldl_sub_const, List.length_range', hrep]
    push_cast
    rw [hloop, hlast _ _ (by simp)]
    simp [CTxOut.plus, CTxOut.withValue]
  · obtain rfl : k = 0 := by omega
    rw [if_neg hk, hrep, hlast _ _ (by simp)]
    simp [CTxOut.plus]

/-- What the outputs of a coinstake are to be: an empty one, and then the credit and nothing
else. -/
structure HoldsCredit (nCredit : ℤ) (vout : List CTxOut) : Prop where
  first : vout.head? = some ⟨0, []⟩
  more : 2 ≤ vout.length
  nonneg : ∀ o ∈ vout, 0 ≤ o.nValue
  sum : (vout.map (·.nValue)).sum = nCredit

lemma holdsCredit_setOutputAmount (hc : 0 ≤ nCredit) (script : CScript) (k : ℕ) :
    HoldsCredit nCredit
      (setOutputAmount nCredit (⟨0, []⟩ :: List.replicate (k + 1) ⟨0, script⟩)) := by
  have hshare : 0 ≤ nCredit.tdiv (k + 1) := Int.tdiv_nonneg hc (by positivity)
  have hrest : 0 ≤ nCredit - k * nCredit.tdiv (k + 1) := by
    have hmul : (k + 1) * nCredit.tdiv (k + 1) ≤ nCredit := by
      rw [Int.tdiv_eq_ediv_of_nonneg hc]
      exact Int.mul_ediv_self_le (by positivity)
    linarith
  rw [setOutputAmount_eq]
  refine ⟨rfl, by simp, ?_, ?_⟩
  · intro o ho
    simp only [List.mem_cons, List.mem_append, List.mem_replicate, List.not_mem_nil,
      or_false] at ho
    rcases ho with rfl | ⟨-, rfl⟩ | rfl
    · exact le_rfl
    · exact hshare
    · exact hrest
  · simp

end

/-! ### `FillBlockPayee` leaves the first output alone -/

/-- The first output is kept, and no output is dropped. -/
structure KeepsFirst (vout vout' : List CTxOut) : Prop where
  head : vout'.head? = vout.head?
  length : vout.length ≤ vout'.length

namespace KeepsFirst

variable {vout vout' vout'' : List CTxOut}

lemma refl (vout : List CTxOut) : KeepsFirst vout vout := ⟨rfl, le_rfl⟩

lemma trans (h : KeepsFirst vout vout') (h' : KeepsFirst vout' vout'') : KeepsFirst vout vout'' :=
  ⟨h'.head.trans h.head, h.length.trans h'.length⟩

lemma append {l : List CTxOut} (hne : vout ≠ []) : KeepsFirst vout (vout ++ l) := by
  refine ⟨List.head?_append_of_ne_nil vout hne, ?_⟩
  rw [List.length_append]
  omega

lemma modify {i : ℕ} (f : CTxOut → CTxOut) (hi : 0 < i) : KeepsFirst vout (vout.modify i f) := by
  refine ⟨?_, by rw [List.length_modify]⟩
  obtain ⟨j, rfl⟩ := Nat.exists_eq_add_one.mpr hi
  cases vout <;> rfl

lemma foldl_modify {l : List ℕ} (f : CTxOut → CTxOut) (hl : ∀ i ∈ l, 0 < i) :
    KeepsFirst vout (l.foldl (fun v i => v.modify i f) vout) := by
  induction l generalizing vout with
  | nil => exact refl vout
  | cons i l ih =>
    exact (modify f (hl i (by simp))).trans (ih fun j hj => hl j (by simp [hj]))

lemma subtractPayment (p : ℤ) (i : ℕ) : KeepsFirst vout (subtractPayment p i vout) := by
  unfold Agenor.subtractPayment
  split_ifs with hm h2 h3
  · exact refl vout
  · exact modify _ (by omega)
  · refine (foldl_modify _ ?_).trans (modify _ (by omega))
    intro j hj
    have := List.mem_range'_1.mp hj
    omega
  · exact refl vout

lemma fillBlockPayee (e : StakeEnv) (pindexPrev : CBlockIndex) (hne : vout ≠ []) :
    KeepsFirst vout (e.fillBlockPayee pindexPrev true vout) := by
  unfold StakeEnv.fillBlockPayee
  split
  · unfold CBudgetManager.fillBlockPayee
    by_cases hbest : e.nBestHeight ≤ 0
    · rw [if_pos hbest]
      exact refl vout
    · rw [if_neg hbest]
      simp only [if_true]
      split
      · exact append hne
      · exact refl vout
  · unfold CMasternodePayments.fillBlockPayee
    split
    · exact refl vout
    · exact (append hne).trans (subtractPayment _ _)

end KeepsFirst

/-! ### The kernel that is found -/

section

variable {K : KernelEnv} {node : Node} {w : StakeWallet} {pindexPrev : CBlockIndex} {out : COutput}
  {nBits : ℕ} {nTimeTx nTimeTx' : ℤ} {net : Network}

lemma contextCheck_time (hnet : node.params = paramsOf net) (c : CAgeStake) (nHeight : ℤ)
    (nTime nTime' : ℕ) :
    c.contextCheck node.params nHeight nTime = c.contextCheck node.params nHeight nTime' := by
  unfold CAgeStake.contextCheck ChainParams.hasStakeMinAgeOrDepth
  by_cases hpub : node.params.networkUpgradeActive (nHeight + 1) .UPGRADE_ZC_PUBLIC = true
  · have hdepth : node.params.networkUpgradeActive nHeight .UPGRADE_V3_4 = true := by
      rw [hnet] at hpub ⊢
      rw [← Bool.not_eq_false, ChainParams.networkUpgradeActive_eq_false] at hpub ⊢
      cases net <;>
      · simp only [paramsOf, mainParams, testNetParams, regTestParams] at hpub ⊢
        omega
    simp [hdepth]
  · rw [Bool.not_eq_true] at hpub
    simp [hpub]

/-- What `Stake` has checked when it finds the kernel, at the time that it leaves behind. -/
structure KernelFound (K : KernelEnv) (node : Node) (pindexPrev : CBlockIndex) (out : COutput)
    (nBits : ℕ) (nTime : ℕ) (pindexFrom : CBlockIndex) : Prop where
  index : getIndexFrom node out.tx = some pindexFrom
  context : CAgeStake.contextCheck ⟨out.tx, out.i, pindexFrom⟩ node.params
    (pindexPrev.nHeight + 1) nTime = true
  hash : CAgeStake.checkKernelHash ⟨out.tx, out.i, pindexFrom⟩ K node.params pindexPrev nBits nTime
    out.txOut.nValue = true

lemma stake_eq_true (hnet : node.params = paramsOf net)
    (h : stake K node pindexPrev out nBits nTimeTx = (true, nTimeTx')) :
    ∃ pindexFrom, KernelFound K node pindexPrev out nBits (uint32 nTimeTx') pindexFrom := by
  unfold stake at h
  split at h
  · cases h
  · next pindexFrom hindex =>
    dsimp only at h
    split at h
    · cases h
    · next hcontext =>
      rw [Bool.not_eq_true, Bool.not_eq_false'] at hcontext
      split at h
      · cases h
      · rw [Prod.mk.injEq] at h
        obtain ⟨hhash, rfl⟩ := h
        exact ⟨pindexFrom, hindex, contextCheck_time hnet _ _ _ _ ▸ hcontext, hhash⟩

lemma stake_fst (hnet : node.params = paramsOf net) (nTimeTx nTimeTx' : ℤ) :
    (stake K node pindexPrev out nBits nTimeTx).1 =
      (stake K node pindexPrev out nBits nTimeTx').1 := by
  unfold stake
  cases getIndexFrom node out.tx with
  | none => rfl
  | some pindexFrom =>
    dsimp only
    rw [contextCheck_time hnet _ _ (uint32 nTimeTx) (uint32 nTimeTx')]
    split_ifs <;> rfl

/-- The kernel that `Stake` has found is the one that `CheckProofOfStake` looks at: it gets as far
as the script. -/
lemma KernelFound.checkProofOfStake {nTime : ℕ} {pindexFrom : CBlockIndex}
    (h : KernelFound K node pindexPrev out nBits nTime pindexFrom)
    (hsame : ∀ t b, node.getTransaction out.tx.hash = some (t, b) → t = out.tx) {block : CBlock}
    {tx₀ tx : CTransaction} {txs : List CTransaction} {txin : CTxIn} {vin : List CTxIn}
    (hvtx : block.vtx = tx₀ :: tx :: txs) (hvin : tx.vin = txin :: vin)
    (hprevout : txin.prevout = out.prevout) (hzc : txin.isZerocoinSpend = false)
    (hcs : tx.isCoinStake = true) (hprev : block.hashPrevBlock = pindexPrev.hash)
    (hbits : block.nBits = nBits) (htime : block.nTime = nTime) :
    checkProofOfStake K node block pindexPrev = .accepted ∨
      ∃ e, checkProofOfStake K node block pindexPrev = .refused ("signature fails: " ++ e) := by
  subst hbits htime
  obtain ⟨hindex, hcontext, hhash⟩ := h
  simp only [getIndexFrom, Option.bind_eq_bind, Option.bind_eq_some_iff, Option.pure_def,
    Prod.exists] at hindex
  obtain ⟨t, b, ht, pindex, hb, hin⟩ := hindex
  obtain rfl := hsame t b ht
  split at hin
  · next hcontains =>
    obtain rfl := Option.some.inj hin
    have hinit : CAgeStake.initFromTxIn node txin = some ⟨out.tx, out.i, pindex⟩ := by
      have hread : CAgeStake.initFromTxIn node txin = some ⟨out.tx, txin.prevout.n, pindex⟩ :=
        CAgeStake.initFromTxIn_eq_some hzc (by rw [hprevout]; exact ht) hb hcontains
      rwa [hprevout] at hread
    have hpos : block.isProofOfStake = true := by
      rw [CBlock.isProofOfStake, hvtx]
      exact hcs
    have hout : CAgeStake.getTxOutFrom ⟨out.tx, out.i, pindex⟩ = some out.txOut :=
      List.getElem?_eq_getElem out.lt
    cases hscript : K.verifyScript tx out.txOut with
    | none =>
      exact .inl (checkProofOfStake_accepted hvtx hvin hprev hpos hzc hinit hcontext hout hhash
        hscript)
    | some e =>
      refine .inr ⟨e, ?_⟩
      unfold Agenor.checkProofOfStake checkAgeStake
      simp [hvtx, hvin, hprev, hpos, hzc, hinit, hcontext, hout, hhash, hscript]
  · cases hin

end

/-! ### The search -/

section

variable {K : KernelEnv} {w : StakeWallet} {pindexPrev : CBlockIndex} {nBits : ℕ} {s r : CoinStake}
  {p : COutput × StakeEnv} {net : Network} {done : Bool}

/-- Nothing but the mark of a coinstake is in the transaction. -/
structure CoinStake.Bare (s : CoinStake) : Prop where
  vin : s.vin = []
  vout : s.vout = [⟨0, []⟩]

/-- Outputs can be made for the coin. -/
def Payable (w : StakeWallet) (pindexPrev : CBlockIndex) (p : COutput × StakeEnv) : Prop :=
  ∃ vout, outputsFor w pindexPrev p.2.node.params p.1 = .ok vout

/-- The search is over with this coin. -/
structure MadeFrom (K : KernelEnv) (pindexPrev : CBlockIndex) (nBits : ℕ) (p : COutput × StakeEnv)
    (r : CoinStake) : Prop where
  kernel : ∃ nTimeTx, stake K p.2.node pindexPrev p.1 nBits nTimeTx = (true, r.nTxNewTime)
  vin : r.vin = [⟨p.1.prevout, [], 4294967295⟩]
  credit : HoldsCredit
    (p.1.txOut.nValue + p.2.node.params.getBlockValue (pindexPrev.nHeight + 1)) r.voutBeforePayee
  vout : r.vout = p.2.fillBlockPayee pindexPrev true r.voutBeforePayee

lemma nCreditOf_eq (pindexPrev : CBlockIndex) (consensus : ChainParams) (out : COutput) :
    nCreditOf pindexPrev consensus out =
      out.txOut.nValue + consensus.getBlockValue (pindexPrev.nHeight + 1) ∧
    0 ≤ nCreditOf pindexPrev consensus out := by
  have hpos : 0 < out.txOut.nValue := out.pos
  have hle : out.txOut.nValue ≤ 10 ^ 16 := out.le
  have hnn := consensus.getBlockValue_nonneg (pindexPrev.nHeight + 1)
  have hmax := consensus.getBlockValue_le (pindexPrev.nHeight + 1)
  rw [COIN] at hmax
  have heq : nCreditOf pindexPrev consensus out =
      out.txOut.nValue + consensus.getBlockValue (pindexPrev.nHeight + 1) :=
    wrap_of_fits (by omega) (by omega)
  exact ⟨heq, by omega⟩

lemma stakeCoin_eq_ok {vout : List CTxOut} (hbare : s.Bare)
    (hvout : outputsFor w pindexPrev p.2.node.params p.1 = .ok vout)
    (h : stakeCoin pindexPrev s p.1 p.2 vout = .ok (done, r)) :
    done = true ∧ r.nTxNewTime = s.nTxNewTime ∧ r.fKernelFound = s.fKernelFound ∧
      r.vin = [⟨p.1.prevout, [], 4294967295⟩] ∧
      HoldsCredit (p.1.txOut.nValue + p.2.node.params.getBlockValue (pindexPrev.nHeight + 1))
        r.voutBeforePayee ∧
      r.vout = p.2.fillBlockPayee pindexPrev true r.voutBeforePayee := by
  obtain ⟨k, script, rfl⟩ := createTxOuts_eq_ok hvout
  obtain ⟨hcredit, hnn⟩ := nCreditOf_eq pindexPrev p.2.node.params p.1
  simp only [stakeCoin, COutput.createTxIn, bind_eq_ok, pure_eq_ok, Prod.mk.injEq] at h
  obtain ⟨-, -, rfl, rfl⟩ := h
  have hholds := holdsCredit_setOutputAmount hnn script k
  refine ⟨rfl, rfl, rfl, by rw [hbare.vin]; rfl, ?_, rfl⟩
  rw [← hcredit, hbare.vout]
  exact hholds

lemma examineCoin_eq_ok (hbare : s.Bare)
    (h : examineCoin K w pindexPrev nBits s p = .ok (done, r)) :
    (done = false ∧ r.Bare ∧
      ((stake K p.2.node pindexPrev p.1 nBits s.nTxNewTime).1 = true → ¬ Payable w pindexPrev p)) ∨
    (done = true ∧ Payable w pindexPrev p ∧ MadeFrom K pindexPrev nBits p r) := by
  simp only [examineCoin, bind_eq_ok] at h
  obtain ⟨-, -, -, -, h⟩ := h
  split at h
  · next hnot =>
    cases h
    refine .inl ⟨rfl, ⟨hbare.vin, hbare.vout⟩, fun hfound => ?_⟩
    rw [hfound] at hnot
    cases hnot
  · next hfound =>
    rw [Bool.not_eq_true, Bool.not_eq_false'] at hfound
    split at h
    · cases h
    · next hrefused =>
      cases h
      refine .inl ⟨rfl, ⟨hbare.vin, hbare.vout⟩, ?_⟩
      rintro - ⟨vout, hvout⟩
      rw [hrefused] at hvout
      cases hvout
    · next vout hvout =>
      obtain ⟨rfl, htime, -, hvin, hcredit, hfill⟩ :=
        stakeCoin_eq_ok (by exact ⟨hbare.vin, hbare.vout⟩) hvout h
      exact .inr ⟨rfl, ⟨vout, hvout⟩, ⟨_, by rw [htime, ← hfound]⟩, hvin, hcredit, hfill⟩

lemma searchKernel_eq_ok {passes : List (COutput × StakeEnv)} (nTxNewTime : ℤ)
    (hnet : ∀ p ∈ passes, p.2.node.params = paramsOf net) (hbare : s.Bare)
    (h : searchKernel K w pindexPrev nBits passes s = .ok r) :
    (r.Bare ∧ ∀ p ∈ passes, (stake K p.2.node pindexPrev p.1 nBits nTxNewTime).1 = true →
      ¬ Payable w pindexPrev p) ∨
    ∃ p ∈ passes, Payable w pindexPrev p ∧ MadeFrom K pindexPrev nBits p r := by
  induction passes generalizing s with
  | nil =>
    cases h
    exact .inl ⟨hbare, by simp⟩
  | cons p passes ih =>
    simp only [searchKernel, bind_eq_ok, Prod.exists] at h
    obtain ⟨done, s', hpass, h⟩ := h
    rcases examineCoin_eq_ok hbare hpass with ⟨rfl, hbare', hnone⟩ | ⟨rfl, hpay, hmade⟩
    · rw [stake_fst (hnet p (by simp)) s.nTxNewTime nTxNewTime] at hnone
      rcases ih (fun q hq => hnet q (by simp [hq])) hbare' h with ⟨hr, hall⟩ | ⟨q, hq, hmade⟩
      · refine .inl ⟨hr, fun q hq => ?_⟩
        rcases List.mem_cons.mp hq with rfl | hq
        · exact hnone
        · exact hall q hq
      · exact .inr ⟨q, by simp [hq], hmade⟩
    · cases h
      exact .inr ⟨p, by simp, hpay, hmade⟩

/-! ### The coinstake -/

lemma signInputs_singleton {vout : List CTxOut} {txin : CTxIn} {vin : List CTxIn}
    (h : signInputs w vout [txin] = .ok vin) :
    ∃ scriptSig, w.signSignature [txin] vout 0 = some scriptSig ∧
      vin = [{ txin with scriptSig }] := by
  simp only [signInputs, List.length_singleton, List.range_one, loop_cons, loop_nil, bind_eq_ok,
    Except.ok.injEq] at h
  obtain ⟨vin', hsign, rfl⟩ := h
  split at hsign
  · cases hsign
  · next scriptSig hsig =>
    cases hsign
    exact ⟨scriptSig, hsig, rfl⟩

lemma COutput.prevout_not_null (out : COutput) : out.prevout.isNull = false := by
  have := out.int
  have hne : out.i ≠ COutPoint.NULL_INDEX := by
    rw [COutPoint.NULL_INDEX]
    omega
  simp [COutPoint.isNull, COutput.prevout, hne]

/-- What a coinstake is to be: it spends the coin whose kernel was found, and what it pays holds the
stake and the reward before a masternode is paid from it; so it is a coinstake, and a block with it
passes the checks of its proof of stake up to the one of the script. -/
structure StakesCoin (K : KernelEnv) (pindexPrev : CBlockIndex) (nBits : ℕ) (nTxNewTime : ℤ)
    (p : COutput × StakeEnv) (r : CoinStake) : Prop where
  kernel : (stake K p.2.node pindexPrev p.1 nBits nTxNewTime).1 = true
  vin : r.vin.map (·.prevout) = [p.1.prevout]
  first : r.vout.head? = some ⟨0, []⟩
  credit : HoldsCredit
    (p.1.txOut.nValue + p.2.node.params.getBlockValue (pindexPrev.nHeight + 1)) r.voutBeforePayee
  payee : r.vout = p.2.fillBlockPayee pindexPrev true r.voutBeforePayee
  isCoinStake : ∀ hash, CTransaction.isCoinStake ⟨hash, r.vin, r.vout⟩ = true
  proof : ∀ (block : CBlock) (tx₀ tx : CTransaction) (txs : List CTransaction),
    block.vtx = tx₀ :: tx :: txs → tx.vin = r.vin → tx.vout = r.vout →
    block.hashPrevBlock = pindexPrev.hash → block.nBits = nBits →
    block.nTime = uint32 r.nTxNewTime →
    checkProofOfStake K p.2.node block pindexPrev = .accepted ∨
      ∃ e, checkProofOfStake K p.2.node block pindexPrev = .refused ("signature fails: " ++ e)

lemma MadeFrom.stakesCoin (nTxNewTime : ℤ) (hnet : p.2.node.params = paramsOf net)
    (hsame : ∀ t b, p.2.node.getTransaction p.1.tx.hash = some (t, b) → t = p.1.tx)
    (hmade : MadeFrom K pindexPrev nBits p s) {scriptSig : CScript}
    (hzc : Script.isZerocoinSpend scriptSig = false) :
    StakesCoin K pindexPrev nBits nTxNewTime p
      { s with vin := [⟨p.1.prevout, scriptSig, 4294967295⟩] } := by
  obtain ⟨⟨nTimeTx, hstake⟩, -, hcredit, hfill⟩ := hmade
  have hkeeps : KeepsFirst s.voutBeforePayee s.vout := by
    rw [hfill]
    refine .fillBlockPayee p.2 pindexPrev ?_
    intro hnil
    rw [hnil] at hcredit
    exact absurd hcredit.more (by simp)
  have hfirst : s.vout.head? = some ⟨0, []⟩ := hkeeps.head.trans hcredit.first
  have hnozc : CTxIn.isZerocoinSpend ⟨p.1.prevout, scriptSig, 4294967295⟩ = false := by
    simp [CTxIn.isZerocoinSpend, hzc]
  have hcs : ∀ hash, CTransaction.isCoinStake
      ⟨hash, [⟨p.1.prevout, scriptSig, 4294967295⟩], s.vout⟩ = true := by
    intro hash
    have hlen := hcredit.more.trans hkeeps.length
    unfold CTransaction.isCoinStake
    dsimp only
    rw [p.1.prevout_not_null, Bool.false_and, if_neg (by simp)]
    cases hv : s.vout with
    | nil => simp [hv] at hlen
    | cons o rest =>
      rw [hv] at hfirst hlen
      obtain rfl := Option.some.inj hfirst
      cases rest with
      | nil => simp at hlen
      | cons o rest => rfl
  obtain ⟨pindexFrom, hkernel⟩ := stake_eq_true hnet hstake
  refine ⟨?_, rfl, hfirst, hcredit, hfill, hcs, ?_⟩
  · rw [stake_fst hnet nTxNewTime nTimeTx, hstake]
  · intro block tx₀ tx txs hvtx hvin hvout hprev hbits htime
    have htx : tx.isCoinStake = true := by
      have hfields : tx.isCoinStake = CTransaction.isCoinStake ⟨tx.hash, tx.vin, tx.vout⟩ := rfl
      rw [hfields, hvin, hvout]
      exact hcs tx.hash
    exact hkernel.checkProofOfStake hsame hvtx hvin rfl hnozc htx hprev hbits htime

end

/-- **`CreateCoinStake`.** What it returns is a coinstake exactly if among the coins there is one
whose kernel is found and that outputs can be made for. -/
theorem createCoinStake_exact {K : KernelEnv} {w : StakeWallet} {pindexPrev : CBlockIndex}
    {nBits : ℕ} {net : Network} {availableCoins : List COutput} {env : ℕ → StakeEnv}
    {nTxNewTime : ℤ} {r : CoinStake} (hnet : ∀ i, (env i).node.params = paramsOf net)
    (hsame : ∀ out ∈ availableCoins, ∀ i t b,
      (env i).node.getTransaction out.tx.hash = some (t, b) → t = out.tx)
    (hsign : ∀ vin vout n scriptSig, w.signSignature vin vout n = some scriptSig →
      Script.isZerocoinSpend scriptSig = false)
    (hret : createCoinStake K w pindexPrev nBits availableCoins env nTxNewTime = .ok r) :
    (∃ p ∈ stakePasses availableCoins env, StakesCoin K pindexPrev nBits nTxNewTime p r) ↔
      ∃ p ∈ stakePasses availableCoins env,
        (stake K p.2.node pindexPrev p.1 nBits nTxNewTime).1 = true ∧ Payable w pindexPrev p := by
  have hpass : ∀ p ∈ stakePasses availableCoins env, p.1 ∈ availableCoins ∧ ∃ i, p.2 = env i := by
    intro p hp
    obtain ⟨q, hq, rfl⟩ := List.mem_map.mp hp
    exact ⟨List.fst_mem_of_mem_zipIdx hq, q.2, rfl⟩
  have hparams : ∀ p ∈ stakePasses availableCoins env, p.2.node.params = paramsOf net := by
    intro p hp
    obtain ⟨-, i, hi⟩ := hpass p hp
    rw [hi, hnet i]
  simp only [createCoinStake, bind_eq_ok, pure_eq_ok] at hret
  obtain ⟨s, hsearch, -, -, vin, hvin, rfl⟩ := hret
  rcases searchKernel_eq_ok nTxNewTime hparams ⟨rfl, rfl⟩ hsearch with
    ⟨hbare, hnone⟩ | ⟨p, hp, hpay, hmade⟩
  · rw [hbare.vin] at hvin
    cases hvin
    constructor
    · rintro ⟨p, -, hstakes⟩
      exact absurd hstakes.vin (by simp)
    · rintro ⟨p, hp, hfound, hpay⟩
      exact absurd hpay (hnone p hp hfound)
  · rw [hmade.vin] at hvin
    obtain ⟨scriptSig, hsig, rfl⟩ := signInputs_singleton hvin
    obtain ⟨hmem, i, hi⟩ := hpass p hp
    have hstakes := hmade.stakesCoin nTxNewTime (hparams p hp)
      (fun t b ht => hsame p.1 hmem i t b (hi ▸ ht)) (hsign _ _ _ _ hsig)
    exact ⟨fun _ => ⟨p, hp, hstakes.kernel, hpay⟩, fun _ => ⟨p, hp, hstakes⟩⟩

/-! ### A coin that cannot be paid for -/

namespace Concrete

open Script

/-- A payment of 100 coins to the hash of a key. -/
def paidTx : CTransaction :=
  ⟨50, [], [⟨100 * COIN, [OP_DUP, OP_HASH160, 20] ++ (List.replicate 20 7 ++
    [OP_EQUALVERIFY, OP_CHECKSIG])⟩]⟩

/-- The output of it in a wallet. -/
def paidCoin : COutput := ⟨paidTx, 0, by decide, by decide, by decide, by decide⟩

/-- The chain ends at height `n`, with the payment in the last block, and nobody is paid besides the
staker. -/
def paidEnv (n : ℕ) : StakeEnv where
  node := { stakingNode mainParams n with
    getTransaction := fun h => if h = 50 then some (paidTx, (chainIndex n).hash) else none
    adjustedTime := 1600000030 }
  isLocked := false
  shutdownRequested := false
  budget := .initial
  nBestHeight := n
  masternodePayments := .initial
  currentMasterNode := none

/-- A wallet that has a key for the hash, or only watches it. -/
def paidWallet (key : Option Valtype) : StakeWallet where
  getKey := fun _ => key
  nStakeSplitThreshold := 0
  signSignature := fun _ _ _ => some []

def paidKey : Valtype := 2 :: List.replicate 32 7

section

variable {n : ℕ} (hn : n < 10 ^ 8)
include hn

lemma getIndexFrom_paidCoin :
    getIndexFrom (paidEnv n).node paidCoin.tx = some (chainIndex n) := by
  have hmap : (paidEnv n).node.mapBlockIndex (chainIndex n).hash = some (chainIndex n) :=
    stakingNode_mapBlockIndex mainParams (by omega)
  have hcontains : (paidEnv n).node.contains (chainIndex n) = true :=
    stakingNode_contains mainParams n
  have htx : (paidEnv n).node.getTransaction paidCoin.tx.hash =
      some (paidTx, (chainIndex n).hash) := rfl
  simp [getIndexFrom, htx, hmap, hcontains]

lemma stake_paidCoin (nTimeTx : ℤ) :
    stake kernelEnv (paidEnv n).node (chainIndex n) paidCoin 0x1e0fffff nTimeTx =
      (true, 1600000020) := by
  have htarget : (0 : Uint256) < setCompact 0x1e0fffff *
      ((BitVec.ofInt 64 (100 * COIN)).setWidth 256 / 100) := by decide
  have hcontext : CAgeStake.contextCheck ⟨paidCoin.tx, paidCoin.i, chainIndex n⟩
      (paidEnv n).node.params ((chainIndex n).nHeight + 1) (uint32 nTimeTx) = true := by
    have hoff : mainParams.networkUpgradeActive ((chainIndex n).nHeight + 1 + 1)
        .UPGRADE_ZC_PUBLIC = false := by
      rw [ChainParams.networkUpgradeActive_eq_false, chainIndex_nHeight]
      right
      change _ < (999999999 : ℤ)
      omega
    have hparams : (paidEnv n).node.params = mainParams := rfl
    simp [CAgeStake.contextCheck, hparams, hoff]
  have htime : stakeTime (paidEnv n).node = 1600000020 := by
    have hreg : (paidEnv n).node.params.isRegTestNet = false := rfl
    have hadj : (paidEnv n).node.adjustedTime = 1600000030 := rfl
    rw [stakeTime, hreg, hadj]
    decide
  unfold stake
  rw [getIndexFrom_paidCoin hn]
  dsimp only
  rw [hcontext, htime, chainIndex_nTime]
  simp only [Bool.not_true, Bool.false_eq_true, if_false]
  rw [if_neg (by simp)]
  exact Prod.ext (decide_eq_true htarget) rfl

lemma examineCoin_paidCoin (w : StakeWallet) (s : CoinStake) :
    examineCoin kernelEnv w (chainIndex n) 0x1e0fffff s (paidCoin, paidEnv n) =
      match outputsFor w (chainIndex n) mainParams paidCoin with
      | .error .outOfRange => .error .outOfRange
      | .error .refused => .ok (false, { s with fKernelFound := true, nTxNewTime := 1600000020 })
      | .ok vout => stakeCoin (chainIndex n)
          { s with fKernelFound := true, nTxNewTime := 1600000020 } paidCoin (paidEnv n) vout := by
  have hheight : (paidEnv n).node.height = (chainIndex n).nHeight := by
    simp [Node.height, paidEnv, stakingNode, Node.idle, chainIndex_nHeight]
  have hparams : (paidEnv n).node.params = mainParams := rfl
  have hlocked : ((paidEnv n).isLocked || (paidEnv n).shutdownRequested) = false := rfl
  simp only [examineCoin, hheight, hlocked, stake_paidCoin hn, hparams, bne_self_eq_false]
  rfl

omit hn in
lemma outputsFor_paidCoin (key : Option Valtype) :
    outputsFor (paidWallet key) (chainIndex n) mainParams paidCoin =
      match key with
      | none => .error .refused
      | some vch => .ok [⟨0, pushData vch ++ [OP_CHECKSIG]⟩] := by
  have hsolver : solver paidCoin.txOut.scriptPubKey =
      some ⟨true, .TX_PUBKEYHASH, [List.replicate 20 7]⟩ := by decide
  have honly : mainParams.networkUpgradeActive ((chainIndex n).nHeight + 1) .UPGRADE_V5_DUMMY =
      false := by
    rw [ChainParams.networkUpgradeActive_eq_false]
    exact .inl rfl
  unfold outputsFor createTxOuts
  rw [hsolver, honly]
  cases key <;> rfl

lemma createCoinStake_watchOnly :
    ∃ r, createCoinStake kernelEnv (paidWallet none) (chainIndex n) 0x1e0fffff [paidCoin]
        (fun _ => paidEnv n) 0 = .ok r ∧ r.vin = [] ∧ r.vout = [⟨0, []⟩] := by
  have hpass := examineCoin_paidCoin hn (paidWallet none) ⟨[], [⟨0, []⟩], 0, false, [⟨0, []⟩]⟩
  rw [outputsFor_paidCoin] at hpass
  refine ⟨⟨[], [⟨0, []⟩], 1600000020, true, [⟨0, []⟩]⟩, ?_, rfl, rfl⟩
  simp only [createCoinStake, stakePasses, List.zipIdx_cons, List.zipIdx_nil, List.map_cons,
    List.map_nil, searchKernel]
  rw [hpass]
  rfl

omit hn in
lemma fillBlockPayee_paidEnv (vout : List CTxOut) :
    (paidEnv n).fillBlockPayee (chainIndex n) true vout = vout := by
  have hspork : (paidEnv n).node.isSporkActive .SPORK_13_ENABLE_SUPERBLOCKS = false := rfl
  unfold StakeEnv.fillBlockPayee
  rw [hspork]
  rfl

omit hn in
lemma stakeCoin_paidCoin {s : CoinStake} (hbare : s.Bare) :
    ∃ vout, stakeCoin (chainIndex n) s paidCoin (paidEnv n)
        [⟨0, pushData paidKey ++ [OP_CHECKSIG]⟩] =
      .ok (true, { s with
        vin := [⟨paidCoin.prevout, [], 4294967295⟩]
        vout := vout
        voutBeforePayee := vout }) := by
  have hparams : (paidEnv n).node.params = mainParams := rfl
  have hsize : decide (DEFAULT_BLOCK_MAX_SIZE / 5 ≤ CTransaction.serializeSize ⟨0, [],
      setOutputAmount (nCreditOf (chainIndex n) mainParams paidCoin)
        [⟨0, []⟩, ⟨0, pushData paidKey ++ [OP_CHECKSIG]⟩]⟩) = false := by
    have hamount := setOutputAmount_eq (nCreditOf (chainIndex n) mainParams paidCoin)
      ⟨0, []⟩ (pushData paidKey ++ [OP_CHECKSIG]) 0
    rw [List.replicate_one] at hamount
    rw [hamount]
    rfl
  refine ⟨setOutputAmount (nCreditOf (chainIndex n) mainParams paidCoin)
    [⟨0, []⟩, ⟨0, pushData paidKey ++ [OP_CHECKSIG]⟩], ?_⟩
  unfold stakeCoin
  rw [hbare.vin, hbare.vout, hparams]
  simp only [List.singleton_append, fillBlockPayee_paidEnv, hsize]
  rfl

lemma createCoinStake_withKey :
    ∃ r, createCoinStake kernelEnv (paidWallet (some paidKey)) (chainIndex n) 0x1e0fffff [paidCoin]
        (fun _ => paidEnv n) 0 = .ok r := by
  have hpass := examineCoin_paidCoin hn (paidWallet (some paidKey))
    ⟨[], [⟨0, []⟩], 0, false, [⟨0, []⟩]⟩
  rw [outputsFor_paidCoin] at hpass
  obtain ⟨vout, hvout⟩ := stakeCoin_paidCoin (n := n)
    (s := ⟨[], [⟨0, []⟩], 1600000020, true, [⟨0, []⟩]⟩) ⟨rfl, rfl⟩
  refine ⟨⟨[⟨paidCoin.prevout, [], 4294967295⟩], vout, 1600000020, true, vout⟩, ?_⟩
  simp only [createCoinStake, stakePasses, List.zipIdx_cons, List.zipIdx_nil, List.map_cons,
    List.map_nil, searchKernel]
  rw [hpass]
  dsimp only
  rw [hvout]
  rfl

end

/-- With the key there is a coinstake. -/
theorem createCoinStake_exact_paid :
    ∃ r, createCoinStake kernelEnv (paidWallet (some paidKey)) (chainIndex 199999) 0x1e0fffff
        [paidCoin] (fun _ => paidEnv 199999) 0 = .ok r ∧
      ∃ p ∈ stakePasses [paidCoin] (fun _ => paidEnv 199999),
        StakesCoin kernelEnv (chainIndex 199999) 0x1e0fffff 0 p r := by
  obtain ⟨r, hr⟩ := createCoinStake_withKey (show 199999 < 10 ^ 8 by decide)
  have hnet : ∀ n, (paidEnv n).node.params = paramsOf .MAIN := fun _ => rfl
  have hsame : ∀ n, ∀ out ∈ [paidCoin], ∀ t b,
      (paidEnv n).node.getTransaction out.tx.hash = some (t, b) → t = out.tx := by
    intro n out hout t b ht
    obtain rfl := List.mem_singleton.mp hout
    have hread : (paidEnv n).node.getTransaction paidCoin.tx.hash =
        some (paidTx, (chainIndex n).hash) := rfl
    rw [hread] at ht
    cases ht
    rfl
  refine ⟨r, hr, (createCoinStake_exact (fun _ => hnet _) (fun out hout _ => hsame _ out hout) ?_
    hr).mpr ⟨(paidCoin, paidEnv 199999), List.mem_singleton.mpr rfl, ?_, ?_⟩⟩
  · intro vin vout n scriptSig hsig
    cases hsig
    rfl
  · rw [stake_paidCoin (by decide)]
  · exact ⟨_, outputsFor_paidCoin (some paidKey)⟩

/-- Without the key the call succeeds as well. -/
theorem createCoinStake_noInput :
    ∃ r, createCoinStake kernelEnv (paidWallet none) (chainIndex 199999) 0x1e0fffff [paidCoin]
        (fun _ => paidEnv 199999) 0 = .ok r ∧
      ¬ ∃ p ∈ stakePasses [paidCoin] (fun _ => paidEnv 199999),
        StakesCoin kernelEnv (chainIndex 199999) 0x1e0fffff 0 p r := by
  obtain ⟨r, hr, hvin, -⟩ := createCoinStake_watchOnly (show 199999 < 10 ^ 8 by decide)
  refine ⟨r, hr, ?_⟩
  rintro ⟨p, -, hstakes⟩
  have hlen := congrArg List.length hstakes.vin
  simp [hvin] at hlen

end Concrete

end Agenor
