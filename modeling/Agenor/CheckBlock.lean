import Agenor.TxVerify

/-!
`CheckBlock` (`main.cpp`): the checks of a block that do not need the coins it spends.
-/

namespace Agenor

open Lib.Wrap Lib.Fallible

def MAX_BLOCK_SIZE_CURRENT : ℕ := 2000000
def MAX_BLOCK_SIZE_LEGACY : ℕ := 1000000
def MAX_BLOCK_SIGOPS_CURRENT : ℕ := MAX_BLOCK_SIZE_CURRENT / 50
def MAX_BLOCK_SIGOPS_LEGACY : ℕ := MAX_BLOCK_SIZE_LEGACY / 50

/-- The value of the first spent output plus the block reward, which the outputs between the
first and the last must have while the budget cannot be checked. -/
def coldStakeAmountIn (node : Node) (tx : CTransaction) (nHeight : ℤ) : Check ℤ :=
  match tx.vin with
  | [] => .error (.outOfRange .outputIndex)
  | txin :: _ =>
    match node.getTransaction txin.prevout.hash with
    | none => .error .fail
    | some (txPrev, _) =>
      match txPrev.vout[txin.prevout.n]? with
      | none => .error (.outOfRange .outputIndex)
      | some out => .ok (int64 (out.nValue + node.params.getBlockValue nHeight))

def checkColdStakeFreeOutput (node : Node) (tx : CTransaction) (nHeight : ℤ) : Check Unit := do
  if !tx.hasP2CSOutputs then return
  let outs := tx.vout.length
  let lastOut := tx.vout.getD (outs - 1) CTxOut.null
  if decide (3 ≤ outs) &&
      lastOut.scriptPubKey != (tx.vout.getD (outs - 2) CTxOut.null).scriptPubKey then
    let blockValue := node.params.getBlockValue nHeight
    if lastOut.nValue = getMasternodePayment blockValue then return
    failIf node.params.isRegTestNet .fail
    if !node.isSynced then
      let amtIn ← coldStakeAmountIn node tx nHeight
      let amtOut := ((tx.vout.drop 1).take (outs - 2)).foldl (fun a o => int64 (a + o.nValue)) 0
      failIf (amtOut != amtIn) .fail
    else if node.isBudgetPaymentBlock nHeight then
      failIf (!node.isSporkActive .SPORK_13_ENABLE_SUPERBLOCKS) .fail
    else .error .fail

/-- The check of the merkle root. -/
def checkMerkleRoot (node : Node) (block : CBlock) : Check Unit := do
  let (hashMerkleRoot2, mutated) := node.blockMerkleRoot block.vtx
  failIf (block.hashMerkleRoot != hashMerkleRoot2)
    (.dos 100 REJECT_INVALID "bad-txnmrklroot" true)
  failIf mutated (.dos 100 REJECT_INVALID "bad-txns-duplicate" true)

/-- The places of the coinbase and the coinstake. -/
def checkBlockShape (block : CBlock) : Check Unit := do
  failIf (block.vtx.isEmpty || decide (MAX_BLOCK_SIZE_CURRENT < block.vtx.length) ||
    decide (MAX_BLOCK_SIZE_CURRENT < block.serializeSize))
    (.dos 100 REJECT_INVALID "bad-blk-length" false)
  failIf (!(block.vtx.head?.any (·.isCoinBase))) (.dos 100 REJECT_INVALID "bad-cb-missing" false)
  failIf (block.vtx.tail.any (·.isCoinBase)) (.dos 100 REJECT_INVALID "bad-cb-multiple" false)
  if block.isProofOfStake then
    failIf (!(block.vtx.head?.any fun tx => tx.vout.length == 1 && tx.vout.all (·.isEmpty)))
      (.dos 100 REJECT_INVALID "bad-cb-pos" false)
    failIf (!(block.vtx[1]?.any (·.isCoinStake))) (.dos 100 REJECT_INVALID "bad-cs-missing" false)
    failIf ((block.vtx.drop 2).any (·.isCoinStake))
      (.dos 100 REJECT_INVALID "bad-cs-multiple" false)

/-- Inputs that are locked for another transaction. -/
def checkLockedInputs (node : Node) (block : CBlock) : Check Unit :=
  failIf (node.isSporkActive .SPORK_3_SWIFTTX_BLOCK_FILTERING &&
    block.vtx.any fun tx => !tx.isCoinBase &&
      tx.vin.any fun i => (node.mapLockedInputs i.prevout).any (· != tx.hash))
    (.dos 100 REJECT_INVALID "conflicting-tx-ix" false)

/-- The height `CheckBlock` takes the block to have: zero when its parent is not known. -/
def checkBlockHeight (node : Node) (block : CBlock) (pindexPrev : CBlockIndex) : ℤ :=
  if pindexPrev.hash = block.hashPrevBlock then pindexPrev.nHeight + 1
  else match node.mapBlockIndex block.hashPrevBlock with
    | some pindex => pindex.nHeight + 1
    | none => 0

/-- Cold staking, masternode and budget payments; the result is `fColdStakingActive`. -/
def checkPayments (node : Node) (block : CBlock) : Check Bool :=
  match node.tip with
  | none => .ok true
  | some pindexPrev =>
    let nHeight := checkBlockHeight node block pindexPrev
    if nHeight != 0 && !node.isInitialBlockDownload then do
      match block.isProofOfStake, block.vtx[1]? with
      | true, some tx =>
        match checkColdStakeFreeOutput node tx nHeight with
        | .error f => .error (f.redos 0 REJECT_INVALID "bad-p2cs-outs")
        | .ok () => pure ()
      | _, _ => pure ()
      failIf (!node.isBlockPayeeValid block nHeight) (.dos 0 REJECT_INVALID "bad-cb-payee" false)
      return node.isSporkActive .SPORK_17_COLDSTAKING_ENFORCEMENT
    else .ok true

/-- One spend in the search for a serial used twice in the block. -/
def checkBlockSerial (node : Node) (tx : CTransaction) (vBlockSerials : List ℤ) (txin : CTxIn) :
    Check (List ℤ) := do
  if !txin.isZerocoinSpend && !txin.isZerocoinPublicSpend then return vBlockSerials
  let spend ←
    if txin.isZerocoinPublicSpend then do
      let spend ← parseZerocoinPublicSpend node txin tx
      failIf (!node.isInitialBlockDownload &&
        spend.version != currentPublicCoinSpendVersion node)
        (.dos 0 REJECT_INVALID "bad-zcspend-version" false)
      pure spend
    else txInToZerocoinSpend node.lib txin
  failIf (vBlockSerials.contains spend.coinSerialNumber) (.dos 100 0 "" false)
  return spend.coinSerialNumber :: vBlockSerials

/-- One transaction in the loop of `CheckBlock`; the state is `vBlockSerials`. A failure is
reported again with the same code and reason. -/
def checkBlockTx (node : Node) (fZerocoinActive fColdStakingActive : Bool)
    (vBlockSerials : List ℤ) (tx : CTransaction) : Check (List ℤ) := do
  match checkTransaction node tx fZerocoinActive fColdStakingActive with
  | .error (.dos n code reason _) => .error (.dos n code reason false)
  | .error f => .error f
  | .ok () =>
    if tx.hasZerocoinSpendInputs then loop (checkBlockSerial node tx) vBlockSerials tx.vin
    else return vBlockSerials

/-- `CheckBlock`; the result is the block with its `fChecked` flag. -/
def checkBlock (node : Node) (block : CBlock) (fCheckPOW fCheckMerkleRoot fCheckSig : Bool) :
    Check CBlock :=
  if block.fChecked then .ok block
  else do
    failIf (!block.isProofOfStake && !node.checkProofOfWork block.hash block.nBits)
      (.dos 50 REJECT_INVALID "high-hash" false)
    if fCheckMerkleRoot then checkMerkleRoot node block
    checkBlockShape block
    checkLockedInputs node block
    let fZerocoinActive := decide (node.params.ZC_TimeStart < block.nTime)
    let fColdStakingActive ← checkPayments node block
    let _ ← loop (checkBlockTx node fZerocoinActive fColdStakingActive) [] block.vtx
    let nMaxBlockSigOps :=
      if fZerocoinActive then MAX_BLOCK_SIGOPS_CURRENT else MAX_BLOCK_SIGOPS_LEGACY
    failIf (decide (nMaxBlockSigOps < (block.vtx.map getLegacySigOpCount).sum))
      (.dos 100 REJECT_INVALID "bad-blk-sigops" true)
    return { block with fChecked := fCheckPOW && fCheckMerkleRoot && fCheckSig }

/-! ### What a checked block is like -/

/-- What `CheckBlock` establishes about the transactions of a block. -/
structure CheckedBlock (consensus : ChainParams) (block : CBlock) : Prop where
  txs : ∀ tx ∈ block.vtx, CheckedTx consensus tx
  shape : ∃ cb rest, block.vtx = cb :: rest ∧ cb.isCoinBase = true ∧
    ∀ tx ∈ rest, tx.isCoinBase = false
  stake : block.isProofOfStake = true → ∃ cb cs rest, block.vtx = cb :: cs :: rest ∧
    (∃ o, cb.vout = [o] ∧ o.isEmpty = true) ∧ cs.isCoinStake = true ∧
    ∀ tx ∈ rest, tx.isCoinStake = false
  size : block.serializeSize ≤ MAX_BLOCK_SIZE_CURRENT

lemma checkBlockTx_eq_ok {node : Node} {zc cold : Bool} {l l' : List ℤ} {tx : CTransaction}
    (h : checkBlockTx node zc cold l tx = .ok l') :
    checkTransaction node tx zc cold = .ok () := by
  unfold checkBlockTx at h
  cases hc : checkTransaction node tx zc cold with
  | ok u => rfl
  | error f => cases f <;> simp [hc] at h

lemma checkBlockTxs_eq_ok {node : Node} {zc cold : Bool} {l l' : List ℤ}
    {txs : List CTransaction} (h : loop (checkBlockTx node zc cold) l txs = .ok l') :
    ∀ tx ∈ txs, checkTransaction node tx zc cold = .ok () := by
  induction txs generalizing l with
  | nil => simp
  | cons tx txs ih =>
    simp only [loop_cons, bind_eq_ok] at h
    obtain ⟨l₁, h1, h2⟩ := h
    intro t ht
    rcases List.mem_cons.mp ht with rfl | ht
    · exact checkBlockTx_eq_ok h1
    · exact ih h2 t ht

lemma checkBlockShape_eq_ok {block : CBlock} (h : checkBlockShape block = .ok ()) :
    (∃ cb rest, block.vtx = cb :: rest ∧ cb.isCoinBase = true ∧
      ∀ tx ∈ rest, tx.isCoinBase = false) ∧
    (block.isProofOfStake = true → ∃ cb cs rest, block.vtx = cb :: cs :: rest ∧
      (∃ o, cb.vout = [o] ∧ o.isEmpty = true) ∧ cs.isCoinStake = true ∧
      ∀ tx ∈ rest, tx.isCoinStake = false) ∧
    block.serializeSize ≤ MAX_BLOCK_SIZE_CURRENT := by
  simp only [checkBlockShape, bind_eq_ok, failIf_eq_ok, Bool.or_eq_false_iff,
    decide_eq_false_iff_not, not_lt, Bool.not_eq_eq_eq_not, Bool.not_false] at h
  obtain ⟨-, ⟨⟨-, -⟩, hsize⟩, -, hcb, -, hmany, h⟩ := h
  cases hv : block.vtx with
  | nil => simp [hv] at hcb
  | cons cb rest =>
    rw [hv] at hcb hmany
    refine ⟨⟨cb, rest, rfl, by simpa using hcb, by simpa using hmany⟩, ?_, hsize⟩
    intro hpos
    rw [if_pos hpos] at h
    simp only [bind_eq_ok, failIf_eq_ok, Bool.not_eq_eq_eq_not, Bool.not_false, hv] at h
    obtain ⟨-, hout, -, hcs, hone⟩ := h
    cases rest with
    | nil => simp at hcs
    | cons cs rest =>
      simp only [List.head?_cons, Option.any_some, Bool.and_eq_true, beq_iff_eq] at hout
      obtain ⟨o, ho⟩ := List.length_eq_one_iff.mp hout.1
      exact ⟨cb, cs, rest, rfl, ⟨o, ho, by simpa [ho] using hout.2⟩, by simpa using hcs,
        by simpa using hone⟩

/-- **A block that passes**, unless the flag said that it had passed before. -/
theorem checkBlock_eq_ok {node : Node} {block block' : CBlock} {pow root sig : Bool}
    (hm : node.params.MoneyOk) (hf : block.fChecked = false)
    (h : checkBlock node block pow root sig = .ok block') : CheckedBlock node.params block := by
  simp only [checkBlock, hf, Bool.false_eq_true, if_false, bind_eq_ok] at h
  obtain ⟨-, -, h⟩ := h
  have h : ∃ u, checkBlockShape block = .ok u ∧ ∃ u, checkLockedInputs node block = .ok u ∧
      ∃ cold, checkPayments node block = .ok cold ∧ ∃ l,
      loop (checkBlockTx node (decide (node.params.ZC_TimeStart < block.nTime)) cold) [] block.vtx
        = .ok l := by
    split at h
    · simp only [bind_eq_ok] at h
      obtain ⟨-, -, u, hs, u', hl, cold, hp, l, hloop, -⟩ := h
      exact ⟨u, hs, u', hl, cold, hp, l, hloop⟩
    · simp only [bind_eq_ok] at h
      obtain ⟨u, hs, u', hl, cold, hp, l, hloop, -⟩ := h
      exact ⟨u, hs, u', hl, cold, hp, l, hloop⟩
  obtain ⟨_, hs, -, -, cold, -, l, hloop⟩ := h
  obtain ⟨h1, h2, h3⟩ := checkBlockShape_eq_ok hs
  exact {
    txs := fun tx htx => checkTransaction_eq_ok hm (checkBlockTxs_eq_ok hloop tx htx)
    shape := h1
    stake := h2
    size := h3 }

end Agenor
