import Agenor.CheckBlock

/-!
`ConnectBlock` (`main.cpp`), with `CheckInputs` and the zerocoin supply counters
(`zagechain.cpp`).

The function has two halves. The first checks the block against the coins view and writes nothing
outside the view; it is `connectChecks`, built from one pass of the loop over the transactions,
`connectTx`. The second writes undo data, the zerocoin database, the supply counters and the money
supply; it is `connectCommit`, and when it fails the globals are returned as they are then.
-/

namespace Agenor

open Lib.Wrap Lib.Fallible

/-! ### `CheckInputs` -/

/-- `GetSpendHeight`. The best block of the view is looked up without asking whether it is
there. -/
def getSpendHeight (node : Node) (v : CCoinsViewCache) : Check ℤ :=
  match node.mapBlockIndex v.getBestBlock with
  | some pindexPrev => .ok (pindexPrev.nHeight + 1)
  | none => .error .assertion

/-- One input in the loop of `CheckTxInputs`; the state is `nValueIn` and the view. -/
def checkTxInput (consensus : ChainParams) (nSpendHeight : ℤ) (s : ℤ × CCoinsViewCache)
    (txin : CTxIn) : Check (ℤ × CCoinsViewCache) := do
  let (coin, v) := s.2.accessCoin txin.prevout
  failIf coin.isSpent .assertion
  failIf ((coin.fCoinBase || coin.fCoinStake) &&
    decide (nSpendHeight - coin.nHeight < consensus.nCoinbaseMaturity))
    (.dos 0 REJECT_INVALID "bad-txns-premature-spend-of-coinbase-coinstake" false)
  let nValueIn := int64 (s.1 + coin.out.nValue)
  failIf (!consensus.moneyRange coin.out.nValue || !consensus.moneyRange nValueIn)
    (.dos 100 REJECT_INVALID "bad-txns-inputvalues-outofrange" false)
  return (nValueIn, v)

/-- `GetValueOut`, as an exception. -/
def getValueOut (tx : CTransaction) : Check ℤ :=
  match tx.getValueOut with
  | some nValueOut => .ok nValueOut
  | none => .error (.throws "CTransaction::GetValueOut() : value out of range")

def checkTxInputs (node : Node) (tx : CTransaction) (v : CCoinsViewCache) (nSpendHeight : ℤ) :
    Check CCoinsViewCache := do
  let (have', v) := v.haveInputs tx
  failIf (!have') (.dos 0 0 "" false)
  let (nValueIn, v) ← loop (checkTxInput node.params nSpendHeight) (0, v) tx.vin
  if !tx.isCoinStake then
    let nValueOut ← getValueOut tx
    failIf (decide (nValueIn < nValueOut)) (.dos 100 REJECT_INVALID "bad-txns-in-belowout" false)
    let nTxFee := int64 (nValueIn - nValueOut)
    failIf (decide (nTxFee < 0)) (.dos 100 REJECT_INVALID "bad-txns-fee-negative" false)
    failIf (!node.params.moneyRange nTxFee)
      (.dos 100 REJECT_INVALID "bad-txns-fee-outofrange" false)
  return v

/-- One script check in `CheckInputs`. With script threads it is queued and the state, whether
all queued checks pass, is updated; without, it is run and a failure is reported. -/
def checkScript (node : Node) (tx : CTransaction) (flags : ScriptFlags)
    (s : Bool × CCoinsViewCache) (p : CTxIn × ℕ) : Check (Bool × CCoinsViewCache) := do
  let (coin, v) := s.2.accessCoin p.1.prevout
  failIf coin.isSpent .assertion
  let check := node.scriptCheck coin.out.scriptPubKey coin.out.nValue tx p.2
  if node.nScriptCheckThreads ≠ 0 then return (s.1 && (check flags).isNone, v)
  else match check flags with
    | none => return (s.1, v)
    | some err =>
      failIf (flags.dersig && (check { flags with dersig := false }).isNone)
        (.dos 0 REJECT_NONSTANDARD ("non-mandatory-script-verify-flag (" ++ err ++ ")") false)
      .error (.dos 100 REJECT_INVALID ("mandatory-script-verify-flag-failed (" ++ err ++ ")")
        false)

/-- `CheckInputs`: whether the queued script checks will pass, and the view. -/
def checkInputs (node : Node) (tx : CTransaction) (v : CCoinsViewCache) (fScriptChecks : Bool)
    (flags : ScriptFlags) : Check (Bool × CCoinsViewCache) := do
  if !tx.isCoinBase && !tx.hasZerocoinSpendInputs then
    let nSpendHeight ← getSpendHeight node v
    let v ← checkTxInputs node tx v nSpendHeight
    if fScriptChecks then loop (checkScript node tx flags) (true, v) tx.vin.zipIdx
    else return (true, v)
  else return (true, v)

/-! ### The loop over the transactions -/

/-- What the loop of `ConnectBlock` carries. -/
structure ConnectLoop where
  nFees : ℤ
  nValueIn : ℤ
  nValueOut : ℤ
  nSigOps : ℕ
  vSpends : List (CoinSpend × Uint256)
  vMints : List (PublicCoin × Uint256)
  vtxundo : List CTxUndo
  /-- Whether the script checks queued so far pass. -/
  scriptsOk : Bool
  view : CCoinsViewCache

/-- What does not change during the loop. -/
structure ConnectEnv where
  node : Node
  global : Global
  block : CBlock
  pindex : CBlockIndex
  fScriptChecks : Bool
  flags : ScriptFlags

namespace ConnectEnv

variable (env : ConnectEnv)

/-- A minted output: `TxOutToPublicCoin`, whose failure is reported once more. -/
def connectMint (tx : CTransaction) (vMints : List (PublicCoin × Uint256)) (out : CTxOut) :
    Check (List (PublicCoin × Uint256)) :=
  if !out.isZerocoinMint then .ok vMints
  else match txOutToPublicCoin out with
    | .error f => .error (f.redos 100 0 "")
    | .ok coin => .ok (vMints ++ [(coin, tx.hash)])

/-- The minted outputs of a transaction. -/
def connectMints (s : ConnectLoop) (tx : CTransaction) : Check ConnectLoop :=
  if tx.hasZerocoinMintOutputs then do
    failIf (env.node.params.networkUpgradeActive env.pindex.nHeight .UPGRADE_ZC_PUBLIC)
      (.dos 100 0 "" false)
    let vMints ← loop (connectMint tx) s.vMints tx.vout
    return { s with vMints }
  else .ok s

/-- The spend of a zerocoin input. -/
def spendOf (tx : CTransaction) (txin : CTxIn) : Check CoinSpend :=
  if txin.isZerocoinPublicSpend then parseZerocoinPublicSpend env.node txin tx
  else txInToZerocoinSpend env.node.lib txin

/-- One input of a transaction with zerocoin spends. -/
def connectSpend (tx : CTransaction) (s : ConnectLoop) (txin : CTxIn) : Check ConnectLoop := do
  if !txin.isZerocoinSpend && !txin.isZerocoinPublicSpend then return s
  failIf (!checkPublicCoinSpendEnforced env.node.params env.pindex.nHeight
    txin.isZerocoinPublicSpend) .fail
  let spend ← env.spendOf tx txin
  failIf (!contextualCheckZerocoinSpend env.node env.global tx spend env.pindex.nHeight)
    (.dos 100 REJECT_INVALID "" false)
  return { s with
    nValueIn := int64 (s.nValueIn + spend.denomination.toInt * COIN)
    vSpends := s.vSpends ++ [(spend, tx.hash)] }

/-- The inputs of a transaction with zerocoin spends. -/
def connectSpends (s : ConnectLoop) (tx : CTransaction) : Check ConnectLoop := do
  match env.node.isTransactionInChain tx.hash with
  | some nHeightTx =>
    failIf (!env.node.fVerifyingBlocks || decide (nHeightTx < env.pindex.nHeight))
      (.dos 100 REJECT_INVALID "bad-txns-inputs-missingorspent" false)
  | none => pure ()
  loop (env.connectSpend tx) s tx.vin

/-- The inputs of an ordinary transaction. -/
def connectOrdinary (s : ConnectLoop) (tx : CTransaction) : Check ConnectLoop := do
  let (have', view) := s.view.haveInputs tx
  failIf (!have') (.dos 100 REJECT_INVALID "bad-txns-inputs-missingorspent" false)
  failIf (tx.vin.any fun i => !env.node.validOutPoint i.prevout env.pindex.nHeight)
    (.dos 100 REJECT_INVALID "bad-txns-invalid-inputs" false)
  let (n, view) := getP2SHSigOpCount view tx
  let nSigOps := s.nSigOps + n
  failIf (decide (MAX_BLOCK_SIGOPS_CURRENT < nSigOps))
    (.dos 100 REJECT_INVALID "bad-blk-sigops" false)
  return { s with nSigOps, view }

/-- The first checks of a transaction, by its kind. -/
def connectKind (s : ConnectLoop) (tx : CTransaction) : Check ConnectLoop :=
  if tx.hasZerocoinSpendInputs then env.connectSpends s tx
  else if !tx.isCoinBase then env.connectOrdinary s tx
  else .ok s

/-- `nFees` after the transaction. A coinstake pays no fee. -/
def feesAfter (nFees valueIn : ℤ) (tx : CTransaction) : Check ℤ :=
  if !tx.isCoinStake then do
    let valueOut ← getValueOut tx
    return int64 (nFees + (valueIn - valueOut))
  else .ok nFees

/-- Fees, the value that goes in, and the checks of the inputs. -/
def connectValueIn (s : ConnectLoop) (tx : CTransaction) : Check ConnectLoop :=
  if tx.isCoinBase then .ok s
  else do
    let (valueIn, view) := s.view.getValueIn tx
    let nFees ← feesAfter s.nFees valueIn tx
    let nValueIn := int64 (s.nValueIn + valueIn)
    let (ok, view) ← checkInputs env.node tx view env.fScriptChecks env.flags
    return { s with nFees, nValueIn, scriptsOk := s.scriptsOk && ok, view }

/-- The value that goes out, and the new coins. The first transaction leaves no undo record. -/
def connectOutputs (s : ConnectLoop) (tx : CTransaction) (i : ℕ) : Check ConnectLoop := do
  let valueOut ← getValueOut tx
  let (txundo, view) ← s.view.updateCoins tx env.pindex.nHeight
  return { s with
    nValueOut := int64 (s.nValueOut + valueOut)
    vtxundo := if i = 0 then s.vtxundo else s.vtxundo ++ [txundo]
    view }

def connectTx (s : ConnectLoop) (p : CTransaction × ℕ) : Check ConnectLoop := do
  let (tx, i) := p
  let nSigOps := s.nSigOps + getLegacySigOpCount tx
  failIf (decide (MAX_BLOCK_SIGOPS_CURRENT < nSigOps))
    (.dos 100 REJECT_INVALID "bad-blk-sigops" false)
  failIf (decide (env.node.getSporkValue .SPORK_16_ZEROCOIN_MAINTENANCE_MODE < env.block.nTime) &&
    !env.node.isInitialBlockDownload && tx.containsZerocoins) (.dos 100 0 "" false)
  let s ← env.connectMints { s with nSigOps } tx
  let s ← env.connectKind s tx
  let s ← env.connectValueIn s tx
  env.connectOutputs s tx i

end ConnectEnv

/-! ### The first half -/

def isBlockValueValid (node : Node) (nHeight nExpectedValue nMinted : ℤ) : Bool :=
  if !node.isSynced && decide (nHeight.tmod node.params.nBudgetCycleBlocks < 100) then true
  else if node.isSynced && node.isSporkActive .SPORK_13_ENABLE_SUPERBLOCKS &&
      node.isBudgetPaymentBlock nHeight then true
  else decide (nMinted ≤ nExpectedValue)

def ConnectLoop.nMint (s : ConnectLoop) : ℤ := int64 (s.nValueOut - s.nValueIn + s.nFees)

/-- `nExpectedMint`: while there is proof of work the fees go to the miner, later they are
destroyed. -/
def nExpectedMint (node : Node) (block : CBlock) (nHeight nFees : ℤ) : ℤ :=
  let nExpectedMint := node.params.getBlockValue nHeight
  if block.isProofOfWork then int64 (nExpectedMint + nFees) else nExpectedMint

/-- `CheckBlock` as `ConnectBlock` calls it. -/
def connectCheckBlock (node : Node) (block : CBlock) (fJustCheck fAlreadyChecked : Bool) :
    Check Unit :=
  if fAlreadyChecked then .ok ()
  else match checkBlock node block (!fJustCheck) (!fJustCheck) true with
    | .ok _ => .ok ()
    | .error f =>
      if f.corruptionPossible then .error (.abortNode
        "Corrupt block found indicating potential hardware failure; shutting down")
      else .error f

/-- The state in which the loop starts. -/
def ConnectLoop.start (view : CCoinsViewCache) : ConnectLoop where
  nFees := 0
  nValueIn := 0
  nValueOut := 0
  nSigOps := 0
  vSpends := []
  vMints := []
  vtxundo := []
  scriptsOk := true
  view := view

@[simp] lemma ConnectLoop.start_nFees (v : CCoinsViewCache) : (start v).nFees = 0 := rfl
@[simp] lemma ConnectLoop.start_nValueIn (v : CCoinsViewCache) : (start v).nValueIn = 0 := rfl
@[simp] lemma ConnectLoop.start_nValueOut (v : CCoinsViewCache) : (start v).nValueOut = 0 := rfl
@[simp] lemma ConnectLoop.start_view (v : CCoinsViewCache) : (start v).view = v := rfl

/-- The flags and the constants of the loop. -/
def connectEnv (node : Node) (global : Global) (block : CBlock) (pindex : CBlockIndex) :
    ConnectEnv :=
  let fScriptChecks := decide (node.params.totalBlocksEstimate ≤ pindex.nHeight)
  let fCLTVIsActivated := fScriptChecks && pindex.pprev.any fun pprev =>
    node.params.networkUpgradeActive pprev.nHeight .UPGRADE_BIP65
  { node, global, block, pindex, fScriptChecks, flags := ⟨true, fCLTVIsActivated⟩ }

/-- The period of the block, proof of work or proof of stake. -/
def checkPeriod (node : Node) (block : CBlock) (nHeight : ℤ) : Check Unit := do
  let isPoSActive := node.params.networkUpgradeActive nHeight .UPGRADE_POS
  failIf (!isPoSActive && block.isProofOfStake) (.dos 100 REJECT_INVALID "PoS-early" false)
  failIf (isPoSActive && block.isProofOfWork) (.dos 100 REJECT_INVALID "PoW-ended" false)

/-- From the period of the block to the end of the script checks. -/
def connectChecks (node : Node) (g : Global) (block : CBlock) (pindex : CBlockIndex)
    (view : CCoinsViewCache) : Check ConnectLoop := do
  checkPeriod node block pindex.nHeight
  let s ← loop (connectEnv node g block pindex).connectTx (.start view) block.vtx.zipIdx
  failIf (!isBlockValueValid node pindex.nHeight (nExpectedMint node block pindex.nHeight s.nFees)
    s.nMint) (.dos 100 REJECT_INVALID "bad-cb-amount" false)
  failIf (!s.scriptsOk) (.dos 100 REJECT_INVALID "block-validation-failed" false)
  return s

/-! ### The zerocoin supply -/

/-- `mapZerocoinSupply`. -/
abbrev ZerocoinSupply := CoinDenomination → Option ℤ

/-- The denominations minted by some outputs, and whether they could all be read. -/
def mintDenomsOuts (node : Node) (txHash : Uint256) :
    List (CTxOut × ℕ) → Check (List CoinDenomination × Bool)
  | [] => .ok ([], true)
  | (txOut, i) :: rest =>
    if !node.validOutPoint ⟨txHash, i⟩ ChainParams.INT_MAX then .ok ([], true)
    else if !txOut.isZerocoinMint then mintDenomsOuts node txHash rest
    else match txOutToPublicCoin txOut with
      | .error (.outOfRange site) => .error (.outOfRange site)
      | .error _ => .ok ([], false)
      | .ok pubCoin => do
        let (l, ok) ← mintDenomsOuts node txHash rest
        return (pubCoin.denomination :: l, ok)

/-- `BlockToZerocoinMintList` with invalid outpoints filtered out. An output that cannot be read
ends the list, and the callers do not notice. -/
def mintDenoms (node : Node) : List CTransaction → Check (List CoinDenomination)
  | [] => .ok []
  | tx :: rest =>
    if !tx.hasZerocoinMintOutputs ||
        tx.vin.any (fun i => !node.validOutPoint i.prevout ChainParams.INT_MAX) then
      mintDenoms node rest
    else do
      let (l, ok) ← mintDenomsOuts node tx.hash tx.vout.zipIdx
      if ok then
        let l' ← mintDenoms node rest
        return l ++ l'
      else return l

/-- Whether a spend is left out because its serial is blacklisted. -/
def hasInvalidSerial (node : Node) (txin : CTxIn) : Check Bool :=
  if txin.isZerocoinPublicSpend then .ok false
  else do
    let spend ← txInToZerocoinSpend node.lib txin
    return node.containsSerial spend.coinSerialNumber

/-- The denominations spent by some inputs, as their sequence numbers give them. -/
def spendDenomsIns (node : Node) : List CTxIn → Check (List CoinDenomination)
  | [] => .ok []
  | txin :: rest =>
    if !txin.isZerocoinSpend && !txin.isZerocoinPublicSpend then spendDenomsIns node rest
    else do
      let filtered ← hasInvalidSerial node txin
      let l ← spendDenomsIns node rest
      return if filtered then l else CoinDenomination.ofInt txin.nSequence :: l

/-- `ZerocoinSpendListFromBlock` with invalid serials filtered out. -/
def spendDenoms (node : Node) : List CTransaction → Check (List CoinDenomination)
  | [] => .ok []
  | tx :: rest =>
    if !tx.hasZerocoinSpendInputs then spendDenoms node rest
    else do
      let l ← spendDenomsIns node tx.vin
      let l' ← spendDenoms node rest
      return l ++ l'

/-- `mapZerocoinSupply.at(denom) += k`. A failure leaves the map as it was before. -/
def addSupply (k : ℤ) (m : ZerocoinSupply) (d : CoinDenomination) :
    Except (Fault × ZerocoinSupply) ZerocoinSupply :=
  match m d with
  | some n => .ok (Function.update m d (some (int64 (n + k))))
  | none => .error (.throws "map::at", m)

/-- `mapZerocoinSupply.at(denom)--` with the failsafe. -/
def takeSupply (m : ZerocoinSupply) (d : CoinDenomination) :
    Except (Fault × ZerocoinSupply) ZerocoinSupply := do
  let m ← addSupply (-1) m d
  if (m d).any (decide <| · < 0) then .error (.fail, m) else .ok m

/-- A check that does not touch the map. -/
def withSupply {α : Type} (m : ZerocoinSupply) (c : Check α) :
    Except (Fault × ZerocoinSupply) α :=
  match c with
  | .ok a => .ok a
  | .error f => .error (f, m)

/-- Whether the supply is corrected at this height, once on the main network. -/
def isWrappedSerialsHeight (consensus : ChainParams) (nHeight : ℤ) : Bool :=
  consensus.networkID == .MAIN && decide (nHeight = consensus.height_last_ZC_WrappedSerials + 1)

/-- `mapZerocoinSupply.at(denom)` for every denomination, with a factor for the correction. -/
def addInflation (sign : ℤ) (m : ZerocoinSupply) :
    Except (Fault × ZerocoinSupply) ZerocoinSupply :=
  loop (fun m d => addSupply (sign * d.wrappedSerialInflation true) m d) m
    CoinDenomination.zerocoinDenomList

/-- The correction of the supply, at its height. -/
def correctSupply (sign : ℤ) (consensus : ChainParams) (nHeight : ℤ) (m : ZerocoinSupply) :
    Except (Fault × ZerocoinSupply) ZerocoinSupply :=
  if isWrappedSerialsHeight consensus nHeight then addInflation sign m else .ok m

/-- The minted denominations join the supply, as long as there are checkpoints. -/
def connectMintSupply (node : Node) (block : CBlock) (nHeight : ℤ) (m : ZerocoinSupply) :
    Except (Fault × ZerocoinSupply) ZerocoinSupply :=
  if nHeight < node.params.height_last_ZC_AccumCheckpoint then do
    let listMints ← withSupply m (mintDenoms node block.vtx)
    loop (addSupply 1) m listMints
  else .ok m

def updateZAgenorupplyConnect (node : Node) (block : CBlock) (nHeight : ℤ) (m : ZerocoinSupply) :
    Except (Fault × ZerocoinSupply) ZerocoinSupply :=
  if !node.params.networkUpgradeActive nHeight .UPGRADE_ZC then .ok m
  else do
    let m ← connectMintSupply node block nHeight m
    let listDenomsSpent ← withSupply m (spendDenoms node block.vtx)
    let m ← loop takeSupply m listDenomsSpent
    correctSupply 1 node.params nHeight m

/-! ### The second half -/

def getZerocoinSupply (m : ZerocoinSupply) : ℤ :=
  int64 (CoinDenomination.zerocoinDenomList.map fun d => d.toAmount * (m d).getD 0).sum

/-- `GetWrapppedSerialInflationAmount`. -/
def wrappedSerialInflationAmount : ℤ :=
  (CoinDenomination.zerocoinDenomList.map fun d =>
    d.wrappedSerialInflation true * d.toAmount).sum

/-- The money supply after the block: two corrections on the main network, and then what the
block created. -/
def connectMoney (node : Node) (g : Global) (nHeight nValueOut nValueIn : ℤ) : Global :=
  let g :=
    if isWrappedSerialsHeight node.params nHeight &&
        getZerocoinSupply g.mapZerocoinSupply !=
          node.params.ZC_WrappedSerialsSupply + wrappedSerialInflationAmount then
      node.recalculateAgenorupply g
    else g
  let g :=
    if node.params.networkID == .MAIN &&
        decide (nHeight = node.params.height_ZC_RecalcAccumulators) then
      { g with nMoneySupply :=
          int64 (int64 (g.nMoneySupply + 268200 * COIN) - node.getInvalidUTXOValue) }
    else g
  { g with nMoneySupply := int64 (g.nMoneySupply + (nValueOut - nValueIn)) }

/-- The undo data, unless the block has some already. -/
def writeUndo (node : Node) (g : Global) (pindex : CBlockIndex) (blockundo : CBlockUndo) :
    Except (Fault × Global) Global := do
  if (g.undo pindex.hash).isSome then return g
  failIf (!node.findUndoPos) (.fail, g)
  failIf (!node.undoWriteToDisk) (.abortNode "Failed to write undo data", g)
  return { g with undo := Function.update g.undo pindex.hash (some blockundo) }

/-- The two batches of the zerocoin database and the transaction index. -/
def writeZerocoinDB (node : Node) (g : Global) (s : ConnectLoop) :
    Except (Fault × Global) Global := do
  failIf (!s.vSpends.isEmpty && !node.writeCoinSpendBatch)
    (.abortNode "Failed to record coin serials to database", g)
  let g := { g with zerocoinDB := g.zerocoinDB.writeSpends node.lib s.vSpends }
  failIf (!s.vMints.isEmpty && !node.writeCoinMintBatch)
    (.abortNode "Failed to record new mints to database", g)
  let g := { g with zerocoinDB := g.zerocoinDB.writeMints node.lib s.vMints }
  failIf (node.fTxIndex && !node.writeTxIndex) (.abortNode "Failed to write transaction index", g)
  return g

/-- Everything after the script checks. -/
def connectCommit (node : Node) (g : Global) (block : CBlock) (pindex : CBlockIndex)
    (s : ConnectLoop) : Except (Fault × Global) (CCoinsViewCache × Global) := do
  let g ← writeUndo node g pindex ⟨s.vtxundo⟩
  let g ← writeZerocoinDB node g s
  match updateZAgenorupplyConnect node block pindex.nHeight g.mapZerocoinSupply with
  | .error (f, m) =>
    .error (f.redos 100 REJECT_INVALID "", { g with mapZerocoinSupply := m })
  | .ok m =>
    let g := { g with mapZerocoinSupply := m }
    return (s.view.setBestBlock pindex.hash,
      connectMoney node g pindex.nHeight s.nValueOut s.nValueIn)

/-- A check that does not touch the globals. -/
def withGlobal {α : Type} (g : Global) (c : Check α) : Except (Fault × Global) α :=
  match c with
  | .ok a => .ok a
  | .error f => .error (f, g)

/-- `ConnectBlock`: the view and the globals afterwards. When it does not return `true` the view
is not to be used any more. -/
def connectBlock (node : Node) (g : Global) (block : CBlock) (pindex : CBlockIndex)
    (view : CCoinsViewCache) (fJustCheck fAlreadyChecked : Bool) :
    Except (Fault × Global) (CCoinsViewCache × Global) := do
  withGlobal g (connectCheckBlock node block fJustCheck fAlreadyChecked)
  let hashPrevBlock := (pindex.pprev.map (·.hash)).getD 0
  failIf (hashPrevBlock != view.getBestBlock) (.assertion, g)
  if block.hash = node.params.hashGenesisBlock then
    return (if fJustCheck then view else view.setBestBlock pindex.hash, g)
  let s ← withGlobal g (connectChecks node g block pindex view)
  if fJustCheck then return (s.view, g)
  connectCommit node g block pindex s

/-! ### Data for concrete runs -/

namespace Concrete

/-- A chain of two blocks and a third one on top. -/
def genesisIndex : CBlockIndex := ⟨1, 0, 1500000000, none⟩

@[inherit_doc genesisIndex]
def firstIndex : CBlockIndex := ⟨2, 1, 1500000060, some genesisIndex⟩

@[inherit_doc genesisIndex]
def secondIndex : CBlockIndex := ⟨3, 2, 1500000120, some firstIndex⟩

/-- A synchronised node with that chain. -/
def mainNode : Node := .idle mainParams (.simple 0) [genesisIndex, firstIndex]

/-- No coins, after the first block. -/
def emptyView : CCoinsViewCache := .ofView ⟨fun _ => none, 2⟩

def coinBaseTx (nValue : ℤ) : CTransaction :=
  ⟨10, [⟨COutPoint.null, [0x52, 0], 0⟩], [⟨nValue, [Script.OP_1]⟩]⟩

/-- A private spend of 5000 coins, paid out again. -/
def spendTx : CTransaction :=
  ⟨11, [⟨COutPoint.null, spendScript [0x88, 0x13, 0, 0] (List.replicate 32 0) 1 0, 5000⟩],
    [⟨5000 * COIN, [Script.OP_1]⟩]⟩

/-- A mined block on top of the chain. -/
def secondBlock (vtx : List CTransaction) : CBlock :=
  ⟨3, 2, 0, 1500000120, 0, vtx, [], false⟩

/-- The blocks of a chain with one block a minute; the hash is the height plus one. -/
def indexAt : ℕ → CBlockIndex
  | 0 => ⟨1, 0, 1500000000, none⟩
  | n + 1 => ⟨BitVec.ofNat 256 (n + 2), n + 1, 1500000000 + 60 * (n + 1), some (indexAt n)⟩

def chainTo (n : ℕ) : List CBlockIndex := (List.range (n + 1)).map indexAt

/-- The coinbase of a staked block. -/
def emptyCoinBaseTx : CTransaction := ⟨20, [⟨COutPoint.null, [0x52, 0], 0⟩], [⟨0, []⟩]⟩

end Concrete

end Agenor
