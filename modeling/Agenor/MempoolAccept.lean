import Agenor.Mempool
import Agenor.ConnectBlock

/-!
How transactions get into the memory pool (`AcceptToMemoryPool` in `main.cpp` and
`legacy/validation_zerocoin_legacy.cpp`), and what connecting and disconnecting a block does to it.

Standardness, fee policy and the standard script flags are parameters. All the checks come before
the pool is changed, so that they are one computation, `acceptChecks`; what follows adds the entry
and cuts the pool down to its size.
-/

namespace Agenor

open Lib.Fallible

def REJECT_DUPLICATE : ℕ := 0x12
def REJECT_INSUFFICIENTFEE : ℕ := 0x42
def REJECT_ALREADY_KNOWN : ℕ := 0x101
def REJECT_CONFLICT : ℕ := 0x102

def MAX_TX_SIGOPS_CURRENT : ℕ := MAX_BLOCK_SIGOPS_CURRENT / 5

/-- The height of coins that are only in the pool. -/
def MEMPOOL_HEIGHT : ℤ := 0x7FFFFFFF

/-- `CCoinsViewMemPool`. -/
def CTxMemPool.coinsView (m : CTxMemPool) (base : CCoinsView) : CCoinsView where
  getCoin outpoint :=
    match m.mapTx.lookup outpoint.hash with
    | some e => e.tx.vout[outpoint.n]?.map fun out => ⟨out, MEMPOOL_HEIGHT, false, false⟩
    | none => (base.getCoin outpoint).filter (!·.isSpent)
  bestBlock := base.bestBlock

/-- What the acceptance of a transaction reads: the node, the coins of the tip, and what is not
modelled further. -/
structure AcceptEnv where
  node : Node
  global : Global
  coinsTip : CCoinsView
  mu : MemUsage
  getTime : ℤ
  /-- `CheckFinalTx`. -/
  checkFinalTx : CTransaction → Bool
  /-- `IsStandardTx`; the reason when it is not. -/
  isStandardTx : CTransaction → Option String
  areInputsStandard : CTransaction → CCoinsViewCache → Bool
  /-- The rules about fees, given the fee and the size. -/
  feePolicy : CTransaction → ℤ → ℕ → Check Unit
  /-- `CheckInputs` with the standard flags, and with or without `CHECKLOCKTIMEVERIFY`. -/
  checkStandardInputs : CTransaction → CCoinsViewCache → Bool → Check Unit
  limits : AncestorLimits
  /-- The size limit in bytes and the age limit in seconds. -/
  maxmempool : ℕ
  mempoolexpiry : ℤ
  /-- The entry that `TrimToSize` removes next. -/
  worst : CTxMemPool → Option Uint256

namespace AcceptEnv

variable (env : AcceptEnv) (m : CTxMemPool) (tx : CTransaction)

/-! ### The checks -/

/-- One input in `AcceptToMemoryPoolZerocoin`. -/
def acceptSpend (txin : CTxIn) : Check Unit := do
  failIf (!txin.isZerocoinPublicSpend) (.dos 0 REJECT_INVALID "bad-zc-spend-notpublic" false)
  let publicSpend ← parseZerocoinPublicSpend env.node txin tx
  failIf (!contextualCheckZerocoinSpend env.node env.global tx publicSpend env.node.height)
    (.dos 0 REJECT_INVALID "bad-zc-spend-contextcheck" false)
  failIf (publicSpend.version != currentPublicCoinSpendVersion env.node)
    (.dos 0 REJECT_INVALID "bad-zc-spend-version" false)

/-- `AcceptToMemoryPoolZerocoin`: the value that goes in. -/
def acceptToMemoryPoolZerocoin : Check ℤ := do
  failIf (env.node.isTransactionInChain tx.hash).isSome
    (.dos 0 REJECT_DUPLICATE "bad-txns-inputs-spent" false)
  loop (fun _ txin => env.acceptSpend tx txin) () tx.vin
  return tx.getZerocoinSpent

/-- Only the regression test network takes transactions that are not standard. -/
def acceptStandard : Check Unit :=
  match env.isStandardTx tx with
  | some reason => failIf (!env.node.params.isRegTestNet) (.dos 0 REJECT_NONSTANDARD reason false)
  | none => .ok ()

/-- The checks that do not look at the coins, up to the conflicts with the pool. -/
def acceptFirst : Check Unit := do
  failIf (env.node.isSporkActive .SPORK_16_ZEROCOIN_MAINTENANCE_MODE && tx.containsZerocoins)
    (.dos 10 REJECT_INVALID "bad-tx" false)
  checkTransaction env.node tx (env.node.params.networkUpgradeActive env.node.height .UPGRADE_ZC)
    (env.node.isSporkActive .SPORK_17_COLDSTAKING_ENFORCEMENT)
  failIf tx.isCoinBase (.dos 100 REJECT_INVALID "coinbase" false)
  failIf tx.isCoinStake (.dos 100 REJECT_INVALID "coinstake" false)
  failIf (!env.checkFinalTx tx) (.dos 0 REJECT_NONSTANDARD "non-final" false)
  env.acceptStandard tx
  failIf (m.has tx.hash) (.dos 0 REJECT_ALREADY_KNOWN "txn-already-in-mempool" false)
  failIf (tx.vin.any fun i => (env.node.mapLockedInputs i.prevout).any (· != tx.hash))
    (.dos 0 REJECT_INVALID "tx-lock-conflict" false)
  failIf (!tx.hasZerocoinSpendInputs && tx.vin.any fun i => decide (i.prevout ∈ m.mapNextTx))
    (.dos 0 REJECT_CONFLICT "txn-mempool-conflict" false)

/-- An output that is already there. -/
def acceptNew (view : CCoinsViewCache) (out : ℕ) : Check CCoinsViewCache := do
  let (had, view) := view.haveCoin ⟨tx.hash, out⟩
  failIf had (.dos 0 REJECT_ALREADY_KNOWN "txn-already-known" false)
  return view

/-- An input of an ordinary transaction. -/
def acceptInput (view : CCoinsViewCache) (txin : CTxIn) : Check CCoinsViewCache := do
  let (had, view) := view.haveCoin txin.prevout
  failIf (!had) .fail
  failIf (!env.node.validOutPoint txin.prevout env.node.height)
    (.dos 0 REJECT_INVALID "bad-txns-invalid-inputs" false)
  return view

/-- The coins of an ordinary transaction: the value that goes in, and the view. -/
def acceptCoins : Check (ℤ × CCoinsViewCache) := do
  let view ← loop (acceptNew tx) (.ofView (m.coinsView env.coinsTip)) (List.range tx.vout.length)
  let view ← loop env.acceptInput view tx.vin
  failIf (!env.node.params.isRegTestNet && tx.hasZerocoinMintOutputs)
    (.dos 0 REJECT_INVALID "bad-zc-spend-mint" false)
  return view.getValueIn tx

/-- The value that goes in, and the view, which is empty for zerocoin spends. -/
def acceptValueIn : Check (ℤ × CCoinsViewCache) :=
  if tx.hasZerocoinSpendInputs then do
    let nValueIn ← env.acceptToMemoryPoolZerocoin tx
    return (nValueIn, .ofView ⟨fun _ => none, 0⟩)
  else env.acceptCoins m tx

/-- Whether an input spends a coinbase or a coinstake. -/
def spendsCoinbaseOrCoinstake (view : CCoinsViewCache) : Bool :=
  tx.vin.any fun txin =>
    let coin := (view.accessCoin txin.prevout).1
    coin.fCoinBase || coin.fCoinStake

/-- The checks that look at the coins: the new entry and its ancestors. -/
def acceptSecond : Check (CTxMemPoolEntry × SetEntries) := do
  let (nValueIn, view) ← env.acceptValueIn m tx
  failIf (!env.node.params.isRegTestNet && !env.areInputsStandard tx view)
    (.dos 0 REJECT_NONSTANDARD "bad-txns-nonstandard-inputs" false)
  let (nP2SH, view) := getP2SHSigOpCount view tx
  failIf (!tx.hasZerocoinSpendInputs &&
      decide (MAX_TX_SIGOPS_CURRENT < getLegacySigOpCount tx + nP2SH))
    (.dos 0 REJECT_NONSTANDARD "bad-txns-too-many-sigops" false)
  let nValueOut ← getValueOut tx
  let nFees := int64 (nValueIn - nValueOut)
  let entry := CTxMemPoolEntry.new env.mu tx nFees env.getTime
    (!tx.hasZerocoinSpendInputs && spendsCoinbaseOrCoinstake tx view)
  env.feePolicy tx nFees entry.nTxSize
  failIf (!env.node.params.isRegTestNet && nFees == 0 && !tx.hasZerocoinSpendInputs) .fail
  match m.calculateMemPoolAncestors entry env.limits true with
  | .error _ => .error (.dos 0 REJECT_NONSTANDARD "too-long-mempool-chain" false)
  | .ok setAncestors =>
    let fCLTVIsActivated :=
      env.node.params.networkUpgradeActive env.node.height .UPGRADE_BIP65
    env.checkStandardInputs tx view fCLTVIsActivated
    let _ ← checkInputs { env.node with nScriptCheckThreads := 0 } tx view true
      ⟨false, fCLTVIsActivated⟩
    return (entry, setAncestors)

def acceptChecks : Check (CTxMemPoolEntry × SetEntries) := do
  env.acceptFirst m tx
  env.acceptSecond m tx

/-! ### The changes -/

def limitMempoolSize : CTxMemPool :=
  (m.expire env.mu (env.getTime - env.mempoolexpiry)).trimToSize env.mu env.worst env.maxmempool

/-- `AcceptToMemoryPoolWorker` after the checks. -/
def acceptEntry (fOverrideMempoolLimit : Bool) (entry : CTxMemPoolEntry)
    (setAncestors : SetEntries) : Check Unit × CTxMemPool :=
  let full : Check Unit := .error (.dos 0 REJECT_INSUFFICIENTFEE "mempool full" false)
  let m := m.addUncheckedWith env.mu entry setAncestors
  let m := if fOverrideMempoolLimit then m else env.limitMempoolSize m
  if !m.has entry.tx.hash then (full, m)
  else
    let m := m.trimToSize env.mu env.worst env.maxmempool
    (if m.has entry.tx.hash then .ok () else full, m)

/-- `AcceptToMemoryPool`: the outcome, and the pool. -/
def acceptToMemoryPool (fOverrideMempoolLimit : Bool) : Check Unit × CTxMemPool :=
  match env.acceptChecks m tx with
  | .error f => (.error f, m)
  | .ok (entry, setAncestors) => env.acceptEntry m fOverrideMempoolLimit entry setAncestors

/-! ### Blocks -/

/-- What `DisconnectTip` does with a transaction of the block; the second part of the state is
`vHashUpdate`. -/
def resurrect (s : CTxMemPool × List Uint256) (p : AcceptEnv × CTransaction) :
    CTxMemPool × List Uint256 :=
  let (env, tx) := p
  if tx.isCoinBase || tx.isCoinStake then (s.1.remove env.mu tx true, s.2)
  else match env.acceptToMemoryPool s.1 tx true with
    | (.error _, m) => (m.remove env.mu tx true, s.2)
    | (.ok _, m) => (m, if m.has tx.hash then s.2 ++ [tx.hash] else s.2)

/-- What `DisconnectTip` does with the pool. The transactions of the block come with what their
acceptance reads. -/
def disconnectTip (mu : MemUsage) (m : CTxMemPool) (vtx : List (AcceptEnv × CTransaction)) :
    CTxMemPool :=
  let s := vtx.foldl resurrect (m, [])
  s.1.updateTransactionsFromBlock mu s.2

/-- What `ActivateBestChainStep` does with the pool after blocks were disconnected. -/
def afterReorg (reorg : CTxMemPool.ReorgEnv) : CTxMemPool :=
  env.limitMempoolSize (m.removeForReorg env.mu reorg)

end AcceptEnv

end Agenor
