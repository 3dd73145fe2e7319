import Agenor.ConnectBlock

/-!
`DisconnectBlock` (`main.cpp`), with `ApplyTxInUndo`, `DisconnectZerocoinTx`
(`legacy/validation_zerocoin_legacy.cpp`) and `UpdateZAgenorupplyDisconnect` (`zagechain.cpp`).

`DISCONNECT_OK` and `DISCONNECT_UNCLEAN` are the results `true` and `false`, `DISCONNECT_FAILED` is
the fault `fail`. A failure carries the globals as they are then.
-/

namespace Agenor

open Lib.Wrap Lib.Fallible

/-! ### Restoring an input -/

/-- `MAX_OUTPUTS_PER_BLOCK`: as many empty outputs as fit. -/
def MAX_OUTPUTS_PER_BLOCK : ℕ := MAX_BLOCK_SIZE_CURRENT / 9

/-- The loop of `AccessByTxid` from output `n` on, with `k` outputs left to look at. -/
def accessByTxidFrom (v : CCoinsViewCache) (txid : Uint256) (n : ℕ) : ℕ → Coin × CCoinsViewCache
  | 0 => (Coin.empty, v)
  | k + 1 =>
    let r := v.accessCoin ⟨txid, n⟩
    if !r.1.isSpent then r else accessByTxidFrom r.2 txid (n + 1) k

def accessByTxid (v : CCoinsViewCache) (txid : Uint256) : Coin × CCoinsViewCache :=
  accessByTxidFrom v txid 0 MAX_OUTPUTS_PER_BLOCK

/-- The coin to restore: old records without a height take it from another output. -/
def completeUndo (undo : Coin) (v : CCoinsViewCache) (out : COutPoint) :
    Check (Coin × CCoinsViewCache) :=
  if undo.nHeight = 0 then
    let r := accessByTxid v out.hash
    if !r.1.isSpent then .ok (⟨undo.out, r.1.nHeight, r.1.fCoinBase, r.1.fCoinStake⟩, r.2)
    else .error .fail
  else .ok (undo, v)

/-- `ApplyTxInUndo`: whether nothing was overwritten, and the view. -/
def applyTxInUndo (undo : Coin) (v : CCoinsViewCache) (out : COutPoint) :
    Check (Bool × CCoinsViewCache) := do
  let (have', v) := v.haveCoin out
  let (undo, v) ← completeUndo undo v out
  let v ← v.addCoin out undo false
  return (!have', v)

/-! ### Zerocoin -/

/-- The serial of a spend and the value that it gives back to `nValueIn`. -/
def disconnectedSpend (node : Node) (tx : CTransaction) (txin : CTxIn) : Check CoinSpend :=
  if txin.isZerocoinPublicSpend then
    -- a spend that cannot be parsed is reported to a state of its own
    match parseZerocoinPublicSpend node txin tx with
    | .error (.dos ..) => .error .fail
    | r => r
  else txInToZerocoinSpend node.lib txin

/-- One input in `DisconnectZerocoinTx`; the state is `nValueIn` and the database. Other than
when connecting, the outpoint of a private spend is not looked at. -/
def disconnectSpend (node : Node) (tx : CTransaction) (s : ℤ × CZerocoinDB) (txin : CTxIn) :
    Except (Fault × CZerocoinDB) (ℤ × CZerocoinDB) :=
  if Script.isZerocoinSpend txin.scriptSig || txin.isZerocoinPublicSpend then
    match disconnectedSpend node tx txin with
    | .error f => .error (f, s.2)
    | .ok spend => .ok (int64 (s.1 + spend.denomination.toInt * COIN),
        s.2.eraseCoinSpend node.lib spend.coinSerialNumber)
  else .ok s

/-- One output in `DisconnectZerocoinTx`. -/
def disconnectMint (node : Node) (db : CZerocoinDB) (txout : CTxOut) :
    Except (Fault × CZerocoinDB) CZerocoinDB :=
  if !txout.isZerocoinMint then .ok db
  else match txOutToPublicCoin txout with
    | .error (.dos ..) => .error (.fail, db)
    | .error f => .error (f, db)
    | .ok pubCoin => .ok (db.eraseCoinMint node.lib pubCoin.value)

def disconnectSpends (node : Node) (tx : CTransaction) (s : ℤ × CZerocoinDB) :
    Except (Fault × CZerocoinDB) (ℤ × CZerocoinDB) :=
  if tx.hasZerocoinSpendInputs then loop (disconnectSpend node tx) s tx.vin else .ok s

def disconnectMints (node : Node) (tx : CTransaction) (db : CZerocoinDB) :
    Except (Fault × CZerocoinDB) CZerocoinDB :=
  if tx.hasZerocoinMintOutputs then loop (disconnectMint node) db tx.vout else .ok db

def disconnectZerocoinTx (node : Node) (tx : CTransaction) (nValueIn : ℤ) (db : CZerocoinDB) :
    Except (Fault × CZerocoinDB) (ℤ × CZerocoinDB) := do
  let (nValueIn, db) ← disconnectSpends node tx (nValueIn, db)
  let db ← disconnectMints node tx db
  return (nValueIn, db)

/-- The minted denominations leave the supply, as long as there are checkpoints. -/
def disconnectMintSupply (node : Node) (block : CBlock) (nHeight : ℤ) (m : ZerocoinSupply) :
    Except (Fault × ZerocoinSupply) ZerocoinSupply :=
  if nHeight < node.params.height_last_ZC_AccumCheckpoint then do
    let listMints ← withSupply m (mintDenoms node block.vtx)
    loop takeSupply m listMints
  else .ok m

def updateZAgenorupplyDisconnect (node : Node) (block : CBlock) (nHeight : ℤ)
    (m : ZerocoinSupply) : Except (Fault × ZerocoinSupply) ZerocoinSupply :=
  if !node.params.networkUpgradeActive nHeight .UPGRADE_ZC then .ok m
  else do
    let m ← correctSupply (-1) node.params nHeight m
    let listDenomsSpent ← withSupply m (spendDenoms node block.vtx)
    let m ← loop (addSupply 1) m listDenomsSpent
    disconnectMintSupply node block nHeight m

/-! ### The loop over the transactions -/

/-- What the loop of `DisconnectBlock` carries. -/
structure DisconnectLoop where
  fClean : Bool
  nValueIn : ℤ
  nValueOut : ℤ
  db : CZerocoinDB
  view : CCoinsViewCache

/-- One output: the coin is taken from the view and compared. -/
def removeOutput (txHash : Uint256) (s : Bool × CCoinsViewCache) (p : CTxOut × ℕ) :
    Bool × CCoinsViewCache :=
  if Script.isUnspendable p.1.scriptPubKey then s
  else
    let r := s.2.spendCoin ⟨txHash, p.2⟩
    (s.1 && p.1 == (r.1.getD Coin.empty).out, r.2)

/-- One input: the coin of the undo record is put back. -/
def restoreInput (s : Bool × CCoinsViewCache) (p : CTxIn × Coin) :
    Check (Bool × CCoinsViewCache) := do
  let (clean, v) ← applyTxInUndo p.2 s.2 p.1.prevout
  return (s.1 && clean, v)

/-- The undo record of a transaction, by its place in the block. -/
def txUndo (blockUndo : CBlockUndo) : ℕ → Check CTxUndo
  | 0 => .error (.outOfRange .undoIndex)
  | k + 1 =>
    match blockUndo.vtxundo[k]? with
    | some txundo => .ok txundo
    | none => .error (.outOfRange .undoIndex)

/-- The inputs of an ordinary transaction, from the last to the first, and their value. -/
def restoreInputs (blockUndo : CBlockUndo) (s : DisconnectLoop) (tx : CTransaction) (i : ℕ) :
    Check DisconnectLoop := do
  let txundo ← txUndo blockUndo i
  failIf (txundo.vprevout.length != tx.vin.length) .fail
  let (fClean, view) ← loop restoreInput (s.fClean, s.view) (tx.vin.zip txundo.vprevout).reverse
  let (have', view) := view.haveInputs tx
  if have' then
    let (valueIn, view) := view.getValueIn tx
    return { s with fClean, nValueIn := int64 (s.nValueIn + valueIn), view }
  else return { s with fClean, view }

def disconnectTx (node : Node) (blockUndo : CBlockUndo) (s : DisconnectLoop)
    (p : CTransaction × ℕ) : Except (Fault × CZerocoinDB) DisconnectLoop := do
  let (tx, i) := p
  let (nValueIn, db) ← disconnectZerocoinTx node tx s.nValueIn s.db
  match getValueOut tx with
  | .error f => .error (f, db)
  | .ok valueOut =>
    let (fClean, view) := tx.vout.zipIdx.foldl (removeOutput tx.hash) (s.fClean, s.view)
    let s : DisconnectLoop := ⟨fClean, nValueIn, int64 (s.nValueOut + valueOut), db, view⟩
    if tx.isCoinBase || tx.hasZerocoinSpendInputs then return s
    else match restoreInputs blockUndo s tx i with
      | .error f => .error (f, db)
      | .ok s => .ok s

/-! ### `DisconnectBlock` -/

/-- The undo data of the block, if they can be read and fit the block. -/
def readUndo (node : Node) (g : Global) (block : CBlock) (pindex : CBlockIndex) :
    Check CBlockUndo :=
  match g.undo pindex.hash with
  | none => .error .fail
  | some blockUndo => do
    failIf (!node.undoReadFromDisk) .fail
    failIf (blockUndo.vtxundo.length + 1 != block.vtx.length) .fail
    return blockUndo

/-- `DisconnectBlock`: whether the block was undone cleanly, the view and the globals. -/
def disconnectBlock (node : Node) (g : Global) (block : CBlock) (pindex : CBlockIndex)
    (view : CCoinsViewCache) : Except (Fault × Global) (Bool × CCoinsViewCache × Global) := do
  failIf (pindex.hash != view.getBestBlock) (.assertion, g)
  let blockUndo ← withGlobal g (readUndo node g block pindex)
  match updateZAgenorupplyDisconnect node block pindex.nHeight g.mapZerocoinSupply with
  | .error (f, m) => .error (f, { g with mapZerocoinSupply := m })
  | .ok m =>
    let g := { g with mapZerocoinSupply := m }
    match loop (disconnectTx node blockUndo) ⟨true, 0, 0, g.zerocoinDB, view⟩
        block.vtx.zipIdx.reverse with
    | .error (f, db) => .error (f, { g with zerocoinDB := db })
    | .ok s =>
      let g := { g with
        zerocoinDB := s.db
        nMoneySupply := int64 (g.nMoneySupply - (s.nValueOut - s.nValueIn)) }
      match pindex.pprev with
      | none => .error (.assertion, g)
      | some pprev => return (s.fClean, s.view.setBestBlock pprev.hash, g)

end Agenor
