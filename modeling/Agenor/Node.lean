import Agenor.Params
import Agenor.Zerocoin
import Agenor.Coins

/-!
What the validation functions read from the rest of the node, and what they write besides the
coins view they are given.

`Node` holds the globals that do not change during a call: the chain, the sporks, the budget and
masternode data, and the outcomes of disk writes. `Global` holds those that block connection and
disconnection change.
-/

namespace Agenor

structure CBlockIndex where
  hash : Uint256
  nHeight : ℤ
  nTime : ℕ
  pprev : Option CBlockIndex

inductive SporkId
  | SPORK_3_SWIFTTX_BLOCK_FILTERING
  | SPORK_13_ENABLE_SUPERBLOCKS
  | SPORK_16_ZEROCOIN_MAINTENANCE_MODE
  | SPORK_17_COLDSTAKING_ENFORCEMENT
  | SPORK_18_ZEROCOIN_PUBLICSPEND_V4
  deriving DecidableEq, Repr

/-- `sporkDefs`: a spork is off by default when its value is far in the future. -/
def SporkId.defaultValue : SporkId → ℤ
  | SPORK_3_SWIFTTX_BLOCK_FILTERING => 0
  | _ => 4070908800

/-- The script flags `ConnectBlock` chooses from; pay-to-script-hash is always on. -/
structure ScriptFlags where
  dersig : Bool
  checkLockTimeVerify : Bool
  deriving DecidableEq, Repr

/-- The undo data of a block, one record for each transaction after the first. -/
structure CBlockUndo where
  vtxundo : List CTxUndo
  deriving DecidableEq, Repr

/-- The zerocoin database: from hashes of serials and of public coins to transactions. -/
structure CZerocoinDB where
  spends : Uint256 → Option Uint256
  mints : Uint256 → Option Uint256

namespace CZerocoinDB

variable (db : CZerocoinDB) (lib : Libzerocoin)

/-- `WriteCoinSpendBatch`. -/
def writeSpends (l : List (CoinSpend × Uint256)) : CZerocoinDB :=
  { db with
    spends := l.foldl (fun m p =>
      Function.update m (lib.serialHash p.1.coinSerialNumber) (some p.2)) db.spends }

/-- `WriteCoinMintBatch`. -/
def writeMints (l : List (PublicCoin × Uint256)) : CZerocoinDB :=
  { db with
    mints := l.foldl (fun m p =>
      Function.update m (lib.pubCoinHash p.1.value) (some p.2)) db.mints }

def readCoinSpend (bnSerial : ℤ) : Option Uint256 := db.spends (lib.serialHash bnSerial)

def eraseCoinSpend (bnSerial : ℤ) : CZerocoinDB :=
  { db with spends := Function.update db.spends (lib.serialHash bnSerial) none }

def eraseCoinMint (bnPubcoin : ℤ) : CZerocoinDB :=
  { db with mints := Function.update db.mints (lib.pubCoinHash bnPubcoin) none }

end CZerocoinDB

/-- The globals that connecting and disconnecting blocks change. -/
structure Global where
  zerocoinDB : CZerocoinDB
  /-- `mapZerocoinSupply`; a missing key makes `at` throw. -/
  mapZerocoinSupply : CoinDenomination → Option ℤ
  nMoneySupply : ℤ
  /-- The undo data on disk, by block. -/
  undo : Uint256 → Option CBlockUndo

/-- The globals of a node that has seen no zerocoin: every counter is there and zero. -/
def Global.initial : Global where
  zerocoinDB := ⟨fun _ => none, fun _ => none⟩
  mapZerocoinSupply := fun d => if d = .ZQ_ERROR then none else some 0
  nMoneySupply := 0
  undo := fun _ => none

structure Node where
  params : ChainParams
  lib : Libzerocoin
  /-- The active chain, from the genesis block up. -/
  chainActive : List CBlockIndex
  mapBlockIndex : Uint256 → Option CBlockIndex
  /-- `GetTransaction`: a transaction by its hash, with the block it was found in (null for the
  memory pool). -/
  getTransaction : Uint256 → Option (CTransaction × Uint256)
  isInitialBlockDownload : Bool
  fVerifyingBlocks : Bool
  /-- `GetAdjustedTime()`. -/
  adjustedTime : ℤ
  getSporkValue : SporkId → ℤ
  /-- `masternodeSync.IsSynced()`. -/
  isSynced : Bool
  /-- `budget.IsBudgetPaymentBlock`. -/
  isBudgetPaymentBlock : ℤ → Bool
  isBlockPayeeValid : CBlock → ℤ → Bool
  mapLockedInputs : COutPoint → Option Uint256
  checkProofOfWork : Uint256 → ℕ → Bool
  /-- `BlockMerkleRoot`: the root, and whether a duplicated subtree was seen. -/
  blockMerkleRoot : List CTransaction → Uint256 × Bool
  /-- The script check of one input: the script and value spent, the transaction, the index of the
  input and the flags. `none` when it passes, else the name of the error. -/
  scriptCheck : CScript → ℤ → CTransaction → ℕ → ScriptFlags → Option String
  nScriptCheckThreads : ℕ
  /-- `invalid_out::ContainsOutPoint` and `invalid_out::ContainsSerial`. -/
  containsOutPoint : COutPoint → Bool
  containsSerial : ℤ → Bool
  fTxIndex : Bool
  /-- Whether the reads and writes of files and databases succeed: `FindUndoPos`, the undo data,
  the two batches of the zerocoin database and the transaction index. -/
  findUndoPos : Bool
  undoWriteToDisk : Bool
  undoReadFromDisk : Bool
  writeCoinSpendBatch : Bool
  writeCoinMintBatch : Bool
  writeTxIndex : Bool
  /-- `GetInvalidUTXOValue()`. -/
  getInvalidUTXOValue : ℤ
  /-- `RecalculateAgenorupply` from the activation of zerocoin on. -/
  recalculateAgenorupply : Global → Global

namespace Node

variable (node : Node)

def isSporkActive (id : SporkId) : Bool := decide (node.getSporkValue id < node.adjustedTime)

/-- `chainActive.Tip()`. -/
def tip : Option CBlockIndex := node.chainActive.getLast?

/-- `chainActive.Height()`. -/
def height : ℤ := node.chainActive.length - 1

/-- `chainActive.Contains`. -/
def contains (pindex : CBlockIndex) : Bool :=
  0 ≤ pindex.nHeight && (node.chainActive[pindex.nHeight.toNat]?).any (·.hash == pindex.hash)

/-- `IsTransactionInChain`: the height at which the transaction is. -/
def isTransactionInChain (txid : Uint256) : Option ℤ := do
  let (_, hashBlock) ← node.getTransaction txid
  if hashBlock = 0 then failure
  let pindex ← node.mapBlockIndex hashBlock
  if node.contains pindex then return pindex.nHeight else failure

/-- `GetOutput`. An index equal to the number of outputs is let through. -/
def getOutput (hash : Uint256) (index : ℕ) : Check CTxOut :=
  match node.getTransaction hash with
  | none => .error (.dos 100 0 "" false)
  | some (txPrev, _) =>
    if txPrev.vout.length < index then .error (.dos 100 0 "" false)
    else match txPrev.vout[index]? with
      | some out => .ok out
      | none => .error (.outOfRange .outputIndex)

def validOutPoint (out : COutPoint) (nHeight : ℤ) : Bool :=
  !(decide (node.params.height_start_InvalidUTXOsCheck ≤ nHeight) && node.containsOutPoint out)

/-- A synchronised node for concrete runs: sporks at their defaults, nothing locked or
blacklisted, no other transactions, every hash good enough, every script fine and every write
successful. -/
def idle (params : ChainParams) (lib : Libzerocoin) (chainActive : List CBlockIndex) : Node where
  params := params
  lib := lib
  chainActive := chainActive
  mapBlockIndex := fun h => chainActive.find? (·.hash == h)
  getTransaction := fun _ => none
  isInitialBlockDownload := false
  fVerifyingBlocks := false
  adjustedTime := 1600000000
  getSporkValue := SporkId.defaultValue
  isSynced := true
  isBudgetPaymentBlock := fun _ => false
  isBlockPayeeValid := fun _ _ => true
  mapLockedInputs := fun _ => none
  checkProofOfWork := fun _ _ => true
  blockMerkleRoot := fun _ => (0, false)
  scriptCheck := fun _ _ _ _ _ => none
  nScriptCheckThreads := 0
  containsOutPoint := fun _ => false
  containsSerial := fun _ => false
  fTxIndex := true
  findUndoPos := true
  undoWriteToDisk := true
  undoReadFromDisk := true
  writeCoinSpendBatch := true
  writeCoinMintBatch := true
  writeTxIndex := true
  getInvalidUTXOValue := 0
  recalculateAgenorupply := id

end Node

def isSerialInBlockchain (node : Node) (g : Global) (bnSerial : ℤ) : Bool :=
  match g.zerocoinDB.readCoinSpend node.lib bnSerial with
  | none => false
  | some txHash => (node.isTransactionInChain txHash).isSome

end Agenor
