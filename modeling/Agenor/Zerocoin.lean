import Agenor.Transaction
import Agenor.Validation

/-!
Zerocoin denominations, serial numbers and spends (`libzerocoin/`), and how mints and spends are
read out of scripts (`zagechain.cpp`, `zage/zagemodule.cpp`).

Group arithmetic, hashes and signatures are parameters, gathered in `Libzerocoin`.
-/

namespace Agenor

open Lib.Fallible

inductive CoinDenomination
  | ZQ_ERROR | ZQ_ONE | ZQ_FIVE | ZQ_TEN | ZQ_FIFTY | ZQ_ONE_HUNDRED | ZQ_FIVE_HUNDRED
  | ZQ_ONE_THOUSAND | ZQ_FIVE_THOUSAND
  deriving DecidableEq, Repr

namespace CoinDenomination

def zerocoinDenomList : List CoinDenomination :=
  [ZQ_ONE, ZQ_FIVE, ZQ_TEN, ZQ_FIFTY, ZQ_ONE_HUNDRED, ZQ_FIVE_HUNDRED, ZQ_ONE_THOUSAND,
    ZQ_FIVE_THOUSAND]

/-- `IntToZerocoinDenomination`. -/
def ofInt (amount : ℤ) : CoinDenomination :=
  match amount with
  | 1 => ZQ_ONE
  | 5 => ZQ_FIVE
  | 10 => ZQ_TEN
  | 50 => ZQ_FIFTY
  | 100 => ZQ_ONE_HUNDRED
  | 500 => ZQ_FIVE_HUNDRED
  | 1000 => ZQ_ONE_THOUSAND
  | 5000 => ZQ_FIVE_THOUSAND
  | _ => ZQ_ERROR

/-- `ZerocoinDenominationToInt`, which is also the numeric value of the enumerator. -/
def toInt : CoinDenomination → ℤ
  | ZQ_ERROR => 0
  | ZQ_ONE => 1
  | ZQ_FIVE => 5
  | ZQ_TEN => 10
  | ZQ_FIFTY => 50
  | ZQ_ONE_HUNDRED => 100
  | ZQ_FIVE_HUNDRED => 500
  | ZQ_ONE_THOUSAND => 1000
  | ZQ_FIVE_THOUSAND => 5000

/-- `AmountToZerocoinDenomination`. -/
def ofAmount (amount : ℤ) : CoinDenomination :=
  if amount - COIN * (amount.tdiv COIN) = 0 then ofInt (amount.tdiv COIN) else ZQ_ERROR

/-- `ZerocoinDenominationToAmount`. -/
def toAmount (d : CoinDenomination) : ℤ := COIN * d.toInt

/-- `GetWrapppedSerialInflation`. The table is that of the main network; others have none. -/
def wrappedSerialInflation (isMain : Bool) (d : CoinDenomination) : ℤ :=
  if isMain then
    match d with
    | ZQ_ONE => 7
    | ZQ_FIVE => 6
    | ZQ_TEN => 36
    | ZQ_FIFTY => 22
    | ZQ_ONE_HUNDRED => 244
    | ZQ_FIVE_HUNDRED => 22
    | ZQ_ONE_THOUSAND => 42
    | ZQ_FIVE_THOUSAND => 98
    | ZQ_ERROR => 0
  else 0

lemma toInt_nonneg (d : CoinDenomination) : 0 ≤ d.toInt := by
  cases d <;> decide

end CoinDenomination

/-! ### Reading a serialized spend -/

/-- A read from a `CDataStream`; it stops when the data end. -/
abbrev Reader := StateT (List UInt8) Option

namespace Reader

/-- `read`: the next `n` bytes. -/
def bytes (n : ℕ) : Reader (List UInt8) := fun s =>
  if s.length < n then none else some (s.take n, s.drop n)

def uint (n : ℕ) : Reader ℕ := do return Script.readLE (← bytes n)

/-- `MAX_SIZE`, the largest size `ReadCompactSize` accepts. -/
def MAX_SIZE : ℕ := 0x02000000

/-- `ReadCompactSize`; sizes that are not in their shortest form are refused. -/
def compactSize : Reader ℕ := do
  let chSize ← uint 1
  let nSizeRet ←
    if chSize < 253 then pure chSize
    else if chSize = 253 then
      let n ← uint 2
      if n < 253 then failure else pure n
    else if chSize = 254 then
      let n ← uint 4
      if n < 0x10000 then failure else pure n
    else
      let n ← uint 8
      if n < 0x100000000 then failure else pure n
  if MAX_SIZE < nSizeRet then failure else return nSizeRet

def vch : Reader (List UInt8) := do bytes (← compactSize)

/-- `CBigNum::setvch`: the magnitude in little-endian order, the sign in the top bit. -/
def setvch (vch : List UInt8) : ℤ :=
  match vch.getLast? with
  | none => 0
  | some top =>
    let mag : ℤ := Script.readLE (vch.dropLast ++ [top &&& 0x7f])
    if top &&& 0x80 = 0 then mag else -mag

def bigNum : Reader ℤ := do return setvch (← vch)

/-- Some values, one after the other. -/
def many {α : Type} (r : Reader α) : ℕ → Reader (List α)
  | 0 => pure []
  | n + 1 => do
    let a ← r
    let l ← many r n
    return a :: l

def bigNums : Reader (List ℤ) := do many bigNum (← compactSize)

end Reader

/-- `SpendType`, a byte. -/
abbrev SpendType := ℕ

namespace SpendType

def SPEND : SpendType := 0
def STAKE : SpendType := 1

end SpendType

/-- A `CoinSpend`, or what a `PublicCoinSpend` shares with it. The proofs of knowledge are kept
as the bytes they came in: nothing modelled looks into them. -/
structure CoinSpend where
  denomination : CoinDenomination
  coinSerialNumber : ℤ
  /-- `ptxHash`, the hash of the outputs the spend commits to. -/
  ptxHash : Uint256
  version : ℕ
  spendType : SpendType
  raw : List UInt8
  deriving DecidableEq, Repr

def bitSize (n : ℤ) : ℕ := n.natAbs.log2 + 1

/-- `ExtractVersionFromSerial`: serials of the second version are marked with `0xF`. -/
def extractVersionFromSerial (bnSerial : ℤ) : ℕ :=
  if 256 < bitSize bnSerial then 2
  else if bnSerial.natAbs / 2 ^ 252 = 0xf then 2
  else 1

def PUBKEY_VERSION : ℕ := 2

namespace Reader

/-- The fields after the proofs, which older spends do not have: the version, the public key, the
signature and the spend type. A field that does not come leaves the version at 1 and the spend
type as it was, that is, undefined. -/
def spendTail (undefinedType : SpendType) : Reader (ℕ × SpendType) := fun s =>
  let r : Reader (ℕ × SpendType) := do
    let version ← uint 1
    let _ ← vch
    let _ ← vch
    let spendType ← uint 1
    return (version, spendType)
  some ((r s).getD ((1, undefinedType), []))

/-- `CoinSpend::SerializationOp`, reading. -/
def coinSpend (undefinedType : SpendType) (raw : List UInt8) : Reader CoinSpend := do
  let denomination ← uint 4
  let ptxHash ← uint 32
  let _accChecksum ← uint 4
  let _accCommitmentToCoinValue ← bigNum
  let _serialCommitmentToCoinValue ← bigNum
  let coinSerialNumber ← bigNum
  let _accumulatorPoK ← many bigNum 21
  let _s_notprime ← bigNums
  let _sprime ← bigNums
  let _hash ← uint 32
  let _commitmentPoK ← many bigNum 4
  let (version, spendType) ← spendTail undefinedType
  return {
    denomination := .ofInt (Int.bmod denomination (2 ^ 32))
    coinSerialNumber
    ptxHash := BitVec.ofNat 256 ptxHash
    version
    spendType
    raw }

end Reader

/-! ### What is not modelled: groups, hashes and signatures -/

/-- The operations of `libzerocoin` and the hashes that are parameters of the model. -/
structure Libzerocoin where
  /-- What an uninitialised spend type reads as. -/
  undefinedType : SpendType
  /-- Reading a `PublicCoinSpend`; `none` when the stream ends too early. -/
  readPublicCoinSpend : List UInt8 → Option CoinSpend
  /-- `HasValidSignature` of a spend whose serial has a public key; `none` when the serial is
  longer than 256 bits and `InvalidSerialException` is thrown. -/
  hasValidKeySignature : CoinSpend → Option Bool
  /-- `PublicCoinSpend::Verify` against the minted commitment. -/
  verify : CoinSpend → ℤ → Bool
  /-- `coinCommitmentGroup.groupOrder`, by parameter set (`true` for the first). -/
  groupOrder : Bool → ℤ
  /-- The hash of a transaction with these outputs and nothing else. -/
  outsHash : List CTxOut → Uint256
  /-- The hash of a transaction without its inputs. -/
  noInputsHash : CTransaction → Uint256
  /-- The key of a serial in the zerocoin database. -/
  serialHash : ℤ → Uint256
  /-- `GetPubCoinHash`. -/
  pubCoinHash : ℤ → Uint256

/-- Parameters for concrete runs. Serials are their own keys, a hash of outputs is given, no public
spend can be read, and the group order is that of a group with serials of 256 bits. -/
def Libzerocoin.simple (outsHash : Uint256) : Libzerocoin where
  undefinedType := 0
  readPublicCoinSpend := fun _ => none
  hasValidKeySignature := fun _ => some false
  verify := fun _ _ => false
  groupOrder := fun _ => 2 ^ 255
  outsHash := fun _ => outsHash
  noInputsHash := fun _ => 0
  serialHash := fun n => BitVec.ofInt 256 n
  pubCoinHash := fun n => BitVec.ofInt 256 n

/-- `getCoinVersion`. -/
def CoinSpend.coinVersion (spend : CoinSpend) : ℕ := extractVersionFromSerial spend.coinSerialNumber

/-- `HasValidSignature`: serials of the first version have no key. -/
def Libzerocoin.hasValidSignature (lib : Libzerocoin) (spend : CoinSpend) : Option Bool :=
  if spend.coinVersion < PUBKEY_VERSION then some true else lib.hasValidKeySignature spend

def Libzerocoin.isValidSerial (lib : Libzerocoin) (fUseV1Params : Bool) (bnSerial : ℤ) : Bool :=
  if bnSerial ≤ 0 then false
  else if extractVersionFromSerial bnSerial < PUBKEY_VERSION then
    decide (bnSerial < lib.groupOrder fUseV1Params)
  else decide (bitSize bnSerial ≤ 256)

/-! ### Mints and spends in scripts -/

def SCRIPT_OFFSET : ℕ := 6

/-- A script from an offset on, as an iterator range to its end. -/
def sliceFrom (s : CScript) (offset : ℕ) (site : SliceSite) : Check (List UInt8) :=
  if s.length < offset then .error (.outOfRange site) else .ok (s.drop offset)

lemma sliceFrom_isOk {s : CScript} {offset : ℕ} {site : SliceSite} :
    sliceFrom s offset site = .error (.outOfRange site) ↔ s.length < offset := by
  unfold sliceFrom
  split <;> simp_all

lemma sliceFrom_avoids {s : CScript} {offset : ℕ} {site site' : SliceSite}
    (h : offset ≤ s.length) : Avoids (.outOfRange site') (sliceFrom s offset site) := by
  unfold sliceFrom
  rw [if_neg (by omega)]
  exact .ok _ _

/-- `ScriptSigToSerializedSpend`: skip the opcode and the length of the data. The offset is a
byte, so a length of 254 or 255 wraps around. -/
def scriptSigToSerializedSpend (scriptSig : CScript) : Check (List UInt8) :=
  match scriptSig[1]? with
  | none => .error (.outOfRange .spendBody)
  | some len => sliceFrom scriptSig ((len.toNat + 2) % 256) .spendBody

def txInToZerocoinSpend (lib : Libzerocoin) (txin : CTxIn) : Check CoinSpend := do
  let data ← scriptSigToSerializedSpend txin.scriptSig
  match Reader.coinSpend lib.undefinedType data data with
  | some (spend, _) => return spend
  | none => .error (.throws "CBaseDataStream::read() : end of data")

structure PublicCoin where
  value : ℤ
  denomination : CoinDenomination
  deriving DecidableEq, Repr

def txOutToPublicCoin (txout : CTxOut) : Check PublicCoin := do
  let vchZeroMint ← sliceFrom txout.scriptPubKey SCRIPT_OFFSET .scriptOffset
  let denomination := CoinDenomination.ofAmount txout.nValue
  failIf (denomination == .ZQ_ERROR) (.dos 100 0 "" false)
  return ⟨Reader.setvch vchZeroMint, denomination⟩

/-- The input script of a private spend with empty proofs, for concrete runs: a denomination, the
hash of the outputs, a serial of one byte and the spend type. -/
def spendScript (denomination ptxHash : List UInt8) (serial spendType : UInt8) : CScript :=
  [Script.OP_ZEROCOINSPEND, 0] ++ denomination ++ ptxHash ++ [0, 0, 0, 0]
    ++ [0, 0] ++ [1, serial] ++ List.replicate 21 0 ++ [0, 0] ++ List.replicate 32 0
    ++ List.replicate 4 0 ++ [2, 0, 0, spendType]

end Agenor
