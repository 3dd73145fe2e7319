import Agenor.Script
import Agenor.Lib.Wrap
import Mathlib.Algebra.Order.BigOperators.Group.List

/-!
Transactions and blocks (`primitives/transaction.{h,cpp}`, `primitives/block.h`), with the
sizes of their network serialization.
-/

namespace Agenor

open Lib.Wrap

abbrev Uint256 := BitVec 256

/-- Amounts, of type `CAmount` in the source, are integers here; this is the value that a
`CAmount` variable holds after `x` has been assigned to it. -/
def int64 (x : ℤ) : ℤ := wrap 64 x

/-- The value that an `int` variable holds after `x` has been assigned to it. -/
def int32 (x : ℤ) : ℤ := wrap 32 x

lemma int32_of_fits {x : ℤ} (h1 : -2 ^ 31 ≤ x) (h2 : x < 2 ^ 31) : int32 x = x :=
  wrap_of_mem h1 h2

@[simp] lemma int32_add_int32 (x y : ℤ) : int32 (x + int32 y) = int32 (x + y) :=
  wrap_add_wrap x y

@[simp] lemma int32_int32_mul (x y : ℤ) : int32 (int32 x * y) = int32 (x * y) :=
  wrap_wrap_mul x y

@[simp] lemma int64_int64_add (x y : ℤ) : int64 (int64 x + y) = int64 (x + y) :=
  wrap_wrap_add x y

@[simp] lemma int64_add_int64 (x y : ℤ) : int64 (x + int64 y) = int64 (x + y) :=
  wrap_add_wrap x y

@[simp] lemma int64_int64_sub (x y : ℤ) : int64 (int64 x - y) = int64 (x - y) :=
  wrap_wrap_sub x y

@[simp] lemma int64_sub_int64 (x y : ℤ) : int64 (x - int64 y) = int64 (x - y) :=
  wrap_sub_wrap x y

@[simp] lemma int64_int64 (x : ℤ) : int64 (int64 x) = int64 x := wrap_wrap x

@[simp] lemma int64_zero : int64 0 = 0 := wrap_zero

lemma int64_add_congr {x x' y y' : ℤ} (hx : int64 x = int64 x') (hy : int64 y = int64 y') :
    int64 (x + y) = int64 (x' + y') := by
  rw [← int64_int64_add, hx, int64_int64_add, ← int64_add_int64, hy, int64_add_int64]

lemma int64_sub_congr {x x' y y' : ℤ} (hx : int64 x = int64 x') (hy : int64 y = int64 y') :
    int64 (x - y) = int64 (x' - y') := by
  rw [← int64_int64_sub, hx, int64_int64_sub, ← int64_sub_int64, hy, int64_sub_int64]

lemma int64_sub_eq_self {x y : ℤ} (hx : int64 x = x) : int64 (x - y) = x ↔ int64 y = 0 := by
  constructor
  · intro h
    have h' : int64 (x - (x - y)) = int64 (x - x) := int64_sub_congr rfl (h.trans hx.symm)
    simpa using h'
  · intro h
    have h' : int64 (x - y) = int64 (x - 0) := int64_sub_congr rfl (h.trans int64_zero.symm)
    rw [h', sub_zero, hx]

lemma int64_of_fits {x : ℤ} (h1 : -2 ^ 63 ≤ x) (h2 : x < 2 ^ 63) : int64 x = x :=
  wrap_of_fits h1 h2

lemma int64_mem (x : ℤ) : -2 ^ 63 ≤ int64 x ∧ int64 x < 2 ^ 63 := wrap_mem x

lemma int64_eq_sub (x : ℤ) : int64 x = x - 2 ^ 64 * wraps x := wrap_eq_sub x

/-- A number of `k` bytes in little-endian order. -/
def bytesLE (k n : ℕ) : List UInt8 := (List.range k).map fun i => UInt8.ofNat (n / 256 ^ i % 256)

def COIN : ℤ := 100000000

structure COutPoint where
  hash : Uint256
  n : ℕ
  deriving DecidableEq, Repr

namespace COutPoint

/-- The index of a null outpoint, `(uint32_t) -1`. -/
def NULL_INDEX : ℕ := 4294967295

def null : COutPoint := ⟨0, NULL_INDEX⟩

def isNull (o : COutPoint) : Bool := o.hash == 0 && o.n == NULL_INDEX

end COutPoint

structure CTxIn where
  prevout : COutPoint
  scriptSig : CScript
  nSequence : ℕ
  deriving DecidableEq, Repr

namespace CTxIn

def isZerocoinSpend (txin : CTxIn) : Bool :=
  txin.prevout.hash == 0 && Script.isZerocoinSpend txin.scriptSig

def isZerocoinPublicSpend (txin : CTxIn) : Bool := Script.isZerocoinPublicSpend txin.scriptSig

/-- A zerocoin spend of either kind. -/
def isAnyZerocoinSpend (txin : CTxIn) : Bool :=
  txin.isZerocoinSpend || txin.isZerocoinPublicSpend

end CTxIn

structure CTxOut where
  nValue : ℤ
  scriptPubKey : CScript
  deriving DecidableEq, Repr

namespace CTxOut

/-- `SetNull`. -/
def null : CTxOut := ⟨-1, []⟩

def isNull (o : CTxOut) : Bool := o.nValue == -1
def isEmpty (o : CTxOut) : Bool := o.nValue == 0 && o.scriptPubKey.isEmpty
def isZerocoinMint (o : CTxOut) : Bool := Script.isZerocoinMint o.scriptPubKey

end CTxOut

/-- `hash` is the cached serialization hash. -/
structure CTransaction where
  hash : Uint256
  vin : List CTxIn
  vout : List CTxOut
  deriving DecidableEq, Repr

namespace CTransaction

def hasZerocoinSpendInputs (tx : CTransaction) : Bool := tx.vin.any (·.isAnyZerocoinSpend)
def hasZerocoinMintOutputs (tx : CTransaction) : Bool := tx.vout.any (·.isZerocoinMint)
def hasZerocoinPublicSpendInputs (tx : CTransaction) : Bool :=
  tx.vin.any (·.isZerocoinPublicSpend)

def containsZerocoins (tx : CTransaction) : Bool :=
  tx.hasZerocoinSpendInputs || tx.hasZerocoinMintOutputs

def isCoinBase (tx : CTransaction) : Bool :=
  match tx.vin with
  | [txin] => txin.prevout.isNull && !tx.containsZerocoins
  | _ => false

def isCoinStake (tx : CTransaction) : Bool :=
  match tx.vin with
  | [] => false
  | txin :: _ =>
    if txin.prevout.isNull && !txin.isZerocoinSpend then false
    else match tx.vout with
      | out :: _ :: _ => out.isEmpty
      | _ => false

def hasP2CSOutputs (tx : CTransaction) : Bool :=
  tx.vout.any (Script.isPayToColdStaking ·.scriptPubKey)

/-- The loop of `GetValueOut`; `none` when it throws. -/
def valueOutFrom : ℤ → List CTxOut → Option ℤ
  | nValueOut, [] => some nValueOut
  | nValueOut, out :: rest =>
    if out.nValue < 0 then none
    else if int64 (nValueOut + out.nValue) < nValueOut then none
    else valueOutFrom (int64 (nValueOut + out.nValue)) rest

/-- `GetValueOut`; `none` when it throws. -/
def getValueOut (tx : CTransaction) : Option ℤ := valueOutFrom 0 tx.vout

/-- The sum of the outputs, without the limits of a machine integer. -/
def valueOut (tx : CTransaction) : ℤ := (tx.vout.map (·.nValue)).sum

/-- `GetZerocoinSpent`: what the sequence numbers of the private spends say. -/
def getZerocoinSpent (tx : CTransaction) : ℤ :=
  tx.vin.foldl (fun nValueOut txin =>
    if txin.isZerocoinSpend then int64 (nValueOut + txin.nSequence * COIN) else nValueOut) 0

def checkColdStake (tx : CTransaction) (script : CScript) : Bool :=
  if !tx.isCoinStake then false
  else
    let firstScript := (tx.vin.map (·.scriptSig)).headD []
    if tx.vin.length > 1 && tx.vin.tail.any (·.scriptSig != firstScript) then false
    else if (tx.vout[1]?.map (·.scriptPubKey)) != some script then false
    -- the loop over the outputs is guarded by the number of inputs
    else if tx.vin.length > 3 &&
        ((tx.vout.drop 2).take (tx.vout.length - 3)).any (·.scriptPubKey != script) then false
    else true

lemma valueOutFrom_eq {outs : List CTxOut} {acc : ℤ} (h0 : 0 ≤ acc)
    (hpos : ∀ o ∈ outs, 0 ≤ o.nValue) (hfit : acc + (outs.map (·.nValue)).sum < 2 ^ 63) :
    valueOutFrom acc outs = some (acc + (outs.map (·.nValue)).sum) := by
  induction outs generalizing acc with
  | nil => simp [valueOutFrom]
  | cons o outs ih =>
    have ho := hpos o (by simp)
    have hrest : ∀ p ∈ outs, 0 ≤ p.nValue := fun p hp => hpos p (List.mem_cons_of_mem _ hp)
    have hsum : 0 ≤ (outs.map (·.nValue)).sum := by
      apply List.sum_nonneg
      simpa using hrest
    simp only [List.map_cons, List.sum_cons] at hfit ⊢
    have hw : int64 (acc + o.nValue) = acc + o.nValue := int64_of_fits (by omega) (by omega)
    rw [valueOutFrom, hw, if_neg (by omega), if_neg (by omega), ih (by omega) hrest (by omega)]
    congr 1
    omega

end CTransaction

/-- The fields of the header that validation reads; `hash` is the hash of the header. -/
structure CBlock where
  hash : Uint256
  hashPrevBlock : Uint256
  hashMerkleRoot : Uint256
  nTime : ℕ
  nBits : ℕ
  vtx : List CTransaction
  vchBlockSig : List UInt8
  fChecked : Bool
  deriving DecidableEq, Repr

namespace CBlock

def isProofOfStake (block : CBlock) : Bool :=
  match block.vtx with
  | _ :: tx :: _ => tx.isCoinStake
  | _ => false

def isProofOfWork (block : CBlock) : Bool := !block.isProofOfStake

end CBlock

/-! ### Serialized sizes -/

def sizeOfCompactSize (n : ℕ) : ℕ :=
  if n < 253 then 1 else if n ≤ 65535 then 3 else if n ≤ 4294967295 then 5 else 9

def sizeOfBytes (s : List UInt8) : ℕ := sizeOfCompactSize s.length + s.length

namespace CTransaction

/-- `GetSerializeSize` of a transaction: version, inputs, outputs and lock time. -/
def serializeSize (tx : CTransaction) : ℕ :=
  4 + sizeOfCompactSize tx.vin.length
    + (tx.vin.map fun txin => 36 + sizeOfBytes txin.scriptSig + 4).sum
    + sizeOfCompactSize tx.vout.length
    + (tx.vout.map fun out => 8 + sizeOfBytes out.scriptPubKey).sum + 4

end CTransaction

namespace CBlock

/-- `GetSerializeSize` of a block: the signature is there only when the block is staked. -/
def serializeSize (block : CBlock) : ℕ :=
  80 + sizeOfCompactSize block.vtx.length + (block.vtx.map (·.serializeSize)).sum
    + (if block.isProofOfStake then sizeOfBytes block.vchBlockSig else 0)

end CBlock

end Agenor
