import Mathlib.Data.List.Basic

/-!
Scripts as byte strings: reading one operation at a time (`script/script.h`) and the tests
that classify a script by its first bytes (`script/script.cpp`).
-/

namespace Agenor

/-- `CScript`: the serialized operations. -/
abbrev CScript := List UInt8

namespace Script

def OP_PUSHDATA1 : UInt8 := 0x4c
def OP_PUSHDATA2 : UInt8 := 0x4d
def OP_PUSHDATA4 : UInt8 := 0x4e
def OP_1 : UInt8 := 0x51
def OP_16 : UInt8 := 0x60
def OP_RETURN : UInt8 := 0x6a
def OP_DUP : UInt8 := 0x76
def OP_ROT : UInt8 := 0x7b
def OP_EQUAL : UInt8 := 0x87
def OP_EQUALVERIFY : UInt8 := 0x88
def OP_HASH160 : UInt8 := 0xa9
def OP_CHECKSIG : UInt8 := 0xac
def OP_CHECKSIGVERIFY : UInt8 := 0xad
def OP_CHECKMULTISIG : UInt8 := 0xae
def OP_CHECKMULTISIGVERIFY : UInt8 := 0xaf
def OP_ZEROCOINMINT : UInt8 := 0xc1
def OP_ZEROCOINSPEND : UInt8 := 0xc2
def OP_ZEROCOINPUBLICSPEND : UInt8 := 0xc3
def OP_CHECKCOLDSTAKEVERIFY : UInt8 := 0xd1
def OP_INVALIDOPCODE : UInt8 := 0xff

def MAX_SCRIPT_SIZE : ℕ := 10000

def readLE : List UInt8 → ℕ
  | [] => 0
  | b :: l => b.toNat + 256 * readLE l

/-- The operand of a push: `k` bytes of length, then that many bytes of data. -/
def readPush (k : ℕ) (rest : CScript) : Option (List UInt8 × CScript) :=
  if rest.length < k then none
  else
    let nSize := readLE (rest.take k)
    let body := rest.drop k
    if body.length < nSize then none else some (body.take nSize, body.drop nSize)

/-- `GetOp2`: the next opcode, the data it pushes and what is left to read. -/
def getOp : CScript → Option (UInt8 × List UInt8 × CScript)
  | [] => none
  | opcode :: rest =>
    if opcode ≤ OP_PUSHDATA4 then
      if opcode < OP_PUSHDATA1 then
        if rest.length < opcode.toNat then none
        else some (opcode, rest.take opcode.toNat, rest.drop opcode.toNat)
      else if opcode = OP_PUSHDATA1 then (readPush 1 rest).map (opcode, ·)
      else if opcode = OP_PUSHDATA2 then (readPush 2 rest).map (opcode, ·)
      else (readPush 4 rest).map (opcode, ·)
    else some (opcode, [], rest)

/-- `DecodeOP_N` on the opcodes `OP_1` to `OP_16`. -/
def decodeOpN (opcode : UInt8) : ℕ := opcode.toNat - (OP_1.toNat - 1)

/-- The loop of `GetSigOpCount`; every pass reads at least one byte, so the length of the
script is fuel enough. -/
def sigOpCountFrom (fAccurate : Bool) : ℕ → UInt8 → CScript → ℕ
  | 0, _, _ => 0
  | fuel + 1, lastOpcode, pc =>
    match getOp pc with
    | none => 0
    | some (opcode, _, pc') =>
      let n :=
        if opcode = OP_CHECKSIG ∨ opcode = OP_CHECKSIGVERIFY then 1
        else if opcode = OP_CHECKMULTISIG ∨ opcode = OP_CHECKMULTISIGVERIFY then
          if fAccurate ∧ OP_1 ≤ lastOpcode ∧ lastOpcode ≤ OP_16 then decodeOpN lastOpcode else 20
        else 0
      n + sigOpCountFrom fAccurate fuel opcode pc'

/-- `GetSigOpCount(bool)`. -/
def getSigOpCount (s : CScript) (fAccurate : Bool) : ℕ :=
  sigOpCountFrom fAccurate s.length OP_INVALIDOPCODE s

lemma sigOpCountFrom_le (fuel : ℕ) (last : UInt8) (s : CScript) :
    sigOpCountFrom false fuel last s ≤ 20 * fuel := by
  induction fuel generalizing last s with
  | zero => exact Nat.le_refl _
  | succ fuel ih =>
    unfold sigOpCountFrom
    split
    · exact Nat.zero_le _
    · next opcode data pc' _ =>
      have hrest := ih opcode pc'
      simp only [Bool.false_eq_true, false_and, if_false]
      split_ifs <;> omega

def isPayToScriptHash (s : CScript) : Bool :=
  s.length == 23 && s[0]? == some OP_HASH160 && s[1]? == some 0x14 && s[22]? == some OP_EQUAL

/-- The data of the last push, when the script only pushes. -/
def lastPush : ℕ → List UInt8 → CScript → Option (List UInt8)
  | 0, data, _ => some data
  | fuel + 1, data, pc =>
    if pc.isEmpty then some data
    else match getOp pc with
      | none => none
      | some (opcode, data', pc') => if OP_16 < opcode then none else lastPush fuel data' pc'

/-- `GetSigOpCount(const CScript& scriptSig)`: for pay-to-script-hash the operations of the
script that the input reveals. -/
def getSigOpCountWith (s scriptSig : CScript) : ℕ :=
  if !isPayToScriptHash s then getSigOpCount s true
  else match lastPush scriptSig.length [] scriptSig with
    | none => 0
    | some data => getSigOpCount data true

def isPayToColdStaking (s : CScript) : Bool :=
  s.length == 51 && s[2]? == some OP_ROT && s[4]? == some OP_CHECKCOLDSTAKEVERIFY &&
    s[5]? == some 0x14 && s[27]? == some 0x14 && s[49]? == some OP_EQUALVERIFY &&
    s[50]? == some OP_CHECKSIG

/-- The loop of `IsNormalPaymentScript`, `i` operations into the script. An operation that
cannot be read is never the one that is expected, and it leaves too many bytes behind when none
is. -/
def normalPaymentFrom : ℕ → ℕ → CScript → Bool
  | 0, _, _ => true
  | fuel + 1, i, pc =>
    if pc.isEmpty then true
    else match getOp pc with
      | none => false
      | some (opcode, _, pc') =>
        if i = 0 ∧ opcode ≠ OP_DUP then false
        else if i = 1 ∧ opcode ≠ OP_HASH160 then false
        else if i = 3 ∧ opcode ≠ OP_EQUALVERIFY then false
        else if i = 4 ∧ opcode ≠ OP_CHECKSIG then false
        else if i = 5 then false
        else normalPaymentFrom fuel (i + 1) pc'

def isNormalPaymentScript (s : CScript) : Bool :=
  s.length == 25 && normalPaymentFrom s.length 0 s

def startsWithOpcode (s : CScript) (opcode : UInt8) : Bool :=
  match s with
  | [] => false
  | b :: _ => b == opcode

def isZerocoinMint (s : CScript) : Bool := startsWithOpcode s OP_ZEROCOINMINT
def isZerocoinSpend (s : CScript) : Bool := startsWithOpcode s OP_ZEROCOINSPEND
def isZerocoinPublicSpend (s : CScript) : Bool := startsWithOpcode s OP_ZEROCOINPUBLICSPEND

def isUnspendable (s : CScript) : Bool :=
  startsWithOpcode s OP_RETURN || decide (MAX_SCRIPT_SIZE < s.length)

lemma not_spend_of_publicSpend {s : CScript} (h : isZerocoinPublicSpend s = true) :
    isZerocoinSpend s = false := by
  cases s with
  | nil => simp [isZerocoinPublicSpend, startsWithOpcode] at h
  | cons b l =>
    simp only [isZerocoinPublicSpend, startsWithOpcode, beq_iff_eq] at h
    subst h
    rfl

end Script

end Agenor
