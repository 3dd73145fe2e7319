import Agenor.Script
import Agenor.Serialize
import Agenor.Lib.Fallible

/-!
The script interpreter (`script/interpreter.cpp`): the checks of signature and key encodings,
`EvalScript` with every opcode, and `VerifyScript`.

A stack is a list with its top first. `EvalScript` reads one operation at a time; the byte is
first sorted into one of the cases of the source's `switch`, so that the effect of an operation is
a function of the case and of the machine. The verification flags are the bits of a word, and
every place that looks at them goes through `hasFlag`.

The hash functions, the test for a low S value and the signature checker are parameters.
-/

namespace Agenor

open Lib.Fallible

/-- `valtype`: an element of the stack. -/
abbrev Valtype := List UInt8

/-! ### Flags and errors -/

namespace Script

def SCRIPT_VERIFY_NONE : UInt32 := 0
def SCRIPT_VERIFY_P2SH : UInt32 := 0x1
def SCRIPT_VERIFY_STRICTENC : UInt32 := 0x2
def SCRIPT_VERIFY_DERSIG : UInt32 := 0x4
def SCRIPT_VERIFY_LOW_S : UInt32 := 0x8
def SCRIPT_VERIFY_NULLDUMMY : UInt32 := 0x10
def SCRIPT_VERIFY_SIGPUSHONLY : UInt32 := 0x20
def SCRIPT_VERIFY_MINIMALDATA : UInt32 := 0x40
def SCRIPT_VERIFY_DISCOURAGE_UPGRADABLE_NOPS : UInt32 := 0x80
def SCRIPT_VERIFY_CHECKLOCKTIMEVERIFY : UInt32 := 0x200

/-- `flags & mask`, as a truth value. -/
def hasFlag (flags mask : UInt32) : Bool := flags &&& mask != 0

/-- `ScriptError`, without the value for success. `assertion` is not one of them: the process
stops there. -/
inductive ScriptError
  | UNKNOWN_ERROR | EVAL_FALSE | OP_RETURN
  | SCRIPT_SIZE | PUSH_SIZE | OP_COUNT | STACK_SIZE | SIG_COUNT | PUBKEY_COUNT
  | VERIFY | EQUALVERIFY | CHECKCOLDSTAKEVERIFY | CHECKMULTISIGVERIFY | CHECKSIGVERIFY
  | NUMEQUALVERIFY
  | BAD_OPCODE | DISABLED_OPCODE | INVALID_STACK_OPERATION | INVALID_ALTSTACK_OPERATION
  | UNBALANCED_CONDITIONAL
  | NEGATIVE_LOCKTIME | UNSATISFIED_LOCKTIME
  | SIG_HASHTYPE | SIG_DER | MINIMALDATA | SIG_PUSHONLY | SIG_HIGH_S | SIG_NULLDUMMY | PUBKEYTYPE
  | DISCOURAGE_UPGRADABLE_NOPS
  | assertion
  deriving DecidableEq, Repr

abbrev Eval := Except ScriptError

inductive SigVersion
  | SIGVERSION_BASE | SIGVERSION_WITNESS_V0
  deriving DecidableEq, Repr

/-- `BaseSignatureChecker`. -/
structure SignatureChecker where
  checkSig : Valtype → Valtype → CScript → SigVersion → Bool
  checkLockTime : ℤ → Bool
  checkColdStake : CScript → Bool

/-- The cryptography that the interpreter calls. -/
structure ScriptCrypto where
  ripemd160 : Valtype → Valtype
  sha1 : Valtype → Valtype
  sha256 : Valtype → Valtype
  hash160 : Valtype → Valtype
  hash256 : Valtype → Valtype
  /-- `CPubKey::CheckLowS`. -/
  checkLowS : Valtype → Bool

/-! ### Numbers -/

/-- The loop of `CScriptNum::serialize`: the bytes of a number, least significant first. Eight
bytes are all there are. -/
def absBytes : ℕ → ℕ → List UInt8
  | 0, _ => []
  | fuel + 1, absvalue =>
    if absvalue = 0 then [] else UInt8.ofNat (absvalue % 256) :: absBytes fuel (absvalue / 256)

/-- Puts a sign on the bytes of a positive number: in the top bit, which is made free first. -/
def signBytes (neg : Bool) (result : List UInt8) : List UInt8 :=
  match result.getLast? with
  | none => []
  | some b =>
    if b &&& 0x80 ≠ 0 then result ++ [if neg then 0x80 else 0]
    else if neg then result.dropLast ++ [b ||| 0x80]
    else result

def serialize (value : ℤ) : Valtype := signBytes (decide (value < 0)) (absBytes 8 value.natAbs)

/-- `CScriptNum::set_vch`. -/
def setVch (vch : Valtype) : ℤ :=
  match vch.getLast? with
  | none => 0
  | some b =>
    if b &&& 0x80 ≠ 0 then -(readLE (vch.dropLast ++ [b &&& 0x7f]) : ℤ) else readLE vch

/-- Whether the number is encoded with the minimum possible number of bytes. -/
def isMinimal (vch : Valtype) : Bool :=
  match vch.getLast? with
  | none => true
  | some b =>
    !(b &&& 0x7f == 0 && (decide (vch.length ≤ 1) || vch.getD (vch.length - 2) 0 &&& 0x80 == 0))

/-- The constructor of `CScriptNum` from an element of the stack; its exceptions are caught by
`EvalScript`. -/
def scriptNum (vch : Valtype) (fRequireMinimal : Bool) (nMaxNumSize : ℕ) : Eval ℤ := do
  failIf (decide (nMaxNumSize < vch.length)) .UNKNOWN_ERROR
  failIf (fRequireMinimal && !isMinimal vch) .UNKNOWN_ERROR
  return setVch vch

def nDefaultMaxNumSize : ℕ := 4

def getint (bn : ℤ) : ℤ := max (-2 ^ 31) (min bn (2 ^ 31 - 1))

def ofBool (b : Bool) : Valtype := if b then [1] else []

/-- `CastToBool`: some byte is not zero, and it is not the sign of a zero. -/
def castToBool : Valtype → Bool
  | [] => false
  | b :: rest => if b ≠ 0 then !(rest.isEmpty && b == 0x80) else castToBool rest

/-! ### Encodings -/

def isCompressedOrUncompressedPubKey (vchPubKey : Valtype) : Bool :=
  if vchPubKey.length < 33 then false
  else if vchPubKey.getD 0 0 = 0x04 then vchPubKey.length == 65
  else if vchPubKey.getD 0 0 = 0x02 ∨ vchPubKey.getD 0 0 = 0x03 then vchPubKey.length == 33
  else false

def isValidSignatureEncoding (sig : Valtype) : Bool :=
  let at' := fun i => sig.getD i 0
  let lenR := (at' 3).toNat
  let lenS := (at' (5 + lenR)).toNat
  if sig.length < 9 then false
  else if 73 < sig.length then false
  else if at' 0 ≠ 0x30 then false
  else if (at' 1).toNat ≠ sig.length - 3 then false
  else if sig.length ≤ 5 + lenR then false
  else if lenR + lenS + 7 ≠ sig.length then false
  else if at' 2 ≠ 0x02 then false
  else if lenR = 0 then false
  else if at' 4 &&& 0x80 ≠ 0 then false
  else if 1 < lenR ∧ at' 4 = 0x00 ∧ at' 5 &&& 0x80 = 0 then false
  else if at' (lenR + 4) ≠ 0x02 then false
  else if lenS = 0 then false
  else if at' (lenR + 6) &&& 0x80 ≠ 0 then false
  else if 1 < lenS ∧ at' (lenR + 6) = 0x00 ∧ at' (lenR + 7) &&& 0x80 = 0 then false
  else true

def isDefinedHashtypeSignature (vchSig : Valtype) : Bool :=
  match vchSig.getLast? with
  | none => false
  | some b => let nHashType := b &&& 0x7f; decide (1 ≤ nHashType) && decide (nHashType ≤ 3)

def checkMinimalPush (data : Valtype) (opcode : UInt8) : Bool :=
  if data.length = 0 then opcode == 0
  else if data.length = 1 ∧ 1 ≤ data.getD 0 0 ∧ data.getD 0 0 ≤ 16 then
    opcode == OP_1 + (data.getD 0 0 - 1)
  else if data.length = 1 ∧ data.getD 0 0 = 0x81 then opcode == 0x4f
  else if data.length ≤ 75 then opcode.toNat == data.length
  else if data.length ≤ 255 then opcode == OP_PUSHDATA1
  else if data.length ≤ 65535 then opcode == OP_PUSHDATA2
  else true

section Encodings

variable (crypto : ScriptCrypto) (flags : UInt32)

def isLowDERSignature (vchSig : Valtype) : Eval Unit := do
  failIf (!isValidSignatureEncoding vchSig) .SIG_DER
  failIf (!crypto.checkLowS vchSig.dropLast) .SIG_HIGH_S

def checkSignatureEncoding (vchSig : Valtype) : Eval Unit :=
  if vchSig.length = 0 then .ok ()
  else do
    failIf (hasFlag flags (SCRIPT_VERIFY_DERSIG ||| SCRIPT_VERIFY_LOW_S ||| SCRIPT_VERIFY_STRICTENC)
      && !isValidSignatureEncoding vchSig) .SIG_DER
    (if hasFlag flags SCRIPT_VERIFY_LOW_S then isLowDERSignature crypto vchSig else .ok ())
    failIf (hasFlag flags SCRIPT_VERIFY_STRICTENC && !isDefinedHashtypeSignature vchSig)
      .SIG_HASHTYPE

def checkPubKeyEncoding (vchPubKey : Valtype) : Eval Unit :=
  failIf (hasFlag flags SCRIPT_VERIFY_STRICTENC && !isCompressedOrUncompressedPubKey vchPubKey)
    .PUBKEYTYPE

end Encodings

/-! ### Scripts inside scripts -/

/-- `CScript(vch)`: the operation that pushes the data. -/
def pushData (b : Valtype) : CScript :=
  if b.length < OP_PUSHDATA1.toNat then UInt8.ofNat b.length :: b
  else if b.length ≤ 0xff then OP_PUSHDATA1 :: UInt8.ofNat b.length :: b
  else if b.length ≤ 0xffff then OP_PUSHDATA2 :: writeLE 2 b.length ++ b
  else OP_PUSHDATA4 :: writeLE 4 b.length ++ b

/-- The loop of `FindAndDelete`: copies of `b` are dropped where an operation could start, and the
operation there is kept. Every pass takes at least one byte when `b` is not empty. -/
def findAndDeleteFrom (b : CScript) : ℕ → CScript → CScript
  | 0, pc => pc
  | fuel + 1, pc =>
    if b.isPrefixOf pc then findAndDeleteFrom b fuel (pc.drop b.length)
    else match getOp pc with
      | none => pc
      | some (_, _, pc') => pc.take (pc.length - pc'.length) ++ findAndDeleteFrom b fuel pc'

def findAndDelete (s b : CScript) : CScript :=
  if b.isEmpty then s else findAndDeleteFrom b s.length s

/-- `IsPushOnly`; every pass reads at least one byte. -/
def isPushOnlyFrom : ℕ → CScript → Bool
  | 0, _ => true
  | fuel + 1, pc =>
    if pc.isEmpty then true
    else match getOp pc with
      | none => false
      | some (opcode, _, pc') => if OP_16 < opcode then false else isPushOnlyFrom fuel pc'

def isPushOnly (s : CScript) : Bool := isPushOnlyFrom s.length s

lemma readPush_length {k : ℕ} {rest data pc' : CScript} (h : readPush k rest = some (data, pc')) :
    pc'.length ≤ rest.length := by
  unfold readPush at h
  dsimp only at h
  split_ifs at h
  obtain ⟨-, rfl⟩ := Prod.mk.inj (Option.some.inj h)
  simp only [List.length_drop]
  omega

lemma getOp_length {pc pc' : CScript} {opcode : UInt8} {data : List UInt8}
    (h : getOp pc = some (opcode, data, pc')) : pc'.length < pc.length := by
  have hpush : ∀ {k : ℕ} {rest : CScript} {b : UInt8},
      (readPush k rest).map (b, ·) = some (opcode, data, pc') → pc'.length ≤ rest.length := by
    intro k rest b hb
    obtain ⟨r, hr, heq⟩ := Option.map_eq_some_iff.mp hb
    obtain ⟨-, rfl⟩ := Prod.mk.inj heq
    exact readPush_length hr
  cases pc with
  | nil => cases h
  | cons b rest =>
    rw [List.length_cons]
    apply Nat.lt_succ_of_le
    unfold getOp at h
    dsimp only at h
    split_ifs at h
    · obtain ⟨-, heq⟩ := Prod.mk.inj (Option.some.inj h)
      obtain ⟨-, rfl⟩ := Prod.mk.inj heq
      simp
    · exact hpush h
    · exact hpush h
    · exact hpush h
    · obtain ⟨-, heq⟩ := Prod.mk.inj (Option.some.inj h)
      obtain ⟨-, rfl⟩ := Prod.mk.inj heq
      exact le_rfl

/-! ### Opcodes -/

/-- The opcodes that only move elements of the stack. -/
inductive StackOp
  | OP_2DROP | OP_2DUP | OP_3DUP | OP_2OVER | OP_2ROT | OP_2SWAP | OP_IFDUP | OP_DEPTH | OP_DROP
  | OP_DUP | OP_NIP | OP_OVER | OP_ROT | OP_SWAP | OP_TUCK | OP_SIZE
  deriving DecidableEq, Repr

/-- The opcodes from one number to one. -/
inductive UnaryOp
  | OP_1ADD | OP_1SUB | OP_NEGATE | OP_ABS | OP_NOT | OP_0NOTEQUAL
  deriving DecidableEq, Repr

/-- The opcodes from two numbers to one. -/
inductive BinaryOp
  | OP_ADD | OP_SUB | OP_BOOLAND | OP_BOOLOR | OP_NUMEQUAL | OP_NUMEQUALVERIFY | OP_NUMNOTEQUAL
  | OP_LESSTHAN | OP_GREATERTHAN | OP_LESSTHANOREQUAL | OP_GREATERTHANOREQUAL | OP_MIN | OP_MAX
  deriving DecidableEq, Repr

inductive HashOp
  | OP_RIPEMD160 | OP_SHA1 | OP_SHA256 | OP_HASH160 | OP_HASH256
  deriving DecidableEq, Repr

/-- The cases of the `switch` in `EvalScript`. Where one case serves two opcodes that differ in
one place, a truth value tells them apart. -/
inductive Opcode
  | smallInt (n : ℤ)
  | OP_NOP
  | OP_CHECKLOCKTIMEVERIFY
  | upgradableNop
  | OP_IF (fNot : Bool)
  | OP_ELSE | OP_ENDIF | OP_VERIFY | OP_RETURN | OP_TOALTSTACK | OP_FROMALTSTACK
  | stackOp (op : StackOp)
  | OP_PICK (fRoll : Bool)
  | OP_EQUAL (fVerify : Bool)
  | unary (op : UnaryOp)
  | binary (op : BinaryOp)
  | OP_WITHIN
  | hash (op : HashOp)
  | OP_CODESEPARATOR
  | OP_CHECKSIG (fVerify : Bool)
  | OP_CHECKMULTISIG (fVerify : Bool)
  | OP_CHECKCOLDSTAKEVERIFY
  | default
  deriving DecidableEq, Repr

/-- The case of the `switch` that a byte selects. -/
def Opcode.ofByte (opcode : UInt8) : Opcode :=
  if 0x51 ≤ opcode ∧ opcode ≤ 0x60 then .smallInt (opcode.toNat - 0x50)
  else match opcode.toNat with
    | 0x4f => .smallInt (-1)
    | 0x61 => .OP_NOP
    | 0x63 => .OP_IF false
    | 0x64 => .OP_IF true
    | 0x67 => .OP_ELSE
    | 0x68 => .OP_ENDIF
    | 0x69 => .OP_VERIFY
    | 0x6a => .OP_RETURN
    | 0x6b => .OP_TOALTSTACK
    | 0x6c => .OP_FROMALTSTACK
    | 0x6d => .stackOp .OP_2DROP
    | 0x6e => .stackOp .OP_2DUP
    | 0x6f => .stackOp .OP_3DUP
    | 0x70 => .stackOp .OP_2OVER
    | 0x71 => .stackOp .OP_2ROT
    | 0x72 => .stackOp .OP_2SWAP
    | 0x73 => .stackOp .OP_IFDUP
    | 0x74 => .stackOp .OP_DEPTH
    | 0x75 => .stackOp .OP_DROP
    | 0x76 => .stackOp .OP_DUP
    | 0x77 => .stackOp .OP_NIP
    | 0x78 => .stackOp .OP_OVER
    | 0x79 => .OP_PICK false
    | 0x7a => .OP_PICK true
    | 0x7b => .stackOp .OP_ROT
    | 0x7c => .stackOp .OP_SWAP
    | 0x7d => .stackOp .OP_TUCK
    | 0x82 => .stackOp .OP_SIZE
    | 0x87 => .OP_EQUAL false
    | 0x88 => .OP_EQUAL true
    | 0x8b => .unary .OP_1ADD
    | 0x8c => .unary .OP_1SUB
    | 0x8f => .unary .OP_NEGATE
    | 0x90 => .unary .OP_ABS
    | 0x91 => .unary .OP_NOT
    | 0x92 => .unary .OP_0NOTEQUAL
    | 0x93 => .binary .OP_ADD
    | 0x94 => .binary .OP_SUB
    | 0x9a => .binary .OP_BOOLAND
    | 0x9b => .binary .OP_BOOLOR
    | 0x9c => .binary .OP_NUMEQUAL
    | 0x9d => .binary .OP_NUMEQUALVERIFY
    | 0x9e => .binary .OP_NUMNOTEQUAL
    | 0x9f => .binary .OP_LESSTHAN
    | 0xa0 => .binary .OP_GREATERTHAN
    | 0xa1 => .binary .OP_LESSTHANOREQUAL
    | 0xa2 => .binary .OP_GREATERTHANOREQUAL
    | 0xa3 => .binary .OP_MIN
    | 0xa4 => .binary .OP_MAX
    | 0xa5 => .OP_WITHIN
    | 0xa6 => .hash .OP_RIPEMD160
    | 0xa7 => .hash .OP_SHA1
    | 0xa8 => .hash .OP_SHA256
    | 0xa9 => .hash .OP_HASH160
    | 0xaa => .hash .OP_HASH256
    | 0xab => .OP_CODESEPARATOR
    | 0xac => .OP_CHECKSIG false
    | 0xad => .OP_CHECKSIG true
    | 0xae => .OP_CHECKMULTISIG false
    | 0xaf => .OP_CHECKMULTISIG true
    | 0xb0 => .upgradableNop
    | 0xb1 => .OP_CHECKLOCKTIMEVERIFY
    | 0xb2 => .upgradableNop
    | 0xb3 => .upgradableNop
    | 0xb4 => .upgradableNop
    | 0xb5 => .upgradableNop
    | 0xb6 => .upgradableNop
    | 0xb7 => .upgradableNop
    | 0xb8 => .upgradableNop
    | 0xb9 => .upgradableNop
    | 0xd1 => .OP_CHECKCOLDSTAKEVERIFY
    | _ => .default

/-- The opcodes that end the script wherever they stand, `OP_CAT` to `OP_RSHIFT`. -/
def disabledOpcodes : List UInt8 :=
  [0x7e, 0x7f, 0x80, 0x81, 0x83, 0x84, 0x85, 0x86, 0x8d, 0x8e, 0x95, 0x96, 0x97, 0x98, 0x99]

def StackOp.eval : StackOp → List Valtype → Eval (List Valtype)
  | .OP_2DROP, _ :: _ :: stack => .ok stack
  | .OP_2DUP, x2 :: x1 :: stack => .ok (x2 :: x1 :: x2 :: x1 :: stack)
  | .OP_3DUP, x3 :: x2 :: x1 :: stack => .ok (x3 :: x2 :: x1 :: x3 :: x2 :: x1 :: stack)
  | .OP_2OVER, x4 :: x3 :: x2 :: x1 :: stack => .ok (x2 :: x1 :: x4 :: x3 :: x2 :: x1 :: stack)
  | .OP_2ROT, x6 :: x5 :: x4 :: x3 :: x2 :: x1 :: stack =>
    .ok (x2 :: x1 :: x6 :: x5 :: x4 :: x3 :: stack)
  | .OP_2SWAP, x4 :: x3 :: x2 :: x1 :: stack => .ok (x2 :: x1 :: x4 :: x3 :: stack)
  | .OP_IFDUP, vch :: stack => .ok (if castToBool vch then vch :: vch :: stack else vch :: stack)
  | .OP_DEPTH, stack => .ok (serialize stack.length :: stack)
  | .OP_DROP, _ :: stack => .ok stack
  | .OP_DUP, vch :: stack => .ok (vch :: vch :: stack)
  | .OP_NIP, x2 :: _ :: stack => .ok (x2 :: stack)
  | .OP_OVER, x2 :: x1 :: stack => .ok (x1 :: x2 :: x1 :: stack)
  | .OP_ROT, x3 :: x2 :: x1 :: stack => .ok (x1 :: x3 :: x2 :: stack)
  | .OP_SWAP, x2 :: x1 :: stack => .ok (x1 :: x2 :: stack)
  | .OP_TUCK, x2 :: x1 :: stack => .ok (x2 :: x1 :: x2 :: stack)
  | .OP_SIZE, vch :: stack => .ok (serialize vch.length :: vch :: stack)
  | _, _ => .error .INVALID_STACK_OPERATION

def UnaryOp.eval : UnaryOp → ℤ → ℤ
  | .OP_1ADD, bn => bn + 1
  | .OP_1SUB, bn => bn - 1
  | .OP_NEGATE, bn => -bn
  | .OP_ABS, bn => if bn < 0 then -bn else bn
  | .OP_NOT, bn => if bn = 0 then 1 else 0
  | .OP_0NOTEQUAL, bn => if bn ≠ 0 then 1 else 0

def BinaryOp.eval : BinaryOp → ℤ → ℤ → ℤ
  | .OP_ADD, bn1, bn2 => bn1 + bn2
  | .OP_SUB, bn1, bn2 => bn1 - bn2
  | .OP_BOOLAND, bn1, bn2 => if bn1 ≠ 0 ∧ bn2 ≠ 0 then 1 else 0
  | .OP_BOOLOR, bn1, bn2 => if bn1 ≠ 0 ∨ bn2 ≠ 0 then 1 else 0
  | .OP_NUMEQUAL, bn1, bn2 => if bn1 = bn2 then 1 else 0
  | .OP_NUMEQUALVERIFY, bn1, bn2 => if bn1 = bn2 then 1 else 0
  | .OP_NUMNOTEQUAL, bn1, bn2 => if bn1 ≠ bn2 then 1 else 0
  | .OP_LESSTHAN, bn1, bn2 => if bn1 < bn2 then 1 else 0
  | .OP_GREATERTHAN, bn1, bn2 => if bn2 < bn1 then 1 else 0
  | .OP_LESSTHANOREQUAL, bn1, bn2 => if bn1 ≤ bn2 then 1 else 0
  | .OP_GREATERTHANOREQUAL, bn1, bn2 => if bn2 ≤ bn1 then 1 else 0
  | .OP_MIN, bn1, bn2 => if bn1 < bn2 then bn1 else bn2
  | .OP_MAX, bn1, bn2 => if bn2 < bn1 then bn1 else bn2

def HashOp.eval (crypto : ScriptCrypto) : HashOp → Valtype → Valtype
  | .OP_RIPEMD160 => crypto.ripemd160
  | .OP_SHA1 => crypto.sha1
  | .OP_SHA256 => crypto.sha256
  | .OP_HASH160 => crypto.hash160
  | .OP_HASH256 => crypto.hash256

/-! ### `EvalScript` -/

/-- What `EvalScript` carries beside the place it reads at. The innermost condition is the first
of `vfExec`. -/
structure Machine where
  stack : List Valtype
  altstack : List Valtype
  vfExec : List Bool
  nOpCount : ℕ
  /-- The script from the last `OP_CODESEPARATOR` on. -/
  pbegincodehash : CScript
  deriving DecidableEq, Repr

/-- What does not change during `EvalScript`. -/
structure EvalEnv where
  crypto : ScriptCrypto
  checker : SignatureChecker
  sigversion : SigVersion
  script : CScript

namespace EvalEnv

variable (env : EvalEnv) (flags : UInt32)

/-- `CScriptNum(vch, fRequireMinimal)`. -/
def numArg (vch : Valtype) : Eval ℤ :=
  scriptNum vch (hasFlag flags SCRIPT_VERIFY_MINIMALDATA) nDefaultMaxNumSize

/-- The end of the opcodes that push a truth value, and take it away again in the variant that
verifies it. -/
def pushBool (fSuccess fVerify : Bool) (err : ScriptError) (m : Machine) (stack : List Valtype) :
    Eval Machine := do
  failIf (fVerify && !fSuccess) err
  return { m with stack := if fVerify then stack else ofBool fSuccess :: stack }

/-- `OP_CHECKLOCKTIMEVERIFY`, an ordinary no-operation when it is not enabled. -/
def checkLockTimeVerify (m : Machine) : Eval Machine :=
  if !hasFlag flags SCRIPT_VERIFY_CHECKLOCKTIMEVERIFY then do
    failIf (hasFlag flags SCRIPT_VERIFY_DISCOURAGE_UPGRADABLE_NOPS) .DISCOURAGE_UPGRADABLE_NOPS
    return m
  else match m.stack with
    | [] => .error .INVALID_STACK_OPERATION
    | vch :: _ => do
      let nLockTime ← scriptNum vch (hasFlag flags SCRIPT_VERIFY_MINIMALDATA) 5
      failIf (decide (nLockTime < 0)) .NEGATIVE_LOCKTIME
      failIf (!env.checker.checkLockTime nLockTime) .UNSATISFIED_LOCKTIME
      return m

/-- `OP_IF` and `OP_NOTIF`. -/
def evalIf (fNot fExec : Bool) (m : Machine) : Eval Machine :=
  if fExec then match m.stack with
    | [] => .error .UNBALANCED_CONDITIONAL
    | vch :: stack =>
      .ok { m with stack, vfExec := (if fNot then !castToBool vch else castToBool vch) :: m.vfExec }
  else .ok { m with vfExec := false :: m.vfExec }

/-- `OP_PICK` and `OP_ROLL`. -/
def evalPick (fRoll : Bool) (m : Machine) : Eval Machine :=
  match m.stack with
  | vch :: x :: rest => do
    let stack := x :: rest
    let bn ← numArg flags vch
    let n := getint bn
    failIf (decide (n < 0) || decide ((stack.length : ℤ) ≤ n)) .INVALID_STACK_OPERATION
    let below := if fRoll then stack.eraseIdx n.toNat else stack
    return { m with stack := stack.getD n.toNat [] :: below }
  | _ => .error .INVALID_STACK_OPERATION

/-- `OP_CHECKSIG` and `OP_CHECKSIGVERIFY`. -/
def evalCheckSig (fVerify : Bool) (m : Machine) : Eval Machine :=
  match m.stack with
  | vchPubKey :: vchSig :: stack => do
    let scriptCode := findAndDelete m.pbegincodehash (pushData vchSig)
    checkSignatureEncoding env.crypto flags vchSig
    checkPubKeyEncoding flags vchPubKey
    let fSuccess := env.checker.checkSig vchSig vchPubKey scriptCode env.sigversion
    pushBool fSuccess fVerify .CHECKSIGVERIFY m stack
  | _ => .error .INVALID_STACK_OPERATION

/-- The loop of `OP_CHECKMULTISIG`. There are never more signatures left than keys, so the keys
do not run out first. -/
def multiSigLoop (scriptCode : CScript) : List Valtype → List Valtype → Eval Bool
  | _, [] => .ok true
  | [], _ :: _ => .ok false
  | vchPubKey :: keys, vchSig :: sigs => do
    checkSignatureEncoding env.crypto flags vchSig
    checkPubKeyEncoding flags vchPubKey
    let fOk := env.checker.checkSig vchSig vchPubKey scriptCode env.sigversion
    let sigs := if fOk then sigs else vchSig :: sigs
    if keys.length < sigs.length then .ok false else multiSigLoop scriptCode keys sigs

/-- `OP_CHECKMULTISIG` after the two numbers are read: `keys` and `sigs` are the arguments, and
`rest` begins with the extra one. -/
def evalMultiSigArgs (fVerify : Bool) (m : Machine) (keys sigs rest : List Valtype) :
    Eval Machine := do
  let scriptCode := sigs.foldl (fun code vchSig => findAndDelete code (pushData vchSig))
    m.pbegincodehash
  let fSuccess ← env.multiSigLoop flags scriptCode keys sigs
  match rest with
  | [] => .error .INVALID_STACK_OPERATION
  | dummy :: stack =>
    failIf (hasFlag flags SCRIPT_VERIFY_NULLDUMMY && !dummy.isEmpty) .SIG_NULLDUMMY
    pushBool fSuccess fVerify .CHECKMULTISIGVERIFY m stack

/-- `OP_CHECKMULTISIG` after the number of keys is read. -/
def evalMultiSigKeys (fVerify : Bool) (m : Machine) (nKeysCount : ℕ) (stack : List Valtype) :
    Eval Machine :=
  match stack.drop nKeysCount with
  | [] => .error .INVALID_STACK_OPERATION
  | vch :: rest => do
    let bn ← numArg flags vch
    let nSigsCount := getint bn
    failIf (decide (nSigsCount < 0) || decide ((nKeysCount : ℤ) < nSigsCount)) .SIG_COUNT
    failIf (decide (rest.length < nSigsCount.toNat + 1)) .INVALID_STACK_OPERATION
    env.evalMultiSigArgs flags fVerify m (stack.take nKeysCount) (rest.take nSigsCount.toNat)
      (rest.drop nSigsCount.toNat)

/-- `OP_CHECKMULTISIG` and `OP_CHECKMULTISIGVERIFY`. -/
def evalCheckMultiSig (fVerify : Bool) (m : Machine) : Eval Machine :=
  match m.stack with
  | [] => .error .INVALID_STACK_OPERATION
  | vch :: stack => do
    let bn ← numArg flags vch
    let nKeysCount := getint bn
    failIf (decide (nKeysCount < 0) || decide (20 < nKeysCount)) .PUBKEY_COUNT
    let m := { m with nOpCount := m.nOpCount + nKeysCount.toNat }
    failIf (decide (201 < m.nOpCount)) .OP_COUNT
    env.evalMultiSigKeys flags fVerify m nKeysCount.toNat stack

/-- The numeric opcodes of one argument. -/
def evalUnary (op : UnaryOp) (m : Machine) : Eval Machine :=
  match m.stack with
  | vch :: stack => do
    let bn ← numArg flags vch
    return { m with stack := serialize (op.eval bn) :: stack }
  | _ => .error .INVALID_STACK_OPERATION

/-- The numeric opcodes of two arguments. -/
def evalBinary (op : BinaryOp) (m : Machine) : Eval Machine :=
  match m.stack with
  | vch2 :: vch1 :: stack => do
    let bn1 ← numArg flags vch1
    let bn2 ← numArg flags vch2
    let vch := serialize (op.eval bn1 bn2)
    if op = .OP_NUMEQUALVERIFY then
      failIf (!castToBool vch) .NUMEQUALVERIFY
      return { m with stack }
    else return { m with stack := vch :: stack }
  | _ => .error .INVALID_STACK_OPERATION

/-- `OP_WITHIN`. -/
def evalWithin (m : Machine) : Eval Machine :=
  match m.stack with
  | vch3 :: vch2 :: vch1 :: stack => do
    let bn1 ← numArg flags vch1
    let bn2 ← numArg flags vch2
    let bn3 ← numArg flags vch3
    return { m with stack := ofBool (decide (bn2 ≤ bn1) && decide (bn1 < bn3)) :: stack }
  | _ => .error .INVALID_STACK_OPERATION

/-- The `switch` of `EvalScript`; `pc` is where the next operation starts. -/
def evalOp (fExec : Bool) (pc : CScript) (op : Opcode) (m : Machine) : Eval Machine :=
  match op with
  | .smallInt n => .ok { m with stack := serialize n :: m.stack }
  | .OP_NOP => .ok m
  | .OP_CHECKLOCKTIMEVERIFY => env.checkLockTimeVerify flags m
  | .upgradableNop => do
    failIf (hasFlag flags SCRIPT_VERIFY_DISCOURAGE_UPGRADABLE_NOPS) .DISCOURAGE_UPGRADABLE_NOPS
    return m
  | .OP_IF fNot => evalIf fNot fExec m
  | .OP_ELSE => match m.vfExec with
    | [] => .error .UNBALANCED_CONDITIONAL
    | f :: fs => .ok { m with vfExec := (!f) :: fs }
  | .OP_ENDIF => match m.vfExec with
    | [] => .error .UNBALANCED_CONDITIONAL
    | _ :: fs => .ok { m with vfExec := fs }
  | .OP_VERIFY => match m.stack with
    | [] => .error .INVALID_STACK_OPERATION
    | vch :: stack => if castToBool vch then .ok { m with stack } else .error .VERIFY
  | .OP_RETURN => .error .OP_RETURN
  | .OP_TOALTSTACK => match m.stack with
    | [] => .error .INVALID_STACK_OPERATION
    | vch :: stack => .ok { m with stack, altstack := vch :: m.altstack }
  | .OP_FROMALTSTACK => match m.altstack with
    | [] => .error .INVALID_ALTSTACK_OPERATION
    | vch :: altstack => .ok { m with stack := vch :: m.stack, altstack }
  | .stackOp op => do
    let stack ← op.eval m.stack
    return { m with stack }
  | .OP_PICK fRoll => evalPick flags fRoll m
  | .OP_EQUAL fVerify => match m.stack with
    | vch2 :: vch1 :: stack => pushBool (vch1 == vch2) fVerify .EQUALVERIFY m stack
    | _ => .error .INVALID_STACK_OPERATION
  | .unary op => evalUnary flags op m
  | .binary op => evalBinary flags op m
  | .OP_WITHIN => evalWithin flags m
  | .hash op => match m.stack with
    | [] => .error .INVALID_STACK_OPERATION
    | vch :: stack => .ok { m with stack := op.eval env.crypto vch :: stack }
  | .OP_CODESEPARATOR => .ok { m with pbegincodehash := pc }
  | .OP_CHECKSIG fVerify => env.evalCheckSig flags fVerify m
  | .OP_CHECKMULTISIG fVerify => env.evalCheckMultiSig flags fVerify m
  | .OP_CHECKCOLDSTAKEVERIFY =>
    if env.checker.checkColdStake env.script then .ok m else .error .CHECKCOLDSTAKEVERIFY
  | .default => .error .BAD_OPCODE

/-- What is done with an operation that has been read and may stand where it does. -/
def execute (fExec : Bool) (opcode : UInt8) (vchPushValue : Valtype) (pc : CScript) (m : Machine) :
    Eval Machine :=
  if fExec && decide (opcode ≤ OP_PUSHDATA4) then do
    failIf (hasFlag flags SCRIPT_VERIFY_MINIMALDATA && !checkMinimalPush vchPushValue opcode)
      .MINIMALDATA
    return { m with stack := vchPushValue :: m.stack }
  else if fExec || (decide (0x63 ≤ opcode) && decide (opcode ≤ 0x68)) then
    env.evalOp flags fExec pc (.ofByte opcode) m
  else .ok m

/-- One pass of the loop of `EvalScript`. -/
def evalStep (opcode : UInt8) (vchPushValue : Valtype) (pc : CScript) (m : Machine) :
    Eval Machine := do
  let fExec := !m.vfExec.contains false
  failIf (decide (520 < vchPushValue.length)) .PUSH_SIZE
  let m := if OP_16 < opcode then { m with nOpCount := m.nOpCount + 1 } else m
  failIf (decide (OP_16 < opcode) && decide (201 < m.nOpCount)) .OP_COUNT
  failIf (disabledOpcodes.contains opcode) .DISABLED_OPCODE
  let m ← env.execute flags fExec opcode vchPushValue pc m
  failIf (decide (1000 < m.stack.length + m.altstack.length)) .STACK_SIZE
  return m

/-- The loop of `EvalScript`; every pass reads at least one byte. -/
def evalLoop : ℕ → CScript → Machine → Eval Machine
  | 0, _, m => .ok m
  | fuel + 1, pc, m =>
    if pc.isEmpty then .ok m
    else match getOp pc with
      | none => .error .BAD_OPCODE
      | some (opcode, vchPushValue, pc') => do
        let m ← env.evalStep flags opcode vchPushValue pc' m
        evalLoop fuel pc' m

lemma evalLoop_fuel {fuel : ℕ} {pc : CScript} (m : Machine) (h : pc.length ≤ fuel) :
    env.evalLoop flags fuel pc m = env.evalLoop flags pc.length pc m := by
  induction hn : pc.length using Nat.strong_induction_on generalizing fuel pc m with
  | _ n ih =>
    subst hn
    cases pc with
    | nil => cases fuel <;> rfl
    | cons b rest =>
      obtain ⟨fuel, rfl⟩ : ∃ k, fuel = k + 1 := ⟨fuel - 1, by simp at h; omega⟩
      rw [List.length_cons] at h ih ⊢
      unfold evalLoop
      split
      · rfl
      · cases hop : getOp (b :: rest) with
        | none => rfl
        | some r =>
          obtain ⟨opcode, vchPushValue, pc'⟩ := r
          have hlt := getOp_length hop
          rw [List.length_cons] at hlt
          dsimp only
          congr 1
          funext m'
          have h1 : env.evalLoop flags fuel pc' m' = env.evalLoop flags pc'.length pc' m' :=
            ih _ hlt m' (by omega) rfl
          have h2 : env.evalLoop flags rest.length pc' m' = env.evalLoop flags pc'.length pc' m' :=
            ih _ hlt m' (by omega) rfl
          rw [h1, h2]

end EvalEnv

/-- `EvalScript`: the stack, when it returns true. -/
def evalScript (stack : List Valtype) (script : CScript) (flags : UInt32) (crypto : ScriptCrypto)
    (checker : SignatureChecker) (sigversion : SigVersion) : Eval (List Valtype) := do
  failIf (decide (MAX_SCRIPT_SIZE < script.length)) .SCRIPT_SIZE
  let m ← EvalEnv.evalLoop ⟨crypto, checker, sigversion, script⟩ flags script.length script
    ⟨stack, [], [], 0, script⟩
  failIf (!m.vfExec.isEmpty) .UNBALANCED_CONDITIONAL
  return m.stack

/-! ### `VerifyScript` -/

section Verify

variable (crypto : ScriptCrypto) (flags : UInt32) (checker : SignatureChecker)

/-- The stack must end with something true on top. -/
def endsTrue (stack : List Valtype) : Eval Unit :=
  match stack with
  | [] => .error .EVAL_FALSE
  | vch :: _ => failIf (!castToBool vch) .EVAL_FALSE

/-- The additional validation of pay-to-script-hash; `stackCopy` is what the input left. -/
def verifyP2SH (scriptSig : CScript) (stackCopy : List Valtype) : Eval Unit := do
  failIf (!isPushOnly scriptSig) .SIG_PUSHONLY
  match stackCopy with
  | [] => .error .assertion
  | pubKeySerialized :: stackCopy =>
    let stackCopy ← evalScript stackCopy pubKeySerialized flags crypto checker .SIGVERSION_BASE
    endsTrue stackCopy

def verifyScript (scriptSig scriptPubKey : CScript) : Eval Unit := do
  failIf (hasFlag flags SCRIPT_VERIFY_SIGPUSHONLY && !isPushOnly scriptSig) .SIG_PUSHONLY
  let stackCopy ← evalScript [] scriptSig flags crypto checker .SIGVERSION_BASE
  let stack ← evalScript stackCopy scriptPubKey flags crypto checker .SIGVERSION_BASE
  endsTrue stack
  if hasFlag flags SCRIPT_VERIFY_P2SH && isPayToScriptHash scriptPubKey then
    verifyP2SH crypto flags checker scriptSig stackCopy
  else .ok ()

end Verify

end Script

end Agenor
