import Agenor.Interpreter
import Agenor.Lib.Wrap

/-!
`EvalScript` (`script/interpreter.cpp`) with every access to its stacks written out.

Elements are read with `at`, which throws out of range, and taken away with `popstack`, which throws
on an empty stack; `erase`, `insert` and `back` do not look at all. A handler around the loop turns
every exception into `SCRIPT_ERR_UNKNOWN_ERROR`, so an access that its guard does not cover would
not be seen from outside. Here an exception keeps what it is about. No access is out of range: the
only exceptions are those of `CScriptNum`, and the interpreter is the one whose opcodes match on the
shape of the stack.

As before the top of a stack comes first; `stacktop(-1)` is the first element. The guards of
`OP_PICK` and `OP_CHECKMULTISIG` compare the size as an `int`.
-/

namespace Agenor.Script.Access

open Lib.Fallible Lib.Wrap

/-- The exceptions that can leave an opcode. -/
inductive Thrown
  /-- `std::out_of_range`, and the accesses that a vector does not check. -/
  | outOfRange
  /-- `popstack() : stack empty`. -/
  | popEmpty
  /-- `scriptnum_error` for the element that was to be a number. -/
  | scriptnum (vch : Valtype) (nMaxNumSize : ℕ)
  deriving DecidableEq, Repr

/-- How the loop of `EvalScript` is left early. -/
inductive Stop
  | returned (serror : ScriptError)
  | thrown (what : Thrown)
  deriving DecidableEq, Repr

abbrev Run := Except Stop

/-- A function that returns false has set the error. -/
def call {α : Type} (x : Eval α) : Run α :=
  match x with
  | .ok a => .ok a
  | .error serror => .error (.returned serror)

/-! ### The stack -/

/-- `(int)stack.size()`. -/
def intSize (stack : List Valtype) : ℤ := wrap 32 stack.length

/-- `stacktop(i)`, with a negative number. -/
def stacktop (stack : List Valtype) (i : ℤ) : Run Valtype :=
  if 0 ≤ stack.length + i ∧ i < 0 then .ok (stack.getD (-i - 1).toNat [])
  else .error (.thrown .outOfRange)

def popstack : List Valtype → Run (List Valtype)
  | [] => .error (.thrown .popEmpty)
  | _ :: stack => .ok stack

/-- `stack.erase(stack.end() - first, stack.end() - last)`. -/
def erase (stack : List Valtype) (first last : ℤ) : Run (List Valtype) :=
  if 0 ≤ last ∧ last ≤ first ∧ first ≤ stack.length then
    .ok (stack.take last.toNat ++ stack.drop first.toNat)
  else .error (.thrown .outOfRange)

/-- `stack.insert(stack.end() - n, vch)`. -/
def insert (stack : List Valtype) (n : ℕ) (vch : Valtype) : Run (List Valtype) :=
  if n ≤ stack.length then .ok (stack.take n ++ vch :: stack.drop n)
  else .error (.thrown .outOfRange)

/-- `swap(stacktop(i), stacktop(j))`. -/
def swap (stack : List Valtype) (i j : ℤ) : Run (List Valtype) := do
  let x ← stacktop stack i
  let y ← stacktop stack j
  return (stack.set (-i - 1).toNat y).set (-j - 1).toNat x

/-- The guard of an opcode with `n` arguments. -/
def need (stack : List Valtype) (n : ℕ) : Run Unit :=
  failIf (decide (stack.length < n)) (.returned .INVALID_STACK_OPERATION)

/-- The constructor of `CScriptNum` from an element of the stack. -/
def scriptNum (vch : Valtype) (fRequireMinimal : Bool) (nMaxNumSize : ℕ) : Run ℤ := do
  failIf (decide (nMaxNumSize < vch.length)) (.thrown (.scriptnum vch nMaxNumSize))
  failIf (fRequireMinimal && !isMinimal vch) (.thrown (.scriptnum vch nMaxNumSize))
  return setVch vch

/-! ### The opcodes -/

/-- The opcodes that only move elements of the stack. -/
def stackOp : StackOp → List Valtype → Run (List Valtype)
  | .OP_2DROP, stack => do
    need stack 2
    let stack ← popstack stack
    popstack stack
  | .OP_2DUP, stack => do
    need stack 2
    let vch1 ← stacktop stack (-2)
    let vch2 ← stacktop stack (-1)
    return vch2 :: vch1 :: stack
  | .OP_3DUP, stack => do
    need stack 3
    let vch1 ← stacktop stack (-3)
    let vch2 ← stacktop stack (-2)
    let vch3 ← stacktop stack (-1)
    return vch3 :: vch2 :: vch1 :: stack
  | .OP_2OVER, stack => do
    need stack 4
    let vch1 ← stacktop stack (-4)
    let vch2 ← stacktop stack (-3)
    return vch2 :: vch1 :: stack
  | .OP_2ROT, stack => do
    need stack 6
    let vch1 ← stacktop stack (-6)
    let vch2 ← stacktop stack (-5)
    let stack ← erase stack 6 4
    return vch2 :: vch1 :: stack
  | .OP_2SWAP, stack => do
    need stack 4
    let stack ← swap stack (-4) (-2)
    swap stack (-3) (-1)
  | .OP_IFDUP, stack => do
    need stack 1
    let vch ← stacktop stack (-1)
    return if castToBool vch then vch :: stack else stack
  | .OP_DEPTH, stack => .ok (serialize stack.length :: stack)
  | .OP_DROP, stack => do
    need stack 1
    popstack stack
  | .OP_DUP, stack => do
    need stack 1
    let vch ← stacktop stack (-1)
    return vch :: stack
  | .OP_NIP, stack => do
    need stack 2
    erase stack 2 1
  | .OP_OVER, stack => do
    need stack 2
    let vch ← stacktop stack (-2)
    return vch :: stack
  | .OP_ROT, stack => do
    need stack 3
    let stack ← swap stack (-3) (-2)
    swap stack (-2) (-1)
  | .OP_SWAP, stack => do
    need stack 2
    swap stack (-2) (-1)
  | .OP_TUCK, stack => do
    need stack 2
    let vch ← stacktop stack (-1)
    insert stack 2 vch
  | .OP_SIZE, stack => do
    need stack 1
    let vch ← stacktop stack (-1)
    return serialize vch.length :: stack

/-- The end of the opcodes that push a truth value, and pop it again in the variant that verifies
it. -/
def pushBool (fSuccess fVerify : Bool) (serror : ScriptError) (stack : List Valtype) :
    Run (List Valtype) :=
  let stack := ofBool fSuccess :: stack
  if fVerify then if fSuccess then popstack stack else .error (.returned serror)
  else .ok stack

/-- Pops `n` elements. -/
def popMany : ℕ → List Valtype → Run (List Valtype)
  | 0, stack => .ok stack
  | n + 1, stack => do
    let stack ← popstack stack
    popMany n stack

section

variable (env : EvalEnv) (flags : UInt32)

/-- `CScriptNum(vch, fRequireMinimal)`. -/
def numArg (vch : Valtype) : Run ℤ :=
  scriptNum vch (hasFlag flags SCRIPT_VERIFY_MINIMALDATA) nDefaultMaxNumSize

/-- `OP_CHECKLOCKTIMEVERIFY`. -/
def checkLockTimeVerify (m : Machine) : Run Machine :=
  if !hasFlag flags SCRIPT_VERIFY_CHECKLOCKTIMEVERIFY then do
    failIf (hasFlag flags SCRIPT_VERIFY_DISCOURAGE_UPGRADABLE_NOPS)
      (.returned .DISCOURAGE_UPGRADABLE_NOPS)
    return m
  else do
    need m.stack 1
    let vch ← stacktop m.stack (-1)
    let nLockTime ← scriptNum vch (hasFlag flags SCRIPT_VERIFY_MINIMALDATA) 5
    failIf (decide (nLockTime < 0)) (.returned .NEGATIVE_LOCKTIME)
    failIf (!env.checker.checkLockTime nLockTime) (.returned .UNSATISFIED_LOCKTIME)
    return m

/-- `OP_IF` and `OP_NOTIF`. -/
def evalIf (fNot fExec : Bool) (m : Machine) : Run Machine :=
  if fExec then do
    failIf (decide (m.stack.length < 1)) (.returned .UNBALANCED_CONDITIONAL)
    let vch ← stacktop m.stack (-1)
    let stack ← popstack m.stack
    return { m with
      stack, vfExec := (if fNot then !castToBool vch else castToBool vch) :: m.vfExec }
  else .ok { m with vfExec := false :: m.vfExec }

/-- `vfExec.back() = !vfExec.back()`. -/
def flipBack : List Bool → Run (List Bool)
  | [] => .error (.thrown .outOfRange)
  | f :: vfExec => .ok ((!f) :: vfExec)

/-- `vfExec.pop_back()`. -/
def popBack : List Bool → Run (List Bool)
  | [] => .error (.thrown .outOfRange)
  | _ :: vfExec => .ok vfExec

/-- `OP_PICK` and `OP_ROLL`. -/
def evalPick (fRoll : Bool) (m : Machine) : Run Machine := do
  need m.stack 2
  let vch ← stacktop m.stack (-1)
  let bn ← numArg flags vch
  let n := getint bn
  let stack ← popstack m.stack
  failIf (decide (n < 0) || decide (intSize stack ≤ n)) (.returned .INVALID_STACK_OPERATION)
  let vch ← stacktop stack (-n - 1)
  let stack ← (if fRoll then erase stack (n + 1) n else .ok stack)
  return { m with stack := vch :: stack }

/-- `OP_EQUAL` and `OP_EQUALVERIFY`. -/
def evalEqual (fVerify : Bool) (m : Machine) : Run Machine := do
  need m.stack 2
  let vch1 ← stacktop m.stack (-2)
  let vch2 ← stacktop m.stack (-1)
  let stack ← popMany 2 m.stack
  let stack ← pushBool (vch1 == vch2) fVerify .EQUALVERIFY stack
  return { m with stack }

/-- The numeric opcodes of one argument. -/
def evalUnary (op : UnaryOp) (m : Machine) : Run Machine := do
  need m.stack 1
  let vch ← stacktop m.stack (-1)
  let bn ← numArg flags vch
  let stack ← popstack m.stack
  return { m with stack := serialize (op.eval bn) :: stack }

/-- The numeric opcodes of two arguments. -/
def evalBinary (op : BinaryOp) (m : Machine) : Run Machine := do
  need m.stack 2
  let vch1 ← stacktop m.stack (-2)
  let bn1 ← numArg flags vch1
  let vch2 ← stacktop m.stack (-1)
  let bn2 ← numArg flags vch2
  let stack ← popMany 2 m.stack
  let stack := serialize (op.eval bn1 bn2) :: stack
  if op = .OP_NUMEQUALVERIFY then
    let vch ← stacktop stack (-1)
    failIf (!castToBool vch) (.returned .NUMEQUALVERIFY)
    let stack ← popstack stack
    return { m with stack }
  else return { m with stack }

/-- `OP_WITHIN`. -/
def evalWithin (m : Machine) : Run Machine := do
  need m.stack 3
  let vch1 ← stacktop m.stack (-3)
  let bn1 ← numArg flags vch1
  let vch2 ← stacktop m.stack (-2)
  let bn2 ← numArg flags vch2
  let vch3 ← stacktop m.stack (-1)
  let bn3 ← numArg flags vch3
  let stack ← popMany 3 m.stack
  return { m with stack := ofBool (decide (bn2 ≤ bn1) && decide (bn1 < bn3)) :: stack }

/-- `OP_CHECKSIG` and `OP_CHECKSIGVERIFY`. -/
def evalCheckSig (fVerify : Bool) (m : Machine) : Run Machine := do
  need m.stack 2
  let vchSig ← stacktop m.stack (-2)
  let vchPubKey ← stacktop m.stack (-1)
  let scriptCode := findAndDelete m.pbegincodehash (pushData vchSig)
  call (checkSignatureEncoding env.crypto flags vchSig)
  call (checkPubKeyEncoding flags vchPubKey)
  let fSuccess := env.checker.checkSig vchSig vchPubKey scriptCode env.sigversion
  let stack ← popMany 2 m.stack
  let stack ← pushBool fSuccess fVerify .CHECKSIGVERIFY stack
  return { m with stack }

/-! ### `OP_CHECKMULTISIG` -/

/-- The signatures are dropped from the script, from the one at `isig` on. -/
def dropSigs (stack : List Valtype) (isig : ℤ) : ℕ → CScript → Run CScript
  | 0, scriptCode => .ok scriptCode
  | k + 1, scriptCode => do
    let vchSig ← stacktop stack (-isig)
    dropSigs stack (isig + 1) k (findAndDelete scriptCode (pushData vchSig))

/-- The loop over the signatures and the keys. A pass takes a key, and there are never more
signatures than keys, so that the number of keys is fuel enough. -/
def multiSigLoop (stack : List Valtype) (scriptCode : CScript) :
    ℕ → (nKeysCount nSigsCount ikey isig : ℤ) → Run Bool
  | fuel, nKeysCount, nSigsCount, ikey, isig =>
    if nSigsCount ≤ 0 then .ok true
    else match fuel with
      | 0 => .error (.thrown .outOfRange)
      | fuel + 1 => do
        let vchSig ← stacktop stack (-isig)
        let vchPubKey ← stacktop stack (-ikey)
        call (checkSignatureEncoding env.crypto flags vchSig)
        call (checkPubKeyEncoding flags vchPubKey)
        let fOk := env.checker.checkSig vchSig vchPubKey scriptCode env.sigversion
        let isig := if fOk then isig + 1 else isig
        let nSigsCount := if fOk then nSigsCount - 1 else nSigsCount
        if nKeysCount - 1 < nSigsCount then .ok false
        else multiSigLoop stack scriptCode fuel (nKeysCount - 1) nSigsCount (ikey + 1) isig

/-- `if ((int)stack.size() < i)`. -/
def needInt (stack : List Valtype) (i : ℤ) : Run Unit :=
  failIf (decide (intSize stack < i)) (.returned .INVALID_STACK_OPERATION)

/-- `OP_CHECKMULTISIG` and `OP_CHECKMULTISIGVERIFY`. -/
def evalCheckMultiSig (fVerify : Bool) (m : Machine) : Run Machine := do
  needInt m.stack 1
  let vch ← stacktop m.stack (-1)
  let bn ← numArg flags vch
  let nKeysCount := getint bn
  failIf (decide (nKeysCount < 0) || decide (20 < nKeysCount)) (.returned .PUBKEY_COUNT)
  let m := { m with nOpCount := m.nOpCount + nKeysCount.toNat }
  failIf (decide (201 < m.nOpCount)) (.returned .OP_COUNT)
  let ikey := 2
  let i := 2 + nKeysCount
  needInt m.stack i
  let vch ← stacktop m.stack (-i)
  let bn ← numArg flags vch
  let nSigsCount := getint bn
  failIf (decide (nSigsCount < 0) || decide (nKeysCount < nSigsCount)) (.returned .SIG_COUNT)
  let isig := i + 1
  let i := isig + nSigsCount
  needInt m.stack i
  let scriptCode ← dropSigs m.stack isig nSigsCount.toNat m.pbegincodehash
  let fSuccess ← multiSigLoop env flags m.stack scriptCode nKeysCount.toNat nKeysCount nSigsCount
    ikey isig
  let stack ← popMany (i - 1).toNat m.stack
  need stack 1
  let dummy ← stacktop stack (-1)
  failIf (hasFlag flags SCRIPT_VERIFY_NULLDUMMY && !dummy.isEmpty) (.returned .SIG_NULLDUMMY)
  let stack ← popstack stack
  let stack ← pushBool fSuccess fVerify .CHECKMULTISIGVERIFY stack
  return { m with stack }

/-! ### `EvalScript` -/

/-- The `switch` of `EvalScript`; `pc` is where the next operation starts. -/
def evalOp (fExec : Bool) (pc : CScript) (op : Opcode) (m : Machine) : Run Machine :=
  match op with
  | .smallInt n => .ok { m with stack := serialize n :: m.stack }
  | .OP_NOP => .ok m
  | .OP_CHECKLOCKTIMEVERIFY => checkLockTimeVerify env flags m
  | .upgradableNop => do
    failIf (hasFlag flags SCRIPT_VERIFY_DISCOURAGE_UPGRADABLE_NOPS)
      (.returned .DISCOURAGE_UPGRADABLE_NOPS)
    return m
  | .OP_IF fNot => evalIf fNot fExec m
  | .OP_ELSE => do
    failIf m.vfExec.isEmpty (.returned .UNBALANCED_CONDITIONAL)
    let vfExec ← flipBack m.vfExec
    return { m with vfExec }
  | .OP_ENDIF => do
    failIf m.vfExec.isEmpty (.returned .UNBALANCED_CONDITIONAL)
    let vfExec ← popBack m.vfExec
    return { m with vfExec }
  | .OP_VERIFY => do
    need m.stack 1
    let vch ← stacktop m.stack (-1)
    failIf (!castToBool vch) (.returned .VERIFY)
    let stack ← popstack m.stack
    return { m with stack }
  | .OP_RETURN => .error (.returned .OP_RETURN)
  | .OP_TOALTSTACK => do
    need m.stack 1
    let vch ← stacktop m.stack (-1)
    let stack ← popstack m.stack
    return { m with stack, altstack := vch :: m.altstack }
  | .OP_FROMALTSTACK => do
    failIf (decide (m.altstack.length < 1)) (.returned .INVALID_ALTSTACK_OPERATION)
    let vch ← stacktop m.altstack (-1)
    let altstack ← popstack m.altstack
    return { m with stack := vch :: m.stack, altstack }
  | .stackOp op => do
    let stack ← stackOp op m.stack
    return { m with stack }
  | .OP_PICK fRoll => evalPick flags fRoll m
  | .OP_EQUAL fVerify => evalEqual fVerify m
  | .unary op => evalUnary flags op m
  | .binary op => evalBinary flags op m
  | .OP_WITHIN => evalWithin flags m
  | .hash op => do
    need m.stack 1
    let vch ← stacktop m.stack (-1)
    let stack ← popstack m.stack
    return { m with stack := op.eval env.crypto vch :: stack }
  | .OP_CODESEPARATOR => .ok { m with pbegincodehash := pc }
  | .OP_CHECKSIG fVerify => evalCheckSig env flags fVerify m
  | .OP_CHECKMULTISIG fVerify => evalCheckMultiSig env flags fVerify m
  | .OP_CHECKCOLDSTAKEVERIFY =>
    if env.checker.checkColdStake env.script then .ok m
    else .error (.returned .CHECKCOLDSTAKEVERIFY)
  | .default => .error (.returned .BAD_OPCODE)

/-- What is done with an operation that has been read and may stand where it does. -/
def execute (fExec : Bool) (opcode : UInt8) (vchPushValue : Valtype) (pc : CScript) (m : Machine) :
    Run Machine :=
  if fExec && decide (opcode ≤ OP_PUSHDATA4) then do
    failIf (hasFlag flags SCRIPT_VERIFY_MINIMALDATA && !checkMinimalPush vchPushValue opcode)
      (.returned .MINIMALDATA)
    return { m with stack := vchPushValue :: m.stack }
  else if fExec || (decide (0x63 ≤ opcode) && decide (opcode ≤ 0x68)) then
    evalOp env flags fExec pc (.ofByte opcode) m
  else .ok m

def MAX_SCRIPT_ELEMENT_SIZE : ℕ := 520

/-- One pass of the loop of `EvalScript`. -/
def evalStep (opcode : UInt8) (vchPushValue : Valtype) (pc : CScript) (m : Machine) :
    Run Machine := do
  let fExec := !m.vfExec.contains false
  failIf (decide (MAX_SCRIPT_ELEMENT_SIZE < vchPushValue.length)) (.returned .PUSH_SIZE)
  let m := if OP_16 < opcode then { m with nOpCount := m.nOpCount + 1 } else m
  failIf (decide (OP_16 < opcode) && decide (201 < m.nOpCount)) (.returned .OP_COUNT)
  failIf (disabledOpcodes.contains opcode) (.returned .DISABLED_OPCODE)
  let m ← execute env flags fExec opcode vchPushValue pc m
  failIf (decide (1000 < m.stack.length + m.altstack.length)) (.returned .STACK_SIZE)
  return m

/-- The loop of `EvalScript`; every pass reads at least one byte. -/
def evalLoop : ℕ → CScript → Machine → Run Machine
  | 0, _, m => .ok m
  | fuel + 1, pc, m =>
    if pc.isEmpty then .ok m
    else match getOp pc with
      | none => .error (.returned .BAD_OPCODE)
      | some (opcode, vchPushValue, pc') => do
        let m ← evalStep env flags opcode vchPushValue pc' m
        evalLoop fuel pc' m

end

/-- What `EvalScript` begins with. -/
def start (stack : List Valtype) (script : CScript) : Machine := ⟨stack, [], [], 0, script⟩

/-- `EvalScript`: the loop inside its handler. -/
def evalScript (stack : List Valtype) (script : CScript) (flags : UInt32) (crypto : ScriptCrypto)
    (checker : SignatureChecker) (sigversion : SigVersion) : Eval (List Valtype) := do
  failIf (decide (MAX_SCRIPT_SIZE < script.length)) .SCRIPT_SIZE
  match evalLoop ⟨crypto, checker, sigversion, script⟩ flags script.length script
      (start stack script) with
  | .error (.returned serror) => .error serror
  | .error (.thrown _) => .error .UNKNOWN_ERROR
  | .ok m =>
    failIf (!m.vfExec.isEmpty) .UNBALANCED_CONDITIONAL
    return m.stack

/-! ### What is in range -/

section

variable {stack rest : List Valtype} {x1 x2 x3 x4 x5 x6 vch : Valtype} {n : ℕ}

@[simp] lemma ok_bind {α β : Type} (a : α) (k : α → Run β) : ((.ok a : Run α) >>= k) = k a := rfl

@[simp] lemma eval_ok_bind {α β : Type} (a : α) (k : α → Eval β) :
    ((.ok a : Eval α) >>= k) = k a := rfl

lemma need_of_le (h : n ≤ stack.length) : need stack n = .ok () := by
  simp [need, failIf, h]

lemma stacktop_eq {i : ℤ} (h : n < stack.length) (hi : i = -(n : ℤ) - 1) :
    stacktop stack i = .ok stack[n] := by
  rw [stacktop, if_pos (by omega), show (-i - 1).toNat = n by omega,
    List.getD_eq_getElem?_getD, List.getElem?_eq_getElem h, Option.getD_some]

@[simp] lemma stacktop_one : stacktop (x1 :: rest) (-1) = .ok x1 :=
  stacktop_eq (n := 0) (by simp) (by simp)

@[simp] lemma stacktop_two : stacktop (x2 :: x1 :: rest) (-2) = .ok x1 :=
  stacktop_eq (n := 1) (by simp) (by simp)

@[simp] lemma stacktop_three : stacktop (x3 :: x2 :: x1 :: rest) (-3) = .ok x1 :=
  stacktop_eq (n := 2) (by simp) (by simp)

@[simp] lemma stacktop_four : stacktop (x4 :: x3 :: x2 :: x1 :: rest) (-4) = .ok x1 :=
  stacktop_eq (n := 3) (by simp) (by simp)

@[simp] lemma stacktop_five : stacktop (x5 :: x4 :: x3 :: x2 :: x1 :: rest) (-5) = .ok x1 :=
  stacktop_eq (n := 4) (by simp) (by simp)

@[simp] lemma stacktop_six :
    stacktop (x6 :: x5 :: x4 :: x3 :: x2 :: x1 :: rest) (-6) = .ok x1 :=
  stacktop_eq (n := 5) (by simp) (by simp)

@[simp] lemma popstack_cons : popstack (x1 :: rest) = .ok rest := rfl

lemma popMany_eq : ∀ {n : ℕ} {stack : List Valtype}, n ≤ stack.length →
    popMany n stack = .ok (stack.drop n)
  | 0, _, _ => rfl
  | n + 1, _ :: _, h => popMany_eq (n := n) (Nat.le_of_succ_le_succ h)

lemma erase_eq {first last : ℕ} (hle : last ≤ first) (h : first ≤ stack.length) :
    erase stack first last = .ok (stack.take last ++ stack.drop first) := by
  rw [erase, if_pos (by omega), Int.toNat_natCast, Int.toNat_natCast]

end

/-! ### The interpreter that matches on the stack -/

/-- The opcode does what the interpreter says. It may only throw over a number, where the
interpreter has an unknown error; and where the size of the stack is no `int`, it may fail. -/
inductive Follows (small : Prop) (flags : UInt32) {α : Type} : Run α → Eval α → Prop
  | ok (a : α) : Follows small flags (.ok a) (.ok a)
  | returned (serror : ScriptError) (h : serror ≠ .UNKNOWN_ERROR) :
    Follows small flags (.error (.returned serror)) (.error serror)
  | scriptnum (vch : Valtype) (nMaxNumSize : ℕ)
    (h : nMaxNumSize < vch.length ∨
      hasFlag flags SCRIPT_VERIFY_MINIMALDATA = true ∧ isMinimal vch = false) :
    Follows small flags (.error (.thrown (.scriptnum vch nMaxNumSize))) (.error .UNKNOWN_ERROR)
  | large (y : Eval α) (h : ¬ small) :
    Follows small flags (.error (.returned .INVALID_STACK_OPERATION)) y

section

variable {small : Prop} {flags : UInt32} {α β : Type} {env : EvalEnv} {m : Machine}

lemma Follows.bind {x : Run α} {y : Eval α} {f : α → Run β} {g : α → Eval β}
    (h : Follows small flags x y) (hk : ∀ a, x = .ok a → Follows small flags (f a) (g a)) :
    Follows small flags (x >>= f) (y >>= g) := by
  cases h with
  | ok a => exact hk a rfl
  | returned serror h => exact .returned serror h
  | scriptnum vch nMaxNumSize h => exact .scriptnum vch nMaxNumSize h
  | large y h => exact .large _ h

lemma follows_failIf {c : Bool} {serror : ScriptError} (h : serror ≠ .UNKNOWN_ERROR) :
    Follows small flags (failIf c (.returned serror)) (failIf c serror) := by
  cases c
  · exact .ok ()
  · exact .returned serror h

lemma follows_scriptNum (vch : Valtype) (nMaxNumSize : ℕ) :
    Follows small flags
      (scriptNum vch (hasFlag flags SCRIPT_VERIFY_MINIMALDATA) nMaxNumSize)
      (Script.scriptNum vch (hasFlag flags SCRIPT_VERIFY_MINIMALDATA) nMaxNumSize) := by
  unfold scriptNum Script.scriptNum
  by_cases hlen : nMaxNumSize < vch.length
  · simp only [failIf, hlen, decide_true, if_true]
    exact .scriptnum vch nMaxNumSize (.inl hlen)
  · simp only [failIf, hlen, decide_false, Bool.false_eq_true, if_false]
    rcases hmin : hasFlag flags SCRIPT_VERIFY_MINIMALDATA && !isMinimal vch with _ | _
    · exact .ok (setVch vch)
    · refine .scriptnum vch nMaxNumSize (.inr ?_)
      simpa using hmin

lemma follows_numArg (vch : Valtype) :
    Follows small flags (numArg flags vch) (EvalEnv.numArg flags vch) :=
  follows_scriptNum vch nDefaultMaxNumSize

lemma stackOp_eq (op : StackOp) (stack : List Valtype) :
    stackOp op stack = call (op.eval stack) := by
  cases op with
  | OP_DEPTH => rfl
  | OP_DROP | OP_DUP | OP_IFDUP | OP_SIZE =>
    match stack with
    | [] => rfl
    | x1 :: rest => simp [stackOp, StackOp.eval, need_of_le, call, pure, Except.pure]
  | OP_2DROP | OP_2DUP | OP_OVER | OP_SWAP | OP_TUCK =>
    match stack with
    | [] => rfl
    | [x1] => rfl
    | x2 :: x1 :: rest =>
      simp [stackOp, StackOp.eval, need_of_le, call, pure, Except.pure, swap, insert]
  | OP_NIP =>
    match stack with
    | [] => rfl
    | [x1] => rfl
    | x2 :: x1 :: rest =>
      have hlen : (2 : ℤ) ≤ rest.length + 1 + 1 := by omega
      simp [stackOp, StackOp.eval, need_of_le, call, erase, hlen]
  | OP_3DUP | OP_ROT =>
    match stack with
    | [] => rfl
    | [x1] => rfl
    | [x2, x1] => rfl
    | x3 :: x2 :: x1 :: rest =>
      simp [stackOp, StackOp.eval, need_of_le, call, pure, Except.pure, swap]
  | OP_2OVER | OP_2SWAP =>
    match stack with
    | [] => rfl
    | [x1] => rfl
    | [x2, x1] => rfl
    | [x3, x2, x1] => rfl
    | x4 :: x3 :: x2 :: x1 :: rest =>
      simp [stackOp, StackOp.eval, need_of_le, call, pure, Except.pure, swap]
  | OP_2ROT =>
    match stack with
    | [] => rfl
    | [x1] => rfl
    | [x2, x1] => rfl
    | [x3, x2, x1] => rfl
    | [x4, x3, x2, x1] => rfl
    | [x5, x4, x3, x2, x1] => rfl
    | x6 :: x5 :: x4 :: x3 :: x2 :: x1 :: rest =>
      have hlen : (6 : ℤ) ≤ rest.length + 1 + 1 + 1 + 1 + 1 + 1 := by omega
      simp [stackOp, StackOp.eval, need_of_le, call, pure, Except.pure, erase, hlen]

lemma pushBool_eq (fSuccess fVerify : Bool) (serror : ScriptError) (m : Machine)
    (stack : List Valtype) :
    (pushBool fSuccess fVerify serror stack >>= fun stack => pure { m with stack }) =
      call (EvalEnv.pushBool fSuccess fVerify serror m stack) := by
  cases fVerify <;> cases fSuccess <;> rfl

lemma follows_call {y : Eval α} (h : y ≠ .error .UNKNOWN_ERROR) :
    Follows small flags (call y) y := by
  cases y with
  | ok a => exact .ok a
  | error serror =>
    refine .returned serror ?_
    rintro rfl
    exact h rfl

lemma follows_pushBool {fSuccess fVerify : Bool} {serror : ScriptError} (m : Machine)
    (stack : List Valtype) (h : serror ≠ .UNKNOWN_ERROR) :
    Follows small flags
      (pushBool fSuccess fVerify serror stack >>= fun stack => pure { m with stack })
      (EvalEnv.pushBool fSuccess fVerify serror m stack) := by
  rw [pushBool_eq]
  refine follows_call ?_
  cases fVerify <;> cases fSuccess <;>
    simp [EvalEnv.pushBool, failIf, bind, Except.bind, pure, Except.pure, h]

/-! ### The opcodes of one to three arguments -/

lemma follows_checkLockTimeVerify (m : Machine) :
    Follows small flags (checkLockTimeVerify env flags m) (env.checkLockTimeVerify flags m) := by
  unfold checkLockTimeVerify EvalEnv.checkLockTimeVerify
  split
  · exact (follows_failIf (by decide)).bind fun _ _ => .ok m
  · match hs : m.stack with
    | [] => exact .returned _ (by decide)
    | vch :: rest =>
      rw [need_of_le (by simp), ok_bind, stacktop_one, ok_bind]
      exact (follows_scriptNum vch 5).bind fun nLockTime _ =>
        (follows_failIf (by decide)).bind fun _ _ =>
          (follows_failIf (by decide)).bind fun _ _ => .ok m

lemma follows_evalIf (fNot fExec : Bool) (m : Machine) :
    Follows small flags (evalIf fNot fExec m) (EvalEnv.evalIf fNot fExec m) := by
  unfold evalIf EvalEnv.evalIf
  cases fExec with
  | false => exact .ok _
  | true =>
    match hs : m.stack with
    | [] => exact .returned _ (by decide)
    | vch :: rest =>
      rw [stacktop_one]
      exact .ok _

lemma follows_evalEqual (fVerify : Bool) (m : Machine) (pc : CScript) (fExec : Bool) :
    Follows small flags (evalEqual fVerify m)
      (env.evalOp flags fExec pc (.OP_EQUAL fVerify) m) := by
  unfold evalEqual EvalEnv.evalOp
  match hs : m.stack with
  | [] => exact .returned _ (by decide)
  | [x1] => exact .returned _ (by decide)
  | vch2 :: vch1 :: rest =>
    rw [need_of_le (by simp), ok_bind, stacktop_two, ok_bind, stacktop_one, ok_bind]
    exact follows_pushBool m rest (by decide)

lemma follows_evalUnary (op : UnaryOp) (m : Machine) :
    Follows small flags (evalUnary flags op m) (EvalEnv.evalUnary flags op m) := by
  unfold evalUnary EvalEnv.evalUnary
  match hs : m.stack with
  | [] => exact .returned _ (by decide)
  | vch :: rest =>
    rw [need_of_le (by simp), ok_bind, stacktop_one, ok_bind]
    exact (follows_numArg vch).bind fun bn _ => .ok _

lemma follows_evalBinary (op : BinaryOp) (m : Machine) :
    Follows small flags (evalBinary flags op m) (EvalEnv.evalBinary flags op m) := by
  unfold evalBinary EvalEnv.evalBinary
  match hs : m.stack with
  | [] => exact .returned _ (by decide)
  | [x1] => exact .returned _ (by decide)
  | vch2 :: vch1 :: rest =>
    rw [need_of_le (by simp), ok_bind, stacktop_two, ok_bind]
    refine (follows_numArg vch1).bind fun bn1 _ => ?_
    rw [stacktop_one, ok_bind]
    refine (follows_numArg vch2).bind fun bn2 _ => ?_
    rw [popMany_eq (by simp), ok_bind]
    dsimp only
    split
    · rw [stacktop_one]
      exact (follows_failIf (by decide)).bind fun _ _ => .ok _
    · exact .ok _

lemma follows_evalWithin (m : Machine) :
    Follows small flags (evalWithin flags m) (EvalEnv.evalWithin flags m) := by
  unfold evalWithin EvalEnv.evalWithin
  match hs : m.stack with
  | [] => exact .returned _ (by decide)
  | [x1] => exact .returned _ (by decide)
  | [x2, x1] => exact .returned _ (by decide)
  | vch3 :: vch2 :: vch1 :: rest =>
    rw [need_of_le (by simp), ok_bind, stacktop_three, ok_bind]
    refine (follows_numArg vch1).bind fun bn1 _ => ?_
    rw [stacktop_two, ok_bind]
    refine (follows_numArg vch2).bind fun bn2 _ => ?_
    rw [stacktop_one, ok_bind]
    exact (follows_numArg vch3).bind fun bn3 _ => .ok _

/-! ### Guards with the size as an `int` -/

lemma intSize_le (stack : List Valtype) : intSize stack ≤ stack.length := by
  unfold intSize wrap Int.bmod
  norm_num
  split <;> omega

lemma intSize_eq {stack : List Valtype} (h : stack.length < 2 ^ 31) :
    intSize stack = stack.length := by
  unfold intSize wrap
  apply Int.bmod_eq_of_le
  · norm_num
  · norm_num
    omega

lemma follows_needInt {stack : List Valtype} {i : ℤ} {f : Unit → Run α} {g : Eval α}
    (hsmall : small → stack.length < 2 ^ 31)
    (hlt : (stack.length : ℤ) < i → g = .error .INVALID_STACK_OPERATION)
    (hle : i ≤ stack.length → Follows small flags (f ()) g) :
    Follows small flags (needInt stack i >>= f) g := by
  have hint := intSize_le stack
  by_cases h : intSize stack < i
  · rw [needInt, decide_eq_true h]
    by_cases hlen : (stack.length : ℤ) < i
    · rw [hlt hlen]
      exact .returned _ (by decide)
    · refine .large _ fun hs => hlen ?_
      rwa [intSize_eq (hsmall hs)] at h
  · rw [needInt, decide_eq_false h]
    exact hle (by omega)

lemma follows_evalPick (fRoll : Bool) (m : Machine) (hsmall : small → m.stack.length < 2 ^ 31) :
    Follows small flags (evalPick flags fRoll m) (EvalEnv.evalPick flags fRoll m) := by
  unfold evalPick EvalEnv.evalPick
  match hs : m.stack with
  | [] => exact .returned _ (by decide)
  | [x1] => exact .returned _ (by decide)
  | vch :: x :: rest =>
    rw [hs] at hsmall
    rw [need_of_le (by simp), ok_bind, stacktop_one, ok_bind]
    refine (follows_numArg vch).bind fun bn _ => ?_
    rw [popstack_cons, ok_bind]
    dsimp only
    have hint := intSize_le (x :: rest)
    by_cases hguard : getint bn < 0 ∨ intSize (x :: rest) ≤ getint bn
    · rw [show (decide (getint bn < 0) || decide (intSize (x :: rest) ≤ getint bn)) = true by
        simpa using hguard]
      by_cases hlen : getint bn < 0 ∨ ((x :: rest).length : ℤ) ≤ getint bn
      · rw [show (decide (getint bn < 0) || decide (((x :: rest).length : ℤ) ≤ getint bn)) = true by
          simpa using hlen]
        exact .returned _ (by decide)
      · refine .large _ fun hsm => hlen ?_
        have hlt := hsmall hsm
        rw [List.length_cons] at hlt
        rwa [intSize_eq (by omega)] at hguard
    · rw [not_or, not_lt, not_le] at hguard
      obtain ⟨hpos, hlt⟩ := hguard
      obtain ⟨n, hn⟩ := Int.eq_ofNat_of_zero_le hpos
      rw [hn] at hlt ⊢
      have hin : n < (x :: rest).length := by omega
      have hlow : (decide ((n : ℤ) < 0) || decide (intSize (x :: rest) ≤ (n : ℤ))) = false := by
        simpa using hlt
      have hhigh : (decide ((n : ℤ) < 0) || decide (((x :: rest).length : ℤ) ≤ (n : ℤ))) =
          false := by
        simp only [Bool.or_eq_false_iff, decide_eq_false_iff_not]
        omega
      have herase : erase (x :: rest) ((n : ℤ) + 1) n = .ok ((x :: rest).eraseIdx n) := by
        rw [List.eraseIdx_eq_take_drop_succ]
        exact erase_eq (Nat.le_succ n) hin
      rw [hlow, hhigh, stacktop_eq hin rfl, Int.toNat_natCast, List.getD_eq_getElem?_getD,
        List.getElem?_eq_getElem hin]
      cases fRoll with
      | false => exact .ok _
      | true =>
        rw [if_pos rfl, if_pos rfl, herase]
        exact .ok _

/-! ### The opcodes that check signatures -/

lemma checkSignatureEncoding_ne (vchSig : Valtype) :
    checkSignatureEncoding env.crypto flags vchSig ≠ .error .UNKNOWN_ERROR := by
  unfold checkSignatureEncoding isLowDERSignature
  split
  · exact nofun
  · intro herr
    rcases bind_eq_error.mp herr with herr | ⟨_, -, herr⟩
    · exact absurd (failIf_eq_error.mp herr).2 (by decide)
    · rcases bind_eq_error.mp herr with herr | ⟨_, -, herr⟩
      · split at herr
        · rcases bind_eq_error.mp herr with herr | ⟨_, -, herr⟩
          · exact absurd (failIf_eq_error.mp herr).2 (by decide)
          · exact absurd (failIf_eq_error.mp herr).2 (by decide)
        · cases herr
      · exact absurd (failIf_eq_error.mp herr).2 (by decide)

lemma follows_encodings {vchSig vchPubKey : Valtype} {f : Run β} {g : Eval β}
    (h : Follows small flags f g) :
    Follows small flags
      (do
        call (checkSignatureEncoding env.crypto flags vchSig)
        call (checkPubKeyEncoding flags vchPubKey)
        f)
      (do
        checkSignatureEncoding env.crypto flags vchSig
        checkPubKeyEncoding flags vchPubKey
        g) := by
  refine (follows_call (checkSignatureEncoding_ne vchSig)).bind fun _ _ => ?_
  refine (follows_call ?_).bind fun _ _ => h
  intro herr
  rw [checkPubKeyEncoding, failIf_eq_error] at herr
  exact absurd herr.2 (by decide)

lemma follows_evalCheckSig (fVerify : Bool) (m : Machine) :
    Follows small flags (evalCheckSig env flags fVerify m) (env.evalCheckSig flags fVerify m) := by
  unfold evalCheckSig EvalEnv.evalCheckSig
  match hs : m.stack with
  | [] => exact .returned _ (by decide)
  | [x1] => exact .returned _ (by decide)
  | vchPubKey :: vchSig :: rest =>
    rw [need_of_le (by simp), ok_bind, stacktop_two, ok_bind, stacktop_one, ok_bind]
    refine follows_encodings ?_
    rw [popMany_eq (by simp), ok_bind]
    exact follows_pushBool m rest (by decide)

lemma dropSigs_eq (stack : List Valtype) (k s : ℕ) (scriptCode : CScript)
    (h : s + k ≤ stack.length) :
    dropSigs stack ((s : ℤ) + 1) k scriptCode = .ok (((stack.drop s).take k).foldl
      (fun code vchSig => findAndDelete code (pushData vchSig)) scriptCode) := by
  induction k generalizing s scriptCode with
  | zero => rfl
  | succ k ih =>
    have hs : s < stack.length := by omega
    rw [dropSigs, stacktop_eq hs (by omega), ok_bind, List.drop_eq_getElem_cons hs,
      List.take_succ_cons, List.foldl_cons, ← ih (s + 1) _ (by omega), Nat.cast_add, Nat.cast_one]

lemma follows_multiSigLoop (stack : List Valtype) (scriptCode : CScript) (fuel a b nk ns : ℕ)
    (ha : a + nk ≤ stack.length) (hb : b + ns ≤ stack.length) (hle : ns ≤ nk) (hfuel : nk ≤ fuel) :
    Follows small flags
      (multiSigLoop env flags stack scriptCode fuel nk ns ((a : ℤ) + 1) ((b : ℤ) + 1))
      (env.multiSigLoop flags scriptCode ((stack.drop a).take nk) ((stack.drop b).take ns)) := by
  induction fuel generalizing a b nk ns with
  | zero =>
    obtain rfl : nk = 0 := by omega
    obtain rfl : ns = 0 := by omega
    exact .ok true
  | succ fuel ih =>
    unfold multiSigLoop
    cases ns with
    | zero =>
      have hdone : ∀ keys, env.multiSigLoop flags scriptCode keys [] = .ok true := by
        intro keys
        cases keys <;> rfl
      rw [if_pos (by simp), List.take_zero, hdone]
      exact .ok true
    | succ ns =>
      obtain ⟨nk, rfl⟩ : ∃ k, nk = k + 1 := ⟨nk - 1, by omega⟩
      have hkeys : ((stack.drop (a + 1)).take nk).length = nk := by
        rw [List.length_take, List.length_drop]
        omega
      have hsigs : ∀ b n, b + n ≤ stack.length → ((stack.drop b).take n).length = n := by
        intro b n hn
        rw [List.length_take, List.length_drop]
        omega
      have hrest : ∀ n : ℕ, ((n + 1 : ℕ) : ℤ) - 1 = n := by omega
      have hnext : ∀ b ns, b + ns ≤ stack.length → Follows small flags
          (if (nk : ℤ) < ns then .ok false
            else multiSigLoop env flags stack scriptCode fuel nk ns ((a : ℤ) + 1 + 1) ((b : ℤ) + 1))
          (if ((stack.drop (a + 1)).take nk).length < ((stack.drop b).take ns).length then .ok false
            else env.multiSigLoop flags scriptCode ((stack.drop (a + 1)).take nk)
              ((stack.drop b).take ns)) := by
        intro b ns hb
        rw [hkeys, hsigs b ns hb]
        by_cases hlt : nk < ns
        · rw [if_pos (by omega), if_pos hlt]
          exact .ok false
        · rw [if_neg (by omega), if_neg hlt]
          have := ih (a + 1) b nk ns (by omega) hb (by omega) (by omega)
          rwa [Nat.cast_add, Nat.cast_one] at this
      rw [if_neg (by omega)]
      dsimp only
      rw [stacktop_eq (n := b) (by omega) (by omega), ok_bind,
        stacktop_eq (n := a) (by omega) (by omega), ok_bind, List.drop_eq_getElem_cons (i := a)
        (by omega), List.take_succ_cons]
      conv => rhs; rw [List.drop_eq_getElem_cons (i := b) (by omega), List.take_succ_cons]
      refine follows_encodings ?_
      dsimp only
      cases env.checker.checkSig stack[b] stack[a] scriptCode env.sigversion
      · have hstay := hnext b (ns + 1) hb
        rw [List.drop_eq_getElem_cons (i := b) (by omega), List.take_succ_cons] at hstay
        simpa only [Bool.false_eq_true, if_false, hrest] using hstay
      · have hmove := hnext (b + 1) ns (by omega)
        rw [Nat.cast_add b, Nat.cast_one] at hmove
        simpa only [if_true, hrest] using hmove

lemma follows_evalCheckMultiSig (fVerify : Bool) (m : Machine)
    (hsmall : small → m.stack.length < 2 ^ 31) :
    Follows small flags (evalCheckMultiSig env flags fVerify m)
      (env.evalCheckMultiSig flags fVerify m) := by
  unfold evalCheckMultiSig EvalEnv.evalCheckMultiSig
  match hs : m.stack with
  | [] =>
    rw [hs] at hsmall
    exact follows_needInt hsmall (fun _ => rfl) fun h => absurd h (by decide)
  | vch :: stack =>
    rw [hs] at hsmall
    refine follows_needInt hsmall (fun h => ?_) fun _ => ?_
    · rw [List.length_cons] at h
      omega
    rw [stacktop_one, ok_bind]
    refine (follows_numArg vch).bind fun bn _ => ?_
    refine (follows_failIf (by decide)).bind fun _ hcount => ?_
    simp only [failIf_eq_ok, Bool.or_eq_false_iff, decide_eq_false_iff_not, not_lt] at hcount
    obtain ⟨nk, hnk⟩ := Int.eq_ofNat_of_zero_le hcount.1
    rw [hnk]
    refine (follows_failIf (by decide)).bind fun _ _ => ?_
    unfold EvalEnv.evalMultiSigKeys
    dsimp only
    refine follows_needInt hsmall (fun h => ?_) fun h => ?_
    · rw [List.length_cons] at h
      rw [Int.toNat_natCast, List.drop_eq_nil_of_le (by omega)]
    rw [List.length_cons] at h
    have hnk' : nk < stack.length := by omega
    have hget : stacktop (vch :: stack) (-(2 + (nk : ℤ))) = .ok stack[nk] :=
      (stacktop_eq (n := nk + 1) (by simp; omega) (by push_cast; ring)).trans (by simp)
    rw [hget, ok_bind, Int.toNat_natCast, List.drop_eq_getElem_cons hnk']
    refine (follows_numArg stack[nk]).bind fun bn' _ => ?_
    refine (follows_failIf (by decide)).bind fun _ hcount' => ?_
    simp only [failIf_eq_ok, Bool.or_eq_false_iff, decide_eq_false_iff_not, not_lt] at hcount'
    obtain ⟨ns, hns⟩ := Int.eq_ofNat_of_zero_le hcount'.1
    rw [hns] at hcount' ⊢
    have hrest : (stack.drop (nk + 1)).length = stack.length - (nk + 1) := List.length_drop
    refine follows_needInt hsmall (fun h => ?_) fun h => ?_
    · rw [List.length_cons] at h
      rw [Int.toNat_natCast, show decide ((stack.drop (nk + 1)).length < ns + 1) = true by
        rw [decide_eq_true_iff]; omega]
      rfl
    rw [List.length_cons] at h
    rw [Int.toNat_natCast, show decide ((stack.drop (nk + 1)).length < ns + 1) = false by
      rw [decide_eq_false_iff_not]; omega]
    have hisig : 2 + (nk : ℤ) + 1 = ((nk + 2 : ℕ) : ℤ) + 1 := by push_cast; ring
    rw [hisig, dropSigs_eq _ ns (nk + 2) _ (by rw [List.length_cons]; omega), ok_bind]
    unfold EvalEnv.evalMultiSigArgs
    have hpass : (failIf false .INVALID_STACK_OPERATION : Eval Unit) = .ok () := rfl
    rw [hpass, eval_ok_bind]
    have hloop := @follows_multiSigLoop small flags env (vch :: stack)
      ((((vch :: stack).drop (nk + 2)).take ns).foldl
        (fun code vchSig => findAndDelete code (pushData vchSig)) m.pbegincodehash)
      nk 1 (nk + 2) nk ns (by rw [List.length_cons]; omega) (by rw [List.length_cons]; omega)
      (by omega) le_rfl
    refine hloop.bind fun fSuccess _ => ?_
    -- the extra argument is below the last signature
    have hdummy : nk + 1 + ns < stack.length := by omega
    have hpop : popMany (((nk + 2 : ℕ) : ℤ) + 1 + ns - 1).toNat (vch :: stack) =
        .ok (stack[nk + 1 + ns] :: stack.drop (nk + 1 + ns + 1)) := by
      rw [show (((nk + 2 : ℕ) : ℤ) + 1 + ns - 1).toNat = nk + 1 + ns + 1 by omega,
        popMany_eq (by rw [List.length_cons]; omega), List.drop_succ_cons,
        List.drop_eq_getElem_cons hdummy]
    rw [hpop, ok_bind, need_of_le (Nat.succ_le_succ (Nat.zero_le _)), ok_bind, stacktop_one,
      ok_bind, List.drop_drop, List.drop_eq_getElem_cons hdummy]
    dsimp only
    refine (follows_failIf (by decide)).bind fun _ _ => ?_
    rw [popstack_cons, ok_bind]
    exact follows_pushBool
      { m with stack := vch :: stack, nOpCount := m.nOpCount + nk } _ (by decide)

/-! ### Every opcode -/

lemma follows_stackOp (op : StackOp) (stack : List Valtype) :
    Follows small flags (stackOp op stack) (op.eval stack) := by
  rw [stackOp_eq]
  refine follows_call fun herr => ?_
  unfold StackOp.eval at herr
  split at herr <;> cases herr

lemma follows_evalOp (fExec : Bool) (pc : CScript) (op : Opcode) (m : Machine)
    (hsmall : small → m.stack.length < 2 ^ 31) :
    Follows small flags (evalOp env flags fExec pc op m) (env.evalOp flags fExec pc op m) := by
  cases op with
  | smallInt n => exact .ok _
  | OP_NOP => exact .ok _
  | OP_CHECKLOCKTIMEVERIFY => exact follows_checkLockTimeVerify m
  | upgradableNop => exact (follows_failIf (by decide)).bind fun _ _ => .ok m
  | OP_IF fNot => exact follows_evalIf fNot fExec m
  | OP_ELSE | OP_ENDIF =>
    unfold evalOp EvalEnv.evalOp
    match hs : m.vfExec with
    | [] => exact .returned _ (by decide)
    | f :: vfExec => exact .ok _
  | OP_VERIFY =>
    unfold evalOp EvalEnv.evalOp
    match hs : m.stack with
    | [] => exact .returned _ (by decide)
    | vch :: rest =>
      rw [need_of_le (by simp), ok_bind, stacktop_one, ok_bind]
      dsimp only
      cases castToBool vch
      · exact .returned _ (by decide)
      · exact .ok _
  | OP_RETURN => exact .returned _ (by decide)
  | OP_TOALTSTACK | hash op =>
    unfold evalOp EvalEnv.evalOp
    match hs : m.stack with
    | [] => exact .returned _ (by decide)
    | vch :: rest =>
      rw [need_of_le (by simp), ok_bind, stacktop_one, ok_bind]
      exact .ok _
  | OP_FROMALTSTACK =>
    unfold evalOp EvalEnv.evalOp
    match hs : m.altstack with
    | [] => exact .returned _ (by decide)
    | vch :: rest =>
      rw [stacktop_one]
      exact .ok _
  | stackOp op => exact (follows_stackOp op m.stack).bind fun _ _ => .ok _
  | OP_PICK fRoll => exact follows_evalPick fRoll m hsmall
  | OP_EQUAL fVerify => exact follows_evalEqual fVerify m pc fExec
  | unary op => exact follows_evalUnary op m
  | binary op => exact follows_evalBinary op m
  | OP_WITHIN => exact follows_evalWithin m
  | OP_CODESEPARATOR => exact .ok _
  | OP_CHECKSIG fVerify => exact follows_evalCheckSig fVerify m
  | OP_CHECKMULTISIG fVerify => exact follows_evalCheckMultiSig fVerify m hsmall
  | OP_CHECKCOLDSTAKEVERIFY =>
    unfold evalOp EvalEnv.evalOp
    dsimp only
    split
    · exact .ok m
    · exact .returned _ (by decide)
  | default => exact .returned _ (by decide)

lemma follows_execute (fExec : Bool) (opcode : UInt8) (vchPushValue : Valtype) (pc : CScript)
    (m : Machine) (hsmall : small → m.stack.length < 2 ^ 31) :
    Follows small flags (execute env flags fExec opcode vchPushValue pc m)
      (env.execute flags fExec opcode vchPushValue pc m) := by
  unfold execute EvalEnv.execute
  split
  · exact (follows_failIf (by decide)).bind fun _ _ => .ok _
  · split
    · exact follows_evalOp fExec pc _ m hsmall
    · exact .ok m

lemma follows_evalStep (opcode : UInt8) (vchPushValue : Valtype) (pc : CScript) (m : Machine)
    (hsmall : small → m.stack.length < 2 ^ 31) :
    Follows small flags (evalStep env flags opcode vchPushValue pc m)
      (env.evalStep flags opcode vchPushValue pc m) := by
  unfold evalStep EvalEnv.evalStep
  refine (follows_failIf (by decide)).bind fun _ _ => ?_
  refine (follows_failIf (by decide)).bind fun _ _ => ?_
  refine (follows_failIf (by decide)).bind fun _ _ => ?_
  refine Follows.bind (follows_execute _ opcode vchPushValue pc _ ?_) fun m' _ => ?_
  · split
    · exact hsmall
    · exact hsmall
  · exact (follows_failIf (by decide)).bind fun _ _ => .ok m'

end

/-! ### Runs -/

section

variable (env : EvalEnv) (flags : UInt32) (pc₀ : CScript) (m₀ : Machine)

/-- The operations that have been executed, each with the bytes that it pushes, the last one at the
end; what is left of the script; and the machine after them. -/
inductive Executed : List (UInt8 × Valtype) → CScript → Machine → Prop
  | start : Executed [] pc₀ m₀
  | step {l : List (UInt8 × Valtype)} {pc pc' : CScript} {m m' : Machine} {opcode : UInt8}
      {vchPushValue : Valtype} (h : Executed l pc m)
      (hop : getOp pc = some (opcode, vchPushValue, pc'))
      (hstep : evalStep env flags opcode vchPushValue pc' m = .ok m') :
      Executed (l ++ [(opcode, vchPushValue)]) pc' m'

/-- How the loop is left, and what it returns then. -/
inductive Ends : CScript → Machine → Run Machine → Prop
  | finished (m : Machine) : Ends [] m (.ok m)
  | badOpcode {pc : CScript} (m : Machine) (hop : getOp pc = none) :
      Ends pc m (.error (.returned .BAD_OPCODE))
  | stopped {pc pc' : CScript} {m : Machine} {opcode : UInt8} {vchPushValue : Valtype} {e : Stop}
      (hop : getOp pc = some (opcode, vchPushValue, pc'))
      (hstep : evalStep env flags opcode vchPushValue pc' m = .error e) : Ends pc m (.error e)

variable {env flags pc₀ m₀}

lemma evalLoop_ends {l : List (UInt8 × Valtype)} {pc : CScript} {m : Machine}
    (h : Executed env flags pc₀ m₀ l pc m) {fuel : ℕ} (hfuel : pc.length ≤ fuel) :
    ∃ l' pc' m', Executed env flags pc₀ m₀ l' pc' m' ∧
      Ends env flags pc' m' (evalLoop env flags fuel pc m) := by
  induction fuel generalizing l pc m with
  | zero =>
    obtain rfl : pc = [] := List.length_eq_zero_iff.mp (Nat.le_zero.mp hfuel)
    exact ⟨l, [], m, h, .finished m⟩
  | succ fuel ih =>
    unfold evalLoop
    cases pc with
    | nil => exact ⟨l, [], m, h, .finished m⟩
    | cons b rest =>
      rw [if_neg (by simp)]
      rcases hop : getOp (b :: rest) with _ | ⟨opcode, vchPushValue, pc'⟩
      · exact ⟨l, b :: rest, m, h, .badOpcode m hop⟩
      · dsimp only
        rcases hstep : evalStep env flags opcode vchPushValue pc' m with e | m'
        · exact ⟨l, b :: rest, m, h, .stopped hop hstep⟩
        · have hlt := getOp_length hop
          exact ih (.step h hop hstep) (by omega)

end

/-! ### The count of operations -/

/-- An operation adds to the count at most, and not beyond 201. -/
def Counts (n : ℕ) (x : Run Machine) : Prop :=
  ∀ m, x = .ok m → n ≤ m.nOpCount ∧ (n ≤ 201 → m.nOpCount ≤ 201)

section

variable {n : ℕ} {α : Type} {env : EvalEnv} {flags : UInt32} {m : Machine}

lemma Counts.ok (h : m.nOpCount = n) : Counts n (.ok m) := by
  rintro _ ⟨⟩
  exact ⟨h.ge, h.trans_le⟩

lemma Counts.error (e : Stop) : Counts n (.error e) := nofun

lemma Counts.bind {x : Run α} {f : α → Run Machine} (h : ∀ a, Counts n (f a)) :
    Counts n (x >>= f) := by
  intro m hm
  obtain ⟨a, -, ha⟩ := bind_eq_ok.mp hm
  exact h a m ha

lemma Counts.ite {c : Prop} [Decidable c] {x y : Run Machine} (hx : Counts n x)
    (hy : Counts n y) : Counts n (if c then x else y) := by
  split
  · exact hx
  · exact hy

lemma counts_evalCheckMultiSig (fVerify : Bool) (m : Machine) :
    Counts m.nOpCount (evalCheckMultiSig env flags fVerify m) := by
  refine .bind fun _ => .bind fun vch => .bind fun bn => .bind fun _ => ?_
  intro m' hm'
  obtain ⟨_, hcount, hm'⟩ := bind_eq_ok.mp hm'
  rw [failIf_eq_ok, decide_eq_false_iff_not, not_lt] at hcount
  have hkeep : Counts (m.nOpCount + (getint bn).toNat) (.ok m') := by
    rw [← hm']
    exact .bind fun _ => .bind fun _ => .bind fun _ => .bind fun _ => .bind fun _ => .bind fun _ =>
      .bind fun _ => .bind fun _ => .bind fun _ => .bind fun _ => .bind fun _ => .bind fun _ =>
      .bind fun _ => .ok rfl
  obtain ⟨hle, hmax⟩ := hkeep m' rfl
  exact ⟨(Nat.le_add_right _ _).trans hle, fun _ => hmax hcount⟩

lemma counts_evalOp (fExec : Bool) (pc : CScript) (op : Opcode) (m : Machine) :
    Counts m.nOpCount (evalOp env flags fExec pc op m) := by
  cases op with
  | smallInt | OP_NOP | OP_CODESEPARATOR => exact .ok rfl
  | OP_RETURN | default => exact .error _
  | OP_CHECKLOCKTIMEVERIFY =>
    exact .ite (.bind fun _ => .ok rfl) (.bind fun _ => .bind fun _ => .bind fun _ =>
      .bind fun _ => .bind fun _ => .ok rfl)
  | OP_IF fNot => exact .ite (.bind fun _ => .bind fun _ => .bind fun _ => .ok rfl) (.ok rfl)
  | upgradableNop | stackOp => exact .bind fun _ => .ok rfl
  | OP_ELSE | OP_ENDIF => exact .bind fun _ => .bind fun _ => .ok rfl
  | OP_TOALTSTACK | OP_FROMALTSTACK | hash =>
    exact .bind fun _ => .bind fun _ => .bind fun _ => .ok rfl
  | OP_VERIFY => exact .bind fun _ => .bind fun _ => .bind fun _ => .bind fun _ => .ok rfl
  | OP_PICK fRoll =>
    exact .bind fun _ => .bind fun _ => .bind fun _ => .bind fun _ => .bind fun _ => .bind fun _ =>
      .bind fun _ => .ok rfl
  | OP_EQUAL fVerify =>
    exact .bind fun _ => .bind fun _ => .bind fun _ => .bind fun _ => .bind fun _ => .ok rfl
  | unary op => exact .bind fun _ => .bind fun _ => .bind fun _ => .bind fun _ => .ok rfl
  | binary op =>
    refine .bind fun _ => .bind fun _ => .bind fun _ => .bind fun _ => .bind fun _ =>
      .bind fun _ => ?_
    exact .ite (.bind fun _ => .bind fun _ => .bind fun _ => .ok rfl) (.ok rfl)
  | OP_WITHIN =>
    exact .bind fun _ => .bind fun _ => .bind fun _ => .bind fun _ => .bind fun _ => .bind fun _ =>
      .bind fun _ => .bind fun _ => .ok rfl
  | OP_CHECKSIG fVerify =>
    exact .bind fun _ => .bind fun _ => .bind fun _ => .bind fun _ => .bind fun _ => .bind fun _ =>
      .bind fun _ => .ok rfl
  | OP_CHECKMULTISIG fVerify => exact counts_evalCheckMultiSig fVerify m
  | OP_CHECKCOLDSTAKEVERIFY => exact .ite (.ok rfl) (.error _)

lemma counts_execute (fExec : Bool) (opcode : UInt8) (vchPushValue : Valtype) (pc : CScript)
    (m : Machine) : Counts m.nOpCount (execute env flags fExec opcode vchPushValue pc m) :=
  .ite (.bind fun _ => .ok rfl) (.ite (counts_evalOp fExec pc _ m) (.ok rfl))

lemma evalStep_bounds {opcode : UInt8} {vchPushValue : Valtype} {pc : CScript} {m' : Machine}
    (h : evalStep env flags opcode vchPushValue pc m = .ok m') :
    vchPushValue.length ≤ MAX_SCRIPT_ELEMENT_SIZE ∧
      m'.stack.length + m'.altstack.length ≤ 1000 ∧
      m.nOpCount + (if OP_16 < opcode then 1 else 0) ≤ m'.nOpCount ∧
      (m.nOpCount ≤ 201 → m'.nOpCount ≤ 201) := by
  unfold evalStep at h
  simp only [bind_eq_ok, failIf_eq_ok, pure_eq_ok, decide_eq_false_iff_not, not_lt,
    Bool.and_eq_false_iff] at h
  obtain ⟨_, hpush, _, hcount, _, -, m₁, hexec, _, hsize, rfl⟩ := h
  obtain ⟨hle, hmax⟩ := counts_execute _ _ _ _ _ m₁ hexec
  refine ⟨hpush, hsize, ?_, fun hn => ?_⟩
  · split at hle
    · rw [if_pos ‹_›]
      exact hle
    · rw [if_neg ‹_›]
      exact hle
  · apply hmax
    split at hcount
    · rw [if_pos ‹_›]
      exact hcount.resolve_left (not_not_intro ‹_›)
    · rw [if_neg ‹_›]
      exact hn

end

/-- The bounds that hold after the operations in `l`. -/
structure Bounded (l : List (UInt8 × Valtype)) (m : Machine) : Prop where
  stack : l ≠ [] → m.stack.length + m.altstack.length ≤ 1000
  pushed : ∀ e ∈ l, e.2.length ≤ MAX_SCRIPT_ELEMENT_SIZE
  counted : l.countP (fun e => OP_16 < e.1) ≤ m.nOpCount
  nOpCount : m.nOpCount ≤ 201

lemma Executed.bounded {env : EvalEnv} {flags : UInt32} {pc₀ pc : CScript} {m₀ m : Machine}
    {l : List (UInt8 × Valtype)} (h : Executed env flags pc₀ m₀ l pc m) (h0 : m₀.nOpCount = 0) :
    Bounded l m := by
  induction h with
  | start =>
    refine ⟨fun hne => absurd rfl hne, nofun, Nat.zero_le _, ?_⟩
    rw [h0]
    exact Nat.zero_le 201
  | @step l pc pc' m m' opcode vchPushValue h hop hstep ih =>
    obtain ⟨hpush, hsize, hcount, hmax⟩ := evalStep_bounds hstep
    refine ⟨fun _ => hsize, ?_, ?_, hmax ih.nOpCount⟩
    · intro e he
      rcases List.mem_append.mp he with he | he
      · exact ih.pushed e he
      · obtain rfl := List.mem_singleton.mp he
        exact hpush
    · calc (l ++ [(opcode, vchPushValue)]).countP (fun e => OP_16 < e.1)
          = l.countP (fun e => OP_16 < e.1) + (if OP_16 < opcode then 1 else 0) := by
            rw [List.countP_append, List.countP_singleton]
            simp only [decide_eq_true_eq]
        _ ≤ m.nOpCount + (if OP_16 < opcode then 1 else 0) := Nat.add_le_add_right ih.counted _
        _ ≤ m'.nOpCount := hcount

/-! ### `EvalScript` -/

section

variable {small : Prop} {env : EvalEnv} {flags : UInt32}

lemma follows_evalLoop (fuel : ℕ) (pc : CScript) (m : Machine)
    (hsmall : small → m.stack.length < 2 ^ 31) :
    Follows small flags (evalLoop env flags fuel pc m) (env.evalLoop flags fuel pc m) := by
  induction fuel generalizing pc m with
  | zero => exact .ok m
  | succ fuel ih =>
    unfold evalLoop EvalEnv.evalLoop
    split
    · exact .ok m
    · rcases getOp pc with _ | ⟨opcode, vchPushValue, pc'⟩
      · exact .returned _ (by decide)
      · refine (follows_evalStep opcode vchPushValue pc' m hsmall).bind fun m' hm' => ?_
        have hsize := (evalStep_bounds hm').2.1
        exact ih pc' m' fun _ => by omega

variable {stack : List Valtype} {script : CScript} {crypto : ScriptCrypto}
  {checker : SignatureChecker} {sigversion : SigVersion}

/-- **The interpreter matches on the stack.** With every access written out `EvalScript` does what
it does with the accesses taken for granted, the handler included. -/
theorem evalScript_eq (h : stack.length < 2 ^ 31) :
    evalScript stack script flags crypto checker sigversion =
      Script.evalScript stack script flags crypto checker sigversion := by
  have hloop : Follows True flags
      (evalLoop ⟨crypto, checker, sigversion, script⟩ flags script.length script
        (start stack script))
      (EvalEnv.evalLoop ⟨crypto, checker, sigversion, script⟩ flags script.length script
        (start stack script)) :=
    follows_evalLoop _ _ _ fun _ => h
  unfold evalScript Script.evalScript
  change (failIf _ _ >>= fun _ => _) = (failIf _ _ >>= fun _ => EvalEnv.evalLoop
    ⟨crypto, checker, sigversion, script⟩ flags script.length script (start stack script) >>= _)
  congr 1
  funext _
  revert hloop
  generalize evalLoop ⟨crypto, checker, sigversion, script⟩ flags script.length script
    (start stack script) = x
  generalize EvalEnv.evalLoop ⟨crypto, checker, sigversion, script⟩ flags script.length script
    (start stack script) = y
  intro hloop
  cases hloop with
  | ok m => rfl
  | returned serror h => rfl
  | scriptnum vch n h => rfl
  | large y h => exact absurd trivial h

end

/-- The exception is that of `CScriptNum`, over its range or over the minimal encoding. -/
def NotANumber (flags : UInt32) : Thrown → Prop
  | .scriptnum vch nMaxNumSize => nMaxNumSize < vch.length ∨
      hasFlag flags SCRIPT_VERIFY_MINIMALDATA = true ∧ isMinimal vch = false
  | _ => False

lemma Follows.notANumber {small : Prop} {flags : UInt32} {α : Type} {y : Eval α} {what : Thrown}
    (h : Follows small flags (.error (.thrown what)) y) : NotANumber flags what := by
  cases h with
  | scriptnum vch nMaxNumSize h => exact h

lemma Follows.ne_unknown {flags : UInt32} {α : Type} {x : Run α} {y : Eval α}
    (h : Follows False flags x y) : x ≠ .error (.returned .UNKNOWN_ERROR) := by
  cases h with
  | ok a => exact nofun
  | returned serror h =>
    rintro ⟨⟩
    exact h rfl
  | scriptnum vch nMaxNumSize h => exact nofun
  | large y h => exact nofun

/-- **`EvalScript` stays within its stacks and its limits.** For every script, initial stack and
flags: after any operations that it has executed the limits hold, and the next one throws only over
a number that is too long or not minimally encoded; every run is of this kind; and the error of the
handler means that such an exception has been thrown. -/
theorem evalScript_safe (stack : List Valtype) (flags : UInt32) (env : EvalEnv) :
    (∀ l pc m, Executed env flags env.script (start stack env.script) l pc m →
      Bounded l m ∧
      ∀ what, Ends env flags pc m (.error (.thrown what)) → NotANumber flags what) ∧
    (∃ l pc m, Executed env flags env.script (start stack env.script) l pc m ∧
      Ends env flags pc m
        (evalLoop env flags env.script.length env.script (start stack env.script))) ∧
    (evalScript stack env.script flags env.crypto env.checker env.sigversion =
        .error .UNKNOWN_ERROR →
      ∃ what, NotANumber flags what ∧
        evalLoop env flags env.script.length env.script (start stack env.script) =
          .error (.thrown what)) := by
  refine ⟨fun l pc m h => ⟨h.bounded rfl, fun what hends => ?_⟩, evalLoop_ends .start le_rfl,
    fun herr => ?_⟩
  · cases hends with
    | @stopped _ pc' _ opcode vchPushValue _ hop hstep =>
      have hfollows : Follows False flags (evalStep env flags opcode vchPushValue pc' m)
          (env.evalStep flags opcode vchPushValue pc' m) :=
        follows_evalStep _ _ _ _ False.elim
      rw [hstep] at hfollows
      exact hfollows.notANumber
  · have hfollows : Follows False flags
        (evalLoop env flags env.script.length env.script (start stack env.script))
        (env.evalLoop flags env.script.length env.script (start stack env.script)) :=
      follows_evalLoop _ _ _ False.elim
    unfold evalScript at herr
    rcases bind_eq_error.mp herr with herr | ⟨_, -, herr⟩
    · exact absurd (failIf_eq_error.mp herr).2 (by decide)
    split at herr
    · rename_i serror hloop
      cases herr
      exact absurd hloop hfollows.ne_unknown
    · rename_i what hloop
      have hthrown : evalLoop env flags env.script.length env.script (start stack env.script) =
          .error (.thrown what) := hloop
      rw [hthrown] at hfollows
      exact ⟨what, hfollows.notANumber, hthrown⟩
    · rcases bind_eq_error.mp herr with herr | ⟨_, -, herr⟩
      · exact absurd (failIf_eq_error.mp herr).2 (by decide)
      · cases herr

end Agenor.Script.Access
