import Agenor.Solver
import Mathlib.Tactic

/-!
The script of a delegated coin: how it is built (`script/standard.cpp`), how it is recognised
(`script/script.cpp`), and who can spend it (`script/interpreter.cpp`).

`IsPayToColdStaking` looks at the length and at six of the eleven bytes that are fixed. The other
five are opcodes: what a script does that has another byte in one of these places, the test does not
say.
-/

namespace Agenor

namespace Script

open Lib.Fallible

def OP_IF : UInt8 := 0x63
def OP_ELSE : UInt8 := 0x67
def OP_ENDIF : UInt8 := 0x68

/-- The bytes of a `CKeyID`. -/
abbrev KeyIDBytes := {v : Valtype // v.length = 20}

def getScriptForStakeDelegation (stakingKey spendingKey : KeyIDBytes) : CScript :=
  [OP_DUP, OP_HASH160, OP_ROT, OP_IF, OP_CHECKCOLDSTAKEVERIFY] ++ (pushData stakingKey.1 ++
    (OP_ELSE :: (pushData spendingKey.1 ++ [OP_ENDIF, OP_EQUALVERIFY, OP_CHECKSIG])))

/-- The bytes that `IsPayToColdStaking` looks at. -/
def Sampled (s : CScript) : Prop :=
  s.length = 51 ∧ s[2]? = some OP_ROT ∧ s[4]? = some OP_CHECKCOLDSTAKEVERIFY ∧ s[5]? = some 0x14 ∧
    s[27]? = some 0x14 ∧ s[49]? = some OP_EQUALVERIFY ∧ s[50]? = some OP_CHECKSIG

/-- The opcodes that it does not look at. -/
def Unsampled (s : CScript) : Prop :=
  s[0]? = some OP_DUP ∧ s[1]? = some OP_HASH160 ∧ s[3]? = some OP_IF ∧ s[26]? = some OP_ELSE ∧
    s[48]? = some OP_ENDIF

/-- Running the script on what the input left ends with something true on top. -/
def Spends (crypto : ScriptCrypto) (checker : SignatureChecker) (flags : UInt32)
    (sigversion : SigVersion) (stack : List Valtype) (script : CScript) : Prop :=
  ∃ out, evalScript stack script flags crypto checker sigversion = .ok out ∧ endsTrue out = .ok ()

/-- The signature on a script is good for the key, and both are encoded as the flags ask. -/
def SignedBy (crypto : ScriptCrypto) (checker : SignatureChecker) (flags : UInt32)
    (sigversion : SigVersion) (script : CScript) (vchPubKey vchSig : Valtype) : Prop :=
  checkSignatureEncoding crypto flags vchSig = .ok () ∧
    checkPubKeyEncoding flags vchPubKey = .ok () ∧
    checker.checkSig vchSig vchPubKey (findAndDelete script (pushData vchSig)) sigversion = true

/-- Who can spend a delegated coin. The input leaves a signature, a truth value and a key: the
owner's key through the `OP_ELSE` branch, the staker's key where `OP_CHECKCOLDSTAKEVERIFY` allows
it. -/
def SpentBy (script : CScript) (stakingKey spendingKey : KeyIDBytes) : Prop :=
  ∀ crypto checker flags sigversion stack, Spends crypto checker flags sigversion stack script ↔
    ∃ vchPubKey vch vchSig rest, stack = vchPubKey :: vch :: vchSig :: rest ∧
      rest.length + 4 ≤ 1000 ∧ SignedBy crypto checker flags sigversion script vchPubKey vchSig ∧
      (castToBool vch = false ∧ crypto.hash160 vchPubKey = spendingKey ∨
        castToBool vch = true ∧ checker.checkColdStake script = true ∧
          crypto.hash160 vchPubKey = stakingKey)

/-- A script is recognised exactly where it delegates; then `Solver` names the two keys, and these
are the keys that can spend. -/
structure ExactlyDelegated (s : CScript) : Prop where
  recognised : isPayToColdStaking s = true ↔
    ∃ stakingKey spendingKey, s = getScriptForStakeDelegation stakingKey spendingKey
  solved : isPayToColdStaking s = true → ∃ stakingKey spendingKey : KeyIDBytes,
    s = getScriptForStakeDelegation stakingKey spendingKey ∧
      solver s = some ⟨true, .TX_COLDSTAKE, [stakingKey.1, spendingKey.1]⟩ ∧
      SpentBy s stakingKey spendingKey

/-! ### One operation -/

section Operations

variable {env : EvalEnv} {flags : UInt32} {m m' : Machine} {pc : CScript} {b : UInt8}
  {data : Valtype}

lemma evalLoop_step {pc' : CScript} {opcode : UInt8} (hop : getOp pc = some (opcode, data, pc')) :
    env.evalLoop flags pc.length pc m = .ok m' ↔ ∃ m₁,
      env.evalStep flags opcode data pc' m = .ok m₁ ∧
        env.evalLoop flags pc'.length pc' m₁ = .ok m' := by
  have hlt := getOp_length hop
  obtain ⟨fuel, hfuel⟩ : ∃ k, pc.length = k + 1 := ⟨pc.length - 1, by omega⟩
  have hne : pc.isEmpty = false := by
    cases pc with
    | nil => simp at hfuel
    | cons b rest => rfl
  have hloop : env.evalLoop flags (fuel + 1) pc m =
      (env.evalStep flags opcode data pc' m >>= fun m => env.evalLoop flags fuel pc' m) := by
    rw [EvalEnv.evalLoop, hne, hop]
    rfl
  rw [hfuel, hloop, bind_eq_ok]
  refine exists_congr fun m₁ => and_congr_right fun _ => ?_
  rw [env.evalLoop_fuel flags m₁ (show pc'.length ≤ fuel by omega)]

lemma evalStep_eq_ok {opcode : UInt8} (hcount : m.nOpCount < 201) (hdata : data.length ≤ 520)
    (hable : disabledOpcodes.contains opcode = false) :
    env.evalStep flags opcode data pc m = .ok m' ↔
      env.execute flags (!m.vfExec.contains false) opcode data pc
          (if OP_16 < opcode then { m with nOpCount := m.nOpCount + 1 } else m) = .ok m' ∧
        m'.stack.length + m'.altstack.length ≤ 1000 := by
  have hsize : decide (520 < data.length) = false := decide_eq_false (by omega)
  have hops : (decide (OP_16 < opcode) && decide (201 < (if OP_16 < opcode then
      { m with nOpCount := m.nOpCount + 1 } else m).nOpCount)) = false := by
    by_cases hop : OP_16 < opcode
    · simp only [hop, if_true, decide_true, Bool.true_and, decide_eq_false_iff_not]
      omega
    · simp [hop]
  unfold EvalEnv.evalStep
  simp only [bind_eq_ok, failIf_eq_ok, pure_eq_ok, hsize, hable, hops, exists_const, true_and,
    decide_eq_false_iff_not, not_lt]
  constructor
  · rintro ⟨m₁, hexec, hstack, rfl⟩
    exact ⟨hexec, hstack⟩
  · rintro ⟨hexec, hstack⟩
    exact ⟨m', hexec, hstack, rfl⟩

lemma not_le_pushdata4 (hb : OP_16 < b) : ¬ b ≤ OP_PUSHDATA4 := by
  rw [UInt8.le_iff_toNat_le]
  rw [UInt8.lt_iff_toNat_lt] at hb
  have hvals : OP_16.toNat = 96 ∧ OP_PUSHDATA4.toNat = 78 := ⟨rfl, rfl⟩
  omega

lemma getOp_plain (hb : OP_16 < b) : getOp (b :: pc) = some (b, [], pc) := by
  unfold getOp
  dsimp only
  rw [if_neg (not_le_pushdata4 hb)]

lemma getOp_pushData (hlen : data.length = 20) :
    getOp (pushData data ++ pc) = some (0x14, data, pc) := by
  have hpush : pushData data = 0x14 :: data := by
    unfold pushData
    rw [hlen]
    rfl
  rw [hpush]
  unfold getOp
  simp [OP_PUSHDATA4, OP_PUSHDATA1, hlen]

lemma evalLoop_op (hcount : m.nOpCount < 201) (hb : OP_16 < b)
    (hable : disabledOpcodes.contains b = false)
    (hrun : m.vfExec.contains false = false ∨ 0x63 ≤ b ∧ b ≤ 0x68) :
    env.evalLoop flags (b :: pc).length (b :: pc) m = .ok m' ↔ ∃ m₁,
      env.evalOp flags (!m.vfExec.contains false) pc (.ofByte b)
          { m with nOpCount := m.nOpCount + 1 } = .ok m₁ ∧
        m₁.stack.length + m₁.altstack.length ≤ 1000 ∧
        env.evalLoop flags pc.length pc m₁ = .ok m' := by
  rw [evalLoop_step (getOp_plain hb)]
  have hpush : decide (b ≤ OP_PUSHDATA4) = false := decide_eq_false (not_le_pushdata4 hb)
  have hgo : (!m.vfExec.contains false || decide (0x63 ≤ b) && decide (b ≤ 0x68)) = true := by
    rcases hrun with hexec | ⟨h1, h2⟩
    · rw [hexec, Bool.not_false, Bool.true_or]
    · rw [decide_eq_true h1, decide_eq_true h2, Bool.and_true, Bool.or_true]
  refine exists_congr fun m₁ => ?_
  rw [evalStep_eq_ok hcount (by simp) hable, if_pos hb, EvalEnv.execute, hpush, Bool.and_false,
    if_neg (by simp), if_pos hgo, and_assoc]

lemma evalLoop_opOk {m₁ : Machine} (hcount : m.nOpCount < 201) (hb : OP_16 < b)
    (hable : disabledOpcodes.contains b = false) (hexec : m.vfExec.contains false = false)
    (hop : env.evalOp flags (!m.vfExec.contains false) pc (.ofByte b)
      { m with nOpCount := m.nOpCount + 1 } = .ok m₁) :
    env.evalLoop flags (b :: pc).length (b :: pc) m = .ok m' ↔
      m₁.stack.length + m₁.altstack.length ≤ 1000 ∧
        env.evalLoop flags pc.length pc m₁ = .ok m' := by
  rw [evalLoop_op hcount hb hable (.inl hexec), hop]
  simp only [Except.ok.injEq, exists_eq_left']

lemma evalLoop_opError {f : ScriptError} (hcount : m.nOpCount < 201) (hb : OP_16 < b)
    (hable : disabledOpcodes.contains b = false) (hexec : m.vfExec.contains false = false)
    (hop : env.evalOp flags (!m.vfExec.contains false) pc (.ofByte b)
      { m with nOpCount := m.nOpCount + 1 } = .error f) :
    env.evalLoop flags (b :: pc).length (b :: pc) m ≠ .ok m' := by
  rw [ne_eq, evalLoop_op hcount hb hable (.inl hexec), hop]
  simp

lemma exists_sized_iff {m₀ : Machine} {P : Machine → Prop} :
    (∃ m₁, (m₀ = m₁ ∧ m₁.stack.length + m₁.altstack.length ≤ 1000) ∧ P m₁) ↔
      m₀.stack.length + m₀.altstack.length ≤ 1000 ∧ P m₀ := by
  constructor
  · rintro ⟨m₁, ⟨rfl, hsize⟩, hrest⟩
    exact ⟨hsize, hrest⟩
  · rintro ⟨hsize, hrest⟩
    exact ⟨_, ⟨rfl, hsize⟩, hrest⟩

lemma evalLoop_skip (hcount : m.nOpCount < 201) (hb : OP_16 < b)
    (hable : disabledOpcodes.contains b = false) (hexec : m.vfExec.contains false = true)
    (hcond : ¬ (0x63 ≤ b ∧ b ≤ 0x68)) :
    env.evalLoop flags (b :: pc).length (b :: pc) m = .ok m' ↔
      m.stack.length + m.altstack.length ≤ 1000 ∧
        env.evalLoop flags pc.length pc { m with nOpCount := m.nOpCount + 1 } = .ok m' := by
  rw [evalLoop_step (getOp_plain hb)]
  have hstop : (!m.vfExec.contains false || decide (0x63 ≤ b) && decide (b ≤ 0x68)) = false := by
    rw [hexec, Bool.not_true, Bool.false_or, ← Bool.decide_and]
    exact decide_eq_false hcond
  simp only [evalStep_eq_ok hcount (show ([] : Valtype).length ≤ 520 by simp) hable, if_pos hb,
    EvalEnv.execute, hexec, Bool.not_true, Bool.false_and, Bool.false_or, Bool.false_eq_true,
    if_false]
  rw [hexec, Bool.not_true, Bool.false_or] at hstop
  simp only [hstop, Bool.false_eq_true, if_false, Except.ok.injEq]
  exact exists_sized_iff

lemma evalLoop_push (hcount : m.nOpCount < 201) (hlen : data.length = 20)
    (hexec : m.vfExec.contains false = false) :
    env.evalLoop flags (pushData data ++ pc).length (pushData data ++ pc) m = .ok m' ↔
      (data :: m.stack).length + m.altstack.length ≤ 1000 ∧
        env.evalLoop flags pc.length pc { m with stack := data :: m.stack } = .ok m' := by
  rw [evalLoop_step (getOp_pushData hlen)]
  have hminimal : checkMinimalPush data 0x14 = true := by
    simp [checkMinimalPush, hlen]
  have hrun : env.execute flags true 0x14 data pc m = .ok { m with stack := data :: m.stack } := by
    rw [EvalEnv.execute, if_pos (by decide), hminimal, Bool.not_true, Bool.and_false]
    rfl
  simp only [evalStep_eq_ok hcount (show data.length ≤ 520 by omega)
    (show disabledOpcodes.contains 0x14 = false by decide), hexec, Bool.not_false,
    if_neg (show ¬ OP_16 < 0x14 by decide), hrun, Except.ok.injEq]
  exact exists_sized_iff

lemma evalLoop_skipPush (hcount : m.nOpCount < 201) (hlen : data.length = 20)
    (hexec : m.vfExec.contains false = true) :
    env.evalLoop flags (pushData data ++ pc).length (pushData data ++ pc) m = .ok m' ↔
      m.stack.length + m.altstack.length ≤ 1000 ∧
        env.evalLoop flags pc.length pc m = .ok m' := by
  rw [evalLoop_step (getOp_pushData hlen)]
  have hrun : env.execute flags false 0x14 data pc m = .ok m := rfl
  simp only [evalStep_eq_ok hcount (show data.length ≤ 520 by omega)
    (show disabledOpcodes.contains 0x14 = false by decide), hexec, Bool.not_true,
    if_neg (show ¬ OP_16 < 0x14 by decide), hrun, Except.ok.injEq]
  exact exists_sized_iff

end Operations

/-! ### The run -/

section Run

variable {env : EvalEnv} {flags : UInt32} {m' : Machine} {a b : KeyIDBytes} {pc code : CScript}
  {stack rest : List Valtype} {vchPubKey vch vchSig hash : Valtype} {n : ℕ}

lemma evalOp_equalVerify {fExec : Bool} {m : Machine} :
    env.evalOp flags fExec pc (.OP_EQUAL true) m = .ok m' ↔
      ∃ vch rest, m.stack = vch :: vch :: rest ∧ m' = { m with stack := rest } := by
  have hpush : ∀ (vch₂ vch₁ : Valtype) (rest : List Valtype), m.stack = vch₂ :: vch₁ :: rest →
      (env.evalOp flags fExec pc (.OP_EQUAL true) m = .ok m' ↔
        vch₁ = vch₂ ∧ m' = { m with stack := rest }) := by
    intro vch₂ vch₁ rest hstack
    simp only [EvalEnv.evalOp, hstack, EvalEnv.pushBool, bind_eq_ok, failIf_eq_ok, pure_eq_ok,
      exists_const, Bool.true_and, if_true, Bool.not_eq_false', beq_iff_eq, eq_comm (a := m')]
  constructor
  · intro h
    rcases hstack : m.stack with _ | ⟨vch₂, _ | ⟨vch₁, rest⟩⟩
    · simp [EvalEnv.evalOp, hstack] at h
    · simp [EvalEnv.evalOp, hstack] at h
    · obtain ⟨rfl, rfl⟩ := (hpush _ _ _ hstack).mp h
      exact ⟨vch₁, rest, rfl, rfl⟩
  · rintro ⟨vch, rest, hstack, hm'⟩
    exact (hpush _ _ _ hstack).mpr ⟨rfl, hm'⟩

lemma evalOp_checkSig {fExec : Bool} {m : Machine} :
    env.evalOp flags fExec pc (.OP_CHECKSIG false) m = .ok m' ↔
      ∃ vchPubKey vchSig rest, m.stack = vchPubKey :: vchSig :: rest ∧
        checkSignatureEncoding env.crypto flags vchSig = .ok () ∧
        checkPubKeyEncoding flags vchPubKey = .ok () ∧
        m' = { m with stack := ofBool (env.checker.checkSig vchSig vchPubKey
          (findAndDelete m.pbegincodehash (pushData vchSig)) env.sigversion) :: rest } := by
  have hcheck : ∀ (vchPubKey vchSig : Valtype) (rest : List Valtype),
      m.stack = vchPubKey :: vchSig :: rest →
      (env.evalOp flags fExec pc (.OP_CHECKSIG false) m = .ok m' ↔
        checkSignatureEncoding env.crypto flags vchSig = .ok () ∧
        checkPubKeyEncoding flags vchPubKey = .ok () ∧
        m' = { m with stack := ofBool (env.checker.checkSig vchSig vchPubKey
          (findAndDelete m.pbegincodehash (pushData vchSig)) env.sigversion) :: rest }) := by
    intro vchPubKey vchSig rest hstack
    simp only [EvalEnv.evalOp, EvalEnv.evalCheckSig, hstack, EvalEnv.pushBool, bind_eq_ok,
      failIf_eq_ok, pure_eq_ok, Unique.exists_iff, PUnit.default_eq_unit, Bool.false_and, true_and,
      Bool.false_eq_true, if_false, eq_comm (a := m')]
  constructor
  · intro h
    rcases hstack : m.stack with _ | ⟨vchPubKey, _ | ⟨vchSig, rest⟩⟩
    · simp [EvalEnv.evalOp, EvalEnv.evalCheckSig, hstack] at h
    · simp [EvalEnv.evalOp, EvalEnv.evalCheckSig, hstack] at h
    · exact ⟨vchPubKey, vchSig, rest, rfl, (hcheck _ _ _ hstack).mp h⟩
  · rintro ⟨vchPubKey, vchSig, rest, hstack, h⟩
    exact (hcheck _ _ _ hstack).mpr h

lemma evalLoop_tail (hn : n ≤ 100) :
    env.evalLoop flags [OP_EQUALVERIFY, OP_CHECKSIG].length [OP_EQUALVERIFY, OP_CHECKSIG]
        ⟨vch :: hash :: vchPubKey :: stack, [], [], n, code⟩ = .ok m' ↔
      ∃ vchSig rest, stack = vchSig :: rest ∧ hash = vch ∧ stack.length + 1 ≤ 1000 ∧
        checkSignatureEncoding env.crypto flags vchSig = .ok () ∧
        checkPubKeyEncoding flags vchPubKey = .ok () ∧
        m' = ⟨ofBool (env.checker.checkSig vchSig vchPubKey
          (findAndDelete code (pushData vchSig)) env.sigversion) :: rest, [], [], n + 2, code⟩ := by
  have hequal : Opcode.ofByte OP_EQUALVERIFY = .OP_EQUAL true := by decide
  have hsig : Opcode.ofByte OP_CHECKSIG = .OP_CHECKSIG false := by decide
  rw [evalLoop_op (show n < 201 by omega) (by decide) (by decide) (.inl rfl), hequal]
  simp only [evalOp_equalVerify]
  constructor
  · rintro ⟨m₁, ⟨x, rest₁, hstack, rfl⟩, hsize, hrest⟩
    obtain ⟨rfl, htail⟩ := List.cons.inj hstack
    obtain ⟨rfl, rfl⟩ := List.cons.inj htail
    rw [evalLoop_op (show n + 1 < 201 by omega) (by decide) (by decide) (.inl rfl), hsig] at hrest
    obtain ⟨m₂, hcheck, -, hend⟩ := hrest
    obtain ⟨pk, vchSig, rest, hstack, henc, hkey, rfl⟩ := evalOp_checkSig.mp hcheck
    obtain ⟨rfl, rfl⟩ := List.cons.inj hstack
    refine ⟨vchSig, rest, rfl, rfl, ?_, henc, hkey, (Except.ok.inj hend).symm⟩
    simpa using hsize
  · rintro ⟨vchSig, rest, rfl, rfl, hsize, henc, hkey, rfl⟩
    refine ⟨_, ⟨hash, _, rfl, rfl⟩, by simpa using hsize, ?_⟩
    rw [evalLoop_op (show n + 1 < 201 by omega) (by decide) (by decide) (.inl rfl), hsig]
    refine ⟨_, evalOp_checkSig.mpr ⟨vchPubKey, vchSig, rest, rfl, henc, hkey, rfl⟩, ?_, rfl⟩
    simp only [List.length_cons, List.length_nil] at hsize ⊢
    omega

lemma evalLoop_head_cons :
    env.evalLoop flags (OP_DUP :: OP_HASH160 :: OP_ROT :: OP_IF :: pc).length
        (OP_DUP :: OP_HASH160 :: OP_ROT :: OP_IF :: pc)
        ⟨vchPubKey :: vch :: rest, [], [], 0, code⟩ = .ok m' ↔
      rest.length + 3 ≤ 1000 ∧ env.evalLoop flags pc.length pc
        ⟨env.crypto.hash160 vchPubKey :: vchPubKey :: rest, [], [castToBool vch], 4, code⟩ =
          .ok m' := by
  have hdup : ∀ pc, env.evalOp flags true pc (.ofByte OP_DUP)
      ⟨vchPubKey :: vch :: rest, [], [], 1, code⟩ =
        .ok ⟨vchPubKey :: vchPubKey :: vch :: rest, [], [], 1, code⟩ := fun _ => rfl
  have hhash : ∀ pc, env.evalOp flags true pc (.ofByte OP_HASH160)
      ⟨vchPubKey :: vchPubKey :: vch :: rest, [], [], 2, code⟩ =
        .ok ⟨env.crypto.hash160 vchPubKey :: vchPubKey :: vch :: rest, [], [], 2, code⟩ :=
    fun _ => rfl
  have hrot : ∀ pc, env.evalOp flags true pc (.ofByte OP_ROT)
      ⟨env.crypto.hash160 vchPubKey :: vchPubKey :: vch :: rest, [], [], 3, code⟩ =
        .ok ⟨vch :: env.crypto.hash160 vchPubKey :: vchPubKey :: rest, [], [], 3, code⟩ :=
    fun _ => rfl
  have hif : ∀ pc, env.evalOp flags true pc (.ofByte OP_IF)
      ⟨vch :: env.crypto.hash160 vchPubKey :: vchPubKey :: rest, [], [], 4, code⟩ =
        .ok ⟨env.crypto.hash160 vchPubKey :: vchPubKey :: rest, [], [castToBool vch], 4, code⟩ :=
    fun _ => rfl
  rw [evalLoop_opOk (show 0 < 201 by omega) (by decide) (by decide) rfl (hdup _),
    evalLoop_opOk (show 1 < 201 by omega) (by decide) (by decide) rfl (hhash _),
    evalLoop_opOk (show 2 < 201 by omega) (by decide) (by decide) rfl (hrot _),
    evalLoop_opOk (show 3 < 201 by omega) (by decide) (by decide) rfl (hif _)]
  simp only [List.length_cons, List.length_nil]
  constructor
  · rintro ⟨hsize, -, -, -, h⟩
    exact ⟨by omega, h⟩
  · rintro ⟨hsize, h⟩
    exact ⟨by omega, by omega, by omega, by omega, h⟩

lemma evalLoop_head :
    env.evalLoop flags (OP_DUP :: OP_HASH160 :: OP_ROT :: OP_IF :: pc).length
        (OP_DUP :: OP_HASH160 :: OP_ROT :: OP_IF :: pc) ⟨stack, [], [], 0, code⟩ = .ok m' ↔
      ∃ vchPubKey vch rest, stack = vchPubKey :: vch :: rest ∧ rest.length + 3 ≤ 1000 ∧
        env.evalLoop flags pc.length pc ⟨env.crypto.hash160 vchPubKey :: vchPubKey :: rest, [],
          [castToBool vch], 4, code⟩ = .ok m' := by
  constructor
  · intro h
    rcases stack with _ | ⟨vchPubKey, _ | ⟨vch, rest⟩⟩
    · exact absurd h (evalLoop_opError (show 0 < 201 by omega) (by decide) (by decide) rfl rfl)
    · have hdup : ∀ pc, env.evalOp flags true pc (.ofByte OP_DUP) ⟨[vchPubKey], [], [], 1, code⟩ =
          .ok ⟨[vchPubKey, vchPubKey], [], [], 1, code⟩ := fun _ => rfl
      have hhash : ∀ pc, env.evalOp flags true pc (.ofByte OP_HASH160)
          ⟨[vchPubKey, vchPubKey], [], [], 2, code⟩ =
            .ok ⟨[env.crypto.hash160 vchPubKey, vchPubKey], [], [], 2, code⟩ := fun _ => rfl
      rw [evalLoop_opOk (show 0 < 201 by omega) (by decide) (by decide) rfl (hdup _),
        evalLoop_opOk (show 1 < 201 by omega) (by decide) (by decide) rfl (hhash _)] at h
      exact absurd h.2.2
        (evalLoop_opError (show 2 < 201 by omega) (by decide) (by decide) rfl rfl)
    · exact ⟨vchPubKey, vch, rest, rfl, evalLoop_head_cons.mp h⟩
  · rintro ⟨vchPubKey, vch, rest, rfl, h⟩
    exact evalLoop_head_cons.mpr h

lemma evalLoop_branches {c : Bool} (hstack : stack.length + 1 ≤ 1000) :
    env.evalLoop flags
        (OP_CHECKCOLDSTAKEVERIFY :: (pushData a.1 ++ (OP_ELSE :: (pushData b.1 ++
          (OP_ENDIF :: pc))))).length
        (OP_CHECKCOLDSTAKEVERIFY :: (pushData a.1 ++ (OP_ELSE :: (pushData b.1 ++
          (OP_ENDIF :: pc))))) ⟨stack, [], [c], 4, code⟩ = .ok m' ↔
      (c = true → env.checker.checkColdStake env.script = true) ∧
        env.evalLoop flags pc.length pc
          ⟨(if c then a.1 else b.1) :: stack, [], [], 7, code⟩ = .ok m' := by
  have hcold : Opcode.ofByte OP_CHECKCOLDSTAKEVERIFY = .OP_CHECKCOLDSTAKEVERIFY := by decide
  have helse : Opcode.ofByte OP_ELSE = .OP_ELSE := by decide
  have hendif : Opcode.ofByte OP_ENDIF = .OP_ENDIF := by decide
  have hlow : stack.length + ([] : List Valtype).length ≤ 1000 := Nat.le_of_succ_le hstack
  have hhigh : ∀ vch : Valtype, (vch :: stack).length + ([] : List Valtype).length ≤ 1000 :=
    fun _ => hstack
  cases c with
  | false =>
    rw [evalLoop_skip (show 4 < 201 by omega) (by decide) (by decide) rfl (by decide),
      evalLoop_skipPush (show 5 < 201 by omega) a.2 rfl,
      evalLoop_op (show 5 < 201 by omega) (by decide) (by decide) (.inr (by decide)), helse]
    simp only [EvalEnv.evalOp, Except.ok.injEq, exists_eq_left', Bool.not_false]
    rw [evalLoop_push (show 6 < 201 by omega) b.2 rfl,
      evalLoop_op (show 6 < 201 by omega) (by decide) (by decide) (.inl rfl), hendif]
    simp only [EvalEnv.evalOp, Except.ok.injEq, exists_eq_left']
    constructor
    · rintro ⟨-, -, -, -, -, h⟩
      exact ⟨nofun, h⟩
    · rintro ⟨-, h⟩
      exact ⟨hlow, hlow, hlow, hhigh _, hhigh _, h⟩
  | true =>
    rw [evalLoop_op (show 4 < 201 by omega) (by decide) (by decide) (.inl rfl), hcold]
    have hrest : env.evalLoop flags
        (pushData a.1 ++ (OP_ELSE :: (pushData b.1 ++ (OP_ENDIF :: pc)))).length
        (pushData a.1 ++ (OP_ELSE :: (pushData b.1 ++ (OP_ENDIF :: pc))))
          ⟨stack, [], [true], 5, code⟩ = .ok m' ↔
        env.evalLoop flags pc.length pc ⟨a.1 :: stack, [], [], 7, code⟩ = .ok m' := by
      rw [evalLoop_push (show 5 < 201 by omega) a.2 rfl,
        evalLoop_op (show 5 < 201 by omega) (by decide) (by decide) (.inr (by decide)), helse]
      simp only [EvalEnv.evalOp, Except.ok.injEq, exists_eq_left', Bool.not_true]
      rw [evalLoop_skipPush (show 6 < 201 by omega) b.2 rfl,
        evalLoop_op (show 6 < 201 by omega) (by decide) (by decide) (.inr (by decide)), hendif]
      simp only [EvalEnv.evalOp, Except.ok.injEq, exists_eq_left']
      constructor
      · rintro ⟨-, -, -, -, h⟩
        exact h
      · intro h
        exact ⟨hhigh _, hhigh _, hhigh _, hhigh _, h⟩
    simp only [EvalEnv.evalOp, if_true, forall_const]
    by_cases hcheck : env.checker.checkColdStake env.script = true
    · simp only [hcheck, if_true, true_and, Except.ok.injEq, exists_eq_left']
      rw [← hrest]
      exact and_iff_right hlow
    · simp only [hcheck, if_false, false_and, reduceCtorEq, exists_false, Bool.false_eq_true]

lemma length_pushData {data : Valtype} (hlen : data.length = 20) : (pushData data).length = 21 := by
  unfold pushData
  rw [hlen, if_pos (by decide), List.length_cons, hlen]

lemma length_getScriptForStakeDelegation (a b : KeyIDBytes) :
    (getScriptForStakeDelegation a b).length = 51 := by
  simp [getScriptForStakeDelegation, length_pushData a.2, length_pushData b.2]

lemma evalScript_eq_ok {script : CScript} {out : List Valtype} {crypto : ScriptCrypto}
    {checker : SignatureChecker} {sigversion : SigVersion}
    (hlen : script.length ≤ MAX_SCRIPT_SIZE) :
    evalScript stack script flags crypto checker sigversion = .ok out ↔ ∃ m,
      EvalEnv.evalLoop ⟨crypto, checker, sigversion, script⟩ flags script.length script
        ⟨stack, [], [], 0, script⟩ = .ok m ∧ m.vfExec = [] ∧ m.stack = out := by
  have hsize : decide (MAX_SCRIPT_SIZE < script.length) = false := decide_eq_false (by omega)
  unfold evalScript
  simp only [bind_eq_ok, failIf_eq_ok, pure_eq_ok, hsize, exists_const, true_and,
    Bool.not_eq_false', List.isEmpty_iff]

lemma evalLoop_delegation {script : CScript} {crypto : ScriptCrypto} {checker : SignatureChecker}
    {sigversion : SigVersion} (hform : script =
      OP_DUP :: OP_HASH160 :: OP_ROT :: OP_IF :: OP_CHECKCOLDSTAKEVERIFY :: (pushData a.1 ++
        (OP_ELSE :: (pushData b.1 ++ (OP_ENDIF :: [OP_EQUALVERIFY, OP_CHECKSIG]))))) :
    EvalEnv.evalLoop ⟨crypto, checker, sigversion, script⟩ flags script.length script
        ⟨stack, [], [], 0, script⟩ = .ok m' ↔
      ∃ vchPubKey vch vchSig rest, stack = vchPubKey :: vch :: vchSig :: rest ∧
        rest.length + 4 ≤ 1000 ∧ (castToBool vch = true → checker.checkColdStake script = true) ∧
        crypto.hash160 vchPubKey = (if castToBool vch then a.1 else b.1) ∧
        checkSignatureEncoding crypto flags vchSig = .ok () ∧
        checkPubKeyEncoding flags vchPubKey = .ok () ∧
        m' = ⟨ofBool (checker.checkSig vchSig vchPubKey
          (findAndDelete script (pushData vchSig)) sigversion) :: rest, [], [], 9, script⟩ := by
  set env : EvalEnv := ⟨crypto, checker, sigversion, script⟩
  have hhead := @evalLoop_head env flags m' (OP_CHECKCOLDSTAKEVERIFY :: (pushData a.1 ++
    (OP_ELSE :: (pushData b.1 ++ (OP_ENDIF :: [OP_EQUALVERIFY, OP_CHECKSIG]))))) script stack
  rw [← hform] at hhead
  rw [hhead]
  constructor
  · rintro ⟨vchPubKey, vch, rest, rfl, hsize, h⟩
    have hbound : (crypto.hash160 vchPubKey :: vchPubKey :: rest).length + 1 ≤ 1000 := hsize
    rw [evalLoop_branches hbound, evalLoop_tail (by omega)] at h
    obtain ⟨hcheck, vchSig, rest, rfl, hhash, -, henc, hkey, rfl⟩ := h
    exact ⟨vchPubKey, vch, vchSig, rest, rfl, hsize, hcheck, hhash, henc, hkey, rfl⟩
  · rintro ⟨vchPubKey, vch, vchSig, rest, rfl, hsize, hcheck, hhash, henc, hkey, rfl⟩
    have hbound : (crypto.hash160 vchPubKey :: vchPubKey :: vchSig :: rest).length + 1 ≤ 1000 :=
      hsize
    refine ⟨vchPubKey, vch, vchSig :: rest, rfl, hsize, ?_⟩
    rw [evalLoop_branches hbound, evalLoop_tail (by omega)]
    refine ⟨hcheck, vchSig, rest, rfl, hhash, ?_, henc, hkey, rfl⟩
    rw [List.length_cons]
    omega

lemma endsTrue_ofBool (c : Bool) (rest : List Valtype) :
    endsTrue (ofBool c :: rest) = .ok () ↔ c = true := by
  cases c <;> simp [endsTrue, ofBool, castToBool]

/-- **Who can spend a delegated coin.** The owner without further conditions, the staker where
`CheckColdStake` allows it, and nobody else. -/
theorem spentBy_delegation (a b : KeyIDBytes) :
    SpentBy (getScriptForStakeDelegation a b) a b := by
  intro crypto checker flags sigversion stack
  have hlen : (getScriptForStakeDelegation a b).length ≤ MAX_SCRIPT_SIZE := by
    rw [length_getScriptForStakeDelegation]
    decide
  have hform : getScriptForStakeDelegation a b =
      OP_DUP :: OP_HASH160 :: OP_ROT :: OP_IF :: OP_CHECKCOLDSTAKEVERIFY :: (pushData a.1 ++
        (OP_ELSE :: (pushData b.1 ++ (OP_ENDIF :: [OP_EQUALVERIFY, OP_CHECKSIG])))) := rfl
  generalize getScriptForStakeDelegation a b = script at hlen hform ⊢
  unfold Spends
  simp only [evalScript_eq_ok hlen, evalLoop_delegation hform]
  constructor
  · rintro ⟨out, ⟨m, hm, -, rfl⟩, hend⟩
    obtain ⟨vchPubKey, vch, vchSig, rest, rfl, hsize, hcheck, hhash, henc, hkey, rfl⟩ := hm
    refine ⟨vchPubKey, vch, vchSig, rest, rfl, hsize,
      ⟨henc, hkey, (endsTrue_ofBool _ _).mp hend⟩, ?_⟩
    cases hvch : castToBool vch with
    | false =>
      rw [hvch, if_neg (by decide)] at hhash
      exact .inl ⟨rfl, hhash⟩
    | true =>
      rw [hvch, if_pos rfl] at hhash
      exact .inr ⟨rfl, hcheck hvch, hhash⟩
  · rintro ⟨vchPubKey, vch, vchSig, rest, rfl, hsize, ⟨henc, hkey, hsig⟩, hbranch⟩
    refine ⟨_, ⟨_, ⟨vchPubKey, vch, vchSig, rest, rfl, hsize, ?_, ?_, henc, hkey, rfl⟩, rfl, rfl⟩,
      (endsTrue_ofBool _ _).mpr hsig⟩
    · intro hvch
      rcases hbranch with ⟨hno, -⟩ | ⟨-, hcheck, -⟩
      · rw [hvch] at hno
        cases hno
      · exact hcheck
    · rcases hbranch with ⟨hno, hhash⟩ | ⟨hyes, -, hhash⟩
      · rw [hno, if_neg (by decide)]
        exact hhash
      · rw [hyes, if_pos rfl]
        exact hhash

end Run

/-! ### The bytes -/

section Bytes

variable {s : CScript}

def parts (c₀ c₁ c₂ c₃ c₄ c₅ : UInt8) (a : KeyIDBytes) (c₂₆ c₂₇ : UInt8) (b : KeyIDBytes)
    (c₄₈ c₄₉ c₅₀ : UInt8) : CScript :=
  c₀ :: c₁ :: c₂ :: c₃ :: c₄ :: c₅ :: (a.1 ++ (c₂₆ :: c₂₇ :: (b.1 ++ [c₄₈, c₄₉, c₅₀])))

variable {c₀ c₁ c₂ c₃ c₄ c₅ c₂₆ c₂₇ c₄₈ c₄₉ c₅₀ : UInt8} {a b : KeyIDBytes}

lemma exists_append_of_le {α : Type} {l : List α} {n : ℕ} (h : n ≤ l.length) :
    ∃ v t, v.length = n ∧ t.length = l.length - n ∧ l = v ++ t := by
  refine ⟨l.take n, l.drop n, ?_, ?_, (List.take_append_drop n l).symm⟩
  · rw [List.length_take]
    omega
  · rw [List.length_drop]

lemma exists_parts (h : s.length = 51) : ∃ c₀ c₁ c₂ c₃ c₄ c₅ a c₂₆ c₂₇ b c₄₈ c₄₉ c₅₀,
    s = parts c₀ c₁ c₂ c₃ c₄ c₅ a c₂₆ c₂₇ b c₄₈ c₄₉ c₅₀ := by
  obtain ⟨head, rest, hhead, hrest, rfl⟩ :=
    exists_append_of_le (n := 6) (show 6 ≤ s.length by omega)
  obtain ⟨a, rest₁, ha, hrest₁, rfl⟩ :=
    exists_append_of_le (n := 20) (show 20 ≤ rest.length by omega)
  obtain ⟨mid, rest₂, hmid, hrest₂, rfl⟩ :=
    exists_append_of_le (n := 2) (show 2 ≤ rest₁.length by omega)
  obtain ⟨b, tail, hb, htail, rfl⟩ :=
    exists_append_of_le (n := 20) (show 20 ≤ rest₂.length by omega)
  have hthree : tail.length = 3 := by omega
  rcases head with _ | ⟨c₀, _ | ⟨c₁, _ | ⟨c₂, _ | ⟨c₃, _ | ⟨c₄, _ | ⟨c₅, _ | _⟩⟩⟩⟩⟩⟩ <;>
    simp only [List.length_cons, List.length_nil] at hhead <;> try omega
  obtain ⟨c₂₆, c₂₇, rfl⟩ := List.length_eq_two.mp hmid
  obtain ⟨c₄₈, c₄₉, c₅₀, rfl⟩ := List.length_eq_three.mp hthree
  exact ⟨c₀, c₁, c₂, c₃, c₄, c₅, ⟨a, ha⟩, c₂₆, c₂₇, ⟨b, hb⟩, c₄₈, c₄₉, c₅₀, rfl⟩

lemma getElem?_hash (a : KeyIDBytes) (t : CScript) (k : ℕ) : (a.1 ++ t)[20 + k]? = t[k]? := by
  rw [List.getElem?_append_right (by rw [a.2]; omega), a.2, Nat.add_sub_cancel_left]

lemma sampled_parts : Sampled (parts c₀ c₁ c₂ c₃ c₄ c₅ a c₂₆ c₂₇ b c₄₈ c₄₉ c₅₀) ↔
    c₂ = OP_ROT ∧ c₄ = OP_CHECKCOLDSTAKEVERIFY ∧ c₅ = 0x14 ∧ c₂₇ = 0x14 ∧ c₄₉ = OP_EQUALVERIFY ∧
      c₅₀ = OP_CHECKSIG := by
  have hlen : (parts c₀ c₁ c₂ c₃ c₄ c₅ a c₂₆ c₂₇ b c₄₈ c₄₉ c₅₀).length = 51 := by
    simp [parts, a.2, b.2]
  have h27 : (parts c₀ c₁ c₂ c₃ c₄ c₅ a c₂₆ c₂₇ b c₄₈ c₄₉ c₅₀)[27]? = some c₂₇ :=
    getElem?_hash a _ 1
  have h49 : (parts c₀ c₁ c₂ c₃ c₄ c₅ a c₂₆ c₂₇ b c₄₈ c₄₉ c₅₀)[49]? = some c₄₉ :=
    (getElem?_hash a _ 23).trans (getElem?_hash b _ 1)
  have h50 : (parts c₀ c₁ c₂ c₃ c₄ c₅ a c₂₆ c₂₇ b c₄₈ c₄₉ c₅₀)[50]? = some c₅₀ :=
    (getElem?_hash a _ 24).trans (getElem?_hash b _ 2)
  unfold Sampled
  rw [hlen, h27, h49, h50]
  simp only [parts, List.getElem?_cons_succ, List.getElem?_cons_zero, Option.some.injEq,
    true_and]

lemma unsampled_parts : Unsampled (parts c₀ c₁ c₂ c₃ c₄ c₅ a c₂₆ c₂₇ b c₄₈ c₄₉ c₅₀) ↔
    c₀ = OP_DUP ∧ c₁ = OP_HASH160 ∧ c₃ = OP_IF ∧ c₂₆ = OP_ELSE ∧ c₄₈ = OP_ENDIF := by
  have h26 : (parts c₀ c₁ c₂ c₃ c₄ c₅ a c₂₆ c₂₇ b c₄₈ c₄₉ c₅₀)[26]? = some c₂₆ :=
    getElem?_hash a _ 0
  have h48 : (parts c₀ c₁ c₂ c₃ c₄ c₅ a c₂₆ c₂₇ b c₄₈ c₄₉ c₅₀)[48]? = some c₄₈ :=
    (getElem?_hash a _ 22).trans (getElem?_hash b _ 0)
  unfold Unsampled
  rw [h26, h48]
  simp only [parts, List.getElem?_cons_succ, List.getElem?_cons_zero, Option.some.injEq]

lemma pushData_hash (a : KeyIDBytes) : pushData a.1 = 0x14 :: a.1 := by
  unfold pushData
  rw [a.2]
  rfl

lemma getScriptForStakeDelegation_eq (a b : KeyIDBytes) : getScriptForStakeDelegation a b =
    parts OP_DUP OP_HASH160 OP_ROT OP_IF OP_CHECKCOLDSTAKEVERIFY 0x14 a OP_ELSE 0x14 b OP_ENDIF
      OP_EQUALVERIFY OP_CHECKSIG := by
  simp [getScriptForStakeDelegation, pushData_hash, parts]

lemma delegates_iff : (∃ a b, s = getScriptForStakeDelegation a b) ↔ Sampled s ∧ Unsampled s := by
  constructor
  · rintro ⟨a, b, rfl⟩
    rw [getScriptForStakeDelegation_eq, sampled_parts, unsampled_parts]
    decide
  · rintro ⟨hs, hu⟩
    obtain ⟨c₀, c₁, c₂, c₃, c₄, c₅, a, c₂₆, c₂₇, b, c₄₈, c₄₉, c₅₀, rfl⟩ := exists_parts hs.1
    obtain ⟨rfl, rfl, rfl, rfl, rfl, rfl⟩ := sampled_parts.mp hs
    obtain ⟨rfl, rfl, rfl, rfl, rfl⟩ := unsampled_parts.mp hu
    exact ⟨a, b, (getScriptForStakeDelegation_eq a b).symm⟩

lemma isPayToColdStaking_iff : isPayToColdStaking s = true ↔ Sampled s := by
  simp only [isPayToColdStaking, Sampled, Bool.and_eq_true, beq_iff_eq, and_assoc]

lemma solver_delegation (a b : KeyIDBytes) :
    solver (getScriptForStakeDelegation a b) = some ⟨true, .TX_COLDSTAKE, [a.1, b.1]⟩ := by
  have hlen := length_getScriptForStakeDelegation a b
  have hcold : matchPayToColdStaking (getScriptForStakeDelegation a b) = some (a.1, b.1) := by
    have hrec : isPayToColdStaking (getScriptForStakeDelegation a b) = true :=
      isPayToColdStaking_iff.mpr (delegates_iff.mp ⟨a, b, rfl⟩).1
    have htake : ∀ (a : KeyIDBytes) (t : CScript), (a.1 ++ t).take 20 = a.1 := by
      intro a t
      exact List.take_left' a.2
    have hdrop : ∀ (a : KeyIDBytes) (t : CScript), (a.1 ++ t).drop 20 = t := by
      intro a t
      exact List.drop_left' a.2
    have hsecond : (parts OP_DUP OP_HASH160 OP_ROT OP_IF OP_CHECKCOLDSTAKEVERIFY 0x14 a OP_ELSE 0x14
        b OP_ENDIF OP_EQUALVERIFY OP_CHECKSIG).drop 28 =
          b.1 ++ [OP_ENDIF, OP_EQUALVERIFY, OP_CHECKSIG] := by
      have hsum : 28 = 6 + (20 + 2) := rfl
      rw [hsum, ← List.drop_drop, ← List.drop_drop]
      simp only [parts, List.drop_succ_cons, List.drop_zero, hdrop]
    rw [matchPayToColdStaking, if_pos hrec, getScriptForStakeDelegation_eq, hsecond, htake]
    simp only [parts, List.drop_succ_cons, List.drop_zero, htake]
  have hkey : matchPayToPubkey (getScriptForStakeDelegation a b) = none := by
    unfold matchPayToPubkey
    rw [if_neg (by omega), if_neg (by omega)]
  have hhash : matchPayToPubkeyHash (getScriptForStakeDelegation a b) = none := by
    unfold matchPayToPubkeyHash
    rw [if_neg (by omega)]
  have hp2sh : isPayToScriptHash (getScriptForStakeDelegation a b) = false := by
    simp [isPayToScriptHash, hlen]
  have hfirst : (getScriptForStakeDelegation a b)[0]? = some OP_DUP := rfl
  have hmint : isZerocoinMint (getScriptForStakeDelegation a b) = false := rfl
  unfold solver
  rw [hp2sh, hmint, hfirst, hkey, hhash, hcold]
  rfl

/-- **Recognising delegated coins.** A script that passes the test is treated as it should be,
unless one of the opcodes that the test does not look at is another. -/
theorem exactlyDelegated_iff (s : CScript) : ExactlyDelegated s ↔ (Sampled s → Unsampled s) := by
  constructor
  · intro h hs
    exact (delegates_iff.mp (h.recognised.mp (isPayToColdStaking_iff.mpr hs))).2
  · intro h
    have hrec : isPayToColdStaking s = true ↔
        ∃ stakingKey spendingKey, s = getScriptForStakeDelegation stakingKey spendingKey := by
      rw [isPayToColdStaking_iff, delegates_iff]
      exact ⟨fun hs => ⟨hs, h hs⟩, And.left⟩
    refine ⟨hrec, fun hs => ?_⟩
    obtain ⟨a, b, rfl⟩ := hrec.mp hs
    exact ⟨a, b, rfl, solver_delegation a b, spentBy_delegation a b⟩

end Bytes

namespace Concrete

/-- A script with the opcode of the check behind a push of one byte, as data. What is pushed is
dropped again, and the second element of the input is compared with the hash of the key. -/
def ungatedScript : CScript :=
  [OP_DUP, OP_HASH160, OP_ROT, 0x01, OP_CHECKCOLDSTAKEVERIFY, 0x14] ++ List.replicate 20 1 ++
    [0x6d, 0x14] ++ List.replicate 20 2 ++ [0x75, OP_EQUALVERIFY, OP_CHECKSIG]

/-- Hashes that are the data itself. -/
def plainCrypto : ScriptCrypto := ⟨id, id, id, id, id, fun _ => true⟩

/-- A checker that knows the signatures of all keys and no coinstake. -/
def noColdStake : SignatureChecker := ⟨fun _ _ _ _ => true, fun _ => true, fun _ => false⟩

/-- It is recognised and assigned to two keys, and any third key spends it, without a coinstake. -/
theorem ungatedScript_spent :
    isPayToColdStaking ungatedScript = true ∧
      solver ungatedScript =
        some ⟨true, .TX_COLDSTAKE, [List.replicate 20 1, List.replicate 20 2]⟩ ∧
      (¬ ∃ a b, ungatedScript = getScriptForStakeDelegation a b) ∧
      noColdStake.checkColdStake ungatedScript = false ∧
      Spends plainCrypto noColdStake SCRIPT_VERIFY_NONE .SIGVERSION_BASE [[9], [9], [1]]
        ungatedScript := by
  refine ⟨by decide, by decide, ?_, rfl, [[1]], by rfl, rfl⟩
  intro h
  exact absurd (delegates_iff.mp h).2.2.2.1 (by decide)

end Concrete

end Script

end Agenor
