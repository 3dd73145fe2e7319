import Agenor.Interpreter

/-!
The verification flags only restrict: what `VerifyScript` accepts with some flags it accepts with
fewer, one pair of flags apart. `OP_CHECKLOCKTIMEVERIFY` that is enabled only with the larger set
is a discouraged no-operation with the smaller one, when that has the flag for it.

Every function that looks at the flags is compared with itself at the smaller set: it fails less
often and returns the same. The comparison goes through `EvalScript` operation by operation, so
the two runs are in the same state as long as the stricter one goes on.
-/

namespace Agenor

open Lib.Fallible

namespace Script

/-- The flags `F` are among `G`, and `OP_CHECKLOCKTIMEVERIFY` is not discouraged with the one and
enabled with the other. -/
structure Restricts (F G : UInt32) : Prop where
  subset : F &&& G = F
  lockTime : hasFlag F SCRIPT_VERIFY_DISCOURAGE_UPGRADABLE_NOPS = true →
    hasFlag G SCRIPT_VERIFY_CHECKLOCKTIMEVERIFY = true →
    hasFlag F SCRIPT_VERIFY_CHECKLOCKTIMEVERIFY = true

lemma hasFlag_of_subset {F G mask : UInt32} (h : F &&& G = F) (hF : hasFlag F mask = true) :
    hasFlag G mask = true := by
  simp only [hasFlag, bne_iff_ne, ne_eq] at hF ⊢
  intro hG
  apply hF
  calc F &&& mask = (F &&& G) &&& mask := by rw [h]
    _ = F &&& (G &&& mask) := UInt32.and_assoc F G mask
    _ = 0 := by rw [hG, UInt32.and_zero]

section Checks

variable {F G : UInt32} (h : Restricts F G)
include h

lemma Restricts.hasFlag {mask : UInt32} (hF : hasFlag F mask = true) : hasFlag G mask = true :=
  hasFlag_of_subset h.subset hF

lemma Restricts.failIf (mask : UInt32) (c : Bool) (e : ScriptError) :
    Below (Lib.Fallible.failIf (Script.hasFlag G mask && c) e)
      (Lib.Fallible.failIf (Script.hasFlag F mask && c) e) := by
  apply Below.failIf
  intro hF
  rw [Bool.and_eq_true] at hF ⊢
  exact ⟨h.hasFlag hF.1, hF.2⟩

lemma Restricts.scriptNum (vch : Valtype) (nMaxNumSize : ℕ) :
    Below (scriptNum vch (Script.hasFlag G SCRIPT_VERIFY_MINIMALDATA) nMaxNumSize)
      (scriptNum vch (Script.hasFlag F SCRIPT_VERIFY_MINIMALDATA) nMaxNumSize) := by
  unfold Script.scriptNum
  refine (Below.refl _).bind fun _ => ?_
  exact (h.failIf _ _ _).bind fun _ => Below.refl _

lemma Restricts.checkSignatureEncoding (crypto : ScriptCrypto) (vchSig : Valtype) :
    Below (checkSignatureEncoding crypto G vchSig) (checkSignatureEncoding crypto F vchSig) := by
  unfold Script.checkSignatureEncoding
  refine Below.ite (fun _ => Below.refl _) fun _ => ?_
  refine (h.failIf _ _ _).bind fun _ => ?_
  refine Below.bind ?_ fun _ => h.failIf _ _ _
  by_cases hF : Script.hasFlag F SCRIPT_VERIFY_LOW_S = true
  · rw [if_pos hF, if_pos (h.hasFlag hF)]
    exact Below.refl _
  · rw [if_neg hF]
    intro u _
    rfl

lemma Restricts.checkPubKeyEncoding (vchPubKey : Valtype) :
    Below (checkPubKeyEncoding G vchPubKey) (checkPubKeyEncoding F vchPubKey) :=
  h.failIf _ _ _

end Checks

/-! ### The operations -/

namespace EvalEnv

variable {F G : UInt32} (h : Restricts F G) (env : EvalEnv)
include h

lemma numArg_below (vch : Valtype) : Below (numArg G vch) (numArg F vch) := h.scriptNum vch _

lemma checkLockTimeVerify_below (m : Machine) :
    Below (env.checkLockTimeVerify G m) (env.checkLockTimeVerify F m) := by
  unfold checkLockTimeVerify
  by_cases hF : hasFlag F SCRIPT_VERIFY_CHECKLOCKTIMEVERIFY = true
  · have hG := h.hasFlag hF
    simp only [hF, hG, Bool.not_true, Bool.false_eq_true, if_false]
    cases m.stack with
    | nil => exact Below.refl _
    | cons vch stack =>
      dsimp only
      exact (h.scriptNum vch 5).bind fun nLockTime => Below.refl _
  · by_cases hG : hasFlag G SCRIPT_VERIFY_CHECKLOCKTIMEVERIFY = true
    · have hno : hasFlag F SCRIPT_VERIFY_DISCOURAGE_UPGRADABLE_NOPS = false := by
        cases hd : hasFlag F SCRIPT_VERIFY_DISCOURAGE_UPGRADABLE_NOPS with
        | false => rfl
        | true => exact absurd (h.lockTime hd hG) hF
      simp only [hF, hG, hno, Bool.not_true, Bool.not_false, Bool.false_eq_true, if_false, if_true]
      intro m' hm
      cases hs : m.stack with
      | nil => simp [hs] at hm
      | cons vch stack =>
        simp only [hs, bind_eq_ok, pure_eq_ok] at hm
        obtain ⟨-, -, -, -, -, -, rfl⟩ := hm
        rfl
    · simp only [hF, hG, Bool.not_false, if_true]
      refine Below.bind ?_ fun _ => Below.refl _
      exact Below.failIf _ h.hasFlag

lemma evalPick_below (fRoll : Bool) (m : Machine) :
    Below (evalPick G fRoll m) (evalPick F fRoll m) := by
  unfold evalPick
  split
  · exact (numArg_below h _).bind fun _ => Below.refl _
  · exact Below.refl _

lemma evalUnary_below (op : UnaryOp) (m : Machine) :
    Below (evalUnary G op m) (evalUnary F op m) := by
  unfold evalUnary
  split
  · exact (numArg_below h _).bind fun _ => Below.refl _
  · exact Below.refl _

lemma evalBinary_below (op : BinaryOp) (m : Machine) :
    Below (evalBinary G op m) (evalBinary F op m) := by
  unfold evalBinary
  split
  · refine (numArg_below h _).bind fun bn1 => ?_
    exact (numArg_below h _).bind fun bn2 => Below.refl _
  · exact Below.refl _

lemma evalWithin_below (m : Machine) : Below (evalWithin G m) (evalWithin F m) := by
  unfold evalWithin
  split
  · refine (numArg_below h _).bind fun bn1 => ?_
    refine (numArg_below h _).bind fun bn2 => ?_
    exact (numArg_below h _).bind fun bn3 => Below.refl _
  · exact Below.refl _

lemma evalCheckSig_below (fVerify : Bool) (m : Machine) :
    Below (env.evalCheckSig G fVerify m) (env.evalCheckSig F fVerify m) := by
  unfold evalCheckSig
  split
  · refine (h.checkSignatureEncoding _ _).bind fun _ => ?_
    exact (h.checkPubKeyEncoding _).bind fun _ => Below.refl _
  · exact Below.refl _

lemma multiSigLoop_below (scriptCode : CScript) (keys sigs : List Valtype) :
    Below (env.multiSigLoop G scriptCode keys sigs) (env.multiSigLoop F scriptCode keys sigs) := by
  induction keys generalizing sigs with
  | nil =>
    cases sigs with
    | nil => exact Below.refl _
    | cons vchSig sigs => exact Below.refl _
  | cons vchPubKey keys ih =>
    cases sigs with
    | nil => exact Below.refl _
    | cons vchSig sigs =>
      rw [multiSigLoop, multiSigLoop]
      refine (h.checkSignatureEncoding _ _).bind fun _ => ?_
      refine (h.checkPubKeyEncoding _).bind fun _ => ?_
      exact Below.ite (fun _ => Below.refl _) fun _ => ih _

lemma evalMultiSigArgs_below (fVerify : Bool) (m : Machine) (keys sigs rest : List Valtype) :
    Below (env.evalMultiSigArgs G fVerify m keys sigs rest)
      (env.evalMultiSigArgs F fVerify m keys sigs rest) := by
  unfold evalMultiSigArgs
  refine (multiSigLoop_below h env _ keys sigs).bind fun fSuccess => ?_
  cases rest with
  | nil => exact Below.refl _
  | cons dummy stack => exact (h.failIf _ _ _).bind fun _ => Below.refl _

lemma evalMultiSigKeys_below (fVerify : Bool) (m : Machine) (nKeysCount : ℕ)
    (stack : List Valtype) :
    Below (env.evalMultiSigKeys G fVerify m nKeysCount stack)
      (env.evalMultiSigKeys F fVerify m nKeysCount stack) := by
  unfold evalMultiSigKeys
  split
  · exact Below.refl _
  · refine (numArg_below h _).bind fun bn => ?_
    refine (Below.refl _).bind fun _ => ?_
    exact (Below.refl _).bind fun _ => evalMultiSigArgs_below h env _ _ _ _ _

lemma evalCheckMultiSig_below (fVerify : Bool) (m : Machine) :
    Below (env.evalCheckMultiSig G fVerify m) (env.evalCheckMultiSig F fVerify m) := by
  unfold evalCheckMultiSig
  split
  · exact Below.refl _
  · refine (numArg_below h _).bind fun bn => ?_
    refine (Below.refl _).bind fun _ => ?_
    exact (Below.refl _).bind fun _ => evalMultiSigKeys_below h env _ _ _ _

lemma evalOp_below (fExec : Bool) (pc : CScript) (op : Opcode) (m : Machine) :
    Below (env.evalOp G fExec pc op m) (env.evalOp F fExec pc op m) := by
  cases op with
  | OP_CHECKLOCKTIMEVERIFY => exact checkLockTimeVerify_below h env m
  | upgradableNop =>
    unfold evalOp
    exact (Below.failIf _ h.hasFlag).bind fun _ => Below.refl _
  | OP_PICK fRoll => exact evalPick_below h fRoll m
  | unary op => exact evalUnary_below h op m
  | binary op => exact evalBinary_below h op m
  | OP_WITHIN => exact evalWithin_below h m
  | OP_CHECKSIG fVerify => exact evalCheckSig_below h env fVerify m
  | OP_CHECKMULTISIG fVerify => exact evalCheckMultiSig_below h env fVerify m
  -- the other cases do not look at the flags
  | _ => exact Below.refl _

lemma execute_below (fExec : Bool) (opcode : UInt8) (vchPushValue : Valtype) (pc : CScript)
    (m : Machine) :
    Below (env.execute G fExec opcode vchPushValue pc m)
      (env.execute F fExec opcode vchPushValue pc m) := by
  unfold execute
  refine Below.ite (fun _ => ?_) fun _ => Below.ite (fun _ => ?_) fun _ => Below.refl _
  · exact (h.failIf _ _ _).bind fun _ => Below.refl _
  · exact evalOp_below h env _ _ _ _

lemma evalStep_below (opcode : UInt8) (vchPushValue : Valtype) (pc : CScript) (m : Machine) :
    Below (env.evalStep G opcode vchPushValue pc m) (env.evalStep F opcode vchPushValue pc m) := by
  unfold evalStep
  refine (Below.refl _).bind fun _ => ?_
  refine (Below.refl _).bind fun _ => ?_
  refine (Below.refl _).bind fun _ => ?_
  exact (execute_below h env _ _ _ _ _).bind fun _ => Below.refl _

lemma evalLoop_below (fuel : ℕ) (pc : CScript) (m : Machine) :
    Below (env.evalLoop G fuel pc m) (env.evalLoop F fuel pc m) := by
  induction fuel generalizing pc m with
  | zero => exact Below.refl _
  | succ fuel ih =>
    unfold evalLoop
    refine Below.ite (fun _ => Below.refl _) fun _ => ?_
    split
    · exact Below.refl _
    · exact (evalStep_below h env _ _ _ _).bind fun m' => ih _ m'

end EvalEnv

/-! ### `VerifyScript` -/

section Verify

variable {F G : UInt32} (h : Restricts F G) (crypto : ScriptCrypto) (checker : SignatureChecker)
include h

lemma evalScript_below (stack : List Valtype) (script : CScript) (sigversion : SigVersion) :
    Below (evalScript stack script G crypto checker sigversion)
      (evalScript stack script F crypto checker sigversion) := by
  unfold evalScript
  refine (Below.refl _).bind fun _ => ?_
  exact (EvalEnv.evalLoop_below h _ _ _ _).bind fun _ => Below.refl _

lemma verifyP2SH_below (scriptSig : CScript) (stackCopy : List Valtype) :
    Below (verifyP2SH crypto G checker scriptSig stackCopy)
      (verifyP2SH crypto F checker scriptSig stackCopy) := by
  unfold verifyP2SH
  refine (Below.refl _).bind fun _ => ?_
  cases stackCopy with
  | nil => exact Below.refl _
  | cons pubKeySerialized stackCopy =>
    exact (evalScript_below h crypto checker _ _ _).bind fun _ => Below.refl _

lemma verifyScript_below (scriptSig scriptPubKey : CScript) :
    Below (verifyScript crypto G checker scriptSig scriptPubKey)
      (verifyScript crypto F checker scriptSig scriptPubKey) := by
  unfold verifyScript
  refine (h.failIf _ _ _).bind fun _ => ?_
  refine (evalScript_below h crypto checker _ _ _).bind fun stackCopy => ?_
  refine (evalScript_below h crypto checker _ _ _).bind fun stack => ?_
  refine (Below.refl _).bind fun _ => ?_
  by_cases hF : (hasFlag F SCRIPT_VERIFY_P2SH && isPayToScriptHash scriptPubKey) = true
  · have hG : (hasFlag G SCRIPT_VERIFY_P2SH && isPayToScriptHash scriptPubKey) = true := by
      rw [Bool.and_eq_true] at hF ⊢
      exact ⟨h.hasFlag hF.1, hF.2⟩
    rw [if_pos hF, if_pos hG]
    exact verifyP2SH_below h crypto checker _ _
  · rw [if_neg hF]
    intro u _
    rfl

end Verify

end Script

end Agenor
