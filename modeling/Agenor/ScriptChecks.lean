import Agenor.InterpreterFlags
import Agenor.MempoolAccept

/-!
`CheckInputs` with the script interpreter in it, and the two calls of `AcceptToMemoryPoolWorker`:
first with the flags of standard transactions, then with those that are mandatory. The second call
cannot fail.

The first call may fetch coins into the view that the second call reads. That is not seen, so the
checks of the inputs come out the same, and the scripts pass because the mandatory flags are among
the standard ones.
-/

namespace Agenor

open Lib.Wrap Lib.Fallible Script

/-! ### The flags of the two calls -/

def MANDATORY_SCRIPT_VERIFY_FLAGS : UInt32 := SCRIPT_VERIFY_P2SH

def STANDARD_SCRIPT_VERIFY_FLAGS : UInt32 :=
  MANDATORY_SCRIPT_VERIFY_FLAGS ||| SCRIPT_VERIFY_DERSIG ||| SCRIPT_VERIFY_STRICTENC |||
    SCRIPT_VERIFY_MINIMALDATA ||| SCRIPT_VERIFY_NULLDUMMY |||
    SCRIPT_VERIFY_DISCOURAGE_UPGRADABLE_NOPS ||| SCRIPT_VERIFY_LOW_S

def STANDARD_NOT_MANDATORY_VERIFY_FLAGS : UInt32 :=
  STANDARD_SCRIPT_VERIFY_FLAGS &&& ~~~MANDATORY_SCRIPT_VERIFY_FLAGS

/-- The flags `AcceptToMemoryPoolWorker` passes: `OP_CHECKLOCKTIMEVERIFY` is added to both sets once
it is active. -/
def withLockTime (flags : UInt32) (fCLTVIsActivated : Bool) : UInt32 :=
  if fCLTVIsActivated then flags ||| SCRIPT_VERIFY_CHECKLOCKTIMEVERIFY else flags

lemma restricts_mandatory (fCLTVIsActivated : Bool) :
    Restricts (withLockTime MANDATORY_SCRIPT_VERIFY_FLAGS fCLTVIsActivated)
      (withLockTime STANDARD_SCRIPT_VERIFY_FLAGS fCLTVIsActivated) := by
  cases fCLTVIsActivated with
  | false => exact ⟨by decide, by decide⟩
  | true => exact ⟨by decide, by decide⟩

/-! ### `CheckInputs` -/

def scriptErrorString : ScriptError → String
  | .EVAL_FALSE =>
    "Script evaluated without error but finished with a false/empty top stack element"
  | .VERIFY => "Script failed an OP_VERIFY operation"
  | .EQUALVERIFY => "Script failed an OP_EQUALVERIFY operation"
  | .CHECKCOLDSTAKEVERIFY => "Script failed an OP_CHECKCOLDSTAKEVERIFY operation"
  | .CHECKMULTISIGVERIFY => "Script failed an OP_CHECKMULTISIGVERIFY operation"
  | .CHECKSIGVERIFY => "Script failed an OP_CHECKSIGVERIFY operation"
  | .NUMEQUALVERIFY => "Script failed an OP_NUMEQUALVERIFY operation"
  | .SCRIPT_SIZE => "Script is too big"
  | .PUSH_SIZE => "Push value size limit exceeded"
  | .OP_COUNT => "Operation limit exceeded"
  | .STACK_SIZE => "Stack size limit exceeded"
  | .SIG_COUNT => "Signature count negative or greater than pubkey count"
  | .PUBKEY_COUNT => "Pubkey count negative or limit exceeded"
  | .BAD_OPCODE => "Opcode missing or not understood"
  | .DISABLED_OPCODE => "Attempted to use a disabled opcode"
  | .INVALID_STACK_OPERATION => "Operation not valid with the current stack size"
  | .INVALID_ALTSTACK_OPERATION => "Operation not valid with the current altstack size"
  | .OP_RETURN => "OP_RETURN was encountered"
  | .UNBALANCED_CONDITIONAL => "Invalid OP_IF construction"
  | .NEGATIVE_LOCKTIME => "Negative locktime"
  | .UNSATISFIED_LOCKTIME => "Locktime requirement not satisfied"
  | .SIG_HASHTYPE => "Signature hash type missing or not understood"
  | .SIG_DER => "Non-canonical DER signature"
  | .MINIMALDATA => "Data push larger than necessary"
  | .SIG_PUSHONLY => "Only non-push operators allowed in signatures"
  | .SIG_HIGH_S => "Non-canonical signature: S value is unnecessarily high"
  | .SIG_NULLDUMMY => "Dummy CHECKMULTISIG argument must be zero"
  | .DISCOURAGE_UPGRADABLE_NOPS => "NOPx reserved for soft-fork upgrades"
  | .PUBKEYTYPE => "Public key is neither compressed or uncompressed"
  | .UNKNOWN_ERROR | .assertion => "unknown error"

/-- What a script check needs beside the scripts: the cryptography, and the signature checker for
an input of a transaction and the value it spends. -/
structure ScriptVerifier where
  crypto : ScriptCrypto
  checker : CTransaction → ℕ → ℤ → SignatureChecker

namespace ScriptVerifier

variable (ver : ScriptVerifier) (node : Node) (tx : CTransaction)

/-- `CScriptCheck`: the script of the input, against the output it spends. The error when it
fails. -/
def check (txin : CTxIn) (nIn : ℕ) (out : CTxOut) (flags : UInt32) : Check (Option ScriptError) :=
  match verifyScript ver.crypto flags (ver.checker tx nIn out.nValue) txin.scriptSig
      out.scriptPubKey with
  | .ok () => .ok none
  | .error .assertion => .error .assertion
  | .error err => .ok (some err)

/-- The second check of a script that failed, without the flags that are not mandatory. -/
def checkMandatory (txin : CTxIn) (nIn : ℕ) (out : CTxOut) (flags : UInt32) (err : ScriptError) :
    Check (Option ScriptError) :=
  if hasFlag flags STANDARD_NOT_MANDATORY_VERIFY_FLAGS then
    ver.check tx txin nIn out (flags &&& ~~~STANDARD_NOT_MANDATORY_VERIFY_FLAGS)
  else .ok (some err)

/-- A script check that failed: whether the failure is only about flags that are not mandatory. -/
def refuse (txin : CTxIn) (nIn : ℕ) (out : CTxOut) (flags : UInt32) (err : ScriptError) :
    Check CCoinsViewCache := do
  let check2 ← ver.checkMandatory tx txin nIn out flags err
  failIf check2.isNone
    (.dos 0 REJECT_NONSTANDARD
      ("non-mandatory-script-verify-flag (" ++ scriptErrorString err ++ ")") false)
  .error (.dos 100 REJECT_INVALID
    ("mandatory-script-verify-flag-failed (" ++ scriptErrorString err ++ ")") false)

/-- One input in the second loop of `CheckInputs`, when the checks are run at once. -/
def checkInput (flags : UInt32) (v : CCoinsViewCache) (p : CTxIn × ℕ) : Check CCoinsViewCache := do
  let (coin, v) := v.accessCoin p.1.prevout
  failIf coin.isSpent .assertion
  let check ← ver.check tx p.1 p.2 coin.out flags
  match check with
  | none => return v
  | some err => ver.refuse tx p.1 p.2 coin.out flags err

/-- `CheckInputs` with script checks and without a queue for them. -/
def checkInputs (v : CCoinsViewCache) (flags : UInt32) : Check CCoinsViewCache := do
  if !tx.isCoinBase && !tx.hasZerocoinSpendInputs then
    let nSpendHeight ← getSpendHeight node v
    let v ← checkTxInputs node tx v nSpendHeight
    loop (ver.checkInput tx flags) v tx.vin.zipIdx
  else return v

end ScriptVerifier

/-! ### Reading the same coins -/

namespace CCoinsViewCache

/-- The two views show the same coins and the same best block. -/
structure Same (v w : CCoinsViewCache) : Prop where
  coins : w.coins = v.coins
  getBestBlock : w.getBestBlock = v.getBestBlock

variable {v w : CCoinsViewCache}

lemma Reads.same (h : Reads v w) : Same v w := ⟨h.coins, h.getBestBlock⟩

lemma Same.symm (h : Same v w) : Same w v := ⟨h.coins.symm, h.getBestBlock.symm⟩

lemma Same.trans {x : CCoinsViewCache} (h : Same v w) (h' : Same w x) : Same v x :=
  ⟨h'.coins.trans h.coins, h'.getBestBlock.trans h.getBestBlock⟩

lemma Same.accessCoin (h : Same v w) {o : COutPoint} (hs : (v.accessCoin o).1.isSpent = false) :
    (w.accessCoin o).1 = (v.accessCoin o).1 := by
  have hlive : (w.accessCoin o).1.live = some (v.accessCoin o).1 := by
    rw [accessCoin_live, h.coins, ← accessCoin_live]
    exact Coin.live_of_unspent hs
  exact (Coin.eq_of_live_eq_some hlive).1

lemma Same.accessCoin_snd (h : Same v w) (o : COutPoint) :
    Same (v.accessCoin o).2 (w.accessCoin o).2 :=
  ((reads_accessCoin v o).same.symm.trans h).trans (reads_accessCoin w o).same

lemma Same.haveInputs (h : Same v w) (tx : CTransaction) :
    (w.haveInputs tx).1 = (v.haveInputs tx).1 := by
  unfold CCoinsViewCache.haveInputs
  split
  · rw [(haveAll_spec w tx.vin).1, (haveAll_spec v tx.vin).1, h.coins]
  · rfl

lemma Same.haveInputs_snd (h : Same v w) (tx : CTransaction) :
    Same (v.haveInputs tx).2 (w.haveInputs tx).2 :=
  ((reads_haveInputs v tx).same.symm.trans h).trans (reads_haveInputs w tx).same

end CCoinsViewCache

section Again

open CCoinsViewCache

variable {node : Node} {tx : CTransaction} {v w v' : CCoinsViewCache}

lemma getSpendHeight_same (h : Same v w) : getSpendHeight node w = getSpendHeight node v := by
  rw [getSpendHeight, getSpendHeight, h.getBestBlock]

lemma checkTxInput_again {consensus : ChainParams} {nSpendHeight nValueIn : ℤ}
    {s' : ℤ × CCoinsViewCache} {txin : CTxIn} (h : Same v w)
    (hs : checkTxInput consensus nSpendHeight (nValueIn, v) txin = .ok s') :
    ∃ w', checkTxInput consensus nSpendHeight (nValueIn, w) txin = .ok (s'.1, w') ∧
      Same s'.2 w' := by
  simp only [checkTxInput, bind_eq_ok, failIf_eq_ok, pure_eq_ok] at hs
  obtain ⟨-, hspent, -, hmature, -, hrange, rfl⟩ := hs
  have hcoin := h.accessCoin hspent
  refine ⟨(w.accessCoin txin.prevout).2, ?_, h.accessCoin_snd txin.prevout⟩
  simp only [checkTxInput, bind_eq_ok, failIf_eq_ok, pure_eq_ok]
  rw [hcoin]
  exact ⟨(), hspent, (), hmature, (), hrange, rfl⟩

lemma checkTxInputs_again {nSpendHeight : ℤ} (h : Same v w)
    (hv : checkTxInputs node tx v nSpendHeight = .ok v') :
    ∃ w', checkTxInputs node tx w nSpendHeight = .ok w' ∧ Same v' w' := by
  simp only [checkTxInputs, bind_eq_ok, failIf_eq_ok, Prod.exists] at hv
  obtain ⟨-, hhave, nValueIn, v₁, hl, hv⟩ := hv
  obtain ⟨⟨nValueIn', w₁⟩, hw, hval, hsame⟩ := loop_sim
    (R := fun s t : ℤ × CCoinsViewCache => t.1 = s.1 ∧ Same s.2 t.2)
    (t := (0, (w.haveInputs tx).2)) hl
    ⟨rfl, h.haveInputs_snd tx⟩ (by
      rintro txin - ⟨n, s⟩ s' ⟨n', t⟩ ⟨rfl, hst⟩ hs
      obtain ⟨t', ht, hsame⟩ := checkTxInput_again hst hs
      exact ⟨_, ht, rfl, hsame⟩)
  subst hval
  refine ⟨w₁, ?_, ?_⟩
  · simp only [checkTxInputs, bind_eq_ok, failIf_eq_ok, Prod.exists]
    refine ⟨(), by rw [h.haveInputs tx]; exact hhave, _, w₁, hw, ?_⟩
    split at hv
    · rename_i hcs
      simp only [bind_eq_ok, failIf_eq_ok, pure_eq_ok] at hv ⊢
      obtain ⟨n, hn, u1, h1, u2, h2, u3, h3, -⟩ := hv
      rw [if_pos hcs]
      simp only [bind_eq_ok, failIf_eq_ok, pure_eq_ok]
      exact ⟨n, hn, u1, h1, u2, h2, u3, h3, trivial⟩
    · rename_i hcs
      rw [if_neg hcs]
      rfl
  · split at hv
    · simp only [bind_eq_ok, pure_eq_ok] at hv
      obtain ⟨-, -, -, -, -, -, -, -, rfl⟩ := hv
      exact hsame
    · cases hv
      exact hsame

lemma checkTxInputs_same {nSpendHeight : ℤ} (hv : checkTxInputs node tx v nSpendHeight = .ok v') :
    Same v v' := by
  simp only [checkTxInputs, bind_eq_ok, Prod.exists] at hv
  obtain ⟨-, -, nValueIn, v₁, hl, hv⟩ := hv
  have h1 : Same v v₁ := loop_inv (P := fun s : ℤ × CCoinsViewCache => Same v s.2) hl
    (reads_haveInputs v tx).same (by
      intro txin _ s s' hs hstep
      simp only [checkTxInput, bind_eq_ok, pure_eq_ok] at hstep
      obtain ⟨-, -, -, -, -, -, rfl⟩ := hstep
      exact hs.trans (reads_accessCoin s.2 txin.prevout).same)
  split at hv
  · simp only [bind_eq_ok, pure_eq_ok] at hv
    obtain ⟨-, -, -, -, -, -, -, -, rfl⟩ := hv
    exact h1
  · cases hv
    exact h1

end Again

/-! ### The second call -/

namespace ScriptVerifier

open CCoinsViewCache

variable {ver : ScriptVerifier} {node : Node} {tx : CTransaction} {v w v' : CCoinsViewCache}
  {F G : UInt32}

lemma check_eq_none {txin : CTxIn} {nIn : ℕ} {out : CTxOut} :
    ver.check tx txin nIn out G = .ok none ↔
      verifyScript ver.crypto G (ver.checker tx nIn out.nValue) txin.scriptSig out.scriptPubKey =
        .ok () := by
  unfold check
  split
  · rename_i h
    simp [h]
  · rename_i h
    simp [h]
  · rename_i err _ h
    simp [h]

lemma checkInput_eq_ok {p : CTxIn × ℕ} (h : ver.checkInput tx G v p = .ok v') :
    (v.accessCoin p.1.prevout).1.isSpent = false ∧
      ver.check tx p.1 p.2 (v.accessCoin p.1.prevout).1.out G = .ok none ∧
      v' = (v.accessCoin p.1.prevout).2 := by
  simp only [checkInput, bind_eq_ok, failIf_eq_ok] at h
  obtain ⟨-, hs, r, hr, h⟩ := h
  cases r with
  | none => exact ⟨hs, hr, (Except.ok.inj h).symm⟩
  | some err => simp [refuse, bind_eq_ok] at h

lemma checkInput_again {p : CTxIn × ℕ} (hflags : Restricts F G) (hsame : Same v w)
    (h : ver.checkInput tx G v p = .ok v') :
    ∃ w', ver.checkInput tx F w p = .ok w' ∧ Same v' w' := by
  obtain ⟨hs, hG, rfl⟩ := checkInput_eq_ok h
  have hcoin := hsame.accessCoin hs
  have hF : ver.check tx p.1 p.2 (v.accessCoin p.1.prevout).1.out F = .ok none :=
    check_eq_none.mpr (verifyScript_below hflags _ _ _ _ () (check_eq_none.mp hG))
  refine ⟨_, ?_, hsame.accessCoin_snd p.1.prevout⟩
  simp only [checkInput, bind_eq_ok, failIf_eq_ok]
  refine ⟨(), by rw [hcoin]; exact hs, none, ?_, rfl⟩
  rw [hcoin]
  exact hF

lemma checkInputs_again (hflags : Restricts F G) (hsame : Same v w)
    (h : ver.checkInputs node tx v G = .ok v') :
    ∃ w', ver.checkInputs node tx w F = .ok w' ∧ Same v' w' := by
  unfold checkInputs at h ⊢
  by_cases hc : (!tx.isCoinBase && !tx.hasZerocoinSpendInputs) = true
  · rw [if_pos hc] at h
    rw [if_pos hc]
    simp only [bind_eq_ok] at h ⊢
    obtain ⟨nSpendHeight, hh, v₁, h1, h2⟩ := h
    obtain ⟨w₁, hw1, hs1⟩ := checkTxInputs_again hsame h1
    obtain ⟨w', hw', hs'⟩ := loop_sim (R := Same) h2 hs1
      fun p _ s s' t hst hs => checkInput_again hflags hst hs
    refine ⟨w', ⟨nSpendHeight, ?_, w₁, hw1, hw'⟩, hs'⟩
    rw [getSpendHeight_same hsame]
    exact hh
  · rw [if_neg hc] at h
    rw [if_neg hc]
    cases h
    exact ⟨w, rfl, hsame⟩

lemma checkInputs_same (h : ver.checkInputs node tx v G = .ok v') : Same v v' := by
  unfold checkInputs at h
  split at h
  · simp only [bind_eq_ok] at h
    obtain ⟨nSpendHeight, -, v₁, h1, h2⟩ := h
    refine loop_inv (P := Same v) h2 (checkTxInputs_same h1) ?_
    intro p _ t t' ht hstep
    obtain ⟨-, -, rfl⟩ := checkInput_eq_ok hstep
    exact ht.trans (reads_accessCoin t p.1.prevout).same
  · cases h
    exact (Reads.refl v).same

/-! ### The checks of the node -/

/-- The flags `ConnectBlock` chooses from, as bits. -/
def flagBits (flags : ScriptFlags) : UInt32 :=
  withLockTime (if flags.dersig then SCRIPT_VERIFY_P2SH ||| SCRIPT_VERIFY_DERSIG
    else SCRIPT_VERIFY_P2SH) flags.checkLockTimeVerify

/-- The script checks of the node are those of the interpreter. -/
def Runs (ver : ScriptVerifier) (node : Node) : Prop :=
  ∀ (tx : CTransaction) (p : CTxIn × ℕ) (out : CTxOut) (flags : ScriptFlags),
    p ∈ tx.vin.zipIdx → ver.check tx p.1 p.2 out (flagBits flags) = .ok none →
      node.scriptCheck out.scriptPubKey out.nValue tx p.2 flags = none

lemma Runs.checkInputs (flags : ScriptFlags) (hruns : ver.Runs node)
    (h : ver.checkInputs node tx v (flagBits flags) = .ok v') :
    Agenor.checkInputs { node with nScriptCheckThreads := 0 } tx v true flags = .ok (true, v') := by
  unfold ScriptVerifier.checkInputs at h
  unfold Agenor.checkInputs
  by_cases hc : (!tx.isCoinBase && !tx.hasZerocoinSpendInputs) = true
  · rw [if_pos hc] at h
    rw [if_pos hc]
    simp only [bind_eq_ok] at h ⊢
    obtain ⟨nSpendHeight, hh, v₁, h1, h2⟩ := h
    refine ⟨nSpendHeight, hh, v₁, h1, ?_⟩
    rw [if_pos trivial]
    obtain ⟨r, hr, rfl⟩ := loop_sim (R := fun s t => t = (true, s))
      (g := checkScript { node with nScriptCheckThreads := 0 } tx flags) h2 rfl (by
        rintro p hp s s' _ rfl hs
        obtain ⟨hspent, hcheck, rfl⟩ := checkInput_eq_ok hs
        refine ⟨_, ?_, rfl⟩
        simp only [checkScript, bind_eq_ok, failIf_eq_ok]
        refine ⟨(), hspent, ?_⟩
        rw [if_neg (by simp), hruns tx p _ flags hp hcheck]
        rfl)
    exact hr
  · rw [if_neg hc] at h
    rw [if_neg hc]
    cases h
    rfl

/-- In `AcceptToMemoryPool` the check with the mandatory flags passes whenever the check with the
standard flags, made by the interpreter, has passed. -/
theorem acceptSecond_mandatory {env : AcceptEnv} {fCLTVIsActivated : Bool}
    (hruns : ver.Runs env.node)
    (hstandard : env.checkStandardInputs tx v fCLTVIsActivated = (fun _ => ()) <$>
      ver.checkInputs env.node tx v (withLockTime STANDARD_SCRIPT_VERIFY_FLAGS fCLTVIsActivated))
    (h : env.checkStandardInputs tx v fCLTVIsActivated = .ok ()) :
    ∃ r, Agenor.checkInputs { env.node with nScriptCheckThreads := 0 } tx v true
      ⟨false, fCLTVIsActivated⟩ = .ok r := by
  rw [hstandard] at h
  cases hG : ver.checkInputs env.node tx v
      (withLockTime STANDARD_SCRIPT_VERIFY_FLAGS fCLTVIsActivated) with
  | error e => simp [hG] at h
  | ok v' =>
    obtain ⟨w', hw, -⟩ := checkInputs_again (restricts_mandatory fCLTVIsActivated)
      (Reads.refl v).same hG
    exact ⟨_, Runs.checkInputs ⟨false, fCLTVIsActivated⟩ hruns hw⟩

end ScriptVerifier

/-- **Flags only restrict.** What `VerifyScript` accepts with the flags `G` it accepts with the
flags `F` among them, unless `F` discourages `OP_CHECKLOCKTIMEVERIFY` as a no-operation where `G`
enables it. So the call of `CheckInputs` with the mandatory flags returns whenever the call with the
standard flags before it did. -/
theorem fewer_flags_accept (crypto : ScriptCrypto) :
    (∀ (checker : SignatureChecker) (F G : UInt32) (scriptSig scriptPubKey : CScript),
      F &&& G = F →
      ¬ (hasFlag F SCRIPT_VERIFY_DISCOURAGE_UPGRADABLE_NOPS = true ∧
        hasFlag G SCRIPT_VERIFY_CHECKLOCKTIMEVERIFY = true ∧
        hasFlag F SCRIPT_VERIFY_CHECKLOCKTIMEVERIFY = false) →
      verifyScript crypto G checker scriptSig scriptPubKey = .ok () →
      verifyScript crypto F checker scriptSig scriptPubKey = .ok ()) ∧
    (∀ (checker : CTransaction → ℕ → ℤ → SignatureChecker) (node : Node) (tx : CTransaction)
      (v v' : CCoinsViewCache) (fCLTVIsActivated : Bool),
      ScriptVerifier.checkInputs ⟨crypto, checker⟩ node tx v
        (withLockTime STANDARD_SCRIPT_VERIFY_FLAGS fCLTVIsActivated) = .ok v' →
      ∃ v'', ScriptVerifier.checkInputs ⟨crypto, checker⟩ node tx v'
        (withLockTime MANDATORY_SCRIPT_VERIFY_FLAGS fCLTVIsActivated) = .ok v'') := by
  refine ⟨?_, ?_⟩
  · intro checker F G scriptSig scriptPubKey hsub hno hG
    have hflags : Restricts F G := by
      refine ⟨hsub, fun hd hl => ?_⟩
      by_contra hF
      exact hno ⟨hd, hl, by simpa using hF⟩
    exact verifyScript_below hflags crypto checker scriptSig scriptPubKey () hG
  · intro checker node tx v v' fCLTVIsActivated hG
    obtain ⟨v'', hv, -⟩ := ScriptVerifier.checkInputs_again
      (restricts_mandatory fCLTVIsActivated) (ScriptVerifier.checkInputs_same hG) hG
    exact ⟨v'', hv⟩

namespace Concrete

/-- Cryptography that changes nothing. -/
def plainCrypto : ScriptCrypto := ⟨id, id, id, id, id, fun _ => true⟩

/-- A checker to which every signature is false and every lock time has come. -/
def unlocked : SignatureChecker := ⟨fun _ _ _ _ => false, fun _ => true, fun _ => false⟩

/-- An output that anyone can spend after a lock time. -/
def lockedOut : CTxOut := ⟨10 * COIN, [0xb1]⟩

/-- Spends it with lock time `1`. -/
def unlockTx : CTransaction := ⟨12, [⟨⟨7, 0⟩, [Script.OP_1], 0⟩], [⟨9 * COIN, [Script.OP_1]⟩]⟩

def lockedView : CCoinsViewCache :=
  .ofView ⟨fun o => if o = ⟨7, 0⟩ then some ⟨lockedOut, 1, false, false⟩ else none, 2⟩

/-- The spend passes the two calls, and the script passes with the mandatory flags. -/
theorem unlockTx_accepted :
    verifyScript plainCrypto (withLockTime MANDATORY_SCRIPT_VERIFY_FLAGS true) unlocked
      [Script.OP_1] lockedOut.scriptPubKey = .ok () ∧
    ∃ v' v'', ScriptVerifier.checkInputs ⟨plainCrypto, fun _ _ _ => unlocked⟩ mainNode unlockTx
        lockedView (withLockTime STANDARD_SCRIPT_VERIFY_FLAGS true) = .ok v' ∧
      ScriptVerifier.checkInputs ⟨plainCrypto, fun _ _ _ => unlocked⟩ mainNode unlockTx v'
        (withLockTime MANDATORY_SCRIPT_VERIFY_FLAGS true) = .ok v'' := by
  obtain ⟨hscript, hinputs⟩ := fewer_flags_accept plainCrypto
  refine ⟨hscript unlocked _ (withLockTime STANDARD_SCRIPT_VERIFY_FLAGS true) _ _ (by decide)
    (by decide) (by decide +kernel), ?_⟩
  have hok : (ScriptVerifier.checkInputs ⟨plainCrypto, fun _ _ _ => unlocked⟩ mainNode unlockTx
      lockedView (withLockTime STANDARD_SCRIPT_VERIFY_FLAGS true)).isOk = true := by
    decide +kernel
  cases hv : ScriptVerifier.checkInputs ⟨plainCrypto, fun _ _ _ => unlocked⟩ mainNode unlockTx
      lockedView (withLockTime STANDARD_SCRIPT_VERIFY_FLAGS true) with
  | error e => rw [hv] at hok; cases hok
  | ok v' =>
    obtain ⟨v'', hv''⟩ := hinputs _ mainNode unlockTx lockedView v' true hv
    exact ⟨v', v'', rfl, hv''⟩

/-- With one flag more the script passes: what was a discouraged no-operation is then a lock time
that has come. -/
theorem lockTime_discouraged :
    ∃ (F G : UInt32) (scriptSig scriptPubKey : CScript), F &&& G = F ∧
      verifyScript plainCrypto G unlocked scriptSig scriptPubKey = .ok () ∧
      verifyScript plainCrypto F unlocked scriptSig scriptPubKey ≠ .ok () :=
  ⟨SCRIPT_VERIFY_DISCOURAGE_UPGRADABLE_NOPS,
    withLockTime SCRIPT_VERIFY_DISCOURAGE_UPGRADABLE_NOPS true, [Script.OP_1],
    lockedOut.scriptPubKey, by decide, by decide +kernel, by decide +kernel⟩

end Concrete

end Agenor
