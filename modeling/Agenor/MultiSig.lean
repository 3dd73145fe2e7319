import Agenor.Interpreter
import Agenor.Lib.Assign

/-!
`OP_CHECKMULTISIG` (`script/interpreter.cpp`): what it finds out about signatures and keys.

The loop goes through the keys once. A signature takes the first key under which it verifies, and
the loop gives up when there are more signatures left than keys. That is enough to find out whether
the signatures can be given keys in order at all.
-/

namespace Agenor

open Lib Lib.Fallible

namespace Script

namespace EvalEnv

variable {env : EvalEnv} {flags : UInt32} {m m' : Machine} {keys sigs rest : List Valtype}
  {vchKeysCount vchSigsCount : Valtype}

/-- The script that the signatures are about, without the signatures themselves. -/
def multiSigCode (m : Machine) (sigs : List Valtype) : CScript :=
  sigs.foldl (fun code vchSig => findAndDelete code (pushData vchSig)) m.pbegincodehash

/-- The encodings of the signatures and the keys pass the checks of the flags. -/
structure Encoded (env : EvalEnv) (flags : UInt32) (keys sigs : List Valtype) : Prop where
  sig : ∀ vchSig ∈ sigs, checkSignatureEncoding env.crypto flags vchSig = .ok ()
  key : ∀ vchPubKey ∈ keys, checkPubKeyEncoding flags vchPubKey = .ok ()

/-- The arguments of `OP_CHECKMULTISIG` on the stack. -/
structure MultiSigStack (flags : UInt32) (m : Machine) (vchKeysCount : Valtype)
    (keys : List Valtype) (vchSigsCount : Valtype) (sigs rest : List Valtype) : Prop where
  stack : m.stack = vchKeysCount :: (keys ++ vchSigsCount :: (sigs ++ rest))
  keysCount : numArg flags vchKeysCount = .ok (keys.length : ℤ)
  sigsCount : numArg flags vchSigsCount = .ok (sigs.length : ℤ)
  le : sigs.length ≤ keys.length

/-- The limits on the numbers, and what is asked of the extra argument. -/
structure MultiSigLimits (flags : UInt32) (m : Machine) (keys rest : List Valtype) : Prop where
  count : keys.length ≤ 20
  ops : m.nOpCount + keys.length ≤ 201
  extra : ∃ dummy stack, rest = dummy :: stack ∧
    (hasFlag flags SCRIPT_VERIFY_NULLDUMMY = true → dummy = [])

lemma multiSigLoop_eq (scriptCode : CScript) (h : Encoded env flags keys sigs) :
    env.multiSigLoop flags scriptCode keys sigs = .ok (assigns
      (fun vchSig vchPubKey => env.checker.checkSig vchSig vchPubKey scriptCode env.sigversion)
      sigs keys) := by
  induction keys generalizing sigs with
  | nil => cases sigs <;> rfl
  | cons vchPubKey keys ih =>
    cases sigs with
    | nil => rfl
    | cons vchSig sigs =>
      rw [multiSigLoop, h.sig vchSig (List.mem_cons_self ..),
        h.key vchPubKey (List.mem_cons_self ..), assigns]
      change (if keys.length < (if _ then sigs else vchSig :: sigs).length then _ else _) = _
      have hkeys : ∀ k ∈ keys, checkPubKeyEncoding flags k = .ok () :=
        fun k hk => h.key k (List.mem_cons_of_mem _ hk)
      have hfew : ∀ sigs, keys.length < sigs.length → assigns (fun vchSig vchPubKey =>
          env.checker.checkSig vchSig vchPubKey scriptCode env.sigversion) sigs keys = false := by
        intro sigs hlen
        rw [← Bool.not_eq_true, assigns_iff]
        exact fun hassign => absurd hassign.length_le (Nat.not_le.mpr hlen)
      by_cases hok : env.checker.checkSig vchSig vchPubKey scriptCode env.sigversion = true
      · rw [if_pos hok, if_pos hok]
        split_ifs with hlen
        · rw [hfew sigs hlen]
        · exact ih ⟨fun s hs => h.sig s (List.mem_cons_of_mem _ hs), hkeys⟩
      · rw [if_neg hok, if_neg hok]
        split_ifs with hlen
        · rw [hfew _ hlen]
        · exact ih ⟨h.sig, hkeys⟩

lemma getint_natCast {n : ℕ} (h : n ≤ 20) : getint n = n := by
  unfold getint
  omega

/-- What the opcode leaves when the signatures can, or cannot, be given keys. -/
def multiSigResult (env : EvalEnv) (m : Machine) (keys sigs rest : List Valtype) : Machine :=
  { m with
    nOpCount := m.nOpCount + keys.length
    stack := ofBool (assigns (fun vchSig vchPubKey =>
      env.checker.checkSig vchSig vchPubKey (multiSigCode m sigs) env.sigversion) sigs keys) ::
        rest.tail }

lemma evalMultiSigArgs_eq_ok (henc : Encoded env flags keys sigs) :
    env.evalMultiSigArgs flags false { m with nOpCount := m.nOpCount + keys.length } keys sigs
        rest = .ok m' ↔
      (∃ dummy stack, rest = dummy :: stack ∧
        (hasFlag flags SCRIPT_VERIFY_NULLDUMMY = true → dummy = [])) ∧
        m' = multiSigResult env m keys sigs rest := by
  have hloop := multiSigLoop_eq (multiSigCode m sigs) henc
  unfold evalMultiSigArgs
  change (env.multiSigLoop flags (multiSigCode m sigs) keys sigs >>= _) = _ ↔ _
  rw [hloop]
  cases rest with
  | nil => simp [bind, Except.bind]
  | cons dummy stack =>
    simp only [bind_eq_ok, Except.ok.injEq, exists_eq_left', failIf_eq_ok, pushBool, pure_eq_ok,
      multiSigResult, Bool.false_and, exists_const, true_and]
    have hdummy : (hasFlag flags SCRIPT_VERIFY_NULLDUMMY && !dummy.isEmpty) = false ↔
        (hasFlag flags SCRIPT_VERIFY_NULLDUMMY = true → dummy = []) := by
      cases hasFlag flags SCRIPT_VERIFY_NULLDUMMY <;> simp
    rw [hdummy]
    constructor
    · rintro ⟨hd, rfl⟩
      exact ⟨⟨dummy, stack, rfl, hd⟩, rfl⟩
    · rintro ⟨⟨dummy', stack', heq, hd⟩, rfl⟩
      obtain ⟨rfl, rfl⟩ := List.cons.inj heq
      exact ⟨hd, rfl⟩

lemma evalCheckMultiSig_eq_ok
    (hstack : MultiSigStack flags m vchKeysCount keys vchSigsCount sigs rest)
    (henc : Encoded env flags keys sigs) :
    env.evalCheckMultiSig flags false m = .ok m' ↔
      MultiSigLimits flags m keys rest ∧ m' = multiSigResult env m keys sigs rest := by
  unfold evalCheckMultiSig
  rw [hstack.stack]
  dsimp only
  rw [hstack.keysCount]
  by_cases hcount : keys.length ≤ 20
  · have hkeys := getint_natCast hcount
    have hsigs := getint_natCast (hstack.le.trans hcount)
    have hin : (decide ((keys.length : ℤ) < 0) || decide (20 < (keys.length : ℤ))) = false := by
      simp only [Bool.or_eq_false_iff, decide_eq_false_iff_not]
      omega
    have hdrop : (keys ++ vchSigsCount :: (sigs ++ rest)).drop keys.length =
        vchSigsCount :: (sigs ++ rest) := List.drop_left
    have htake : (keys ++ vchSigsCount :: (sigs ++ rest)).take keys.length = keys :=
      List.take_left
    simp only [bind_eq_ok, Except.ok.injEq, exists_eq_left', failIf_eq_ok, hkeys, hin,
      Int.toNat_natCast, exists_const, true_and, evalMultiSigKeys, hdrop, htake, hstack.sigsCount,
      hsigs, List.take_left, List.drop_left]
    rw [← hstack.stack, evalMultiSigArgs_eq_ok henc]
    have hle : (decide ((sigs.length : ℤ) < 0) || decide ((keys.length : ℤ) < sigs.length)) =
        false := by
      have := hstack.le
      simp only [Bool.or_eq_false_iff, decide_eq_false_iff_not]
      omega
    rw [hle]
    simp only [decide_eq_false_iff_not, true_and, List.length_append]
    constructor
    · rintro ⟨hops, -, hextra, hm⟩
      exact ⟨⟨hcount, by omega, hextra⟩, hm⟩
    · rintro ⟨⟨-, hops, hextra⟩, hm⟩
      obtain ⟨dummy, stack, rfl, -⟩ := id hextra
      exact ⟨by omega, by simp, hextra, hm⟩
  · have hout : (decide (getint (keys.length : ℤ) < 0) || decide (20 < getint (keys.length : ℤ))) =
        true := by
      unfold getint
      simp only [Bool.or_eq_true, decide_eq_true_eq]
      omega
    constructor
    · intro h
      simp only [bind_eq_ok, Except.ok.injEq, exists_eq_left', failIf_eq_ok, hout] at h
      obtain ⟨-, hfalse, -⟩ := h
      cases hfalse
    · exact fun h => absurd h.1.count hcount

/-- **`OP_CHECKMULTISIG`.** It pushes true if and only if the signatures can be given keys, each one
a key of its own under which it verifies, in the order in which both stand. -/
theorem evalCheckMultiSig_exact
    (hstack : MultiSigStack flags m vchKeysCount keys vchSigsCount sigs rest)
    (henc : Encoded env flags keys sigs) :
    ((∃ m', env.evalCheckMultiSig flags false m = .ok m') ↔ MultiSigLimits flags m keys rest) ∧
      ∀ m', env.evalCheckMultiSig flags false m = .ok m' → ∃ fSuccess,
        m' = { m with
          nOpCount := m.nOpCount + keys.length
          stack := ofBool fSuccess :: rest.tail } ∧
        (fSuccess = true ↔ Assignable (fun vchSig vchPubKey => env.checker.checkSig vchSig vchPubKey
          (multiSigCode m sigs) env.sigversion = true) sigs keys) := by
  refine ⟨?_, fun m' hm => ?_⟩
  · simp only [evalCheckMultiSig_eq_ok hstack henc]
    exact ⟨fun ⟨_, h, _⟩ => h, fun h => ⟨_, h, rfl⟩⟩
  · exact ⟨_, ((evalCheckMultiSig_eq_ok hstack henc).mp hm).2, assigns_iff _ sigs keys⟩

end EvalEnv

end Script

namespace Concrete

open Script Script.EvalEnv

/-- The first signature verifies under the first two keys, the second one under the second key. -/
def twoSigner : EvalEnv where
  crypto := ⟨id, id, id, id, id, fun _ => true⟩
  checker := ⟨fun sig key _ _ => [([1], [1]), ([1], [2]), ([2], [2])].contains (sig, key),
    fun _ => false, fun _ => false⟩
  sigversion := .SIGVERSION_BASE
  script := []

/-- Two signatures and three keys are on the stack. -/
def twoOfThree : Machine := ⟨[[3], [1], [2], [3], [2], [1], [2], []], [], [], 0, []⟩

/-- The two signatures have keys in order, and the opcode finds them. -/
theorem evalCheckMultiSig_exact_twoOfThree :
    ∃ m', twoSigner.evalCheckMultiSig SCRIPT_VERIFY_NULLDUMMY false twoOfThree = .ok m' ∧
      m'.stack = [[1]] := by
  have hstack : MultiSigStack SCRIPT_VERIFY_NULLDUMMY twoOfThree [3] [[1], [2], [3]] [2] [[1], [2]]
      [[]] := ⟨rfl, rfl, rfl, by decide⟩
  have henc : Encoded twoSigner SCRIPT_VERIFY_NULLDUMMY [[1], [2], [3]] [[1], [2]] :=
    ⟨by decide, by decide⟩
  obtain ⟨hok, hresult⟩ := evalCheckMultiSig_exact hstack henc
  obtain ⟨m', hm⟩ := hok.mpr ⟨by decide, by decide, [], [], rfl, fun _ => rfl⟩
  obtain ⟨fSuccess, rfl, hiff⟩ := hresult m' hm
  have hassign : fSuccess = true := by
    refine hiff.mpr ⟨fun i => ⟨i, Nat.lt_succ_of_lt i.isLt⟩, fun i j hij => hij, ?_⟩
    decide
  refine ⟨_, hm, ?_⟩
  rw [hassign]
  rfl

end Concrete

end Agenor
