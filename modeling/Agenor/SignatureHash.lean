import Agenor.Interpreter

/-!
The hash that a signature signs (`script/interpreter.cpp`), and the older function that the tests
compare it with (`test/sighash_tests.cpp`).

The older function makes a copy of the transaction and blanks what is not signed; the one in use
writes the same bytes from the transaction as it is. They agree on scripts that can be read to their
end. A transaction is given by the fields that are serialized, those of `CMutableTransaction`.
-/

namespace Agenor

open Script

structure CMutableTransaction where
  nVersion : ℤ
  vin : List CTxIn
  vout : List CTxOut
  nLockTime : ℕ
  deriving DecidableEq, Repr

/-! ### Serialization -/

def serializeBytes (b : List UInt8) : List UInt8 := writeCompactSize b.length ++ b

/-- A signed number of `k` bytes. -/
def writeSigned (k : ℕ) (x : ℤ) : List UInt8 := writeLE k (x % 2 ^ (8 * k)).toNat

/-- The bytes of a `uint256`. -/
def Uint256.serialize (h : Uint256) : List UInt8 := writeLE 32 h.toNat

def COutPoint.serialize (o : COutPoint) : List UInt8 := o.hash.serialize ++ writeLE 4 o.n

def CTxIn.serialize (txin : CTxIn) : List UInt8 :=
  txin.prevout.serialize ++ serializeBytes txin.scriptSig ++ writeLE 4 txin.nSequence

def CTxOut.serialize (out : CTxOut) : List UInt8 :=
  writeSigned 8 out.nValue ++ serializeBytes out.scriptPubKey

def CMutableTransaction.serialize (tx : CMutableTransaction) : List UInt8 :=
  writeSigned 4 tx.nVersion ++ (writeCompactSize tx.vin.length ++ tx.vin.flatMap CTxIn.serialize) ++
    (writeCompactSize tx.vout.length ++ tx.vout.flatMap CTxOut.serialize) ++ writeLE 4 tx.nLockTime

/-! ### Hash types -/

def SIGHASH_NONE : UInt32 := 2
def SIGHASH_SINGLE : UInt32 := 3
def SIGHASH_ANYONECANPAY : UInt32 := 0x80

/-- `nHashType & SIGHASH_ANYONECANPAY`; the bits of the `int` are those of the word. -/
def fAnyoneCanPay (nHashType : UInt32) : Bool := nHashType &&& SIGHASH_ANYONECANPAY != 0

def fHashSingle (nHashType : UInt32) : Bool := nHashType &&& 0x1f == SIGHASH_SINGLE

def fHashNone (nHashType : UInt32) : Bool := nHashType &&& 0x1f == SIGHASH_NONE

/-! ### `SignatureHash` -/

namespace Script

def OP_CODESEPARATOR : UInt8 := 0xab

/-- Where `GetOp2` leaves its iterator when it fails. -/
def getOpFailed : CScript → CScript
  | [] => []
  | opcode :: rest =>
    if opcode = OP_PUSHDATA1 then rest.drop 1
    else if opcode = OP_PUSHDATA2 then (if rest.length < 2 then rest else rest.drop 2)
    else if opcode = OP_PUSHDATA4 then (if rest.length < 4 then rest else rest.drop 4)
    else rest

/-- The first loop of `SerializeScriptCode`. Every pass reads at least one byte. -/
def codeSeparators : ℕ → CScript → ℕ
  | 0, _ => 0
  | fuel + 1, it =>
    match getOp it with
    | none => 0
    | some (opcode, _, it') =>
      (if opcode = OP_CODESEPARATOR then 1 else 0) + codeSeparators fuel it'

/-- The second loop of `SerializeScriptCode`, with what is written after it. -/
def writeScriptCode : ℕ → CScript → CScript → List UInt8
  | 0, itBegin, it => itBegin.take (itBegin.length - it.length)
  | fuel + 1, itBegin, it =>
    match getOp it with
    | none => itBegin.take (itBegin.length - (getOpFailed it).length)
    | some (opcode, _, it') =>
      if opcode = OP_CODESEPARATOR then
        itBegin.take (itBegin.length - it'.length - 1) ++ writeScriptCode fuel it' it'
      else writeScriptCode fuel itBegin it'

end Script

structure CTransactionSignatureSerializer where
  txTo : CMutableTransaction
  scriptCode : CScript
  nIn : ℕ
  nHashType : UInt32

namespace CTransactionSignatureSerializer

variable (s : CTransactionSignatureSerializer)

def serializeScriptCode : List UInt8 :=
  let nCodeSeparators := codeSeparators s.scriptCode.length s.scriptCode
  writeCompactSize (s.scriptCode.length - nCodeSeparators) ++
    writeScriptCode s.scriptCode.length s.scriptCode s.scriptCode

/-- `SerializeInput`. The index is never out of range. -/
def serializeInput (nInput : ℕ) : List UInt8 :=
  let nInput := if fAnyoneCanPay s.nHashType then s.nIn else nInput
  match s.txTo.vin[nInput]? with
  | none => []
  | some txin =>
    txin.prevout.serialize ++
      (if nInput ≠ s.nIn then serializeBytes [] else s.serializeScriptCode) ++
      (if nInput ≠ s.nIn ∧ (fHashSingle s.nHashType || fHashNone s.nHashType) = true then
        writeLE 4 0 else writeLE 4 txin.nSequence)

/-- `SerializeOutput`. The index is never out of range. -/
def serializeOutput (nOutput : ℕ) : List UInt8 :=
  if fHashSingle s.nHashType = true ∧ nOutput ≠ s.nIn then CTxOut.null.serialize
  else match s.txTo.vout[nOutput]? with
    | none => []
    | some out => out.serialize

def serialize : List UInt8 :=
  let nInputs := if fAnyoneCanPay s.nHashType then 1 else s.txTo.vin.length
  let nOutputs := if fHashNone s.nHashType then 0
    else if fHashSingle s.nHashType then s.nIn + 1 else s.txTo.vout.length
  writeSigned 4 s.txTo.nVersion ++
    (writeCompactSize nInputs ++ (List.range nInputs).flatMap s.serializeInput) ++
    (writeCompactSize nOutputs ++ (List.range nOutputs).flatMap s.serializeOutput) ++
    writeLE 4 s.txTo.nLockTime

end CTransactionSignatureSerializer

section

variable (hash : List UInt8 → Uint256)

structure PrecomputedTransactionData where
  hashPrevouts : Uint256
  hashSequence : Uint256
  hashOutputs : Uint256

/-- What is hashed for `SIGVERSION_WITNESS_V0`. -/
def serializeWitnessV0 (scriptCode : CScript) (txTo : CMutableTransaction) (nIn : ℕ)
    (nHashType : UInt32) (amount : ℤ) (cache : Option PrecomputedTransactionData) : List UInt8 :=
  let partly := fHashSingle nHashType || fHashNone nHashType
  let hashPrevouts : Uint256 :=
    if fAnyoneCanPay nHashType then 0
    else match cache with
      | some cache => cache.hashPrevouts
      | none => hash (txTo.vin.flatMap fun txin => txin.prevout.serialize)
  let hashSequence : Uint256 :=
    if fAnyoneCanPay nHashType || partly then 0
    else match cache with
      | some cache => cache.hashSequence
      | none => hash (txTo.vin.flatMap fun txin => writeLE 4 txin.nSequence)
  let hashOutputs : Uint256 :=
    if !partly then match cache with
      | some cache => cache.hashOutputs
      | none => hash (txTo.vout.flatMap CTxOut.serialize)
    else if fHashSingle nHashType then ((txTo.vout[nIn]?).map fun out => hash out.serialize).getD 0
    else 0
  writeSigned 4 txTo.nVersion ++ hashPrevouts.serialize ++ hashSequence.serialize ++
    ((txTo.vin[nIn]?).elim [] fun txin => txin.prevout.serialize ++ serializeBytes scriptCode ++
      writeSigned 8 amount ++ writeLE 4 txin.nSequence) ++
    hashOutputs.serialize ++ writeLE 4 txTo.nLockTime ++ writeLE 4 nHashType.toNat

/-- `SignatureHash`; `hash` is what `CHashWriter` computes. -/
def signatureHash (scriptCode : CScript) (txTo : CMutableTransaction) (nIn : ℕ)
    (nHashType : UInt32) (amount : ℤ) (sigversion : SigVersion)
    (cache : Option PrecomputedTransactionData) : Uint256 :=
  if txTo.vin.length ≤ nIn then 1
  else match sigversion with
    | .SIGVERSION_WITNESS_V0 =>
      hash (serializeWitnessV0 hash scriptCode txTo nIn nHashType amount cache)
    | .SIGVERSION_BASE =>
      if fHashSingle nHashType ∧ txTo.vout.length ≤ nIn then 1
      else
        let txTmp : CTransactionSignatureSerializer := ⟨txTo, scriptCode, nIn, nHashType⟩
        hash (txTmp.serialize ++ writeLE 4 nHashType.toNat)

/-! ### `SignatureHashOld` -/

/-- The others are let update at will. -/
def zeroOtherSequences (vin : List CTxIn) (nIn : ℕ) : List CTxIn :=
  vin.mapIdx fun i txin => if i ≠ nIn then { txin with nSequence := 0 } else txin

/-- `vin[0] = vin[nIn]; vin.resize(1)`. -/
def onlyInput (vin : List CTxIn) (nIn : ℕ) : List CTxIn :=
  match vin[nIn]? with
  | none => vin
  | some txin => (vin.set 0 txin).take 1

/-- The copy that `SignatureHashOld` serializes, before the other inputs are dropped; `none` when
there is no output for the input. -/
def blankTx (scriptCode : CScript) (txTo : CMutableTransaction) (nIn : ℕ) (nHashType : UInt32) :
    Option CMutableTransaction :=
  let scriptCode := findAndDelete scriptCode [OP_CODESEPARATOR]
  let txTmp : CMutableTransaction :=
    { txTo with vin := txTo.vin.map fun txin => { txin with scriptSig := [] } }
  let txTmp : CMutableTransaction :=
    { txTmp with vin := txTmp.vin.modify nIn fun txin => { txin with scriptSig := scriptCode } }
  if fHashNone nHashType then
    some { txTmp with vout := [], vin := zeroOtherSequences txTmp.vin nIn }
  else if fHashSingle nHashType then
    if txTmp.vout.length ≤ nIn then none
    else
      let vout := (txTmp.vout.take (nIn + 1)).mapIdx fun i out =>
        if i < nIn then CTxOut.null else out
      some { txTmp with vout, vin := zeroOtherSequences txTmp.vin nIn }
  else some txTmp

def signatureHashOld (scriptCode : CScript) (txTo : CMutableTransaction) (nIn : ℕ)
    (nHashType : UInt32) : Uint256 :=
  if txTo.vin.length ≤ nIn then 1
  else match blankTx scriptCode txTo nIn nHashType with
    | none => 1
    | some txTmp =>
      let txTmp := if fAnyoneCanPay nHashType then { txTmp with vin := onlyInput txTmp.vin nIn }
        else txTmp
      hash (txTmp.serialize ++ writeLE 4 nHashType.toNat)

end

/-! ### The script code -/

namespace Script

/-- A script that can be read to its end. -/
inductive Parses : CScript → Prop
  | nil : Parses []
  | step {pc pc' : CScript} {opcode : UInt8} {data : List UInt8}
      (hop : getOp pc = some (opcode, data, pc')) (h : Parses pc') : Parses pc

variable {pc pc' data : CScript} {opcode : UInt8}

lemma readPush_suffix {k : ℕ} {rest : CScript} (h : readPush k rest = some (data, pc')) :
    pc' <:+ rest := by
  unfold readPush at h
  dsimp only at h
  split_ifs at h
  obtain ⟨-, rfl⟩ := Prod.mk.inj (Option.some.inj h)
  exact (List.drop_suffix _ _).trans (List.drop_suffix _ _)

lemma getOp_cons (h : getOp pc = some (opcode, data, pc')) :
    ∃ operand, pc = opcode :: (operand ++ pc') := by
  have hpush : ∀ {k : ℕ} {b : UInt8} {rest : CScript},
      (readPush k rest).map (b, ·) = some (opcode, data, pc') → b = opcode ∧ pc' <:+ rest := by
    intro k b rest hb
    obtain ⟨r, hr, heq⟩ := Option.map_eq_some_iff.mp hb
    obtain ⟨rfl, rfl⟩ := Prod.mk.inj heq
    exact ⟨rfl, readPush_suffix hr⟩
  cases pc with
  | nil => cases h
  | cons b rest =>
    suffices hb : b = opcode ∧ pc' <:+ rest by
      obtain ⟨rfl, operand, rfl⟩ := hb
      exact ⟨operand, rfl⟩
    unfold getOp at h
    dsimp only at h
    split_ifs at h
    · obtain ⟨rfl, heq⟩ := Prod.mk.inj (Option.some.inj h)
      obtain ⟨-, rfl⟩ := Prod.mk.inj heq
      exact ⟨rfl, List.drop_suffix _ _⟩
    · exact hpush h
    · exact hpush h
    · exact hpush h
    · obtain ⟨rfl, heq⟩ := Prod.mk.inj (Option.some.inj h)
      obtain ⟨-, rfl⟩ := Prod.mk.inj heq
      exact ⟨rfl, List.suffix_refl _⟩

lemma getOp_codeSeparator (h : getOp pc = some (OP_CODESEPARATOR, data, pc')) :
    pc = OP_CODESEPARATOR :: pc' := by
  obtain ⟨operand, rfl⟩ := getOp_cons h
  have hsep : getOp (OP_CODESEPARATOR :: (operand ++ pc')) =
      some (OP_CODESEPARATOR, [], operand ++ pc') := by
    rw [getOp, if_neg (by decide)]
  rw [hsep] at h
  rw [(Prod.mk.inj (Prod.mk.inj (Option.some.inj h)).2).2]

lemma findAndDeleteFrom_step {fuel : ℕ} {operand : CScript}
    (h : getOp (opcode :: (operand ++ pc')) = some (opcode, data, pc')) :
    findAndDeleteFrom [OP_CODESEPARATOR] (fuel + 1) (opcode :: (operand ++ pc')) =
      (if opcode = OP_CODESEPARATOR then [] else opcode :: operand) ++
        findAndDeleteFrom [OP_CODESEPARATOR] fuel pc' := by
  rw [findAndDeleteFrom]
  by_cases hsep : opcode = OP_CODESEPARATOR
  · subst hsep
    have hnone : operand ++ pc' = pc' := (List.cons.inj (getOp_codeSeparator h)).2
    rw [if_pos rfl, hnone]
    rfl
  · have hpre : ([OP_CODESEPARATOR] : CScript).isPrefixOf (opcode :: (operand ++ pc')) = false := by
      simp [List.isPrefixOf, Ne.symm hsep]
    have htake : (opcode :: (operand ++ pc')).take
        ((opcode :: (operand ++ pc')).length - pc'.length) = opcode :: operand := by
      have hlen : (opcode :: (operand ++ pc')).length - pc'.length =
          (opcode :: operand).length := by
        simp only [List.length_append, List.length_cons]
        omega
      rw [hlen]
      exact List.take_left
    rw [hpre, h, if_neg hsep]
    exact congrArg (· ++ findAndDeleteFrom [OP_CODESEPARATOR] fuel pc') htake

lemma codeSeparators_add_length (h : Parses pc) :
    ∀ fuel fuel' : ℕ, pc.length ≤ fuel → pc.length ≤ fuel' → codeSeparators fuel pc +
      (findAndDeleteFrom [OP_CODESEPARATOR] fuel' pc).length = pc.length := by
  induction h with
  | nil =>
    intro fuel fuel' _ _
    cases fuel <;> cases fuel' <;> rfl
  | @step pc pc' opcode data hop _ ih =>
    intro fuel fuel' hfuel hfuel'
    obtain ⟨operand, rfl⟩ := getOp_cons hop
    rw [List.length_cons, List.length_append] at hfuel hfuel'
    obtain ⟨fuel, rfl⟩ := Nat.exists_eq_add_one_of_ne_zero (show fuel ≠ 0 by omega)
    obtain ⟨fuel', rfl⟩ := Nat.exists_eq_add_one_of_ne_zero (show fuel' ≠ 0 by omega)
    have hrest := ih fuel fuel' (by omega) (by omega)
    rw [findAndDeleteFrom_step hop, codeSeparators, hop]
    dsimp only
    by_cases hsep : opcode = OP_CODESEPARATOR
    · subst hsep
      have hnone : operand = [] := by
        simpa using (List.cons.inj (getOp_codeSeparator hop)).2
      rw [if_pos rfl, if_pos rfl, hnone]
      simp only [List.nil_append, List.length_cons]
      omega
    · rw [if_neg hsep, if_neg hsep]
      simp only [List.length_append, List.length_cons]
      omega

lemma writeScriptCode_eq (h : Parses pc) :
    ∀ (fuel fuel' : ℕ) (pre : CScript), pc.length ≤ fuel → pc.length ≤ fuel' →
      writeScriptCode fuel (pre ++ pc) pc =
        pre ++ findAndDeleteFrom [OP_CODESEPARATOR] fuel' pc := by
  induction h with
  | nil =>
    intro fuel fuel' pre _ _
    cases fuel <;> cases fuel' <;> simp [writeScriptCode, findAndDeleteFrom, getOp, getOpFailed]
  | @step pc pc' opcode data hop _ ih =>
    intro fuel fuel' pre hfuel hfuel'
    obtain ⟨operand, rfl⟩ := getOp_cons hop
    rw [List.length_cons, List.length_append] at hfuel hfuel'
    obtain ⟨fuel, rfl⟩ := Nat.exists_eq_add_one_of_ne_zero (show fuel ≠ 0 by omega)
    obtain ⟨fuel', rfl⟩ := Nat.exists_eq_add_one_of_ne_zero (show fuel' ≠ 0 by omega)
    rw [findAndDeleteFrom_step hop, writeScriptCode, hop]
    dsimp only
    by_cases hsep : opcode = OP_CODESEPARATOR
    · subst hsep
      have hnone : operand = [] := by
        simpa using (List.cons.inj (getOp_codeSeparator hop)).2
      subst hnone
      rw [if_pos rfl, if_pos rfl]
      have hlen : (pre ++ OP_CODESEPARATOR :: ([] ++ pc')).length - pc'.length - 1 =
          pre.length := by
        simp only [List.nil_append, List.length_append, List.length_cons]
        omega
      have hrest := ih fuel fuel' [] (by omega) (by omega)
      rw [hlen, List.take_left, List.nil_append]
      exact congrArg (pre ++ ·) hrest
    · rw [if_neg hsep, if_neg hsep]
      have hrest := ih fuel fuel' (pre ++ opcode :: operand) (by omega)
        (by omega)
      have hassoc : pre ++ opcode :: (operand ++ pc') = (pre ++ opcode :: operand) ++ pc' := by
        simp
      rw [hassoc, hrest, List.append_assoc]

end Script

lemma CTransactionSignatureSerializer.serializeScriptCode_eq
    (s : CTransactionSignatureSerializer) (h : Parses s.scriptCode) :
    s.serializeScriptCode = serializeBytes (findAndDelete s.scriptCode [OP_CODESEPARATOR]) := by
  have hlen := codeSeparators_add_length h _ _ le_rfl le_rfl
  have hwrite := writeScriptCode_eq h _ _ [] le_rfl le_rfl
  unfold serializeScriptCode serializeBytes findAndDelete
  dsimp only
  rw [List.nil_append] at hwrite
  rw [if_neg (by decide), hwrite, List.nil_append]
  congr 2
  omega

/-! ### The two serializations -/

section

variable {scriptCode : CScript} {txTo : CMutableTransaction} {nIn : ℕ} {nHashType : UInt32}

lemma not_fHashSingle (h : fHashNone nHashType = true) : fHashSingle nHashType = false := by
  unfold fHashNone at h
  unfold fHashSingle
  rw [beq_iff_eq] at h
  rw [h]
  rfl

/-- An input of the copy: the others lose their scripts, and their sequence numbers when they are
let update at will. -/
def blankInput (scriptCode : CScript) (nIn : ℕ) (nHashType : UInt32) (i : ℕ) (txin : CTxIn) :
    CTxIn :=
  { txin with
    scriptSig := if i ≠ nIn then [] else scriptCode
    nSequence := if i ≠ nIn ∧ (fHashSingle nHashType || fHashNone nHashType) = true then 0
      else txin.nSequence }

lemma zeroOtherSequences_modify (code : CScript) (vin : List CTxIn)
    (h : (fHashSingle nHashType || fHashNone nHashType) = true) :
    zeroOtherSequences ((vin.map fun txin => { txin with scriptSig := [] }).modify nIn
      fun txin => { txin with scriptSig := code }) nIn =
      vin.mapIdx (blankInput code nIn nHashType) := by
  apply List.ext_getElem?
  intro i
  rw [zeroOtherSequences, List.getElem?_mapIdx, List.getElem?_modify, List.getElem?_map,
    List.getElem?_mapIdx]
  cases vin[i]? with
  | none => simp
  | some txin =>
    by_cases hi : i = nIn
    · simp [blankInput, hi]
    · simp [blankInput, hi, h, Ne.symm hi]

lemma modify_map (code : CScript) (vin : List CTxIn)
    (h : (fHashSingle nHashType || fHashNone nHashType) = false) :
    (vin.map fun txin => { txin with scriptSig := [] }).modify nIn
      (fun txin => { txin with scriptSig := code }) =
      vin.mapIdx (blankInput code nIn nHashType) := by
  apply List.ext_getElem?
  intro i
  rw [List.getElem?_modify, List.getElem?_map, List.getElem?_mapIdx]
  cases vin[i]? with
  | none => simp
  | some txin =>
    by_cases hi : i = nIn
    · simp [blankInput, hi]
    · simp [blankInput, hi, h, Ne.symm hi]

/-- The outputs of the copy when there is one. -/
def blankOutputs (txTo : CMutableTransaction) (nIn : ℕ) (nHashType : UInt32) : List CTxOut :=
  if fHashNone nHashType then []
  else if fHashSingle nHashType then
    (txTo.vout.take (nIn + 1)).mapIdx fun i out => if i < nIn then CTxOut.null else out
  else txTo.vout

lemma blankTx_eq (hout : ¬ (fHashSingle nHashType = true ∧ txTo.vout.length ≤ nIn)) :
    blankTx scriptCode txTo nIn nHashType = some
      { txTo with
        vin := txTo.vin.mapIdx
          (blankInput (findAndDelete scriptCode [OP_CODESEPARATOR]) nIn nHashType)
        vout := blankOutputs txTo nIn nHashType } := by
  unfold blankTx blankOutputs
  dsimp only
  by_cases hnone : fHashNone nHashType = true
  · rw [if_pos hnone, if_pos hnone, zeroOtherSequences_modify _ _ (by rw [hnone, Bool.or_true])]
  · rw [if_neg hnone, if_neg hnone]
    by_cases hsingle : fHashSingle nHashType = true
    · rw [if_pos hsingle, if_pos hsingle, if_neg fun h => hout ⟨hsingle, h⟩,
        zeroOtherSequences_modify _ _ (by rw [hsingle, Bool.true_or])]
    · have hother : (fHashSingle nHashType || fHashNone nHashType) = false := by
        simp [hsingle, hnone]
      rw [if_neg hsingle, if_neg hsingle, modify_map _ _ hother]

lemma blankTx_none (hsingle : fHashSingle nHashType = true) (hout : txTo.vout.length ≤ nIn) :
    blankTx scriptCode txTo nIn nHashType = none := by
  have hnone : ¬ fHashNone nHashType = true := by
    intro h
    rw [not_fHashSingle h] at hsingle
    cases hsingle
  unfold blankTx
  dsimp only
  rw [if_neg hnone, if_pos hsingle, if_pos hout]

lemma flatMap_range {α β : Type*} {l : List α} {f : ℕ → List β} {g : α → List β}
    (h : ∀ i x, l[i]? = some x → f i = g x) : (List.range l.length).flatMap f = l.flatMap g := by
  induction l generalizing f with
  | nil => rfl
  | cons x l ih =>
    rw [List.length_cons, List.range_succ_eq_map, List.flatMap_cons, List.flatMap_cons,
      List.flatMap_map, h 0 x rfl, ih (f := fun i => f (i + 1)) fun i y hy => h (i + 1) y hy]

variable (s : CTransactionSignatureSerializer)

lemma CTransactionSignatureSerializer.serializeInput_eq (hcode : Parses s.scriptCode) {i : ℕ}
    {txin : CTxIn} (hany : fAnyoneCanPay s.nHashType = true → i = s.nIn)
    (h : s.txTo.vin[i]? = some txin) :
    s.serializeInput i = (blankInput (findAndDelete s.scriptCode [OP_CODESEPARATOR]) s.nIn
      s.nHashType i txin).serialize := by
  have hi : (if fAnyoneCanPay s.nHashType = true then s.nIn else i) = i := by
    split_ifs with hpay
    · exact (hany hpay).symm
    · rfl
  unfold serializeInput
  dsimp only
  rw [hi, h, s.serializeScriptCode_eq hcode]
  unfold CTxIn.serialize blankInput
  dsimp only
  split_ifs <;> rfl

lemma CTransactionSignatureSerializer.serializeOutputs_eq
    (hout : ¬ (fHashSingle s.nHashType = true ∧ s.txTo.vout.length ≤ s.nIn)) :
    (if fHashNone s.nHashType = true then 0
      else if fHashSingle s.nHashType = true then s.nIn + 1 else s.txTo.vout.length) =
        (blankOutputs s.txTo s.nIn s.nHashType).length ∧
      (List.range (blankOutputs s.txTo s.nIn s.nHashType).length).flatMap s.serializeOutput =
        (blankOutputs s.txTo s.nIn s.nHashType).flatMap CTxOut.serialize := by
  unfold blankOutputs
  by_cases hnone : fHashNone s.nHashType = true
  · rw [if_pos hnone, if_pos hnone]
    exact ⟨rfl, rfl⟩
  rw [if_neg hnone, if_neg hnone]
  by_cases hsingle : fHashSingle s.nHashType = true
  · rw [if_pos hsingle, if_pos hsingle]
    have hlt : s.nIn < s.txTo.vout.length := not_le.mp fun h => hout ⟨hsingle, h⟩
    refine ⟨by simp; omega, flatMap_range fun i out hi => ?_⟩
    rw [List.getElem?_mapIdx, List.getElem?_take] at hi
    obtain ⟨out', hout', rfl⟩ := Option.map_eq_some_iff.mp hi
    have hle : i < s.nIn + 1 := by
      by_contra hle
      rw [if_neg hle] at hout'
      cases hout'
    rw [if_pos hle] at hout'
    unfold serializeOutput
    by_cases hne : i = s.nIn
    · rw [if_neg fun h => h.2 hne, hout', if_neg (by omega)]
    · rw [if_pos ⟨hsingle, hne⟩, if_pos (by omega)]
  · rw [if_neg hsingle, if_neg hsingle]
    refine ⟨rfl, flatMap_range fun i out hi => ?_⟩
    unfold serializeOutput
    rw [if_neg fun h => hsingle h.1, hi]

lemma CTransactionSignatureSerializer.serialize_eq (hcode : Parses s.scriptCode)
    (hin : s.nIn < s.txTo.vin.length)
    (hout : ¬ (fHashSingle s.nHashType = true ∧ s.txTo.vout.length ≤ s.nIn)) :
    let vin := s.txTo.vin.mapIdx
      (blankInput (findAndDelete s.scriptCode [OP_CODESEPARATOR]) s.nIn s.nHashType)
    s.serialize = CMutableTransaction.serialize
      { s.txTo with
        vin := if fAnyoneCanPay s.nHashType = true then onlyInput vin s.nIn else vin
        vout := blankOutputs s.txTo s.nIn s.nHashType } := by
  intro vin
  obtain ⟨hcount, houts⟩ := s.serializeOutputs_eq hout
  unfold serialize CMutableTransaction.serialize
  dsimp only
  rw [hcount, houts]
  by_cases hany : fAnyoneCanPay s.nHashType = true
  · have hget : vin[s.nIn]? = some (blankInput (findAndDelete s.scriptCode [OP_CODESEPARATOR])
        s.nIn s.nHashType s.nIn s.txTo.vin[s.nIn]) := by
      rw [List.getElem?_mapIdx, List.getElem?_eq_getElem hin, Option.map_some]
    have honly : onlyInput vin s.nIn = [blankInput
        (findAndDelete s.scriptCode [OP_CODESEPARATOR]) s.nIn s.nHashType s.nIn
          s.txTo.vin[s.nIn]] := by
      unfold onlyInput
      rw [hget]
      cases hvin : vin with
      | nil => rw [hvin] at hget; cases hget
      | cons txin rest => rfl
    have hfirst : s.serializeInput 0 = s.serializeInput s.nIn := by
      unfold serializeInput
      dsimp only
      rw [if_pos hany, if_pos hany]
    rw [if_pos hany, if_pos hany, honly]
    rw [show List.range 1 = [0] from rfl, List.flatMap_singleton, List.flatMap_singleton, hfirst,
      s.serializeInput_eq hcode (fun _ => rfl) (List.getElem?_eq_getElem hin)]
    rfl
  · have hlen : s.txTo.vin.length = vin.length := (List.length_mapIdx).symm
    have hins : (List.range vin.length).flatMap s.serializeInput =
        vin.flatMap CTxIn.serialize := by
      refine flatMap_range fun i txin hi => ?_
      rw [List.getElem?_mapIdx] at hi
      obtain ⟨txin', htxin, rfl⟩ := Option.map_eq_some_iff.mp hi
      exact s.serializeInput_eq hcode (fun h => absurd h hany) htxin
    rw [if_neg hany, if_neg hany, hlen, hins]

end

/-- **The signature hash agrees with the older function** on every script that can be read to its
end. -/
theorem signatureHash_eq_old (hash : List UInt8 → Uint256) (scriptCode : CScript)
    (txTo : CMutableTransaction) (nIn : ℕ) (nHashType : UInt32) (amount : ℤ)
    (cache : Option PrecomputedTransactionData) (hcode : Parses scriptCode) :
    signatureHash hash scriptCode txTo nIn nHashType amount .SIGVERSION_BASE cache =
      signatureHashOld hash scriptCode txTo nIn nHashType := by
  unfold signatureHash signatureHashOld
  by_cases hin : txTo.vin.length ≤ nIn
  · rw [if_pos hin, if_pos hin]
  rw [if_neg hin, if_neg hin]
  dsimp only
  by_cases hout : fHashSingle nHashType = true ∧ txTo.vout.length ≤ nIn
  · rw [if_pos hout, blankTx_none hout.1 hout.2]
  · rw [if_neg hout, blankTx_eq hout]
    have hbytes := CTransactionSignatureSerializer.serialize_eq
      ⟨txTo, scriptCode, nIn, nHashType⟩ hcode (not_le.mp hin) hout
    dsimp only at hbytes ⊢
    rw [hbytes]
    split_ifs <;> rfl

namespace Concrete

def sighashTx : CMutableTransaction where
  nVersion := 1
  vin := [⟨⟨7, 0⟩, [0x51], 5⟩, ⟨⟨8, 1⟩, [0x52], 6⟩]
  vout := [⟨10, [0x51]⟩, ⟨20, [0x52]⟩]
  nLockTime := 0

/-- A script with separators, one of them inside a push. -/
def sighashScript : CScript := [0xab, 0x01, 0xab, 0xab, 0xac]

lemma sighashScript_parses : Parses sighashScript :=
  .step rfl (.step rfl (.step rfl (.step rfl .nil)))

/-- The two functions agree where one output is signed and the other inputs are left out. -/
theorem signatureHash_eq_old_separators :
    signatureHash (fun bytes => BitVec.ofNat 256 (readLE bytes)) sighashScript sighashTx 1 0x83 0
        .SIGVERSION_BASE none =
      signatureHashOld (fun bytes => BitVec.ofNat 256 (readLE bytes)) sighashScript sighashTx 1
        0x83 :=
  signatureHash_eq_old _ _ _ _ _ _ _ sighashScript_parses

end Concrete

end Agenor
