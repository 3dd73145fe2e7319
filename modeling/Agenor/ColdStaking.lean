import Agenor.CheckBlock

/-!
Cold staking: what protects the owner of delegated coins.

The script of a delegated coin lets the staker spend it only through `OP_CHECKCOLDSTAKEVERIFY`,
which asks `CheckColdStake` whether the outputs go back to the same script, and `CheckBlock` asks
`CheckColdStakeFreeOutput` about the last output, which may be a masternode or budget payment. The
loop over the outputs is guarded by the number of inputs, so for few inputs only one output is
looked at. Neither check compares the outputs with what is spent, and in a superblock the last
output can be worth anything.
-/

namespace Agenor

open Lib.Wrap Lib.Fallible

namespace CTransaction

variable (tx : CTransaction)

/-- The outputs other than the marker and the last one. -/
def middleOuts : List CTxOut := (tx.vout.drop 1).take (tx.vout.length - 2)

def lastOut : CTxOut := tx.vout.getD (tx.vout.length - 1) CTxOut.null

def paidTo (script : CScript) : ℤ :=
  ((tx.vout.filter (·.scriptPubKey == script)).map (·.nValue)).sum

/-- The value of the last output, where it does not pay to the script. -/
def freeValue (script : CScript) : ℤ :=
  if tx.lastOut.scriptPubKey = script then 0 else tx.lastOut.nValue

end CTransaction

/-- The owner's coins are safe: all outputs but the marker and the last one pay to the script, what
is paid to it is worth what is spent but for the last output, and that one is within the payment. -/
structure Custody (script : CScript) (tx : CTransaction) (spent : List CTxOut) (nPayment : ℤ) :
    Prop where
  outs : ∀ out ∈ tx.middleOuts, out.scriptPubKey = script
  value : (spent.map (·.nValue)).sum - tx.freeValue script ≤ tx.paidTo script
  free : tx.freeValue script ≤ nPayment

/-- A coinstake that both checks accept; its first input spends a delegated coin. -/
structure ColdStaked (node : Node) (nHeight : ℤ) (script : CScript) (tx : CTransaction)
    (spent : List CTxOut) : Prop where
  delegated : Script.isPayToColdStaking script = true
  first : ∃ rest out, spent = out :: rest ∧ out.scriptPubKey = script
  length : spent.length = tx.vin.length
  nonneg : ∀ out ∈ tx.vout, 0 ≤ out.nValue
  checked : tx.checkColdStake script = true
  free : checkColdStakeFreeOutput node tx nHeight = .ok ()

/-- Whether the free output must be the masternode payment: it need not be in a superblock, or as
long as the node is not synchronised. -/
def verifiesFree (node : Node) (nHeight : ℤ) : Bool :=
  node.params.isRegTestNet || node.isSynced &&
    !(node.isBudgetPaymentBlock nHeight && node.isSporkActive .SPORK_13_ENABLE_SUPERBLOCKS)

/-- Every accepted coinstake with so many inputs and outputs, and with this difference between what
it pays and what it spends, is safe. -/
def CustodySafe (net : Network) (nHeight : ℤ) (verified : Bool) (nIn nOut : ℕ) (surplus : ℤ)
    (nPayment : ℤ) : Prop :=
  ∀ (node : Node) (script : CScript) (tx : CTransaction) (spent : List CTxOut),
    node.params = paramsOf net → verifiesFree node nHeight = verified → tx.vin.length = nIn →
    tx.vout.length = nOut → tx.valueOut - (spent.map (·.nValue)).sum = surplus →
    ColdStaked node nHeight script tx spent → Custody script tx spent nPayment

variable {node : Node} {nHeight nPayment surplus : ℤ} {script : CScript} {tx : CTransaction}
  {spent : List CTxOut}

/-! ### What the checks give -/

lemma vout_of_coinStake (h : tx.isCoinStake = true) :
    ∃ marker mid last, tx.vout = marker :: (mid ++ [last]) ∧ marker.isEmpty = true ∧
      tx.middleOuts = mid ∧ tx.lastOut = last := by
  unfold CTransaction.isCoinStake at h
  split at h
  · cases h
  split at h
  · cases h
  split at h
  · next out a rest hv =>
    obtain ⟨mid, last, hml⟩ : ∃ mid last, a :: rest = mid ++ [last] :=
      ⟨(a :: rest).dropLast, (a :: rest).getLast (by simp), by simp [List.dropLast_append_getLast]⟩
    rw [hml] at hv
    refine ⟨out, mid, last, hv, h, ?_, ?_⟩
    · simp [CTransaction.middleOuts, hv]
    · simp [CTransaction.lastOut, hv]
  · cases h

lemma checkColdStake_eq_true {marker last : CTxOut} {mid : List CTxOut}
    (hv : tx.vout = marker :: (mid ++ [last])) (h : tx.checkColdStake script = true) :
    ((mid ++ [last]).head?.map (·.scriptPubKey)) = some script ∧
      (3 < tx.vin.length → ∀ out ∈ mid, out.scriptPubKey = script) := by
  unfold CTransaction.checkColdStake at h
  split at h
  · cases h
  dsimp only at h
  split at h
  · cases h
  split at h
  · cases h
  next hfirst =>
  have hhead : (mid ++ [last]).head?.map (·.scriptPubKey) = some script := by
    simpa [hv, List.head?_eq_getElem?] using hfirst
  refine ⟨hhead, ?_⟩
  intro hin
  split at h
  · cases h
  next hloop =>
  cases mid with
  | nil => simp
  | cons m ms =>
    intro out hout
    simp only [List.cons_append, List.head?_cons, Option.map_some, Option.some.injEq] at hhead
    rcases List.mem_cons.mp hout with rfl | hout
    · exact hhead
    · simp only [hv, hin, List.cons_append, List.drop_succ_cons, List.drop_zero, List.length_cons,
        List.length_append, List.length_nil, decide_true, Bool.true_and] at hloop
      have htake : (ms ++ [last]).take (ms.length + (0 + 1) + 1 + 1 - 3) = ms := by
        rw [show ms.length + (0 + 1) + 1 + 1 - 3 = ms.length by omega]
        simp
      rw [htake] at hloop
      simp only [List.any_eq_true, not_exists, not_and, bne_iff_ne, ne_eq, not_not] at hloop
      exact hloop out hout

lemma free_eq_payment {marker m last : CTxOut} {mid : List CTxOut}
    (hv : tx.vout = marker :: (mid ++ [m, last])) (hout : tx.hasP2CSOutputs = true)
    (hver : verifiesFree node nHeight = true) (hne : last.scriptPubKey ≠ m.scriptPubKey)
    (h : checkColdStakeFreeOutput node tx nHeight = .ok ()) :
    last.nValue = getMasternodePayment (node.params.getBlockValue nHeight) := by
  have hlen : tx.vout.length = mid.length + 3 := by simp [hv]
  have hlast : tx.vout.getD (tx.vout.length - 1) CTxOut.null = last := by
    simp [hv]
  have hbefore : tx.vout.getD (tx.vout.length - 2) CTxOut.null = m := by
    simp [hv]
  simp only [checkColdStakeFreeOutput, hout, hlast, hbefore, Bool.not_true, Bool.false_eq_true,
    if_false] at h
  rw [if_pos (by simp [hlen, hne])] at h
  split at h
  · assumption
  · exfalso
    simp only [bind_eq_ok, failIf_eq_ok] at h
    obtain ⟨-, hreg, h⟩ := h
    simp only [verifiesFree, hreg, Bool.false_or, Bool.and_eq_true, Bool.not_eq_eq_eq_not,
      Bool.not_true, Bool.and_eq_false_iff] at hver
    obtain ⟨hsync, hver⟩ := hver
    simp only [hsync, Bool.not_true, Bool.false_eq_true, if_false] at h
    split at h
    · next hb =>
      simp only [failIf_eq_ok, Bool.not_eq_eq_eq_not, Bool.not_false] at h
      rcases hver with hver | hver
      · rw [hb] at hver
        cases hver
      · rw [h] at hver
        cases hver
    · cases h

lemma delegated_ne_nil (h : Script.isPayToColdStaking script = true) : script ≠ [] := by
  rintro rfl
  simp [Script.isPayToColdStaking] at h

lemma paidTo_add_freeValue {marker last : CTxOut} {mid : List CTxOut}
    (hv : tx.vout = marker :: (mid ++ [last])) (hlast : tx.lastOut = last)
    (hmarker : marker.isEmpty = true) (hne : script ≠ [])
    (hmid : ∀ out ∈ mid, out.scriptPubKey = script) :
    tx.paidTo script + tx.freeValue script = tx.valueOut := by
  simp only [CTxOut.isEmpty, Bool.and_eq_true, beq_iff_eq, List.isEmpty_iff] at hmarker
  have hno : (marker.scriptPubKey == script) = false := by
    rw [hmarker.2]
    exact beq_eq_false_iff_ne.mpr (Ne.symm hne)
  have hall : mid.filter (·.scriptPubKey == script) = mid := by
    rw [List.filter_eq_self]
    intro out hout
    simpa using hmid out hout
  simp only [CTransaction.paidTo, CTransaction.freeValue, CTransaction.valueOut, hlast, hv,
    List.filter_cons, hno, List.filter_append, hall, List.map_cons, List.map_append, List.sum_cons,
    List.sum_append, hmarker.1]
  by_cases hl : last.scriptPubKey = script
  · simp [hl]
  · simp [hl]

lemma ColdStaked.isCoinStake (hs : ColdStaked node nHeight script tx spent) :
    tx.isCoinStake = true := by
  by_contra hno
  have hc := hs.checked
  simp [CTransaction.checkColdStake, hno] at hc

/-- **The owner is safe** when the loop over the outputs is entered or not needed, the free output
is verified or not there, and nothing is lost. -/
lemma custody_of_coldStaked
    (hP : getMasternodePayment (node.params.getBlockValue nHeight) ≤ nPayment)
    (hs : ColdStaked node nHeight script tx spent)
    (hsurplus : 0 ≤ tx.valueOut - (spent.map (·.nValue)).sum)
    (hshape : tx.vout.length = 2 ∨ verifiesFree node nHeight = true ∧
      (tx.vout.length = 3 ∨ 3 < tx.vin.length)) : Custody script tx spent nPayment := by
  obtain ⟨marker, mid, last, hv, hmarker, hmid, hlast⟩ := vout_of_coinStake hs.isCoinStake
  obtain ⟨hhead, hloop⟩ := checkColdStake_eq_true hv hs.checked
  have hlen : tx.vout.length = mid.length + 2 := by simp [hv]
  have houts : ∀ out ∈ mid, out.scriptPubKey = script := by
    rcases hshape with h2 | ⟨-, h3 | h3⟩
    · have : mid = [] := List.length_eq_zero_iff.mp (by omega)
      simp [this]
    · obtain ⟨m, rfl⟩ := List.length_eq_one_iff.mp (show mid.length = 1 by omega)
      simpa using hhead
    · exact hloop h3
  have htotal := paidTo_add_freeValue hv hlast hmarker (delegated_ne_nil hs.delegated) houts
  refine ⟨by rw [hmid]; exact houts, by omega, ?_⟩
  unfold CTransaction.freeValue
  rw [hlast]
  by_cases hl : last.scriptPubKey = script
  · rw [if_pos hl]
    exact (getMasternodePayment_nonneg _ _).trans hP
  · rw [if_neg hl]
    -- the output before the last one pays to the script
    rcases List.eq_nil_or_concat mid with rfl | ⟨mid', m, rfl⟩
    · simp only [List.nil_append, List.head?_cons, Option.map_some, Option.some.injEq] at hhead
      exact absurd hhead hl
    · have hver : verifiesFree node nHeight = true := by
        rcases hshape with h2 | ⟨hver, -⟩
        · rw [List.length_concat] at hlen
          omega
        · exact hver
      have hm : m.scriptPubKey = script := houts m (by simp)
      have hp2cs : tx.hasP2CSOutputs = true := by
        simp only [CTransaction.hasP2CSOutputs, List.any_eq_true]
        exact ⟨m, by simp [hv], by rw [hm]; exact hs.delegated⟩
      have hpay := free_eq_payment (by simpa using hv) hp2cs hver (by rw [hm]; exact hl) hs.free
      rw [hpay]
      exact hP

lemma sum_le_of_custody (hs : ColdStaked node nHeight script tx spent)
    (hc : Custody script tx spent nPayment) : (spent.map (·.nValue)).sum ≤ tx.valueOut := by
  obtain ⟨marker, mid, last, hv, hmarker, hmid, hlast⟩ := vout_of_coinStake hs.isCoinStake
  have houts := hc.outs
  rw [hmid] at houts
  have htotal := paidTo_add_freeValue hv hlast hmarker (delegated_ne_nil hs.delegated) houts
  have hvalue := hc.value
  omega

/-! ### Coinstakes that take the coins -/

namespace Concrete

/-- A pay-to-cold-staking script. -/
def delegatedScript : CScript :=
  [0x76, 0xa9, Script.OP_ROT, 0x63, Script.OP_CHECKCOLDSTAKEVERIFY, 0x14] ++ List.replicate 20 1 ++
    [0x67, 0x14] ++ List.replicate 20 2 ++ [0x68, Script.OP_EQUALVERIFY, Script.OP_CHECKSIG]

def foreignScript : CScript := [Script.OP_1]

/-- A coinstake with so many inputs, all with one script. -/
def stakeOf (nIn : ℕ) (outs : List CTxOut) : CTransaction :=
  ⟨1, List.replicate nIn ⟨⟨7, 0⟩, [1, 1], 0⟩, ⟨0, []⟩ :: outs⟩

/-- What it spends: one delegated coin with a value, and others without. -/
def delegatedCoins (nIn : ℕ) (nValue : ℤ) : List CTxOut :=
  ⟨nValue, delegatedScript⟩ :: List.replicate (nIn - 1) ⟨0, delegatedScript⟩

/-- A synchronised node, at a height at which the budget may be paid or not. -/
def budgetNode (net : Network) (superblock : Bool) : Node :=
  { Node.idle (paramsOf net) (.simple 0) [] with
    isBudgetPaymentBlock := fun _ => superblock
    getSporkValue := fun _ => 0 }

end Concrete

open Concrete

variable {net : Network} {nIn nOut : ℕ} {verified : Bool}

lemma stakeOf_isCoinStake {out : CTxOut} {outs : List CTxOut} (hin : 1 ≤ nIn) :
    (stakeOf nIn (out :: outs)).isCoinStake = true := by
  obtain ⟨k, rfl⟩ : ∃ k, nIn = k + 1 := ⟨nIn - 1, by omega⟩
  simp [stakeOf, CTransaction.isCoinStake, List.replicate_succ, COutPoint.isNull, CTxOut.isEmpty]

lemma stakeOf_checkColdStake {nValue : ℤ} {outs : List CTxOut} (hin : 1 ≤ nIn)
    (h : nIn ≤ 3 ∨ ∀ out ∈ outs.dropLast, out.scriptPubKey = delegatedScript) :
    (stakeOf nIn (⟨nValue, delegatedScript⟩ :: outs)).checkColdStake delegatedScript = true := by
  have hcs : (stakeOf nIn (⟨nValue, delegatedScript⟩ :: outs)).isCoinStake = true :=
    stakeOf_isCoinStake hin
  obtain ⟨k, rfl⟩ : ∃ k, nIn = k + 1 := ⟨nIn - 1, by omega⟩
  have hsame : ((stakeOf (k + 1) (⟨nValue, delegatedScript⟩ :: outs)).vin.tail.any fun i =>
      i.scriptSig != ((stakeOf (k + 1) (⟨nValue, delegatedScript⟩ :: outs)).vin.map
        (·.scriptSig)).headD []) = false := by
    simp [stakeOf, List.replicate_succ]
  simp only [CTransaction.checkColdStake, hcs, Bool.not_true, Bool.false_eq_true, if_false, hsame,
    Bool.and_false]
  rw [List.dropLast_eq_take] at h
  rcases h with hk | hall
  · have hk' : ¬3 < (stakeOf (k + 1) (⟨nValue, delegatedScript⟩ :: outs)).vin.length := by
      simp only [stakeOf, List.length_replicate]
      omega
    simp [hk']
    exact ⟨⟨nValue, delegatedScript⟩, rfl, rfl⟩
  · simp [stakeOf]
    exact Or.inr hall

lemma free_ok_of_same (h : tx.vout.length < 3 ∨
      (tx.vout.getD (tx.vout.length - 1) CTxOut.null).scriptPubKey
        = (tx.vout.getD (tx.vout.length - 2) CTxOut.null).scriptPubKey) :
    checkColdStakeFreeOutput node tx nHeight = .ok () := by
  unfold checkColdStakeFreeOutput
  split
  · rfl
  · rw [if_neg]
    · rfl
    · simp only [Bool.and_eq_true, decide_eq_true_eq, bne_iff_ne, ne_eq, not_and, not_not]
      intro h3
      exact h.resolve_left (by omega)

lemma free_ok_of_superblock (hnet : net ≠ .REGTEST) :
    checkColdStakeFreeOutput (budgetNode net true) tx nHeight = .ok () := by
  have hreg : (budgetNode net true).params.isRegTestNet = false := by
    cases net <;> first | rfl | exact absurd rfl hnet
  have hspork : (budgetNode net true).isSporkActive .SPORK_13_ENABLE_SUPERBLOCKS = true := rfl
  have hsync : (budgetNode net true).isSynced = true := rfl
  have hbudget : (budgetNode net true).isBudgetPaymentBlock nHeight = true := rfl
  simp only [checkColdStakeFreeOutput, hreg, hspork, hsync, hbudget, failIf, Bool.not_true,
    Bool.false_eq_true, if_false, if_true, bind, Except.bind]
  split_ifs <;> rfl

lemma verifiesFree_budgetNode (verified : Bool) (h : verified = true ∨ net ≠ .REGTEST) :
    verifiesFree (budgetNode net (!verified)) nHeight = verified := by
  cases verified with
  | true => simp [verifiesFree, budgetNode, Node.idle]
  | false =>
    have hnet : net ≠ .REGTEST := by simpa using h
    cases net <;> first | rfl | exact absurd rfl hnet

lemma coldStaked_stakeOf {nValue nSpent : ℤ} {outs : List CTxOut} (hin : 1 ≤ nIn)
    (h : nIn ≤ 3 ∨ ∀ out ∈ outs.dropLast, out.scriptPubKey = delegatedScript)
    (hvalue : 0 ≤ nValue) (hpos : ∀ out ∈ outs, 0 ≤ out.nValue)
    (hfree : checkColdStakeFreeOutput node
      (stakeOf nIn (⟨nValue, delegatedScript⟩ :: outs)) nHeight = .ok ()) :
    ColdStaked node nHeight delegatedScript (stakeOf nIn (⟨nValue, delegatedScript⟩ :: outs))
      (delegatedCoins nIn nSpent) where
  delegated := by decide
  first := ⟨_, _, rfl, rfl⟩
  length := by
    simp only [delegatedCoins, stakeOf, List.length_cons, List.length_replicate]
    omega
  nonneg := by
    intro out hout
    simp only [stakeOf, List.mem_cons] at hout
    rcases hout with rfl | rfl | hout
    · exact le_rfl
    · exact hvalue
    · exact hpos out hout
  checked := stakeOf_checkColdStake hin h
  free := hfree

lemma sum_delegatedCoins (nSpent : ℤ) :
    ((delegatedCoins nIn nSpent).map (·.nValue)).sum = nSpent := by
  simp [delegatedCoins]

lemma valueOut_stakeOf (out : CTxOut) (outs : List CTxOut) :
    (stakeOf nIn (out :: outs)).valueOut = out.nValue + (outs.map (·.nValue)).sum := by
  simp [stakeOf, CTransaction.valueOut]

lemma not_safe_of_loss (hv : verified = true ∨ net ≠ .REGTEST) (hin : 1 ≤ nIn) (hout : 2 ≤ nOut)
    (hloss : surplus < 0) : ¬CustodySafe net nHeight verified nIn nOut surplus nPayment := by
  intro hsafe
  obtain ⟨k, rfl⟩ : ∃ k, nOut = k + 2 := ⟨nOut - 2, by omega⟩
  have hstaked : ColdStaked (budgetNode net (!verified)) nHeight delegatedScript
      (stakeOf nIn (⟨0, delegatedScript⟩ :: List.replicate k ⟨0, delegatedScript⟩))
      (delegatedCoins nIn (-surplus)) := by
    refine coldStaked_stakeOf hin (.inr ?_) le_rfl ?_ ?_
    · intro out hmem
      rw [List.eq_of_mem_replicate (List.mem_of_mem_dropLast hmem)]
    · intro out hmem
      rw [List.eq_of_mem_replicate hmem]
    · refine free_ok_of_same ?_
      cases k with
      | zero => exact .inl (by simp [stakeOf])
      | succ k =>
        right
        have hr : (⟨0, delegatedScript⟩ :: List.replicate (k + 1) ⟨0, delegatedScript⟩ :
            List CTxOut)
            = List.replicate (k + 2) ⟨0, delegatedScript⟩ := rfl
        simp [stakeOf, hr, List.getD_eq_getElem?_getD]
  have hc := hsafe _ _ _ _ rfl (verifiesFree_budgetNode verified hv) (by simp [stakeOf])
    (by simp [stakeOf]) (by rw [valueOut_stakeOf, sum_delegatedCoins]; simp) hstaked
  have hle := sum_le_of_custody hstaked hc
  rw [valueOut_stakeOf, sum_delegatedCoins] at hle
  simp at hle
  omega

lemma not_safe_of_few_inputs (hv : verified = true ∨ net ≠ .REGTEST) (hin : 1 ≤ nIn)
    (hfew : nIn ≤ 3) (hout : 4 ≤ nOut) (hsurplus : 0 ≤ surplus) :
    ¬CustodySafe net nHeight verified nIn nOut surplus nPayment := by
  intro hsafe
  obtain ⟨k, rfl⟩ : ∃ k, nOut = k + 4 := ⟨nOut - 4, by omega⟩
  have hstaked : ColdStaked (budgetNode net (!verified)) nHeight delegatedScript
      (stakeOf nIn (⟨surplus + 1, delegatedScript⟩ :: List.replicate (k + 2) ⟨0, foreignScript⟩))
      (delegatedCoins nIn 1) := by
    refine coldStaked_stakeOf hin (.inl hfew) (by omega) ?_ ?_
    · intro out hmem
      rw [List.eq_of_mem_replicate hmem]
    · refine free_ok_of_same (.inr ?_)
      simp [stakeOf, List.getD_eq_getElem?_getD]
  have hc := hsafe _ _ _ _ rfl (verifiesFree_budgetNode verified hv) (by simp [stakeOf])
    (by simp [stakeOf]) (by rw [valueOut_stakeOf, sum_delegatedCoins]; simp) hstaked
  have hforeign := hc.outs ⟨0, foreignScript⟩ (by
    simp [CTransaction.middleOuts, stakeOf, List.replicate_succ])
  exact absurd hforeign (by decide)

lemma not_safe_of_superblock (hnet : net ≠ .REGTEST) (hin : 1 ≤ nIn) (hout : 3 ≤ nOut)
    (hP : 0 ≤ nPayment) (hsurplus : 0 ≤ surplus) :
    ¬CustodySafe net nHeight false nIn nOut surplus nPayment := by
  intro hsafe
  obtain ⟨k, rfl⟩ : ∃ k, nOut = k + 3 := ⟨nOut - 3, by omega⟩
  have hstaked : ColdStaked (budgetNode net true) nHeight delegatedScript
      (stakeOf nIn (⟨0, delegatedScript⟩ :: (List.replicate k ⟨0, delegatedScript⟩
        ++ [⟨nPayment + 1 + surplus, foreignScript⟩]))) (delegatedCoins nIn (nPayment + 1)) := by
    refine coldStaked_stakeOf hin (.inr ?_) le_rfl ?_ (free_ok_of_superblock hnet)
    · intro out hmem
      rw [List.dropLast_concat] at hmem
      rw [List.eq_of_mem_replicate hmem]
    · intro out hmem
      rcases List.mem_append.mp hmem with hmem | hmem
      · rw [List.eq_of_mem_replicate hmem]
      · rw [List.mem_singleton.mp hmem]
        simp only
        omega
  have hver : verifiesFree (budgetNode net true) nHeight = false :=
    verifiesFree_budgetNode false (.inr hnet)
  have hc := hsafe _ _ _ _ rfl hver (by simp [stakeOf]) (by simp [stakeOf])
    (by rw [valueOut_stakeOf, sum_delegatedCoins]; simp) hstaked
  have hfree := hc.free
  have hlast : (stakeOf nIn (⟨0, delegatedScript⟩ :: (List.replicate k ⟨0, delegatedScript⟩
      ++ [⟨nPayment + 1 + surplus, foreignScript⟩]))).lastOut
        = ⟨nPayment + 1 + surplus, foreignScript⟩ := by
    simp [CTransaction.lastOut, stakeOf]
  have hne : foreignScript ≠ delegatedScript := by decide
  rw [CTransaction.freeValue, hlast, if_neg hne] at hfree
  simp only at hfree
  omega

/-! ### The result -/

/-- **Custody of delegated coins.** For coinstakes with so many inputs and outputs, and with this
difference between what they pay and what they spend, the two checks protect the owner exactly when
nothing is lost, and there is no other output than the marker and one more, or the free output is
verified and there are at most three outputs or more than three inputs. -/
theorem custodySafe_iff (hv : verified = true ∨ net ≠ .REGTEST) (hin : 1 ≤ nIn) (hout : 2 ≤ nOut)
    (hP : getMasternodePayment ((paramsOf net).getBlockValue nHeight) ≤ nPayment) :
    CustodySafe net nHeight verified nIn nOut surplus nPayment ↔
      0 ≤ surplus ∧ (nOut = 2 ∨ verified = true ∧ (nOut = 3 ∨ 3 < nIn)) := by
  have hP0 : 0 ≤ nPayment := (getMasternodePayment_nonneg _ _).trans hP
  constructor
  · intro hsafe
    have hsurplus : 0 ≤ surplus := by
      by_contra hloss
      exact not_safe_of_loss hv hin hout (by omega) hsafe
    refine ⟨hsurplus, ?_⟩
    by_contra hno
    simp only [not_or, not_and] at hno
    obtain ⟨hne2, hno⟩ := hno
    cases verified with
    | false =>
      exact not_safe_of_superblock (by simpa using hv) hin (by omega) hP0 hsurplus hsafe
    | true =>
      have hshape := hno rfl
      exact not_safe_of_few_inputs hv hin (by omega) (by omega) hsurplus hsafe
  · rintro ⟨hsurplus, hshape⟩ node script tx spent hnet hver hlin hlout hsum hs
    refine custody_of_coldStaked (by rw [hnet]; exact hP) hs (by omega) ?_
    rw [hlout, hlin, hver]
    exact hshape

/-- Five outputs are checked when there are four inputs. -/
theorem custodySafe_four_inputs : CustodySafe .MAIN 200000 true 4 5 0 (40 * COIN) :=
  (custodySafe_iff (.inl rfl) (by decide) (by decide) (by decide)).mpr (by decide)

/-- With one input the staker keeps most of a delegated coin of 1000: it pays 1 back, and the rest
to two outputs with a script of its own. -/
theorem staker_takes_delegated_coin :
    Script.isPayToColdStaking delegatedScript = true ∧
      (stakeOf 1 [⟨1 * COIN, delegatedScript⟩, ⟨500 * COIN, foreignScript⟩,
        ⟨499 * COIN, foreignScript⟩]).checkColdStake delegatedScript = true ∧
      checkColdStakeFreeOutput (budgetNode .MAIN false) (stakeOf 1 [⟨1 * COIN, delegatedScript⟩,
        ⟨500 * COIN, foreignScript⟩, ⟨499 * COIN, foreignScript⟩]) 200000 = .ok () ∧
      ¬Custody delegatedScript (stakeOf 1 [⟨1 * COIN, delegatedScript⟩,
        ⟨500 * COIN, foreignScript⟩, ⟨499 * COIN, foreignScript⟩]) (delegatedCoins 1 (1000 * COIN))
          (getMasternodePayment ((paramsOf .MAIN).getBlockValue 200000)) := by
  refine ⟨by decide, by decide, by decide, ?_⟩
  intro hc
  have hforeign := hc.outs ⟨500 * COIN, foreignScript⟩ (by decide)
  exact absurd hforeign (by decide)

end Agenor
