import Agenor.ConnectBlock

/-!
The structure of a transaction that `CheckTransaction` accepts (`consensus/tx_verify.cpp`).

The checks of the outputs and of duplicate inputs are made whether zerocoin is active or not. The
check for null prevouts is made by the last branch for inputs that are not zerocoin spends, but only
while zerocoin is active; for the transactions of the branch before it, reading the output that a
public spend names takes its place.
-/

namespace Agenor

open Lib.Fallible

/-- What a well-formed transaction is like. The two last parts are about the inputs that are not
zerocoin spends. -/
structure Structural (consensus : ChainParams) (tx : CTransaction) : Prop where
  vin_ne : tx.vin ≠ []
  vout_ne : tx.vout ≠ []
  value : ∀ o ∈ tx.vout, 0 ≤ o.nValue ∧ o.nValue ≤ consensus.nMaxMoneyOut
  prefixSum : ∀ k ≤ tx.vout.length, 0 ≤ ((tx.vout.take k).map (·.nValue)).sum ∧
    ((tx.vout.take k).map (·.nValue)).sum ≤ consensus.nMaxMoneyOut
  distinct : ((tx.vin.filter (!·.isZerocoinSpend)).map (·.prevout)).Nodup
  prevout : tx.isCoinBase = false → ∀ i ∈ tx.vin, i.isZerocoinSpend = false →
    i.prevout.isNull = false

section

variable {node : Node} {tx : CTransaction} {zc cold : Bool} {txin : CTxIn}

/-! ### The outputs -/

namespace CheckedTx

variable {consensus : ChainParams}

lemma sum_take_add_drop (tx : CTransaction) (k : ℕ) :
    ((tx.vout.take k).map (·.nValue)).sum + ((tx.vout.drop k).map (·.nValue)).sum =
      tx.valueOut := by
  rw [← List.sum_append, ← List.map_append, List.take_append_drop, CTransaction.valueOut]

lemma sum_nonneg (h : CheckedTx consensus tx) {l : List CTxOut} (hl : l ⊆ tx.vout) :
    0 ≤ (l.map (·.nValue)).sum := by
  apply List.sum_nonneg
  intro x hx
  obtain ⟨o, ho, rfl⟩ := List.mem_map.mp hx
  exact h.nonneg o (hl ho)

lemma prefixSum (h : CheckedTx consensus tx) (k : ℕ) :
    0 ≤ ((tx.vout.take k).map (·.nValue)).sum ∧
      ((tx.vout.take k).map (·.nValue)).sum ≤ consensus.nMaxMoneyOut := by
  have hall := sum_take_add_drop tx k
  have hdrop := h.sum_nonneg (List.drop_subset k tx.vout)
  have htotal := h.total
  exact ⟨h.sum_nonneg (List.take_subset k tx.vout), by omega⟩

lemma value_le (h : CheckedTx consensus tx) {o : CTxOut} (ho : o ∈ tx.vout) :
    o.nValue ≤ consensus.nMaxMoneyOut := by
  have hle : o.nValue ≤ (tx.vout.map (·.nValue)).sum := by
    refine List.single_le_sum ?_ _ (List.mem_map_of_mem ho)
    intro x hx
    obtain ⟨o', ho', rfl⟩ := List.mem_map.mp hx
    exact h.nonneg o' ho'
  exact hle.trans h.total

end CheckedTx

/-! ### The inputs -/

lemma getOutput_not_null {o : COutPoint} {out : CTxOut}
    (hsmall : ∀ h t b, node.getTransaction h = some (t, b) → t.vout.length < 2 ^ 32)
    (h : node.getOutput o.hash o.n = .ok out) : o.isNull = false := by
  unfold Node.getOutput at h
  split at h
  · cases h
  · next t b ht =>
    have hlen := hsmall _ t b ht
    split_ifs at h
    split at h
    · next hout =>
      have hlt := (List.getElem?_eq_some_iff.mp hout).1
      by_contra hnull
      rw [Bool.not_eq_false, COutPoint.isNull, Bool.and_eq_true, beq_iff_eq, beq_iff_eq] at hnull
      rw [hnull.2, COutPoint.NULL_INDEX] at hlt
      omega
    · cases h

lemma checkSpendInput_not_null {hashTxOut : Uint256} {a a' : SpendLoop}
    (hsmall : ∀ h t b, node.getTransaction h = some (t, b) → t.vout.length < 2 ^ 32)
    (hpub : txin.isZerocoinPublicSpend = true)
    (h : checkSpendInput node tx hashTxOut a txin = .ok a') : txin.prevout.isNull = false := by
  simp only [checkSpendInput, hpub, Bool.not_true, Bool.and_false, Bool.false_eq_true, if_false,
    bind_eq_ok] at h
  obtain ⟨r, hnew, -⟩ := h
  simp only [newSpend, hpub, if_true] at hnew
  split at hnew
  · cases hnew
  · next out hout => exact getOutput_not_null hsmall hout

lemma checkZerocoinActive_not_null {n : ℕ}
    (hsmall : ∀ h t b, node.getTransaction h = some (t, b) → t.vout.length < 2 ^ 32)
    (hz : tx.hasZerocoinSpendInputs = true) (h : checkZerocoinActive node tx n = .ok ())
    (hin : txin ∈ tx.vin) (hord : txin.isZerocoinSpend = false) :
    txin.prevout.isNull = false := by
  simp only [checkZerocoinActive, hz, if_true, bind_eq_ok, failIf_eq_ok] at h
  obtain ⟨-, -, -, hall, h⟩ := h
  have hpub : txin.isZerocoinPublicSpend = true := by
    rw [List.any_eq_false] at hall
    simpa [hord] using hall txin hin
  split at h
  · cases h
  · next hspend =>
    simp only [checkZerocoinSpend, bind_eq_ok] at hspend
    obtain ⟨-, -, s, hloop, -⟩ := hspend
    obtain ⟨a, a', hstep⟩ := loop_forall hloop hin
    exact checkSpendInput_not_null hsmall hpub hstep

lemma checkInputShape_not_null {n : ℕ}
    (hsmall : ∀ h t b, node.getTransaction h = some (t, b) → t.vout.length < 2 ^ 32)
    (hactive : checkZerocoinActive node tx n = .ok ())
    (h : checkInputShape node tx true = .ok ()) (hcb : tx.isCoinBase = false)
    (hin : txin ∈ tx.vin) (hord : txin.isZerocoinSpend = false) :
    txin.prevout.isNull = false := by
  cases hz : tx.hasZerocoinSpendInputs with
  | true => exact checkZerocoinActive_not_null hsmall hz hactive hin hord
  | false =>
    simp only [checkInputShape, hcb, hz, Bool.false_eq_true, Bool.and_false, if_false,
      failIf_eq_ok, List.any_eq_false] at h
    simpa [hord] using h txin hin

/-! ### The transaction -/

/-- **`CheckTransaction`.** An accepted transaction is well formed exactly if zerocoin is active, it
is a coinbase, or it has no null prevout among the inputs that are not zerocoin spends. -/
theorem checkTransaction_structural_iff {net : Network} (hnet : node.params = paramsOf net)
    (hsmall : ∀ h t b, node.getTransaction h = some (t, b) → t.vout.length < 2 ^ 32)
    (h : checkTransaction node tx zc cold = .ok ()) :
    Structural node.params tx ↔ zc = true ∨ tx.isCoinBase = true ∨
      ∀ i ∈ tx.vin, i.isZerocoinSpend = false → i.prevout.isNull = false := by
  have hc : CheckedTx node.params tx := checkTransaction_eq_ok (hnet ▸ paramsOf_moneyOk net) h
  have hrest : (tx.isCoinBase = false → ∀ i ∈ tx.vin, i.isZerocoinSpend = false →
      i.prevout.isNull = false) → Structural node.params tx := fun hprev =>
    { vin_ne := hc.vin_ne
      vout_ne := hc.vout_ne
      value := fun o ho => ⟨hc.nonneg o ho, hc.value_le ho⟩
      prefixSum := fun k _ => hc.prefixSum k
      distinct := hc.distinct
      prevout := hprev }
  constructor
  · intro hstruct
    cases hcb : tx.isCoinBase with
    | true => exact .inr (.inl rfl)
    | false => exact .inr (.inr (hstruct.prevout hcb))
  · rintro (rfl | hcb | hall)
    · simp only [checkTransaction, bind_eq_ok, if_true] at h
      obtain ⟨-, -, -, -, -, -, -, -, s, -, _, hactive, hshape⟩ := h
      exact hrest fun hcb i hi hord => checkInputShape_not_null hsmall hactive hshape hcb hi hord
    · refine hrest fun hno => ?_
      rw [hcb] at hno
      cases hno
    · exact hrest fun _ => hall

end

namespace Concrete

/-- A payment with a null prevout beside the one that it spends. -/
def nullPrevoutTx : CTransaction :=
  ⟨12, [⟨⟨20, 0⟩, [Script.OP_1], 0⟩, ⟨.null, [Script.OP_1], 0⟩], [⟨10 * COIN, [Script.OP_1]⟩]⟩

/-- It is accepted while zerocoin is not active. -/
theorem nullPrevoutTx_accepted :
    ¬ ∀ (node : Node) (tx : CTransaction) (zc cold : Bool), node.params = paramsOf .MAIN →
      (∀ h t b, node.getTransaction h = some (t, b) → t.vout.length < 2 ^ 32) →
      checkTransaction node tx zc cold = .ok () → Structural node.params tx := by
  intro hall
  have hstruct := hall mainNode nullPrevoutTx false false rfl (by simp [mainNode, Node.idle])
    (by decide)
  have hnull := hstruct.prevout (by decide) ⟨.null, [Script.OP_1], 0⟩ (by simp [nullPrevoutTx])
    (by decide)
  exact absurd hnull (by decide)

/-- The payment alone is well formed. -/
theorem checkTransaction_structural_payment :
    checkTransaction mainNode ⟨12, [⟨⟨20, 0⟩, [Script.OP_1], 0⟩], [⟨10 * COIN, [Script.OP_1]⟩]⟩
      true false = .ok () ∧
    Structural mainNode.params
      ⟨12, [⟨⟨20, 0⟩, [Script.OP_1], 0⟩], [⟨10 * COIN, [Script.OP_1]⟩]⟩ := by
  have hok : checkTransaction mainNode
      ⟨12, [⟨⟨20, 0⟩, [Script.OP_1], 0⟩], [⟨10 * COIN, [Script.OP_1]⟩]⟩ true false = .ok () := by
    decide
  have hsmall : ∀ h t b, mainNode.getTransaction h = some (t, b) → t.vout.length < 2 ^ 32 := by
    simp [mainNode, Node.idle]
  have hnet : mainNode.params = paramsOf .MAIN := rfl
  exact ⟨hok, (checkTransaction_structural_iff hnet hsmall hok).mpr (.inl rfl)⟩

end Concrete

end Agenor
