import Agenor.Ledger

/-!
What one pass of the loop of `DisconnectBlock` does to the amounts it counts, and to the coins.

Every coin that a pass puts back comes from the undo data, so a view of genuine coins stays one,
and the inputs of an ordinary transaction are all there when their value is taken.
-/

namespace Agenor

open Lib.Wrap Lib.Fallible

variable {H : Hashes} {v v' : CCoinsViewCache}

/-! ### Restoring an input -/

lemma reads_accessByTxidFrom (v : CCoinsViewCache) (txid : Uint256) (n k : ℕ) :
    CCoinsViewCache.Reads v (accessByTxidFrom v txid n k).2 := by
  induction k generalizing v n with
  | zero => exact .refl v
  | succ k ih =>
    have hr := CCoinsViewCache.reads_accessCoin v ⟨txid, n⟩
    unfold accessByTxidFrom
    dsimp only
    split
    · exact hr
    · exact hr.trans (ih _ _)

lemma completeUndo_eq_ok {undo undo' : Coin} {out : COutPoint}
    (h : completeUndo undo v out = .ok (undo', v')) :
    undo'.out = undo.out ∧ CCoinsViewCache.Reads v v' := by
  unfold completeUndo at h
  split at h
  · dsimp only at h
    split at h
    · cases h
      exact ⟨rfl, reads_accessByTxidFrom v out.hash 0 _⟩
    · cases h
  · cases h
    exact ⟨rfl, .refl v⟩

lemma restoreInput_eq_ok {s s' : Bool × CCoinsViewCache} {p : CTxIn × Coin}
    (h : restoreInput s p = .ok s') (hv : s.2.Every H.Genuine)
    (hp : H.Genuine p.1.prevout p.2) :
    s'.2.Every H.Genuine ∧ (s'.2.coins p.1.prevout).isSome ∧
      ∀ o, (s.2.coins o).isSome → (s'.2.coins o).isSome := by
  simp only [restoreInput, applyTxInUndo, bind_eq_ok, pure_eq_ok, Prod.exists] at h
  obtain ⟨clean, w, ⟨undo, w₁, hc, w₂, ha, hw⟩, rfl⟩ := h
  cases hw
  obtain ⟨hout, hr⟩ := completeUndo_eq_ok hc
  have hr := (CCoinsViewCache.reads_haveCoin s.2 p.1.prevout).trans hr
  obtain ⟨hs, -, hcoins⟩ := CCoinsViewCache.addCoin_eq_ok ha
  have hsp : p.2.isSpent = false := by simpa [Coin.isSpent, hout] using hs
  have hgen : H.Genuine p.1.prevout undo := by
    intro _
    rw [hout]
    exact hp hsp
  rw [if_neg (by simp [(hgen hs).2]), hr.coins] at hcoins
  refine ⟨(hr.every _ hv).addCoin (fun _ _ => hgen) ha, ?_, ?_⟩
  · simp [hcoins]
  · intro o ho
    by_cases heq : o = p.1.prevout
    · subst heq
      simp [hcoins]
    · simpa [hcoins, heq] using ho

lemma restoreInputs_loop {s s' : Bool × CCoinsViewCache} {l : List (CTxIn × Coin)}
    (h : loop restoreInput s l = .ok s') (hv : s.2.Every H.Genuine)
    (hl : ∀ p ∈ l, H.Genuine p.1.prevout p.2) :
    s'.2.Every H.Genuine ∧ (∀ p ∈ l, (s'.2.coins p.1.prevout).isSome) ∧
      ∀ o, (s.2.coins o).isSome → (s'.2.coins o).isSome := by
  induction l generalizing s with
  | nil =>
    simp only [loop_nil, Except.ok.injEq] at h
    subst h
    exact ⟨hv, by simp, fun _ => id⟩
  | cons p l ih =>
    simp only [loop_cons, bind_eq_ok] at h
    obtain ⟨s₁, h1, h⟩ := h
    obtain ⟨hv₁, hp, hkeep⟩ := restoreInput_eq_ok h1 hv (hl p (by simp))
    obtain ⟨hv', hall, hkeep'⟩ := ih h hv₁ fun q hq => hl q (by simp [hq])
    refine ⟨hv', ?_, fun o ho => hkeep' o (hkeep o ho)⟩
    intro q hq
    rcases List.mem_cons.mp hq with rfl | hq
    · exact hkeep' _ hp
    · exact hall q hq

lemma restoreInputs_eq_ok {blockUndo : CBlockUndo} {s s' : DisconnectLoop} {tx : CTransaction}
    {i : ℕ} {txundo : CTxUndo} (hu : txUndo blockUndo i = .ok txundo) (hfit : H.FitsTx tx txundo)
    (hcb : tx.isCoinBase = false) (hz : tx.hasZerocoinSpendInputs = false)
    (hv : s.view.Every H.Genuine) (h : restoreInputs blockUndo s tx i = .ok s') :
    s'.view.Every H.Genuine ∧ s'.db = s.db ∧ s'.nValueOut = s.nValueOut ∧
      int64 s'.nValueIn = int64 (s.nValueIn + H.inputValue tx.vin) := by
  simp only [restoreInputs, bind_eq_ok, hu, Except.ok.injEq, failIf_eq_ok, bne_eq_false_iff_eq,
    Prod.exists] at h
  obtain ⟨t, rfl, _, hlen, fClean, view, hloop, h⟩ := h
  obtain ⟨hv₁, hall, -⟩ := restoreInputs_loop hloop hv fun p hp =>
    hfit p (List.mem_reverse.mp hp)
  have hin : ∀ txin ∈ tx.vin, (view.coins txin.prevout).isSome := by
    intro txin htxin
    obtain ⟨n, hn, rfl⟩ := List.mem_iff_getElem.mp htxin
    have hn' : n < txundo.vprevout.length := by omega
    refine hall (tx.vin[n], txundo.vprevout[n]) (List.mem_reverse.mpr ?_)
    exact List.mem_iff_getElem.mpr ⟨n, by simp; omega, by simp⟩
  have hr := CCoinsViewCache.reads_haveInputs view tx
  have hhave : (view.haveInputs tx).1 = true := by
    simp only [CCoinsViewCache.haveInputs, hcb, hz, Bool.not_false, Bool.and_self, if_true,
      (CCoinsViewCache.haveAll_spec view tx.vin).1, List.all_eq_true]
    exact hin
  rw [if_pos hhave] at h
  cases h
  have hr' := CCoinsViewCache.reads_getValueIn (view.haveInputs tx).2 tx
  have hval := ConnectEnv.getValueIn_eq (view.haveInputs tx).2 hcb
  rw [hz, hr.coins, Hashes.valueOf_genuine hv₁ hin] at hval
  refine ⟨(hr.trans hr').every _ hv₁, rfl, rfl, ?_⟩
  simp only [int64_int64]
  rw [← int64_add_int64, hval]
  simp

/-! ### Removing the outputs -/

lemma genuine_removeOutputs (txHash : Uint256) (l : List (CTxOut × ℕ))
    {s : Bool × CCoinsViewCache} (hv : s.2.Every H.Genuine) :
    (l.foldl (removeOutput txHash) s).2.Every H.Genuine := by
  induction l generalizing s with
  | nil => exact hv
  | cons p l ih =>
    apply ih
    unfold removeOutput
    split
    · exact hv
    · exact (hv.spendCoin H.genuine_empty _).2

/-! ### The whole pass -/

variable {net : Network} {lib : Libzerocoin} {node : Node} {tx : CTransaction}

lemma disconnectedSpend_hosted (hn : H.Hosts net lib node) {txin : CTxIn} {spend : CoinSpend}
    (h : disconnectedSpend node tx txin = .ok spend) :
    spend.denomination.toInt * COIN = H.denominationAt lib txin := by
  unfold disconnectedSpend at h
  split at h
  · next hp =>
    split at h
    · cases h
    · exact (Hashes.denominationAt_of_public hn hp h).symm
  · next hp =>
    rw [hn.lib] at h
    exact (Hashes.denominationAt_of_private (by simpa using hp) h).symm

lemma disconnectSpends_loop (hn : H.Hosts net lib node) {vin : List CTxIn}
    {s s' : ℤ × CZerocoinDB} (h : loop (disconnectSpend node tx) s vin = .ok s') :
    int64 s'.1 = int64 (s.1
      + ((vin.filter (·.hasSpendScript)).map (H.denominationAt lib)).sum) := by
  induction vin generalizing s with
  | nil =>
    simp only [loop_nil, Except.ok.injEq] at h
    simp [h]
  | cons txin vin ih =>
    simp only [loop_cons, bind_eq_ok] at h
    obtain ⟨s₁, h1, h⟩ := h
    have hrest := ih h
    unfold disconnectSpend at h1
    by_cases hz : txin.hasSpendScript = true
    · rw [if_pos (by simpa [CTxIn.hasSpendScript] using hz)] at h1
      split at h1
      · cases h1
      · next spend hsp =>
        cases h1
        rw [hrest]
        simp [hz, disconnectedSpend_hosted hn hsp, add_assoc]
    · rw [if_neg (by simpa [CTxIn.hasSpendScript] using hz)] at h1
      cases h1
      simpa [hz] using hrest

lemma disconnectZerocoinTx_eq_ok (hn : H.Hosts net lib node) {nValueIn nValueIn' : ℤ}
    {db db' : CZerocoinDB} (h : disconnectZerocoinTx node tx nValueIn db = .ok (nValueIn', db')) :
    int64 nValueIn' = int64 (nValueIn + if tx.hasZerocoinSpendInputs then
      ((tx.vin.filter (·.hasSpendScript)).map (H.denominationAt lib)).sum else 0) := by
  simp only [disconnectZerocoinTx, bind_eq_ok, pure_eq_ok, Prod.exists, Prod.mk.injEq] at h
  obtain ⟨n, db₁, hspends, db₂, -, rfl, rfl⟩ := h
  unfold disconnectSpends at hspends
  split at hspends
  · next hz =>
    rw [if_pos hz]
    exact disconnectSpends_loop hn hspends
  · next hz =>
    cases hspends
    simp [hz]

lemma valueOutFrom_some {outs : List CTxOut} {acc n : ℤ}
    (h : CTransaction.valueOutFrom acc outs = some n) :
    int64 n = int64 (acc + (outs.map (·.nValue)).sum) := by
  induction outs generalizing acc with
  | nil =>
    simp only [CTransaction.valueOutFrom, Option.some.injEq] at h
    simp [h]
  | cons o outs ih =>
    unfold CTransaction.valueOutFrom at h
    split_ifs at h
    simpa [add_assoc] using ih h

lemma getValueOut_eq_ok {n : ℤ} (h : getValueOut tx = .ok n) : int64 n = int64 tx.valueOut := by
  unfold getValueOut at h
  split at h
  · next m hm =>
    cases h
    simpa [CTransaction.valueOut] using valueOutFrom_some hm
  · cases h

/-- **What one pass of the loop does.** -/
structure Disconnected (H : Hashes) (lib : Libzerocoin) (s : DisconnectLoop) (tx : CTransaction)
    (s' : DisconnectLoop) : Prop where
  genuine : s'.view.Every H.Genuine
  nValueOut : int64 s'.nValueOut = int64 (s.nValueOut + tx.valueOut)
  nValueIn : int64 s'.nValueIn = int64 (s.nValueIn + H.disconnectedIn lib tx)

theorem disconnectTx_eq_ok (hn : H.Hosts net lib node) {blockUndo : CBlockUndo}
    {s s' : DisconnectLoop} {i : ℕ} (hv : s.view.Every H.Genuine)
    (hfit : ∀ txundo, txUndo blockUndo i = .ok txundo → H.FitsTx tx txundo)
    (h : disconnectTx node blockUndo s (tx, i) = .ok s') : Disconnected H lib s tx s' := by
  simp only [disconnectTx, bind_eq_ok, Prod.exists] at h
  obtain ⟨nValueIn, db, hz, h⟩ := h
  have hzc := disconnectZerocoinTx_eq_ok hn hz
  split at h
  · cases h
  · next valueOut hout =>
    have hval := getValueOut_eq_ok hout
    have hvo : int64 (s.nValueOut + valueOut) = int64 (s.nValueOut + tx.valueOut) := by
      rw [← int64_add_int64, hval, int64_add_int64]
    have hrem := genuine_removeOutputs tx.hash tx.vout.zipIdx (s := (s.fClean, s.view)) hv
    split at h
    · next hk =>
      cases h
      refine ⟨hrem, by simpa using hvo, ?_⟩
      unfold Hashes.disconnectedIn
      by_cases hcb : tx.isCoinBase = true
      · have hno : tx.hasZerocoinSpendInputs = false := by
          by_contra hno
          rw [CTransaction.not_coinBase_of_spend (by simpa using hno)] at hcb
          cases hcb
        simpa [hcb, hno] using hzc
      · have hyes : tx.hasZerocoinSpendInputs = true := by simpa [hcb] using hk
        simpa [hcb, hyes] using hzc
    · next hk =>
      simp only [Bool.or_eq_true, not_or, Bool.not_eq_true] at hk
      split at h
      · cases h
      · next s₁ hrest =>
        cases h
        have hu : ∃ txundo, txUndo blockUndo i = .ok txundo := by
          simp only [restoreInputs, bind_eq_ok] at hrest
          obtain ⟨t, ht, -⟩ := hrest
          exact ⟨t, ht⟩
        obtain ⟨txundo, hu⟩ := hu
        obtain ⟨h1, -, h3, h4⟩ := restoreInputs_eq_ok hu (hfit txundo hu) hk.1 hk.2 hrem hrest
        refine ⟨h1, by rw [h3]; simpa using hvo, ?_⟩
        rw [h4]
        simp only [Hashes.disconnectedIn, hk.1, hk.2, Bool.false_eq_true, if_false] at hzc ⊢
        rw [← int64_int64_add, hzc]
        simp

lemma fitsTx_of_fits {vtx : List CTransaction} {blockUndo : CBlockUndo}
    (hfit : H.Fits vtx blockUndo)
    {p : CTransaction × ℕ} (hp : p ∈ vtx.zipIdx) {txundo : CTxUndo}
    (hu : txUndo blockUndo p.2 = .ok txundo) : H.FitsTx p.1 txundo := by
  obtain ⟨tx, i⟩ := p
  have hget := List.mem_zipIdx_iff_getElem?.mp hp
  cases i with
  | zero => cases hu
  | succ k =>
    simp only [txUndo] at hu
    split at hu
    · next t ht =>
      cases hu
      obtain ⟨hlen, hall⟩ := List.forall₂_iff_get.mp hfit
      have htail : vtx.tail[k]? = some tx := by simpa using hget
      obtain ⟨hk, rfl⟩ := List.getElem?_eq_some_iff.mp htail
      obtain ⟨hk', rfl⟩ := List.getElem?_eq_some_iff.mp ht
      exact hall k hk hk'
    · cases hu

/-- What an undone block adds up to. -/
theorem disconnectTxs_eq_ok (hn : H.Hosts net lib node) {blockUndo : CBlockUndo}
    {l : List (CTransaction × ℕ)} {s s' : DisconnectLoop} (hv : s.view.Every H.Genuine)
    (hfit : ∀ p ∈ l, ∀ txundo, txUndo blockUndo p.2 = .ok txundo → H.FitsTx p.1 txundo)
    (h : loop (disconnectTx node blockUndo) s l = .ok s') :
    s'.view.Every H.Genuine ∧
      int64 s'.nValueOut = int64 (s.nValueOut + (l.map fun p => p.1.valueOut).sum) ∧
      int64 s'.nValueIn = int64 (s.nValueIn + (l.map fun p => H.disconnectedIn lib p.1).sum) := by
  induction l generalizing s with
  | nil =>
    simp only [loop_nil, Except.ok.injEq] at h
    subst h
    simp [hv]
  | cons p l ih =>
    simp only [loop_cons, bind_eq_ok] at h
    obtain ⟨s₁, h1, h⟩ := h
    have hs := disconnectTx_eq_ok hn hv (hfit p (by simp)) h1
    obtain ⟨i1, i2, i3⟩ := ih hs.genuine (fun q hq => hfit q (by simp [hq])) h
    simp only [List.map_cons, List.sum_cons]
    refine ⟨i1, ?_, ?_⟩
    · rw [i2, ← int64_int64_add, hs.nValueOut, int64_int64_add, add_assoc]
    · rw [i3, ← int64_int64_add, hs.nValueIn, int64_int64_add, add_assoc]

end Agenor
