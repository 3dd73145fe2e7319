import Agenor.DisconnectStep
import Agenor.UtxoUpdate
import Agenor.ZerocoinSupply

/-!
`DisconnectBlock` undoes `ConnectBlock` on the unspent coins.

Forward, every transaction patches the coins and leaves what it removed in the undo data. Backward,
each pass removes what was put and puts back what was removed, so that the run through the block in
reverse order ends where the run forward began. What can go wrong is not the coins: while undoing,
inputs that no check took for a zerocoin spend are parsed as one.
-/

namespace Agenor

open Lib Lib.WriteBack Lib.Fallible Lib.Patch

/-! ### The outputs -/

lemma removeOutputs_eq {tx : CTransaction} {nHeight : ℤ} {l : List (CTxOut × ℕ)}
    {s : Bool × CCoinsViewCache} (hco : s.2.Coherent)
    (hnodup : ((tx.createdFrom nHeight l).map Prod.fst).Nodup)
    (hhave : ∀ q ∈ tx.createdFrom nHeight l, s.2.coins q.1 = some q.2) :
    (l.foldl (removeOutput tx.hash) s).1 = s.1 ∧
      (l.foldl (removeOutput tx.hash) s).2.Coherent ∧
      (l.foldl (removeOutput tx.hash) s).2.coins
        = removeAll s.2.coins ((tx.createdFrom nHeight l).map Prod.fst) := by
  induction l generalizing s with
  | nil => exact ⟨rfl, hco, rfl⟩
  | cons p l ih =>
    rw [List.foldl_cons]
    by_cases hu : Script.isUnspendable p.1.scriptPubKey = true
    · have hskip : tx.createdFrom nHeight (p :: l) = tx.createdFrom nHeight l := by
        simp [CTransaction.createdFrom, hu]
      rw [hskip] at hnodup hhave ⊢
      have hstep : removeOutput tx.hash s p = s := by simp [removeOutput, hu]
      rw [hstep]
      exact ih hco hnodup hhave
    · have hcons : tx.createdFrom nHeight (p :: l) = (⟨tx.hash, p.2⟩,
          ⟨p.1, nHeight, tx.isCoinBase, tx.isCoinStake⟩) :: tx.createdFrom nHeight l := by
        simp [CTransaction.createdFrom, hu]
      rw [hcons] at hnodup hhave ⊢
      obtain ⟨hnot, hnodup⟩ := List.nodup_cons.mp hnodup
      obtain ⟨hco₁, hcoins, hmoved⟩ := CCoinsViewCache.spendCoin_eq hco ⟨tx.hash, p.2⟩
      -- the coin that comes out is the output
      have hclean : removeOutput tx.hash s p = (s.1, (s.2.spendCoin ⟨tx.hash, p.2⟩).2) := by
        rw [hhave _ (List.mem_cons_self ..), Option.bind_eq_some_iff] at hmoved
        obtain ⟨d, hd, hlive⟩ := hmoved
        obtain ⟨rfl, -⟩ := Coin.eq_of_live_eq_some hlive
        simp [removeOutput, hu, hd]
      rw [hclean]
      obtain ⟨i1, i2, i3⟩ := ih (s := (s.1, (s.2.spendCoin ⟨tx.hash, p.2⟩).2)) hco₁ hnodup (by
        intro q hq
        rw [hcoins, Function.update_of_ne]
        · exact hhave q (List.mem_cons_of_mem _ hq)
        · intro heq
          exact hnot (List.mem_map.mpr ⟨q, hq, heq⟩))
      refine ⟨i1, i2, ?_⟩
      rw [i3, List.map_cons, removeAll_cons, hcoins]

/-! ### The inputs -/

/-- A coin that an undo record can bring back: it is not spent, its height is that of a block after
the genesis block, and `AddCoin` does not drop it. -/
structure Coin.Restorable (c : Coin) : Prop where
  unspent : c.isSpent = false
  height : 1 ≤ c.nHeight
  spendable : Script.isUnspendable c.out.scriptPubKey = false

lemma restoreInput_isOk {s : Bool × CCoinsViewCache} {p : CTxIn × Coin} (hco : s.2.Coherent)
    (hnone : s.2.coins p.1.prevout = none) (hp : p.2.Restorable) :
    ∃ v', restoreInput s p = .ok (s.1, v') ∧ v'.Coherent ∧
      v'.coins = Function.update s.2.coins p.1.prevout (some p.2) := by
  have hr := CCoinsViewCache.reads_haveCoin s.2 p.1.prevout
  have hnone' : (s.2.haveCoin p.1.prevout).2.coins p.1.prevout = none := by rw [hr.coins, hnone]
  obtain ⟨m, hm⟩ : ∃ m, (s.2.haveCoin p.1.prevout).2.cacheCoins.addCoin p.1.prevout p.2 false
      = .ok m := CCoinsMap.addCoin_isOk hp.unspent (fun _ => hnone')
  have hadd : (s.2.haveCoin p.1.prevout).2.addCoin p.1.prevout p.2 false
      = .ok { (s.2.haveCoin p.1.prevout).2 with cacheCoins := m } := by
    simp [CCoinsViewCache.addCoin, hm]
  refine ⟨_, ?_, CCoinsViewCache.addCoin_coherent (hr.coherent hco) (fun _ => hnone') hadd, ?_⟩
  · have hne : p.2.nHeight ≠ 0 := by
      have := hp.height
      omega
    simp [restoreInput, applyTxInUndo, completeUndo, hne, hadd, hnone, bind_eq_ok]
  · rw [(CCoinsViewCache.addCoin_eq_ok hadd).2.2, hp.spendable, hr.coins]
    simp

lemma restoreInputs_isOk {l : List (CTxIn × Coin)} {s : Bool × CCoinsViewCache}
    (hco : s.2.Coherent) (hnodup : (l.map fun p => p.1.prevout).Nodup)
    (hnone : ∀ p ∈ l, s.2.coins p.1.prevout = none) (hl : ∀ p ∈ l, p.2.Restorable) :
    ∃ v', loop restoreInput s l = .ok (s.1, v') ∧ v'.Coherent ∧
      v'.coins = putAll s.2.coins (l.map fun p => (p.1.prevout, p.2)) := by
  induction l generalizing s with
  | nil => exact ⟨s.2, rfl, hco, rfl⟩
  | cons p l ih =>
    obtain ⟨hnot, hnodup⟩ := List.nodup_cons.mp hnodup
    obtain ⟨v₁, h1, hco₁, hcoins⟩ := restoreInput_isOk hco (hnone p (by simp)) (hl p (by simp))
    have hkeep : ∀ q ∈ l, v₁.coins q.1.prevout = none := by
      intro q hq
      rw [hcoins, Function.update_of_ne]
      · exact hnone q (List.mem_cons_of_mem _ hq)
      · intro heq
        exact hnot (List.mem_map.mpr ⟨q, hq, heq⟩)
    obtain ⟨v', h2, hco', hcoins'⟩ := ih (s := (s.1, v₁)) hco₁ hnodup hkeep
      (fun q hq => hl q (List.mem_cons_of_mem _ hq))
    refine ⟨v', ?_, hco', ?_⟩
    · rw [loop_cons, h1]
      exact h2
    · rw [List.map_cons, putAll_cons, hcoins', hcoins]

/-! ### Zerocoin -/

/-- The stray spends of a transaction with zerocoin spends can be parsed. -/
def CTransaction.StraysParse (lib : Libzerocoin) (tx : CTransaction) : Prop :=
  tx.hasZerocoinSpendInputs = true → ∀ txin ∈ tx.vin, txin.isStraySpend = true →
    ∃ spend, txInToZerocoinSpend lib txin = .ok spend

variable {env : ConnectEnv} {node : Node} {tx : CTransaction}

lemma disconnectedSpend_isOk {txin : CTxIn} (hs : txin.hasSpendScript = true)
    (hspend : txin.isAnyZerocoinSpend = true → ∃ spend, env.spendOf tx txin = .ok spend)
    (hstray : txin.isStraySpend = true → ∃ spend, txInToZerocoinSpend env.node.lib txin =
    .ok spend) :
    ∃ spend, disconnectedSpend env.node tx txin = .ok spend := by
  unfold disconnectedSpend
  by_cases hp : txin.isZerocoinPublicSpend = true
  · obtain ⟨spend, hsp⟩ := hspend (by simp [CTxIn.isAnyZerocoinSpend, hp])
    simp only [ConnectEnv.spendOf, hp, if_true] at hsp
    exact ⟨spend, by simp [hp, hsp]⟩
  · simp only [hp]
    by_cases hz : txin.isZerocoinSpend = true
    · obtain ⟨spend, hsp⟩ := hspend (by simp [CTxIn.isAnyZerocoinSpend, hz])
      simp only [ConnectEnv.spendOf, hp] at hsp
      exact ⟨spend, hsp⟩
    · have hscript : Script.isZerocoinSpend txin.scriptSig = true := by
        simpa [CTxIn.hasSpendScript, hp] using hs
      exact hstray (by simp [CTxIn.isStraySpend, hscript, hz])

lemma disconnectSpend_isOk {txin : CTxIn} (s : ℤ × CZerocoinDB)
    (h : txin.hasSpendScript = true → ∃ spend, disconnectedSpend node tx txin = .ok spend) :
    ∃ s', disconnectSpend node tx s txin = .ok s' := by
  unfold disconnectSpend
  by_cases hs : txin.hasSpendScript = true
  · obtain ⟨spend, hsp⟩ := h hs
    rw [if_pos (by simpa [CTxIn.hasSpendScript] using hs), hsp]
    exact ⟨_, rfl⟩
  · rw [if_neg (by simpa [CTxIn.hasSpendScript] using hs)]
    exact ⟨s, rfl⟩

lemma disconnectMint_isOk {out : CTxOut} (db : CZerocoinDB)
    (h : out.isZerocoinMint = true → ∃ coin, txOutToPublicCoin out = .ok coin) :
    ∃ db', disconnectMint node db out = .ok db' := by
  unfold disconnectMint
  by_cases hm : out.isZerocoinMint = true
  · obtain ⟨coin, hc⟩ := h hm
    simp [hm, hc]
  · simp [hm]

lemma disconnectZerocoinTx_isOk {s s' : ConnectLoop} {i : ℕ} (hconn : env.Connected s tx i s')
    (hstray : tx.StraysParse env.node.lib) (nValueIn : ℤ) (db : CZerocoinDB) :
    ∃ r, disconnectZerocoinTx env.node tx nValueIn db = .ok r := by
  have h1 : ∃ r, disconnectSpends env.node tx (nValueIn, db) = .ok r := by
    unfold disconnectSpends
    split
    · next hz =>
      refine loop_isOk _ ?_
      intro txin ht r
      refine disconnectSpend_isOk r ?_
      intro hs
      exact disconnectedSpend_isOk hs (fun hany => (hconn.spends hz txin ht hany).1)
        (hstray hz txin ht)
    · exact ⟨_, rfl⟩
  obtain ⟨r, hr⟩ := h1
  have h2 : ∃ db', disconnectMints env.node tx r.2 = .ok db' := by
    unfold disconnectMints
    split
    · next hm =>
      refine loop_isOk _ ?_
      intro out hout r
      exact disconnectMint_isOk r (hconn.mints hm out hout)
    · exact ⟨_, rfl⟩
  obtain ⟨db', hdb⟩ := h2
  refine ⟨(r.1, db'), ?_⟩
  rw [disconnectZerocoinTx, hr]
  simp only [bind, Except.bind]
  rw [hdb]
  rfl

lemma straysParse_of_disconnectTx {blockUndo : CBlockUndo} {t t' : DisconnectLoop} {i : ℕ}
    (h : disconnectTx node blockUndo t (tx, i) = .ok t') : tx.StraysParse node.lib := by
  intro hz txin ht hs
  simp only [disconnectTx, disconnectZerocoinTx, bind_eq_ok] at h
  obtain ⟨_, ⟨r, hr, -⟩, -⟩ := h
  rw [disconnectSpends, if_pos hz] at hr
  obtain ⟨u, u', hstep⟩ := loop_forall hr ht
  simp only [CTxIn.isStraySpend, Bool.and_eq_true] at hs
  have hp : txin.isZerocoinPublicSpend = false := by
    by_contra hp
    have := Script.not_spend_of_publicSpend (s := txin.scriptSig) (by
      simpa [CTxIn.isZerocoinPublicSpend] using hp)
    rw [hs.1] at this
    cases this
  simp only [disconnectSpend, hs.1, Bool.true_or, if_true] at hstep
  split at hstep
  · cases hstep
  · next spend hsp =>
    simp only [disconnectedSpend, hp, Bool.false_eq_true, if_false] at hsp
    exact ⟨spend, hsp⟩

/-! ### The whole pass -/

lemma restoreTx_isOk {blockUndo : CBlockUndo} {i : ℕ} {txundo : CTxUndo} {t : DisconnectLoop}
    (hu : txUndo blockUndo i = .ok txundo) (hlen : txundo.vprevout.length = tx.vin.length)
    (hco : t.view.Coherent) (hnodup : (tx.vin.map (·.prevout)).Nodup)
    (hnone : ∀ txin ∈ tx.vin, t.view.coins txin.prevout = none)
    (hl : ∀ p ∈ tx.vin.zip txundo.vprevout, p.2.Restorable) :
    ∃ t', restoreInputs blockUndo t tx i = .ok t' ∧ t'.fClean = t.fClean ∧ t'.view.Coherent ∧
      t'.view.coins = putAll t.view.coins
        ((tx.vin.zip txundo.vprevout).reverse.map fun p => (p.1.prevout, p.2)) := by
  have hkeys : ((tx.vin.zip txundo.vprevout).map fun p => p.1.prevout).Nodup := by
    have hfst : (tx.vin.zip txundo.vprevout).map Prod.fst = tx.vin :=
      List.map_fst_zip (le_of_eq hlen.symm)
    rw [← hfst, List.map_map] at hnodup
    exact hnodup
  obtain ⟨v, hv, hco₁, hcoins⟩ := restoreInputs_isOk (s := (t.fClean, t.view))
    (l := (tx.vin.zip txundo.vprevout).reverse) hco
    (by rw [List.map_reverse]; exact List.nodup_reverse.mpr hkeys)
    (fun p hp => hnone p.1 (List.of_mem_zip (List.mem_reverse.mp hp)).1)
    (fun p hp => hl p (List.mem_reverse.mp hp))
  have hr := CCoinsViewCache.reads_haveInputs v tx
  have hr' := CCoinsViewCache.reads_getValueIn (v.haveInputs tx).2 tx
  have hfail : failIf (txundo.vprevout.length != tx.vin.length) Fault.fail = .ok () := by
    simp [hlen]
  simp only [restoreInputs, hu, hv, hfail, bind, Except.bind]
  split
  · exact ⟨_, rfl, rfl, (hr.trans hr').coherent hco₁, by rw [← hcoins]; exact (hr.trans hr').coins⟩
  · exact ⟨_, rfl, rfl, hr.coherent hco₁, by rw [← hcoins]; exact hr.coins⟩

/-- **Undoing one transaction.** -/
theorem disconnectTx_undo {s s' : ConnectLoop} {i : ℕ} {v : CCoinsViewCache} {txundo : CTxUndo}
    {blockUndo : CBlockUndo} {t : DisconnectLoop} (hm : env.node.params.MoneyOk)
    (hc : CheckedTx env.node.params tx) (hconn : env.Connected s tx i s')
    (hpatch : v.Patched tx env.pindex.nHeight txundo s'.view)
    (hnodup : (tx.coinInputs.map (·.prevout)).Nodup) (hstray : tx.StraysParse env.node.lib)
    (hu : tx.isCoinBase = false → txUndo blockUndo i = .ok txundo)
    (hrest : ∀ o c, v.coins o = some c → c.Restorable)
    (hco : t.view.Coherent) (hcoins : t.view.coins = s'.view.coins) :
    ∃ t', disconnectTx env.node blockUndo t (tx, i) = .ok t' ∧ t'.fClean = t.fClean ∧
      t'.view.Coherent ∧ t'.view.coins = v.coins := by
  obtain ⟨⟨nValueIn, db⟩, hz⟩ := disconnectZerocoinTx_isOk hconn hstray t.nValueIn t.db
  have hout : getValueOut tx = .ok tx.valueOut := by simp [getValueOut, hc.getValueOut hm]
  have hhave : ∀ q ∈ tx.created env.pindex.nHeight, t.view.coins q.1 = some q.2 := by
    intro q hq
    rw [hcoins, hpatch.coins]
    exact putAll_of_mem (tx.created_nodup _) hq
  -- the coins after the outputs are gone
  obtain ⟨⟨clean₁, v₁⟩, hfold⟩ : ∃ r, tx.vout.zipIdx.foldl (removeOutput tx.hash)
      (t.fClean, t.view) = r := ⟨_, rfl⟩
  obtain ⟨hclean, hco₁, hrem⟩ := removeOutputs_eq (s := (t.fClean, t.view)) hco
    (tx.created_nodup env.pindex.nHeight) hhave
  simp only [hfold] at hclean hco₁ hrem
  rw [← CTransaction.created] at hrem
  have hundone := hpatch.undone hnodup
  rw [← hcoins, ← hrem] at hundone
  simp only [disconnectTx, hz, hout, hfold, bind, Except.bind]
  by_cases hk : (tx.isCoinBase || tx.hasZerocoinSpendInputs) = true
  · have hci : tx.coinInputs = [] := by
      rcases Bool.or_eq_true_iff.mp hk with h | h <;> simp [CTransaction.coinInputs, h]
    rw [if_pos hk]
    exact ⟨_, rfl, hclean, hco₁, by simpa [CCoinsViewCache.undoList, hci] using hundone⟩
  · simp only [Bool.or_eq_true, not_or, Bool.not_eq_true] at hk
    have hci : tx.coinInputs = tx.vin := by simp [CTransaction.coinInputs, hk]
    have hlen := hpatch.length
    have hundo := hpatch.undo
    have hnone : ∀ txin ∈ tx.vin, v₁.coins txin.prevout = none := by
      intro txin ht
      rw [hrem, hcoins, hpatch.coins]
      refine removeAll_putAll_removeAll ?_
      rw [hci]
      exact List.mem_map_of_mem ht
    rw [CCoinsViewCache.undoList, hci] at hundone
    rw [hci] at hlen hundo hnodup
    obtain ⟨t', ht', hclean', hco', hcoins'⟩ := restoreTx_isOk
      (t := ⟨clean₁, nValueIn, int64 (t.nValueOut + tx.valueOut), db, v₁⟩) (hu hk.1) hlen hco₁
      hnodup hnone (fun p hp => hrest _ _ (hundo p hp))
    rw [if_neg (by simp [hk]), ht']
    exact ⟨t', rfl, hclean'.trans hclean, hco', hcoins'.trans hundone⟩

/-! ### The run -/

/-- The state of the loop of `ConnectBlock` from which a transaction can be undone later. -/
structure Undoable (S : COutPoint → Prop) (s : ConnectLoop) : Prop where
  coherent : s.view.Coherent
  owns : s.view.Owns S
  restorable : ∀ o c, s.view.coins o = some c → c.Restorable

variable {S : COutPoint → Prop} {s s' : ConnectLoop} {i : ℕ}

lemma CheckedTx.coinInputs_nodup {consensus : ChainParams} (hc : CheckedTx consensus tx) :
    (tx.coinInputs.map (·.prevout)).Nodup := by
  unfold CTransaction.coinInputs
  split
  · next hk =>
    simp only [Bool.and_eq_true, Bool.not_eq_eq_eq_not, Bool.not_true] at hk
    exact hc.prevouts_nodup hk.2
  · exact List.nodup_nil

theorem connected_patched (hc : CheckedTx env.node.params tx) (hh : 1 ≤ env.pindex.nHeight)
    (hS : ∀ n < tx.vout.length, S ⟨tx.hash, n⟩) (hs : Undoable S s)
    (hconn : env.Connected s tx i s') :
    Undoable S s' ∧ ∃ (v : CCoinsViewCache) (txundo : CTxUndo), v.coins = s.view.coins ∧
      v.Patched tx env.pindex.nHeight txundo s'.view ∧
      s'.vtxundo = if i = 0 then s.vtxundo else s.vtxundo ++ [txundo] := by
  obtain ⟨v, txundo, hr, hu, hvtx⟩ := hconn.update
  have hin : ∀ txin ∈ tx.coinInputs, (v.coins txin.prevout).isSome := by
    intro txin ht
    unfold CTransaction.coinInputs at ht
    split at ht
    · next hk =>
      simp only [Bool.and_eq_true, Bool.not_eq_eq_eq_not, Bool.not_true] at hk
      rw [hr.coins]
      exact (hconn.inputs hk.1 hk.2).1 txin ht
    · cases ht
  obtain ⟨hpatch, howns⟩ := CCoinsViewCache.updateCoins_patched (hr.coherent hs.coherent)
    (hr.owns hs.owns) hS hc.coinInputs_nodup hin hu
  refine ⟨⟨hpatch.coherent, howns, ?_⟩, v, txundo, hr.coins, hpatch, hvtx⟩
  intro o c hoc
  rw [hpatch.coins] at hoc
  rcases putAll_eq_some hoc with hnew | hold
  · obtain ⟨-, hheight, hspend⟩ := CTransaction.mem_created hnew
    exact ⟨(hpatch.fresh _ hnew).2, by rw [hheight]; exact hh, hspend⟩
  · have hv := (removeAll_eq_some hold).2
    rw [hr.coins] at hv
    exact hs.restorable o c hv

lemma undoable_run {l : List (CTransaction × ℕ)} (hm : env.node.params.MoneyOk)
    (hh : 1 ≤ env.pindex.nHeight) (hc : ∀ p ∈ l, CheckedTx env.node.params p.1)
    (hS : ∀ p ∈ l, ∀ n < p.1.vout.length, S ⟨p.1.hash, n⟩) (hs : Undoable S s)
    (hl : loop env.connectTx s l = .ok s') : Undoable S s' := by
  refine loop_inv hl hs ?_
  intro p hp t t' ht hstep
  exact (connected_patched (hc p hp) hh (hS p hp) ht
    (ConnectEnv.connectTx_eq_ok hm (hc p hp) hstep)).1

lemma txUndo_of_prefix {blockUndo : CBlockUndo} {us : List CTxUndo} {txundo : CTxUndo}
    (h : us ++ [txundo] <+: blockUndo.vtxundo) (hi : us.length + 1 = i) :
    txUndo blockUndo i = .ok txundo := by
  obtain ⟨rest, hrest⟩ := h
  subst hi
  simp [txUndo, ← hrest]

lemma vtxundo_step {us us' : List CTxUndo} {txundo : CTxUndo}
    (h : us' = if i = 0 then us else us ++ [txundo]) (hlen : us.length = i - 1) :
    us <+: us' ∧ us'.length = i + 1 - 1 := by
  subst h
  split
  · exact ⟨List.prefix_rfl, by omega⟩
  · refine ⟨List.prefix_append _ _, ?_⟩
    simp only [List.length_append, List.length_singleton]
    omega

lemma vtxundo_run {rest : List CTransaction} (hm : env.node.params.MoneyOk)
    (hc : ∀ tx ∈ rest, CheckedTx env.node.params tx)
    (hl : loop env.connectTx s (rest.zipIdx i) = .ok s') (hlen : s.vtxundo.length = i - 1) :
    s.vtxundo <+: s'.vtxundo ∧ s'.vtxundo.length = i + rest.length - 1 := by
  induction rest generalizing s i with
  | nil =>
    simp only [List.zipIdx_nil, loop_nil, Except.ok.injEq] at hl
    subst hl
    exact ⟨List.prefix_rfl, by simpa using hlen⟩
  | cons tx rest ih =>
    simp only [List.zipIdx_cons, loop_cons, bind_eq_ok] at hl
    obtain ⟨s₁, h1, hl⟩ := hl
    obtain ⟨-, txundo, -, -, hvtx⟩ :=
      (ConnectEnv.connectTx_eq_ok hm (hc tx (by simp)) h1).update
    obtain ⟨hpre₁, hlen₁⟩ := vtxundo_step hvtx hlen
    obtain ⟨hpre, hlen'⟩ := ih (fun t ht => hc t (List.mem_cons_of_mem _ ht)) hl hlen₁
    refine ⟨hpre₁.trans hpre, ?_⟩
    rw [hlen', List.length_cons]
    omega

/-- A run through some transactions, and the run back in reverse order. -/
theorem disconnectTxs_undo {rest : List CTransaction} {blockUndo : CBlockUndo}
    {t : DisconnectLoop} (hm : env.node.params.MoneyOk) (hh : 1 ≤ env.pindex.nHeight)
    (hc : ∀ tx ∈ rest, CheckedTx env.node.params tx)
    (hS : ∀ tx ∈ rest, ∀ n < tx.vout.length, S ⟨tx.hash, n⟩)
    (hstray : ∀ tx ∈ rest, tx.StraysParse env.node.lib)
    (hfirst : i = 0 → ∀ tx ∈ rest.head?, tx.isCoinBase = true)
    (hs : Undoable S s) (hlen : s.vtxundo.length = i - 1)
    (hl : loop env.connectTx s (rest.zipIdx i) = .ok s')
    (hundo : s'.vtxundo <+: blockUndo.vtxundo)
    (hco : t.view.Coherent) (hcoins : t.view.coins = s'.view.coins) :
    ∃ t', loop (disconnectTx env.node blockUndo) t (rest.zipIdx i).reverse = .ok t' ∧
      t'.fClean = t.fClean ∧ t'.view.Coherent ∧ t'.view.coins = s.view.coins := by
  induction rest generalizing s i with
  | nil =>
    simp only [List.zipIdx_nil, loop_nil, Except.ok.injEq] at hl
    subst hl
    exact ⟨t, rfl, rfl, hco, hcoins⟩
  | cons tx rest ih =>
    simp only [List.zipIdx_cons, loop_cons, bind_eq_ok] at hl
    obtain ⟨s₁, h1, hl⟩ := hl
    have hctx := hc tx (by simp)
    have hcrest : ∀ t ∈ rest, CheckedTx env.node.params t :=
      fun t ht => hc t (List.mem_cons_of_mem _ ht)
    have hconn := ConnectEnv.connectTx_eq_ok hm hctx h1
    obtain ⟨hs₁, v, txundo, hv, hpatch, hvtx⟩ :=
      connected_patched hctx hh (hS tx (by simp)) hs hconn
    have hlen₁ := (vtxundo_step hvtx hlen).2
    -- back through the rest
    obtain ⟨t₁, ht₁, hclean₁, hco₁, hcoins₁⟩ := ih hcrest
      (fun u hu => hS u (List.mem_cons_of_mem _ hu))
      (fun u hu => hstray u (List.mem_cons_of_mem _ hu)) (by omega) hs₁ hlen₁ hl
    -- and through the transaction, with the record that it left
    have hrec : tx.isCoinBase = false → txUndo blockUndo i = .ok txundo := by
      intro hcb
      have hi : i ≠ 0 := by
        intro hi
        have := hfirst hi tx (by simp)
        rw [hcb] at this
        cases this
      rw [if_neg hi] at hvtx
      have hlast : s.vtxundo ++ [txundo] <+: blockUndo.vtxundo := by
        rw [← hvtx]
        exact (vtxundo_run hm hcrest hl hlen₁).1.trans hundo
      exact txUndo_of_prefix hlast (by omega)
    obtain ⟨t', ht', hclean', hco', hcoins'⟩ := disconnectTx_undo hm hctx hconn hpatch
      hctx.coinInputs_nodup (hstray tx (by simp)) hrec (by rw [hv]; exact hs.restorable) hco₁
      hcoins₁
    refine ⟨t', ?_, hclean'.trans hclean₁, hco', hcoins'.trans hv⟩
    rw [List.zipIdx_cons, List.reverse_cons, loop_append, ht₁]
    simpa using ht'

/-! ### Undoing a block -/

variable {net : Network} {g g' : Global} {block : CBlock} {pindex pprev : CBlockIndex}
  {view view' w : CCoinsViewCache} {fAlreadyChecked : Bool}

lemma isWrappedSerialsHeight_eq_false {nHeight : ℤ} (hh : nHeight ≤ ChainParams.INT_MAX) :
    isWrappedSerialsHeight (paramsOf net) nHeight = false := by
  have hne : nHeight ≠ ChainParams.INT_MAX + 1 := by omega
  cases net with
  | MAIN => simp [isWrappedSerialsHeight, paramsOf, mainParams, hne]
  | TESTNET => rfl
  | REGTEST => rfl

lemma connectCommit_undo (hcorr : isWrappedSerialsHeight node.params pindex.nHeight = false)
    (hundo : g.undo pindex.hash = none)
    (h : connectCommit node g block pindex s = .ok (view', g')) :
    view' = s.view.setBestBlock pindex.hash ∧ g'.undo pindex.hash = some ⟨s.vtxundo⟩ ∧
      updateZAgenorupplyConnect node block pindex.nHeight g.mapZerocoinSupply
        = .ok g'.mapZerocoinSupply := by
  simp only [connectCommit, bind_eq_ok] at h
  obtain ⟨g₁, h1, g₂, h2, h⟩ := h
  simp only [writeUndo, hundo, Option.isSome_none, Bool.false_eq_true, if_false, bind_eq_ok,
    pure_eq_ok] at h1
  obtain ⟨_, -, _, -, rfl⟩ := h1
  simp only [writeZerocoinDB, bind_eq_ok, pure_eq_ok] at h2
  obtain ⟨_, -, _, -, _, -, rfl⟩ := h2
  split at h
  · cases h
  · next m hup =>
    cases h
    refine ⟨rfl, ?_, ?_⟩
    · simp only [connectMoney, hcorr, Bool.false_and, Bool.false_eq_true, if_false]
      split <;> simp
    · simp only [connectMoney, hcorr, Bool.false_and, Bool.false_eq_true, if_false]
      rw [hup]
      split <;> rfl

/-- An accepted block leaves a view from which the next one can be connected and undone. -/
theorem connectBlock_keeps (hnet : node.params = paramsOf net)
    (hgen : block.hash ≠ node.params.hashGenesisBlock) (hv : Vouched node block fAlreadyChecked)
    (hh : 1 ≤ pindex.nHeight) (hco : view.Coherent)
    (hcoins : ∀ o c, view.coins o = some c → c.Restorable)
    (hnew : ∀ tx ∈ block.vtx, ∀ n < tx.vout.length, view.coins ⟨tx.hash, n⟩ = none)
    (hconn : connectBlock node g block pindex view false fAlreadyChecked = .ok (view', g')) :
    view'.Coherent ∧ view'.hashBlock = pindex.hash ∧
      ∀ o c, view'.coins o = some c → c.Restorable := by
  have hm : (connectEnv node g block pindex).node.params.MoneyOk := hnet ▸ paramsOf_moneyOk net
  obtain ⟨hcheck, -, s, hs, hcommit⟩ := connectBlock_eq_ok hgen hconn
  simp only [Bool.false_eq_true, false_and, false_or, true_and, connectCommit, bind_eq_ok]
    at hcommit
  have hck := connectCheckBlock_eq_ok hm hv hcheck
  obtain ⟨-, hl, -, -⟩ := connectChecks_eq_ok hs
  have hready : Undoable (fun o => view.coins o = none) (.start view) :=
    ⟨hco, fun o ho _ => ho, hcoins⟩
  have hdone := undoable_run hm hh (fun p hp => hck.txs p.1 (List.fst_mem_of_mem_zipIdx hp))
    (fun p hp => hnew p.1 (List.fst_mem_of_mem_zipIdx hp)) hready hl
  obtain ⟨_, -, _, -, hcommit⟩ := hcommit
  split at hcommit
  · cases hcommit
  · cases hcommit
    exact ⟨hdone.coherent, rfl, hdone.restorable⟩

namespace Concrete

def earlierCoin : Coin := ⟨⟨10 * COIN, [Script.OP_1]⟩, 1, false, false⟩

/-- One coin, after the first block. -/
def coinView : CCoinsViewCache :=
  .ofView ⟨fun o => if o = ⟨20, 0⟩ then some earlierCoin else none, 2⟩

def payTx : CTransaction := ⟨12, [⟨⟨20, 0⟩, [Script.OP_1], 0⟩], [⟨10 * COIN, [Script.OP_1]⟩]⟩

/-- A private spend of 5000 coins, and an input with the outpoint of the coin and the opcode of a
private spend. -/
def strayTx : CTransaction :=
  ⟨13, spendTx.vin ++ [⟨⟨20, 0⟩, [Script.OP_ZEROCOINSPEND, 0], 0⟩], spendTx.vout⟩

lemma coinView_coins :
    coinView.coins = fun o => if o = ⟨20, 0⟩ then some earlierCoin else none := by
  rw [coinView, CCoinsViewCache.coins_ofView]
  funext o
  simp only [CCoinsMap.liveOf]
  split <;> rfl

lemma coinView_restorable {o : COutPoint} {c : Coin} (h : coinView.coins o = some c) :
    c.Restorable := by
  rw [coinView_coins] at h
  simp only at h
  split at h
  · cases h
    exact ⟨by decide, by decide, by decide⟩
  · cases h

lemma coinView_new {tx : CTransaction} (h : tx.hash ≠ 20) :
    ∀ t ∈ (secondBlock [coinBaseTx (50 * COIN), tx]).vtx, ∀ n < t.vout.length,
      coinView.coins ⟨t.hash, n⟩ = none := by
  intro t ht n _
  have hne : t.hash ≠ 20 := by
    simp only [secondBlock, List.mem_cons, List.not_mem_nil, or_false] at ht
    rcases ht with rfl | rfl
    · decide
    · exact h
  rw [coinView_coins]
  refine if_neg ?_
  intro heq
  exact hne (congrArg COutPoint.hash heq)

lemma sane_initial : ZerocoinSupply.Sane Global.initial.mapZerocoinSupply := by
  intro d n hn
  simp only [Global.initial] at hn
  split at hn
  · cases hn
  · cases hn
    exact ⟨le_rfl, by norm_num⟩

end Concrete

end Agenor
