import Agenor.MempoolRuns
import Agenor.NewBlock
import Agenor.ScriptSlices
import Agenor.UndoBlock

/-!
What `CreateNewBlock` chooses, over any run of its loop: which transactions are tried and which are
waiting, that the chosen ones can be connected one after another, and that they keep the limits.
-/

namespace Agenor

open Lib Lib.Wrap Lib.Fallible Lib.Patch

namespace MinerEnv

variable {D : Type} {env : MinerEnv D} {l : List CTransaction} {tx : CTransaction}
  {f : CTransaction → Finset Uint256} {A : Finset Uint256} {hash : Uint256}
  {vOrphan vOrphan' : ℕ → Option (COrphan D)} {mapDependers : Uint256 → List ℕ}

/-! ### What a chosen transaction releases -/

/-- While the orphans that depend on a transaction are gone through: those that were visited do not
wait for it any longer, and those among them that wait for nothing else go to the heap. -/
structure Releasing (hash : Uint256) (vOrphan : ℕ → Option (COrphan D)) (visited : List ℕ)
    (vOrphan' : ℕ → Option (COrphan D)) (R : List (TxPriority D)) : Prop where
  orphans : ∀ p, vOrphan' p = if p ∈ visited then
    (vOrphan p).map fun o => { o with setDependsOn := o.setDependsOn.erase hash }
    else vOrphan p
  nodup : (R.map (·.tx)).Nodup
  released : ∀ t, t ∈ R.map (·.tx) ↔ ∃ p ∈ visited, ∃ o, vOrphan p = some o ∧ o.ptx = t ∧
    o.setDependsOn.erase hash = ∅

lemma Releasing.step {visited : List ℕ} {R : List (TxPriority D)} {p : ℕ} {o : COrphan D}
    (h : Releasing hash vOrphan visited vOrphan' R) (ho : vOrphan p = some o)
    (hdep : hash ∈ o.setDependsOn)
    (honce : ∀ q o', vOrphan q = some o' → o'.ptx = o.ptx → q = p)
    (s : Assembly D) (heap : List (TxPriority D)) :
    ∃ vOrphan'' R',
      releaseOne hash { s with vOrphan := vOrphan', vecPriority := heap ++ R } p
        = .ok { s with vOrphan := vOrphan'', vecPriority := heap ++ R' } ∧
      Releasing hash vOrphan (visited ++ [p]) vOrphan'' R' := by
  obtain ⟨horphan, hnodup, hR⟩ := h
  have hp := horphan p
  have hset : ∀ q, q ∈ visited ++ [p] ↔ q ∈ visited ∨ q = p := by simp
  by_cases hvisited : p ∈ visited
  · -- the second time nothing changes
    rw [if_pos hvisited, ho, Option.map_some] at hp
    have hsame : ∀ q, q ∈ visited ++ [p] ↔ q ∈ visited := by
      intro q
      rw [hset]
      exact or_iff_left_of_imp fun hq => hq ▸ hvisited
    refine ⟨vOrphan', R, ?_, ?_, hnodup, ?_⟩
    · simp only [releaseOne, follow_some hp, ok_bind, Finset.erase_idem]
      split
      · rfl
      · rw [← hp, Function.update_eq_self]
        rfl
    · simpa only [hsame] using horphan
    · simpa only [hsame] using hR
  · rw [if_neg hvisited, ho] at hp
    have hne : o.setDependsOn ≠ ∅ := Finset.ne_empty_of_mem hdep
    have horphan' : ∀ q, Function.update vOrphan' p
        (some { o with setDependsOn := o.setDependsOn.erase hash }) q
        = if q ∈ visited ++ [p] then
            (vOrphan q).map fun o => { o with setDependsOn := o.setDependsOn.erase hash }
          else vOrphan q := by
      intro q
      by_cases hq : q = p
      · subst hq
        simp [ho]
      · rw [Function.update_of_ne hq, horphan q]
        simp [hq]
    by_cases hfree : o.setDependsOn.erase hash = ∅
    · refine ⟨_, R ++ [⟨o.dPriority, o.feeRate, o.ptx⟩], ?_, horphan', ?_, ?_⟩
      · simp [releaseOne, follow_some hp, ok_bind, hne, hfree]
      · rw [List.map_append, List.map_singleton, List.nodup_append]
        refine ⟨hnodup, List.nodup_singleton _, ?_⟩
        rintro a ha b hb rfl
        obtain rfl := List.mem_singleton.mp hb
        obtain ⟨q, hq, o', ho', hptx, -⟩ := (hR _).mp ha
        exact hvisited (honce q o' ho' hptx ▸ hq)
      · intro t
        rw [List.map_append, List.mem_append, hR t]
        simp only [hset, List.map_singleton, List.mem_singleton]
        constructor
        · rintro (⟨q, hq, hrest⟩ | rfl)
          · exact ⟨q, .inl hq, hrest⟩
          · exact ⟨p, .inr rfl, o, ho, rfl, hfree⟩
        · rintro ⟨q, hq | rfl, o', ho', hptx, hfree'⟩
          · exact .inl ⟨q, hq, o', ho', hptx, hfree'⟩
          · rw [ho, Option.some.injEq] at ho'
            subst ho'
            exact .inr hptx.symm
    · refine ⟨_, R, ?_, horphan', hnodup, ?_⟩
      · simp [releaseOne, follow_some hp, ok_bind, hne, hfree]
      · intro t
        rw [hR t]
        simp only [hset]
        constructor
        · rintro ⟨q, hq, hrest⟩
          exact ⟨q, .inl hq, hrest⟩
        · rintro ⟨q, hq | rfl, o', ho', hptx, hfree'⟩
          · exact ⟨q, hq, o', ho', hptx, hfree'⟩
          · rw [ho, Option.some.injEq] at ho'
            subst ho'
            exact absurd hfree' hfree

lemma Releasing.run {visited todo : List ℕ} {R : List (TxPriority D)}
    (h : Releasing hash vOrphan visited vOrphan' R)
    (hdep : ∀ p ∈ todo, ∃ o, vOrphan p = some o ∧ hash ∈ o.setDependsOn)
    (honce : ∀ p q o o', vOrphan p = some o → vOrphan q = some o' → o.ptx = o'.ptx → p = q)
    (s : Assembly D) (heap : List (TxPriority D)) :
    ∃ vOrphan'' R',
      loop (releaseOne hash) { s with vOrphan := vOrphan', vecPriority := heap ++ R } todo
        = .ok { s with vOrphan := vOrphan'', vecPriority := heap ++ R' } ∧
      Releasing hash vOrphan (visited ++ todo) vOrphan'' R' := by
  induction todo generalizing visited vOrphan' R with
  | nil => exact ⟨vOrphan', R, rfl, by simpa using h⟩
  | cons p todo ih =>
    obtain ⟨o, ho, hmem⟩ := hdep p (by simp)
    obtain ⟨v₁, R₁, h1, hrel⟩ :=
      h.step ho hmem (fun q o' ho' hptx => honce q p o' o ho' ho hptx) s heap
    obtain ⟨v₂, R₂, h2, hrel₂⟩ := ih hrel fun q hq => hdep q (List.mem_cons_of_mem _ hq)
    refine ⟨v₂, R₂, ?_, by simpa using hrel₂⟩
    rw [loop_cons, h1]
    exact h2

/-- **What a chosen transaction releases.** -/
theorem release_eq {s : Assembly D} (h : Waiting f l A s.vOrphan s.mapDependers)
    (hA : hash ∉ A) :
    ∃ vOrphan' R,
      release hash s = .ok { s with vOrphan := vOrphan', vecPriority := s.vecPriority ++ R } ∧
      Waiting f l (insert hash A) vOrphan' s.mapDependers ∧ (R.map (·.tx)).Nodup ∧
      ∀ t, t ∈ R.map (·.tx) ↔ t ∈ l ∧ hash ∈ f t ∧ f t ⊆ insert hash A := by
  have h0 : Releasing hash s.vOrphan [] s.vOrphan [] := ⟨by simp, by simp, by simp⟩
  have hdep : ∀ p ∈ s.mapDependers hash, ∃ o, s.vOrphan p = some o ∧ hash ∈ o.setDependsOn := by
    intro p hp
    obtain ⟨o, ho, hmem⟩ := (h.dependers hash p).mp hp
    refine ⟨o, ho, ?_⟩
    rw [(h.known p o ho).2.2]
    exact Finset.mem_sdiff.mpr ⟨hmem, hA⟩
  obtain ⟨vOrphan', R, hrun, horphan, hnodup, hR⟩ := h0.run hdep h.once s s.vecPriority
  rw [List.append_nil] at hrun
  rw [List.nil_append] at horphan hR
  have hset : ∀ p o, s.vOrphan p = some o →
      (p ∈ s.mapDependers hash ↔ hash ∈ f o.ptx) := by
    intro p o ho
    rw [h.dependers hash p]
    simp [ho]
  have hwait : Waiting f l (insert hash A) vOrphan' s.mapDependers := by
    refine h.change ?_ ?_
    · intro p o' ho'
      rw [horphan p] at ho'
      split at ho'
      · obtain ⟨o, ho, rfl⟩ := Option.map_eq_some_iff.mp ho'
        refine ⟨o, ho, rfl, ?_⟩
        simp only [(h.known p o ho).2.2, Finset.sdiff_insert]
      · next hp =>
        rw [hset p o' ho'] at hp
        refine ⟨o', ho', rfl, ?_⟩
        rw [(h.known p o' ho').2.2, Finset.sdiff_insert_of_notMem hp]
    · intro p o ho
      rw [horphan p, ho]
      split
      · exact ⟨_, rfl, rfl⟩
      · exact ⟨o, rfl, rfl⟩
  refine ⟨vOrphan', R, hrun, hwait, hnodup, ?_⟩
  intro t
  rw [hR t]
  have hfree : ∀ t, (f t \ A).erase hash = ∅ ↔ f t ⊆ insert hash A := by
    intro t
    rw [← Finset.sdiff_insert, Finset.sdiff_eq_empty_iff_subset]
  constructor
  · rintro ⟨p, hp, o, ho, rfl, hempty⟩
    obtain ⟨hmem, hne, hdeps⟩ := h.known p o ho
    rw [hdeps, hfree] at hempty
    exact ⟨hmem, (hset p o ho).mp hp, hempty⟩
  · rintro ⟨hmem, hx, hempty⟩
    obtain ⟨p, o, ho, rfl⟩ := h.orphan t hmem (Finset.ne_empty_of_mem hx)
    refine ⟨p, (hset p o ho).mpr hx, o, ho, rfl, ?_⟩
    rw [(h.known p o ho).2.2, hfree]
    exact hempty

/-! ### What is chosen -/

/-- **What it takes for a transaction to be chosen**, and the view that it leaves: its inputs are
unspent, `CheckInputs` finds nothing, and its coins are updated. The fee is what `ConnectBlock`
counts. -/
structure Passes (env : MinerEnv D) (v : CCoinsViewCache) (tx : CTransaction) (nTxFees : ℤ)
    (nTxSigOps : ℕ) (v' : CCoinsViewCache) : Prop where
  inputs : ∀ txin ∈ tx.coinInputs, (v.coins txin.prevout).isSome
  nTxFees : nTxFees = int64 (ConnectEnv.countedFee v tx)
  checks : ∃ v₁ v₂ scriptsOk txundo, CCoinsViewCache.Reads v v₁ ∧
    nTxSigOps = getLegacySigOpCount tx + (getP2SHSigOpCount v₁ tx).1 ∧
    env.checkInputs tx (getP2SHSigOpCount v₁ tx).2 = .ok (scriptsOk, v₂) ∧
    v₂.updateCoins tx env.nHeight = .ok (txundo, v')

/-- The transactions can be connected one after another, with these fees and numbers of signature
operations. Between them the view is only read. -/
inductive Connects (env : MinerEnv D) (v : CCoinsViewCache) :
    List CTransaction → List ℤ → List ℕ → CCoinsViewCache → Prop
  | nil {v' : CCoinsViewCache} (hr : CCoinsViewCache.Reads v v') : Connects env v [] [] [] v'
  | snoc {vtx : List CTransaction} {vTxFees : List ℤ} {vTxSigOps : List ℕ} {tx : CTransaction}
      {nTxFees : ℤ} {nTxSigOps : ℕ} {v₁ v₂ v₃ : CCoinsViewCache}
      (h : Connects env v vtx vTxFees vTxSigOps v₁) (hp : Passes env v₁ tx nTxFees nTxSigOps v₂)
      (hr : CCoinsViewCache.Reads v₂ v₃) :
      Connects env v (vtx ++ [tx]) (vTxFees ++ [nTxFees]) (vTxSigOps ++ [nTxSigOps]) v₃

variable {v v' : CCoinsViewCache} {nTxFees : ℤ} {nTxSigOps : ℕ} {vtx : List CTransaction}
  {vTxFees : List ℤ} {vTxSigOps : List ℕ}

lemma Connects.reads (h : Connects env v vtx vTxFees vTxSigOps v')
    {w : CCoinsViewCache} (hr : CCoinsViewCache.Reads v' w) :
    Connects env v vtx vTxFees vTxSigOps w := by
  cases h with
  | nil h => exact .nil (h.trans hr)
  | snoc h hp h' => exact .snoc h hp (h'.trans hr)

lemma Passes.patched (h : Passes env v tx nTxFees nTxSigOps v') {S : COutPoint → Prop}
    (hm : env.node.params.MoneyOk) (hc : CheckedTx env.node.params tx) (hco : v.Coherent)
    (hv : v.Owns S) (hS : ∀ n < tx.vout.length, S ⟨tx.hash, n⟩) :
    v'.Coherent ∧ v'.Owns S ∧
      v'.coins = putAll (removeAll v.coins (tx.coinInputs.map (·.prevout)))
        (tx.created env.nHeight) := by
  obtain ⟨hin, -, v₁, v₂, ok, txundo, hr₁, -, hcheck, hupdate⟩ := h
  have hm' : ({ env.node with nScriptCheckThreads := 0 } : Node).params.MoneyOk := hm
  have hr : CCoinsViewCache.Reads v v₂ :=
    (hr₁.trans (ConnectEnv.reads_getP2SHSigOpCount v₁ tx)).trans
      (ConnectEnv.checkInputs_eq_ok hm' hc hcheck).1
  rw [← hr.coins] at hin
  obtain ⟨hpatch, howns⟩ := CCoinsViewCache.updateCoins_patched (hr.coherent hco) (hr.owns hv) hS
    hc.coinInputs_nodup hin hupdate
  refine ⟨hpatch.coherent, howns, ?_⟩
  rw [hpatch.coins, hr.coins]

/-- The outpoints that some transactions spend. -/
def spentBy (vtx : List CTransaction) : List COutPoint :=
  (vtx.flatMap (·.coinInputs)).map (·.prevout)

/-- Each outpoint that was spent is no longer there, and what is there was there before or belongs
to one of the transactions. -/
structure Spent (S : COutPoint → Prop) (v : CCoinsViewCache) (vtx : List CTransaction)
    (v' : CCoinsViewCache) : Prop where
  coherent : v'.Coherent
  owns : v'.Owns S
  nodup : (spentBy vtx).Nodup
  gone : ∀ o ∈ spentBy vtx, v'.coins o = none ∧
    ((v.coins o).isSome ∨ o.hash ∈ vtx.map (·.hash))
  shown : ∀ o, (v'.coins o).isSome → (v.coins o).isSome ∨ o.hash ∈ vtx.map (·.hash)

lemma Spent.reads {S : COutPoint → Prop} {w : CCoinsViewCache} (h : Spent S v vtx v')
    (hr : CCoinsViewCache.Reads v' w) : Spent S v vtx w := by
  refine ⟨hr.coherent h.coherent, hr.owns h.owns, h.nodup, ?_, ?_⟩
  · rw [hr.coins]
    exact h.gone
  · rw [hr.coins]
    exact h.shown

lemma Spent.step {S : COutPoint → Prop} {w : CCoinsViewCache} (h : Spent S v vtx v')
    (hm : env.node.params.MoneyOk) (hc : CheckedTx env.node.params tx)
    (hS : ∀ n < tx.vout.length, S ⟨tx.hash, n⟩)
    (hfresh : ∀ n < tx.vout.length, v.coins ⟨tx.hash, n⟩ = none)
    (hnew : tx.hash ∉ vtx.map (·.hash)) (hp : Passes env v' tx nTxFees nTxSigOps w) :
    Spent S v (vtx ++ [tx]) w := by
  obtain ⟨hco, howns, hcoins⟩ := hp.patched hm hc h.coherent h.owns hS
  have hspent : spentBy (vtx ++ [tx]) = spentBy vtx ++ tx.coinInputs.map (·.prevout) := by
    simp [spentBy]
  have hin : ∀ o ∈ tx.coinInputs.map (·.prevout), (v'.coins o).isSome := by
    intro o ho
    obtain ⟨txin, ht, rfl⟩ := List.mem_map.mp ho
    exact hp.inputs txin ht
  -- what the transaction creates was neither there nor has it been spent
  have hcreated : ∀ o, ((v.coins o).isSome ∨ o.hash ∈ vtx.map (·.hash)) →
      o ∉ (tx.created env.nHeight).map Prod.fst := by
    rintro o hold hmem
    obtain ⟨p, hpm, rfl⟩ := List.mem_map.mp hmem
    obtain ⟨⟨n, hn, heq⟩, -⟩ := CTransaction.mem_created hpm
    rw [heq] at hold
    rcases hold with hold | hold
    · rw [hfresh n hn] at hold
      cases hold
    · exact hnew hold
  have hweak : ∀ o : COutPoint, ((v.coins o).isSome ∨ o.hash ∈ vtx.map (·.hash)) →
      (v.coins o).isSome ∨ o.hash ∈ (vtx ++ [tx]).map (·.hash) := by
    rintro o (hold | hold)
    · exact .inl hold
    · exact .inr (by rw [List.map_append]; exact List.mem_append_left _ hold)
  refine ⟨hco, howns, ?_, ?_, ?_⟩
  · rw [hspent]
    refine List.nodup_append.mpr ⟨h.nodup, hc.coinInputs_nodup, ?_⟩
    rintro a ha b hb rfl
    have hsome := hin a hb
    rw [(h.gone a ha).1] at hsome
    cases hsome
  · intro o ho
    have hold : (v.coins o).isSome ∨ o.hash ∈ vtx.map (·.hash) := by
      rw [hspent, List.mem_append] at ho
      rcases ho with ho | ho
      · exact (h.gone o ho).2
      · exact h.shown o (hin o ho)
    refine ⟨?_, hweak o hold⟩
    rw [hcoins, putAll_of_notMem (hcreated o hold), removeAll_apply]
    split
    · rfl
    · next hnot =>
      rw [hspent, List.mem_append, or_iff_left hnot] at ho
      exact (h.gone o ho).1
  · intro o ho
    obtain ⟨c, hc'⟩ := Option.isSome_iff_exists.mp ho
    rw [hcoins] at hc'
    rcases putAll_eq_some hc' with hmem | hold
    · obtain ⟨⟨n, -, heq⟩, -⟩ := CTransaction.mem_created hmem
      refine .inr ?_
      have hhash : o.hash = tx.hash := congrArg COutPoint.hash heq
      simp [hhash]
    · refine hweak o (h.shown o ?_)
      rw [(removeAll_eq_some hold).2]
      rfl

lemma Connects.spent (h : Connects env v vtx vTxFees vTxSigOps v') {S : COutPoint → Prop}
    (hm : env.node.params.MoneyOk) (hc : ∀ tx ∈ vtx, CheckedTx env.node.params tx)
    (hS : ∀ tx ∈ vtx, ∀ n < tx.vout.length, S ⟨tx.hash, n⟩)
    (hfresh : ∀ tx ∈ vtx, ∀ n < tx.vout.length, v.coins ⟨tx.hash, n⟩ = none)
    (hnodup : (vtx.map (·.hash)).Nodup) (hco : v.Coherent) (howns : v.Owns S) :
    Spent S v vtx v' := by
  induction h with
  | nil hr =>
    have h0 : Spent S v [] v := ⟨hco, howns, List.nodup_nil, by simp [spentBy], fun _ => .inl⟩
    exact h0.reads hr
  | @snoc vtx _ _ tx _ _ _ _ _ _ hp hr ih =>
    rw [List.map_append, List.nodup_append] at hnodup
    obtain ⟨hfront, -, hlast⟩ := hnodup
    have hmem : ∀ t ∈ vtx, t ∈ vtx ++ [tx] := fun t ht => List.mem_append_left _ ht
    have hprev := ih (fun t ht => hc t (hmem t ht)) (fun t ht => hS t (hmem t ht))
      (fun t ht => hfresh t (hmem t ht)) hfront
    refine (hprev.step hm (hc tx (by simp)) (hS tx (by simp)) (hfresh tx (by simp)) ?_ hp).reads hr
    intro hin
    exact hlast tx.hash hin tx.hash (by simp) rfl

/-! ### One pass of the loop -/

lemma checkedFee (hm : env.node.params.MoneyOk) (hc : CheckedTx env.node.params tx)
    (hcb : tx.isCoinBase = false) (hcs : tx.isCoinStake = false) {nValueOut : ℤ}
    (h : getValueOut tx = .ok nValueOut) {w : CCoinsViewCache}
    (hr : CCoinsViewCache.Reads v w) :
    int64 ((w.getValueIn tx).1 - nValueOut) = int64 (ConnectEnv.countedFee v tx) := by
  rw [getValueOut, hc.getValueOut hm, Except.ok.injEq] at h
  rw [ConnectEnv.countedFee, hcb, hcs, ← hr.coins, ← h, ← int64_int64_sub,
    ConnectEnv.getValueIn_eq w hcb]
  simp

lemma inputs_of_haveInputs (h : (v.haveInputs tx).1 = true) :
    ∀ txin ∈ tx.coinInputs, (v.coins txin.prevout).isSome := by
  unfold CCoinsViewCache.haveInputs at h
  unfold CTransaction.coinInputs
  split at h
  · next hk =>
    rw [if_pos hk]
    rw [(CCoinsViewCache.haveAll_spec v tx.vin).1, List.all_eq_true] at h
    exact h
  · next hk =>
    rw [if_neg hk]
    simp

lemma tryTx_cases {s s' : Assembly D} (hm : env.node.params.MoneyOk)
    (hc : CheckedTx env.node.params tx) (hcb : tx.isCoinBase = false)
    (hcs : tx.isCoinStake = false) (h : env.tryTx s tx = .ok s') :
    (∃ view vBlockSerials, CCoinsViewCache.Reads s.view view ∧
      s' = { s with view, vBlockSerials }) ∨
    ∃ vBlockSerials nTxFees nTxSigOps view, Passes env s.view tx nTxFees nTxSigOps view ∧
      s.nBlockSigOps + nTxSigOps < MAX_BLOCK_SIGOPS_CURRENT ∧
      release tx.hash (addTx { s with vBlockSerials } tx nTxFees nTxSigOps view) = .ok s' := by
  have hr₁ := CCoinsViewCache.reads_haveInputs s.view tx
  simp only [tryTx] at h
  cases hhave : (s.view.haveInputs tx).1 with
  | false =>
    simp only [hhave, Bool.not_false, if_true, pure_eq_ok] at h
    exact .inl ⟨_, s.vBlockSerials, hr₁, h.symm⟩
  | true =>
    simp only [hhave, Bool.not_true, Bool.false_eq_true, if_false, bind_eq_ok, Prod.exists] at h
    obtain ⟨single, vBlockSerials, -, h⟩ := h
    cases single with
    | false =>
      simp only [Bool.not_false, if_true, pure_eq_ok] at h
      exact .inl ⟨_, vBlockSerials, hr₁, h.symm⟩
    | true =>
      simp only [Bool.not_true, Bool.false_eq_true, if_false, bind_eq_ok] at h
      obtain ⟨nValueOut, hout, h⟩ := h
      have hr₂ := hr₁.trans (CCoinsViewCache.reads_getValueIn (s.view.haveInputs tx).2 tx)
      have hr₃ := hr₂.trans (ConnectEnv.reads_getP2SHSigOpCount
        ((s.view.haveInputs tx).2.getValueIn tx).2 tx)
      split at h
      · rw [pure_eq_ok] at h
        exact .inl ⟨_, vBlockSerials, hr₃, h.symm⟩
      · next hops =>
        split at h
        · next f hf =>
          split at h
          · rw [pure_eq_ok] at h
            exact .inl ⟨_, vBlockSerials, hr₃, h.symm⟩
          · cases h
        · next ok view hcheck =>
          simp only [bind_eq_ok, Prod.exists] at h
          obtain ⟨txundo, v', hupdate, h⟩ := h
          refine .inr ⟨vBlockSerials, _, _, v', ⟨?_, ?_, _, view, ok, txundo, hr₂, rfl, hcheck,
            hupdate⟩, by simpa using hops, h⟩
          · exact inputs_of_haveInputs hhave
          · exact checkedFee hm hc hcb hcs hout hr₁

lemma body_cases [LinearOrder D] {s s' : Assembly D} {p : TxPriority D}
    {rest : List (TxPriority D)} (hm : env.node.params.MoneyOk)
    (hc : CheckedTx env.node.params p.tx) (hskip : env.skips p.tx = false)
    (h : env.body s p rest = .ok s') :
    (∃ view vBlockSerials fSortedByFee, CCoinsViewCache.Reads s.view view ∧
      s' = { s with vecPriority := rest, view, vBlockSerials, fSortedByFee }) ∨
    ∃ vBlockSerials fSortedByFee nTxFees nTxSigOps view,
      Passes env s.view p.tx nTxFees nTxSigOps view ∧
      s.nBlockSigOps + nTxSigOps < MAX_BLOCK_SIGOPS_CURRENT ∧
      s.nBlockSize + p.tx.serializeSize < env.nBlockMaxSize ∧
      release p.tx.hash (addTx { s with vecPriority := rest, vBlockSerials, fSortedByFee } p.tx
        nTxFees nTxSigOps view) = .ok s' := by
  simp only [skips, Bool.or_eq_false_iff] at hskip
  obtain ⟨⟨⟨hcb, hcs⟩, -⟩, -⟩ := hskip
  simp only [body] at h
  split at h
  · next hfits =>
    have hsize : s.nBlockSize + p.tx.serializeSize < env.nBlockMaxSize := by
      simp only [fits, Bool.and_eq_true, decide_eq_true_eq] at hfits
      exact hfits.1.1
    rcases tryTx_cases hm hc hcb hcs h with
      ⟨view, vBlockSerials, hr, rfl⟩ | ⟨vBlockSerials, nTxFees, nTxSigOps, view, hp, hops, hrel⟩
    · exact .inl ⟨view, vBlockSerials, _, hr, rfl⟩
    · exact .inr ⟨vBlockSerials, _, nTxFees, nTxSigOps, view, hp, hops, hsize, hrel⟩
  · cases h
    exact .inl ⟨s.view, s.vBlockSerials, s.fSortedByFee, .refl _, rfl⟩

/-! ### Runs -/

/-- **What has been chosen.** The candidates whose needs are in the block are those that have been
tried or are on the heap; what is in the block can be connected, and is counted. -/
structure Selected (env : MinerEnv D) (v : CCoinsViewCache) (mapTx : List CTransaction)
    (log : List (TxPriority D)) (s : Assembly D) : Prop where
  queue : DependencyQueue.Inv (env.candidates mapTx) (·.hash) (needs v.coins) (log.map (·.tx))
    (s.vecPriority.map (·.tx)) s.vtx
  connects : Connects env v s.vtx s.vTxFees s.vTxSigOps s.view
  nBlockTx : s.nBlockTx = s.vtx.length
  nBlockSize : s.nBlockSize = 1000 + (s.vtx.map (·.serializeSize)).sum
  nBlockSigOps : s.nBlockSigOps = 100 + s.vTxSigOps.sum
  nFees : s.nFees = int64 s.vTxFees.sum
  limits : s.vtx ≠ [] →
    s.nBlockSize < env.nBlockMaxSize ∧ s.nBlockSigOps < MAX_BLOCK_SIGOPS_CURRENT

/-- The orphans wait for what is not in the block. -/
def Waits (env : MinerEnv D) (v : CCoinsViewCache) (mapTx : List CTransaction)
    (s : Assembly D) : Prop :=
  Waiting (needs v.coins) (env.candidates mapTx) (s.vtx.map (·.hash)).toFinset s.vOrphan
    s.mapDependers

variable {mapTx : List CTransaction} {log : List (TxPriority D)} {s s' : Assembly D}

lemma start_selected {m : MinerScan D} (hpool : env.PoolOk v.coins mapTx)
    (h : Scanned (needs v.coins) (env.candidates mapTx) m)
    (hr : CCoinsViewCache.Reads v m.view) :
    Selected env v mapTx [] (env.start m) ∧ Waits env v mapTx (env.start m) := by
  obtain ⟨hready, hwait, -⟩ := h
  refine ⟨⟨?_, .nil hr, rfl, rfl, rfl, int64_zero.symm, ?_⟩, hwait⟩
  · have hnodup : (env.candidates mapTx).Nodup := (List.Nodup.of_map _ hpool.hashes).filter _
    show DependencyQueue.Inv _ _ _ [] (m.vecPriority.map (·.tx)) []
    rw [hready]
    exact .start hnodup
  · intro hne
    exact absurd rfl hne

lemma body_selected [LinearOrder D] {p : TxPriority D} {rest : List (TxPriority D)}
    (hm : env.node.params.MoneyOk) (hpool : env.PoolOk v.coins mapTx)
    (h : Selected env v mapTx log s) (hwait : Waits env v mapTx s)
    (hperm : s.vecPriority.Perm (p :: rest)) (hs : env.body s p rest = .ok s') :
    Selected env v mapTx (log ++ [p]) s' ∧ Waits env v mapTx s' := by
  have hqueue := h.queue.perm (hperm.map (·.tx))
  rw [List.map_cons] at hqueue
  have hcand : p.tx ∈ env.candidates mapTx := hqueue.known p.tx (by simp)
  have hskip : env.skips p.tx = false := by
    simpa using (List.mem_filter.mp hcand).2
  have hkey : Set.InjOn (fun tx : CTransaction => tx.hash) {j | j ∈ env.candidates mapTx} := by
    intro a ha b hb heq
    exact List.inj_on_of_nodup_map hpool.hashes (List.mem_of_mem_filter ha)
      (List.mem_of_mem_filter hb) heq
  rcases body_cases hm (hpool.checked p.tx hcand) hskip hs with
    ⟨view, vBlockSerials, fSortedByFee, hr, rfl⟩ |
    ⟨vBlockSerials, fSortedByFee, nTxFees, nTxSigOps, view, hp, hops, hsize, hrel⟩
  · refine ⟨⟨?_, h.connects.reads hr, h.nBlockTx, h.nBlockSize, h.nBlockSigOps, h.nFees,
      h.limits⟩, hwait⟩
    rw [List.map_append]
    exact hqueue.reject
  · have hnew : p.tx.hash ∉ s.vtx.map (·.hash) := hqueue.key_notMem hkey
    have hA : p.tx.hash ∉ (s.vtx.map (·.hash)).toFinset := fun hmem =>
      hnew (List.mem_toFinset.mp hmem)
    have hnext : insert p.tx.hash (s.vtx.map (·.hash)).toFinset
        = ((s.vtx ++ [p.tx]).map (·.hash)).toFinset := by
      ext x
      simp
    obtain ⟨vOrphan', R, hrel', hwait', hnodup, hR⟩ := release_eq (s := addTx
      { s with vecPriority := rest, vBlockSerials, fSortedByFee } p.tx nTxFees nTxSigOps view)
      hwait hA
    rw [hrel', Except.ok.injEq] at hrel
    subst hrel
    rw [hnext] at hwait' hR
    refine ⟨⟨?_, .snoc h.connects hp (.refl _), ?_, ?_, ?_, ?_, ?_⟩, hwait'⟩
    · show DependencyQueue.Inv _ _ _ _ ((rest ++ R).map (·.tx)) (s.vtx ++ [p.tx])
      rw [List.map_append, List.map_append]
      exact hqueue.accept hkey hnodup hR
    · simp [addTx, h.nBlockTx]
    · simp [addTx, h.nBlockSize, add_assoc]
    · simp [addTx, h.nBlockSigOps, add_assoc]
    · simp [addTx, h.nFees]
    · intro _
      exact ⟨hsize, hops⟩

lemma run_selected [LinearOrder D] {s₀ : Assembly D} (hm : env.node.params.MoneyOk)
    (hpool : env.PoolOk v.coins mapTx) (h₀ : Selected env v mapTx [] s₀)
    (hwait₀ : Waits env v mapTx s₀) (h : env.Run s₀ log s) :
    Selected env v mapTx log s ∧ Waits env v mapTx s := by
  induction h with
  | nil => exact ⟨h₀, hwait₀⟩
  | snoc _ hperm _ hs ih => exact body_selected hm hpool ih.1 ih.2 hperm hs

/-! ### Orphans that were taken off -/

lemma checkForDuplicatedSerials_avoids {node : Node} (vBlockSerials : List ℤ) :
    Avoids (.outOfRange .orphan) (checkForDuplicatedSerials node tx vBlockSerials) := by
  refine .ite (fun _ => .pure _ _) fun _ => .ite (fun _ => .pure _ _) fun _ => ?_
  refine Avoids.bind (.loop _ fun txin _ t => ?_) fun _ _ => .pure _ _
  have hlong : SliceSite.orphan = .scriptOffset → LongMints node [] := by simp
  refine .ite (fun _ => .pure _ _) fun _ => .ite (fun _ => ?_) fun _ => ?_
  · split
    · exact (Avoids.ok _ _).bind fun _ _ => .ite (fun _ => .pure _ _) fun _ => .pure _ _
    · next f hf =>
      refine Avoids.bind (.error ?_) fun _ _ => .ite (fun _ => .pure _ _) fun _ => .pure _ _
      split
      · simp
      · rintro rfl
        exact parseZerocoinPublicSpend_avoids (by decide) (by decide) hlong hf
  · exact (txInToZerocoinSpend_avoids (by decide) _ _).bind fun _ _ =>
      .ite (fun _ => .pure _ _) fun _ => .pure _ _

/-- **The next pass follows no orphan that was taken off**: what it releases are orphans that are
on the list, and nothing else in it follows a pointer. -/
lemma body_avoids [LinearOrder D] {p : TxPriority D} {rest : List (TxPriority D)}
    (hpool : env.PoolOk v.coins mapTx) (h : Selected env v mapTx log s)
    (hwait : Waits env v mapTx s) (hperm : s.vecPriority.Perm (p :: rest)) :
    Avoids (.outOfRange .orphan) (env.body s p rest) := by
  have hqueue := h.queue.perm (hperm.map (·.tx))
  rw [List.map_cons] at hqueue
  have hkey : Set.InjOn (fun tx : CTransaction => tx.hash) {j | j ∈ env.candidates mapTx} := by
    intro a ha b hb heq
    exact List.inj_on_of_nodup_map hpool.hashes (List.mem_of_mem_filter ha)
      (List.mem_of_mem_filter hb) heq
  have hA : p.tx.hash ∉ (s.vtx.map (·.hash)).toFinset := fun hmem =>
    hqueue.key_notMem hkey (List.mem_toFinset.mp hmem)
  have hrelease : ∀ t : Assembly D, t.vOrphan = s.vOrphan → t.mapDependers = s.mapDependers →
      Avoids (.outOfRange .orphan) (release p.tx.hash t) := by
    intro t ho hd
    have hwait' : Waiting (needs v.coins) (env.candidates mapTx) (s.vtx.map (·.hash)).toFinset
        t.vOrphan t.mapDependers := by
      rw [ho, hd]
      exact hwait
    obtain ⟨vOrphan', R, hrel, -⟩ := release_eq hwait' hA
    rw [hrel]
    exact .ok _ _
  refine .ite (fun _ => .ite (fun _ => .pure _ _) fun _ => ?_) fun _ => .ok _ _
  refine (checkForDuplicatedSerials_avoids _).bind fun r _ => .ite (fun _ => .pure _ _) fun _ => ?_
  refine ConnectEnv.getValueOut_avoids.bind fun _ _ => .ite (fun _ => .pure _ _) fun _ => ?_
  split
  · next f hf =>
    refine .ite (fun _ => .pure _ _) fun _ => .error ?_
    rintro rfl
    exact ConnectEnv.checkInputs_avoids hf
  · exact ConnectEnv.updateCoins_avoids.bind fun _ _ => hrelease _ rfl rfl

end MinerEnv

/-! ### A block with two transactions -/

namespace Concrete

/-- It spends from `payTx`. -/
def onwardTx : CTransaction := ⟨14, [⟨⟨12, 0⟩, [Script.OP_1], 0⟩], [⟨9 * COIN, [Script.OP_1]⟩]⟩

def minerEnv : MinerEnv ℤ where
  node := mainNode
  mempool := { CTxMemPool.empty with mapTx := CTxMemPool.empty.mapTx.insert 12 (entryOf payTx) }
  nHeight := 2
  isFinalTx _ := true
  mapDeltas _ := none
  minRelayTxFee := 10000
  blockMaxSize := 750000
  blockPrioritySize := 50000
  blockMinSize := 0
  zero := 0
  add := (· + ·)
  addInput d nValue nConf := d + nValue * nConf
  computePriority _ d nTxSize := d / nTxSize
  allowFree d := decide (57600000 < d)

/-- The child comes first in the pool. -/
def minerPool : List CTransaction := [onwardTx, payTx]

/-- There is one entry on the heap, twice. -/
def minerRun : Check (Assembly ℤ) := do
  let m ← minerEnv.scan coinView minerPool
  let s := minerEnv.start m
  match s.vecPriority with
  | [p] =>
    let s ← minerEnv.body s p []
    match s.vecPriority with
    | [p] => minerEnv.body s p []
    | _ => .error .assertion
  | _ => .error .assertion

lemma less_self {D : Type} [LinearOrder D] (byFee : Bool) (p : TxPriority D) :
    TxPriority.less byFee p p = false := by
  simp [TxPriority.less]

lemma run_one {s₀ s s' : Assembly ℤ} {log : List (TxPriority ℤ)} {p : TxPriority ℤ}
    (h : minerEnv.Run s₀ log s) (hheap : s.vecPriority = [p])
    (hs : minerEnv.body s p [] = .ok s') : minerEnv.Run s₀ (log ++ [p]) s' := by
  refine .snoc h (by rw [hheap]) ?_ hs
  intro q hq
  rw [hheap, List.mem_singleton] at hq
  rw [hq]
  exact less_self _ p

lemma minerRun_isRun {s : Assembly ℤ} (h : minerRun = .ok s) :
    ∃ m log, minerEnv.scan coinView minerPool = .ok m ∧ minerEnv.Run (minerEnv.start m) log s := by
  simp only [minerRun, bind_eq_ok] at h
  obtain ⟨m, hscan, h⟩ := h
  split at h
  · next p hp =>
    simp only [bind_eq_ok] at h
    obtain ⟨s₁, h1, h⟩ := h
    split at h
    · next q hq => exact ⟨m, _, hscan, run_one (run_one .nil hp h1) hq h⟩
    · cases h
  · cases h

lemma minerPool_ok : minerEnv.PoolOk coinView.coins minerPool := by
  have hcases : ∀ tx ∈ minerEnv.candidates minerPool, tx = onwardTx ∨ tx = payTx := by
    intro tx htx
    simpa [minerPool] using List.mem_of_mem_filter htx
  refine ⟨by decide, ?_, ?_, ?_⟩
  · intro tx htx
    rcases hcases tx htx with rfl | rfl
    · exact ⟨by decide, by decide, by decide, by decide, by decide, by decide⟩
    · exact ⟨by decide, by decide, by decide, by decide, by decide, by decide⟩
  · intro tx htx n _
    rw [coinView_coins]
    refine if_neg fun heq => ?_
    have hhash : tx.hash = 20 := congrArg COutPoint.hash heq
    rcases hcases tx htx with rfl | rfl <;> revert hhash <;> decide
  · intro tx htx txin ht hnone
    rw [coinView_coins] at hnone
    rcases hcases tx htx with rfl | rfl
    · obtain rfl := List.mem_singleton.mp ht
      exact ⟨entryOf payTx, Finmap.lookup_insert _, by decide⟩
    · obtain rfl := List.mem_singleton.mp ht
      simp at hnone

end Concrete

end Agenor
