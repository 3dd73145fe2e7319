import Agenor.Coins
import Agenor.Lib.Patch

/-!
What `UpdateCoins` does to the unspent coins: a patch. The outpoints of the inputs are removed and
the spendable outputs are put, and the undo record holds what was removed.

`AddCoin` without `possible_overwrite` looks only at the entry in the cache. That it replaces no
unspent coin of the base is a promise of the caller, which is kept for a set of outpoints that the
view owns: those of them that are not in the cache are nowhere.
-/

namespace Agenor

open Lib Lib.WriteBack Lib.Fallible Lib.Patch

namespace CCoinsViewCache

variable {v v' : CCoinsViewCache} {S : COutPoint → Prop} {o : COutPoint}

/-- The view knows all there is about these outpoints. -/
def Owns (v : CCoinsViewCache) (S : COutPoint → Prop) : Prop :=
  ∀ o, S o → v.cacheCoins.lookup o = none → v.coins o = none

lemma Reads.owns (h : Reads v v') (hv : v.Owns S) : v'.Owns S := by
  intro o ho hl
  rw [h.coins]
  exact hv o ho (h.kept o hl)

/-! ### One coin -/

lemma addCoin_coherent {coin : Coin} {ow : Bool} (hv : v.Coherent)
    (hw : ow = false → v.coins o = none) (h : v.addCoin o coin ow = .ok v') : v'.Coherent := by
  simp only [addCoin, bind_eq_ok, pure_eq_ok] at h
  obtain ⟨m, hm, rfl⟩ := h
  rcases (CCoinsMap.addCoin_eq_ok hm).2 with ⟨-, rfl⟩ | ⟨-, hd⟩
  · exact hv
  · exact hd.coherent hv (coherent_put (hv o) coin hw)

lemma coins_none_of_addCoin {coin : Coin} (hv : v.Owns S) (ho : S o)
    (hu : Script.isUnspendable coin.out.scriptPubKey = false)
    (h : v.addCoin o coin false = .ok v') : v.coins o = none := by
  simp only [addCoin, CCoinsMap.addCoin, hu, bind_eq_ok, pure_eq_ok, failIf_eq_ok,
    Bool.false_eq_true, if_false, Bool.not_false, Bool.true_and, Bool.not_eq_eq_eq_not] at h
  obtain ⟨-, ⟨-, -, -, hspent, -⟩, -⟩ := h
  cases hl : v.cacheCoins.lookup o with
  | none => exact hv o ho hl
  | some it => simpa [coins, CCoinsMap.overlay, CCoinsMap.entry, hl] using hspent

lemma addCoin_owns {coin : Coin} {ow : Bool} (hv : v.Owns S)
    (h : v.addCoin o coin ow = .ok v') : v'.Owns S := by
  have hcoins := (addCoin_eq_ok h).2.2
  intro p hp hl
  simp only [addCoin, CCoinsMap.addCoin, bind_eq_ok, pure_eq_ok] at h
  obtain ⟨m, ⟨-, -, hm⟩, rfl⟩ := h
  split at hm
  · next hu =>
    cases hm
    exact hv p hp hl
  · next hu =>
    simp only [bind_eq_ok, pure_eq_ok] at hm
    obtain ⟨-, -, rfl⟩ := hm
    have hne : p ≠ o := by
      rintro rfl
      simp at hl
    simp only [AList.lookup_insert_ne hne] at hl
    rw [hcoins, if_neg hu, Function.update_of_ne hne]
    exact hv p hp hl

lemma spendCoin_eq (hv : v.Coherent) (o : COutPoint) :
    (v.spendCoin o).2.Coherent ∧ (v.spendCoin o).2.coins = Function.update v.coins o none ∧
      (v.spendCoin o).1.bind Coin.live = v.coins o := by
  obtain ⟨hover, hco⟩ := CCoinsMap.spendCoin_over hv (show (v.base.getCoin o).bind Coin.live
    = CCoinsMap.liveOf v.base.getCoin o from rfl)
  exact ⟨hco, hover, CCoinsMap.spendCoin_moved _ rfl⟩

lemma spendCoin_owns (hco : v.Coherent) (hv : v.Owns S) (o : COutPoint) :
    (v.spendCoin o).2.Owns S := by
  intro p hp hl
  rw [(spendCoin_eq hco o).2.1]
  by_cases hpo : p = o
  · subst hpo
    simp
  · rw [Function.update_of_ne hpo]
    refine hv p hp (CCoinsMap.kept_fetchCoin (o := o) (c := v.base.getCoin o) ?_)
    simp only [spendCoin, CCoinsMap.spendCoin] at hl
    split at hl
    · exact hl
    · next it hit =>
      split at hl
      · rwa [AList.lookup_erase_ne hpo] at hl
      · rwa [AList.lookup_insert_ne hpo] at hl

end CCoinsViewCache

/-! ### One transaction -/

namespace CTransaction

/-- The inputs that are taken from the unspent coins. -/
def coinInputs (tx : CTransaction) : List CTxIn :=
  if !tx.isCoinBase && !tx.hasZerocoinSpendInputs then tx.vin else []

/-- The coins of some outputs, without those that can never be spent. -/
def createdFrom (tx : CTransaction) (nHeight : ℤ) (l : List (CTxOut × ℕ)) :
    List (COutPoint × Coin) :=
  (l.filter fun p => !Script.isUnspendable p.1.scriptPubKey).map fun p =>
    (⟨tx.hash, p.2⟩, ⟨p.1, nHeight, tx.isCoinBase, tx.isCoinStake⟩)

/-- The coins that a transaction creates. -/
def created (tx : CTransaction) (nHeight : ℤ) : List (COutPoint × Coin) :=
  tx.createdFrom nHeight tx.vout.zipIdx

variable {tx : CTransaction} {nHeight : ℤ}

lemma created_nodup (tx : CTransaction) (nHeight : ℤ) :
    ((tx.created nHeight).map Prod.fst).Nodup := by
  have hidx : ((tx.vout.zipIdx.filter fun p => !Script.isUnspendable p.1.scriptPubKey).map
      Prod.snd).Nodup :=
    (List.nodup_zipIdx_map_snd tx.vout).sublist (List.filter_sublist.map _)
  have hinj : Function.Injective fun n => COutPoint.mk tx.hash n := by
    intro a b hab
    exact congrArg COutPoint.n hab
  have hmap := hidx.map hinj
  rw [List.map_map] at hmap
  rw [created, createdFrom, List.map_map]
  exact hmap

lemma mem_created {p : COutPoint × Coin} (h : p ∈ tx.created nHeight) :
    (∃ n < tx.vout.length, p.1 = ⟨tx.hash, n⟩) ∧ p.2.nHeight = nHeight ∧
      Script.isUnspendable p.2.out.scriptPubKey = false := by
  simp only [created, createdFrom, List.mem_map, List.mem_filter] at h
  obtain ⟨⟨out, n⟩, ⟨hmem, hu⟩, rfl⟩ := h
  have hlt := (List.mem_zipIdx hmem).2.1
  exact ⟨⟨n, by simpa using hlt, rfl⟩, rfl, by simpa using hu⟩

end CTransaction

namespace CCoinsViewCache

variable {v v' : CCoinsViewCache} {S : COutPoint → Prop} {tx : CTransaction} {nHeight : ℤ}

lemma addCoins_loop {l : List (CTxOut × ℕ)} (hco : v.Coherent) (hv : v.Owns S)
    (hS : ∀ p ∈ l, S ⟨tx.hash, p.2⟩)
    (h : loop (fun v p => v.addCoin ⟨tx.hash, p.2⟩
      ⟨p.1, nHeight, tx.isCoinBase, tx.isCoinStake⟩ false) v l = .ok v') :
    v'.Coherent ∧ v'.Owns S ∧ v'.coins = putAll v.coins (tx.createdFrom nHeight l) ∧
      (∀ p ∈ tx.createdFrom nHeight l, v.coins p.1 = none ∧ p.2.isSpent = false) := by
  induction l generalizing v with
  | nil =>
    simp only [loop_nil, Except.ok.injEq] at h
    subst h
    exact ⟨hco, hv, rfl, by simp [CTransaction.createdFrom]⟩
  | cons p l ih =>
    simp only [loop_cons, bind_eq_ok] at h
    obtain ⟨v₁, h1, h⟩ := h
    have hrest : ∀ q ∈ l, S ⟨tx.hash, q.2⟩ := fun q hq => hS q (List.mem_cons_of_mem _ hq)
    obtain ⟨hs, -, hcoins⟩ := addCoin_eq_ok h1
    by_cases hu : Script.isUnspendable p.1.scriptPubKey = true
    · -- nothing is added for an output that can never be spent
      rw [if_pos hu] at hcoins
      have hco₁ : v₁.Coherent := by
        simp only [addCoin, CCoinsMap.addCoin, hu, bind_eq_ok, pure_eq_ok, if_true] at h1
        obtain ⟨m, ⟨-, -, rfl⟩, rfl⟩ := h1
        exact hco
      obtain ⟨i1, i2, i3, i4⟩ := ih hco₁ (addCoin_owns hv h1) hrest h
      have hskip : tx.createdFrom nHeight (p :: l) = tx.createdFrom nHeight l := by
        simp [CTransaction.createdFrom, hu]
      rw [hskip, ← hcoins]
      exact ⟨i1, i2, i3, i4⟩
    · rw [if_neg hu] at hcoins
      have hnone := coins_none_of_addCoin hv (hS p (by simp)) (by simpa using hu) h1
      obtain ⟨i1, i2, i3, i4⟩ := ih (addCoin_coherent hco (fun _ => hnone) h1)
        (addCoin_owns hv h1) hrest h
      have hcons : tx.createdFrom nHeight (p :: l) = (⟨tx.hash, p.2⟩,
          ⟨p.1, nHeight, tx.isCoinBase, tx.isCoinStake⟩) :: tx.createdFrom nHeight l := by
        simp [CTransaction.createdFrom, hu]
      rw [hcons]
      refine ⟨i1, i2, by rw [putAll_cons, i3, hcoins], ?_⟩
      intro q hq
      rcases List.mem_cons.mp hq with rfl | hq
      · exact ⟨hnone, hs⟩
      · obtain ⟨hq1, hq2⟩ := i4 q hq
        refine ⟨?_, hq2⟩
        rw [hcoins] at hq1
        by_cases hk : q.1 = ⟨tx.hash, p.2⟩
        · rw [hk, Function.update_self] at hq1
          cases hq1
        · rwa [Function.update_of_ne hk] at hq1

lemma spendInputs_eq {vin : List CTxIn} (hco : v.Coherent) (hv : v.Owns S)
    (hnodup : (vin.map (·.prevout)).Nodup)
    (hin : ∀ txin ∈ vin, (v.coins txin.prevout).isSome) :
    (v.spendInputs vin).2.Coherent ∧ (v.spendInputs vin).2.Owns S ∧
      (v.spendInputs vin).2.coins = removeAll v.coins (vin.map (·.prevout)) ∧
      (v.spendInputs vin).1.length = vin.length ∧
      ∀ p ∈ vin.zip (v.spendInputs vin).1, v.coins p.1.prevout = some p.2 := by
  induction vin generalizing v with
  | nil => exact ⟨hco, hv, rfl, rfl, by simp⟩
  | cons txin vin ih =>
    obtain ⟨hco₁, hcoins, hmoved⟩ := spendCoin_eq hco txin.prevout
    obtain ⟨hnot, hnodup⟩ := List.nodup_cons.mp hnodup
    have hkeep : ∀ t ∈ vin, (v.spendCoin txin.prevout).2.coins t.prevout = v.coins t.prevout := by
      intro t ht
      rw [hcoins, Function.update_of_ne]
      intro heq
      exact hnot (List.mem_map.mpr ⟨t, ht, heq⟩)
    obtain ⟨i1, i2, i3, i4, i5⟩ := ih hco₁ (spendCoin_owns hco hv txin.prevout) hnodup
      (fun t ht => by rw [hkeep t ht]; exact hin t (List.mem_cons_of_mem _ ht))
    refine ⟨i1, i2, ?_, by simp [spendInputs, i4], ?_⟩
    · rw [List.map_cons, removeAll_cons, ← hcoins]
      exact i3
    · intro p hp
      simp only [spendInputs, List.zip_cons_cons, List.mem_cons] at hp
      rcases hp with rfl | hp
      · obtain ⟨c, hc⟩ := Option.isSome_iff_exists.mp (hin txin (by simp))
        rw [hc, Option.bind_eq_some_iff] at hmoved
        obtain ⟨d, hd, hlive⟩ := hmoved
        obtain ⟨rfl, -⟩ := Coin.eq_of_live_eq_some hlive
        simp [hc, hd]
      · rw [← hkeep p.1 (List.of_mem_zip hp).1]
        exact i5 p hp

/-- **`UpdateCoins` as a patch.** -/
structure Patched (v : CCoinsViewCache) (tx : CTransaction) (nHeight : ℤ) (txundo : CTxUndo)
    (v' : CCoinsViewCache) : Prop where
  coherent : v'.Coherent
  coins : v'.coins = putAll (removeAll v.coins (tx.coinInputs.map (·.prevout)))
    (tx.created nHeight)
  fresh : ∀ p ∈ tx.created nHeight,
    removeAll v.coins (tx.coinInputs.map (·.prevout)) p.1 = none ∧ p.2.isSpent = false
  length : txundo.vprevout.length = tx.coinInputs.length
  undo : ∀ p ∈ tx.coinInputs.zip txundo.vprevout, v.coins p.1.prevout = some p.2

/-- What the undo record brings back, in the order in which it is brought back. -/
def undoList (tx : CTransaction) (txundo : CTxUndo) : List (COutPoint × Coin) :=
  (tx.coinInputs.zip txundo.vprevout).reverse.map fun p => (p.1.prevout, p.2)

lemma Patched.undoList_keys {txundo : CTxUndo} (h : v.Patched tx nHeight txundo v') :
    (undoList tx txundo).map Prod.fst = (tx.coinInputs.map (·.prevout)).reverse := by
  have hfst : (tx.coinInputs.zip txundo.vprevout).map Prod.fst = tx.coinInputs :=
    List.map_fst_zip (le_of_eq h.length.symm)
  calc (undoList tx txundo).map Prod.fst
      = ((tx.coinInputs.zip txundo.vprevout).map fun p => p.1.prevout).reverse := by
        rw [undoList, List.map_map, List.map_reverse]
        rfl
    _ = (((tx.coinInputs.zip txundo.vprevout).map Prod.fst).map (·.prevout)).reverse := by
        rw [List.map_map]
        rfl
    _ = (tx.coinInputs.map (·.prevout)).reverse := by rw [hfst]

/-- Without the created coins and with what the record brings back, the coins are those of
before. -/
lemma Patched.undone {txundo : CTxUndo} (h : v.Patched tx nHeight txundo v')
    (hnodup : (tx.coinInputs.map (·.prevout)).Nodup) :
    putAll (removeAll v'.coins ((tx.created nHeight).map Prod.fst)) (undoList tx txundo)
      = v.coins := by
  have hkeys := h.undoList_keys
  have hrem : removeAll v.coins ((undoList tx txundo).map Prod.fst)
      = removeAll v.coins (tx.coinInputs.map (·.prevout)) := by
    rw [hkeys, removeAll_reverse]
  rw [h.coins, ← hrem]
  refine putAll_removeAll_undo ?_ ?_ ?_
  · rw [hkeys]
    exact List.nodup_reverse.mpr hnodup
  · intro p hp
    obtain ⟨q, hq, rfl⟩ := List.mem_map.mp hp
    exact h.undo q (List.mem_reverse.mp hq)
  · rw [hrem]
    exact fun p hp => (h.fresh p hp).1

theorem updateCoins_patched {txundo : CTxUndo} (hco : v.Coherent) (hv : v.Owns S)
    (hS : ∀ n < tx.vout.length, S ⟨tx.hash, n⟩)
    (hnodup : (tx.coinInputs.map (·.prevout)).Nodup)
    (hin : ∀ txin ∈ tx.coinInputs, (v.coins txin.prevout).isSome)
    (h : v.updateCoins tx nHeight = .ok (txundo, v')) :
    v.Patched tx nHeight txundo v' ∧ v'.Owns S := by
  have hS' : ∀ p ∈ tx.vout.zipIdx, S ⟨tx.hash, p.2⟩ := by
    intro p hp
    have hlt := (List.mem_zipIdx (x := p.1) (i := p.2) hp).2.1
    exact hS p.2 (by simpa using hlt)
  simp only [updateCoins, bind_eq_ok, pure_eq_ok, Prod.mk.injEq] at h
  obtain ⟨v₁, ha, rfl, rfl⟩ := h
  by_cases hk : (!tx.isCoinBase && !tx.hasZerocoinSpendInputs) = true
  · have hci : tx.coinInputs = tx.vin := by
      unfold CTransaction.coinInputs
      rw [if_pos hk]
    rw [hci] at hnodup hin
    simp only [hk, if_true] at ha ⊢
    obtain ⟨j1, j2, j3, j4, j5⟩ := spendInputs_eq hco hv hnodup hin
    obtain ⟨i1, i2, i3, i4⟩ := addCoins_loop j1 j2 hS' ha
    refine ⟨⟨i1, ?_, ?_, ?_, ?_⟩, i2⟩
    · rw [hci, ← j3]
      exact i3
    · rw [hci, ← j3]
      exact i4
    · rw [hci]
      exact j4
    · rw [hci]
      exact j5
  · have hci : tx.coinInputs = [] := by
      unfold CTransaction.coinInputs
      rw [if_neg hk]
    simp only [hk] at ha ⊢
    obtain ⟨i1, i2, i3, i4⟩ := addCoins_loop hco hv hS' ha
    exact ⟨⟨i1, by rw [hci]; exact i3, by rw [hci]; exact i4, by simp [hci], by simp [hci]⟩, i2⟩

end CCoinsViewCache

end Agenor
