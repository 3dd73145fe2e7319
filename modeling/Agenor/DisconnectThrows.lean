import Agenor.UndoBlock

/-!
What `DisconnectBlock` does when the coins disagree with the block.

The three results are meant for that: a coin that is overwritten makes the result
`DISCONNECT_UNCLEAN`. But `ApplyTxInUndo` asks `AddCoin` not to overwrite, whatever it has found,
and `AddCoin` then throws. So an input whose coin is still there is never overwritten, and
`DisconnectBlock` comes back just as long as it comes to no such input.
-/

namespace Agenor

open Lib.Fallible Lib.Wrap

/-- The call comes back with a result: the fault that is one, `DISCONNECT_FAILED`, is `fail`. -/
def ComesBack {ε α : Type} (fault : ε → Fault) (x : Except ε α) : Prop :=
  ∀ e, x = .error e → fault e = .fail

/-- The coins of an undo record are unspent. -/
def CBlockUndo.WellFormed (blockUndo : CBlockUndo) : Prop :=
  ∀ txundo ∈ blockUndo.vtxundo, ∀ coin ∈ txundo.vprevout, coin.isSpent = false

/-- The height is missing, and no output of the transaction is there to take it from. -/
def NoMetadata (undo : Coin) (v : CCoinsViewCache) (out : COutPoint) : Prop :=
  undo.nHeight = 0 ∧ ∀ n < MAX_OUTPUTS_PER_BLOCK, v.coins ⟨out.hash, n⟩ = none

/-- The coin to restore is one that the view would keep, and the view has a coin there. -/
def Overwrites (undo : Coin) (v : CCoinsViewCache) (out : COutPoint) : Prop :=
  (v.coins out).isSome ∧ Script.isUnspendable undo.out.scriptPubKey = false ∧
    ¬ NoMetadata undo v out

variable {v v' : CCoinsViewCache} {undo : Coin} {out : COutPoint} {f : Fault}

/-! ### `ApplyTxInUndo` -/

lemma accessByTxidFrom_isSpent (v : CCoinsViewCache) (txid : Uint256) (n k : ℕ) :
    (accessByTxidFrom v txid n k).1.isSpent = true ↔
      ∀ m, n ≤ m → m < n + k → v.coins ⟨txid, m⟩ = none := by
  induction k generalizing v n with
  | zero =>
    refine ⟨fun _ m hn hm => ?_, fun _ => rfl⟩
    omega
  | succ k ih =>
    have hr := CCoinsViewCache.reads_accessCoin v ⟨txid, n⟩
    have hlive := CCoinsViewCache.accessCoin_live v ⟨txid, n⟩
    unfold accessByTxidFrom
    dsimp only
    rcases hs : (v.accessCoin ⟨txid, n⟩).1.isSpent with _ | _
    · rw [if_pos (Bool.not_false), hs]
      refine ⟨fun hspent => absurd hspent Bool.false_ne_true, fun hall => ?_⟩
      rw [hall n le_rfl (by omega), Coin.live_eq_none, hs] at hlive
      exact hlive
    · rw [if_neg (by simp), ih, hr.coins]
      constructor
      · intro hall m hn hm
        rcases hn.eq_or_lt with rfl | hlt
        · rw [← hlive, Coin.live_eq_none, hs]
        · exact hall m hlt (by omega)
      · exact fun hall m hn hm => hall m (by omega) (by omega)

lemma completeUndo_cases (undo : Coin) (v : CCoinsViewCache) (out : COutPoint) :
    completeUndo undo v out = .error .fail ∧ NoMetadata undo v out ∨
      ∃ undo' v', completeUndo undo v out = .ok (undo', v') ∧ ¬ NoMetadata undo v out ∧
        undo'.out = undo.out ∧ CCoinsViewCache.Reads v v' := by
  have hspent := accessByTxidFrom_isSpent v out.hash 0 MAX_OUTPUTS_PER_BLOCK
  by_cases hno : NoMetadata undo v out
  · refine .inl ⟨?_, hno⟩
    have hs : (accessByTxid v out.hash).1.isSpent = true :=
      hspent.mpr fun m _ hm => hno.2 m (by omega)
    simp [completeUndo, hno.1, hs]
  · refine .inr ?_
    have hok : ∃ r, completeUndo undo v out = .ok r := by
      unfold completeUndo
      split_ifs with hh
      · have hs : (accessByTxid v out.hash).1.isSpent = false := by
          rw [← Bool.not_eq_true]
          intro hs
          exact hno ⟨hh, fun n hn => hspent.mp hs n (Nat.zero_le n) (by omega)⟩
        simp [hs]
      · exact ⟨_, rfl⟩
    obtain ⟨⟨undo', v'⟩, hok⟩ := hok
    obtain ⟨hout, hr⟩ := completeUndo_eq_ok hok
    exact ⟨undo', v', hok, hno, hout, hr⟩

lemma addCoin_false_cases {coin : Coin} (hs : coin.isSpent = false)
    (hfetched : v.cacheCoins.lookup out = none → v.coins out = none) :
    Script.isUnspendable coin.out.scriptPubKey = true ∧ v.addCoin out coin false = .ok v ∨
      Script.isUnspendable coin.out.scriptPubKey = false ∧ (v.coins out).isSome ∧
        v.addCoin out coin false =
          .error (.throws "Adding new coin that replaces non-pruned entry") ∨
      Script.isUnspendable coin.out.scriptPubKey = false ∧ v.coins out = none ∧
        ∃ v', v.addCoin out coin false = .ok v' := by
  have hspent : ((v.cacheCoins.lookup out).getD ⟨Coin.empty, false, false⟩).coin.isSpent
      = !(v.coins out).isSome := by
    cases hl : v.cacheCoins.lookup out with
    | none =>
      rw [hfetched hl]
      rfl
    | some it =>
      simp [CCoinsViewCache.coins, CCoinsMap.overlay, CCoinsMap.entry, hl]
  unfold CCoinsViewCache.addCoin CCoinsMap.addCoin
  rcases hu : Script.isUnspendable coin.out.scriptPubKey with _ | _
  · rcases hv : (v.coins out).isSome with _ | _
    · refine .inr (.inr ⟨rfl, by simpa using hv, ?_⟩)
      simp [hs, hspent, hv, failIf, bind, Except.bind, pure, Except.pure]
    · refine .inr (.inl ⟨rfl, rfl, ?_⟩)
      simp [hs, hspent, hv, failIf, bind, Except.bind]
  · refine .inl ⟨rfl, ?_⟩
    simp [hs, failIf, bind, Except.bind, pure, Except.pure]

/-- **`ApplyTxInUndo`.** It fails without metadata, throws where a coin would be overwritten, and
else it returns; whether it has found a coin it says in any case. -/
theorem applyTxInUndo_cases (hs : undo.isSpent = false) (v : CCoinsViewCache) (out : COutPoint) :
    NoMetadata undo v out ∧ applyTxInUndo undo v out = .error .fail ∨
      Overwrites undo v out ∧ applyTxInUndo undo v out =
        .error (.throws "Adding new coin that replaces non-pruned entry") ∨
      ¬ NoMetadata undo v out ∧ ¬ Overwrites undo v out ∧
        ∃ v', applyTxInUndo undo v out = .ok (!(v.coins out).isSome, v') ∧
          ((v.coins out).isSome → v'.coins = v.coins) := by
  have hr := CCoinsViewCache.reads_haveCoin v out
  have hmeta : NoMetadata undo (v.haveCoin out).2 out ↔ NoMetadata undo v out := by
    rw [NoMetadata, NoMetadata, hr.coins]
  unfold applyTxInUndo
  rcases completeUndo_cases undo (v.haveCoin out).2 out with
    ⟨hfail, hno⟩ | ⟨undo', w, hok, hno, hout, hr'⟩
  · refine .inl ⟨hmeta.mp hno, ?_⟩
    simp [hfail, bind, Except.bind]
  · rw [hmeta] at hno
    have hcoins : w.coins = v.coins := hr'.coins.trans hr.coins
    have hs' : undo'.isSpent = false := by rwa [Coin.isSpent, hout]
    have hfetched : w.cacheCoins.lookup out = none → w.coins out = none := by
      intro hl
      have hl' := hr'.kept out hl
      rw [hcoins, ← CCoinsViewCache.lookup_fetchCoin v out]
      exact congrArg (fun it => it.bind fun e : CCoinsCacheEntry => e.coin.live) hl'
    rcases addCoin_false_cases hs' hfetched with
      ⟨hu, hadd⟩ | ⟨hu, hsome, hadd⟩ | ⟨hu, hnone, v', hadd⟩
    · rw [hout] at hu
      refine .inr (.inr ⟨hno, fun ho => absurd (hu.symm.trans ho.2.1) (by decide), w, ?_,
        fun _ => hcoins⟩)
      simp [hok, hadd, bind, Except.bind, pure, Except.pure]
    · rw [hout] at hu
      rw [hcoins] at hsome
      refine .inr (.inl ⟨⟨hsome, hu, hno⟩, ?_⟩)
      simp [hok, hadd, bind, Except.bind]
    · rw [hcoins] at hnone
      refine .inr (.inr ⟨hno, fun ho => ?_, v', ?_, fun hsome => ?_⟩)
      · rw [Overwrites, hnone] at ho
        exact absurd ho.1 (by decide)
      · simp [hok, hadd, bind, Except.bind, pure, Except.pure]
      · rw [hnone] at hsome
        exact absurd hsome (by decide)

/-! ### What comes back -/

section

variable {ε α β : Type} {fault : ε → Fault}

lemma comesBack_ok (a : α) : ComesBack fault (.ok a : Except ε α) := nofun

lemma comesBack_error {e : ε} : ComesBack fault (.error e : Except ε α) ↔ fault e = .fail :=
  ⟨fun h => h e rfl, fun h e' he => by cases he; exact h⟩

lemma comesBack_bind {x : Except ε α} {k : α → Except ε β} :
    ComesBack fault (x >>= k) ↔ ComesBack fault x ∧ ∀ a, x = .ok a → ComesBack fault (k a) := by
  constructor
  · intro h
    exact ⟨fun e he => h e (bind_eq_error.mpr (.inl he)),
      fun a ha e he => h e (bind_eq_error.mpr (.inr ⟨a, ha, he⟩))⟩
  · rintro ⟨hx, hk⟩ e he
    rcases bind_eq_error.mp he with he | ⟨a, ha, he⟩
    · exact hx e he
    · exact hk a ha e he

lemma comesBack_failIf {c : Bool} {e : ε} :
    ComesBack fault (failIf c e) ↔ c = true → fault e = .fail := by
  cases c <;> simp [ComesBack, failIf]

lemma comesBack_loop {σ : Type} {step : σ → α → Except ε σ} {l : List α} {s : σ} :
    ComesBack fault (loop step s l) ↔
      ∀ pre a post t, l = pre ++ a :: post → loop step s pre = .ok t →
        ComesBack fault (step t a) := by
  constructor
  · intro h pre a post t hl hpre e he
    exact h e (loop_eq_error.mpr ⟨pre, a, post, t, hl, hpre, he⟩)
  · intro h e he
    obtain ⟨pre, a, post, t, hl, hpre, ha⟩ := loop_eq_error.mp he
    exact h pre a post t hl hpre e ha

end

lemma comesBack_applyTxInUndo (hs : undo.isSpent = false) (v : CCoinsViewCache) (out : COutPoint) :
    ComesBack id (applyTxInUndo undo v out) ↔ ¬ Overwrites undo v out := by
  rcases applyTxInUndo_cases hs v out with ⟨hno, heq⟩ | ⟨ho, heq⟩ | ⟨-, hno, v', heq, -⟩
  · rw [heq, comesBack_error]
    exact ⟨fun _ ho => ho.2.2 hno, fun _ => rfl⟩
  · rw [heq, comesBack_error]
    exact ⟨nofun, fun hno => absurd ho hno⟩
  · rw [heq]
    exact ⟨fun _ => hno, fun _ => comesBack_ok _⟩

/-! ### The inputs of a transaction -/

/-- The view after the outputs of a transaction have been taken, and whether they matched. -/
def removeOutputs (tx : CTransaction) (s : Bool × CCoinsViewCache) : Bool × CCoinsViewCache :=
  tx.vout.zipIdx.foldl (removeOutput tx.hash) s

/-- The coins that are put back for the inputs, in their order, and the views they meet. -/
def RestoresAt (tx : CTransaction) (txundo : CTxUndo) (s : Bool × CCoinsViewCache)
    (p : CTxIn × Coin) (v : CCoinsViewCache) : Prop :=
  ∃ after before clean, (tx.vin.zip txundo.vprevout).reverse = after ++ p :: before ∧
    loop restoreInput s after = .ok (clean, v)

lemma comesBack_restoreInput {s : Bool × CCoinsViewCache} {p : CTxIn × Coin}
    (hs : p.2.isSpent = false) :
    ComesBack id (restoreInput s p) ↔ ¬ Overwrites p.2 s.2 p.1.prevout := by
  rw [restoreInput, comesBack_bind, comesBack_applyTxInUndo hs]
  exact and_iff_left fun a _ => comesBack_ok _

lemma comesBack_restoreLoop {tx : CTransaction} {txundo : CTxUndo} {s : Bool × CCoinsViewCache}
    (hundo : ∀ coin ∈ txundo.vprevout, coin.isSpent = false) :
    ComesBack id (loop restoreInput s (tx.vin.zip txundo.vprevout).reverse) ↔
      ∀ p v, RestoresAt tx txundo s p v → ¬ Overwrites p.2 v p.1.prevout := by
  have hspent : ∀ p ∈ (tx.vin.zip txundo.vprevout).reverse, p.2.isSpent = false := fun p hp =>
    hundo p.2 (List.of_mem_zip (List.mem_reverse.mp hp)).2
  rw [comesBack_loop]
  constructor
  · rintro h p v ⟨after, before, clean, hl, hafter⟩
    have hp := hspent p (hl ▸ List.mem_append_right _ List.mem_cons_self)
    exact (comesBack_restoreInput hp).mp (h after p before (clean, v) hl hafter)
  · intro h after p before t hl hafter
    have hp := hspent p (hl ▸ List.mem_append_right _ List.mem_cons_self)
    exact (comesBack_restoreInput hp).mpr (h p t.2 ⟨after, before, t.1, hl, hafter⟩)

/-- A transaction with inputs that are put back. -/
def Ordinary (tx : CTransaction) : Prop :=
  tx.isCoinBase = false ∧ tx.hasZerocoinSpendInputs = false

lemma mem_of_txUndo {blockUndo : CBlockUndo} {i : ℕ} {txundo : CTxUndo}
    (h : txUndo blockUndo i = .ok txundo) : txundo ∈ blockUndo.vtxundo := by
  unfold txUndo at h
  split at h
  · cases h
  · split at h
    · next hget =>
      cases h
      exact List.mem_of_getElem? hget
    · cases h

lemma txUndo_isOk {blockUndo : CBlockUndo} {i : ℕ} (hi : i ≠ 0)
    (hle : i ≤ blockUndo.vtxundo.length) :
    (txUndo blockUndo i).isOk := by
  obtain ⟨k, rfl⟩ := Nat.exists_eq_succ_of_ne_zero hi
  rw [txUndo, List.getElem?_eq_getElem hle]
  rfl

lemma comesBack_restoreInputs {blockUndo : CBlockUndo} (hundo : blockUndo.WellFormed)
    (s : DisconnectLoop) (tx : CTransaction) (i : ℕ) :
    ComesBack id (restoreInputs blockUndo s tx i) ↔
      (txUndo blockUndo i).isOk ∧ ∀ txundo, txUndo blockUndo i = .ok txundo →
        txundo.vprevout.length = tx.vin.length →
          ∀ p v, RestoresAt tx txundo (s.fClean, s.view) p v → ¬ Overwrites p.2 v p.1.prevout := by
  have hrecord : ComesBack id (txUndo blockUndo i) ↔ (txUndo blockUndo i).isOk := by
    unfold txUndo
    split
    · exact ⟨fun h => absurd (h _ rfl) (by decide), nofun⟩
    · split
      · exact ⟨fun _ => rfl, fun _ => comesBack_ok _⟩
      · exact ⟨fun h => absurd (h _ rfl) (by decide), nofun⟩
  rw [restoreInputs, comesBack_bind, hrecord]
  refine and_congr_right fun _ => forall₂_congr fun txundo hok => ?_
  have hspent : ∀ coin ∈ txundo.vprevout, coin.isSpent = false := hundo txundo (mem_of_txUndo hok)
  rw [comesBack_bind, ← comesBack_restoreLoop hspent]
  constructor
  · rintro ⟨-, hrest⟩ hlen
    exact (comesBack_bind.mp (hrest () (failIf_eq_ok.mpr (by simp [hlen])))).1
  · intro hrest
    refine ⟨comesBack_failIf.mpr fun _ => rfl, fun u hu => comesBack_bind.mpr
      ⟨hrest (by simpa using failIf_eq_ok.mp hu), fun r _ => ?_⟩⟩
    dsimp only
    split
    · exact comesBack_ok _
    · exact comesBack_ok _

lemma comesBack_disconnectTx {node : Node} {blockUndo : CBlockUndo} (hundo : blockUndo.WellFormed)
    (s : DisconnectLoop) (tx : CTransaction) (i : ℕ) :
    ComesBack Prod.fst (disconnectTx node blockUndo s (tx, i)) ↔
      ComesBack Prod.fst (disconnectZerocoinTx node tx s.nValueIn s.db) ∧
      ((disconnectZerocoinTx node tx s.nValueIn s.db).isOk → tx.getValueOut.isSome ∧
        (Ordinary tx → (txUndo blockUndo i).isOk ∧
          ∀ txundo, txUndo blockUndo i = .ok txundo → txundo.vprevout.length = tx.vin.length →
            ∀ p v, RestoresAt tx txundo (removeOutputs tx (s.fClean, s.view)) p v →
              ¬ Overwrites p.2 v p.1.prevout)) := by
  rw [disconnectTx, comesBack_bind]
  refine and_congr_right fun _ => ?_
  cases disconnectZerocoinTx node tx s.nValueIn s.db with
  | error e => simp [Except.isOk, Except.toBool]
  | ok r =>
    simp only [Except.ok.injEq, forall_eq', Except.isOk, Except.toBool, true_implies]
    unfold getValueOut
    cases tx.getValueOut with
    | none => simp [comesBack_error]
    | some valueOut =>
      simp only [Option.isSome_some, true_and]
      by_cases hord : Ordinary tx
      · rw [if_neg (by simp [hord.1, hord.2])]
        rw [forall_prop_of_true hord]
        refine Iff.trans ?_ (comesBack_restoreInputs hundo
          ⟨(removeOutputs tx (s.fClean, s.view)).1, r.1, int64 (s.nValueOut + valueOut), r.2,
            (removeOutputs tx (s.fClean, s.view)).2⟩ tx i)
        unfold removeOutputs
        cases restoreInputs blockUndo _ tx i with
        | error f =>
          rw [comesBack_error, comesBack_error]
          exact Iff.rfl
        | ok s => exact iff_of_true (comesBack_ok _) (comesBack_ok _)
      · rw [if_pos (by simpa [Ordinary, Bool.or_eq_true, imp_iff_not_or] using hord)]
        exact ⟨fun _ h => absurd h hord, fun _ => comesBack_ok _⟩

/-! ### `DisconnectBlock` -/

section

variable (node : Node) (g : Global) (block : CBlock) (pindex : CBlockIndex)
variable (view : CCoinsViewCache) (blockUndo : CBlockUndo)

/-- `DisconnectBlock` comes to its loop with these undo data. -/
def ComesToLoop : Prop :=
  pindex.hash = view.getBestBlock ∧ readUndo node g block pindex = .ok blockUndo ∧
    (updateZAgenorupplyDisconnect node block pindex.nHeight g.mapZerocoinSupply).isOk

/-- The state in which the loop starts. -/
def startLoop : DisconnectLoop := ⟨true, 0, 0, g.zerocoinDB, view⟩

/-- The loop comes to the transaction at place `i` in the state `s`: those after it are undone. -/
def ComesToTx (tx : CTransaction) (i : ℕ) (s : DisconnectLoop) : Prop :=
  ComesToLoop node g block pindex view blockUndo ∧
    ∃ after before, block.vtx.zipIdx.reverse = after ++ (tx, i) :: before ∧
      loop (disconnectTx node blockUndo) (startLoop g view) after = .ok s

/-- The loop comes to an input and the coin that is put back for it, and meets the view `v`. -/
def ComesToInput (p : CTxIn × Coin) (v : CCoinsViewCache) : Prop :=
  ∃ tx i s txundo, ComesToTx node g block pindex view blockUndo tx i s ∧ Ordinary tx ∧
    (disconnectZerocoinTx node tx s.nValueIn s.db).isOk ∧ tx.getValueOut.isSome ∧
    txUndo blockUndo i = .ok txundo ∧ txundo.vprevout.length = tx.vin.length ∧
    RestoresAt tx txundo (removeOutputs tx (s.fClean, s.view)) p v

/-- What has nothing to do with the coins: the block is the best one of the view and has a block
before it, its zerocoin parts can be read and its amounts are in range, and if its first transaction
is come to, it has no inputs to put back. -/
structure OthersComeBack : Prop where
  best : pindex.hash = view.getBestBlock
  supply : ∀ blockUndo, readUndo node g block pindex = .ok blockUndo → ComesBack Prod.fst
    (updateZAgenorupplyDisconnect node block pindex.nHeight g.mapZerocoinSupply)
  zerocoin : ∀ blockUndo tx i s, ComesToTx node g block pindex view blockUndo tx i s →
    ComesBack Prod.fst (disconnectZerocoinTx node tx s.nValueIn s.db)
  valueOut : ∀ blockUndo tx i s, ComesToTx node g block pindex view blockUndo tx i s →
    (disconnectZerocoinTx node tx s.nValueIn s.db).isOk → tx.getValueOut.isSome
  first : ∀ blockUndo tx s, ComesToTx node g block pindex view blockUndo tx 0 s →
    (disconnectZerocoinTx node tx s.nValueIn s.db).isOk → ¬ Ordinary tx
  previous : ∀ blockUndo s, ComesToLoop node g block pindex view blockUndo →
    loop (disconnectTx node blockUndo) (startLoop g view) block.vtx.zipIdx.reverse = .ok s →
      pindex.pprev.isSome

end

variable {node : Node} {g : Global} {block : CBlock} {pindex : CBlockIndex}
variable {view : CCoinsViewCache} {blockUndo : CBlockUndo}

lemma readUndo_eq_ok (h : readUndo node g block pindex = .ok blockUndo) :
    g.undo pindex.hash = some blockUndo ∧ blockUndo.vtxundo.length + 1 = block.vtx.length := by
  unfold readUndo at h
  split at h
  · cases h
  · next undo hundo =>
    simp only [bind_eq_ok, failIf_eq_ok, pure_eq_ok, bne_eq_false_iff_eq] at h
    obtain ⟨-, -, -, hlen, rfl⟩ := h
    exact ⟨hundo, hlen⟩

lemma comesBack_readUndo : ComesBack id (readUndo node g block pindex) := by
  unfold readUndo
  split
  · exact comesBack_error.mpr rfl
  · exact comesBack_bind.mpr ⟨comesBack_failIf.mpr fun _ => rfl, fun _ _ => comesBack_bind.mpr
      ⟨comesBack_failIf.mpr fun _ => rfl, fun _ _ => comesBack_ok _⟩⟩

lemma comesBack_disconnectBlock :
    ComesBack Prod.fst (disconnectBlock node g block pindex view) ↔
      pindex.hash = view.getBestBlock ∧
      ∀ blockUndo, readUndo node g block pindex = .ok blockUndo →
        ComesBack Prod.fst
          (updateZAgenorupplyDisconnect node block pindex.nHeight g.mapZerocoinSupply) ∧
        ((updateZAgenorupplyDisconnect node block pindex.nHeight g.mapZerocoinSupply).isOk →
          ComesBack Prod.fst
            (loop (disconnectTx node blockUndo) (startLoop g view) block.vtx.zipIdx.reverse) ∧
          ∀ s, loop (disconnectTx node blockUndo) (startLoop g view) block.vtx.zipIdx.reverse
            = .ok s → pindex.pprev.isSome) := by
  have hbest : ComesBack Prod.fst (failIf (pindex.hash != view.getBestBlock) (Fault.assertion, g)) ↔
      pindex.hash = view.getBestBlock := by
    simp [comesBack_failIf]
  rw [disconnectBlock, comesBack_bind, hbest]
  refine and_congr_right fun heq => ?_
  have hpass : failIf (pindex.hash != view.getBestBlock) (Fault.assertion, g) = .ok () :=
    failIf_eq_ok.mpr (by simp [heq])
  have hread : ComesBack Prod.fst (withGlobal g (readUndo node g block pindex)) := by
    rintro ⟨f, g'⟩ he
    exact comesBack_readUndo f (withGlobal_eq_error he).1
  simp only [hpass, comesBack_bind, hread, true_and, withGlobal_eq_ok, forall_const]
  refine forall₂_congr fun blockUndo hundo => ?_
  cases updateZAgenorupplyDisconnect node block pindex.nHeight g.mapZerocoinSupply with
  | error e => simp [comesBack_error, Except.isOk, Except.toBool]
  | ok m =>
    simp only [comesBack_ok, true_and, Except.isOk, Except.toBool, true_implies]
    unfold startLoop
    cases loop (disconnectTx node blockUndo) ⟨true, 0, 0, g.zerocoinDB, view⟩
      block.vtx.zipIdx.reverse with
    | error e => simp [comesBack_error]
    | ok s =>
      cases pindex.pprev with
      | none => simp [comesBack_error]
      | some pprev => simp [comesBack_ok, pure, Except.pure]

/-- **Undoing a block on coins that disagree with it.** An input whose coin is still there is never
overwritten: `ApplyTxInUndo` throws, or it leaves the coins as they are. `DisconnectBlock` comes
back with a result, as far as this depends on the coins, for just those views in which it comes to
no such input. -/
theorem disconnectBlock_comesBack_iff (node : Node) (g : Global) (block : CBlock)
    (pindex : CBlockIndex) (view : CCoinsViewCache)
    (hundo : ∀ blockUndo, g.undo pindex.hash = some blockUndo → blockUndo.WellFormed) :
    (ComesBack Prod.fst (disconnectBlock node g block pindex view) ↔
      OthersComeBack node g block pindex view ∧
        ∀ blockUndo p v, ComesToInput node g block pindex view blockUndo p v →
          ¬ Overwrites p.2 v p.1.prevout) ∧
    ∀ (undo : Coin) (v : CCoinsViewCache) (out : COutPoint), undo.isSpent = false →
      (ComesBack id (applyTxInUndo undo v out) ↔ ¬ Overwrites undo v out) ∧
      ((v.coins out).isSome → ∀ clean v', applyTxInUndo undo v out = .ok (clean, v') →
        clean = false ∧ v'.coins = v.coins) := by
  refine ⟨?_, fun undo v out hs => ⟨comesBack_applyTxInUndo hs v out, fun hsome clean v' hok => ?_⟩⟩
  · rw [comesBack_disconnectBlock]
    constructor
    · rintro ⟨hbest, hall⟩
      have htx : ∀ blockUndo tx i s, ComesToTx node g block pindex view blockUndo tx i s → _ :=
        fun blockUndo tx i s ⟨⟨_, hread, hok⟩, after, before, hl, hafter⟩ =>
          (comesBack_disconnectTx (hundo blockUndo (readUndo_eq_ok hread).1) s tx i).mp
            (comesBack_loop.mp ((hall blockUndo hread).2 hok).1 after (tx, i) before s hl hafter)
      refine ⟨⟨hbest, fun blockUndo hread => (hall blockUndo hread).1,
        fun blockUndo tx i s hreach => (htx blockUndo tx i s hreach).1,
        fun blockUndo tx i s hreach hz => ((htx blockUndo tx i s hreach).2 hz).1,
        fun blockUndo tx s hreach hz hord => ?_,
        fun blockUndo s ⟨_, hread, hok⟩ hs => ((hall blockUndo hread).2 hok).2 s hs⟩, ?_⟩
      · cases (((htx blockUndo tx 0 s hreach).2 hz).2 hord).1
      · rintro blockUndo p v ⟨tx, i, s, txundo, hreach, hord, hz, -, hrec, hsize, hat⟩
        exact (((htx blockUndo tx i s hreach).2 hz).2 hord).2 txundo hrec hsize p v hat
    · rintro ⟨hothers, hinputs⟩
      refine ⟨hothers.best, fun blockUndo hread => ⟨hothers.supply blockUndo hread, fun hok => ?_⟩⟩
      have hloop : ComesToLoop node g block pindex view blockUndo := ⟨hothers.best, hread, hok⟩
      obtain ⟨hget, hlen⟩ := readUndo_eq_ok hread
      refine ⟨comesBack_loop.mpr ?_, fun s hs => hothers.previous blockUndo s hloop hs⟩
      rintro after ⟨tx, i⟩ before s hl hafter
      have hreach : ComesToTx node g block pindex view blockUndo tx i s :=
        ⟨hloop, after, before, hl, hafter⟩
      refine (comesBack_disconnectTx (hundo blockUndo hget) s tx i).mpr
        ⟨hothers.zerocoin _ _ _ _ hreach, fun hz => ⟨hothers.valueOut _ _ _ _ hreach hz,
          fun hord => ⟨?_, fun txundo hrec hsize p v hat => ?_⟩⟩⟩
      · have hi : i ≠ 0 := by
          rintro rfl
          exact hothers.first _ _ _ hreach hz hord
        have hlt : i < block.vtx.length := by
          have hmem : (tx, i) ∈ block.vtx.zipIdx :=
            List.mem_reverse.mp (hl ▸ List.mem_append_right _ List.mem_cons_self)
          exact (List.getElem?_eq_some_iff.mp (List.mem_zipIdx_iff_getElem?.mp hmem)).1
        exact txUndo_isOk hi (by omega)
      · exact hinputs blockUndo p v ⟨tx, i, s, txundo, hreach, hord, hz,
          hothers.valueOut _ _ _ _ hreach hz, hrec, hsize, hat⟩
  · rcases applyTxInUndo_cases hs v out with ⟨-, heq⟩ | ⟨-, heq⟩ | ⟨-, -, w, heq, hkeep⟩
    · cases heq.symm.trans hok
    · cases heq.symm.trans hok
    · cases heq.symm.trans hok
      exact ⟨by rw [hsome]; rfl, hkeep hsome⟩

namespace Concrete

/-- The undo data of the block with the payment are on disk. -/
def payUndo : Global where
  __ := Global.initial
  undo := fun hash => if hash = secondIndex.hash then some ⟨[⟨[earlierCoin]⟩]⟩ else none

/-- A view at the second block that shows nothing, or what it is made from. -/
def secondView (getCoin : COutPoint → Option Coin) : CCoinsViewCache :=
  .ofView ⟨getCoin, secondIndex.hash⟩

lemma payUndo_wellFormed (blockUndo : CBlockUndo)
    (h : payUndo.undo secondIndex.hash = some blockUndo) : blockUndo.WellFormed := by
  cases h
  intro txundo htx coin hcoin
  obtain rfl := List.mem_singleton.mp htx
  obtain rfl := List.mem_singleton.mp hcoin
  rfl

end Concrete

open Concrete in
/-- Without the coin the payment can be undone, though its output is missing, too. -/
theorem disconnectBlock_comesBack_noCoins :
    OthersComeBack mainNode payUndo (secondBlock [coinBaseTx (50 * COIN), payTx]) secondIndex
      (secondView fun _ => none) ∧
    ∀ blockUndo p v, ComesToInput mainNode payUndo (secondBlock [coinBaseTx (50 * COIN), payTx])
      secondIndex (secondView fun _ => none) blockUndo p v → ¬ Overwrites p.2 v p.1.prevout := by
  have hok : (disconnectBlock mainNode payUndo (secondBlock [coinBaseTx (50 * COIN), payTx])
      secondIndex (secondView fun _ => none)).isOk = true := by decide +kernel
  refine (disconnectBlock_comesBack_iff mainNode payUndo _ secondIndex _ payUndo_wellFormed).1.mp ?_
  intro e he
  rw [he] at hok
  cases hok

open Concrete in
/-- With the coin that the payment has spent still there, undoing the block throws. -/
theorem disconnectBlock_throws_coinThere :
    ¬ ∀ (node : Node) (g : Global) (block : CBlock) (pindex : CBlockIndex) (view : CCoinsViewCache),
      (∀ blockUndo, g.undo pindex.hash = some blockUndo → blockUndo.WellFormed) →
      pindex.hash = view.getBestBlock → pindex.pprev.isSome →
      ComesBack Prod.fst (disconnectBlock node g block pindex view) := by
  intro hall
  have hrun : (match disconnectBlock mainNode payUndo
        (secondBlock [coinBaseTx (50 * COIN), payTx]) secondIndex
        (secondView fun o => if o = ⟨20, 0⟩ then some earlierCoin else none) with
      | .error (f, _) => some f
      | .ok _ => none) = some (.throws "Adding new coin that replaces non-pruned entry") := by
    decide +kernel
  have hback := hall mainNode payUndo (secondBlock [coinBaseTx (50 * COIN), payTx]) secondIndex
    (secondView fun o => if o = ⟨20, 0⟩ then some earlierCoin else none) payUndo_wellFormed rfl rfl
  split at hrun
  · next f g' heq =>
    cases hrun
    cases hback _ heq
  · cases hrun

end Agenor
