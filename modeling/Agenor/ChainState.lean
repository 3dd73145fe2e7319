import Agenor.Ledger
import Agenor.CoinsStack
import Mathlib.Logic.Relation

/-!
The chain state of a node, and the steps that change it: `ConnectTip` and `DisconnectTip`, whether
they succeed or not, and the upkeep of the coins cache between them (`main.cpp`).

Both work on a new cache over `pcoinsTip`, which is flushed when they succeed and dropped when they
do not. The globals are changed in place, so what a failed call has written to them stays.
-/

namespace Agenor

open Lib.Wrap Lib.Fallible

/-! ### A property of every coin, in a stack of caches -/

namespace CoinsStack

variable {P : COutPoint → Coin → Prop} {db : CCoinsViewDB} {l : List CCoinsMap}

/-- Every coin in the layers and in the database has the property. -/
structure Every (P : COutPoint → Coin → Prop) (s : CoinsStack) : Prop where
  layers : ∀ m ∈ s.layers, m.Every P
  db : ∀ o c, s.db.getCoin o = some c → P o c

lemma Every.getCoinFrom (hl : ∀ m ∈ l, m.Every P) (hdb : ∀ o c, db.getCoin o = some c → P o c)
    (o : COutPoint) :
    (∀ d, (getCoinFrom db o l).1 = some d → P o d) ∧ ∀ m ∈ (getCoinFrom db o l).2, m.Every P := by
  induction l with
  | nil => exact ⟨hdb o, by simp [CoinsStack.getCoinFrom]⟩
  | cons m rest ih =>
    have hm := hl m (by simp)
    have hrest : ∀ m ∈ rest, m.Every P := fun t ht => hl t (by simp [ht])
    unfold CoinsStack.getCoinFrom
    cases hlook : m.lookup o with
    | some it =>
      refine ⟨?_, hl⟩
      intro d hd
      obtain rfl := Option.some.inj hd
      exact hm o it hlook
    | none =>
      obtain ⟨h1, h2⟩ := ih hrest
      have hf := hm.fetchCoin h1
      refine ⟨?_, ?_⟩
      · intro d hd
        obtain ⟨it, hit, rfl⟩ := Option.map_eq_some_iff.mp hd
        exact hf o it hit
      · intro t ht
        rcases List.mem_cons.mp ht with rfl | ht
        · exact hf
        · exact h2 t ht

lemma Every.batchWriteDB {child : CCoinsMap} (hc : child.Every P)
    (hdb : ∀ o c, db.getCoin o = some c → P o c) :
    ∀ o c, (db.batchWrite child).getCoin o = some c → P o c := by
  have key : ∀ (l : List ((_ : COutPoint) × CCoinsCacheEntry)) (d : CCoinsViewDB),
      (∀ p ∈ l, P p.1 p.2.coin) → (∀ o c, d.getCoin o = some c → P o c) →
      ∀ o c, (l.foldl CCoinsViewDB.batchWriteEntry d).getCoin o = some c → P o c := by
    intro l
    induction l with
    | nil => exact fun d _ hd => hd
    | cons p l ih =>
      intro d hl hd
      refine ih _ (fun q hq => hl q (by simp [hq])) ?_
      intro o c hoc
      simp only [CCoinsViewDB.batchWriteEntry] at hoc
      split at hoc
      · by_cases ho : o = p.1
        · subst ho
          rw [Function.update_self] at hoc
          obtain ⟨rfl, -⟩ := Coin.eq_of_live_eq_some hoc
          exact hl p (by simp)
        · rw [Function.update_of_ne ho] at hoc
          exact hd o c hoc
      · exact hd o c hoc
  refine key child.entries db ?_ hdb
  intro p hp
  exact hc p.1 p.2 (AList.mem_lookup_iff.mpr hp)

lemma Every.flushFrom {r : List CCoinsMap × CCoinsViewDB} (hl : ∀ m ∈ l, m.Every P)
    (hdb : ∀ o c, db.getCoin o = some c → P o c) (h : flushFrom db l = .ok r) :
    (∀ m ∈ r.1, m.Every P) ∧ ∀ o c, r.2.getCoin o = some c → P o c := by
  cases l with
  | nil =>
    cases h
    exact ⟨by simp, hdb⟩
  | cons m rest =>
    cases rest with
    | nil =>
      cases h
      exact ⟨by simp [CCoinsMap.every_empty], Every.batchWriteDB (hl m (by simp)) hdb⟩
    | cons parent rest =>
      simp only [CoinsStack.flushFrom, bind_eq_ok, pure_eq_ok] at h
      obtain ⟨p', hp, rfl⟩ := h
      refine ⟨?_, hdb⟩
      have hp' := (hl parent (by simp)).batchWrite (hl m (by simp)) hp
      intro t ht
      simp only [List.mem_cons] at ht
      rcases ht with rfl | rfl | ht
      · exact CCoinsMap.every_empty
      · exact hp'
      · exact hl t (by simp [ht])

/-- What happens to `pcoinsTip` between blocks: reads, evictions and writes to the database. -/
def Op.isUpkeep : Op → Bool
  | .getCoin .. | .haveCoin .. | .accessCoin .. | .uncache .. | .flush _ => true
  | .addCoin .. | .spendCoin _ | .newChild => false

lemma every_take_append {s : CoinsStack} (hs : s.Every P) {i : ℕ} {r : List CCoinsMap}
    {db' : CCoinsViewDB} (hr : ∀ m ∈ r, m.Every P)
    (hdb : ∀ o c, db'.getCoin o = some c → P o c) : Every P ⟨s.layers.take i ++ r, db'⟩ := by
  refine ⟨?_, hdb⟩
  intro m hm
  rcases List.mem_append.mp hm with hm | hm
  · exact hs.layers m (List.mem_of_mem_take hm)
  · exact hr m hm

lemma Every.step {s s' : CoinsStack} {op : Op} {a : Answer} (hs : s.Every P)
    (hop : op.isUpkeep = true) (h : s.step op = .ok (a, s')) : s'.Every P := by
  have hdrop : ∀ i, ∀ m ∈ s.layers.drop i, m.Every P := fun i m hm =>
    hs.layers m (List.mem_of_mem_drop hm)
  cases op with
  | addCoin o c w => cases hop
  | spendCoin o => cases hop
  | newChild => cases hop
  | getCoin i o =>
    cases h
    exact every_take_append hs (Every.getCoinFrom (hdrop i) hs.db o).2 hs.db
  | haveCoin i o =>
    cases h
    exact every_take_append hs (Every.getCoinFrom (hdrop i) hs.db o).2 hs.db
  | accessCoin i o =>
    cases h
    exact every_take_append hs (Every.getCoinFrom (hdrop i) hs.db o).2 hs.db
  | uncache i o =>
    cases h
    refine every_take_append hs ?_ hs.db
    intro m hm
    have hdi := hdrop i
    cases hl : s.layers.drop i with
    | nil => simp [hl, uncacheFrom] at hm
    | cons t rest =>
      rw [hl] at hm hdi
      simp only [uncacheFrom, List.mem_cons] at hm
      rcases hm with rfl | hm
      · exact (hdi t (by simp)).uncache
      · exact hdi m (by simp [hm])
  | flush i =>
    simp only [CoinsStack.step, bind_eq_ok, pure_eq_ok, Prod.mk.injEq] at h
    obtain ⟨r, hr, -, rfl⟩ := h
    obtain ⟨h1, h2⟩ := Every.flushFrom (hdrop i) hs.db hr
    exact every_take_append hs h1 h2

end CoinsStack

/-! ### The state and its steps -/

structure ChainState where
  /-- `pcoinsTip` over the coin database. -/
  coins : CoinsStack
  bestBlock : Uint256
  global : Global
  /-- The active chain, the tip first. -/
  chain : List CBlockIndex

namespace ChainState

/-- `CCoinsViewCache view(pcoinsTip)`. -/
def view (s : ChainState) : CCoinsViewCache :=
  .ofView ⟨fun o => (CoinsStack.getCoinFrom s.coins.db o s.coins.layers).1, s.bestBlock⟩

/-- `view.Flush()`. -/
def flush (s : ChainState) (v : CCoinsViewCache) : Check CoinsStack := do
  let r ← CoinsStack.flushFrom s.coins.db (v.cacheCoins :: s.coins.layers)
  return ⟨r.1.tail, r.2⟩

/-- The steps of a node of the network, over blocks behind their hashes. A block that is undone
uncleanly counts as not undone. -/
inductive Step (net : Network) (lib : Libzerocoin) (H : Hashes) : ChainState → ChainState → Prop
  /-- `ConnectTip` succeeds. -/
  | connect {s : ChainState} {node : Node} {block : CBlock} {pindex : CBlockIndex}
      {fAlreadyChecked : Bool} {v : CCoinsViewCache} {g : Global} {coins : CoinsStack}
      (hnode : H.Hosts net lib node) (hblock : H.Holds block) (hindex : pindex.hash = block.hash)
      (hgen : block.hash ≠ node.params.hashGenesisBlock)
      (hvouched : Vouched node block fAlreadyChecked)
      (hconnect : connectBlock node s.global block pindex s.view false fAlreadyChecked
        = .ok (v, g))
      (hflush : s.flush v = .ok coins) :
      Step net lib H s ⟨coins, v.getBestBlock, g, pindex :: s.chain⟩
  /-- `ConnectTip` fails. -/
  | connectFailed {s : ChainState} {node : Node} {block : CBlock} {pindex : CBlockIndex}
      {fAlreadyChecked : Bool} {f : Fault} {g : Global}
      (hnode : H.Hosts net lib node) (hblock : H.Holds block) (hindex : pindex.hash = block.hash)
      (hvouched : Vouched node block fAlreadyChecked)
      (hconnect : connectBlock node s.global block pindex s.view false fAlreadyChecked
        = .error (f, g)) (hreturn : f.isReturn = true) :
      Step net lib H s { s with global := g }
  /-- `DisconnectTip` succeeds. -/
  | disconnect {s : ChainState} {node : Node} {block : CBlock} {pindex : CBlockIndex}
      {chain : List CBlockIndex} {v : CCoinsViewCache} {g : Global} {coins : CoinsStack}
      (hnode : H.Hosts net lib node) (hblock : H.Holds block) (hindex : pindex.hash = block.hash)
      (hchain : s.chain = pindex :: chain)
      (hdisconnect : disconnectBlock node s.global block pindex s.view = .ok (true, v, g))
      (hflush : s.flush v = .ok coins) :
      Step net lib H s ⟨coins, v.getBestBlock, g, chain⟩
  /-- `DisconnectTip` fails. -/
  | disconnectFailed {s : ChainState} {node : Node} {block : CBlock} {pindex : CBlockIndex}
      {f : Fault} {g : Global}
      (hnode : H.Hosts net lib node) (hblock : H.Holds block) (hindex : pindex.hash = block.hash)
      (hdisconnect : disconnectBlock node s.global block pindex s.view = .error (f, g))
      (hreturn : f.isReturn = true) :
      Step net lib H s { s with global := g }
  /-- Something is read from, dropped from or written out of `pcoinsTip`. -/
  | upkeep {s : ChainState} {op : CoinsStack.Op} {a : CoinsStack.Answer} {coins : CoinsStack}
      (hop : op.isUpkeep = true) (hstep : s.coins.step op = .ok (a, coins)) :
      Step net lib H s { s with coins }

/-- All coins are genuine, all undo data fit their blocks, and the money supply is a machine
integer. -/
structure Sound (H : Hashes) (s : ChainState) : Prop where
  coins : s.coins.Every H.Genuine
  undo : ∀ h blockUndo, s.global.undo h = some blockUndo → H.Fits (H.vtxOf h) blockUndo
  money : int64 s.global.nMoneySupply = s.global.nMoneySupply

variable {H : Hashes} {s : ChainState}

lemma Sound.view (hs : s.Sound H) : s.view.Every H.Genuine := by
  refine ⟨CCoinsMap.every_empty, ?_⟩
  intro o c hc
  exact (CoinsStack.Every.getCoinFrom hs.coins.layers hs.coins.db o).1 c hc

lemma Sound.fits (hs : s.Sound H) {block : CBlock} {pindex : CBlockIndex}
    (hindex : pindex.hash = block.hash) (hb : H.Holds block) :
    ∀ blockUndo, s.global.undo pindex.hash = some blockUndo → H.Fits block.vtx blockUndo := by
  intro blockUndo h
  rw [← hb.vtx, ← hindex]
  exact hs.undo _ _ h

lemma Sound.flush (hs : s.Sound H) {v : CCoinsViewCache} (hv : v.Every H.Genuine)
    {coins : CoinsStack} (h : s.flush v = .ok coins) : coins.Every H.Genuine := by
  simp only [ChainState.flush, bind_eq_ok, pure_eq_ok] at h
  obtain ⟨r, hr, rfl⟩ := h
  obtain ⟨h1, h2⟩ := CoinsStack.Every.flushFrom (P := H.Genuine) (by
    intro m hm
    rcases List.mem_cons.mp hm with rfl | hm
    · exact hv.1
    · exact hs.coins.layers m hm) hs.coins.db hr
  exact ⟨fun m hm => h1 m (List.mem_of_mem_tail hm), h2⟩

end ChainState

end Agenor
