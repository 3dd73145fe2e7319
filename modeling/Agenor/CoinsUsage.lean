import Agenor.Coins
import Agenor.Lib.Tally
import Mathlib.Data.BitVec

/-!
The memory counter of the coins cache: `cachedCoinsUsage` against the coins in `cacheCoins`.

Every operation of `CCoinsViewCache` takes off the counter what the coins it removes use and puts on
what those it stores use. Two paths leave by an exception with this half done: `AddCoin` takes the
old coin off before it refuses to replace it, and when the base throws in the middle of a `Flush`,
it has already removed entries from the map of the cache, which nobody takes off.
-/

namespace Agenor

open Lib

/-- `memusage::MallocUsage` with pointers of eight bytes. -/
def mallocUsage (alloc : BitVec 64) : BitVec 64 :=
  if alloc = 0 then 0 else ((alloc + 31) >>> 4) <<< 4

/-- `Coin::DynamicMemoryUsage`: scripts of up to 28 bytes are stored in place. -/
def Coin.dynamicMemoryUsage (c : Coin) : BitVec 64 :=
  let size := c.out.scriptPubKey.length
  mallocUsage (if size ≤ 28 then 0 else BitVec.ofNat 64 size)

@[simp] lemma Coin.dynamicMemoryUsage_empty : Coin.empty.dynamicMemoryUsage = 0 := rfl

/-- What the coin of an entry uses. -/
def CCoinsCacheEntry.usage (e : CCoinsCacheEntry) : BitVec 64 := e.coin.dynamicMemoryUsage

/-- A `CCoinsViewCache` with its counter. -/
structure CoinsCache where
  cacheCoins : CCoinsMap
  cachedCoinsUsage : BitVec 64

/-- What a cache is on top of, as far as a `Flush` notices. -/
inductive CoinsBase
  | db
  | cache (parent : CoinsCache)

namespace CoinsCache

def initial : CoinsCache := ⟨∅, 0⟩

/-! ### The operations -/

def fetchCoin (s : CoinsCache) (o : COutPoint) (low : Option Coin) : CoinsCache where
  cacheCoins := s.cacheCoins.fetchCoin o low
  cachedCoinsUsage := match s.cacheCoins.lookup o, low with
    | none, some c => s.cachedCoinsUsage + c.dynamicMemoryUsage
    | _, _ => s.cachedCoinsUsage

def addCoin (s : CoinsCache) (o : COutPoint) (coin : Coin) (possible_overwrite : Bool) :
    CoinsCache × Check Unit :=
  if coin.isSpent then (s, .error .assertion)
  else if Script.isUnspendable coin.out.scriptPubKey then (s, .ok ())
  else
    let inserted := (s.cacheCoins.lookup o).isNone
    let it := (s.cacheCoins.lookup o).getD ⟨Coin.empty, false, false⟩
    -- the old coin is taken off before it is known whether it may be replaced
    let cachedCoinsUsage :=
      if !inserted then s.cachedCoinsUsage - it.coin.dynamicMemoryUsage else s.cachedCoinsUsage
    if !possible_overwrite && !it.coin.isSpent then
      ({ s with cachedCoinsUsage },
        .error (.throws "Adding new coin that replaces non-pruned entry"))
    else
      let fresh := !possible_overwrite && !it.dirty
      (⟨s.cacheCoins.insert o ⟨coin, true, it.fresh || fresh⟩,
        cachedCoinsUsage + coin.dynamicMemoryUsage⟩, .ok ())

def spendCoin (s : CoinsCache) (o : COutPoint) (low : Option Coin) : Option Coin × CoinsCache :=
  let s := s.fetchCoin o low
  match s.cacheCoins.lookup o with
  | none => (none, s)
  | some it =>
    (some it.coin,
      ⟨if it.fresh then s.cacheCoins.erase o else s.cacheCoins.insert o ⟨Coin.empty, true, false⟩,
        s.cachedCoinsUsage - it.coin.dynamicMemoryUsage⟩)

def uncache (s : CoinsCache) (o : COutPoint) : CoinsCache :=
  match s.cacheCoins.lookup o with
  | some it =>
    if !it.dirty && !it.fresh then
      ⟨s.cacheCoins.erase o, s.cachedCoinsUsage - it.coin.dynamicMemoryUsage⟩
    else s
  | none => s

/-- One pass of the loop of `BatchWrite`. -/
def batchWriteEntry (s : CoinsCache) (p : (_ : COutPoint) × CCoinsCacheEntry) :
    CoinsCache × Check Unit :=
  let ⟨o, it⟩ := p
  if it.dirty = false then (s, .ok ())
  else match s.cacheCoins.lookup o with
    | none =>
      if it.fresh && it.coin.isSpent then (s, .ok ())
      else (⟨s.cacheCoins.insert o ⟨it.coin, true, it.fresh⟩,
        s.cachedCoinsUsage + it.coin.dynamicMemoryUsage⟩, .ok ())
    | some itUs =>
      if it.fresh && !itUs.coin.isSpent then
        (s, .error (.throws
          "FRESH flag misapplied to cache entry for base transaction with spendable outputs"))
      else if itUs.fresh && it.coin.isSpent then
        (⟨s.cacheCoins.erase o, s.cachedCoinsUsage - itUs.coin.dynamicMemoryUsage⟩, .ok ())
      else (⟨s.cacheCoins.insert o ⟨it.coin, true, itUs.fresh⟩, s.cachedCoinsUsage -
        itUs.coin.dynamicMemoryUsage + it.coin.dynamicMemoryUsage⟩, .ok ())

/-- The loop of `BatchWrite`, which erases every entry it is done with from the map of the child. -/
def batchWriteLoop : CoinsCache → CCoinsMap → List ((_ : COutPoint) × CCoinsCacheEntry) →
    CoinsCache × CCoinsMap × Check Unit
  | s, mapCoins, [] => (s, mapCoins, .ok ())
  | s, mapCoins, p :: rest =>
    let (s, done) := s.batchWriteEntry p
    match done with
    | .ok _ => batchWriteLoop s (mapCoins.erase p.1) rest
    | .error e => (s, mapCoins, .error e)

/-- `BatchWrite`: the cache, what is left of the map of the child, and how the call ended. -/
def batchWrite (s : CoinsCache) (mapCoins : CCoinsMap) : CoinsCache × CCoinsMap × Check Unit :=
  batchWriteLoop s mapCoins mapCoins.entries

/-- `Flush`. The database takes all entries. -/
def flush (s : CoinsCache) (base : CoinsBase) : CoinsCache × Check Unit :=
  match base with
  | .db => (⟨∅, 0⟩, .ok ())
  | .cache parent =>
    match parent.batchWrite s.cacheCoins with
    | (_, _, .ok _) => (⟨∅, 0⟩, .ok ())
    | (_, cacheCoins, .error e) => ({ s with cacheCoins }, .error e)

/-! ### The map is the one without a counter -/

variable {s : CoinsCache} {o : COutPoint}

lemma addCoin_map (s : CoinsCache) (o : COutPoint) (coin : Coin) (overwrite : Bool) :
    s.cacheCoins.addCoin o coin overwrite =
      (s.addCoin o coin overwrite).2.map fun _ => (s.addCoin o coin overwrite).1.cacheCoins := by
  rw [CCoinsMap.addCoin, addCoin]
  cases hs : coin.isSpent with
  | true => rfl
  | false =>
    by_cases hu : Script.isUnspendable coin.out.scriptPubKey = true
    · simp [hu, Fallible.failIf, bind, Except.bind, pure, Except.pure, Except.map]
    · dsimp only
      by_cases hw : (!overwrite &&
          !((s.cacheCoins.lookup o).getD ⟨Coin.empty, false, false⟩).coin.isSpent) = true
      · simp [hu, hw, Fallible.failIf, bind, Except.bind, Except.map]
      · simp [hu, hw, Fallible.failIf, bind, Except.bind, pure, Except.pure, Except.map]

lemma spendCoin_map (s : CoinsCache) (o : COutPoint) (low : Option Coin) :
    (s.spendCoin o low).1 = (s.cacheCoins.spendCoin o low).1 ∧
      (s.spendCoin o low).2.cacheCoins = (s.cacheCoins.spendCoin o low).2 := by
  rw [spendCoin, CCoinsMap.spendCoin]
  dsimp only [fetchCoin]
  cases (s.cacheCoins.fetchCoin o low).lookup o <;> exact ⟨rfl, rfl⟩

lemma uncache_map (s : CoinsCache) (o : COutPoint) :
    (s.uncache o).cacheCoins = s.cacheCoins.uncache o := by
  rw [uncache, CCoinsMap.uncache]
  cases s.cacheCoins.lookup o with
  | none => rfl
  | some it =>
    dsimp only
    split_ifs <;> rfl

lemma batchWriteEntry_map (s : CoinsCache) (p : (_ : COutPoint) × CCoinsCacheEntry) :
    s.cacheCoins.batchWriteEntry p =
      (s.batchWriteEntry p).2.map fun _ => (s.batchWriteEntry p).1.cacheCoins := by
  obtain ⟨o, it⟩ := p
  simp only [CCoinsMap.batchWriteEntry, batchWriteEntry]
  cases s.cacheCoins.lookup o with
  | none =>
    dsimp only
    split_ifs <;> rfl
  | some itUs =>
    dsimp only
    split_ifs <;> rfl

lemma batchWriteLoop_map {l : List ((_ : COutPoint) × CCoinsCacheEntry)} {mapCoins m : CCoinsMap}
    (h : Fallible.loop CCoinsMap.batchWriteEntry s.cacheCoins l = .ok m) :
    (batchWriteLoop s mapCoins l).1.cacheCoins = m ∧
      (batchWriteLoop s mapCoins l).2.2 = .ok () := by
  induction l generalizing s mapCoins with
  | nil => exact ⟨Except.ok.inj h, rfl⟩
  | cons p l ih =>
    rw [Fallible.loop_cons, batchWriteEntry_map] at h
    rw [batchWriteLoop]
    generalize s.batchWriteEntry p = r at h ⊢
    obtain ⟨s', done⟩ := r
    cases done with
    | error e => cases h
    | ok u => exact ih h

/-! ### What one operation does to the counter -/

/-- The counter is what the coins in the map use. -/
def Exact (s : CoinsCache) : Prop :=
  s.cachedCoinsUsage = tally CCoinsCacheEntry.usage s.cacheCoins

lemma exact_initial : initial.Exact := rfl

section Exact

variable {it : CCoinsCacheEntry}

lemma Exact.insert (hs : s.Exact) (hm : s.cacheCoins.lookup o = none) (e : CCoinsCacheEntry) :
    Exact ⟨s.cacheCoins.insert o e, s.cachedCoinsUsage + e.coin.dynamicMemoryUsage⟩ := by
  have hs : s.cachedCoinsUsage = _ := hs
  rw [Exact, tally_insert, weightAt_of_none hm, sub_zero, ← hs]
  rfl

lemma Exact.replace (hs : s.Exact) (hm : s.cacheCoins.lookup o = some it) (e : CCoinsCacheEntry) :
    Exact ⟨s.cacheCoins.insert o e,
      s.cachedCoinsUsage - it.coin.dynamicMemoryUsage + e.coin.dynamicMemoryUsage⟩ := by
  have hs : s.cachedCoinsUsage = _ := hs
  rw [Exact, tally_insert, weightAt_of_some hm, ← hs]
  rfl

lemma Exact.erase (hs : s.Exact) (hm : s.cacheCoins.lookup o = some it) :
    Exact ⟨s.cacheCoins.erase o, s.cachedCoinsUsage - it.coin.dynamicMemoryUsage⟩ := by
  have hs : s.cachedCoinsUsage = _ := hs
  rw [Exact, tally_erase, weightAt_of_some hm, ← hs]
  rfl

end Exact

lemma exact_fetchCoin (hs : s.Exact) (o : COutPoint) (low : Option Coin) :
    (s.fetchCoin o low).Exact := by
  unfold fetchCoin CCoinsMap.fetchCoin
  cases hm : s.cacheCoins.lookup o with
  | some it => cases low <;> exact hs
  | none =>
    cases low with
    | none => exact hs
    | some c => exact hs.insert hm (.fetched c)

/-- A call of `AddCoin` that leaves the counter right: it does not refuse to replace a coin that
uses memory. -/
def AddsCleanly (s : CoinsCache) (o : COutPoint) (coin : Coin) (possible_overwrite : Bool) : Prop :=
  coin.isSpent = false → Script.isUnspendable coin.out.scriptPubKey = false →
    possible_overwrite = false → ∀ it, s.cacheCoins.lookup o = some it → it.coin.isSpent = false →
      it.coin.dynamicMemoryUsage = 0

lemma exact_addCoin_iff (hs : s.Exact) (o : COutPoint) (coin : Coin) (overwrite : Bool) :
    (s.addCoin o coin overwrite).1.Exact ↔ s.AddsCleanly o coin overwrite := by
  unfold addCoin AddsCleanly
  cases hspent : coin.isSpent with
  | true => simpa using hs
  | false =>
  cases hu : Script.isUnspendable coin.out.scriptPubKey with
  | true => simpa using hs
  | false =>
  cases hm : s.cacheCoins.lookup o with
  | none =>
    have hempty : Coin.empty.isSpent = true := rfl
    simp only [Option.getD_none, hempty, Bool.not_true, Bool.and_false]
    exact iff_of_true (hs.insert hm _) (by simp)
  | some it =>
    by_cases hthrow : overwrite = false ∧ it.coin.isSpent = false
    · -- the old coin has been taken off, and it stays
      have hsub : Exact { s with
          cachedCoinsUsage := s.cachedCoinsUsage - it.coin.dynamicMemoryUsage } ↔
          it.coin.dynamicMemoryUsage = 0 := by
        have hs : s.cachedCoinsUsage = _ := hs
        rw [Exact, ← hs, sub_eq_self]
      simpa [hthrow.1, hthrow.2] using hsub
    · have hnot : (!overwrite && !it.coin.isSpent) = false := by
        cases overwrite <;> simp_all
      simp only [Option.getD_some, hnot]
      refine iff_of_true (hs.replace hm _) fun _ _ hw it' hit' hspent' => ?_
      obtain rfl := Option.some.inj hit'
      exact absurd ⟨hw, hspent'⟩ hthrow

lemma exact_spendCoin (hs : s.Exact) (o : COutPoint) (low : Option Coin) :
    (s.spendCoin o low).2.Exact := by
  have hf := exact_fetchCoin hs o low
  unfold spendCoin
  dsimp only
  cases hm : (s.fetchCoin o low).cacheCoins.lookup o with
  | none => exact hf
  | some it =>
    cases hfresh : it.fresh with
    | true => simpa [hfresh] using hf.erase hm
    | false => simpa [hfresh] using hf.replace hm ⟨Coin.empty, true, false⟩

lemma exact_uncache (hs : s.Exact) (o : COutPoint) : (s.uncache o).Exact := by
  unfold uncache
  cases hm : s.cacheCoins.lookup o with
  | none => exact hs
  | some it =>
    dsimp only
    split_ifs
    · exact hs.erase hm
    · exact hs

/-! ### Writing a batch -/

/-- The entry of a child is FRESH although there is an unspent coin: `BatchWrite` throws. -/
def misapplied (s : CoinsCache) (p : (_ : COutPoint) × CCoinsCacheEntry) : Bool :=
  p.2.dirty && p.2.fresh && (s.cacheCoins.lookup p.1).any fun itUs => !itUs.coin.isSpent

lemma batchWriteEntry_spec (s : CoinsCache) (p : (_ : COutPoint) × CCoinsCacheEntry) :
    (s.Exact → (s.batchWriteEntry p).1.Exact) ∧
    ((s.batchWriteEntry p).2 = .ok () ↔ s.misapplied p = false) ∧
    ∀ o, o ≠ p.1 → (s.batchWriteEntry p).1.cacheCoins.lookup o = s.cacheCoins.lookup o := by
  obtain ⟨o, it⟩ := p
  unfold batchWriteEntry misapplied
  dsimp only
  by_cases hdirty : it.dirty = false
  · rw [if_pos hdirty, hdirty]
    exact ⟨id, by simp, fun _ _ => rfl⟩
  rw [if_neg hdirty]
  rw [Bool.not_eq_false] at hdirty
  cases hm : s.cacheCoins.lookup o with
  | none =>
    dsimp only
    split_ifs
    · exact ⟨id, by simp, fun _ _ => rfl⟩
    · exact ⟨fun hs => hs.insert hm _, by simp, fun _ hk => AList.lookup_insert_ne hk⟩
  | some itUs =>
    dsimp only
    split_ifs with hthrow hgone
    · exact ⟨id, by simp_all, fun _ _ => rfl⟩
    · exact ⟨fun hs => hs.erase hm, by simp_all, fun _ hk => AList.lookup_erase_ne hk⟩
    · exact ⟨fun hs => hs.replace hm _, by simp_all, fun _ hk => AList.lookup_insert_ne hk⟩

/-- The loop stops at the first misapplied flag. What stands before it has been taken from the map
of the child, the rest has not. -/
lemma batchWriteLoop_spec {l : List ((_ : COutPoint) × CCoinsCacheEntry)}
    {bad : (_ : COutPoint) × CCoinsCacheEntry → Bool} (s : CoinsCache) (mapCoins : CCoinsMap)
    (hbad : ∀ p ∈ l, s.misapplied p = bad p) (hl : mapCoins.entries = l) :
    (s.Exact → (s.batchWriteLoop mapCoins l).1.Exact) ∧
    ((s.batchWriteLoop mapCoins l).2.2 = .ok () ↔ ∀ p ∈ l, bad p = false) ∧
    (s.batchWriteLoop mapCoins l).2.1.entries = l.dropWhile fun p => !bad p := by
  induction l generalizing s mapCoins with
  | nil => exact ⟨id, by simp [batchWriteLoop], by simpa [batchWriteLoop] using hl⟩
  | cons p l ih =>
    obtain ⟨hexact, hok, hother⟩ := batchWriteEntry_spec s p
    obtain ⟨hp, hbad⟩ := List.forall_mem_cons.mp hbad
    rw [hp] at hok
    cases hmis : bad p with
    | true =>
      cases hdone : (s.batchWriteEntry p).2 with
      | ok u => exact absurd (hok.mp hdone) (by simp [hmis])
      | error e =>
        simp only [batchWriteLoop, hdone, List.forall_mem_cons, List.dropWhile_cons, hmis]
        exact ⟨hexact, by simp, by simpa using hl⟩
    | false =>
      have hnodup : (p :: l).NodupKeys := hl ▸ mapCoins.nodupKeys
      -- the other entries find what they would have found at first
      have hsame : ∀ q ∈ l, (s.batchWriteEntry p).1.misapplied q = bad q := by
        intro q hq
        have hne : q.1 ≠ p.1 := fun heq =>
          (List.nodupKeys_cons.mp hnodup).1 (heq ▸ List.mem_keys_of_mem hq)
        rw [← hbad q hq, misapplied, misapplied, hother _ hne]
      have hrest : (mapCoins.erase p.1).entries = l := by
        change mapCoins.entries.kerase p.1 = l
        rw [hl, List.kerase_cons_eq rfl]
      obtain ⟨hexact', hok', hleft⟩ := ih (s.batchWriteEntry p).1 (mapCoins.erase p.1) hsame hrest
      simp only [batchWriteLoop, hok.mpr hmis, List.forall_mem_cons, List.dropWhile_cons, hmis,
        Bool.not_false, if_true, true_and]
      exact ⟨fun hs => hexact' (hexact hs), hok', hleft⟩

lemma exact_batchWrite (hs : s.Exact) (mapCoins : CCoinsMap) : (s.batchWrite mapCoins).1.Exact :=
  (batchWriteLoop_spec s mapCoins (fun _ _ => rfl) rfl).1 hs

/-! ### Flushing -/

/-- A call of `Flush` that leaves the counter right: when the base throws, the coins that have been
handed to it before do not use memory. -/
def FlushesCleanly (s : CoinsCache) : CoinsBase → Prop
  | .db => True
  | .cache parent => (∃ p ∈ s.cacheCoins.entries, parent.misapplied p = true) →
    ((s.cacheCoins.entries.takeWhile fun p => !parent.misapplied p).map (·.2.usage)).sum = 0

lemma exact_flush_iff (hs : s.Exact) (base : CoinsBase) :
    (s.flush base).1.Exact ↔ s.FlushesCleanly base := by
  cases base with
  | db => exact iff_of_true rfl trivial
  | cache parent =>
    obtain ⟨-, hok, hleft⟩ := batchWriteLoop_spec parent s.cacheCoins (fun _ _ => rfl) rfl
    unfold flush FlushesCleanly batchWrite
    dsimp only
    generalize parent.batchWriteLoop s.cacheCoins s.cacheCoins.entries = r at hok hleft ⊢
    obtain ⟨us, left, done⟩ := r
    cases done with
    | ok u =>
      have hnone := hok.mp rfl
      refine iff_of_true rfl ?_
      rintro ⟨p, hp, hmis⟩
      rw [hnone p hp] at hmis
      cases hmis
    | error e =>
      have hsome : ∃ p ∈ s.cacheCoins.entries, parent.misapplied p = true := by
        by_contra hnone
        push Not at hnone
        have hall : ∀ p ∈ s.cacheCoins.entries, parent.misapplied p = false :=
          fun p hp => Bool.eq_false_iff.mpr (hnone p hp)
        cases hok.mpr hall
      have hs : s.cachedCoinsUsage = (s.cacheCoins.entries.map (·.2.usage)).sum := hs
      rw [← List.takeWhile_append_dropWhile (p := fun p => !parent.misapplied p)
        (l := s.cacheCoins.entries), List.map_append, List.sum_append] at hs
      simp only [hsome, forall_const]
      rw [Exact, tally, hleft, hs]
      exact add_eq_right

/-! ### Runs -/

end CoinsCache

/-- A call of a cache, with what its base answers. -/
inductive CoinsCall
  /-- `GetCoin`, `HaveCoin` and `AccessCoin`. -/
  | read (o : COutPoint) (low : Option Coin)
  | addCoin (o : COutPoint) (coin : Coin) (possible_overwrite : Bool)
  | spendCoin (o : COutPoint) (low : Option Coin)
  | batchWrite (mapCoins : CCoinsMap)
  | uncache (o : COutPoint)
  | flush (base : CoinsBase)

namespace CoinsCache

/-- The cache after a call that has returned or thrown. -/
def step (s : CoinsCache) : CoinsCall → CoinsCache
  | .read o low => s.fetchCoin o low
  | .addCoin o coin possible_overwrite => (s.addCoin o coin possible_overwrite).1
  | .spendCoin o low => (s.spendCoin o low).2
  | .batchWrite mapCoins => (s.batchWrite mapCoins).1
  | .uncache o => s.uncache o
  | .flush base => (s.flush base).1

/-- The call of a cache without a counter. -/
def mapStep (m : CCoinsMap) : CoinsCall → Check CCoinsMap
  | .read o low => .ok (m.fetchCoin o low)
  | .addCoin o coin possible_overwrite => m.addCoin o coin possible_overwrite
  | .spendCoin o low => .ok (m.spendCoin o low).2
  | .batchWrite mapCoins => m.batchWrite mapCoins
  | .uncache o => .ok (m.uncache o)
  | .flush .db => .ok ∅
  | .flush (.cache parent) => (parent.cacheCoins.batchWrite m).map fun _ => ∅

/-- A call that returns leaves the map that it leaves without a counter. -/
theorem step_map {s : CoinsCache} {call : CoinsCall} {m : CCoinsMap}
    (h : mapStep s.cacheCoins call = .ok m) : (s.step call).cacheCoins = m := by
  cases call with
  | read o low => exact Except.ok.inj h
  | addCoin o coin overwrite =>
    rw [mapStep, addCoin_map] at h
    cases hdone : (s.addCoin o coin overwrite).2 with
    | error e =>
      rw [hdone] at h
      cases h
    | ok u =>
      rw [hdone] at h
      exact Except.ok.inj h
  | spendCoin o low => exact (spendCoin_map s o low).2.trans (Except.ok.inj h)
  | batchWrite mapCoins => exact (batchWriteLoop_map h).1
  | uncache o => exact (uncache_map s o).trans (Except.ok.inj h)
  | flush base =>
    cases base with
    | db => exact Except.ok.inj h
    | cache parent =>
      rw [mapStep] at h
      cases hwrite : parent.cacheCoins.batchWrite s.cacheCoins with
      | error e =>
        rw [hwrite] at h
        cases h
      | ok m' =>
        have hdone : (batchWriteLoop parent s.cacheCoins s.cacheCoins.entries).2.2 = .ok () :=
          (batchWriteLoop_map hwrite).2
        rw [hwrite] at h
        rw [step, flush, batchWrite]
        generalize batchWriteLoop parent s.cacheCoins s.cacheCoins.entries = r at hdone ⊢
        obtain ⟨s', left, done⟩ := r
        obtain rfl : done = .ok () := hdone
        exact Except.ok.inj h

/-- The condition under which a call leaves the counter right. -/
def Cleanly (s : CoinsCache) : CoinsCall → Prop
  | .addCoin o coin possible_overwrite => s.AddsCleanly o coin possible_overwrite
  | .flush base => s.FlushesCleanly base
  | .read .. | .spendCoin .. | .batchWrite _ | .uncache _ => True

lemma exact_step_iff {s : CoinsCache} (hs : s.Exact) (call : CoinsCall) :
    (s.step call).Exact ↔ s.Cleanly call := by
  cases call with
  | read o low => exact iff_of_true (exact_fetchCoin hs o low) trivial
  | addCoin o coin overwrite => exact exact_addCoin_iff hs o coin overwrite
  | spendCoin o low => exact iff_of_true (exact_spendCoin hs o low) trivial
  | batchWrite mapCoins => exact iff_of_true (exact_batchWrite hs mapCoins) trivial
  | uncache o => exact iff_of_true (exact_uncache hs o) trivial
  | flush base => exact exact_flush_iff hs base

def after (calls : List CoinsCall) : CoinsCache := calls.foldl step initial

lemma after_snoc (calls : List CoinsCall) (call : CoinsCall) :
    after (calls ++ [call]) = (after calls).step call := by
  rw [after, List.foldl_append]
  rfl

end CoinsCache

open CoinsCache in
/-- **Memory accounting.** Over any sequence of calls, whether they return or throw, the counter is
what the cached coins use after every call exactly when no `AddCoin` refuses to replace a coin that
uses memory and no `Flush` is cut short after coins that use memory. -/
theorem cachedCoinsUsage_exact_iff (calls : List CoinsCall) :
    (∀ done, done <+: calls → (after done).Exact) ↔
      ∀ done call, done ++ [call] <+: calls → (after done).Cleanly call := by
  constructor
  · intro h done call hpre
    have hnext := h _ hpre
    rw [after_snoc] at hnext
    exact (exact_step_iff (h _ ((List.prefix_append done [call]).trans hpre)) call).mp hnext
  · intro h done
    induction done using List.reverseRecOn with
    | nil => exact fun _ => exact_initial
    | append_singleton done call ih =>
      intro hpre
      rw [after_snoc]
      exact (exact_step_iff (ih ((List.prefix_append done [call]).trans hpre)) call).mpr
        (h done call hpre)

namespace Concrete

/-- A coin that pays to a compressed public key: 35 bytes. -/
def payToPubKey : Coin :=
    ⟨⟨COIN, 33 :: List.replicate 33 2 ++ [Script.OP_CHECKSIG]⟩, 5, false, false⟩

end Concrete

open Concrete CoinsCache in
/-- A second coin for the same outpoint is refused, and the coin that stays is not counted any
more. -/
theorem refused_coin_not_counted :
    let o : COutPoint := ⟨7, 0⟩
    let s := after [.addCoin o payToPubKey false, .addCoin o payToPubKey false]
    s.cachedCoinsUsage = 0 ∧ tally CCoinsCacheEntry.usage s.cacheCoins = 64 ∧ ¬ s.Exact := by
  refine ⟨by decide, by decide, ?_⟩
  rw [Exact]
  decide

end Agenor
