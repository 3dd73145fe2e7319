import Agenor.Lib.Eviction
import Agenor.MempoolLimits

/-!
`TrimToSize`, with the outpoints that it reports, and `mapDeltas`, which it never touches.

The loop takes the first entry by fee rate as long as the memory in use is over the limit. What it
removes makes room until the pool is empty; what `PrioritiseTransaction` has left in `mapDeltas`
stays. So the loop asks an empty index for its first entry just when that alone is over the limit.
-/

namespace Agenor

open Lib Lib.Eviction

/-! ### What is prioritised -/

/-- `mapDeltas`, without the deltas of priorities. -/
abbrev MapDeltas := Finmap fun _ : Uint256 => ℤ

/-- `PrioritiseTransaction`, which does not ask whether the transaction is in the pool. -/
def MapDeltas.prioritiseTransaction (mapDeltas : MapDeltas) (hash : Uint256) (nFeeDelta : ℤ) :
    MapDeltas :=
  mapDeltas.insert hash ((mapDeltas.lookup hash).getD 0 + nFeeDelta)

/-- The memory of `mapDeltas`, given that of an element. -/
def MemUsage.withDeltas (mu : MemUsage) (deltaNode : ℕ) (mapDeltas : MapDeltas) : MemUsage :=
  { mu with deltas := deltaNode * mapDeltas.keys.card }

namespace CTxMemPool

variable {mu : MemUsage} {m m' : CTxMemPool} {it : Uint256} {stage : SetEntries}
  {worst : CTxMemPool → Option Uint256}

/-! ### The loop -/

/-- The pool while it is trimmed, `pvNoSpendsRemaining`, and the sets that were removed, each with
the pool it was removed from. -/
structure Trimming where
  pool : CTxMemPool
  pvNoSpendsRemaining : List COutPoint
  stages : List (CTxMemPool × SetEntries)

/-- One pass: an entry goes with its descendants, and outpoints that nothing has to do with any more
are reported. -/
def Trimming.pass (mu : MemUsage) (t : Trimming) (it : Uint256) : Trimming :=
  let stage := t.pool.calculateDescendants it ∅
  let txn := (SetEntries.inOrder stage).filterMap fun it => (t.pool.mapTx.lookup it).map (·.tx)
  let pool := t.pool.removeStaged mu stage
  { pool := pool
    pvNoSpendsRemaining := t.pvNoSpendsRemaining ++ (txn.flatMap (·.prevouts)).filter fun prevout =>
      !pool.has prevout.hash && !decide (prevout ∈ pool.mapNextTx)
    stages := t.stages ++ [(t.pool, stage)] }

/-- The loop of `TrimToSize`. -/
def trimming (mu : MemUsage) (worst : CTxMemPool → Option Uint256) : Loop Trimming Uint256 where
  measure t := t.pool.dynamicMemoryUsage mu
  pick t := worst t.pool
  evict t it := t.pass mu it

/-- `TrimToSize` with all that it reports. Every pass removes an entry. -/
def trimReporting (mu : MemUsage) (worst : CTxMemPool → Option Uint256) (sizelimit : ℕ)
    (m : CTxMemPool) : Outcome Trimming :=
  (trimming mu worst).run sizelimit (m.mapTx.keys.card + 1) ⟨m, [], []⟩

/-- `mapTx.get<1>().begin()`: the first entry by fee rate, when there is one. -/
structure IsBegin (worst : CTxMemPool → Option Uint256) : Prop where
  mem : ∀ {m it}, worst m = some it → it ∈ m.mapTx
  none : ∀ {m}, worst m = none → m.mapTx.keys = ∅

/-! ### What every pass keeps -/

/-- The pool keeps books on its entries: their links, their memory, and who spends what. -/
structure Booked (mu : MemUsage) (m : CTxMemPool) : Prop where
  linked : Linked m
  hashed : Hashed m
  counted : Counted mu m
  next : ∀ {o p}, m.mapNextTx.lookup o = some p →
    m.txAt p.ptx.hash = some p.ptx ∧ o ∈ p.ptx.prevouts

/-- No outpoint is spent by two entries. -/
def SpendsOnce (m : CTxMemPool) : Prop :=
  ∀ {it it' tx tx' o}, m.txAt it = some tx → m.txAt it' = some tx' → o ∈ tx.prevouts →
    o ∈ tx'.prevouts → it = it'

lemma Inv.booked {V : Finset Uint256} (h : Inv mu V m) : Booked mu m where
  linked := h.linked
  hashed := h.stock.hash
  counted := ⟨h.keys, h.total, h.usage⟩
  next ho := ⟨(h.stock.next ho).1, (h.stock.next ho).2.mem⟩

lemma Inv.spendsOnce {V : Finset Uint256} (h : Inv mu V m) : SpendsOnce m := h.stock.once

namespace Booked

lemma removeStaged (h : Booked mu m) (hstage : stage ⊆ m.mapTx.keys) :
    Booked mu (m.removeStaged mu stage) := by
  have hp := pruned_removeStaged h.linked h.hashed h.counted hstage
  have hstay : ∀ {it tx}, (m.removeStaged mu stage).txAt it = some tx →
      it ∉ stage ∧ m.txAt it = some tx := by
    intro it tx htx
    rw [hp.removed.txAt] at htx
    split_ifs at htx with hs
    exact ⟨hs, htx⟩
  have hchild : ∀ {p c}, c ∈ (m.removeStaged mu stage).getMemPoolChildren p →
      p ∉ stage ∧ c ∈ m.getMemPoolChildren p ∧ c ∉ stage := by
    intro p c hc
    rw [hp.children] at hc
    split_ifs at hc with hs
    · exact absurd hc (Finset.notMem_empty c)
    · exact ⟨hs, Finset.mem_sdiff.mp hc⟩
  refine ⟨⟨hp.counted.keys, fun p c => ?_, fun {p c} hc => ?_, fun a ha => ?_⟩,
    fun {it tx} htx => h.hashed (hstay htx).2, hp.counted, fun {o p} ho => ?_⟩
  · rw [hp.children, hp.parents]
    by_cases hps : p ∈ stage <;> by_cases hcs : c ∈ stage <;> simp [hps, hcs, h.linked.symm]
  · obtain ⟨hps, hc, hcs⟩ := hchild hc
    exact ⟨hp.removed.mem_iff.mpr ⟨(h.linked.mem hc).1, hps⟩,
      hp.removed.mem_iff.mpr ⟨(h.linked.mem hc).2, hcs⟩⟩
  · exact h.linked.acyclic a (ha.mono fun x y hy => (hchild hy).2.1)
  · rw [hp.removed.next] at ho
    split_ifs at ho with hgone
    obtain ⟨htx, hspent⟩ := h.next ho
    refine ⟨?_, hspent⟩
    rw [hp.removed.txAt, if_neg]
    · exact htx
    · exact fun hs => hgone ⟨_, hs, _, htx, hspent⟩

lemma usage_empty (h : Booked mu m) (hempty : m.mapTx.keys = ∅) :
    m.dynamicMemoryUsage mu = mu.deltas := by
  have hnext : m.mapNextTx.keys = ∅ := by
    rw [Finset.eq_empty_iff_forall_notMem]
    intro o ho
    obtain ⟨p, hp⟩ := Finmap.mem_iff.mp (Finmap.mem_keys.mp ho)
    have hmem := Finmap.mem_keys.mpr (mem_of_txAt (h.next hp).1)
    rw [hempty] at hmem
    exact Finset.notMem_empty _ hmem
  have hcached := h.counted.usage
  rw [baseUsage, h.counted.keys, hempty, Finset.sum_empty, Finset.sum_empty] at hcached
  rw [dynamicMemoryUsage, hnext, h.counted.keys, hempty]
  simp only [Finset.card_empty, Nat.cast_zero, mul_zero, zero_add, add_zero, sub_zero] at hcached ⊢
  omega

lemma le_usage (h : Booked mu m) : mu.deltas ≤ m.dynamicMemoryUsage mu := by
  have hcached := h.counted.usage
  have hentries : 0 ≤ ∑ it ∈ m.mapTx.keys, m.usageAt it := by
    refine Finset.sum_nonneg fun it _ => ?_
    rw [usageAt]
    cases m.bareAt it with
    | none => exact le_rfl
    | some e => exact Int.natCast_nonneg _
  have hlinks : 0 ≤ (mu.setNode : ℤ) * ∑ it ∈ m.mapLinks.keys, m.linkCount it := by
    refine mul_nonneg (Int.natCast_nonneg _) (Finset.sum_nonneg fun it _ => ?_)
    unfold linkCount
    omega
  have htx : 0 ≤ (mu.txNode : ℤ) * m.mapTx.keys.card := by positivity
  have hnext : 0 ≤ (mu.nextNode : ℤ) * m.mapNextTx.keys.card := by positivity
  have hnodes : 0 ≤ (mu.linksNode : ℤ) * m.mapLinks.keys.card := by positivity
  rw [baseUsage] at hcached
  rw [dynamicMemoryUsage]
  omega

end Booked

/-! ### Trimming is right -/

lemma Booked.mem_stage (h : Booked mu m) (hit : it ∈ m.mapTx) {d : Uint256} :
    d ∈ m.calculateDescendants it ∅ ↔ Reach m.getMemPoolChildren it d := by
  rw [mem_calculateDescendants h.linked hit fun y hy => absurd hy (Finset.notMem_empty y)]
  simp

lemma Booked.stage_subset (h : Booked mu m) (hit : it ∈ m.mapTx) :
    m.calculateDescendants it ∅ ⊆ m.mapTx.keys := by
  intro d hd
  refine ((h.mem_stage hit).mp hd).mem_of_closed (Finmap.mem_keys.mpr hit) fun y _ z hz => ?_
  exact Finmap.mem_keys.mpr (h.linked.mem hz).2

lemma SpendsOnce.removed (h : SpendsOnce m) (hr : Removed stage m m') : SpendsOnce m' := by
  intro it it' tx tx' o htx htx' ho ho'
  rw [hr.txAt] at htx htx'
  split_ifs at htx htx'
  exact h htx htx' ho ho'

/-- Nothing that is left creates or spends the outpoint. -/
structure Abandoned (m : CTxMemPool) (o : COutPoint) : Prop where
  notCreated : o.hash ∉ m.mapTx
  notSpent : ∀ {it tx}, m.txAt it = some tx → o ∉ tx.prevouts

lemma Abandoned.removed {o : COutPoint} (h : Abandoned m o) (hr : Removed stage m m') :
    Abandoned m' o := by
  refine ⟨fun hmem => h.notCreated (hr.mem_iff.mp hmem).1, fun {it tx} htx => ?_⟩
  rw [hr.txAt] at htx
  split_ifs at htx
  exact h.notSpent htx

/-- The removed sets are closed under the links to children, and no reported outpoint is created by
an entry that is left. -/
structure TrimmedSoundly (t : Trimming) : Prop where
  closed : ∀ p ∈ t.stages, p.2 ⊆ p.1.mapTx.keys ∧ ∀ x ∈ p.2, p.1.getMemPoolChildren x ⊆ p.2
  notCreated : ∀ o ∈ t.pvNoSpendsRemaining, o.hash ∉ t.pool.mapTx

lemma Booked.pass {t : Trimming} (h : Booked mu t.pool) (hit : it ∈ t.pool.mapTx) :
    Removed (t.pool.calculateDescendants it ∅) t.pool (t.pass mu it).pool ∧
      Booked mu (t.pass mu it).pool :=
  ⟨removed_removeStaged mu t.pool _, h.removeStaged (h.stage_subset hit)⟩

lemma mem_pass {t : Trimming} {o : COutPoint} (ho : o ∈ (t.pass mu it).pvNoSpendsRemaining) :
    o ∈ t.pvNoSpendsRemaining ∨ o.hash ∉ (t.pass mu it).pool.mapTx ∧
      ∃ d ∈ t.pool.calculateDescendants it ∅, ∃ tx, t.pool.txAt d = some tx ∧ o ∈ tx.prevouts := by
  rcases List.mem_append.mp ho with ho | ho
  · exact .inl ho
  · right
    obtain ⟨ho, hleft⟩ := List.mem_filter.mp ho
    obtain ⟨tx, htx, hotx⟩ := List.mem_flatMap.mp ho
    obtain ⟨d, hd, hdtx⟩ := List.mem_filterMap.mp htx
    obtain ⟨e, he, rfl⟩ := Option.map_eq_some_iff.mp hdtx
    rw [Bool.and_eq_true, Bool.not_eq_true', ← Bool.not_eq_true, has_eq_true] at hleft
    exact ⟨hleft.1, d, mem_inOrder.mp hd, e.tx, txAt_of_lookup he, hotx⟩

lemma TrimmedSoundly.pass {t : Trimming} (h : TrimmedSoundly t) (hb : Booked mu t.pool)
    (hit : it ∈ t.pool.mapTx) : TrimmedSoundly (t.pass mu it) := by
  refine ⟨fun p hp => ?_, fun o ho => ?_⟩
  · rcases List.mem_append.mp hp with hp | hp
    · exact h.closed p hp
    · obtain rfl := List.mem_singleton.mp hp
      refine ⟨hb.stage_subset hit, fun x hx c hc => ?_⟩
      exact (hb.mem_stage hit).mpr (((hb.mem_stage hit).mp hx).tail hc)
  · rcases mem_pass ho with ho | ⟨hno, -⟩
    · exact fun hmem => h.notCreated o ho ((hb.pass hit).1.mem_iff.mp hmem).1
    · exact hno

lemma abandoned_pass {t : Trimming} (hb : Booked mu t.pool) (honce : SpendsOnce t.pool)
    (hit : it ∈ t.pool.mapTx) (h : ∀ o ∈ t.pvNoSpendsRemaining, Abandoned t.pool o) :
    ∀ o ∈ (t.pass mu it).pvNoSpendsRemaining, Abandoned (t.pass mu it).pool o := by
  intro o ho
  have hremoved := (hb.pass hit).1
  rcases mem_pass ho with ho | ⟨hno, d, hd, tx, htx, hotx⟩
  · exact (h o ho).removed hremoved
  · refine ⟨hno, fun {it' tx'} htx' ho' => ?_⟩
    rw [hremoved.txAt] at htx'
    split_ifs at htx' with hin
    exact hin (honce htx htx' hotx ho' ▸ hd)

lemma sound_trimming (mu : MemUsage) (hworst : IsBegin worst) {I : Trimming → Prop}
    (hI : ∀ {t it}, Booked mu t.pool → it ∈ t.pool.mapTx → I t → I (t.pass mu it)) :
    (trimming mu worst).Sound (fun t => Booked mu t.pool ∧ I t)
      (fun t => t.pool.mapTx.keys.card) mu.deltas where
  keep {t it} h hpick := ⟨(h.1.pass (hworst.mem hpick)).2, hI h.1 (hworst.mem hpick) h.2⟩
  less {t it} h hpick := by
    have hit := hworst.mem hpick
    change (t.pass mu it).pool.mapTx.keys.card < t.pool.mapTx.keys.card
    rw [(h.1.pass hit).1.keys]
    refine Finset.card_lt_card (Finset.sdiff_ssubset (h.1.stage_subset hit) ?_)
    exact ⟨it, (h.1.mem_stage hit).mpr (.refl it)⟩
  empty {t} h hpick := h.1.usage_empty (hworst.none hpick)
  bound {t} h := h.1.le_usage

/-- `TrimToSize` comes to its end, having removed closed sets, and reports no outpoint that is
created by what is left. -/
def TrimsSoundly (mu : MemUsage) (worst : CTxMemPool → Option Uint256) (sizelimit : ℕ)
    (m : CTxMemPool) : Prop :=
  ∃ t, m.trimReporting mu worst sizelimit = .done t ∧ TrimmedSoundly t

/-- It does so, and what it reports is not spent by what is left either. -/
def TrimsRightly (mu : MemUsage) (worst : CTxMemPool → Option Uint256) (sizelimit : ℕ)
    (m : CTxMemPool) : Prop :=
  ∃ t, m.trimReporting mu worst sizelimit = .done t ∧ TrimmedSoundly t ∧
    ∀ o ∈ t.pvNoSpendsRemaining, Abandoned t.pool o

/-- **When the pool can be trimmed.** The loop comes to its end exactly when `mapDeltas` alone is
within the limit; otherwise it asks an empty index for its first entry. Then it removes sets that
are closed, and reports outpoints that nothing creates, and that nothing spends where no outpoint
was spent twice before. -/
theorem trimToSize_total_iff (hworst : IsBegin worst) (hm : Booked mu m) (deltaNode : ℕ)
    (mapDeltas : MapDeltas) (sizelimit : ℕ) :
    (m.TrimsSoundly (mu.withDeltas deltaNode mapDeltas) worst sizelimit ↔
      deltaNode * mapDeltas.keys.card ≤ sizelimit) ∧
    (m.SpendsOnce → (m.TrimsRightly (mu.withDeltas deltaNode mapDeltas) worst sizelimit ↔
      deltaNode * mapDeltas.keys.card ≤ sizelimit)) ∧
    (sizelimit < deltaNode * mapDeltas.keys.card →
      m.trimReporting (mu.withDeltas deltaNode mapDeltas) worst sizelimit = .stuck) := by
  have hbooked : Booked (mu.withDeltas deltaNode mapDeltas) m :=
    ⟨hm.linked, hm.hashed, ⟨hm.counted.keys, hm.counted.total, hm.counted.usage⟩, hm.next⟩
  have hroom : ((mu.withDeltas deltaNode mapDeltas).deltas : ℤ) ≤ sizelimit ↔
      deltaNode * mapDeltas.keys.card ≤ sizelimit := Nat.cast_le
  generalize mu.withDeltas deltaNode mapDeltas = mu' at hbooked hroom ⊢
  have hsound := sound_trimming mu' hworst fun hb hit h => TrimmedSoundly.pass h hb hit
  have hstart : TrimmedSoundly ⟨m, [], []⟩ :=
    ⟨fun p hp => absurd hp List.not_mem_nil, fun o ho => absurd ho List.not_mem_nil⟩
  have hdone : (∃ t, m.trimReporting mu' worst sizelimit = .done t) ↔
      (mu'.deltas : ℤ) ≤ sizelimit :=
    hsound.run_done_iff ⟨hbooked, hstart⟩ (Nat.lt_succ_self _)
  refine ⟨?_, fun honce => ?_, fun hlt => ?_⟩
  · rw [← hroom, ← hdone]
    constructor
    · rintro ⟨t, ht, -⟩
      exact ⟨t, ht⟩
    · rintro ⟨t, ht⟩
      exact ⟨t, ht, (hsound.inv_of_done ⟨hbooked, hstart⟩ ht).2⟩
  · have hright := sound_trimming mu' hworst
      (I := fun t => TrimmedSoundly t ∧ SpendsOnce t.pool ∧
        ∀ o ∈ t.pvNoSpendsRemaining, Abandoned t.pool o)
      fun hb hit h => ⟨h.1.pass hb hit, SpendsOnce.removed h.2.1 (hb.pass hit).1,
        abandoned_pass hb h.2.1 hit h.2.2⟩
    rw [← hroom, ← hdone]
    constructor
    · rintro ⟨t, ht, -⟩
      exact ⟨t, ht⟩
    · rintro ⟨t, ht⟩
      have hall := hright.inv_of_done
        ⟨hbooked, hstart, honce, fun o ho => absurd ho List.not_mem_nil⟩ ht
      exact ⟨t, ht, hall.2.1, hall.2.2.2⟩
  · exact hsound.run_stuck ⟨hbooked, hstart⟩ (Nat.lt_succ_self _)
      (not_le.mp fun hle => absurd (hroom.mp hle) (not_le.mpr hlt))

end CTxMemPool

/-! ### A delta for a transaction that is not there -/

namespace Concrete

open CTxMemPool

def firstByHash (m : CTxMemPool) : Option Uint256 := SetEntries.first m.mapTx.keys

lemma isBegin_firstByHash : IsBegin firstByHash where
  mem h := Finmap.mem_keys.mp (picks_first.some h)
  none h := picks_first.none h

def oneDelta : MapDeltas := MapDeltas.prioritiseTransaction ∅ 5 1000

/-- A pool that could be trimmed has to let its entry go, and keeps `mapDeltas`. -/
theorem trimToSize_total_olderPool :
    (fixedUsage.withDeltas 112 oneDelta).deltas = 112 ∧
      500 < olderPool.dynamicMemoryUsage (fixedUsage.withDeltas 112 oneDelta) ∧
      olderPool.TrimsRightly (fixedUsage.withDeltas 112 oneDelta) firstByHash 500 := by
  refine ⟨by decide +kernel, by decide +kernel, ?_⟩
  have hinv := inv_olderPool
  exact ((trimToSize_total_iff isBegin_firstByHash hinv.booked 112 oneDelta 500).2.1
    hinv.spendsOnce).mpr (by decide +kernel)

/-- An empty pool with one delta cannot be trimmed to less than the delta takes. -/
theorem not_trimToSize_total :
    CTxMemPool.empty.trimReporting (fixedUsage.withDeltas 112 oneDelta) firstByHash 100 = .stuck ∧
      ¬ CTxMemPool.empty.TrimsRightly (fixedUsage.withDeltas 112 oneDelta) firstByHash 100 := by
  have husage : ¬ CTxMemPool.empty.dynamicMemoryUsage (fixedUsage.withDeltas 112 oneDelta) ≤
      (100 : ℕ) := by decide +kernel
  have hstuck : CTxMemPool.empty.trimReporting (fixedUsage.withDeltas 112 oneDelta) firstByHash
      100 = .stuck := by
    rw [trimReporting, Eviction.Loop.run]
    change (if CTxMemPool.empty.dynamicMemoryUsage _ ≤ (100 : ℕ) then _ else _) = _
    rw [if_neg husage]
    rfl
  refine ⟨hstuck, ?_⟩
  rintro ⟨t, ht, -⟩
  rw [hstuck] at ht
  cases ht

end Concrete

end Agenor
