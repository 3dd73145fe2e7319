import Agenor.MempoolTracks

/-!
The consistency of the memory pool.

An entry depends on another one when it spends one of its outputs. Links are these dependencies;
only while a block is being disconnected they are not all there: the transactions `V` of the block
that are back in the pool have no links yet to the entries outside of `V` that spend from them.
-/

namespace Agenor

open Lib

namespace CTxMemPool

variable {mu : MemUsage} {m m' : CTxMemPool} {it : Uint256} {V U : Finset Uint256}

/-! ### Dependencies -/

/-- An entry spends an output of another one. -/
def Spends (m : CTxMemPool) (p c : Uint256) : Prop :=
  p ∈ m.mapTx ∧ ∃ tx, m.txAt c = some tx ∧ ∃ o ∈ tx.prevouts, o.hash = p

lemma mem_of_txAt {tx : CTransaction} (h : m.txAt it = some tx) : it ∈ m.mapTx := by
  rw [mem_iff_bareAt]
  obtain ⟨e, he, -⟩ := Option.map_eq_some_iff.mp h
  rw [he]
  rfl

lemma Spends.mem {p c : Uint256} (h : m.Spends p c) : c ∈ m.mapTx := by
  obtain ⟨-, tx, htx, -⟩ := h
  exact mem_of_txAt htx

lemma Alike.spends (h : Alike m m') (p c : Uint256) : m'.Spends p c ↔ m.Spends p c := by
  rw [Spends, Spends, h.mem_iff, h.txAt]

open Classical in
/-- The entries that spend from an entry. -/
noncomputable def dependents (m : CTxMemPool) (p : Uint256) : Finset Uint256 :=
  m.mapTx.keys.filter fun c => m.Spends p c

open Classical in
lemma mem_dependents {p c : Uint256} : c ∈ m.dependents p ↔ m.Spends p c := by
  rw [dependents, Finset.mem_filter, Finmap.mem_keys]
  exact ⟨fun h => h.2, fun h => ⟨h.mem, h⟩⟩

lemma Alike.dependents (h : Alike m m') (p : Uint256) : m'.dependents p = m.dependents p := by
  ext c
  rw [mem_dependents, mem_dependents, h.spends]

/-- The dependents that are linked while the entries of `U` have no links out of `V`. -/
noncomputable def linkedTo (m : CTxMemPool) (V U : Finset Uint256) (p : Uint256) :
    Finset Uint256 :=
  if p ∈ U then m.dependents p ∩ V else m.dependents p

lemma mem_linkedTo {p c : Uint256} :
    c ∈ m.linkedTo V U p ↔ m.Spends p c ∧ (p ∈ U → c ∈ V) := by
  rw [linkedTo]
  split_ifs with hp
  · rw [Finset.mem_inter, mem_dependents]
    exact ⟨fun h => ⟨h.1, fun _ => h.2⟩, fun h => ⟨h.1, h.2 hp⟩⟩
  · rw [mem_dependents]
    exact ⟨fun h => ⟨h, fun hp' => absurd hp' hp⟩, fun h => h.1⟩

lemma linkedTo_subset (m : CTxMemPool) (V U : Finset Uint256) (p : Uint256) :
    m.linkedTo V U p ⊆ m.dependents p := by
  intro c hc
  rw [mem_dependents]
  exact (mem_linkedTo.mp hc).1

lemma linkedTo_empty (m : CTxMemPool) (V : Finset Uint256) (p : Uint256) :
    m.linkedTo V ∅ p = m.dependents p := by
  rw [linkedTo, if_neg (Finset.notMem_empty p)]

open Classical in
/-- The entries that can be reached from an entry, itself among them. -/
noncomputable def package (m : CTxMemPool) (next : Uint256 → Finset Uint256) (a : Uint256) :
    Finset Uint256 :=
  m.mapTx.keys.filter fun d => Reach next a d

open Classical in
lemma mem_package {next : Uint256 → Finset Uint256} {a d : Uint256} :
    d ∈ m.package next a ↔ d ∈ m.mapTx ∧ Reach next a d := by
  rw [package, Finset.mem_filter, Finmap.mem_keys]

open Classical in
lemma package_subset (m : CTxMemPool) (next : Uint256 → Finset Uint256) (a : Uint256) :
    m.package next a ⊆ m.mapTx.keys := Finset.filter_subset _ _

lemma self_mem_package (next : Uint256 → Finset Uint256) (h : it ∈ m.mapTx) :
    it ∈ m.package next it := mem_package.mpr ⟨h, .refl it⟩

lemma Alike.package (h : Alike m m') (next : Uint256 → Finset Uint256) (a : Uint256) :
    m'.package next a = m.package next a := by
  ext d
  rw [mem_package, mem_package, h.mem_iff]

/-! ### The entries and what they spend -/

/-- The entries are ordinary transactions without cycles, and `mapNextTx` is what they spend. -/
structure Stock (m : CTxMemPool) : Prop where
  hash : ∀ {it tx}, m.txAt it = some tx → tx.hash = it
  ordinary : ∀ {it tx}, m.txAt it = some tx → tx.hasZerocoinSpendInputs = false
  weighty : Weighty m
  acyclic : ∀ a, ¬ LeadsTo m.dependents a a
  next : ∀ {o p}, m.mapNextTx.lookup o = some p →
    m.txAt p.ptx.hash = some p.ptx ∧ SpentAt p.ptx o p
  spent : ∀ {it tx}, m.txAt it = some tx → ∀ o ∈ tx.prevouts,
    ∃ p, m.mapNextTx.lookup o = some p ∧ p.ptx = tx

lemma SpentAt.mem {tx : CTransaction} {o : COutPoint} {p : CInPoint} (h : SpentAt tx o p) :
    o ∈ tx.prevouts := by
  obtain ⟨i, hi, rfl⟩ := Option.map_eq_some_iff.mp h.2
  exact List.mem_map_of_mem (List.mem_of_getElem? hi)

namespace Stock

lemma empty : Stock CTxMemPool.empty := by
  have hnone : ∀ it, CTxMemPool.empty.txAt it = none := fun _ => rfl
  have hmem : ∀ it, it ∉ CTxMemPool.empty.mapTx := fun it => Finmap.notMem_empty
  refine ⟨?_, ?_, fun it hit => absurd hit (hmem it), fun a ha => ?_, ?_, ?_⟩
  · intro it tx h
    rw [hnone] at h
    cases h
  · intro it tx h
    rw [hnone] at h
    cases h
  · obtain ⟨c, hc, -⟩ := leadsTo_iff.mp ha
    exact hmem a (mem_dependents.mp hc).1
  · intro o p h
    cases h
  · intro it tx h
    rw [hnone] at h
    cases h

lemma alike (h : Stock m) (ha : Alike m m') : Stock m' where
  hash {it tx} htx := h.hash (ha.txAt it ▸ htx)
  ordinary {it tx} htx := h.ordinary (ha.txAt it ▸ htx)
  weighty := ha.weighty h.weighty
  acyclic a hc := by
    refine h.acyclic a (hc.mono fun x y hy => ?_)
    rwa [← ha.dependents]
  next {o p} hp := by
    rw [ha.next] at hp
    rw [ha.txAt]
    exact h.next hp
  spent {it tx} htx o ho := by
    rw [ha.next]
    exact h.spent (ha.txAt it ▸ htx) o ho

lemma once (h : Stock m) {it it' : Uint256} {tx tx' : CTransaction} {o : COutPoint}
    (htx : m.txAt it = some tx) (htx' : m.txAt it' = some tx') (ho : o ∈ tx.prevouts)
    (ho' : o ∈ tx'.prevouts) : it = it' := by
  obtain ⟨p, hp, rfl⟩ := h.spent htx o ho
  obtain ⟨p', hp', rfl⟩ := h.spent htx' o ho'
  obtain rfl : p = p' := Option.some.inj (hp.symm.trans hp')
  exact (h.hash htx).symm.trans (h.hash htx')

end Stock

lemma Removed.mem_iff {s : SetEntries} (h : Removed s m m') :
    it ∈ m'.mapTx ↔ it ∈ m.mapTx ∧ it ∉ s := by
  rw [mem_iff_bareAt, mem_iff_bareAt, h.bare]
  by_cases hs : it ∈ s <;> simp [hs]

lemma Removed.keys {s : SetEntries} (h : Removed s m m') : m'.mapTx.keys = m.mapTx.keys \ s := by
  ext it
  rw [Finset.mem_sdiff, Finmap.mem_keys, Finmap.mem_keys, h.mem_iff]

lemma Removed.weightAt {s : SetEntries} (h : Removed s m m') (hit : it ∉ s) :
    m'.weightAt it = m.weightAt it := by
  rw [CTxMemPool.weightAt, h.bare, if_neg hit, CTxMemPool.weightAt]

lemma Removed.spends {s : SetEntries} (h : Removed s m m') {p c : Uint256} :
    m'.Spends p c ↔ m.Spends p c ∧ p ∉ s ∧ c ∉ s := by
  rw [Spends, Spends, h.mem_iff, h.txAt]
  by_cases hc : c ∈ s
  · simp [hc]
  · rw [if_neg hc]
    tauto

lemma Stock.removed {s : SetEntries} (h : Stock m) (hr : Removed s m m') : Stock m' := by
  have hstay : ∀ {it tx}, m'.txAt it = some tx → it ∉ s ∧ m.txAt it = some tx := by
    intro it tx htx
    rw [hr.txAt] at htx
    split_ifs at htx with hs
    exact ⟨hs, htx⟩
  refine ⟨fun htx => h.hash (hstay htx).2, fun htx => h.ordinary (hstay htx).2, ?_, ?_, ?_, ?_⟩
  · intro it hit
    obtain ⟨hit, hs⟩ := hr.mem_iff.mp hit
    rw [hr.weightAt hs]
    exact h.weighty it hit
  · intro a ha
    refine h.acyclic a (ha.mono fun x y hy => ?_)
    rw [mem_dependents] at hy ⊢
    exact (hr.spends.mp hy).1
  · intro o p hp
    rw [hr.next] at hp
    split_ifs at hp with hgone
    obtain ⟨htx, hspent⟩ := h.next hp
    refine ⟨?_, hspent⟩
    rw [hr.txAt, if_neg]
    · exact htx
    · exact fun hs => hgone ⟨_, hs, _, htx, hspent.mem⟩
  · intro it tx htx o ho
    obtain ⟨hs, htx⟩ := hstay htx
    obtain ⟨p, hp, hptx⟩ := h.spent htx o ho
    refine ⟨p, ?_, hptx⟩
    rw [hr.next, if_neg]
    · exact hp
    · rintro ⟨it', hit', tx', htx', ho'⟩
      exact hs (h.once htx htx' ho ho' ▸ hit')

/-! ### The invariant -/

/-- The pool is consistent but for the missing links out of `V`. -/
structure Inv (mu : MemUsage) (V : Finset Uint256) (m : CTxMemPool) : Prop where
  stock : Stock m
  keys : m.mapLinks.keys = m.mapTx.keys
  children : ∀ p, m.getMemPoolChildren p = m.linkedTo V V p
  parents : ∀ p c, p ∈ m.getMemPoolParents c ↔ c ∈ m.getMemPoolChildren p
  up : ∀ {p c}, m.Spends p c → c ∈ V → p ∈ V
  tracks : Tracks m (m.package m.getMemPoolChildren)
  total : m.totalTxSize = ∑ it ∈ m.mapTx.keys, m.txSize it
  usage : m.baseUsage mu = ∑ it ∈ m.mapTx.keys, m.usageAt it
  failed : m.failed = false

namespace Inv

lemma mem (h : Inv mu V m) {p c : Uint256} (hc : c ∈ m.getMemPoolChildren p) : m.Spends p c := by
  rw [h.children] at hc
  exact (mem_linkedTo.mp hc).1

lemma linked (h : Inv mu V m) : Linked m where
  keys := h.keys
  symm := h.parents
  mem hc := ⟨(h.mem hc).1, (h.mem hc).mem⟩
  acyclic a ha := by
    refine h.stock.acyclic a (ha.mono fun x y hy => ?_)
    rw [mem_dependents]
    exact h.mem hy

lemma empty (mu : MemUsage) : Inv mu ∅ CTxMemPool.empty where
  stock := .empty
  keys := rfl
  children p := by
    rw [linkedTo_empty]
    ext c
    rw [mem_dependents]
    constructor
    · intro hc
      exact absurd hc (Finset.notMem_empty c)
    · intro hc
      exact absurd hc.1 Finmap.notMem_empty
  parents p c := by
    constructor
    · intro hp
      exact absurd hp (Finset.notMem_empty p)
    · intro hc
      exact absurd hc (Finset.notMem_empty c)
  up h := absurd h.1 Finmap.notMem_empty
  tracks it e he := by cases he
  total := rfl
  usage := by
    change (0 : ℤ) - mu.setNode * ∑ it ∈ (∅ : Finset Uint256), _ = ∑ it ∈ (∅ : Finset Uint256), _
    simp
  failed := rfl

end Inv

end CTxMemPool

end Agenor
