import Mathlib.Algebra.BigOperators.Ring.Finset
import Agenor.MempoolReorg

/-!
The consistency of the memory pool over all that happens to it.

`addUnchecked` does not look for entries that spend from the new one: a transaction that arrives has
none, and for those of a disconnected block `UpdateTransactionsFromBlock` makes up for it. So the
pool is consistent when transactions arrive in that order, and not when one comes after another that
spends from it.
-/

namespace Agenor

open Lib

namespace CTxMemPool

variable {mu : MemUsage} {m m' : CTxMemPool} {l : List Uint256} {entry : CTxMemPoolEntry}
  {setAncestors : SetEntries}

/-! ### Consistency -/

/-- An entry with all that depends on it in the pool. -/
noncomputable def withDescendants (m : CTxMemPool) (it : Uint256) : Finset Uint256 :=
  m.package m.dependents it

/-- What `check` is about, with the sums over all descendants. -/
structure Consistent (mu : MemUsage) (m : CTxMemPool) : Prop where
  next : ∀ o p, m.mapNextTx.lookup o = some p →
    m.txAt p.ptx.hash = some p.ptx ∧ (p.ptx.vin[p.n]?).map (·.prevout) = some o
  spent : ∀ it tx, m.txAt it = some tx → ∀ o ∈ tx.prevouts,
    ∃ p, m.mapNextTx.lookup o = some p ∧ p.ptx = tx
  links : m.mapLinks.keys = m.mapTx.keys
  children : ∀ p c, c ∈ m.getMemPoolChildren p ↔ m.Spends p c
  parents : ∀ p c, p ∈ m.getMemPoolParents c ↔ m.Spends p c
  sums : ∀ it e, m.mapTx.lookup it = some e → e.isDirty = true ∨
    e.nCountWithDescendants = (m.withDescendants it).card ∧
      e.nSizeWithDescendants = ∑ d ∈ m.withDescendants it, m.txSize d ∧
      e.nFeesWithDescendants = ∑ d ∈ m.withDescendants it, m.fee d
  total : m.totalTxSize = ∑ it ∈ m.mapTx.keys, m.txSize it
  usage : m.cachedInnerUsage = ∑ it ∈ m.mapTx.keys, (m.usageAt it + mu.setNode * m.linkCount it)
  failed : m.failed = false

lemma Inv.consistent (h : Inv mu ∅ m) : Consistent mu m := by
  have hchildren : m.getMemPoolChildren = m.dependents := by
    funext p
    rw [h.children, linkedTo_empty]
  have hlinked : ∀ p c, c ∈ m.getMemPoolChildren p ↔ m.Spends p c := by
    intro p c
    rw [hchildren, mem_dependents]
  refine ⟨fun o p hp => ⟨(h.stock.next hp).1, (h.stock.next hp).2.2⟩,
    fun it tx htx => h.stock.spent htx, h.keys, hlinked,
    fun p c => (h.parents p c).trans (hlinked p c), fun it e he => ?_, h.total, ?_, h.failed⟩
  · refine (h.tracks it e he).imp id fun hstate => ?_
    rw [hchildren, sum_weightAt (package_subset ..)] at hstate
    obtain ⟨hsize, hrest⟩ := Prod.mk.inj hstate
    obtain ⟨hfees, hcount⟩ := Prod.mk.inj hrest
    exact ⟨hcount, hsize, hfees⟩
  · have husage := h.usage
    rw [baseUsage, h.keys] at husage
    rw [Finset.sum_add_distrib, ← Finset.mul_sum, ← husage]
    omega

/-! ### Removals -/

lemma shrinks_removeForBlock (mu : MemUsage) (m : CTxMemPool) (vtx : List CTransaction) :
    Shrinks m (m.removeForBlock mu vtx) := by
  unfold removeForBlock
  exact Shrinks.foldl (fun m tx => (shrinks_remove mu m tx false).trans
    (shrinks_removeConflicts mu _ tx)) vtx m

lemma shrinks_removeForReorg (mu : MemUsage) (m : CTxMemPool) (env : ReorgEnv) :
    Shrinks m (m.removeForReorg mu env) := by
  unfold removeForReorg
  generalize (env.order.filterMap fun it => m.mapTx.lookup it).filter (m.failsReorg env) = l
  exact Shrinks.foldl (fun m' (e : CTxMemPoolEntry) => shrinks_remove mu m' e.tx true) l m

lemma shrinks_trimToSize (mu : MemUsage) (worst : CTxMemPool → Option Uint256) (sizelimit : ℕ)
    (m : CTxMemPool) : Shrinks m (m.trimToSize mu worst sizelimit) := by
  unfold trimToSize
  generalize m.mapTx.keys.card = fuel
  induction fuel generalizing m with
  | zero => exact .refl m
  | succ fuel ih =>
    rw [trimLoop]
    split_ifs
    · exact .refl m
    · split
      · exact .refl m
      · refine Shrinks.trans ?_ (ih _)
        split_ifs
        · exact shrinks_removeStaged mu m _
        · exact .refl m

/-! ### What is added -/

/-- An entry made from an ordinary transaction that is not in the pool and does not conflict with
it. -/
structure IsNew (mu : MemUsage) (m : CTxMemPool) (entry : CTxMemPoolEntry) : Prop where
  made : entry = .new mu entry.tx entry.nFee entry.nTime entry.spendsCoinbaseOrCoinstake
  fee : 0 ≤ entry.nFee
  absent : entry.tx.hash ∉ m.mapTx
  ordinary : entry.tx.hasZerocoinSpendInputs = false
  free : ∀ o ∈ entry.tx.prevouts, o ∉ m.mapNextTx
  foreign : ∀ o ∈ entry.tx.prevouts, o.hash ≠ entry.tx.hash

lemma IsNew.fresh (h : IsNew mu m entry) : Fresh m entry := by
  refine ⟨h.absent, h.ordinary, h.free, h.foreign, ?_, ?_, h.fee, Int.one_pos⟩
  · rw [h.made]
    rfl
  · change (0 : ℤ) < entry.nTxSize
    rw [h.made]
    change (0 : ℤ) < entry.tx.serializeSize
    unfold CTransaction.serializeSize
    omega

/-- No entry of the list spends from the transaction. -/
def NoneSpends (m : CTxMemPool) (hash : Uint256) (l : List Uint256) : Prop :=
  ∀ c, m.SpendsFrom hash c → c ∉ l

/-- A transaction of a disconnected block comes back: what it spends from has come back as well,
nothing that has come back spends from it. -/
structure ComesBack (m : CTxMemPool) (l : List Uint256) (tx : CTransaction) : Prop where
  once : tx.hash ∉ l
  parents : ∀ p ∈ m.poolParents tx, p ∈ l
  children : m.NoneSpends tx.hash l

end CTxMemPool

/-! ### Runs -/

/-- What is done with the pool. With its entry an added transaction comes with the ancestors that
were found for it. -/
inductive PoolStep
  | addUnchecked (entry : CTxMemPoolEntry) (setAncestors : SetEntries)
  /-- `remove`, with all that depends on the transaction. -/
  | remove (tx : CTransaction)
  | removeForBlock (vtx : List CTransaction)
  | removeForReorg (env : CTxMemPool.ReorgEnv)
  | expire (time : ℤ)
  | trimToSize (worst : CTxMemPool → Option Uint256) (sizelimit : ℕ)
  /-- A transaction of a block that is being disconnected is added and noted. -/
  | readd (entry : CTxMemPoolEntry) (setAncestors : SetEntries)
  | updateTransactionsFromBlock

namespace PoolStep

open CTxMemPool

variable {mu : MemUsage} {s : CTxMemPool × List Uint256} {steps : List PoolStep}

/-- The pool, and the transactions that `UpdateTransactionsFromBlock` has to see, after a step. -/
def apply (mu : MemUsage) (s : CTxMemPool × List Uint256) : PoolStep → CTxMemPool × List Uint256
  | addUnchecked entry setAncestors => (s.1.addUncheckedWith mu entry setAncestors, s.2)
  | remove tx => (s.1.remove mu tx true, s.2)
  | removeForBlock vtx => (s.1.removeForBlock mu vtx, s.2)
  | removeForReorg env => (s.1.removeForReorg mu env, s.2)
  | expire time => (s.1.expire mu time, s.2)
  | trimToSize worst sizelimit => (s.1.trimToSize mu worst sizelimit, s.2)
  | readd entry setAncestors =>
    (s.1.addUncheckedWith mu entry setAncestors, s.2 ++ [entry.tx.hash])
  | updateTransactionsFromBlock => (s.1.updateTransactionsFromBlock mu s.2, [])

/-- An added transaction is new and its ancestors are those found for it; the transactions of a
connected block come in an order in which they can be confirmed. -/
def Valid (mu : MemUsage) (m : CTxMemPool) : PoolStep → Prop
  | addUnchecked entry setAncestors | readd entry setAncestors =>
    IsNew mu m entry ∧
      ∃ limits, m.calculateMemPoolAncestors entry limits true = .ok setAncestors
  | removeForBlock vtx => m.ConfirmsInOrder vtx
  | _ => True

/-- Transactions come after what they spend from, but for those of a disconnected block, which come
in the order of the block. -/
def Ordered (s : CTxMemPool × List Uint256) : PoolStep → Prop
  | addUnchecked entry _ => s.2 = [] ∧ ∀ c, ¬ s.1.SpendsFrom entry.tx.hash c
  | readd entry _ => ComesBack s.1 s.2 entry.tx
  | _ => True

/-- The pool after some steps, from an empty one. -/
def run (mu : MemUsage) (steps : List PoolStep) : CTxMemPool × List Uint256 :=
  steps.foldl (apply mu) (CTxMemPool.empty, [])

/-- What holds of every step and the state that it finds. -/
def Always (mu : MemUsage) (P : CTxMemPool × List Uint256 → PoolStep → Prop) :
    CTxMemPool × List Uint256 → List PoolStep → Prop
  | _, [] => True
  | s, e :: steps => P s e ∧ Always mu P (apply mu s e) steps

/-- What holds of the pool while a block is being disconnected. -/
structure Kept (mu : MemUsage) (s : CTxMemPool × List Uint256) : Prop where
  inv : Inv mu s.2.toFinset s.1
  nodup : s.2.Nodup
  order : s.1.InOrder s.2

lemma Kept.shrink {m' : CTxMemPool} (h : Kept mu s) (hinv : Inv mu s.2.toFinset m')
    (hs : Shrinks s.1 m') : Kept mu (m', s.2) :=
  ⟨hinv, h.nodup, h.order.imp fun hno hspends => hno (hs.spends hspends)⟩

lemma Kept.added (h : Kept mu s) {entry : CTxMemPoolEntry} {setAncestors : SetEntries}
    (hnew : IsNew mu s.1 entry)
    (hs : ∃ limits, s.1.calculateMemPoolAncestors entry limits true = .ok setAncestors)
    (hl : s.2 = []) (hno : ∀ c, ¬ s.1.SpendsFrom entry.tx.hash c) :
    Kept mu (s.1.addUncheckedWith mu entry setAncestors, s.2) := by
  obtain ⟨limits, hs⟩ := hs
  have hV : s.2.toFinset = ∅ := by rw [hl, List.toFinset_nil]
  have hinv := hV ▸ h.inv
  refine ⟨hV ▸ hinv.addUncheckedWith hnew.fresh ⟨fun _ _ => Iff.rfl, fun p _ => ?_, fun c hc =>
    absurd hc (hno c)⟩ hs, h.nodup, ?_⟩
  · simp
  · rw [hl]
    exact .nil

lemma Kept.readded (h : Kept mu s) {entry : CTxMemPoolEntry} {setAncestors : SetEntries}
    (hnew : IsNew mu s.1 entry)
    (hs : ∃ limits, s.1.calculateMemPoolAncestors entry limits true = .ok setAncestors)
    (hback : ComesBack s.1 s.2 entry.tx) :
    Kept mu (s.1.addUncheckedWith mu entry setAncestors, s.2 ++ [entry.tx.hash]) := by
  obtain ⟨limits, hs⟩ := hs
  have hf := hnew.fresh
  have hadded := added_addUncheckedWith mu hf.absent setAncestors
  refine ⟨h.inv.addUncheckedWith hf ⟨fun a ha => ?_, fun p hp => ?_, fun c hc => ?_⟩ hs, ?_, ?_⟩
  · simp [ha]
  · simp [hback.parents p hp]
  · simp [hback.children c hc]
  · rw [List.nodup_append]
    refine ⟨h.nodup, List.nodup_singleton _, fun a ha b hb => ?_⟩
    rw [List.mem_singleton.mp hb]
    exact fun heq => hback.once (heq ▸ ha)
  · have hne : ∀ {a}, a ∈ s.2 → a ≠ entry.tx.hash := fun ha heq => hback.once (heq ▸ ha)
    refine List.pairwise_append.mpr ⟨h.order.imp_of_mem fun {a b} ha hb hno hspends => ?_,
      List.pairwise_singleton _ _, fun a ha b hb hspends => ?_⟩
    · rcases (hadded.spends hf).mp hspends with hold | ⟨heq, -⟩ | ⟨heq, -⟩
      · exact hno hold
      · exact hne ha heq
      · exact hne hb heq
    · rw [List.mem_singleton.mp hb] at hspends
      rcases (hadded.spends hf).mp hspends with hold | ⟨heq, -⟩ | ⟨-, hfrom⟩
      · exact hf.absent hold.1
      · exact hne ha heq
      · exact hback.children a hfrom ha

lemma Kept.apply (h : Kept mu s) (e : PoolStep) (hv : e.Valid mu s.1) (ho : e.Ordered s) :
    Kept mu (PoolStep.apply mu s e) := by
  cases e with
  | addUnchecked entry setAncestors => exact h.added hv.1 hv.2 ho.1 ho.2
  | remove tx => exact h.shrink (h.inv.remove tx) (shrinks_remove mu _ tx true)
  | removeForBlock vtx => exact h.shrink (h.inv.removeForBlock hv) (shrinks_removeForBlock mu _ vtx)
  | removeForReorg env =>
    exact h.shrink (h.inv.removeForReorg env) (shrinks_removeForReorg mu _ env)
  | expire time => exact h.shrink (h.inv.expire time) (shrinks_removeStaged mu _ _)
  | trimToSize worst sizelimit =>
    exact h.shrink (h.inv.trimToSize worst sizelimit) (shrinks_trimToSize mu worst sizelimit _)
  | readd entry setAncestors => exact h.readded hv.1 hv.2 ho
  | updateTransactionsFromBlock =>
    exact ⟨h.inv.updateTransactionsFromBlock h.nodup h.order, List.nodup_nil, .nil⟩

lemma Kept.foldl (h : Kept mu s) (hvalid : Always mu (fun s e => e.Valid mu s.1) s steps)
    (horder : Always mu (fun s e => e.Ordered s) s steps) :
    Kept mu (steps.foldl (PoolStep.apply mu) s) := by
  induction steps generalizing s with
  | nil => exact h
  | cons e steps ih => exact ih (h.apply e hvalid.1 horder.1) hvalid.2 horder.2

/-- **Consistency.** After any run in which transactions come in order the pool is consistent,
unless a block is being disconnected. -/
theorem consistent_run (mu : MemUsage) (steps : List PoolStep)
    (hvalid : Always mu (fun s e => e.Valid mu s.1) (CTxMemPool.empty, []) steps)
    (horder : Always mu (fun s e => e.Ordered s) (CTxMemPool.empty, []) steps)
    (hdone : (run mu steps).2 = []) : Consistent mu (run mu steps).1 := by
  have hstart : Kept mu (CTxMemPool.empty, []) := ⟨.empty mu, List.nodup_nil, .nil⟩
  have hinv := (hstart.foldl hvalid horder).inv
  change Inv mu (run mu steps).2.toFinset (run mu steps).1 at hinv
  rw [hdone, List.toFinset_nil] at hinv
  exact hinv.consistent

end PoolStep

/-! ### A transaction and its parent -/

namespace Concrete

def fixedUsage : MemUsage := ⟨fun _ => 100, 48, 300, 100, 100, 0⟩

def olderTx : CTransaction := ⟨10, [⟨⟨1, 0⟩, [], 0⟩], [⟨COIN, []⟩]⟩

/-- It spends from `olderTx`. -/
def youngerTx : CTransaction := ⟨11, [⟨⟨10, 0⟩, [], 0⟩], [⟨COIN, []⟩]⟩

def entryOf (tx : CTransaction) : CTxMemPoolEntry := .new fixedUsage tx 1000 1600000000 false

/-- The parent is in a block when its child arrives, and comes back from it. -/
def parentBack : List PoolStep :=
  [.addUnchecked (entryOf youngerTx) ∅, .readd (entryOf olderTx) ∅, .updateTransactionsFromBlock]

/-- The parent arrives after its child. -/
def childFirst : List PoolStep :=
  [.addUnchecked (entryOf youngerTx) ∅, .addUnchecked (entryOf olderTx) ∅]

lemma isNew_younger : CTxMemPool.IsNew fixedUsage CTxMemPool.empty (entryOf youngerTx) :=
  ⟨rfl, by decide, by decide +kernel, by decide, by decide +kernel, by decide⟩

lemma isNew_older : CTxMemPool.IsNew fixedUsage
    (CTxMemPool.empty.addUncheckedWith fixedUsage (entryOf youngerTx) ∅) (entryOf olderTx) :=
  ⟨rfl, by decide, by decide +kernel, by decide, by decide +kernel, by decide⟩

end Concrete

namespace PoolStep

open CTxMemPool Concrete

/-- A parent that comes back from a block is linked with its child. -/
theorem consistent_run_parentBack :
    (run fixedUsage parentBack).1.getMemPoolChildren 10 = {11} ∧
      Consistent fixedUsage (run fixedUsage parentBack).1 := by
  refine ⟨by decide +kernel, consistent_run fixedUsage parentBack ?_ ?_ rfl⟩
  · exact ⟨⟨isNew_younger, .nNoLimit, by decide +kernel⟩,
      ⟨isNew_older, .nNoLimit, by decide +kernel⟩, trivial, trivial⟩
  · refine ⟨⟨rfl, fun c hc => ?_⟩, ⟨List.not_mem_nil, fun p hp => ?_, fun _ _ => List.not_mem_nil⟩,
      trivial, trivial⟩
    · obtain ⟨tx, htx, -⟩ := hc
      cases htx
    · obtain ⟨hmem, o, ho, rfl⟩ := mem_poolParents.mp hp
      obtain rfl := List.mem_singleton.mp ho
      have hnot : (1 : Uint256) ∉ (CTxMemPool.empty.addUncheckedWith fixedUsage
        (entryOf youngerTx) ∅).mapTx := by decide +kernel
      exact absurd hmem hnot

/-- When the parent comes after its child and not from a block, they stay without a link. -/
theorem not_consistent_childFirst :
    ¬ ∀ (mu : MemUsage) (steps : List PoolStep),
      Always mu (fun s e => e.Valid mu s.1) (CTxMemPool.empty, []) steps →
        (run mu steps).2 = [] → Consistent mu (run mu steps).1 := by
  intro h
  have hvalid : Always fixedUsage (fun s e => e.Valid fixedUsage s.1) (CTxMemPool.empty, [])
      childFirst :=
    ⟨⟨isNew_younger, .nNoLimit, by decide +kernel⟩, ⟨isNew_older, .nNoLimit, by decide +kernel⟩,
      trivial⟩
  have hspends : (run fixedUsage childFirst).1.Spends 10 11 :=
    ⟨by decide +kernel, youngerTx, by decide +kernel, ⟨10, 0⟩, by decide, rfl⟩
  have hlink := ((h fixedUsage childFirst hvalid rfl).children 10 11).mpr hspends
  have hnone : 11 ∉ (run fixedUsage childFirst).1.getMemPoolChildren 10 := by decide +kernel
  exact hnone hlink

end PoolStep

end Agenor
