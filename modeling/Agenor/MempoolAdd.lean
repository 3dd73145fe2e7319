import Agenor.MempoolRemove

/-!
`addUnchecked` keeps the memory pool consistent.

The new entry has no links to children. That is right for a transaction that nothing in the pool
spends from, and for one of a block that is being disconnected: this one joins the transactions `V`
whose links out of `V` are missing until `UpdateTransactionsFromBlock`.
-/

namespace Agenor

open Lib

namespace CTxMemPool

variable {mu : MemUsage} {m m' : CTxMemPool} {it : Uint256} {V V' : Finset Uint256}
  {entry : CTxMemPoolEntry}

/-- A transaction that can be added: it is not there, conflicts with nothing and is ordinary. -/
structure Fresh (m : CTxMemPool) (entry : CTxMemPoolEntry) : Prop where
  absent : entry.tx.hash ∉ m.mapTx
  ordinary : entry.tx.hasZerocoinSpendInputs = false
  free : ∀ o ∈ entry.tx.prevouts, o ∉ m.mapNextTx
  foreign : ∀ o ∈ entry.tx.prevouts, o.hash ≠ entry.tx.hash
  state : entry.state = entry.weight
  positive : entry.weight.Positive

/-- The entries that the new one spends from. -/
def poolParents (m : CTxMemPool) (tx : CTransaction) : Finset Uint256 :=
  (tx.vin.map (·.prevout.hash)).toFinset.filter (· ∈ m.mapTx)

/-- An entry spends from a transaction, which need not be in the pool. -/
def SpendsFrom (m : CTxMemPool) (hash c : Uint256) : Prop :=
  ∃ tx, m.txAt c = some tx ∧ ∃ o ∈ tx.prevouts, o.hash = hash

lemma mem_poolParents {tx : CTransaction} {p : Uint256} :
    p ∈ m.poolParents tx ↔ p ∈ m.mapTx ∧ ∃ o ∈ tx.prevouts, o.hash = p := by
  simp [poolParents, CTransaction.prevouts, and_comm]

/-! ### The entries -/

namespace Added

lemma mem_iff (h : Added entry m m') : it ∈ m'.mapTx ↔ it = entry.tx.hash ∨ it ∈ m.mapTx := by
  rw [mem_iff_bareAt, mem_iff_bareAt, h.bare]
  by_cases hit : it = entry.tx.hash <;> simp [hit]

lemma weightAt (h : Added entry m m') (it : Uint256) :
    m'.weightAt it = if it = entry.tx.hash then entry.weight else m.weightAt it := by
  rw [CTxMemPool.weightAt, h.bare]
  split_ifs
  · simp
  · rfl

lemma spends (h : Added entry m m') (hf : Fresh m entry) {p c : Uint256} :
    m'.Spends p c ↔ m.Spends p c ∨ c = entry.tx.hash ∧ p ∈ m.poolParents entry.tx ∨
      p = entry.tx.hash ∧ m.SpendsFrom entry.tx.hash c := by
  have hno : m.txAt entry.tx.hash = none := by
    rw [CTxMemPool.txAt, Option.map_eq_none_iff, ← Option.not_isSome_iff_eq_none, ← mem_iff_bareAt]
    exact hf.absent
  rw [Spends, Spends, SpendsFrom, mem_poolParents, h.mem_iff, h.txAt]
  by_cases hc : c = entry.tx.hash
  · rw [if_pos hc, hc]
    simp only [hno]
    constructor
    · rintro ⟨hp, tx, htx, o, ho, hop⟩
      obtain rfl := Option.some.inj htx
      refine .inr (.inl ⟨trivial, hp.resolve_left fun heq => ?_, o, ho, hop⟩)
      exact hf.foreign o ho (hop.trans heq)
    · rintro (⟨-, tx, htx, -⟩ | ⟨-, hp, o, ho, hop⟩ | ⟨-, tx, htx, -⟩)
      · cases htx
      · exact ⟨.inr hp, _, rfl, o, ho, hop⟩
      · cases htx
  · rw [if_neg hc]
    constructor
    · rintro ⟨hp | hp, tx, htx, o, ho, hop⟩
      · exact .inr (.inr ⟨hp, tx, htx, o, ho, hop.trans hp⟩)
      · exact .inl ⟨hp, tx, htx, o, ho, hop⟩
    · rintro (⟨hp, hrest⟩ | ⟨hc', -⟩ | ⟨hp, tx, htx, o, ho, hop⟩)
      · exact ⟨.inr hp, hrest⟩
      · exact absurd hc' hc
      · exact ⟨.inl hp, tx, htx, o, ho, hop.trans hp.symm⟩

end Added

lemma Stock.added (h : Stock m) (ha : Added entry m m') (hf : Fresh m entry)
    (hcut : ∀ c, m.SpendsFrom entry.tx.hash c → ∀ p ∈ m.poolParents entry.tx,
      ¬ Reach m.dependents c p) : Stock m' := by
  have hhash : ∀ {it tx}, m'.txAt it = some tx → (it = entry.tx.hash ∧ tx = entry.tx) ∨
      (it ≠ entry.tx.hash ∧ m.txAt it = some tx) := by
    intro it tx htx
    rw [ha.txAt] at htx
    split_ifs at htx with hit
    · exact .inl ⟨hit, (Option.some.inj htx).symm⟩
    · exact .inr ⟨hit, htx⟩
  refine ⟨fun {it tx} htx => ?_, fun {it tx} htx => ?_, fun it hit => ?_, ?_,
    fun {o p} hp => ?_, fun {it tx} htx o ho => ?_⟩
  · rcases hhash htx with ⟨rfl, rfl⟩ | ⟨-, htx⟩
    · rfl
    · exact h.hash htx
  · rcases hhash htx with ⟨-, rfl⟩ | ⟨-, htx⟩
    · exact hf.ordinary
    · exact h.ordinary htx
  · rw [ha.weightAt]
    split_ifs with hn
    · exact hf.positive
    · exact h.weighty it ((ha.mem_iff.mp hit).resolve_left hn)
  · refine acyclic_addNode (n := entry.tx.hash) (P := m.poolParents entry.tx)
      (C := m'.dependents entry.tx.hash) h.acyclic (fun x hx => ?_) ?_ ?_ (Finset.Subset.refl _)
      ?_ ?_
    · exact hf.absent (mem_dependents.mp hx).mem
    · rw [Finset.eq_empty_iff_forall_notMem]
      exact fun c hc => hf.absent (mem_dependents.mp hc).1
    · intro x y hy hx
      rcases (ha.spends hf).mp (mem_dependents.mp hy) with hy | hy | hy
      · exact .inl (mem_dependents.mpr hy)
      · exact .inr hy
      · exact absurd hy.1 hx
    · intro c hc p hp
      rcases (ha.spends hf).mp (mem_dependents.mp hc) with hc | hc | hc
      · exact absurd hc.1 hf.absent
      · exact absurd (mem_poolParents.mp hc.2).1 hf.absent
      · exact hcut c hc.2 p hp
    · intro hself
      rcases (ha.spends hf).mp (mem_dependents.mp hself) with hc | hc | ⟨-, tx, htx, -⟩
      · exact hf.absent hc.1
      · exact hf.absent (mem_poolParents.mp hc.2).1
      · exact hf.absent (mem_of_txAt htx)
  · by_cases ho : o ∈ entry.tx.prevouts
    · obtain ⟨p', hp', hspent⟩ := ha.spent hf.ordinary o ho
      obtain rfl : p' = p := Option.some.inj (hp'.symm.trans hp)
      have hptx := hspent.1
      rw [hptx, ha.txAt, if_pos rfl]
      exact ⟨rfl, hptx ▸ hspent⟩
    · rw [ha.other o ho] at hp
      obtain ⟨htx, hspent⟩ := h.next hp
      rw [ha.txAt, if_neg]
      · exact ⟨htx, hspent⟩
      · exact fun heq => hf.absent (heq ▸ mem_of_txAt htx)
  · rcases hhash htx with ⟨-, rfl⟩ | ⟨-, htx⟩
    · obtain ⟨p, hp, hspent⟩ := ha.spent hf.ordinary o ho
      exact ⟨p, hp, hspent.1⟩
    · obtain ⟨p, hp, hptx⟩ := h.spent htx o ho
      refine ⟨p, ?_, hptx⟩
      rw [ha.other o fun hmem => hf.free o hmem (Finmap.mem_of_lookup_eq_some hp)]
      exact hp

/-! ### The links -/

lemma mem_calculateMemPoolAncestors {limits : AncestorLimits} {setAncestors : SetEntries}
    (hU : ∀ a, m.getMemPoolParents a ⊆ m.mapTx.keys)
    (hs : m.calculateMemPoolAncestors entry limits true = .ok setAncestors) {a : Uint256} :
    a ∈ setAncestors ↔ ∃ p ∈ m.poolParents entry.tx, Reach m.getMemPoolParents p a := by
  unfold calculateMemPoolAncestors at hs
  simp only [if_true, Fallible.bind_eq_ok] at hs
  obtain ⟨stage, hstage, hs⟩ := hs
  have heq := searchParents_eq_ok hstage
  rw [Finset.empty_union] at heq
  change stage = m.poolParents entry.tx at heq
  subst heq
  rw [ancestorsLoop_eq_ok hs, mem_walk picks_first (fun a _ => hU a) _
    (Finset.disjoint_empty_right _) (by simp) (Finset.card_le_card Finset.sdiff_subset)]
  · simp
  · intro p hp
    exact Finmap.mem_keys.mpr (mem_poolParents.mp hp).1

lemma calculateMemPoolAncestors_new (h : Linked m) {limits : AncestorLimits}
    {setAncestors : SetEntries}
    (hs : m.calculateMemPoolAncestors entry limits true = .ok setAncestors) {a : Uint256} :
    a ∈ setAncestors ↔ ∃ p ∈ m.poolParents entry.tx, Reach m.getMemPoolChildren a p := by
  have hU : ∀ a, m.getMemPoolParents a ⊆ m.mapTx.keys :=
    fun a p hp => Finmap.mem_keys.mpr (h.mem ((h.symm p a).mp hp)).1
  rw [mem_calculateMemPoolAncestors hU hs]
  simp only [reach_swap h.symm]

lemma linksAt_linkParents (mu : MemUsage) (l : List Uint256) (m : CTxMemPool) (hash a : Uint256) :
    (l.foldl (fun m phash => if m.has phash then m.updateParent mu hash phash true else m)
        m).linksAt a =
      if a = hash then
        { m.linksAt hash with
          parents := (m.linksAt hash).parents ∪ l.toFinset.filter (· ∈ m.mapTx) }
      else m.linksAt a := by
  induction l generalizing m with
  | nil => by_cases ha : a = hash <;> simp [ha]
  | cons p l ih =>
    rw [List.foldl_cons]
    by_cases hp : m.has p = true
    · rw [if_pos hp, ih]
      have hmap : (m.updateParent mu hash p true).mapTx = m.mapTx := by
        unfold updateParent
        dsimp only
        split_ifs <;> rfl
      rw [hmap]
      by_cases ha : a = hash
      · rw [has_eq_true] at hp
        rw [if_pos ha, if_pos ha, linksAt_updateParent, if_pos rfl]
        simp [Finset.filter_insert, hp]
      · rw [if_neg ha, if_neg ha, linksAt_updateParent, if_neg ha]
    · rw [if_neg hp, ih]
      rw [has_eq_true] at hp
      simp [Finset.filter_insert, hp]

lemma relinked_linkParents (l : List Uint256) {hash : Uint256} (hin : hash ∈ m.mapLinks) :
    Relinked mu m (l.foldl (fun m phash => if m.has phash then m.updateParent mu hash phash true
      else m) m) := by
  refine Relinked.foldl m fun m' hm' p _ => ?_
  split_ifs
  · exact relinked_updateParent (hm'.mem_mapLinks.mpr hin)
  · exact .refl m'

/-- The pool with the entry in it and linked to its parents, which do not know of it yet. -/
structure Entered (mu : MemUsage) (m : CTxMemPool) (entry : CTxMemPoolEntry) (m' : CTxMemPool) :
    Prop where
  lookup : ∀ a, m'.mapTx.lookup a = if a = entry.tx.hash then some entry else m.mapTx.lookup a
  linkKeys : m'.mapLinks.keys = insert entry.tx.hash m.mapTx.keys
  parents : ∀ a, m'.getMemPoolParents a =
    if a = entry.tx.hash then m.poolParents entry.tx else m.getMemPoolParents a
  children : ∀ a, m'.getMemPoolChildren a = m.getMemPoolChildren a
  usage : m'.baseUsage mu = m.baseUsage mu + entry.nUsageSize
  failed : m'.failed = m.failed

lemma keys_insert {β : Type} (s : Finmap fun _ : Uint256 => β) (a : Uint256) (x : β) :
    (s.insert a x).keys = insert a s.keys := by
  ext b
  rw [Finmap.mem_keys, Finmap.mem_insert, Finset.mem_insert, Finmap.mem_keys]

lemma Entered.keys (he : Entered mu m entry m') :
    m'.mapTx.keys = insert entry.tx.hash m.mapTx.keys := by
  ext a
  rw [Finmap.mem_keys, ← Finmap.lookup_isSome, he.lookup, Finset.mem_insert, Finmap.mem_keys,
    ← Finmap.lookup_isSome]
  by_cases ha : a = entry.tx.hash <;> simp [ha]

lemma insertEntry_linksAt (h : Inv mu V m) (hf : Fresh m entry) :
    (∀ a, (m.insertEntry entry).linksAt a = m.linksAt a) ∧
      m.linksAt entry.tx.hash = TxLinks.empty ∧
      (m.insertEntry entry).mapLinks.keys = insert entry.tx.hash m.mapTx.keys := by
  have hlinks : entry.tx.hash ∉ m.mapLinks := by
    rw [← Finmap.mem_keys, h.keys, Finmap.mem_keys]
    exact hf.absent
  have hnone : m.linksAt entry.tx.hash = TxLinks.empty := by
    rw [linksAt, Finmap.lookup_eq_none.mpr hlinks]
    rfl
  refine ⟨fun a => ?_, hnone, ?_⟩
  · rw [linksAt, insertEntry]
    simp only [hlinks, if_false]
    rw [lookup_insert_eq]
    by_cases ha : a = entry.tx.hash
    · rw [if_pos ha, ha, hnone]
      rfl
    · rw [if_neg ha, linksAt]
  · rw [insertEntry, ← h.keys]
    simp only [hlinks, if_false]
    exact keys_insert _ _ _

lemma insertEntry_usage (h : Inv mu V m) (hf : Fresh m entry) :
    (m.insertEntry entry).baseUsage mu = m.baseUsage mu + entry.nUsageSize := by
  obtain ⟨hat, hnone, hkeys⟩ := insertEntry_linksAt h hf
  have hcount : ∀ a, (m.insertEntry entry).linkCount a = m.linkCount a := by
    intro a
    rw [linkCount, linkCount, hat]
  have hzero : m.linkCount entry.tx.hash = 0 := by
    rw [linkCount, hnone]
    rfl
  have hnot : entry.tx.hash ∉ m.mapTx.keys := fun hmem => hf.absent (Finmap.mem_keys.mp hmem)
  unfold baseUsage
  rw [hkeys, h.keys, Finset.sum_insert hnot, hcount, hzero, zero_add]
  simp only [hcount]
  change m.cachedInnerUsage + entry.nUsageSize - _ = _
  omega

lemma Inv.entered (h : Inv mu V m) (hf : Fresh m entry) :
    Entered mu m entry ((SetEntries.inOrder (entry.tx.vin.map (·.prevout.hash)).toFinset).foldl
      (fun m phash => if m.has phash then m.updateParent mu entry.tx.hash phash true else m)
      ((m.insertEntry entry).setNextTx entry.tx)) := by
  obtain ⟨hat₁, hnone, hkeys₁⟩ := insertEntry_linksAt h hf
  have hhas : m.has entry.tx.hash = false := by simp [has, hf.absent]
  have hlook₁ : ∀ a, ((m.insertEntry entry).setNextTx entry.tx).mapTx.lookup a =
      if a = entry.tx.hash then some entry else m.mapTx.lookup a := by
    intro a
    change (m.insertEntry entry).mapTx.lookup a = _
    rw [insertEntry, hhas]
    exact lookup_insert_eq _ _ _ _
  have hin : entry.tx.hash ∈ ((m.insertEntry entry).setNextTx entry.tx).mapLinks := by
    rw [← Finmap.mem_keys]
    change entry.tx.hash ∈ (m.insertEntry entry).mapLinks.keys
    rw [hkeys₁]
    exact Finset.mem_insert_self ..
  have hrel : Relinked mu _ _ := relinked_linkParents
    (SetEntries.inOrder (entry.tx.vin.map (·.prevout.hash)).toFinset) hin
  have hat := fun a => linksAt_linkParents mu
    (SetEntries.inOrder (entry.tx.vin.map (·.prevout.hash)).toFinset)
    ((m.insertEntry entry).setNextTx entry.tx) entry.tx.hash a
  refine ⟨fun a => ?_, ?_, fun a => ?_, fun a => ?_, ?_, hrel.failed⟩
  · rw [hrel.mapTx, hlook₁]
  · rw [hrel.keys]
    exact hkeys₁
  · rw [getMemPoolParents, hat]
    split_ifs with ha
    · change ((m.insertEntry entry).linksAt entry.tx.hash).parents ∪ _ = _
      rw [hat₁, hnone]
      change ∅ ∪ _ = _
      rw [Finset.empty_union]
      ext p
      rw [Finset.mem_filter, List.mem_toFinset, mem_inOrder, List.mem_toFinset, mem_poolParents,
        ← Finmap.lookup_isSome, hlook₁, ← Finmap.lookup_isSome, CTransaction.prevouts]
      simp only [List.mem_map, exists_exists_and_eq_and]
      constructor
      · rintro ⟨⟨i, hi, rfl⟩, hp⟩
        rw [if_neg (hf.foreign i.prevout (List.mem_map_of_mem hi))] at hp
        exact ⟨hp, i, hi, rfl⟩
      · rintro ⟨hp, i, hi, rfl⟩
        rw [if_neg (hf.foreign i.prevout (List.mem_map_of_mem hi))]
        exact ⟨⟨i, hi, rfl⟩, hp⟩
    · change ((m.insertEntry entry).linksAt a).parents = _
      rw [hat₁]
      rfl
  · rw [getMemPoolChildren, hat]
    split_ifs with ha
    · change ((m.insertEntry entry).linksAt entry.tx.hash).children = _
      rw [hat₁, ha]
      rfl
    · change ((m.insertEntry entry).linksAt a).children = _
      rw [hat₁]
      rfl
  · rw [hrel.usage]
    exact insertEntry_usage h hf

/-! ### The ancestors are told -/

section

variable {next next' : Uint256 → Finset Uint256} {P : Finset Uint256} {n a : Uint256}

open Classical in
lemma package_addLeaf (hkeys : m'.mapTx.keys = insert n m.mapTx.keys)
    (hreach : ∀ a d, Reach next' a d ↔ Reach next a d ∨ d = n ∧ ∃ p ∈ P, Reach next a p) :
    m'.package next' a = if ∃ p ∈ P, Reach next a p then insert n (m.package next a)
      else m'.package next a := by
  ext d
  have hmem : d ∈ m'.mapTx ↔ d = n ∨ d ∈ m.mapTx := by
    rw [← Finmap.mem_keys, hkeys, Finset.mem_insert, Finmap.mem_keys]
  by_cases ha : ∃ p ∈ P, Reach next a p
  · rw [if_pos ha, mem_package, Finset.mem_insert, mem_package, hmem, hreach]
    tauto
  · rw [if_neg ha, mem_package, mem_package, hreach]
    exact and_congr_right fun _ => or_iff_left fun h => ha h.2

open Classical in
lemma package_insert_of_ne (hkeys : m'.mapTx.keys = insert n m.mapTx.keys)
    (hn : ¬ Reach next a n) : m'.package next a = m.package next a := by
  ext d
  rw [mem_package, mem_package, ← Finmap.mem_keys, hkeys, Finset.mem_insert, Finmap.mem_keys]
  constructor
  · rintro ⟨rfl | hd, had⟩
    · exact absurd had hn
    · exact ⟨hd, had⟩
  · exact fun hd => ⟨.inr hd.1, hd.2⟩

end

lemma Inv.unlinked (h : Inv mu V m) (hf : Fresh m entry) :
    (∀ a, entry.tx.hash ∉ m.getMemPoolChildren a) ∧ m.getMemPoolChildren entry.tx.hash = ∅ := by
  refine ⟨fun a ha => hf.absent (h.mem ha).mem, ?_⟩
  rw [Finset.eq_empty_iff_forall_notMem]
  exact fun c hc => hf.absent (h.mem hc).1

lemma Inv.tracks_entered (h : Inv mu V m) (hf : Fresh m entry) (he : Entered mu m entry m') :
    Tracks m' fun a => if a = entry.tx.hash then {entry.tx.hash} else
      m.package m.getMemPoolChildren a := by
  have hweight : ∀ a, m'.weightAt a =
      if a = entry.tx.hash then entry.weight else m.weightAt a := by
    intro a
    rw [weightAt, bareAt, he.lookup, weightAt, bareAt]
    split_ifs <;> rfl
  intro a e hlook
  rw [he.lookup] at hlook
  split_ifs at hlook with ha
  · obtain rfl := Option.some.inj hlook
    right
    simp only [ha, if_true, Finset.sum_singleton, hweight]
    exact hf.state
  · simp only [if_neg ha]
    refine (h.tracks a e hlook).imp id fun hstate => ?_
    rw [hstate]
    refine Finset.sum_congr rfl fun d hd => ?_
    have hd' : d ≠ entry.tx.hash := fun heq => hf.absent (heq ▸ (mem_package.mp hd).1)
    rw [hweight, if_neg hd']

lemma Inv.sum_package_added (h : Inv mu V m) (hf : Fresh m entry)
    (hkeys : m'.mapTx.keys = insert entry.tx.hash m.mapTx.keys)
    (hchildren : ∀ a, m'.getMemPoolChildren a = if a ∈ m.poolParents entry.tx then
      insert entry.tx.hash (m.getMemPoolChildren a) else m.getMemPoolChildren a)
    {l : List Uint256} {a : Uint256} (ha : a ∈ m'.mapTx)
    (hl : a ∈ l ↔ ∃ p ∈ m.poolParents entry.tx, Reach m.getMemPoolChildren a p)
    (w : Uint256 → Weight) :
    ∑ d ∈ m'.package m'.getMemPoolChildren a, w d =
      ∑ d ∈ (if a = entry.tx.hash then {entry.tx.hash} else m.package m.getMemPoolChildren a), w d +
        if a ∈ l then w entry.tx.hash else 0 := by
  obtain ⟨hfresh, hleaf⟩ := h.unlinked hf
  have hP : entry.tx.hash ∉ m.poolParents entry.tx := fun hp => hf.absent (mem_poolParents.mp hp).1
  have hstuck : ∀ {d}, Reach m.getMemPoolChildren entry.tx.hash d → entry.tx.hash = d := by
    intro d hd
    refine hd.cases_head.resolve_right ?_
    rintro ⟨c, hc, -⟩
    rw [hleaf] at hc
    exact Finset.notMem_empty c hc
  rw [package_addLeaf hkeys fun a d => reach_addLeaf hfresh hleaf hP hchildren]
  by_cases hanc : ∃ p ∈ m.poolParents entry.tx, Reach m.getMemPoolChildren a p
  · have han : a ≠ entry.tx.hash := by
      rintro rfl
      obtain ⟨p, hp, hreach⟩ := hanc
      exact hP (hstuck hreach ▸ hp)
    have hnot : entry.tx.hash ∉ m.package m.getMemPoolChildren a :=
      fun hmem => hf.absent (mem_package.mp hmem).1
    rw [if_pos hanc, if_pos (hl.mpr hanc), if_neg han, Finset.sum_insert hnot, add_comm]
  · rw [if_neg hanc, if_neg fun hin => hanc (hl.mp hin), add_zero]
    by_cases han : a = entry.tx.hash
    · have hsingle : m'.package m.getMemPoolChildren a = {entry.tx.hash} := by
        ext d
        rw [mem_package, Finset.mem_singleton, han]
        constructor
        · exact fun hd => (hstuck hd.2).symm
        · rintro rfl
          exact ⟨han ▸ ha, .refl _⟩
      rw [if_pos han, hsingle]
    · rw [if_neg han, package_insert_of_ne hkeys]
      intro hreach
      obtain ⟨c, -, hc⟩ := leadsTo_iff_tail.mp (hreach.leadsTo han)
      exact hfresh c hc

/-- The pool with the entry in it, when its ancestors have been told. -/
structure Told (mu : MemUsage) (m : CTxMemPool) (entry : CTxMemPoolEntry) (m' : CTxMemPool) :
    Prop where
  keys : m'.mapTx.keys = insert entry.tx.hash m.mapTx.keys
  linkKeys : m'.mapLinks.keys = m'.mapTx.keys
  parents : ∀ a, m'.getMemPoolParents a =
    if a = entry.tx.hash then m.poolParents entry.tx else m.getMemPoolParents a
  children : ∀ a, m'.getMemPoolChildren a = if a ∈ m.poolParents entry.tx then
    insert entry.tx.hash (m.getMemPoolChildren a) else m.getMemPoolChildren a
  tracks : Tracks m' (m'.package m'.getMemPoolChildren)
  usage : m'.baseUsage mu = m.baseUsage mu + entry.nUsageSize
  failed : m'.failed = m.failed

lemma Inv.told (h : Inv mu V m) (hf : Fresh m entry) (he : Entered mu m entry m')
    {setAncestors : SetEntries} (hancestors : ∀ a, a ∈ setAncestors ↔
      ∃ p ∈ m.poolParents entry.tx, Reach m.getMemPoolChildren a p) (hw : Weighty m') :
    Told mu m entry (m'.updateAncestorsOf mu true entry.tx.hash setAncestors) := by
  have hin : ∀ p ∈ m'.getMemPoolParents entry.tx.hash, p ∈ m'.mapLinks := by
    intro p hp
    rw [he.parents, if_pos rfl, mem_poolParents] at hp
    rw [← Finmap.mem_keys, he.linkKeys, Finset.mem_insert, Finmap.mem_keys]
    exact .inr hp.1
  obtain ⟨m₁, hrel, hlinks, hshift⟩ := updateAncestorsOf_spec mu true setAncestors
    (Finmap.mem_keys.mp (he.keys ▸ Finset.mem_insert_self ..)) hin
  rw [if_pos rfl, ← hrel.alike.weightAt] at hshift
  generalize m'.updateAncestorsOf mu true entry.tx.hash setAncestors = m₂ at hshift ⊢
  have hat : ∀ a, m₂.linksAt a = m₁.linksAt a := by
    intro a
    rw [linksAt, hshift.links, linksAt]
  have hkeys : m₂.mapTx.keys = insert entry.tx.hash m.mapTx.keys := by
    rw [hshift.alike.keys, hrel.mapTx, he.keys]
  have hchildren : ∀ a, m₂.getMemPoolChildren a = if a ∈ m.poolParents entry.tx then
      insert entry.tx.hash (m.getMemPoolChildren a) else m.getMemPoolChildren a := by
    intro a
    rw [getMemPoolChildren, hat, hlinks, he.parents, if_pos rfl, ← he.children]
    by_cases ha : a ∈ m.poolParents entry.tx
    · rw [if_pos ha, if_pos ha]
      rfl
    · rw [if_neg ha, if_neg ha]
      rfl
  obtain ⟨htracks, hfailed⟩ := hshift.tracks (m₂.package m₂.getMemPoolChildren)
    (hrel.alike.weighty hw) ((h.tracks_entered hf he).of_mapTx hrel.mapTx) (by
      intro a ha
      have ha₂ : a ∈ m₂.mapTx := hshift.alike.mem_iff.mpr ha
      refine ⟨self_mem_package _ ha₂, ?_, ?_⟩
      · rw [← hshift.alike.keys]
        exact package_subset ..
      · refine h.sum_package_added hf hkeys hchildren ha₂ ?_ _
        rw [mem_inOrder, hancestors])
  refine ⟨hkeys, ?_, fun a => ?_, hchildren, htracks, ?_, ?_⟩
  · rw [hshift.links, hrel.keys, he.linkKeys, hkeys]
  · rw [getMemPoolParents, hat, hlinks, ← he.parents a]
    by_cases ha : a ∈ m'.getMemPoolParents entry.tx.hash
    · rw [if_pos ha]
      rfl
    · rw [if_neg ha]
      rfl
  · rw [hshift.baseUsage, hrel.usage, he.usage]
  · rw [hfailed, hrel.failed, he.failed]

/-! ### `addUnchecked` -/

/-- Which transactions have links missing after an entry has come in: it has its parents among them
if it is one of them, and only then something in the pool may spend from it. -/
structure Joins (m : CTxMemPool) (V V' : Finset Uint256) (entry : CTxMemPoolEntry) : Prop where
  other : ∀ a, a ≠ entry.tx.hash → (a ∈ V' ↔ a ∈ V)
  parents : ∀ p ∈ m.poolParents entry.tx, p ∈ V ↔ entry.tx.hash ∈ V'
  children : ∀ c, m.SpendsFrom entry.tx.hash c → entry.tx.hash ∈ V' ∧ c ∉ V

lemma Reach.up (h : Inv mu V m) {c p : Uint256} (hreach : Reach m.dependents c p) (hp : p ∈ V) :
    c ∈ V := by
  induction hreach using Relation.ReflTransGen.head_induction_on with
  | refl => exact hp
  | head hstep _ ih => exact h.up (mem_dependents.mp hstep) ih

lemma SpendsFrom.mem {hash c : Uint256} (h : m.SpendsFrom hash c) : c ∈ m.mapTx := by
  obtain ⟨tx, htx, -⟩ := h
  exact mem_of_txAt htx

lemma Inv.linkedTo_added (h : Inv mu V m) (hf : Fresh m entry) (hj : Joins m V V' entry)
    (ha : Added entry m m') (p : Uint256) : m'.linkedTo V' V' p =
      if p ∈ m.poolParents entry.tx then insert entry.tx.hash (m.getMemPoolChildren p)
      else m.getMemPoolChildren p := by
  have hn : ∀ {a}, a ∈ m.mapTx → a ≠ entry.tx.hash := fun ha heq => hf.absent (heq ▸ ha)
  have hold : ∀ {c}, m.Spends p c → (c ∈ m.getMemPoolChildren p ↔ (p ∈ V' → c ∈ V')) := by
    intro c hpc
    rw [h.children, mem_linkedTo, and_iff_right hpc, hj.other p (hn hpc.1), hj.other c (hn hpc.mem)]
  ext c
  rw [mem_linkedTo, ha.spends hf]
  by_cases hp : p ∈ m.poolParents entry.tx
  · have hpn : p ≠ entry.tx.hash := hn (mem_poolParents.mp hp).1
    rw [if_pos hp, Finset.mem_insert]
    constructor
    · rintro ⟨hpc | ⟨hc, -⟩ | ⟨heq, -⟩, hV⟩
      · exact .inr ((hold hpc).mpr hV)
      · exact .inl hc
      · exact absurd heq hpn
    · rintro (hc | hc)
      · refine ⟨.inr (.inl ⟨hc, hp⟩), fun hpV => ?_⟩
        rw [hc]
        exact (hj.parents p hp).mp ((hj.other p hpn).mp hpV)
      · exact ⟨.inl (h.mem hc), (hold (h.mem hc)).mp hc⟩
  · rw [if_neg hp]
    constructor
    · rintro ⟨hpc | ⟨-, hp'⟩ | ⟨heq, hfrom⟩, hV⟩
      · exact (hold hpc).mpr hV
      · exact absurd hp' hp
      · -- an entry that spends from the new one has no link to it yet
        obtain ⟨hnV, hcV⟩ := hj.children c hfrom
        exact absurd ((hj.other c (hn hfrom.mem)).mp (hV (heq ▸ hnV))) hcV
    · exact fun hc => ⟨.inl (h.mem hc), (hold (h.mem hc)).mp hc⟩

/-- **`addUnchecked`.** The pool stays consistent, up to the links that are known to be missing. -/
theorem Inv.addUncheckedWith (h : Inv mu V m) (hf : Fresh m entry) (hj : Joins m V V' entry)
    {limits : AncestorLimits} {setAncestors : SetEntries}
    (hs : m.calculateMemPoolAncestors entry limits true = .ok setAncestors) :
    Inv mu V' (m.addUncheckedWith mu entry setAncestors) := by
  have hadded := added_addUncheckedWith mu hf.absent setAncestors
  have hstock : Stock (m.addUncheckedWith mu entry setAncestors) := by
    refine h.stock.added hadded hf fun c hc p hp hcp => ?_
    have hV := hj.children c hc
    exact hV.2 (Reach.up h hcp ((hj.parents p hp).mpr hV.1))
  have hentered := h.entered hf
  have heq : m.addUncheckedWith mu entry setAncestors =
      let m' := ((SetEntries.inOrder (entry.tx.vin.map (·.prevout.hash)).toFinset).foldl
        (fun m phash => if m.has phash then m.updateParent mu entry.tx.hash phash true else m)
        ((m.insertEntry entry).setNextTx entry.tx)).updateAncestorsOf mu true entry.tx.hash
          setAncestors
      { m' with totalTxSize := m'.totalTxSize + entry.nTxSize } := by
    simp [CTxMemPool.addUncheckedWith, hf.ordinary]
  rw [heq] at hadded hstock ⊢
  dsimp only at hadded hstock ⊢
  generalize (SetEntries.inOrder (entry.tx.vin.map (·.prevout.hash)).toFinset).foldl
    (fun m phash => if m.has phash then m.updateParent mu entry.tx.hash phash true else m)
    ((m.insertEntry entry).setNextTx entry.tx) = m₁ at hentered hadded hstock ⊢
  have halike := alike_updateAncestorsOf mu m₁ true entry.tx.hash setAncestors
  have htold := h.told hf hentered (fun a => calculateMemPoolAncestors_new h.linked hs) (by
    intro a ha
    rw [← halike.weightAt]
    exact hstock.weighty a (halike.mem_iff.mpr ha))
  generalize m₁.updateAncestorsOf mu true entry.tx.hash setAncestors = m₂
    at hadded hstock htold halike ⊢
  have hn : ∀ {a}, a ∈ m.mapTx → a ≠ entry.tx.hash := fun ha heq => hf.absent (heq ▸ ha)
  have hsum : ∀ {f f' : Uint256 → ℤ} {x : ℤ}, f' entry.tx.hash = x →
      (∀ a, a ≠ entry.tx.hash → f' a = f a) →
        ∑ a ∈ m₂.mapTx.keys, f' a = ∑ a ∈ m.mapTx.keys, f a + x := by
    intro f f' x hx hother
    have hnot : entry.tx.hash ∉ m.mapTx.keys := fun hmem => hf.absent (Finmap.mem_keys.mp hmem)
    rw [htold.keys, Finset.sum_insert hnot, hx, add_comm]
    congr 1
    exact Finset.sum_congr rfl fun a ha => hother a (hn (Finmap.mem_keys.mp ha))
  refine ⟨hstock, htold.linkKeys, fun p => ?_, fun p c => ?_, fun {p c} hpc hc => ?_,
    htold.tracks.of_mapTx rfl, ?_, ?_, htold.failed.trans h.failed⟩
  · rw [h.linkedTo_added hf hj hadded]
    exact htold.children p
  · change p ∈ m₂.getMemPoolParents c ↔ c ∈ m₂.getMemPoolChildren p
    rw [htold.parents, htold.children]
    by_cases hc : c = entry.tx.hash
    · rw [if_pos hc, hc]
      split_ifs with hp
      · simp [hp]
      · simp [hp, (h.unlinked hf).1 p]
    · rw [if_neg hc, h.parents]
      split_ifs with hp
      · simp [hc]
      · rfl
  · rcases (hadded.spends hf).mp hpc with hpc | ⟨rfl, hp⟩ | ⟨rfl, hfrom⟩
    · rw [hj.other p (hn hpc.1)]
      exact h.up hpc ((hj.other c (hn hpc.mem)).mp hc)
    · rw [hj.other p (hn (mem_poolParents.mp hp).1)]
      exact (hj.parents p hp).mpr hc
    · exact (hj.children c hfrom).1
  · rw [hadded.total, h.total]
    refine (hsum ?_ fun a ha => ?_).symm
    · rw [txSize_eq_bareAt, hadded.bare, if_pos rfl]
      rfl
    · rw [txSize_eq_bareAt, txSize_eq_bareAt, hadded.bare, if_neg ha]
  · change m₂.baseUsage mu = _
    rw [htold.usage, h.usage]
    refine (hsum ?_ fun a ha => ?_).symm
    · rw [usageAt, hadded.bare, if_pos rfl]
      rfl
    · rw [usageAt, usageAt, hadded.bare, if_neg ha]

lemma exists_ancestors_new (m : CTxMemPool) (entry : CTxMemPoolEntry) :
    ∃ setAncestors, m.calculateMemPoolAncestors entry .nNoLimit true = .ok setAncestors := by
  obtain ⟨parentHashes, hparents⟩ := m.searchParents_none ∅ entry.tx.vin
  obtain ⟨setAncestors, hs⟩ := ancestorsLoop_nNoLimit m entry.nTxSize m.mapTx.keys.card
    parentHashes ∅ entry.nTxSize
  refine ⟨setAncestors, ?_⟩
  unfold calculateMemPoolAncestors
  simp only [if_true, Fallible.bind_eq_ok]
  exact ⟨parentHashes, hparents, hs⟩

/-- `addUnchecked` that looks for the ancestors itself. -/
theorem Inv.addUnchecked (h : Inv mu V m) (hf : Fresh m entry) (hj : Joins m V V' entry) :
    Inv mu V' (m.addUnchecked mu entry) := by
  obtain ⟨setAncestors, hs⟩ := m.exists_ancestors_new entry
  rw [CTxMemPool.addUnchecked, hs]
  exact h.addUncheckedWith hf hj hs

end CTxMemPool

end Agenor
