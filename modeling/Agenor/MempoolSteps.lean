import Agenor.Mempool

/-!
What the single changes of the memory pool leave alone.

Links and the numbers about descendants change all the time; the transactions, their fees and sizes
and what they spend change only when an entry comes or goes.
-/

namespace Agenor

open Lib

/-- An entry without what it knows about its descendants. -/
def CTxMemPoolEntry.bare (e : CTxMemPoolEntry) : CTxMemPoolEntry :=
  { e with nCountWithDescendants := 0, nSizeWithDescendants := 0, nFeesWithDescendants := 0 }

@[simp] lemma CTxMemPoolEntry.bare_updateState (e : CTxMemPoolEntry) (a b c : ℤ) :
    (e.updateState a b c).bare = e.bare := by
  unfold updateState
  split_ifs <;> rfl

@[simp] lemma CTxMemPoolEntry.bare_setDirty (e : CTxMemPoolEntry) : e.setDirty.bare = e.bare := rfl

/-- The outpoints that a transaction spends. -/
def CTransaction.prevouts (tx : CTransaction) : List COutPoint := tx.vin.map (·.prevout)

namespace CTxMemPool

variable (mu : MemUsage) {m m' m₁ m₂ : CTxMemPool} {it : Uint256}

lemma lookup_insert_eq {β : Type} (s : Finmap fun _ : Uint256 => β) (a b : Uint256) (x : β) :
    (s.insert b x).lookup a = if a = b then some x else s.lookup a := by
  split_ifs with h
  · rw [h, Finmap.lookup_insert]
  · rw [Finmap.lookup_insert_of_ne _ h]

lemma lookup_erase_eq {α β : Type} [DecidableEq α] (s : Finmap fun _ : α => β) (a b : α) :
    (s.erase b).lookup a = if a = b then none else s.lookup a := by
  split_ifs with h
  · rw [h, Finmap.lookup_erase]
  · rw [Finmap.lookup_erase_ne h]

@[simp] lemma has_eq_true {hash : Uint256} : m.has hash = true ↔ hash ∈ m.mapTx := by simp [has]

lemma mem_inOrder {s : SetEntries} : it ∈ SetEntries.inOrder s ↔ it ∈ s := mem_ascending _

lemma toFinset_inOrder (s : SetEntries) : (SetEntries.inOrder s).toFinset = s := by
  ext a
  rw [List.mem_toFinset, mem_inOrder]

/-- The entry for a hash, without what it knows about its descendants. -/
def bareAt (m : CTxMemPool) (it : Uint256) : Option CTxMemPoolEntry :=
  (m.mapTx.lookup it).map (·.bare)

def txAt (m : CTxMemPool) (it : Uint256) : Option CTransaction := (m.bareAt it).map (·.tx)

lemma txAt_of_lookup {e : CTxMemPoolEntry} (h : m.mapTx.lookup it = some e) :
    m.txAt it = some e.tx := by
  simp [txAt, bareAt, h, CTxMemPoolEntry.bare]

lemma mem_iff_bareAt : it ∈ m.mapTx ↔ (m.bareAt it).isSome := by
  rw [bareAt, Option.isSome_map, Finmap.lookup_isSome]

/-! ### Changes that are not seen in the transactions -/

/-- The pools have the same entries, up to what these know about their descendants. -/
structure Alike (m m' : CTxMemPool) : Prop where
  bare : ∀ it, m'.bareAt it = m.bareAt it
  next : m'.mapNextTx = m.mapNextTx
  total : m'.totalTxSize = m.totalTxSize

namespace Alike

lemma refl (m : CTxMemPool) : Alike m m := ⟨fun _ => rfl, rfl, rfl⟩

lemma trans (h : Alike m m₁) (h' : Alike m₁ m₂) : Alike m m₂ :=
  ⟨fun it => (h'.bare it).trans (h.bare it), h'.next.trans h.next, h'.total.trans h.total⟩

lemma foldl {α : Type} {f : CTxMemPool → α → CTxMemPool} (hf : ∀ m a, Alike m (f m a))
    (l : List α) (m : CTxMemPool) : Alike m (l.foldl f m) := by
  induction l generalizing m with
  | nil => exact .refl m
  | cons a l ih => exact (hf m a).trans (ih (f m a))

lemma mem_iff (h : Alike m m') : it ∈ m'.mapTx ↔ it ∈ m.mapTx := by
  rw [mem_iff_bareAt, mem_iff_bareAt, h.bare]

lemma keys (h : Alike m m') : m'.mapTx.keys = m.mapTx.keys := by
  ext it
  rw [Finmap.mem_keys, Finmap.mem_keys, h.mem_iff]

lemma txAt (h : Alike m m') (it : Uint256) : m'.txAt it = m.txAt it := by
  rw [CTxMemPool.txAt, CTxMemPool.txAt, h.bare]

end Alike

lemma alike_modify {f : CTxMemPoolEntry → CTxMemPoolEntry} (hf : ∀ e, (f e).bare = e.bare)
    (m : CTxMemPool) (it : Uint256) : Alike m (m.modify it f) := by
  unfold modify
  cases hm : m.mapTx.lookup it with
  | none => exact .refl m
  | some e =>
    refine ⟨fun a => ?_, rfl, rfl⟩
    rw [bareAt, bareAt, lookup_insert_eq]
    by_cases ha : a = it
    · rw [if_pos ha, ha, hm, Option.map_some, Option.map_some, hf]
    · rw [if_neg ha]

lemma alike_failed (m : CTxMemPool) (b : Bool) : Alike m { m with failed := b } :=
  ⟨fun _ => rfl, rfl, rfl⟩

lemma alike_updateDescendantState (m : CTxMemPool) (a b c : ℤ) (it : Uint256) :
    Alike m (m.updateDescendantState a b c it) :=
  (alike_modify (fun e => e.bare_updateState a b c) m it).trans (alike_failed _ _)

lemma alike_updateChild (m : CTxMemPool) (entry child : Uint256) (add : Bool) :
    Alike m (m.updateChild mu entry child add) := by
  unfold updateChild
  dsimp only
  split_ifs <;> exact ⟨fun _ => rfl, rfl, rfl⟩

lemma alike_updateParent (m : CTxMemPool) (entry parent : Uint256) (add : Bool) :
    Alike m (m.updateParent mu entry parent add) := by
  unfold updateParent
  dsimp only
  split_ifs <;> exact ⟨fun _ => rfl, rfl, rfl⟩

lemma alike_updateAncestorsOf (m : CTxMemPool) (add : Bool) (it : Uint256) (s : SetEntries) :
    Alike m (m.updateAncestorsOf mu add it s) :=
  (Alike.foldl (fun m a => alike_updateChild mu m a it add) _ m).trans
    (Alike.foldl (fun m a => alike_updateDescendantState m _ _ _ a) _ _)

lemma alike_updateAncestorsForRemoval (m : CTxMemPool) (it : Uint256) :
    Alike m (m.updateAncestorsForRemoval mu it) := by
  unfold updateAncestorsForRemoval
  cases m.mapTx.lookup it with
  | none => exact .refl m
  | some e =>
    dsimp only
    cases m.calculateMemPoolAncestors e .nNoLimit false with
    | error => exact .refl m
    | ok s => exact alike_updateAncestorsOf mu m false it s

lemma alike_updateForRemoveFromMempool (m : CTxMemPool) (s : SetEntries) :
    Alike m (m.updateForRemoveFromMempool mu s) :=
  (Alike.foldl (fun m a => alike_updateAncestorsForRemoval mu m a) _ m).trans
    (Alike.foldl (fun m a => Alike.foldl (fun m b => alike_updateParent mu m b a false) _ m) _ _)

lemma alike_linkChild (s : CTxMemPool × SetEntries) (included : SetEntries)
    (it child : Uint256) : Alike s.1 (linkChild mu included it s child).1 := by
  unfold linkChild
  dsimp only
  split_ifs
  · exact alike_failed _ _
  · exact alike_failed _ _
  · exact ((alike_failed _ _).trans (alike_updateChild mu ..)).trans (alike_updateParent mu ..)

lemma alike_linkChildren (included : SetEntries) (it : Uint256) (l : List Uint256)
    (s : CTxMemPool × SetEntries) :
    Alike s.1 (l.foldl (linkChild mu included it) s).1 := by
  induction l generalizing s with
  | nil => exact .refl _
  | cons a l ih => exact (alike_linkChild mu s included it a).trans (ih _)

lemma alike_updateForDescendants {n : ℕ} {cache cache' : CacheMap} {exclude : SetEntries}
    (h : m.updateForDescendants it n cache exclude = some (m', cache')) : Alike m m' := by
  unfold updateForDescendants at h
  dsimp only at h
  split at h
  · cases h
  · cases h
    exact alike_updateDescendantState ..

lemma alike_updateTransactionFromBlock (s : CTxMemPool × CacheMap) (included : SetEntries)
    (hash : Uint256) : Alike s.1 (updateTransactionFromBlock mu included s hash).1 := by
  unfold updateTransactionFromBlock
  split_ifs
  · refine (alike_linkChildren mu included hash (s.1.nextOf hash) (s.1, ∅)).trans ?_
    dsimp only
    split
    · next r hr => exact alike_updateForDescendants hr
    · exact alike_modify (fun e => e.bare_setDirty) _ _
  · exact .refl _

lemma alike_updateTransactionsFromBlock (m : CTxMemPool) (l : List Uint256) :
    Alike m (m.updateTransactionsFromBlock mu l) := by
  have hfold : ∀ (l' : List Uint256) (s : CTxMemPool × CacheMap), Alike s.1
      (l'.foldl (updateTransactionFromBlock mu l.toFinset) s).1 := by
    intro l'
    induction l' with
    | nil => exact fun s => .refl _
    | cons a l' ih => exact fun s => (alike_updateTransactionFromBlock mu s _ a).trans (ih _)
  exact hfold l.reverse (m, fun _ => none)

/-! ### Entries that go -/

/-- The entries of a set are gone, and so are the outpoints they spend. -/
structure Removed (s : SetEntries) (m m' : CTxMemPool) : Prop where
  bare : ∀ it, m'.bareAt it = if it ∈ s then none else m.bareAt it
  next : ∀ o, m'.mapNextTx.lookup o =
    if ∃ it ∈ s, ∃ tx, m.txAt it = some tx ∧ o ∈ tx.prevouts then none else m.mapNextTx.lookup o

lemma lookup_eraseAll (l : List CTxIn) (s : Finmap fun _ : COutPoint => CInPoint) (o : COutPoint) :
    (l.foldl (fun s txin => s.erase txin.prevout) s).lookup o =
      if o ∈ l.map (·.prevout) then none else s.lookup o := by
  induction l generalizing s with
  | nil => simp
  | cons i l ih =>
    rw [List.foldl_cons, ih, lookup_erase_eq]
    by_cases ho : o = i.prevout
    · simp [ho]
    · simp [ho]

open Classical in
lemma removed_removeUnchecked (m : CTxMemPool) (it : Uint256) :
    Removed {it} m (m.removeUnchecked mu it) := by
  unfold removeUnchecked
  cases hm : m.mapTx.lookup it with
  | none =>
    have hbare : m.bareAt it = none := by simp [bareAt, hm]
    refine ⟨fun a => ?_, fun o => ?_⟩
    · by_cases ha : a = it
      · simp [ha, hbare]
      · simp [ha]
    · rw [if_neg]
      rintro ⟨a, ha, tx, htx, -⟩
      rw [Finset.mem_singleton.mp ha, txAt, hbare] at htx
      simp at htx
  | some e =>
    refine ⟨fun a => ?_, fun o => ?_⟩
    · rw [bareAt, bareAt, lookup_erase_eq]
      by_cases ha : a = it
      · simp [ha]
      · simp [ha]
    · rw [lookup_eraseAll]
      congr 1
      apply propext
      constructor
      · exact fun ho => ⟨it, Finset.mem_singleton_self it, e.tx, txAt_of_lookup hm, ho⟩
      · rintro ⟨a, ha, tx, htx, ho⟩
        rw [Finset.mem_singleton.mp ha, txAt_of_lookup hm] at htx
        cases htx
        exact ho

lemma Removed.of_alike {s : SetEntries} (h : Alike m m₁) (h' : Removed s m₁ m₂) :
    Removed s m m₂ where
  bare it := by rw [h'.bare, h.bare]
  next o := by simp only [h'.next, h.next, h.txAt]

lemma Removed.txAt {s : SetEntries} (h : Removed s m m') (it : Uint256) :
    m'.txAt it = if it ∈ s then none else m.txAt it := by
  rw [CTxMemPool.txAt, h.bare]
  split_ifs <;> rfl

lemma Removed.union {s t : SetEntries} (h : Removed s m m₁) (h' : Removed t m₁ m₂) :
    Removed (s ∪ t) m m₂ where
  bare it := by
    rw [h'.bare, h.bare]
    by_cases hs : it ∈ s <;> by_cases ht : it ∈ t <;> simp [hs, ht]
  next o := by
    rw [h'.next, h.next]
    by_cases h₁ : ∃ it ∈ s, ∃ tx, m.txAt it = some tx ∧ o ∈ tx.prevouts
    · have h₂ : ∃ it ∈ s ∪ t, ∃ tx, m.txAt it = some tx ∧ o ∈ tx.prevouts := by
        obtain ⟨it, hit, hrest⟩ := h₁
        exact ⟨it, Finset.mem_union_left _ hit, hrest⟩
      rw [if_pos h₁, if_pos h₂, ite_self]
    · rw [if_neg h₁]
      congr 1
      apply propext
      constructor
      · rintro ⟨it, hit, tx, htx, ho⟩
        rw [h.txAt] at htx
        split_ifs at htx
        exact ⟨it, Finset.mem_union_right _ hit, tx, htx, ho⟩
      · rintro ⟨it, hit, tx, htx, ho⟩
        have hs : it ∉ s := fun hs => h₁ ⟨it, hs, tx, htx, ho⟩
        refine ⟨it, (Finset.mem_union.mp hit).resolve_left hs, tx, ?_, ho⟩
        rw [h.txAt, if_neg hs, htx]

lemma removed_foldl (l : List Uint256) (m : CTxMemPool) :
    Removed l.toFinset m (l.foldl (fun m it => m.removeUnchecked mu it) m) := by
  induction l generalizing m with
  | nil => exact ⟨fun _ => by simp, fun o => by simp⟩
  | cons a l ih =>
    have h := (removed_removeUnchecked mu m a).union (ih (m.removeUnchecked mu a))
    rw [List.toFinset_cons, Finset.insert_eq]
    exact h

/-- **`RemoveStaged`.** The staged entries are gone, and nothing else. -/
theorem removed_removeStaged (m : CTxMemPool) (stage : SetEntries) :
    Removed stage m (m.removeStaged mu stage) := by
  have h := removed_foldl mu (SetEntries.inOrder stage)
    (m.updateForRemoveFromMempool mu stage)
  rw [toFinset_inOrder] at h
  exact h.of_alike (alike_updateForRemoveFromMempool mu m stage)

/-! ### Entries that come -/

/-- An outpoint that an input of a transaction spends, by number. -/
def SpentAt (tx : CTransaction) (o : COutPoint) (p : CInPoint) : Prop :=
  p.ptx = tx ∧ (tx.vin[p.n]?).map (·.prevout) = some o

lemma lookup_insertNext (tx : CTransaction) (o : COutPoint) (l : List (CTxIn × ℕ))
    (s : Finmap fun _ : COutPoint => CInPoint) (hl : ∀ p ∈ l, tx.vin[p.2]? = some p.1) :
    (o ∉ l.map (·.1.prevout) →
      (l.foldl (fun s p => s.insert p.1.prevout ⟨tx, p.2⟩) s).lookup o = s.lookup o) ∧
    (o ∈ l.map (·.1.prevout) → ∃ p,
      (l.foldl (fun s p => s.insert p.1.prevout ⟨tx, p.2⟩) s).lookup o = some p ∧
        SpentAt tx o p) := by
  induction l generalizing s with
  | nil => simp
  | cons a l ih =>
    obtain ⟨hout, hin⟩ := ih (s.insert a.1.prevout ⟨tx, a.2⟩)
      fun p hp => hl p (List.mem_cons_of_mem _ hp)
    rw [List.map_cons, List.foldl_cons]
    refine ⟨fun ho => ?_, fun ho => ?_⟩
    · rw [List.mem_cons, not_or] at ho
      rw [hout ho.2, Finmap.lookup_insert_of_ne _ ho.1]
    · by_cases hl' : o ∈ l.map (·.1.prevout)
      · exact hin hl'
      · have heq := (List.mem_cons.mp ho).resolve_right hl'
        refine ⟨⟨tx, a.2⟩, ?_, rfl, ?_⟩
        · rw [hout hl', heq, Finmap.lookup_insert]
        · rw [hl a (List.mem_cons_self ..), Option.map_some, heq]

lemma lookup_setNextTx (m : CTxMemPool) (tx : CTransaction) (o : COutPoint) :
    (o ∉ tx.prevouts → (m.setNextTx tx).mapNextTx.lookup o = m.mapNextTx.lookup o) ∧
      (o ∈ tx.prevouts → ∃ p, (m.setNextTx tx).mapNextTx.lookup o = some p ∧ SpentAt tx o p) := by
  have hmap : tx.vin.zipIdx.map (·.1.prevout) = tx.prevouts := by
    have h := congrArg (List.map (·.prevout)) (List.zipIdx_map_fst 0 tx.vin)
    rwa [List.map_map] at h
  rw [← hmap]
  exact lookup_insertNext tx o _ _ fun p hp => List.mem_zipIdx_iff_getElem?.mp hp

/-- An entry has come in, and if it has no zerocoin spends its inputs are registered. -/
structure Added (entry : CTxMemPoolEntry) (m m' : CTxMemPool) : Prop where
  bare : ∀ it, m'.bareAt it = if it = entry.tx.hash then some entry.bare else m.bareAt it
  zerocoin : entry.tx.hasZerocoinSpendInputs = true → m'.mapNextTx = m.mapNextTx
  other : ∀ o, o ∉ entry.tx.prevouts → m'.mapNextTx.lookup o = m.mapNextTx.lookup o
  spent : entry.tx.hasZerocoinSpendInputs = false → ∀ o ∈ entry.tx.prevouts,
    ∃ p, m'.mapNextTx.lookup o = some p ∧ SpentAt entry.tx o p
  total : m'.totalTxSize = m.totalTxSize + entry.nTxSize

lemma Added.txAt {entry : CTxMemPoolEntry} (h : Added entry m m') (it : Uint256) :
    m'.txAt it = if it = entry.tx.hash then some entry.tx else m.txAt it := by
  rw [CTxMemPool.txAt, h.bare]
  split_ifs <;> rfl

lemma alike_linkParents (hash : Uint256) (l : List Uint256) (m : CTxMemPool) :
    Alike m (l.foldl (fun m phash => if m.has phash then m.updateParent mu hash phash true
      else m) m) := by
  refine Alike.foldl (fun m a => ?_) l m
  split_ifs
  · exact alike_updateParent mu m hash a true
  · exact .refl m

/-- **`addUnchecked`.** A new entry comes in and nothing goes. -/
theorem added_addUncheckedWith {entry : CTxMemPoolEntry} (hnew : entry.tx.hash ∉ m.mapTx)
    (setAncestors : SetEntries) : Added entry m (m.addUncheckedWith mu entry setAncestors) := by
  unfold addUncheckedWith
  dsimp only
  have hbare : ∀ it, (m.insertEntry entry).bareAt it =
      if it = entry.tx.hash then some entry.bare else m.bareAt it := by
    intro it
    have hhas : m.has entry.tx.hash = false := by simp [has, hnew]
    rw [insertEntry, hhas, bareAt]
    dsimp only
    rw [if_neg Bool.false_ne_true, lookup_insert_eq]
    split_ifs <;> rfl
  have hnext : (m.insertEntry entry).mapNextTx = m.mapNextTx := rfl
  have htotal : (m.insertEntry entry).totalTxSize = m.totalTxSize := rfl
  generalize m.insertEntry entry = m₁ at hbare hnext htotal ⊢
  generalize hm₂ : (if entry.tx.hasZerocoinSpendInputs = true then m₁
    else m₁.setNextTx entry.tx) = m₂
  have hbare₂ : ∀ it, m₂.bareAt it = m₁.bareAt it := by
    intro it
    rw [← hm₂]
    split_ifs <;> rfl
  have htotal₂ : m₂.totalTxSize = m₁.totalTxSize := by
    rw [← hm₂]
    split_ifs <;> rfl
  have halike := (alike_linkParents mu entry.tx.hash (SetEntries.inOrder
    (if entry.tx.hasZerocoinSpendInputs = true then ∅
      else (entry.tx.vin.map (·.prevout.hash)).toFinset)) m₂).trans
    (alike_updateAncestorsOf mu _ true entry.tx.hash setAncestors)
  refine ⟨fun it => ?_, fun hz => ?_, fun o ho => ?_, fun hz o ho => ?_, ?_⟩
  · rw [← hbare, ← hbare₂]
    exact halike.bare it
  · rw [if_pos hz] at hm₂
    rw [← hnext, hm₂]
    exact halike.next
  · have hkeep : m₂.mapNextTx.lookup o = m₁.mapNextTx.lookup o := by
      rw [← hm₂]
      split_ifs
      · rfl
      · exact (lookup_setNextTx m₁ entry.tx o).1 ho
    rw [← hnext, ← hkeep]
    exact congrArg (Finmap.lookup o) halike.next
  · have hz' : ¬ entry.tx.hasZerocoinSpendInputs = true := by simp [hz]
    rw [if_neg hz'] at hm₂
    obtain ⟨p, hp, hspent⟩ := (lookup_setNextTx m₁ entry.tx o).2 ho
    refine ⟨p, ?_, hspent⟩
    rw [← hp, hm₂]
    exact congrArg (Finmap.lookup o) halike.next
  · rw [← htotal, ← htotal₂]
    exact congrArg (· + (entry.nTxSize : ℤ)) halike.total

end CTxMemPool

end Agenor
