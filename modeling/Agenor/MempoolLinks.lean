import Mathlib.Algebra.BigOperators.Pi
import Mathlib.Algebra.Order.BigOperators.Group.Finset
import Agenor.MempoolSteps

/-!
Links, descendants and memory in the memory pool: what is kept about them, and how the single
changes keep it.

The numbers an entry has about its descendants are the sum of the weights of a set of entries. Which
set that is, is said by a function `T`; where nothing is going on it is `descendants`, the entries
that can be reached over the links.
-/

namespace Agenor

open Lib

abbrev Weight := ℤ × ℤ × ℤ

/-- What an entry knows about itself with its descendants. -/
def CTxMemPoolEntry.state (e : CTxMemPoolEntry) : Weight :=
  (e.nSizeWithDescendants, e.nFeesWithDescendants, e.nCountWithDescendants)

def CTxMemPoolEntry.weight (e : CTxMemPoolEntry) : Weight := (e.nTxSize, e.nFee, 1)

@[simp] lemma CTxMemPoolEntry.weight_bare (e : CTxMemPoolEntry) : e.bare.weight = e.weight := rfl

lemma CTxMemPoolEntry.state_updateState {e : CTxMemPoolEntry} (h : e.isDirty = false)
    (a b c : ℤ) : (e.updateState a b c).state = e.state + (a, b, c) := by
  simp [updateState, h, state]

namespace CTxMemPool

variable {mu : MemUsage} {m m' : CTxMemPool} {it : Uint256}

/-! ### Links -/

lemma linksAt_setLinks (m : CTxMemPool) (it a : Uint256) (links : TxLinks) :
    (m.setLinks it links).linksAt a = if a = it then links else m.linksAt a := by
  rw [linksAt, setLinks, lookup_insert_eq]
  split_ifs <;> rfl

lemma ite_toggle {α β : Type} [DecidableEq β] (f : Finset β → ℤ → α) (s : Finset β) (x : β)
    (add : Bool) (u n : ℤ) :
    (if add && decide (x ∉ s) then f (insert x s) (u + n)
      else if !add && decide (x ∈ s) then f (s.erase x) (u - n) else f s u) =
    f (if add then insert x s else s.erase x)
      (u + n * ((if add then insert x s else s.erase x).card - s.card)) := by
  cases add with
  | true =>
    by_cases hx : x ∈ s <;> simp [hx]
  | false =>
    by_cases hx : x ∈ s
    · have hcard : ((s.erase x).card : ℤ) - s.card = -1 := by
        rw [← Finset.card_erase_add_one hx]
        push_cast
        omega
      rw [if_neg (by simp), if_pos (by simpa using hx), if_neg (by simp), hcard, mul_neg_one]
      rfl
    · simp [hx, Finset.erase_eq_of_notMem]

lemma updateChild_eq (mu : MemUsage) (m : CTxMemPool) (entry child : Uint256) (add : Bool) :
    m.updateChild mu entry child add =
      let children := if add then insert child (m.linksAt entry).children
        else (m.linksAt entry).children.erase child
      { m.setLinks entry { m.linksAt entry with children } with
        cachedInnerUsage := m.cachedInnerUsage +
          mu.setNode * (children.card - (m.linksAt entry).children.card) } :=
  ite_toggle (fun children u => ({ m.setLinks entry { m.linksAt entry with children } with
    cachedInnerUsage := u } : CTxMemPool))
    (m.linksAt entry).children child add m.cachedInnerUsage mu.setNode

lemma updateParent_eq (mu : MemUsage) (m : CTxMemPool) (entry parent : Uint256) (add : Bool) :
    m.updateParent mu entry parent add =
      let parents := if add then insert parent (m.linksAt entry).parents
        else (m.linksAt entry).parents.erase parent
      { m.setLinks entry { m.linksAt entry with parents } with
        cachedInnerUsage := m.cachedInnerUsage +
          mu.setNode * (parents.card - (m.linksAt entry).parents.card) } :=
  ite_toggle (fun parents u => ({ m.setLinks entry { m.linksAt entry with parents } with
    cachedInnerUsage := u } : CTxMemPool))
    (m.linksAt entry).parents parent add m.cachedInnerUsage mu.setNode

lemma linksAt_updateChild (m : CTxMemPool) (entry child : Uint256) (add : Bool) (a : Uint256) :
    (m.updateChild mu entry child add).linksAt a =
      if a = entry then
        { m.linksAt entry with
          children := if add then insert child (m.linksAt entry).children
            else (m.linksAt entry).children.erase child }
      else m.linksAt a := by
  rw [updateChild_eq]
  exact linksAt_setLinks m entry a _

lemma linksAt_updateParent (m : CTxMemPool) (entry parent : Uint256) (add : Bool) (a : Uint256) :
    (m.updateParent mu entry parent add).linksAt a =
      if a = entry then
        { m.linksAt entry with
          parents := if add then insert parent (m.linksAt entry).parents
            else (m.linksAt entry).parents.erase parent }
      else m.linksAt a := by
  rw [updateParent_eq]
  exact linksAt_setLinks m entry a _

/-- The number of links of an entry. -/
def linkCount (m : CTxMemPool) (it : Uint256) : ℤ :=
  (m.linksAt it).parents.card + (m.linksAt it).children.card

/-- The memory that is counted for anything but links. -/
def baseUsage (mu : MemUsage) (m : CTxMemPool) : ℤ :=
  m.cachedInnerUsage - mu.setNode * ∑ it ∈ m.mapLinks.keys, m.linkCount it

/-- Only links have changed, none has been made or lost, and their memory is counted. -/
structure Relinked (mu : MemUsage) (m m' : CTxMemPool) : Prop where
  mapTx : m'.mapTx = m.mapTx
  next : m'.mapNextTx = m.mapNextTx
  total : m'.totalTxSize = m.totalTxSize
  failed : m'.failed = m.failed
  keys : m'.mapLinks.keys = m.mapLinks.keys
  usage : m'.baseUsage mu = m.baseUsage mu

namespace Relinked

lemma refl (m : CTxMemPool) : Relinked mu m m := ⟨rfl, rfl, rfl, rfl, rfl, rfl⟩

lemma trans {m₁ m₂ : CTxMemPool} (h : Relinked mu m m₁) (h' : Relinked mu m₁ m₂) :
    Relinked mu m m₂ :=
  ⟨h'.mapTx.trans h.mapTx, h'.next.trans h.next, h'.total.trans h.total,
    h'.failed.trans h.failed, h'.keys.trans h.keys, h'.usage.trans h.usage⟩

lemma foldl {α : Type} {f : CTxMemPool → α → CTxMemPool} {l : List α} (m : CTxMemPool)
    (hf : ∀ m', Relinked mu m m' → ∀ a ∈ l, Relinked mu m' (f m' a)) :
    Relinked mu m (l.foldl f m) := by
  induction l generalizing m with
  | nil => exact .refl m
  | cons a l ih =>
    have hstep := hf m (.refl m) a (List.mem_cons_self ..)
    refine hstep.trans (ih (f m a) fun m' hm' b hb => ?_)
    exact hf m' (hstep.trans hm') b (List.mem_cons_of_mem _ hb)

end Relinked

lemma keys_insert_of_mem {α β : Type} [DecidableEq α] {s : Finmap fun _ : α => β} {a : α} {x : β}
    (h : a ∈ s) : (s.insert a x).keys = s.keys := by
  ext b
  rw [Finmap.mem_keys, Finmap.mem_keys, Finmap.mem_insert]
  constructor
  · rintro (rfl | hb)
    · exact h
    · exact hb
  · exact .inr

lemma relinked_setLinks {entry : Uint256} {links : TxLinks} {u : ℤ} (h : entry ∈ m.mapLinks)
    (hu : u = m.cachedInnerUsage + mu.setNode *
      (links.parents.card + links.children.card - m.linkCount entry)) :
    Relinked mu m { m.setLinks entry links with cachedInnerUsage := u } := by
  have hkeys : (m.setLinks entry links).mapLinks.keys = m.mapLinks.keys := keys_insert_of_mem h
  refine ⟨rfl, rfl, rfl, rfl, hkeys, ?_⟩
  have hentry : entry ∈ m.mapLinks.keys := Finmap.mem_keys.mpr h
  have hcount : ∀ a, linkCount { m.setLinks entry links with cachedInnerUsage := u } a =
      if a = entry then (links.parents.card + links.children.card : ℤ) else m.linkCount a := by
    intro a
    have hat : ({ m.setLinks entry links with cachedInnerUsage := u } : CTxMemPool).linksAt a =
        if a = entry then links else m.linksAt a := linksAt_setLinks m entry a links
    rw [linkCount, hat]
    split_ifs <;> rfl
  have hsum : ∑ a ∈ m.mapLinks.keys, linkCount { m.setLinks entry links with
      cachedInnerUsage := u } a = links.parents.card + links.children.card - m.linkCount entry +
        ∑ a ∈ m.mapLinks.keys, m.linkCount a := by
    rw [← Finset.add_sum_erase _ _ hentry, ← Finset.add_sum_erase _ m.linkCount hentry, hcount,
      if_pos rfl]
    have hrest : ∑ a ∈ m.mapLinks.keys.erase entry, linkCount { m.setLinks entry links with
        cachedInnerUsage := u } a = ∑ a ∈ m.mapLinks.keys.erase entry, m.linkCount a := by
      refine Finset.sum_congr rfl fun a ha => ?_
      rw [hcount, if_neg (Finset.ne_of_mem_erase ha)]
    rw [hrest]
    omega
  unfold baseUsage
  dsimp only
  rw [hkeys, hsum, hu, mul_add]
  omega

lemma relinked_updateChild {entry child : Uint256} {add : Bool} (h : entry ∈ m.mapLinks) :
    Relinked mu m (m.updateChild mu entry child add) := by
  rw [updateChild_eq]
  refine relinked_setLinks h ?_
  rw [linkCount, add_sub_add_left_eq_sub]

lemma relinked_updateParent {entry parent : Uint256} {add : Bool} (h : entry ∈ m.mapLinks) :
    Relinked mu m (m.updateParent mu entry parent add) := by
  rw [updateParent_eq]
  refine relinked_setLinks h ?_
  rw [linkCount, add_sub_add_right_eq_sub]

/-! ### Walks over the links -/

lemma picks_first : Picks SetEntries.first where
  none {s} h := by
    rw [SetEntries.first, List.head?_eq_none_iff] at h
    rw [Finset.eq_empty_iff_forall_notMem]
    intro a ha
    have hmem := mem_inOrder.mpr ha
    rw [h] at hmem
    cases hmem
  some h := mem_inOrder.mp (List.mem_of_mem_head? h)

/-- The links are those of entries, agree in both directions and have no cycle. -/
structure Linked (m : CTxMemPool) : Prop where
  keys : m.mapLinks.keys = m.mapTx.keys
  symm : ∀ p c, p ∈ m.getMemPoolParents c ↔ c ∈ m.getMemPoolChildren p
  mem : ∀ {p c}, c ∈ m.getMemPoolChildren p → p ∈ m.mapTx ∧ c ∈ m.mapTx
  acyclic : ∀ a, ¬ LeadsTo m.getMemPoolChildren a a

lemma Linked.mem_mapLinks (h : Linked m) (hit : it ∈ m.mapTx) : it ∈ m.mapLinks := by
  rw [← Finmap.mem_keys, h.keys, Finmap.mem_keys]
  exact hit

lemma descendantsLoop_eq (m : CTxMemPool) (fuel : ℕ) (stage seen : SetEntries) :
    m.descendantsLoop fuel stage seen =
      walk SetEntries.first m.getMemPoolChildren fuel stage seen := by
  induction fuel generalizing stage seen with
  | zero => rfl
  | succ fuel ih =>
    rw [descendantsLoop, walk]
    cases SetEntries.first stage with
    | none => rfl
    | some a => exact ih _ _

lemma mem_calculateDescendants (h : Linked m) (hit : it ∈ m.mapTx) {seen : SetEntries}
    (hseen : ∀ y ∈ seen, m.getMemPoolChildren y ⊆ seen) {d : Uint256} :
    d ∈ m.calculateDescendants it seen ↔ d ∈ seen ∨ Reach m.getMemPoolChildren it d := by
  have hU : ∀ a ∈ m.mapTx.keys, m.getMemPoolChildren a ⊆ m.mapTx.keys :=
    fun a _ c hc => Finmap.mem_keys.mpr (h.mem hc).2
  have hfuel : (m.mapTx.keys \ seen).card ≤ m.mapTx.keys.card :=
    Finset.card_le_card Finset.sdiff_subset
  rw [calculateDescendants, descendantsLoop_eq, mem_walk picks_first hU _ _ _ hfuel]
  · split_ifs with hin
    · constructor
      · rintro (hd | ⟨a, ha, -⟩)
        · exact .inl hd
        · exact absurd ha (Finset.notMem_empty a)
      · rintro (hd | hd)
        · exact .inl hd
        · exact .inl (hd.mem_of_closed hin hseen)
    · simp
  · split_ifs
    · exact Finset.empty_subset _
    · exact Finset.singleton_subset_iff.mpr (Finmap.mem_keys.mpr hit)
  · split_ifs with hin
    · exact Finset.disjoint_empty_left _
    · exact Finset.disjoint_singleton_left.mpr hin
  · exact fun y hy z hz => .inl (hseen y hy hz)

lemma mem_calculateAllDescendants (h : Linked m) {s : SetEntries} (hs : s ⊆ m.mapTx.keys)
    {d : Uint256} : d ∈ m.calculateAllDescendants s ↔
      ∃ a ∈ s, Reach m.getMemPoolChildren a d := by
  have hfold : ∀ (l : List Uint256) (seen : SetEntries), (∀ a ∈ l, a ∈ m.mapTx) →
      (∀ y ∈ seen, m.getMemPoolChildren y ⊆ seen) → (d ∈ l.foldl (fun stage it =>
        m.calculateDescendants it stage) seen ↔ d ∈ seen ∨
          ∃ a ∈ l, Reach m.getMemPoolChildren a d) := by
    intro l
    induction l with
    | nil => simp
    | cons a l ih =>
      intro seen hl hseen
      have hmem : ∀ {d}, d ∈ m.calculateDescendants a seen ↔
          d ∈ seen ∨ Reach m.getMemPoolChildren a d :=
        mem_calculateDescendants h (hl a (List.mem_cons_self ..)) hseen
      have hclosed : ∀ y ∈ m.calculateDescendants a seen,
          m.getMemPoolChildren y ⊆ m.calculateDescendants a seen := by
        intro y hy z hz
        rw [hmem] at hy ⊢
        rcases hy with hy | hy
        · exact .inl (hseen y hy hz)
        · exact .inr (hy.tail hz)
      rw [List.foldl_cons, ih _ (fun b hb => hl b (List.mem_cons_of_mem _ hb)) hclosed, hmem,
        or_assoc]
      simp
  rw [calculateAllDescendants, hfold]
  · simp [mem_inOrder]
  · exact fun a ha => Finmap.mem_keys.mp (hs (mem_inOrder.mp ha))
  · simp

lemma stageParents_eq_ok {limit : Option ℕ} {seen stage s : SetEntries} {l : List Uint256}
    (h : stageParents limit seen stage l = .ok s) : s = stage ∪ l.toFinset \ seen := by
  induction l generalizing stage with
  | nil =>
    cases h
    simp
  | cons p l ih =>
    rw [stageParents] at h
    split_ifs at h with hp
    all_goals
      rw [ih h]
      ext a
      by_cases hap : a = p <;> simp_all

lemma stageParents_none (seen stage : SetEntries) (l : List Uint256) :
    ∃ s, stageParents none seen stage l = .ok s := by
  induction l generalizing stage with
  | nil => exact ⟨_, rfl⟩
  | cons p l ih => exact ih _

lemma searchParents_eq_ok {limit : Option ℕ} {stage s : SetEntries} {l : List CTxIn}
    (h : m.searchParents limit stage l = .ok s) :
    s = stage ∪ (l.map (·.prevout.hash)).toFinset.filter (· ∈ m.mapTx) := by
  induction l generalizing stage with
  | nil =>
    cases h
    simp
  | cons i l ih =>
    rw [searchParents] at h
    dsimp only at h
    split_ifs at h with hi
    all_goals
      rw [ih h]
      rw [has_eq_true] at hi
      ext a
      by_cases hap : a = i.prevout.hash <;> simp_all

lemma searchParents_none (m : CTxMemPool) (stage : SetEntries) (l : List CTxIn) :
    ∃ s, m.searchParents none stage l = .ok s := by
  induction l generalizing stage with
  | nil => exact ⟨_, rfl⟩
  | cons i l ih =>
    rw [searchParents]
    split_ifs
    · exact ih _
    · exact ih _

lemma ancestorsLoop_eq_ok {limits : AncestorLimits} {nTxSize fuel : ℕ} {stage seen s : SetEntries}
    {total : ℤ} (h : m.ancestorsLoop limits nTxSize fuel stage seen total = .ok s) :
    s = walk SetEntries.first m.getMemPoolParents fuel stage seen := by
  induction fuel generalizing stage seen total with
  | zero =>
    cases h
    rfl
  | succ fuel ih =>
    rw [ancestorsLoop] at h
    rw [walk]
    cases hfirst : SetEntries.first stage with
    | none =>
      rw [hfirst] at h
      cases h
      rfl
    | some a =>
      rw [hfirst] at h
      dsimp only at h ⊢
      cases hlook : m.mapTx.lookup a with
      | none =>
        rw [hlook] at h
        simp only [Fallible.bind_eq_ok] at h
        obtain ⟨stage', hstage, h⟩ := h
        have heq := stageParents_eq_ok hstage
        rw [ih h, heq]
        congr 2
        ext x
        simp [mem_inOrder]
      | some e =>
        rw [hlook] at h
        simp only [Fallible.bind_eq_ok] at h
        obtain ⟨u, -, stage', hstage, h⟩ := h
        have heq := stageParents_eq_ok hstage
        rw [ih h, heq]
        congr 2
        ext x
        simp [mem_inOrder]

lemma ancestorsLoop_nNoLimit (m : CTxMemPool) (nTxSize fuel : ℕ) (stage seen : SetEntries)
    (total : ℤ) : ∃ s, m.ancestorsLoop .nNoLimit nTxSize fuel stage seen total = .ok s := by
  induction fuel generalizing stage seen total with
  | zero => exact ⟨_, rfl⟩
  | succ fuel ih =>
    rw [ancestorsLoop]
    cases SetEntries.first stage with
    | none => exact ⟨_, rfl⟩
    | some a =>
      obtain ⟨stage', hstage⟩ := stageParents_none (insert a seen) (stage.erase a)
        (SetEntries.inOrder (m.getMemPoolParents a))
      obtain ⟨s, hs⟩ := ih stage' (insert a seen) (total + m.txSize a)
      refine ⟨s, ?_⟩
      dsimp only [AncestorLimits.nNoLimit] at hs ⊢
      rw [hstage]
      cases m.mapTx.lookup a with
      | none => exact hs
      | some e => exact hs

end CTxMemPool

end Agenor
