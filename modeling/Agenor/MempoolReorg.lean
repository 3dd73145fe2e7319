import Agenor.MempoolAdd

/-!
`UpdateTransactionsFromBlock` makes up for the links that were left out.

The transactions of the disconnected block are gone through in the reverse order of their coming
back. When it is the turn of one of them, those that depend on it in the block are done already, so
that its descendants can be found over the links, or in the cache.
-/

namespace Agenor

open Lib

namespace CTxMemPool

variable {mu : MemUsage} {m m' m₀ m₁ : CTxMemPool} {it h : Uint256} {V P : Finset Uint256}
  {cache : CacheMap}

/-! ### The children that are visited -/

lemma foldl_visitCached (V : SetEntries) (l : List Uint256) (v : Visit) :
    (l.foldl (visitCached V) v).setAllDescendants = v.setAllDescendants ∪ l.toFinset ∧
      (l.foldl (visitCached V) v).stageEntries = v.stageEntries := by
  induction l generalizing v with
  | nil => simp
  | cons d l ih =>
    obtain ⟨hall, hstage⟩ := ih (visitCached V v d)
    rw [List.foldl_cons, hall, hstage, List.toFinset_cons, ← Finset.insert_union_comm, visitCached]
    by_cases hd : d ∈ v.setAllDescendants
    · rw [if_pos hd, Finset.insert_eq_of_mem hd]
      exact ⟨rfl, rfl⟩
    · rw [if_neg hd]
      exact ⟨rfl, rfl⟩

/-- What the children of an entry add: they are staged, or what the cache has for them is taken. -/
structure Staged (cache : CacheMap) (l : List Uint256) (v v' : Visit) : Prop where
  all : v.setAllDescendants ⊆ v'.setAllDescendants
  stage : v.stageEntries ⊆ v'.stageEntries
  cached : ∀ d ∈ v'.setAllDescendants, d ∈ v.setAllDescendants ∨
    ∃ c ∈ l, ∃ s, cache c = some s ∧ d ∈ s ∧ s ⊆ v'.setAllDescendants
  new : ∀ c ∈ v'.stageEntries, c ∈ v.stageEntries ∨ c ∈ l ∧ c ∉ v.setAllDescendants
  known : ∀ c ∈ l, c ∈ v'.setAllDescendants ∨ c ∈ v'.stageEntries ∨
    ∃ s, cache c = some s ∧ s ⊆ v'.setAllDescendants

namespace Staged

variable {v v' v₁ : Visit} {c : Uint256} {l : List Uint256}

lemma nil (v : Visit) : Staged cache [] v v :=
  ⟨Finset.Subset.refl _, Finset.Subset.refl _, fun _ hd => .inl hd, fun _ hc => .inl hc,
    fun _ hc => absurd hc List.not_mem_nil⟩

lemma visitChild (cache : CacheMap) (V : SetEntries) (v : Visit) (c : Uint256) :
    Staged cache [c] v (CTxMemPool.visitChild cache V v c) := by
  unfold CTxMemPool.visitChild
  cases hs : cache c with
  | some s =>
    obtain ⟨hall, hstage⟩ := foldl_visitCached V (SetEntries.inOrder s) v
    have hsub : s ⊆ ((SetEntries.inOrder s).foldl (visitCached V) v).setAllDescendants := by
      intro x hx
      rw [hall, Finset.mem_union, List.mem_toFinset, mem_inOrder]
      exact .inr hx
    refine ⟨?_, ?_, fun d hd => ?_, fun d hd => ?_, fun d hd => .inr (.inr ?_)⟩
    · rw [hall]
      exact Finset.subset_union_left
    · rw [hstage]
    · rw [hall, Finset.mem_union, List.mem_toFinset, mem_inOrder] at hd
      exact hd.imp id fun hd => ⟨c, List.mem_singleton_self c, s, hs, hd, hsub⟩
    · rw [hstage] at hd
      exact .inl hd
    · rw [List.mem_singleton.mp hd]
      exact ⟨s, hs, hsub⟩
  | none =>
    split_ifs with hc
    · refine ⟨Finset.Subset.refl _, Finset.Subset.refl _, fun _ hd => .inl hd,
        fun _ hd => .inl hd, fun d hd => ?_⟩
      rw [List.mem_singleton.mp hd]
      exact hc.imp id .inl
    all_goals
      rw [not_or] at hc
      refine ⟨Finset.Subset.refl _, Finset.subset_insert .., fun _ hd => .inl hd,
        fun d hd => ?_, fun d hd => .inr (.inl ?_)⟩
      · rcases Finset.mem_insert.mp hd with rfl | hd
        · exact .inr ⟨List.mem_singleton_self _, hc.1⟩
        · exact .inl hd
      · rw [List.mem_singleton.mp hd]
        exact Finset.mem_insert_self ..

lemma cons (h : Staged cache [c] v v₁) (h' : Staged cache l v₁ v') :
    Staged cache (c :: l) v v' := by
  refine ⟨h.all.trans h'.all, h.stage.trans h'.stage, fun d hd => ?_, fun d hd => ?_,
    fun d hd => ?_⟩
  · rcases h'.cached d hd with hd | ⟨x, hx, hs⟩
    · refine (h.cached d hd).imp id ?_
      rintro ⟨x, hx, s, hs, hd, hsub⟩
      exact ⟨x, List.mem_cons.mpr (.inl (List.mem_singleton.mp hx)), s, hs, hd,
        hsub.trans h'.all⟩
    · exact .inr ⟨x, List.mem_cons_of_mem _ hx, hs⟩
  · rcases h'.new d hd with hd | ⟨hd, hnot⟩
    · refine (h.new d hd).imp id fun hd => ⟨?_, hd.2⟩
      exact List.mem_cons.mpr (.inl (List.mem_singleton.mp hd.1))
    · exact .inr ⟨List.mem_cons_of_mem _ hd, fun hmem => hnot (h.all hmem)⟩
  · rcases List.mem_cons.mp hd with rfl | hd
    · rcases h.known d (List.mem_singleton_self d) with hd | hd | ⟨s, hs, hsub⟩
      · exact .inl (h'.all hd)
      · exact .inr (.inl (h'.stage hd))
      · exact .inr (.inr ⟨s, hs, hsub.trans h'.all⟩)
    · exact h'.known d hd

lemma visitChildren {n : ℕ} {V : SetEntries} (l : List Uint256) {v v' : Visit}
    (h : CTxMemPool.visitChildren n cache V v l = some v') : Staged cache l v v' := by
  induction l generalizing v with
  | nil =>
    cases h
    exact .nil _
  | cons c l ih =>
    rw [CTxMemPool.visitChildren] at h
    split_ifs at h
    exact (visitChild cache V v c).cons (ih h)

end Staged

/-! ### The descendants -/

/-- The state of the loop of `UpdateForDescendants`, when `seen` are the entries that have been
taken from the stage. -/
structure Visiting (m : CTxMemPool) (cache : CacheMap) (h : Uint256) (seen : Finset Uint256)
    (v : Visit) : Prop where
  taken : seen ⊆ v.setAllDescendants
  unseen : Disjoint v.stageEntries seen
  closed : ∀ y ∈ insert h v.setAllDescendants, ∀ c ∈ m.getMemPoolChildren y,
    c ∈ v.setAllDescendants ∨ c ∈ v.stageEntries ∨
      ∃ s, cache c = some s ∧ s ⊆ v.setAllDescendants
  staged : ∀ d ∈ v.stageEntries, LeadsTo m.getMemPoolChildren h d
  reached : ∀ d ∈ v.setAllDescendants, LeadsTo m.getMemPoolChildren h d

/-- The cache has the descendants outside of `V` of some entries. -/
def CacheKnows (m : CTxMemPool) (V : Finset Uint256) (cache : CacheMap) : Prop :=
  ∀ x s, cache x = some s → ∀ d, d ∈ s ↔ Reach m.getMemPoolChildren x d ∧ d ∉ V

section

variable {seen : Finset Uint256} {v v' : Visit} {h cit d : Uint256}

lemma Visiting.start (m : CTxMemPool) (cache : CacheMap) (h : Uint256) :
    Visiting m cache h ∅ ⟨0, m.getMemPoolChildren h, ∅⟩ := by
  refine ⟨Finset.empty_subset _, Finset.disjoint_empty_right _, fun y hy c hc => .inr (.inl ?_),
    fun d hd => .single hd, fun d hd => absurd hd (Finset.notMem_empty d)⟩
  rw [Finset.mem_singleton.mp hy] at hc
  exact hc

lemma Visiting.step (hv : Visiting m cache h seen v) (hcache : CacheKnows m V cache)
    (hup : ∀ y, y ∉ V → ∀ c ∈ m.getMemPoolChildren y, c ∉ V) (hcit : cit ∈ v.stageEntries)
    (hs : Staged cache (SetEntries.inOrder (m.getMemPoolChildren cit))
      { v with
        setAllDescendants := insert cit v.setAllDescendants
        stageEntries := v.stageEntries.erase cit } v') :
    Visiting m cache h (insert cit seen) v' := by
  have hall : insert cit v.setAllDescendants ⊆ v'.setAllDescendants := hs.all
  have hstage : v.stageEntries.erase cit ⊆ v'.stageEntries := hs.stage
  have hchild : ∀ {c}, c ∈ SetEntries.inOrder (m.getMemPoolChildren cit) →
      LeadsTo m.getMemPoolChildren h c := fun hc => (hv.staged cit hcit).tail (mem_inOrder.mp hc)
  refine ⟨(Finset.insert_subset_insert cit hv.taken).trans hall, ?_, fun y hy c hc => ?_,
    fun d hd => ?_, fun d hd => ?_⟩
  · rw [Finset.disjoint_left]
    intro c hc hmem
    rcases hs.new c hc with hold | ⟨-, hnew⟩
    · obtain ⟨hne, hold⟩ := Finset.mem_erase.mp hold
      rcases Finset.mem_insert.mp hmem with heq | hmem
      · exact hne heq
      · exact Finset.disjoint_left.mp hv.unseen hold hmem
    · exact hnew (Finset.insert_subset_insert cit hv.taken hmem)
  · have hknown : y ∈ insert h v.setAllDescendants → c ∈ v'.setAllDescendants ∨
        c ∈ v'.stageEntries ∨ ∃ s, cache c = some s ∧ s ⊆ v'.setAllDescendants := by
      intro hy
      rcases hv.closed y hy c hc with hc | hc | ⟨s, hs', hsub⟩
      · exact .inl (hall (Finset.mem_insert_of_mem hc))
      · by_cases heq : c = cit
        · exact .inl (hall (heq ▸ Finset.mem_insert_self ..))
        · exact .inr (.inl (hstage (Finset.mem_erase.mpr ⟨heq, hc⟩)))
      · exact .inr (.inr ⟨s, hs', (hsub.trans (Finset.subset_insert ..)).trans hall⟩)
    rcases Finset.mem_insert.mp hy with heq | hy
    · exact hknown (heq ▸ Finset.mem_insert_self ..)
    · rcases hs.cached y hy with hy | ⟨x, hx, s, hxs, hys, hsub⟩
      · rcases Finset.mem_insert.mp hy with rfl | hy
        · exact hs.known c (mem_inOrder.mpr hc)
        · exact hknown (Finset.mem_insert_of_mem hy)
      · -- what depends on a cached descendant is one itself
        obtain ⟨hreach, hV⟩ := (hcache x s hxs y).mp hys
        exact .inl (hsub ((hcache x s hxs c).mpr ⟨hreach.tail hc, hup y hV c hc⟩))
  · rcases hs.new d hd with hd | ⟨hd, -⟩
    · exact hv.staged d (Finset.mem_of_mem_erase hd)
    · exact hchild hd
  · rcases hs.cached d hd with hd | ⟨x, hx, s, hxs, hds, -⟩
    · rcases Finset.mem_insert.mp hd with rfl | hd
      · exact hv.staged _ hcit
      · exact hv.reached d hd
    · exact (hchild hx).trans_left ((hcache x s hxs d).mp hds).1

/-- **`UpdateForDescendants`, the search.** When it does not give up, it has found all descendants
outside of `V`. -/
theorem Visiting.visitLoop {n fuel : ℕ} {exclude s : SetEntries} (hv : Visiting m cache h seen v)
    (hcache : CacheKnows m V cache) (hup : ∀ y, y ∉ V → ∀ c ∈ m.getMemPoolChildren y, c ∉ V)
    (hU : ∀ y, m.getMemPoolChildren y ⊆ m.mapTx.keys)
    (hfuel : (m.mapTx.keys \ seen).card ≤ fuel)
    (hrun : m.visitLoop n cache exclude fuel v = some s) :
    ∃ seen' v', Visiting m cache h seen' v' ∧ v'.stageEntries = ∅ ∧ s = v'.setAllDescendants := by
  induction fuel generalizing seen v with
  | zero =>
    refine ⟨seen, v, hv, ?_, (Option.some.inj hrun).symm⟩
    rw [Finset.eq_empty_iff_forall_notMem]
    intro d hd
    obtain ⟨y, -, hy⟩ := leadsTo_iff_tail.mp (hv.staged d hd)
    have hmem : d ∈ m.mapTx.keys \ seen :=
      Finset.mem_sdiff.mpr ⟨hU y hy, Finset.disjoint_left.mp hv.unseen hd⟩
    rw [Finset.card_eq_zero.mp (Nat.le_zero.mp hfuel)] at hmem
    exact Finset.notMem_empty d hmem
  | succ fuel ih =>
    rw [CTxMemPool.visitLoop] at hrun
    cases hfirst : SetEntries.first v.stageEntries with
    | none =>
      rw [hfirst] at hrun
      exact ⟨seen, v, hv, picks_first.none hfirst, (Option.some.inj hrun).symm⟩
    | some cit =>
      rw [hfirst] at hrun
      have hcit := picks_first.some hfirst
      dsimp only at hrun
      split_ifs at hrun
      split at hrun
      · cases hrun
      · next v' hvisit =>
        refine ih (hv.step hcache hup hcit (.visitChildren _ hvisit)) ?_ hrun
        have hmem : cit ∈ m.mapTx.keys \ seen := by
          obtain ⟨y, -, hy⟩ := leadsTo_iff_tail.mp (hv.staged cit hcit)
          exact Finset.mem_sdiff.mpr ⟨hU y hy, Finset.disjoint_left.mp hv.unseen hcit⟩
        rw [Finset.sdiff_insert, Finset.card_erase_of_mem hmem]
        omega

lemma mem_visitLoop {n : ℕ} {exclude s : SetEntries} (hh : h ∈ V) (hcache : CacheKnows m V cache)
    (hup : ∀ y, y ∉ V → ∀ c ∈ m.getMemPoolChildren y, c ∉ V)
    (hU : ∀ y, m.getMemPoolChildren y ⊆ m.mapTx.keys)
    (hrun : m.visitLoop n cache exclude m.mapTx.keys.card ⟨0, m.getMemPoolChildren h, ∅⟩ = some s)
    (d : Uint256) : d ∈ s \ V ↔ Reach m.getMemPoolChildren h d ∧ d ∉ V := by
  obtain ⟨seen, v, hv, hstage, rfl⟩ := (Visiting.start m cache h).visitLoop hcache hup hU
    (Finset.card_le_card Finset.sdiff_subset) hrun
  rw [Finset.mem_sdiff]
  refine and_congr_left fun hd => ⟨fun hmem => (hv.reached d hmem).reach, fun hreach => ?_⟩
  have hmem : d ∈ insert h v.setAllDescendants := by
    refine hreach.mem_of_cached (Finset.mem_insert_self ..) hd (fun y hy c hc => ?_)
      fun x s hs hx hd => (hcache x s hs d).mpr ⟨hx, hd⟩
    rcases hv.closed y hy c hc with hc | hc | ⟨s, hs, hsub⟩
    · exact .inl (Finset.mem_insert_of_mem hc)
    · rw [hstage] at hc
      exact absurd hc (Finset.notMem_empty c)
    · exact .inr ⟨s, hs, hsub.trans (Finset.subset_insert ..)⟩
  exact (Finset.mem_insert.mp hmem).resolve_left fun heq => hd (heq ▸ hh)

end

/-! ### The links -/

/-- An entry has been linked with more children. -/
structure Linking (mu : MemUsage) (it : Uint256) (N : Finset Uint256) (m m' : CTxMemPool) :
    Prop where
  relinked : Relinked mu m m'
  children : ∀ a, m'.getMemPoolChildren a =
    if a = it then m.getMemPoolChildren a ∪ N else m.getMemPoolChildren a
  parents : ∀ a, m'.getMemPoolParents a =
    if a ∈ N then insert it (m.getMemPoolParents a) else m.getMemPoolParents a

namespace Linking

variable {N N' : Finset Uint256} {c : Uint256}

lemma refl (mu : MemUsage) (it : Uint256) (m : CTxMemPool) : Linking mu it ∅ m m :=
  ⟨.refl m, fun a => by simp, fun a => by simp⟩

lemma trans (h : Linking mu it N m m₁) (h' : Linking mu it N' m₁ m') :
    Linking mu it (N ∪ N') m m' := by
  refine ⟨h.relinked.trans h'.relinked, fun a => ?_, fun a => ?_⟩
  · rw [h'.children, h.children]
    split_ifs
    · rw [Finset.union_assoc]
    · rfl
  · rw [h'.parents, h.parents]
    by_cases hN : a ∈ N <;> by_cases hN' : a ∈ N' <;> simp [hN, hN']

lemma single (hit : it ∈ m.mapLinks) (hc : c ∈ m.mapLinks) :
    Linking mu it {c} m ((m.updateChild mu it c true).updateParent mu c it true) := by
  have hrel : Relinked mu m (m.updateChild mu it c true) := relinked_updateChild hit
  refine ⟨hrel.trans (relinked_updateParent (hrel.mem_mapLinks.mpr hc)), fun a => ?_, fun a => ?_⟩
  · have hsame : ((m.updateChild mu it c true).updateParent mu c it true).getMemPoolChildren a =
        (m.updateChild mu it c true).getMemPoolChildren a := by
      rw [getMemPoolChildren, linksAt_updateParent]
      by_cases hac : a = c
      · rw [if_pos hac, hac]
        rfl
      · rw [if_neg hac]
        rfl
    rw [hsame, getMemPoolChildren, linksAt_updateChild]
    by_cases ha : a = it
    · rw [if_pos ha, if_pos ha, ha, Finset.union_comm]
      rfl
    · rw [if_neg ha, if_neg ha]
      rfl
  · have hsame : (m.updateChild mu it c true).getMemPoolParents a = m.getMemPoolParents a := by
      rw [getMemPoolParents, linksAt_updateChild]
      by_cases ha : a = it
      · rw [if_pos ha, ha]
        rfl
      · rw [if_neg ha]
        rfl
    rw [← hsame, getMemPoolParents, linksAt_updateParent]
    by_cases hac : a = c
    · rw [if_pos hac, if_pos (Finset.mem_singleton.mpr hac), hac]
      rfl
    · rw [if_neg hac, if_neg fun hmem => hac (Finset.mem_singleton.mp hmem)]
      rfl

lemma foldl (l : List Uint256) {seen : SetEntries} (hit : it ∈ m.mapLinks)
    (hl : ∀ c ∈ l, c ∈ m.mapTx ∧ c ∈ m.mapLinks) :
    Linking mu it (l.toFinset \ (V ∪ seen)) m (l.foldl (linkChild mu V it) (m, seen)).1 := by
  induction l generalizing m seen with
  | nil => simpa using refl mu it m
  | cons c l ih =>
    obtain ⟨hc, hcl⟩ := hl c (List.mem_cons_self ..)
    have hsame : ({ m with failed := m.failed || !m.has c } : CTxMemPool) = m := by
      simp [has_eq_true.mpr hc]
    rw [List.foldl_cons, linkChild, hsame]
    have hrest : ∀ c ∈ l, c ∈ m.mapTx ∧ c ∈ m.mapLinks :=
      fun c hc => hl c (List.mem_cons_of_mem _ hc)
    by_cases hseen : c ∈ seen
    · have hset : (c :: l).toFinset \ (V ∪ seen) = l.toFinset \ (V ∪ seen) := by
        rw [List.toFinset_cons, Finset.insert_sdiff_of_mem _ (Finset.mem_union_right V hseen)]
      rw [if_pos hseen, hset]
      exact ih hit hrest
    · rw [if_neg hseen]
      by_cases hV : c ∈ V
      · have hset : (c :: l).toFinset \ (V ∪ seen) = l.toFinset \ (V ∪ insert c seen) := by
          ext x
          by_cases hx : x = c <;> simp [hx, hV]
        rw [if_pos hV, hset]
        exact ih hit hrest
      · have hset : (c :: l).toFinset \ (V ∪ seen) = {c} ∪ l.toFinset \ (V ∪ insert c seen) := by
          ext x
          by_cases hx : x = c <;> simp [hx, hV, hseen]
        have hsingle : Linking mu it {c} m _ := single hit hcl
        rw [if_neg hV, hset]
        refine hsingle.trans (ih (hsingle.relinked.mem_mapLinks.mpr hit) fun d hd => ?_)
        rw [hsingle.relinked.mapTx, hsingle.relinked.mem_mapLinks]
        exact hrest d hd

end Linking

lemma mem_nextOf (h : Stock m) (hit : it ∈ m.mapTx) {c : Uint256} :
    c ∈ m.nextOf it ↔ c ∈ m.dependents it := by
  rw [mem_dependents, nextOf, List.mem_filterMap]
  constructor
  · rintro ⟨n, -, hn⟩
    obtain ⟨p, hp, rfl⟩ := Option.map_eq_some_iff.mp hn
    obtain ⟨htx, hspent⟩ := h.next hp
    exact ⟨hit, p.ptx, htx, _, hspent.mem, rfl⟩
  · rintro ⟨-, tx, htx, o, ho, rfl⟩
    obtain ⟨p, hp, rfl⟩ := h.spent htx o ho
    refine ⟨o.n, ?_, ?_⟩
    · rw [mem_ascending, Finset.mem_image]
      have hkey := Finmap.mem_keys.mpr (Finmap.mem_of_lookup_eq_some hp)
      exact ⟨o, Finset.mem_filter.mpr ⟨hkey, rfl⟩, rfl⟩
    · rw [hp, Option.map_some, h.hash htx]

/-! ### A pass -/

/-- What an entry has to count when the transactions of `P` have been gone through. -/
noncomputable def counted (m : CTxMemPool) (V P : Finset Uint256) (a : Uint256) :
    Finset Uint256 :=
  if a ∈ V \ P then m.package m.getMemPoolChildren a else m.package m.dependents a

/-- The pool when of the transactions `V` those of `P` have been gone through. -/
structure Updating (mu : MemUsage) (m : CTxMemPool) (V P : Finset Uint256)
    (s : CTxMemPool × CacheMap) : Prop where
  alike : Alike m s.1
  keys : s.1.mapLinks.keys = m.mapLinks.keys
  children : ∀ p, s.1.getMemPoolChildren p = m.linkedTo V (V \ P) p
  parents : ∀ p c, p ∈ s.1.getMemPoolParents c ↔ c ∈ s.1.getMemPoolChildren p
  tracks : Tracks s.1 (m.counted V P)
  usage : s.1.baseUsage mu = m.baseUsage mu
  failed : s.1.failed = m.failed
  cache : ∀ x r, s.2 x = some r → x ∈ P ∧ ∀ d, d ∈ r ↔ Reach m.dependents x d ∧ d ∉ V

lemma Inv.notMem (h : Inv mu V m) {y c : Uint256} (hy : y ∉ V) (hc : c ∈ m.dependents y) : c ∉ V :=
  fun hcV => hy (h.up (mem_dependents.mp hc) hcV)

lemma Inv.reach_linkedTo (h : Inv mu V m) (hP : ∀ p ∈ P, ∀ c ∈ m.dependents p, c ∈ V → c ∈ P)
    {a d : Uint256} (ha : a ∉ V \ P) :
    Reach (m.linkedTo V (V \ P)) a d ↔ Reach m.dependents a d := by
  refine Reach.congr (Q := fun y => y ∉ V \ P) ha (fun y hy c hc hcV => ?_) fun y hy => ?_
  · rw [Finset.mem_sdiff] at hy hcV
    by_cases hyV : y ∈ V
    · exact hcV.2 (hP y (not_not.mp fun hyP => hy ⟨hyV, hyP⟩) c hc hcV.1)
    · exact h.notMem hyV hc hcV.1
  · rw [linkedTo, if_neg hy]

lemma Inv.updating_empty (h : Inv mu V m) : Updating mu m V ∅ (m, fun _ => none) := by
  refine ⟨.refl m, rfl, fun p => ?_, h.parents, h.tracks.congr fun a _ => ?_, rfl, rfl, ?_⟩
  · rw [Finset.sdiff_empty]
    exact h.children p
  · rw [counted, Finset.sdiff_empty]
    split_ifs with ha
    · rfl
    · ext d
      rw [mem_package, mem_package, funext h.children]
      have hreach := h.reach_linkedTo (P := ∅) (d := d) (by simp) (by simpa using ha)
      rw [Finset.sdiff_empty] at hreach
      rw [hreach]
  · intro x r hr
    cases hr

lemma Inv.reach_children (h : Inv mu V m) {a d : Uint256} (ha : a ∈ V) :
    Reach m.getMemPoolChildren a d ↔ Reach m.dependents a d ∧ d ∈ V := by
  rw [funext h.children]
  constructor
  · intro hreach
    refine ⟨hreach.mono fun x => linkedTo_subset m V V x, ?_⟩
    refine hreach.mem_of_closed ha fun y hy c hc => ?_
    exact (mem_linkedTo.mp hc).2 hy
  · rintro ⟨hreach, hd⟩
    induction hreach with
    | refl => exact .refl a
    | @tail x y _ hy ih =>
      have hx : x ∈ V := h.up (mem_dependents.mp hy) hd
      exact (ih hx).tail (mem_linkedTo.mpr ⟨mem_dependents.mp hy, fun _ => hd⟩)

lemma counted_insert_of_ne (m : CTxMemPool) (V P : Finset Uint256) {a : Uint256} (ha : a ≠ it) :
    m.counted V (insert it P) a = m.counted V P a := by
  simp [counted, ha]

lemma linkedTo_insert_of_ne (m : CTxMemPool) (V P : Finset Uint256) {p : Uint256} (hp : p ≠ it) :
    m.linkedTo V (V \ insert it P) p = m.linkedTo V (V \ P) p := by
  simp [linkedTo, hp]

lemma Updating.skip {s : CTxMemPool × CacheMap} (hs : Updating mu m V P s) (hit : it ∉ m.mapTx) :
    Updating mu m V (insert it P) s := by
  refine ⟨hs.alike, hs.keys, fun p => ?_, hs.parents, hs.tracks.congr fun a ha => ?_, hs.usage,
    hs.failed, fun x r hr => ?_⟩
  · rw [hs.children]
    by_cases hp : p = it
    · ext c
      have hno : ¬ m.Spends p c := fun hpc => hit (hp ▸ hpc.1)
      simp [mem_linkedTo, hno]
    · exact (linkedTo_insert_of_ne m V P hp).symm
  · refine counted_insert_of_ne m V P fun heq => hit ?_
    rw [← heq, ← hs.alike.mem_iff]
    exact ha
  · obtain ⟨hx, hd⟩ := hs.cache x r hr
    exact ⟨Finset.mem_insert_of_mem hx, hd⟩

lemma Updating.linking (h : Inv mu V m) {s : CTxMemPool × CacheMap} (hs : Updating mu m V P s)
    (hit : it ∈ m.mapTx) (hV : it ∈ V) (hP : it ∉ P) :
    Linking mu it (m.dependents it \ V) s.1
        ((s.1.nextOf it).foldl (linkChild mu V it) (s.1, ∅)).1 ∧
      ∀ p, ((s.1.nextOf it).foldl (linkChild mu V it) (s.1, ∅)).1.getMemPoolChildren p =
        m.linkedTo V (V \ insert it P) p := by
  have hnext : ∀ c, c ∈ s.1.nextOf it ↔ c ∈ m.dependents it := by
    intro c
    rw [mem_nextOf (h.stock.alike hs.alike) (hs.alike.mem_iff.mpr hit), hs.alike.dependents]
  have hin : ∀ {c}, c ∈ m.mapTx → c ∈ s.1.mapLinks := by
    intro c hc
    rw [← Finmap.mem_keys, hs.keys, h.keys, Finmap.mem_keys]
    exact hc
  have hlink : Linking mu it ((s.1.nextOf it).toFinset \ (V ∪ ∅)) s.1
      ((s.1.nextOf it).foldl (linkChild mu V it) (s.1, ∅)).1 := by
    refine Linking.foldl (s.1.nextOf it) (hin hit) fun c hc => ?_
    have hmem := (mem_dependents.mp ((hnext c).mp hc)).mem
    exact ⟨hs.alike.mem_iff.mpr hmem, hin hmem⟩
  have hset : (s.1.nextOf it).toFinset \ (V ∪ ∅) = m.dependents it \ V := by
    ext c
    rw [Finset.union_empty, Finset.mem_sdiff, Finset.mem_sdiff, List.mem_toFinset, hnext]
  rw [hset] at hlink
  refine ⟨hlink, fun p => ?_⟩
  rw [hlink.children, hs.children]
  by_cases hp : p = it
  · have hnew : it ∉ V \ insert it P :=
      fun hmem => (Finset.mem_sdiff.mp hmem).2 (Finset.mem_insert_self ..)
    rw [if_pos hp, hp, linkedTo, if_pos (Finset.mem_sdiff.mpr ⟨hV, hP⟩), linkedTo, if_neg hnew,
      Finset.union_comm, Finset.sdiff_union_inter]
  · rw [if_neg hp, linkedTo_insert_of_ne m V P hp]

lemma sum_weightAt {s : Finset Uint256} (hs : s ⊆ m.mapTx.keys) :
    ∑ d ∈ s, m.weightAt d = (∑ d ∈ s, m.txSize d, ∑ d ∈ s, m.fee d, (s.card : ℤ)) := by
  rw [Finset.sum_congr rfl fun d hd => weightAt_eq (Finmap.mem_keys.mp (hs hd))]
  simp [Prod.ext_iff, Prod.fst_sum, Prod.snd_sum]

lemma self_mem_counted (V P : Finset Uint256) (hit : it ∈ m.mapTx) : it ∈ m.counted V P it := by
  unfold counted
  split_ifs
  · exact self_mem_package _ hit
  · exact self_mem_package _ hit

lemma counted_subset (m : CTxMemPool) (V P : Finset Uint256) (a : Uint256) :
    m.counted V P a ⊆ m.mapTx.keys := by
  unfold counted
  split_ifs
  · exact package_subset ..
  · exact package_subset ..

lemma Inv.counted_insert (h : Inv mu V m) (hV : it ∈ V) (hP : it ∉ P) {S : SetEntries}
    (hS : ∀ d, d ∈ S \ V ↔ Reach m.dependents it d ∧ d ∉ V) :
    m.counted V (insert it P) it = m.counted V P it ∪ S \ V := by
  have hnew : it ∉ V \ insert it P :=
    fun hmem => (Finset.mem_sdiff.mp hmem).2 (Finset.mem_insert_self ..)
  rw [counted, if_neg hnew, counted, if_pos (Finset.mem_sdiff.mpr ⟨hV, hP⟩)]
  ext d
  rw [Finset.mem_union, mem_package, mem_package, hS, h.reach_children hV]
  constructor
  · rintro ⟨hd, hreach⟩
    by_cases hdV : d ∈ V
    · exact .inl ⟨hd, hreach, hdV⟩
    · exact .inr ⟨hreach, hdV⟩
  · rintro (⟨hd, hreach, -⟩ | ⟨hreach, hdV⟩)
    · exact ⟨hd, hreach⟩
    · obtain ⟨y, -, hy⟩ := leadsTo_iff_tail.mp (hreach.leadsTo fun heq => hdV (heq ▸ hV))
      exact ⟨(mem_dependents.mp hy).mem, hreach⟩

lemma Updating.linked {s : CTxMemPool × CacheMap} (hs : Updating mu m V P s)
    (hlink : Linking mu it (m.dependents it \ V) s.1 m₁)
    (hchildren : ∀ p, m₁.getMemPoolChildren p = m.linkedTo V (V \ insert it P) p)
    (halike : Alike m₁ m') (hlinks : m'.mapLinks = m₁.mapLinks)
    (husage : m'.cachedInnerUsage = m₁.cachedInnerUsage) (hfailed : m'.failed = m₁.failed)
    (htracks : Tracks m' (m.counted V (insert it P)))
    (hcache : ∀ x r, cache x = some r →
      x ∈ insert it P ∧ ∀ d, d ∈ r ↔ Reach m.dependents x d ∧ d ∉ V) :
    Updating mu m V (insert it P) (m', cache) := by
  have hat : ∀ a, m'.linksAt a = m₁.linksAt a := by
    intro a
    rw [linksAt, hlinks, linksAt]
  have hc : ∀ p, m'.getMemPoolChildren p = m₁.getMemPoolChildren p := fun p =>
    congrArg TxLinks.children (hat p)
  refine ⟨(hs.alike.trans hlink.relinked.alike).trans halike, ?_, fun p => ?_, fun p c => ?_,
    htracks, ?_, ?_, hcache⟩
  · rw [hlinks, hlink.relinked.keys, hs.keys]
  · rw [hc, hchildren]
  · have hp : m'.getMemPoolParents c = m₁.getMemPoolParents c :=
      congrArg TxLinks.parents (hat c)
    rw [hp, hc, hlink.parents, hlink.children]
    by_cases hpi : p = it
    · rw [if_pos hpi, Finset.mem_union, ← hs.parents]
      by_cases hN : c ∈ m.dependents it \ V
      · simp [hN, hpi]
      · rw [if_neg hN, or_iff_left hN]
    · rw [if_neg hpi, ← hs.parents]
      by_cases hN : c ∈ m.dependents it \ V
      · rw [if_pos hN, Finset.mem_insert, or_iff_right hpi]
      · rw [if_neg hN]
  · have hsame : m'.baseUsage mu = m₁.baseUsage mu := by
      unfold baseUsage linkCount linksAt
      rw [hlinks, husage]
    rw [hsame, hlink.relinked.usage, hs.usage]
  · rw [hfailed, hlink.relinked.failed, hs.failed]

lemma Updating.cached {s : CTxMemPool × CacheMap} (hs : Updating mu m V P s) {x : Uint256}
    {r : SetEntries} (hr : s.2 x = some r) :
    x ∈ insert it P ∧ ∀ d, d ∈ r ↔ Reach m.dependents x d ∧ d ∉ V := by
  obtain ⟨hx, hd⟩ := hs.cache x r hr
  exact ⟨Finset.mem_insert_of_mem hx, hd⟩

lemma Updating.dirty {s : CTxMemPool × CacheMap} (hs : Updating mu m V P s)
    (hlink : Linking mu it (m.dependents it \ V) s.1 m₁)
    (hchildren : ∀ p, m₁.getMemPoolChildren p = m.linkedTo V (V \ insert it P) p) :
    Updating mu m V (insert it P) (m₁.modify it (·.setDirty), s.2) := by
  obtain ⟨hlinks, husage, hfailed⟩ := modify_mapLinks m₁ it (·.setDirty)
  have hdirty : Alike m₁ (m₁.modify it (·.setDirty)) :=
    alike_modify (f := (·.setDirty)) (fun _ => rfl) m₁ it
  refine hs.linked hlink hchildren hdirty hlinks husage hfailed (fun a e he => ?_)
    fun _ _ hr => hs.cached hr
  rw [lookup_modify] at he
  split_ifs at he with ha
  · obtain ⟨e₀, -, rfl⟩ := Option.map_eq_some_iff.mp he
    exact .inl rfl
  · rw [counted_insert_of_ne m V P ha]
    simp only [hdirty.weightAt]
    exact hs.tracks.of_mapTx hlink.relinked.mapTx a e he

lemma Updating.found (h : Inv mu V m) {s : CTxMemPool × CacheMap} (hs : Updating mu m V P s)
    (hV : it ∈ V) (hP : it ∉ P) (hlink : Linking mu it (m.dependents it \ V) s.1 m₁)
    (hchildren : ∀ p, m₁.getMemPoolChildren p = m.linkedTo V (V \ insert it P) p) {S : SetEntries}
    (hS : ∀ d, d ∈ S \ V ↔ Reach m.dependents it d ∧ d ∉ V)
    (hcache : ∀ x r, cache x = some r →
      x ∈ insert it P ∧ ∀ d, d ∈ r ↔ Reach m.dependents x d ∧ d ∉ V) :
    Updating mu m V (insert it P)
      (m₁.updateDescendantState (∑ d ∈ S \ V, m₁.txSize d) (∑ d ∈ S \ V, m₁.fee d)
        ((S \ V).card : ℤ) it, cache) := by
  have halike : Alike m m₁ := hs.alike.trans hlink.relinked.alike
  have hsub : S \ V ⊆ m₁.mapTx.keys := by
    intro d hd
    have hd' := (hS d).mp hd
    have hne : it ≠ d := fun heq => hd'.2 (heq ▸ hV)
    obtain ⟨y, -, hy⟩ := leadsTo_iff_tail.mp (hd'.1.leadsTo hne)
    rw [halike.keys, Finmap.mem_keys]
    exact (mem_dependents.mp hy).mem
  have hshift : Shifted [it] (∑ d ∈ S \ V, m₁.weightAt d) m₁
      (m₁.updateDescendantState (∑ d ∈ S \ V, m₁.txSize d) (∑ d ∈ S \ V, m₁.fee d)
        ((S \ V).card : ℤ) it) := by
    rw [sum_weightAt hsub]
    exact shifted_foldl (List.nodup_singleton it) _ m₁
  obtain ⟨htracks, hfailed⟩ := hshift.tracks (m.counted V (insert it P))
    (halike.weighty h.stock.weighty) (hs.tracks.of_mapTx hlink.relinked.mapTx) (by
      intro a ha
      rw [halike.mem_iff] at ha
      refine ⟨self_mem_counted V _ ha, ?_, ?_⟩
      · rw [halike.keys]
        exact counted_subset ..
      · by_cases hai : a = it
        · rw [if_pos (List.mem_singleton.mpr hai), hai, h.counted_insert hV hP hS,
            Finset.sum_union]
          refine Finset.disjoint_left.mpr fun d hd hdS => (Finset.mem_sdiff.mp hdS).2 ?_
          rw [counted, if_pos (Finset.mem_sdiff.mpr ⟨hV, hP⟩), mem_package] at hd
          exact ((h.reach_children hV).mp hd.2).2
        · rw [if_neg fun hmem => hai (List.mem_singleton.mp hmem), add_zero,
            counted_insert_of_ne m V P hai])
  exact hs.linked hlink hchildren hshift.alike hshift.links hshift.usage hfailed htracks hcache

lemma Updating.step (h : Inv mu V m) {s : CTxMemPool × CacheMap} (hs : Updating mu m V P s)
    (hV : it ∈ V) (hP : it ∉ P) (hclosed : ∀ p ∈ insert it P, ∀ c ∈ m.dependents p, c ∈ V →
      c ∈ insert it P) :
    Updating mu m V (insert it P) (updateTransactionFromBlock mu V s it) := by
  unfold updateTransactionFromBlock
  by_cases hhas : s.1.has it = true
  swap
  · rw [if_neg hhas]
    rw [has_eq_true, hs.alike.mem_iff] at hhas
    exact hs.skip hhas
  rw [if_pos hhas]
  rw [has_eq_true, hs.alike.mem_iff] at hhas
  obtain ⟨hlink, hchildren⟩ := hs.linking h hhas hV hP
  dsimp only
  generalize ((s.1.nextOf it).foldl (linkChild mu V it) (s.1, ∅)).1 = m₁ at hlink hchildren ⊢
  have halike : Alike m m₁ := hs.alike.trans hlink.relinked.alike
  have hreach : ∀ {x d}, x ∈ insert it P →
      (Reach m₁.getMemPoolChildren x d ↔ Reach m.dependents x d) := by
    intro x d hx
    rw [funext hchildren]
    exact h.reach_linkedTo hclosed fun hmem => (Finset.mem_sdiff.mp hmem).2 hx
  have hdep : ∀ {y c}, c ∈ m₁.getMemPoolChildren y → c ∈ m.dependents y := by
    intro y c hc
    rw [hchildren] at hc
    exact linkedTo_subset _ _ _ _ hc
  unfold updateForDescendants
  dsimp only
  cases hrun : m₁.visitLoop MAX_DESCENDANTS_TO_VISIT s.2 V m₁.mapTx.keys.card
      ⟨0, m₁.getMemPoolChildren it, ∅⟩ with
  | none => exact hs.dirty hlink hchildren
  | some S =>
    have hfound := mem_visitLoop hV (fun x r hr d => ((hs.cache x r hr).2 d).trans
      (and_congr_left fun _ => (hreach (hs.cached hr).1).symm))
      (fun y hy c hc => h.notMem hy (hdep hc)) (fun y c hc => by
        rw [halike.keys, Finmap.mem_keys]
        exact (mem_dependents.mp (hdep hc)).mem) hrun
    simp only [hreach (Finset.mem_insert_self it P)] at hfound
    refine hs.found h hV hP hlink hchildren hfound fun x r hr => ?_
    split_ifs at hr with hempty
    · exact hs.cached hr
    · rw [Function.update_apply] at hr
      split_ifs at hr with hx
      · obtain rfl := Option.some.inj hr
        have hnone : s.2 it = none := by
          rw [Option.eq_none_iff_forall_ne_some]
          exact fun r hr => hP (hs.cache it r hr).1
        rw [hx, hnone]
        refine ⟨Finset.mem_insert_self .., fun d => ?_⟩
        rw [Option.getD_none, Finset.empty_union, hfound]
      · exact hs.cached hr

/-! ### All passes -/

/-- No transaction of the list spends from a later one. -/
def InOrder (m : CTxMemPool) (l : List Uint256) : Prop := l.Pairwise fun a b => ¬ m.Spends b a

lemma InOrder.later {pre post : List Uint256} (hord : m.InOrder (pre ++ post))
    {p c : Uint256} (hp : p ∈ post) (hc : c ∈ m.dependents p) (hmem : c ∈ pre ++ post) :
    c ∈ post := by
  refine (List.mem_append.mp hmem).resolve_left fun hpre => ?_
  exact (List.pairwise_append.mp hord).2.2 c hpre p hp (mem_dependents.mp hc)

lemma Updating.foldr (h : Inv mu V m) {l pre post : List Uint256} (hV : l.toFinset = V)
    (hl : l = pre ++ post) (hnodup : l.Nodup) (hord : m.InOrder l) :
    Updating mu m V post.toFinset
      (post.foldr (fun hash s => updateTransactionFromBlock mu V s hash) (m, fun _ => none)) := by
  induction post generalizing pre with
  | nil => exact h.updating_empty
  | cons it post ih =>
    rw [List.toFinset_cons, List.foldr_cons]
    have hsplit : l = (pre ++ [it]) ++ post := by
      rw [hl, List.append_assoc]
      rfl
    have hrest := ih hsplit
    refine hrest.step h ?_ ?_ fun p hp c hc hcV => ?_
    · rw [← hV, List.mem_toFinset, hl]
      exact List.mem_append_right _ (List.mem_cons_self ..)
    · rw [hl, List.nodup_append] at hnodup
      rw [List.mem_toFinset]
      exact (List.nodup_cons.mp hnodup.2.1).1
    · rw [← List.toFinset_cons, List.mem_toFinset] at hp ⊢
      rw [hl] at hord
      refine hord.later hp hc ?_
      rw [← hl, ← List.mem_toFinset, hV]
      exact hcV

/-- **`UpdateTransactionsFromBlock`.** Afterwards no links are missing. -/
theorem Inv.updateTransactionsFromBlock {l : List Uint256} (h : Inv mu l.toFinset m)
    (hnodup : l.Nodup) (hord : m.InOrder l) : Inv mu ∅ (m.updateTransactionsFromBlock mu l) := by
  have hdone := Updating.foldr h rfl (List.nil_append l).symm hnodup hord
  rw [← List.foldl_reverse] at hdone
  change Updating mu m l.toFinset l.toFinset
    (l.reverse.foldl (updateTransactionFromBlock mu l.toFinset) (m, fun _ => none)) at hdone
  unfold CTxMemPool.updateTransactionsFromBlock
  generalize l.reverse.foldl (updateTransactionFromBlock mu l.toFinset) (m, fun _ => none) = s
    at hdone ⊢
  have hchildren : ∀ p, s.1.getMemPoolChildren p = m.dependents p := by
    intro p
    rw [hdone.children, Finset.sdiff_self, linkedTo_empty]
  refine ⟨h.stock.alike hdone.alike, ?_, fun p => ?_, hdone.parents, fun _ hc =>
    absurd hc (Finset.notMem_empty _), hdone.tracks.congr fun a _ => ?_, ?_, ?_, ?_⟩
  · rw [hdone.keys, h.keys, hdone.alike.keys]
  · rw [hchildren, linkedTo_empty, hdone.alike.dependents]
  · rw [counted, Finset.sdiff_self, if_neg (Finset.notMem_empty a), funext hchildren,
      hdone.alike.package]
  · rw [hdone.alike.total, h.total, hdone.alike.keys]
    exact Finset.sum_congr rfl fun a _ => by
      rw [txSize_eq_bareAt, txSize_eq_bareAt, hdone.alike.bare]
  · rw [hdone.usage, h.usage, hdone.alike.keys]
    exact Finset.sum_congr rfl fun a _ => (hdone.alike.usageAt a).symm
  · rw [hdone.failed, h.failed]

end CTxMemPool

end Agenor
