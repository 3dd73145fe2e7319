import Mathlib.Tactic.Abel
import Agenor.MempoolInv

/-!
`RemoveStaged` keeps the memory pool consistent.

The entries to go are first taken out of the sums of their ancestors, which are found over the links
to parents while the links to children are cut; then their children lose the links to them; then
they go. For this the entries that stay must not lead, over one that goes, to another one that
stays.
-/

namespace Agenor

open Lib

namespace CTxMemPool

variable {mu : MemUsage} {m m' m₁ m₂ : CTxMemPool} {it : Uint256} {V : Finset Uint256}

/-! ### Links that change together -/

lemma linksAt_foldl {f : CTxMemPool → Uint256 → CTxMemPool} {g : TxLinks → TxLinks}
    (hf : ∀ m p a, (f m p).linksAt a = if a = p then g (m.linksAt p) else m.linksAt a)
    (hg : ∀ links, g (g links) = g links) (l : List Uint256) (m : CTxMemPool) (a : Uint256) :
    (l.foldl f m).linksAt a = if a ∈ l then g (m.linksAt a) else m.linksAt a := by
  induction l generalizing m with
  | nil => simp
  | cons p l ih =>
    rw [List.foldl_cons, ih, hf]
    by_cases hap : a = p
    · simp [hap, hg]
    · simp [hap]

lemma linksAt_foldl_updateChild (mu : MemUsage) (l : List Uint256) (m : CTxMemPool)
    (child : Uint256) (add : Bool) (a : Uint256) :
    (l.foldl (fun m piter => m.updateChild mu piter child add) m).linksAt a =
      if a ∈ l then
        { m.linksAt a with
          children := if add then insert child (m.linksAt a).children
            else (m.linksAt a).children.erase child }
      else m.linksAt a := by
  refine linksAt_foldl (g := fun links => { links with
    children := if add then insert child links.children else links.children.erase child })
    (fun m p a => linksAt_updateChild m p child add a) (fun links => ?_) l m a
  cases add <;> simp

lemma linksAt_foldl_updateParent (mu : MemUsage) (l : List Uint256) (m : CTxMemPool)
    (parent : Uint256) (add : Bool) (a : Uint256) :
    (l.foldl (fun m updateIt => m.updateParent mu updateIt parent add) m).linksAt a =
      if a ∈ l then
        { m.linksAt a with
          parents := if add then insert parent (m.linksAt a).parents
            else (m.linksAt a).parents.erase parent }
      else m.linksAt a := by
  refine linksAt_foldl (g := fun links => { links with
    parents := if add then insert parent links.parents else links.parents.erase parent })
    (fun m p a => linksAt_updateParent m p parent add a) (fun links => ?_) l m a
  cases add <;> simp

lemma Relinked.mem_mapLinks (h : Relinked mu m m') : it ∈ m'.mapLinks ↔ it ∈ m.mapLinks := by
  rw [← Finmap.mem_keys, ← Finmap.mem_keys, h.keys]

lemma relinked_foldl_updateChild {l : List Uint256} (m : CTxMemPool) (child : Uint256) (add : Bool)
    (h : ∀ p ∈ l, p ∈ m.mapLinks) :
    Relinked mu m (l.foldl (fun m piter => m.updateChild mu piter child add) m) := by
  refine Relinked.foldl m fun m' hm' p hp => ?_
  exact relinked_updateChild (hm'.mem_mapLinks.mpr (h p hp))

lemma relinked_foldl_updateParent {l : List Uint256} (m : CTxMemPool) (parent : Uint256)
    (add : Bool) (h : ∀ c ∈ l, c ∈ m.mapLinks) :
    Relinked mu m (l.foldl (fun m updateIt => m.updateParent mu updateIt parent add) m) := by
  refine Relinked.foldl m fun m' hm' c hc => ?_
  exact relinked_updateParent (hm'.mem_mapLinks.mpr (h c hc))

lemma Relinked.alike (h : Relinked mu m m') : Alike m m' :=
  ⟨fun it => by rw [bareAt, bareAt, h.mapTx], h.next, h.total⟩

lemma Shifted.baseUsage {l : List Uint256} {w : Weight} (h : Shifted l w m m') :
    m'.baseUsage mu = m.baseUsage mu := by
  unfold CTxMemPool.baseUsage linkCount linksAt
  rw [h.links, h.usage]

lemma updateAncestorsOf_spec (mu : MemUsage) (add : Bool) (setAncestors : SetEntries)
    (hit : it ∈ m.mapTx)
    (hin : ∀ p ∈ m.getMemPoolParents it, p ∈ m.mapLinks) :
    ∃ m₁, Relinked mu m m₁ ∧
      (∀ a, m₁.linksAt a = if a ∈ m.getMemPoolParents it then
        { m.linksAt a with
          children := if add then insert it (m.linksAt a).children
            else (m.linksAt a).children.erase it }
        else m.linksAt a) ∧
      Shifted (SetEntries.inOrder setAncestors) (if add then m.weightAt it else -m.weightAt it) m₁
        (m.updateAncestorsOf mu add it setAncestors) := by
  refine ⟨(SetEntries.inOrder (m.getMemPoolParents it)).foldl
    (fun m piter => m.updateChild mu piter it add) m, ?_, fun a => ?_, ?_⟩
  · exact relinked_foldl_updateChild m it add fun p hp => hin p (mem_inOrder.mp hp)
  · rw [linksAt_foldl_updateChild]
    simp only [mem_inOrder]
  · have hweight : (if add then m.weightAt it else -m.weightAt it) =
        ((if add then 1 else -1) * m.txSize it, (if add then 1 else -1) * m.fee it,
          (if add then 1 else -1 : ℤ)) := by
      rw [weightAt_eq hit]
      cases add <;> simp
    rw [hweight]
    exact shifted_foldl (nodup_ascending hashLe setAncestors) _ _

/-! ### The ancestors -/

lemma calculateMemPoolAncestors_entry {e : CTxMemPoolEntry}
    (hU : ∀ a ∈ m.mapTx.keys, m.getMemPoolParents a ⊆ m.mapTx.keys)
    (he : m.mapTx.lookup it = some e) (hhash : e.tx.hash = it) :
    ∃ setAncestors, m.calculateMemPoolAncestors e .nNoLimit false = .ok setAncestors ∧
      ∀ a, a ∈ setAncestors ↔ LeadsTo m.getMemPoolParents it a := by
  obtain ⟨s, hs⟩ := ancestorsLoop_nNoLimit m e.nTxSize m.mapTx.keys.card
    (m.getMemPoolParents e.tx.hash) ∅ e.nTxSize
  refine ⟨s, hs, fun a => ?_⟩
  rw [ancestorsLoop_eq_ok hs, mem_walk picks_first hU _ (Finset.disjoint_empty_right _) (by simp)
    (Finset.card_le_card Finset.sdiff_subset), hhash, leadsTo_iff]
  · simp
  · rw [hhash]
    exact hU it (Finmap.mem_keys.mpr (Finmap.mem_of_lookup_eq_some he))

/-! ### The first loop -/

/-- What an entry still counts when the entries of `P` have been taken out of the sums of their
ancestors. -/
noncomputable def remaining (m : CTxMemPool) (P : Finset Uint256) (a : Uint256) : Finset Uint256 :=
  insert a (m.package m.getMemPoolChildren a \ P)

/-- The pool after the entries of `P` have been taken out of the children of their parents. -/
structure Cut (mu : MemUsage) (m : CTxMemPool) (P : Finset Uint256) (m' : CTxMemPool) : Prop where
  alike : Alike m m'
  keys : m'.mapLinks.keys = m.mapLinks.keys
  parents : ∀ a, m'.getMemPoolParents a = m.getMemPoolParents a
  children : ∀ a, m'.getMemPoolChildren a = m.getMemPoolChildren a \ P
  usage : m'.baseUsage mu = m.baseUsage mu

lemma Cut.empty (mu : MemUsage) (m : CTxMemPool) : Cut mu m ∅ m :=
  ⟨.refl m, rfl, fun _ => rfl, fun a => by simp, rfl⟩

/-- The pool after they have been taken out of the sums of their ancestors as well. -/
structure Severed (mu : MemUsage) (m : CTxMemPool) (P : Finset Uint256) (m' : CTxMemPool) : Prop
    extends Cut mu m P m' where
  failed : m'.failed = m.failed
  tracks : Tracks m' (m.remaining P)

lemma Inv.severed_empty (h : Inv mu V m) : Severed mu m ∅ m := by
  refine ⟨.empty mu m, rfl, h.tracks.congr fun a ha => ?_⟩
  rw [remaining, Finset.sdiff_empty, Finset.insert_eq_of_mem (self_mem_package _ ha)]

open Classical in
lemma remaining_insert (h : Linked m) {P : Finset Uint256} {r a : Uint256} (hr : r ∈ m.mapTx)
    (hP : r ∉ P) :
    ∑ d ∈ m.remaining (insert r P) a, m.weightAt d = ∑ d ∈ m.remaining P a, m.weightAt d +
      if LeadsTo m.getMemPoolParents r a then -m.weightAt r else 0 := by
  by_cases ha : LeadsTo m.getMemPoolParents r a
  · have hreach : LeadsTo m.getMemPoolChildren a r := (leadsTo_swap h.symm).mp ha
    have hne : r ≠ a := fun heq => h.acyclic a (heq ▸ hreach)
    have hsplit : m.remaining P a = insert r (m.remaining (insert r P) a) := by
      ext d
      simp only [remaining, Finset.mem_insert, Finset.mem_sdiff, mem_package]
      by_cases hd : d = r
      · simp only [hd, hr, hreach.reach, hP]
        tauto
      · tauto
    have hnot : r ∉ m.remaining (insert r P) a := by
      simp [remaining, hne]
    rw [if_pos ha, hsplit, Finset.sum_insert hnot]
    abel
  · have hsame : m.remaining (insert r P) a = m.remaining P a := by
      ext d
      simp only [remaining, Finset.mem_insert, Finset.mem_sdiff, mem_package]
      by_cases hd : d = r
      · by_cases hra : r = a
        · simp [hd, hra]
        · have hno : ¬ Reach m.getMemPoolChildren a r := by
            intro hreach
            exact ha ((leadsTo_swap h.symm).mpr (hreach.leadsTo (Ne.symm hra)))
          simp [hd, hno]
      · tauto
    rw [if_neg ha, hsame, add_zero]

/-- The keys are the hashes of the transactions. -/
def Hashed (m : CTxMemPool) : Prop := ∀ {it tx}, m.txAt it = some tx → tx.hash = it

lemma Cut.step_spec (h : Linked m) (hhash : Hashed m) {P : Finset Uint256} (hs : Cut mu m P m₁)
    {r : Uint256} (hr : r ∈ m.mapTx) : ∃ m₂ A, Relinked mu m₁ m₂ ∧
      (∀ a, a ∈ A ↔ LeadsTo m.getMemPoolParents r a) ∧
      Shifted (SetEntries.inOrder A) (-m₁.weightAt r) m₂ (m₁.updateAncestorsForRemoval mu r) ∧
      Cut mu m (insert r P) (m₁.updateAncestorsForRemoval mu r) := by
  obtain ⟨e, he⟩ := Finmap.mem_iff.mp (hs.alike.mem_iff.mpr hr)
  have hr₁ : e.tx.hash = r := by
    have htx := txAt_of_lookup he
    rw [hs.alike.txAt] at htx
    exact hhash htx
  have hparents : m₁.getMemPoolParents = m.getMemPoolParents := funext hs.parents
  have hU : ∀ a ∈ m₁.mapTx.keys, m₁.getMemPoolParents a ⊆ m₁.mapTx.keys := by
    intro a _ p hp
    rw [hs.parents, h.symm] at hp
    rw [hs.alike.keys, Finmap.mem_keys]
    exact (h.mem hp).1
  obtain ⟨A, hA, hmemA⟩ := calculateMemPoolAncestors_entry hU he hr₁
  rw [updateAncestorsForRemoval, he]
  dsimp only
  rw [hA]
  dsimp only
  have hin : ∀ p ∈ m₁.getMemPoolParents r, p ∈ m₁.mapLinks := by
    intro p hp
    rw [hs.parents, h.symm] at hp
    rw [← Finmap.mem_keys, hs.keys, h.keys, Finmap.mem_keys]
    exact (h.mem hp).1
  obtain ⟨m₂, hrel, hlinks, hshift⟩ :=
    updateAncestorsOf_spec mu false A (hs.alike.mem_iff.mpr hr) hin
  have hat : ∀ a, (m₁.updateAncestorsOf mu false r A).linksAt a = m₂.linksAt a := by
    intro a
    rw [linksAt, hshift.links, linksAt]
  refine ⟨m₂, A, hrel, fun a => by rw [hmemA, hparents], hshift,
    (hs.alike.trans hrel.alike).trans hshift.alike, ?_, fun a => ?_, fun a => ?_, ?_⟩
  · rw [hshift.links, hrel.keys, hs.keys]
  · rw [← hs.parents, getMemPoolParents, hat, hlinks]
    split_ifs <;> rfl
  · rw [getMemPoolChildren, hat, hlinks]
    by_cases hpa : a ∈ m₁.getMemPoolParents r
    · rw [if_pos hpa]
      change (m₁.getMemPoolChildren a).erase r = _
      rw [hs.children]
      ext c
      simp only [Finset.mem_erase, Finset.mem_sdiff, Finset.mem_insert]
      tauto
    · rw [if_neg hpa]
      change m₁.getMemPoolChildren a = _
      rw [hs.children]
      rw [hs.parents, h.symm] at hpa
      ext c
      simp only [Finset.mem_sdiff, Finset.mem_insert, not_or]
      constructor
      · exact fun hc => ⟨hc.1, fun heq => hpa (heq ▸ hc.1), hc.2⟩
      · exact fun hc => ⟨hc.1, hc.2.2⟩
  · rw [hshift.baseUsage, hrel.usage, hs.usage]

lemma Cut.foldl (h : Linked m) (hhash : Hashed m) {l : List Uint256}
    (hmem : ∀ r ∈ l, r ∈ m.mapTx) {P : Finset Uint256} (hs : Cut mu m P m₁) :
    Cut mu m (P ∪ l.toFinset)
      (l.foldl (fun m removeIt => m.updateAncestorsForRemoval mu removeIt) m₁) := by
  induction l generalizing P m₁ with
  | nil => simpa using hs
  | cons r l ih =>
    obtain ⟨-, -, -, -, -, hstep⟩ := hs.step_spec h hhash (hmem r (List.mem_cons_self ..))
    have hrest := ih (fun a ha => hmem a (List.mem_cons_of_mem _ ha)) hstep
    rw [List.foldl_cons, List.toFinset_cons]
    rwa [Finset.insert_union, ← Finset.union_insert] at hrest

lemma Severed.step (h : Inv mu V m) {P : Finset Uint256} (hs : Severed mu m P m₁) {r : Uint256}
    (hr : r ∈ m.mapTx) (hP : r ∉ P) :
    Severed mu m (insert r P) (m₁.updateAncestorsForRemoval mu r) := by
  obtain ⟨m₂, A, hrel, hmemA, hshift, hcut⟩ := hs.toCut.step_spec h.linked h.stock.hash hr
  have halike : Alike m m₂ := hs.alike.trans hrel.alike
  obtain ⟨htracks, hfailed⟩ := hshift.tracks (m.remaining (insert r P))
    (halike.weighty h.stock.weighty) (hs.tracks.of_mapTx hrel.mapTx) (by
      intro a ha
      rw [halike.mem_iff] at ha
      refine ⟨Finset.mem_insert_self .., ?_, ?_⟩
      · rw [halike.keys]
        refine Finset.insert_subset (Finmap.mem_keys.mpr ha) ?_
        exact Finset.sdiff_subset.trans (package_subset ..)
      · simp only [halike.weightAt, hs.alike.weightAt]
        rw [remaining_insert h.linked hr hP]
        have hiff : a ∈ SetEntries.inOrder A ↔ LeadsTo m.getMemPoolParents r a := by
          rw [mem_inOrder, hmemA]
        by_cases hl : LeadsTo m.getMemPoolParents r a
        · rw [if_pos hl, if_pos (hiff.mpr hl)]
        · rw [if_neg hl, if_neg fun hin => hl (hiff.mp hin)])
  exact ⟨hcut, by rw [hfailed, hrel.failed, hs.failed], htracks⟩

lemma Severed.foldl (h : Inv mu V m) {l : List Uint256} (hl : l.Nodup)
    (hmem : ∀ r ∈ l, r ∈ m.mapTx) {P : Finset Uint256} (hs : Severed mu m P m₁)
    (hP : ∀ r ∈ l, r ∉ P) :
    Severed mu m (P ∪ l.toFinset)
      (l.foldl (fun m removeIt => m.updateAncestorsForRemoval mu removeIt) m₁) := by
  induction l generalizing P m₁ with
  | nil => simpa using hs
  | cons r l ih =>
    obtain ⟨hrl, hl⟩ := List.nodup_cons.mp hl
    have hstep := hs.step h (hmem r (List.mem_cons_self ..)) (hP r (List.mem_cons_self ..))
    have hrest := ih hl (fun a ha => hmem a (List.mem_cons_of_mem _ ha)) hstep (by
      intro a ha
      rw [Finset.mem_insert, not_or]
      exact ⟨fun heq => hrl (heq ▸ ha), hP a (List.mem_cons_of_mem _ ha)⟩)
    rw [List.foldl_cons, List.toFinset_cons]
    rwa [Finset.insert_union, ← Finset.union_insert] at hrest

/-! ### The second loop -/

/-- The pool after the entries of `P` have been taken out of the parents of their children, while
the entries of `S` are to go. -/
structure Detached (mu : MemUsage) (m : CTxMemPool) (S : Finset Uint256) (m₁ : CTxMemPool)
    (P : Finset Uint256) (m' : CTxMemPool) : Prop where
  relinked : Relinked mu m₁ m'
  parents : ∀ a, m'.getMemPoolParents a =
    if a ∈ S then m.getMemPoolParents a else m.getMemPoolParents a \ P
  children : ∀ a, m'.getMemPoolChildren a = m.getMemPoolChildren a \ S

lemma Detached.step (h : Linked m) {S P : Finset Uint256} (hs : Cut mu m S m₁)
    (hd : Detached mu m S m₁ P m₂) {r : Uint256} :
    Detached mu m S m₁ (insert r P) (m₂.updateChildrenForRemoval mu r) := by
  unfold updateChildrenForRemoval
  have hin : ∀ c ∈ SetEntries.inOrder (m₂.getMemPoolChildren r), c ∈ m₂.mapLinks := by
    intro c hc
    rw [mem_inOrder, hd.children, Finset.mem_sdiff] at hc
    rw [← Finmap.mem_keys, hd.relinked.keys, hs.keys, h.keys, Finmap.mem_keys]
    exact (h.mem hc.1).2
  have hlinks := fun a => linksAt_foldl_updateParent mu
    (SetEntries.inOrder (m₂.getMemPoolChildren r)) m₂ r false a
  refine ⟨hd.relinked.trans (relinked_foldl_updateParent m₂ r false hin), fun a => ?_, fun a => ?_⟩
  · rw [getMemPoolParents, hlinks]
    simp only [mem_inOrder, hd.children, Finset.mem_sdiff]
    by_cases hc : a ∈ m.getMemPoolChildren r ∧ a ∉ S
    · rw [if_pos hc, if_neg hc.2]
      change (m₂.getMemPoolParents a).erase r = _
      rw [hd.parents, if_neg hc.2]
      ext p
      simp only [Finset.mem_erase, Finset.mem_sdiff, Finset.mem_insert]
      tauto
    · rw [if_neg hc]
      change m₂.getMemPoolParents a = _
      rw [hd.parents]
      split_ifs with ha
      · rfl
      · -- the entry is no child, so that it has no link to lose
        have hno : r ∉ m.getMemPoolParents a := by
          rw [h.symm]
          exact fun hmem => hc ⟨hmem, ha⟩
        ext p
        simp only [Finset.mem_sdiff, Finset.mem_insert, not_or]
        constructor
        · exact fun hp => ⟨hp.1, fun heq => hno (heq ▸ hp.1), hp.2⟩
        · exact fun hp => ⟨hp.1, hp.2.2⟩
  · rw [getMemPoolChildren, hlinks, ← hd.children]
    split_ifs <;> rfl

lemma Detached.foldl (h : Linked m) {S P : Finset Uint256} (hs : Cut mu m S m₁)
    (l : List Uint256) (hd : Detached mu m S m₁ P m₂) :
    Detached mu m S m₁ (P ∪ l.toFinset)
      (l.foldl (fun m removeIt => m.updateChildrenForRemoval mu removeIt) m₂) := by
  induction l generalizing P m₂ with
  | nil => simpa using hd
  | cons r l ih =>
    have hrest := ih (hd.step h hs (r := r))
    rw [List.foldl_cons, List.toFinset_cons]
    rwa [Finset.insert_union, ← Finset.union_insert] at hrest

/-! ### The entries go -/

/-- The memory and the sizes are those of the entries. -/
structure Counted (mu : MemUsage) (m : CTxMemPool) : Prop where
  keys : m.mapLinks.keys = m.mapTx.keys
  total : m.totalTxSize = ∑ it ∈ m.mapTx.keys, m.txSize it
  usage : m.baseUsage mu = ∑ it ∈ m.mapTx.keys, m.usageAt it

lemma keys_erase {β : Type} (s : Finmap fun _ : Uint256 => β) (a : Uint256) :
    (s.erase a).keys = s.keys.erase a := by
  ext b
  rw [Finmap.mem_keys, Finmap.mem_erase, Finset.mem_erase, Finmap.mem_keys]

lemma removeUnchecked_lookup (mu : MemUsage) (m : CTxMemPool) (it a : Uint256) :
    (m.removeUnchecked mu it).mapTx.lookup a = if a = it then none else m.mapTx.lookup a := by
  unfold removeUnchecked
  cases hm : m.mapTx.lookup it with
  | none =>
    split_ifs with ha
    · rw [ha, hm]
    · rfl
  | some e => exact lookup_erase_eq _ _ _

lemma removeUnchecked_linksAt (mu : MemUsage) (m : CTxMemPool) {it a : Uint256} (ha : a ≠ it) :
    (m.removeUnchecked mu it).linksAt a = m.linksAt a := by
  unfold removeUnchecked linksAt
  cases m.mapTx.lookup it with
  | none => rfl
  | some e =>
    dsimp only
    rw [lookup_erase_eq, if_neg ha]

lemma removeUnchecked_failed (mu : MemUsage) (m : CTxMemPool) (it : Uint256) :
    (m.removeUnchecked mu it).failed = m.failed := by
  unfold removeUnchecked
  cases m.mapTx.lookup it <;> rfl

lemma Counted.removeUnchecked (h : Counted mu m) (it : Uint256) :
    Counted mu (m.removeUnchecked mu it) := by
  cases hm : m.mapTx.lookup it with
  | none =>
    have hsame : m.removeUnchecked mu it = m := by rw [CTxMemPool.removeUnchecked, hm]
    rw [hsame]
    exact h
  | some e =>
    have hit := Finmap.mem_keys.mpr (Finmap.mem_of_lookup_eq_some hm)
    have hother : ∀ a ∈ m.mapTx.keys.erase it,
        (m.removeUnchecked mu it).bareAt a = m.bareAt a := by
      intro a ha
      rw [bareAt, bareAt, removeUnchecked_lookup, if_neg (Finset.ne_of_mem_erase ha)]
    have hlinks : (m.removeUnchecked mu it).mapLinks.keys = m.mapTx.keys.erase it := by
      rw [CTxMemPool.removeUnchecked, hm, ← h.keys]
      exact keys_erase _ _
    have hkeys : (m.removeUnchecked mu it).mapTx.keys = m.mapTx.keys.erase it := by
      rw [CTxMemPool.removeUnchecked, hm]
      exact keys_erase _ _
    refine ⟨hlinks.trans hkeys.symm, ?_, ?_⟩
    · have hsum : ∑ a ∈ m.mapTx.keys.erase it, (m.removeUnchecked mu it).txSize a =
          ∑ a ∈ m.mapTx.keys.erase it, m.txSize a :=
        Finset.sum_congr rfl fun a ha => by rw [txSize_eq_bareAt, txSize_eq_bareAt, hother a ha]
      have htotal : (m.removeUnchecked mu it).totalTxSize = m.totalTxSize - m.txSize it := by
        rw [CTxMemPool.removeUnchecked, hm]
        simp [txSize, hm]
      rw [hkeys, hsum, htotal, h.total, ← Finset.add_sum_erase _ _ hit]
      omega
    · have hsum : ∑ a ∈ m.mapTx.keys.erase it, (m.removeUnchecked mu it).usageAt a =
          ∑ a ∈ m.mapTx.keys.erase it, m.usageAt a :=
        Finset.sum_congr rfl fun a ha => by rw [usageAt, usageAt, hother a ha]
      have hcount : ∑ a ∈ m.mapTx.keys.erase it, (m.removeUnchecked mu it).linkCount a =
          ∑ a ∈ m.mapTx.keys.erase it, m.linkCount a := by
        refine Finset.sum_congr rfl fun a ha => ?_
        rw [linkCount, linkCount, removeUnchecked_linksAt mu m (Finset.ne_of_mem_erase ha)]
      have hcached : (m.removeUnchecked mu it).cachedInnerUsage =
          m.cachedInnerUsage - m.usageAt it - mu.setNode * m.linkCount it := by
        rw [CTxMemPool.removeUnchecked, hm]
        simp [usageAt, bareAt, hm, linkCount, CTxMemPoolEntry.bare]
      have hbase := h.usage
      rw [baseUsage, h.keys, ← Finset.add_sum_erase _ _ hit, ← Finset.add_sum_erase _ _ hit,
        mul_add] at hbase
      rw [baseUsage, hlinks, hkeys, hsum, hcount, hcached]
      omega

/-- The entries of a list have gone; those that stay have not changed. -/
structure Dropped (mu : MemUsage) (l : List Uint256) (m m' : CTxMemPool) : Prop where
  lookup : ∀ a, m'.mapTx.lookup a = if a ∈ l then none else m.mapTx.lookup a
  linksAt : ∀ a, a ∉ l → m'.linksAt a = m.linksAt a
  failed : m'.failed = m.failed
  counted : Counted mu m → Counted mu m'

lemma dropped_foldl (mu : MemUsage) (l : List Uint256) (m : CTxMemPool) :
    Dropped mu l m (l.foldl (fun m it => m.removeUnchecked mu it) m) := by
  induction l generalizing m with
  | nil => exact ⟨fun a => by simp, fun _ _ => rfl, rfl, id⟩
  | cons b l ih =>
    have hrest := ih (m.removeUnchecked mu b)
    refine ⟨fun a => ?_, fun a ha => ?_, ?_, fun hc => ?_⟩
    · rw [List.foldl_cons, hrest.lookup, removeUnchecked_lookup]
      by_cases hab : a = b <;> simp [hab]
    · rw [List.mem_cons, not_or] at ha
      rw [List.foldl_cons, hrest.linksAt a ha.2, removeUnchecked_linksAt mu m ha.1]
    · rw [List.foldl_cons, hrest.failed, removeUnchecked_failed]
    · exact hrest.counted (hc.removeUnchecked b)

/-! ### All together -/

/-- A set of entries may go: what stays does not lead over it to something else that stays. -/
def Removable (m : CTxMemPool) (S : Finset Uint256) : Prop :=
  ∀ a ∉ S, ∀ x ∈ S, Reach m.getMemPoolChildren a x →
    ∀ d, Reach m.getMemPoolChildren x d → d ∈ S

/-- What `RemoveStaged` leaves of the links, and of the memory and the sizes. -/
structure Pruned (mu : MemUsage) (m : CTxMemPool) (S : SetEntries) (m' : CTxMemPool) : Prop where
  removed : Removed S m m'
  counted : Counted mu m'
  children : ∀ a, m'.getMemPoolChildren a = if a ∈ S then ∅ else m.getMemPoolChildren a \ S
  parents : ∀ a, m'.getMemPoolParents a = if a ∈ S then ∅ else m.getMemPoolParents a \ S

lemma Counted.alike (h : Counted mu m) (ha : Alike m m')
    (hkeys : m'.mapLinks.keys = m.mapLinks.keys)
    (husage : m'.baseUsage mu = m.baseUsage mu) : Counted mu m' := by
  refine ⟨by rw [hkeys, h.keys, ha.keys], ?_, ?_⟩
  · rw [ha.total, h.total, ha.keys]
    exact Finset.sum_congr rfl fun a _ => by rw [txSize_eq_bareAt, txSize_eq_bareAt, ha.bare]
  · rw [husage, h.usage, ha.keys]
    exact Finset.sum_congr rfl fun a _ => (ha.usageAt a).symm

lemma detached_updateForRemove (h : Linked m) (hhash : Hashed m) {stage : SetEntries}
    (hstage : stage ⊆ m.mapTx.keys) : ∃ m₁, Cut mu m stage m₁ ∧
      Detached mu m stage m₁ stage (m.updateForRemoveFromMempool mu stage) := by
  have hcut := (Cut.empty mu m).foldl h hhash
    (fun r hr => Finmap.mem_keys.mp (hstage (mem_inOrder.mp hr)))
  rw [Finset.empty_union, toFinset_inOrder] at hcut
  have hdet := Detached.foldl h hcut (SetEntries.inOrder stage)
    ⟨.refl _, fun a => by rw [hcut.parents, Finset.sdiff_empty, ite_self], hcut.children⟩
  rw [Finset.empty_union, toFinset_inOrder] at hdet
  exact ⟨_, hcut, hdet⟩

lemma pruned_removeStaged (h : Linked m) (hhash : Hashed m) (hc : Counted mu m)
    {stage : SetEntries} (hstage : stage ⊆ m.mapTx.keys) :
    Pruned mu m stage (m.removeStaged mu stage) := by
  have hremoved := removed_removeStaged mu m stage
  obtain ⟨m₁, hcut, hdet⟩ := detached_updateForRemove h hhash hstage
  have hdrop := dropped_foldl mu (SetEntries.inOrder stage)
    (m.updateForRemoveFromMempool mu stage)
  have hcounted := hdrop.counted (hc.alike (hcut.alike.trans hdet.relinked.alike)
    (by rw [hdet.relinked.keys, hcut.keys]) (by rw [hdet.relinked.usage, hcut.usage]))
  change Counted mu (m.removeStaged mu stage) at hcounted
  have hempty : ∀ a ∈ stage, (m.removeStaged mu stage).linksAt a = TxLinks.empty := by
    intro a ha
    have hno : a ∉ (m.removeStaged mu stage).mapLinks := by
      rw [← Finmap.mem_keys, hcounted.keys, Finmap.mem_keys, hremoved.mem_iff]
      exact fun hmem => hmem.2 ha
    rw [linksAt, Finmap.lookup_eq_none.mpr hno]
    rfl
  have hkept : ∀ a ∉ stage, (m.removeStaged mu stage).linksAt a =
      (m.updateForRemoveFromMempool mu stage).linksAt a :=
    fun a ha => hdrop.linksAt a fun hmem => ha (mem_inOrder.mp hmem)
  refine ⟨hremoved, hcounted, fun a => ?_, fun a => ?_⟩
  · split_ifs with ha
    · rw [getMemPoolChildren, hempty a ha]
      rfl
    · rw [getMemPoolChildren, hkept a ha]
      exact hdet.children a
  · split_ifs with ha
    · rw [getMemPoolParents, hempty a ha]
      rfl
    · rw [getMemPoolParents, hkept a ha]
      exact (hdet.parents a).trans (if_neg ha)

/-- **`RemoveStaged`.** The pool stays consistent. -/
theorem Inv.removeStaged (h : Inv mu V m) {stage : SetEntries} (hstage : stage ⊆ m.mapTx.keys)
    (hout : m.Removable stage) : Inv mu V (m.removeStaged mu stage) := by
  have hpruned := pruned_removeStaged h.linked h.stock.hash ⟨h.keys, h.total, h.usage⟩ hstage
  have hremoved := hpruned.removed
  have hchildren := hpruned.children
  -- the first loop
  have hsev := Severed.foldl h (nodup_ascending hashLe stage)
    (fun r hr => Finmap.mem_keys.mp (hstage (mem_inOrder.mp hr))) h.severed_empty
    (fun r _ => Finset.notMem_empty r)
  rw [Finset.empty_union] at hsev
  change Severed mu m (SetEntries.inOrder stage).toFinset _ at hsev
  rw [toFinset_inOrder] at hsev
  -- the second loop
  have hdet := Detached.foldl h.linked hsev.toCut (SetEntries.inOrder stage)
    ⟨.refl _, fun a => by rw [hsev.parents, Finset.sdiff_empty, ite_self], hsev.children⟩
  rw [Finset.empty_union, toFinset_inOrder] at hdet
  -- the entries go
  have hdrop := dropped_foldl mu (SetEntries.inOrder stage)
    (m.updateForRemoveFromMempool mu stage)
  change Detached mu m stage _ stage (m.updateForRemoveFromMempool mu stage) at hdet
  change Dropped mu _ _ (m.removeStaged mu stage) at hdrop
  generalize m.updateForRemoveFromMempool mu stage = m₂ at hdet hdrop
  generalize m.removeStaged mu stage = m₃ at hdrop hremoved hpruned hchildren ⊢
  refine ⟨h.stock.removed hremoved, hpruned.counted.keys, fun p => ?_, fun p c => ?_, ?_, ?_,
    hpruned.counted.total, hpruned.counted.usage, ?_⟩
  · ext c
    rw [hchildren, mem_linkedTo, hremoved.spends]
    split_ifs with hp
    · simp [hp]
    · rw [Finset.mem_sdiff, h.children, mem_linkedTo]
      tauto
  · rw [hchildren, hpruned.parents]
    by_cases hp : p ∈ stage <;> by_cases hc : c ∈ stage <;> simp [hp, hc, h.parents]
  · intro p c hpc hc
    exact h.up (hremoved.spends.mp hpc).1 hc
  · intro a e he
    rw [hdrop.lookup] at he
    split_ifs at he with ha
    rw [mem_inOrder] at ha
    rw [hdet.relinked.mapTx] at he
    rcases hsev.tracks a e he with hd | hstate
    · exact .inl hd
    · right
      have hreach : ∀ d, d ∉ stage →
          (Reach m₃.getMemPoolChildren a d ↔ Reach m.getMemPoolChildren a d) := by
        intro d hd
        refine reach_remove (S := stage) (fun x => ?_) (fun x hx => ?_) fun x hx hax hxd => ?_
        · rw [hchildren]
          split_ifs
          · exact Finset.empty_subset _
          · exact Finset.sdiff_subset
        · rw [hchildren, if_neg hx]
        · exact hd (hout a ha x hx hax d hxd)
      have hset : m.remaining stage a = m₃.package m₃.getMemPoolChildren a := by
        have hmem : a ∈ m.mapTx := by
          rw [← hsev.alike.mem_iff]
          exact Finmap.mem_of_lookup_eq_some he
        ext d
        rw [remaining, Finset.mem_insert, Finset.mem_sdiff, mem_package, mem_package,
          hremoved.mem_iff]
        by_cases hd : d ∈ stage
        · have hda : d ≠ a := fun heq => ha (heq ▸ hd)
          simp [hd, hda]
        · rw [hreach d hd]
          constructor
          · rintro (rfl | hd')
            · exact ⟨⟨hmem, hd⟩, .refl _⟩
            · exact ⟨⟨hd'.1.1, hd⟩, hd'.1.2⟩
          · exact fun hd' => .inr ⟨⟨hd'.1.1, hd'.2⟩, hd⟩
      rw [hstate, hset]
      refine Finset.sum_congr rfl fun d hd => ?_
      have hd' := (hremoved.mem_iff.mp (mem_package.mp hd).1).2
      rw [hsev.alike.weightAt, hremoved.weightAt hd']
  · rw [hdrop.failed, hdet.relinked.failed, hsev.failed, h.failed]

/-! ### Removal by transaction, time and size -/

lemma removable_of_closed {S : Finset Uint256} (h : ∀ x ∈ S, m.getMemPoolChildren x ⊆ S) :
    m.Removable S :=
  fun _ _ _ hx _ _ hd => hd.mem_of_closed hx h

lemma Inv.removable_singleton (h : Inv mu V m) (hit : m.getMemPoolParents it = ∅) :
    m.Removable {it} := by
  intro a ha x hx hax
  rw [Finset.mem_singleton] at ha hx
  subst hx
  obtain ⟨p, -, hp⟩ := leadsTo_iff_tail.mp (hax.leadsTo ha)
  rw [← h.parents, hit] at hp
  exact absurd hp (Finset.notMem_empty p)

lemma Inv.removeStaged_descendants (h : Inv mu V m) {s : SetEntries} (hs : s ⊆ m.mapTx.keys) :
    Inv mu V (m.removeStaged mu (m.calculateAllDescendants s)) := by
  have hmem : ∀ {d}, d ∈ m.calculateAllDescendants s ↔
      ∃ a ∈ s, Reach m.getMemPoolChildren a d := mem_calculateAllDescendants h.linked hs
  refine h.removeStaged (fun d hd => ?_) (removable_of_closed fun x hx c hc => ?_)
  · obtain ⟨a, ha, had⟩ := hmem.mp hd
    refine had.mem_of_closed (hs ha) fun y _ z hz => ?_
    exact Finmap.mem_keys.mpr (h.mem hz).mem
  · obtain ⟨a, ha, hax⟩ := hmem.mp hx
    exact hmem.mpr ⟨a, ha, hax.tail hc⟩

lemma Inv.spenders_subset (h : Inv mu V m) (tx : CTransaction) :
    m.spenders tx ⊆ m.mapTx.keys := by
  intro c hc
  rw [spenders, List.mem_toFinset, List.mem_filterMap] at hc
  obtain ⟨i, -, hi⟩ := hc
  obtain ⟨p, hp, rfl⟩ := Option.map_eq_some_iff.mp hi
  exact Finmap.mem_keys.mpr (mem_of_txAt (h.stock.next hp).1)

/-- **`remove`.** A transaction goes with everything that depends on it. -/
theorem Inv.remove (h : Inv mu V m) (tx : CTransaction) : Inv mu V (m.remove mu tx true) := by
  unfold CTxMemPool.remove
  simp only [if_true]
  generalize hs : (if m.has tx.hash = true then {tx.hash} else m.spenders tx) = s
  have hsub : s ⊆ m.mapTx.keys := by
    rw [← hs]
    split_ifs with hhas
    · exact Finset.singleton_subset_iff.mpr (Finmap.mem_keys.mpr (has_eq_true.mp hhas))
    · exact h.spenders_subset tx
  have hsame : ({ m with failed := m.failed || !decide (s ⊆ m.mapTx.keys) } : CTxMemPool) = m := by
    simp [hsub]
  rw [hsame]
  exact h.removeStaged_descendants hsub

lemma Inv.removeConfirmed (h : Inv mu V m) {tx : CTransaction}
    (hparents : m.getMemPoolParents tx.hash = ∅) : Inv mu V (m.remove mu tx false) := by
  unfold CTxMemPool.remove
  simp only [Bool.false_eq_true, if_false]
  generalize hs : (if m.has tx.hash = true then ({tx.hash} : SetEntries) else ∅) = s
  have hsub : s ⊆ m.mapTx.keys := by
    rw [← hs]
    split_ifs with hhas
    · exact Finset.singleton_subset_iff.mpr (Finmap.mem_keys.mpr (has_eq_true.mp hhas))
    · exact Finset.empty_subset _
  have hsame : ({ m with failed := m.failed || !decide (s ⊆ m.mapTx.keys) } : CTxMemPool) = m := by
    simp [hsub]
  rw [hsame]
  refine h.removeStaged hsub ?_
  rw [← hs]
  split_ifs
  · exact h.removable_singleton hparents
  · exact removable_of_closed fun x hx => absurd hx (Finset.notMem_empty x)

lemma Inv.foldl {α : Type} {f : CTxMemPool → α → CTxMemPool}
    (hf : ∀ m a, Inv mu V m → Inv mu V (f m a)) (l : List α) (h : Inv mu V m) :
    Inv mu V (l.foldl f m) := by
  induction l generalizing m with
  | nil => exact h
  | cons a l ih => exact ih (hf m a h)

lemma Inv.removeConflicts (h : Inv mu V m) (tx : CTransaction) :
    Inv mu V (m.removeConflicts mu tx) := by
  refine Inv.foldl (fun m txin h => ?_) tx.vin h
  split
  · exact h
  · split_ifs
    · exact h.remove _
    · exact h

lemma Inv.removeForReorg (h : Inv mu V m) (env : ReorgEnv) :
    Inv mu V (m.removeForReorg mu env) :=
  Inv.foldl (fun _ e h => h.remove e.tx) _ h

lemma Inv.expire (h : Inv mu V m) (time : ℤ) : Inv mu V (m.expire mu time) :=
  h.removeStaged_descendants (Finset.filter_subset _ _)

lemma Inv.removeStaged_calculateDescendants (h : Inv mu V m) (hit : it ∈ m.mapTx) :
    Inv mu V (m.removeStaged mu (m.calculateDescendants it ∅)) := by
  have hset : m.calculateDescendants it ∅ = m.calculateAllDescendants {it} := by
    ext d
    rw [mem_calculateDescendants h.linked hit (by simp), mem_calculateAllDescendants h.linked
      (Finset.singleton_subset_iff.mpr (Finmap.mem_keys.mpr hit))]
    simp
  rw [hset]
  exact h.removeStaged_descendants (Finset.singleton_subset_iff.mpr (Finmap.mem_keys.mpr hit))

lemma Inv.trimToSize (h : Inv mu V m) (worst : CTxMemPool → Option Uint256) (sizelimit : ℕ) :
    Inv mu V (m.trimToSize mu worst sizelimit) := by
  unfold CTxMemPool.trimToSize
  generalize m.mapTx.keys.card = fuel
  induction fuel generalizing m with
  | zero => exact h
  | succ fuel ih =>
    rw [trimLoop]
    split_ifs with hsize
    · exact h
    · split
      · exact h
      · next it _ =>
        apply ih
        split_ifs with hhas
        · exact h.removeStaged_calculateDescendants (has_eq_true.mp hhas)
        · exact h

/-! ### Blocks -/

def Shrinks (m m' : CTxMemPool) : Prop := ∃ s, Removed s m m'

lemma Shrinks.refl (m : CTxMemPool) : Shrinks m m := ⟨∅, fun it => by simp, fun o => by simp⟩

lemma Shrinks.trans (h : Shrinks m m₁) (h' : Shrinks m₁ m₂) : Shrinks m m₂ := by
  obtain ⟨s, hs⟩ := h
  obtain ⟨t, ht⟩ := h'
  exact ⟨s ∪ t, hs.union ht⟩

lemma Shrinks.mem (h : Shrinks m m') (hit : it ∈ m'.mapTx) : it ∈ m.mapTx := by
  obtain ⟨s, hs⟩ := h
  exact (hs.mem_iff.mp hit).1

lemma Shrinks.spends (h : Shrinks m m') {p c : Uint256} (hpc : m'.Spends p c) : m.Spends p c := by
  obtain ⟨s, hs⟩ := h
  exact (hs.spends.mp hpc).1

lemma Shrinks.foldl {α : Type} {f : CTxMemPool → α → CTxMemPool} (hf : ∀ m a, Shrinks m (f m a))
    (l : List α) (m : CTxMemPool) : Shrinks m (l.foldl f m) := by
  induction l generalizing m with
  | nil => exact .refl m
  | cons a l ih => exact (hf m a).trans (ih (f m a))

lemma shrinks_removeStaged (mu : MemUsage) (m : CTxMemPool) (stage : SetEntries) :
    Shrinks m (m.removeStaged mu stage) := ⟨stage, removed_removeStaged mu m stage⟩

lemma shrinks_remove (mu : MemUsage) (m : CTxMemPool) (tx : CTransaction) (fRecursive : Bool) :
    Shrinks m (m.remove mu tx fRecursive) :=
  ⟨_, (removed_removeStaged mu _ _).of_alike (alike_failed m _)⟩

lemma shrinks_removeConflicts (mu : MemUsage) (m : CTxMemPool) (tx : CTransaction) :
    Shrinks m (m.removeConflicts mu tx) := by
  refine Shrinks.foldl (fun m txin => ?_) tx.vin m
  split
  · exact .refl m
  · split_ifs
    · exact shrinks_remove mu m _ true
    · exact .refl m

lemma notMem_remove (mu : MemUsage) (m : CTxMemPool) (tx : CTransaction) :
    tx.hash ∉ (m.remove mu tx false).mapTx := by
  intro hit
  have hmem := (shrinks_remove mu m tx false).mem hit
  rw [remove, if_pos (has_eq_true.mpr hmem)] at hit
  simp only [Bool.false_eq_true, if_false] at hit
  exact ((removed_removeStaged mu _ _).mem_iff.mp hit).2 (Finset.mem_singleton_self _)

/-- The transactions of a block that are in the pool come after everything in the pool that they
spend from. -/
def ConfirmsInOrder (m : CTxMemPool) (vtx : List CTransaction) : Prop :=
  ∀ l₁ tx l₂, vtx = l₁ ++ tx :: l₂ → ∀ p, m.Spends p tx.hash → p ∈ l₁.map (·.hash)

/-- **`removeForBlock`.** The pool stays consistent when a block is connected. -/
theorem Inv.removeForBlock (h : Inv mu V m) {vtx : List CTransaction}
    (hvtx : m.ConfirmsInOrder vtx) : Inv mu V (m.removeForBlock mu vtx) := by
  have hrun : ∀ (l₂ l₁ : List CTransaction) (m₁ : CTxMemPool), vtx = l₁ ++ l₂ → Inv mu V m₁ →
      Shrinks m m₁ → (∀ tx ∈ l₁, tx.hash ∉ m₁.mapTx) →
      Inv mu V (l₂.foldl (fun m tx => (m.remove mu tx false).removeConflicts mu tx) m₁) := by
    intro l₂
    induction l₂ with
    | nil => exact fun _ _ _ hinv _ _ => hinv
    | cons tx l₂ ih =>
      intro l₁ m₁ hsplit hinv hshrink hgone
      -- what the transaction spends from has been removed with those before it
      have hparents : m₁.getMemPoolParents tx.hash = ∅ := by
        rw [Finset.eq_empty_iff_forall_notMem]
        intro p hp
        rw [hinv.parents] at hp
        have hspends := hinv.mem hp
        have hearlier := hvtx l₁ tx l₂ hsplit p (hshrink.spends hspends)
        obtain ⟨tx', htx', rfl⟩ := List.mem_map.mp hearlier
        exact hgone tx' htx' hspends.1
      have hstep : Shrinks m₁ ((m₁.remove mu tx false).removeConflicts mu tx) :=
        (shrinks_remove mu m₁ tx false).trans (shrinks_removeConflicts mu _ tx)
      refine ih (l₁ ++ [tx]) _ (by simp [hsplit])
        ((hinv.removeConfirmed hparents).removeConflicts tx)
        (hshrink.trans hstep) fun tx' htx' hmem => ?_
      rcases List.mem_append.mp htx' with htx' | htx'
      · exact hgone tx' htx' (hstep.mem hmem)
      · rw [List.mem_singleton.mp htx'] at hmem
        exact notMem_remove mu m₁ tx ((shrinks_removeConflicts mu _ tx).mem hmem)
  exact hrun vtx [] m rfl h (.refl m) (fun _ htx => absurd htx List.not_mem_nil)

end CTxMemPool

end Agenor
