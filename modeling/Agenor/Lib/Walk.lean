import Mathlib.Data.Finset.Card
import Mathlib.Data.List.Sort
import Mathlib.Logic.Relation

/-!
Walks over the nodes that can be reached in a finite graph, with a stage of nodes still to be seen.

The elements of a finite set are taken in ascending order, as from an ordered set; what is reached
does not depend on it.
-/

namespace Agenor.Lib

variable {α : Type*}

section Ascending

variable (r : α → α → Prop) [DecidableRel r] [IsTrans α r] [Std.Antisymm r] [Std.Total r]

/-- The elements of a finite set in ascending order, by insertion. -/
def ascending (s : Finset α) : List α :=
  Quotient.liftOn s.val (List.insertionSort r) fun l l' h =>
    List.Perm.eq_of_pairwise' (List.pairwise_insertionSort r l) (List.pairwise_insertionSort r l')
      ((List.perm_insertionSort r l).trans
        (List.Perm.trans h (List.perm_insertionSort r l').symm))

lemma coe_ascending (s : Finset α) : (ascending r s : Multiset α) = s.val := by
  obtain ⟨v, hv⟩ := s
  induction v using Quotient.inductionOn with
  | h l => exact Quotient.sound (List.perm_insertionSort r l)

@[simp] lemma mem_ascending {s : Finset α} {a : α} : a ∈ ascending r s ↔ a ∈ s := by
  rw [← Multiset.mem_coe, coe_ascending, Finset.mem_val]

lemma nodup_ascending (s : Finset α) : (ascending r s).Nodup := by
  rw [← Multiset.coe_nodup, coe_ascending]
  exact s.nodup

end Ascending

/-! ### What can be reached -/

section Reach

variable {next next' : α → Finset α} {a b c d n x y : α} {S : Finset α}

/-- There is a path between the nodes. -/
def Reach (next : α → Finset α) : α → α → Prop := Relation.ReflTransGen fun x y => y ∈ next x

/-- There is a path of at least one step. -/
def LeadsTo (next : α → Finset α) : α → α → Prop := Relation.TransGen fun x y => y ∈ next x

namespace Reach

@[refl] lemma refl (a : α) : Reach next a a := Relation.ReflTransGen.refl

lemma trans (h : Reach next a b) (h' : Reach next b c) : Reach next a c :=
  Relation.ReflTransGen.trans h h'

lemma step (h : b ∈ next a) : Reach next a b := Relation.ReflTransGen.single h

lemma head (h : b ∈ next a) (h' : Reach next b c) : Reach next a c :=
  Relation.ReflTransGen.head h h'

lemma tail (h : Reach next a b) (h' : c ∈ next b) : Reach next a c :=
  Relation.ReflTransGen.tail h h'

lemma mono (hsub : ∀ x, next x ⊆ next' x) (h : Reach next a b) : Reach next' a b :=
  Relation.ReflTransGen.mono (fun x _ hy => hsub x hy) a b h

lemma cases_head (h : Reach next a b) : a = b ∨ ∃ c ∈ next a, Reach next c b :=
  Relation.ReflTransGen.cases_head h

lemma leadsTo (h : Reach next a b) (hne : a ≠ b) : LeadsTo next a b := by
  rcases Relation.reflTransGen_iff_eq_or_transGen.mp h with heq | h
  · exact absurd heq.symm hne
  · exact h

lemma leave {seen stage : Finset α} (h : Reach next x b) (hx : x ∈ seen)
    (hclosed : ∀ y ∈ seen, ∀ z ∈ next y, z ∈ seen ∨ z ∈ stage) :
    b ∈ seen ∨ ∃ y ∈ stage, Reach next y b := by
  induction h using Relation.ReflTransGen.head_induction_on with
  | refl => exact .inl hx
  | @head y z hyz hzb ih =>
    rcases hclosed y hx z hyz with hz | hz
    · exact ih hz
    · exact .inr ⟨z, hz, hzb⟩

lemma mem_of_closed (h : Reach next a b) (ha : a ∈ S) (hclosed : ∀ y ∈ S, next y ⊆ S) : b ∈ S := by
  induction h with
  | refl => exact ha
  | tail _ hc ih => exact hclosed _ ih hc

lemma congr {Q : α → Prop} (ha : Q a) (hstay : ∀ y, Q y → ∀ z ∈ next y, Q z)
    (heq : ∀ y, Q y → next' y = next y) : Reach next' a b ↔ Reach next a b := by
  have hstay' : ∀ y, Q y → ∀ z ∈ next' y, Q z := fun y hy z hz => hstay y hy z (heq y hy ▸ hz)
  constructor
  · intro h
    induction h using Relation.ReflTransGen.head_induction_on with
    | refl => exact .refl b
    | @head y z hyz _ ih => exact .head (heq y ha ▸ hyz) (ih (hstay' y ha z hyz))
  · intro h
    induction h using Relation.ReflTransGen.head_induction_on with
    | refl => exact .refl b
    | @head y z hyz _ ih => exact .head ((heq y ha).symm ▸ hyz) (ih (hstay y ha z hyz))

lemma mem_of_cached {V : Finset α} {cache : α → Option (Finset α)} (h : Reach next a b) (ha : a ∈ S)
    (hb : b ∉ V) (hclosed : ∀ y ∈ S, ∀ z ∈ next y, z ∈ S ∨ ∃ s, cache z = some s ∧ s ⊆ S)
    (hcache : ∀ z s, cache z = some s → Reach next z b → b ∉ V → b ∈ s) : b ∈ S := by
  induction h using Relation.ReflTransGen.head_induction_on with
  | refl => exact ha
  | @head y z hyz hzb ih =>
    rcases hclosed y ha z hyz with hz | ⟨s, hs, hsub⟩
    · exact ih hz
    · exact hsub (hcache z s hs hzb hb)

end Reach

lemma LeadsTo.reach (h : LeadsTo next a b) : Reach next a b := h.to_reflTransGen

lemma LeadsTo.mono (hsub : ∀ x, next x ⊆ next' x) (h : LeadsTo next a b) : LeadsTo next' a b :=
  Relation.TransGen.mono (fun x _ hy => hsub x hy) a b h

lemma leadsTo_iff : LeadsTo next a b ↔ ∃ c ∈ next a, Reach next c b := Relation.TransGen.head'_iff

lemma leadsTo_iff_tail : LeadsTo next a b ↔ ∃ c, Reach next a c ∧ b ∈ next c :=
  Relation.TransGen.tail'_iff

lemma reach_swap {prev : α → Finset α} (hprev : ∀ x y, x ∈ prev y ↔ y ∈ next x) :
    Reach prev b a ↔ Reach next a b := by
  have hswap : (fun x y => y ∈ prev x) = Function.swap fun x y => y ∈ next x := by
    funext x y
    exact propext (hprev y x)
  rw [Reach, hswap, Relation.reflTransGen_swap, Reach]

lemma leadsTo_swap {prev : α → Finset α} (hprev : ∀ x y, x ∈ prev y ↔ y ∈ next x) :
    LeadsTo prev b a ↔ LeadsTo next a b := by
  rw [leadsTo_iff_tail, leadsTo_iff]
  constructor
  · rintro ⟨c, hc, hac⟩
    exact ⟨c, (hprev a c).mp hac, (reach_swap hprev).mp hc⟩
  · rintro ⟨c, hc, hcb⟩
    exact ⟨c, (reach_swap hprev).mpr hcb, (hprev a c).mpr hc⟩

variable [DecidableEq α]

/-- A new node without successors is reached by way of its predecessors only. -/
theorem reach_addLeaf {P : Finset α} (hfresh : ∀ x, n ∉ next x) (hleaf : next n = ∅) (hP : n ∉ P)
    (hnext : ∀ x, next' x = if x ∈ P then insert n (next x) else next x) :
    Reach next' a d ↔ Reach next a d ∨ d = n ∧ ∃ p ∈ P, Reach next a p := by
  constructor
  · intro h
    induction h with
    | refl => exact .inl (.refl a)
    | @tail b c _ hc ih =>
      rw [hnext] at hc
      have hold : c ∈ next b → Reach next a c ∨ c = n ∧ ∃ p ∈ P, Reach next a p := by
        intro hbc
        rcases ih with ih | ⟨hb, -⟩
        · exact .inl (ih.tail hbc)
        · rw [hb, hleaf] at hbc
          exact absurd hbc (Finset.notMem_empty c)
      by_cases hb : b ∈ P
      · rw [if_pos hb, Finset.mem_insert] at hc
        rcases hc with rfl | hc
        · rcases ih with ih | ⟨rfl, -⟩
          · exact .inr ⟨rfl, b, hb, ih⟩
          · exact absurd hb hP
        · exact hold hc
      · rw [if_neg hb] at hc
        exact hold hc
  · have hsub : ∀ x, next x ⊆ next' x := by
      intro x
      rw [hnext]
      split_ifs
      · exact Finset.subset_insert ..
      · exact Finset.Subset.refl _
    rintro (h | ⟨rfl, p, hp, h⟩)
    · exact h.mono hsub
    · refine (h.mono hsub).tail ?_
      rw [hnext, if_pos hp]
      exact Finset.mem_insert_self ..

lemma reach_addNode {P C : Finset α} (hfresh : ∀ x, n ∉ next x)
    (hin : ∀ x y, y ∈ next' x → x ≠ n → y ∈ next x ∨ y = n ∧ x ∈ P) (hout : next' n ⊆ C)
    (hcut : ∀ c ∈ C, ∀ p ∈ P, ¬ Reach next c p) (h : Reach next' a d) :
    Reach next a d ∨ ((a = n ∨ ∃ p ∈ P, Reach next a p) ∧ (d = n ∨ ∃ c ∈ C, Reach next c d)) := by
  induction h with
  | refl => exact .inl (.refl a)
  | @tail b c _ hc ih =>
    by_cases hb : b = n
    · refine .inr ⟨?_, .inr ⟨c, hout (hb ▸ hc), .refl c⟩⟩
      rcases ih with ih | ih
      · -- nothing but itself leads to the new node in the old graph
        rcases Relation.ReflTransGen.cases_tail ih with heq | ⟨x, -, hx⟩
        · exact .inl (heq ▸ hb)
        · exact absurd (hb ▸ hx) (hfresh x)
      · exact ih.1
    · rcases hin b c hc hb with hc | ⟨rfl, hP⟩
      · rcases ih with ih | ⟨ha, ih⟩
        · exact .inl (ih.tail hc)
        · obtain ⟨x, hx, hxb⟩ := ih.resolve_left hb
          exact .inr ⟨ha, .inr ⟨x, hx, hxb.tail hc⟩⟩
      · rcases ih with ih | ⟨-, ih⟩
        · exact .inr ⟨.inr ⟨b, hP, ih⟩, .inl rfl⟩
        · obtain ⟨x, hx, hxb⟩ := ih.resolve_left hb
          exact absurd hxb (hcut x hx b hP)

/-- A new node makes no cycle when no path leads back from where it is left to where it is
entered. -/
theorem acyclic_addNode {P C : Finset α} (hold : ∀ x, ¬ LeadsTo next x x) (hfresh : ∀ x, n ∉ next x)
    (hleaf : next n = ∅) (hin : ∀ x y, y ∈ next' x → x ≠ n → y ∈ next x ∨ y = n ∧ x ∈ P)
    (hout : next' n ⊆ C) (hcut : ∀ c ∈ C, ∀ p ∈ P, ¬ Reach next c p) (hself : n ∉ C) (x : α) :
    ¬ LeadsTo next' x x := by
  intro h
  obtain ⟨b, hb, hbx⟩ := leadsTo_iff.mp h
  have hpath := reach_addNode hfresh hin hout hcut hbx
  by_cases hx : x = n
  · have hbC : b ∈ C := hout (hx ▸ hb)
    rcases hpath with hpath | ⟨hpath, -⟩
    · rcases Relation.ReflTransGen.cases_tail hpath with heq | ⟨y, -, hy⟩
      · exact hself (hx ▸ heq ▸ hbC)
      · exact hfresh y (hx ▸ hy)
    · rcases hpath with rfl | ⟨p, hp, hbp⟩
      · exact hself hbC
      · exact hcut b hbC p hp hbp
  · rcases hin x b hb hx with hb' | ⟨rfl, hP⟩
    · rcases hpath with hpath | ⟨hpath, hback⟩
      · exact hold x (leadsTo_iff.mpr ⟨b, hb', hpath⟩)
      · obtain ⟨c, hc, hcx⟩ := hback.resolve_left hx
        rcases hpath with rfl | ⟨p, hp, hbp⟩
        · exact hfresh x hb'
        · exact hcut c hc p hp ((hcx.tail hb').trans hbp)
    · rcases hpath with hpath | ⟨-, hback⟩
      · rcases hpath.cases_head with heq | ⟨y, hy, -⟩
        · exact hx heq.symm
        · rw [hleaf] at hy
          exact Finset.notMem_empty y hy
      · obtain ⟨c, hc, hcx⟩ := hback.resolve_left hx
        exact hcut c hc x hP hcx

/-- Without the nodes of a set, the paths that avoid it stay. -/
theorem reach_remove (hsub : ∀ x, next' x ⊆ next x)
    (hstay : ∀ x, x ∉ S → next x \ S ⊆ next' x)
    (havoid : ∀ x ∈ S, Reach next a x → ¬ Reach next x d) :
    Reach next' a d ↔ Reach next a d := by
  refine ⟨fun h => h.mono hsub, fun h => ?_⟩
  induction h using Relation.ReflTransGen.head_induction_on with
  | refl => exact .refl d
  | @head x y hxy hyd ih =>
    have hx : x ∉ S := fun hx => havoid x hx (.refl x) (Reach.head hxy hyd)
    have hy : y ∉ S := fun hy => havoid y hy (.step hxy) hyd
    refine .head (hstay x hx (Finset.mem_sdiff.mpr ⟨hxy, hy⟩)) (ih fun z hz hyz => ?_)
    exact havoid z hz (.head hxy hyz)

end Reach

/-! ### The walk -/

section Walk

variable [DecidableEq α] {pick : Finset α → Option α} {next : α → Finset α}

/-- From the stage a node is taken, marked as seen, and its successors that have not been seen are
staged. -/
def walk (pick : Finset α → Option α) (next : α → Finset α) : ℕ → Finset α → Finset α → Finset α
  | 0, _, seen => seen
  | fuel + 1, stage, seen =>
    match pick stage with
    | none => seen
    | some a => walk pick next fuel (stage.erase a ∪ next a \ insert a seen) (insert a seen)

/-- A choice that finds an element of a set unless there is none. -/
structure Picks (pick : Finset α → Option α) : Prop where
  none : ∀ {s}, pick s = none → s = ∅
  some : ∀ {s a}, pick s = some a → a ∈ s

lemma disjoint_stage {stage seen : Finset α} {a : α} (s : Finset α) (hdisj : Disjoint stage seen) :
    Disjoint (stage.erase a ∪ s \ insert a seen) (insert a seen) := by
  rw [Finset.disjoint_left]
  intro x hx hxs
  rcases Finset.mem_union.mp hx with hx | hx
  · rcases Finset.mem_insert.mp hxs with rfl | hxs
    · exact Finset.notMem_erase x stage hx
    · exact Finset.disjoint_left.mp hdisj (Finset.mem_of_mem_erase hx) hxs
  · exact (Finset.mem_sdiff.mp hx).2 hxs

lemma card_stage {stage seen : Finset α} {a : α} (ha : a ∈ stage) (hdisj : Disjoint stage seen) :
    (stage.erase a).card + (insert a seen).card = stage.card + seen.card := by
  have hseen : a ∉ seen := Finset.disjoint_left.mp hdisj ha
  have := Finset.card_pos.mpr ⟨a, ha⟩
  rw [Finset.card_erase_of_mem ha, Finset.card_insert_of_notMem hseen]
  omega

/-- **The walk.** With enough fuel for all nodes, it has seen what could be reached. -/
theorem mem_walk (hpick : Picks pick) {U : Finset α} (hU : ∀ a ∈ U, next a ⊆ U) {fuel : ℕ}
    {stage seen : Finset α} (hstage : stage ⊆ U) (hdisj : Disjoint stage seen)
    (hclosed : ∀ y ∈ seen, ∀ z ∈ next y, z ∈ seen ∨ z ∈ stage) (hfuel : (U \ seen).card ≤ fuel)
    {b : α} : b ∈ walk pick next fuel stage seen ↔ b ∈ seen ∨ ∃ a ∈ stage, Reach next a b := by
  induction fuel generalizing stage seen with
  | zero =>
    have hempty : stage = ∅ := by
      rw [Finset.eq_empty_iff_forall_notMem]
      intro a ha
      have hmem : a ∈ U \ seen :=
        Finset.mem_sdiff.mpr ⟨hstage ha, Finset.disjoint_left.mp hdisj ha⟩
      rw [Finset.card_eq_zero.mp (Nat.le_zero.mp hfuel)] at hmem
      exact Finset.notMem_empty a hmem
    simp [walk, hempty]
  | succ fuel ih =>
    rw [walk]
    cases hp : pick stage with
    | none => simp [hpick.none hp]
    | some a =>
      have ha := hpick.some hp
      have hseen : a ∉ seen := Finset.disjoint_left.mp hdisj ha
      have hclosed' : ∀ y ∈ insert a seen, ∀ z ∈ next y, z ∈ insert a seen ∨
          z ∈ stage.erase a ∪ next a \ insert a seen := by
        intro y hy z hz
        by_cases hzin : z ∈ insert a seen
        · exact .inl hzin
        refine .inr (Finset.mem_union.mpr ?_)
        rcases Finset.mem_insert.mp hy with rfl | hy
        · exact .inr (Finset.mem_sdiff.mpr ⟨hz, hzin⟩)
        · have hz' := (hclosed y hy z hz).resolve_left fun h => hzin (Finset.mem_insert_of_mem h)
          exact .inl (Finset.mem_erase.mpr
            ⟨fun h => hzin (h ▸ Finset.mem_insert_self a seen), hz'⟩)
      have hstage' : stage.erase a ∪ next a \ insert a seen ⊆ U := by
        intro x hx
        rcases Finset.mem_union.mp hx with hx | hx
        · exact hstage (Finset.mem_of_mem_erase hx)
        · exact hU a (hstage ha) (Finset.mem_sdiff.mp hx).1
      have hdisj' := disjoint_stage (a := a) (next a) hdisj
      have hless : (U \ insert a seen).card < (U \ seen).card := by
        apply Finset.card_lt_card
        rw [Finset.ssubset_iff_of_subset (Finset.sdiff_subset_sdiff (Finset.Subset.refl U)
          (Finset.subset_insert a seen))]
        exact ⟨a, Finset.mem_sdiff.mpr ⟨hstage ha, hseen⟩, by simp⟩
      dsimp only
      rw [ih hstage' hdisj' hclosed' (by omega)]
      constructor
      · rintro (hb | ⟨x, hx, hxb⟩)
        · rcases Finset.mem_insert.mp hb with rfl | hb
          · exact .inr ⟨b, ha, .refl b⟩
          · exact .inl hb
        · rcases Finset.mem_union.mp hx with hx | hx
          · exact .inr ⟨x, Finset.mem_of_mem_erase hx, hxb⟩
          · exact .inr ⟨a, ha, .head (Finset.mem_sdiff.mp hx).1 hxb⟩
      · rintro (hb | ⟨x, hx, hxb⟩)
        · exact .inl (Finset.mem_insert_of_mem hb)
        · by_cases hxa : x = a
          · exact hxb.leave (hxa ▸ Finset.mem_insert_self a seen) hclosed'
          · exact .inr ⟨x, Finset.mem_union_left _ (Finset.mem_erase.mpr ⟨hxa, hx⟩), hxb⟩

end Walk

end Agenor.Lib
