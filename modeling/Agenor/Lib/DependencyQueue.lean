import Mathlib.Data.Finset.Basic
import Mathlib.Data.List.Nodup
import Mathlib.Data.Set.Function

/-!
A queue of things to be tried, in which each one waits until all that it needs has been accepted.

What is tried may be turned down. Nothing is tried twice, and what needs something that was turned
down is not tried at all. What a thing needs is said by keys.
-/

namespace Agenor.Lib.DependencyQueue

variable {ι κ : Type*} [DecidableEq κ]

/-- What has been tried or is ready are the items whose needs have been accepted. -/
structure Inv (items : List ι) (key : ι → κ) (needs : ι → Finset κ)
    (tried ready accepted : List ι) : Prop where
  nodup : (tried ++ ready).Nodup
  known : ∀ i ∈ tried ++ ready, i ∈ items
  sublist : accepted.Sublist tried
  iff : ∀ i ∈ items, i ∈ tried ++ ready ↔ needs i ⊆ (accepted.map key).toFinset
  ordered : ∀ a i b, accepted = a ++ i :: b → needs i ⊆ (a.map key).toFinset

variable {items tried ready accepted rest : List ι} {key : ι → κ} {needs : ι → Finset κ} {i : ι}

lemma Inv.start (hitems : items.Nodup) :
    Inv items key needs [] (items.filter fun i => decide (needs i = ∅)) [] := by
  refine ⟨hitems.filter _, ?_, List.Sublist.refl _, ?_, by simp⟩
  · intro i hi
    exact List.mem_of_mem_filter hi
  · intro i hi
    simp [hi]

lemma Inv.perm (h : Inv items key needs tried ready accepted) {ready' : List ι}
    (hperm : ready.Perm ready') : Inv items key needs tried ready' accepted := by
  have hall := hperm.append_left tried
  refine ⟨hall.nodup_iff.mp h.nodup, ?_, h.sublist, ?_, h.ordered⟩
  · intro j hj
    exact h.known j (hall.mem_iff.mpr hj)
  · intro j hj
    rw [← hall.mem_iff]
    exact h.iff j hj

lemma Inv.reject (h : Inv items key needs tried (i :: rest) accepted) :
    Inv items key needs (tried ++ [i]) rest accepted := by
  have heq : tried ++ [i] ++ rest = tried ++ i :: rest := by simp
  refine ⟨heq ▸ h.nodup, ?_, ?_, ?_, h.ordered⟩
  · rw [heq]
    exact h.known
  · exact h.sublist.trans (List.sublist_append_left _ _)
  · rw [heq]
    exact h.iff

lemma Inv.key_notMem (h : Inv items key needs tried (i :: rest) accepted)
    (hkey : Set.InjOn key {j | j ∈ items}) : key i ∉ accepted.map key := by
  intro hmem
  obtain ⟨j, hj, heq⟩ := List.mem_map.mp hmem
  have hjt := h.sublist.subset hj
  obtain rfl := hkey (h.known j (by simp [hjt])) (h.known i (by simp)) heq
  exact (List.nodup_append.mp h.nodup).2.2 j hjt j List.mem_cons_self rfl

lemma Inv.accept (h : Inv items key needs tried (i :: rest) accepted)
    (hkey : Set.InjOn key {j | j ∈ items}) {released : List ι} (hnodup : released.Nodup)
    (hreleased : ∀ j, j ∈ released ↔ j ∈ items ∧ key i ∈ needs j ∧
      needs j ⊆ ((accepted ++ [i]).map key).toFinset) :
    Inv items key needs (tried ++ [i]) (rest ++ released) (accepted ++ [i]) := by
  have hi := h.key_notMem hkey
  -- what is released has waited until now
  have hnew : ∀ j ∈ released, j ∉ tried ++ i :: rest := by
    intro j hj hmem
    obtain ⟨hin, hneeds, -⟩ := (hreleased j).mp hj
    exact hi (List.mem_toFinset.mp ((h.iff j hin).mp hmem hneeds))
  have heq : tried ++ [i] ++ (rest ++ released) = tried ++ i :: rest ++ released := by simp
  refine ⟨?_, ?_, ?_, ?_, ?_⟩
  · rw [heq]
    refine List.nodup_append.mpr ⟨h.nodup, hnodup, ?_⟩
    rintro a ha b hb rfl
    exact hnew a hb ha
  · rw [heq]
    intro j hj
    rcases List.mem_append.mp hj with hj | hj
    · exact h.known j hj
    · exact ((hreleased j).mp hj).1
  · exact h.sublist.append (List.Sublist.refl _)
  · intro j hj
    rw [heq, List.mem_append, h.iff j hj, hreleased j]
    constructor
    · rintro (hneeds | ⟨-, -, hneeds⟩)
      · refine hneeds.trans fun x hx => ?_
        rw [List.mem_toFinset] at hx ⊢
        rw [List.map_append]
        exact List.mem_append_left _ hx
      · exact hneeds
    · intro hneeds
      by_cases hji : key i ∈ needs j
      · exact .inr ⟨hj, hji, hneeds⟩
      · refine .inl fun x hx => ?_
        have hmem := hneeds hx
        rw [List.mem_toFinset, List.map_append, List.mem_append, List.map_singleton,
          List.mem_singleton] at hmem
        rcases hmem with hmem | rfl
        · exact List.mem_toFinset.mpr hmem
        · exact absurd hx hji
  · intro a j b hsplit
    rcases List.eq_nil_or_concat b with rfl | ⟨b, c, rfl⟩
    · obtain ⟨rfl, hlast⟩ := List.append_inj' hsplit rfl
      obtain rfl := List.singleton_inj.mp hlast
      exact (h.iff i (h.known i (by simp))).mp (by simp)
    · rw [List.concat_eq_append, ← List.cons_append, ← List.append_assoc] at hsplit
      obtain ⟨hfront, -⟩ := List.append_inj' hsplit rfl
      exact h.ordered a j b hfront

end Agenor.Lib.DependencyQueue
