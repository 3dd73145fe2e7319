import Mathlib.Data.List.Forall2
import Mathlib.Data.List.NodupEquivFin

/-!
Assigning the elements of one list to those of another, in order.

A single pass that gives every element the first partner it can have finds an assignment if there
is one: whoever takes an earlier partner leaves no less to the others.
-/

namespace Agenor.Lib

variable {α β : Type*} {a : α} {b : β} {l : List α} {l' : List β}

/-- Every element of the first list has a partner in the second one, in the same order. -/
def Assignable (r : α → β → Prop) (l : List α) (l' : List β) : Prop :=
  ∃ f : Fin l.length → Fin l'.length, StrictMono f ∧ ∀ i, r (l.get i) (l'.get (f i))

/-- A pass over the second list, in which the first element of the first one that has no partner
yet takes what it can. -/
def assigns (r : α → β → Bool) : List α → List β → Bool
  | [], _ => true
  | _ :: _, [] => false
  | a :: l, b :: l' => if r a b then assigns r l l' else assigns r (a :: l) l'

variable {r : α → β → Prop}

lemma assignable_iff_sublistForall₂ : Assignable r l l' ↔ List.SublistForall₂ r l l' := by
  rw [List.sublistForall₂_iff]
  constructor
  · rintro ⟨f, hmono, hr⟩
    refine ⟨List.ofFn fun i => l'.get (f i), ?_, ?_⟩
    · rw [List.forall₂_iff_get]
      refine ⟨by simp, fun i hi _ => ?_⟩
      simpa using hr ⟨i, hi⟩
    · rw [List.sublist_iff_exists_fin_orderEmbedding_get_eq]
      have hlen : (List.ofFn fun i => l'.get (f i)).length = l.length := List.length_ofFn
      refine ⟨(Fin.castOrderIso hlen).toOrderEmbedding.trans
        (OrderEmbedding.ofStrictMono f hmono), fun i => ?_⟩
      simp only [List.get_eq_getElem, List.getElem_ofFn]
      rfl
  · rintro ⟨k, hr, hsub⟩
    obtain ⟨f, hf⟩ := List.sublist_iff_exists_fin_orderEmbedding_get_eq.mp hsub
    obtain ⟨hlen, hr⟩ := List.forall₂_iff_get.mp hr
    refine ⟨fun i => f (Fin.cast hlen i), fun i j hij => f.strictMono hij, fun i => ?_⟩
    rw [← hf]
    exact hr i i.isLt (hlen ▸ i.isLt)

lemma sublistForall₂_of_cons (h : List.SublistForall₂ r (a :: l) l') :
    List.SublistForall₂ r l l' := by
  generalize hk : a :: l = k at h
  induction h with
  | nil => cases hk
  | cons _ h _ =>
    cases hk
    exact h.cons_right
  | cons_right _ ih => exact (ih hk).cons_right

lemma sublistForall₂_cons_iff (hr : r a b) :
    List.SublistForall₂ r (a :: l) (b :: l') ↔ List.SublistForall₂ r l l' := by
  constructor
  · intro h
    cases h with
    | cons _ h => exact h
    | cons_right h => exact sublistForall₂_of_cons h
  · exact fun h => .cons hr h

lemma sublistForall₂_skip_iff (hr : ¬ r a b) :
    List.SublistForall₂ r (a :: l) (b :: l') ↔ List.SublistForall₂ r (a :: l) l' := by
  constructor
  · intro h
    cases h with
    | cons h _ => exact absurd h hr
    | cons_right h => exact h
  · exact fun h => .cons_right h

/-- **One pass is enough.** -/
theorem assigns_iff (r : α → β → Bool) (l : List α) (l' : List β) :
    assigns r l l' = true ↔ Assignable (fun a b => r a b = true) l l' := by
  rw [assignable_iff_sublistForall₂]
  induction l' generalizing l with
  | nil =>
    cases l with
    | nil => exact ⟨fun _ => .nil, fun _ => rfl⟩
    | cons a l =>
      refine ⟨fun h => absurd h (by simp [assigns]), fun h => ?_⟩
      cases h
  | cons b l' ih =>
    cases l with
    | nil => exact ⟨fun _ => .nil, fun _ => rfl⟩
    | cons a l =>
      rw [assigns]
      by_cases hr : r a b = true
      · rw [if_pos hr, ih]
        exact (sublistForall₂_cons_iff (r := fun a b => r a b = true) hr).symm
      · rw [if_neg hr, ih]
        exact (sublistForall₂_skip_iff (r := fun a b => r a b = true) hr).symm

lemma Assignable.length_le (h : Assignable r l l') : l.length ≤ l'.length := by
  obtain ⟨k, hr, hsub⟩ := List.sublistForall₂_iff.mp (assignable_iff_sublistForall₂.mp h)
  rw [hr.length_eq]
  exact hsub.length_le

end Agenor.Lib
