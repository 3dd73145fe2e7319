import Mathlib.Data.List.Nodup
import Mathlib.Logic.Function.Basic

/-!
Patches of a partial map, and how to undo them.

A patch removes some keys and then puts values at others. Whoever keeps the removed values can
undo it: remove what was put, and put back what was removed.
-/

namespace Agenor.Lib.Patch

variable {κ α : Type*} [DecidableEq κ]

/-- The map without some keys. -/
def removeAll (f : κ → Option α) (ks : List κ) : κ → Option α :=
  ks.foldl (fun f k => Function.update f k none) f

/-- The map with some values put, one after the other. -/
def putAll (f : κ → Option α) (l : List (κ × α)) : κ → Option α :=
  l.foldl (fun f p => Function.update f p.1 (some p.2)) f

variable {f : κ → Option α} {k : κ}

@[simp] lemma removeAll_nil (f : κ → Option α) : removeAll f [] = f := rfl

lemma removeAll_cons (f : κ → Option α) (k : κ) (ks : List κ) :
    removeAll f (k :: ks) = removeAll (Function.update f k none) ks := rfl

@[simp] lemma putAll_nil (f : κ → Option α) : putAll f [] = f := rfl

lemma putAll_cons (f : κ → Option α) (p : κ × α) (l : List (κ × α)) :
    putAll f (p :: l) = putAll (Function.update f p.1 (some p.2)) l := rfl

lemma removeAll_apply (f : κ → Option α) (ks : List κ) (k : κ) :
    removeAll f ks k = if k ∈ ks then none else f k := by
  induction ks generalizing f with
  | nil => simp
  | cons x ks ih =>
    rw [removeAll_cons, ih]
    by_cases hk : k = x
    · subst hk
      simp
    · simp [hk]

lemma putAll_of_notMem {l : List (κ × α)} (h : k ∉ l.map Prod.fst) : putAll f l k = f k := by
  induction l generalizing f with
  | nil => rfl
  | cons p l ih =>
    simp only [List.map_cons, List.mem_cons, not_or] at h
    rw [putAll_cons, ih h.2, Function.update_of_ne h.1]

lemma putAll_of_mem {l : List (κ × α)} (hl : (l.map Prod.fst).Nodup) {a : α} (h : (k, a) ∈ l) :
    putAll f l k = some a := by
  induction l generalizing f with
  | nil => cases h
  | cons p l ih =>
    obtain ⟨hp, hl⟩ := List.nodup_cons.mp hl
    rw [putAll_cons]
    rcases List.mem_cons.mp h with rfl | h
    · rw [putAll_of_notMem hp, Function.update_self]
    · exact ih hl h

lemma putAll_eq_some {l : List (κ × α)} {a : α} (h : putAll f l k = some a) :
    (k, a) ∈ l ∨ f k = some a := by
  induction l generalizing f with
  | nil => exact .inr h
  | cons p l ih =>
    rw [putAll_cons] at h
    rcases ih h with hl | hk
    · exact .inl (List.mem_cons_of_mem _ hl)
    · by_cases hp : k = p.1
      · subst hp
        rw [Function.update_self, Option.some.injEq] at hk
        subst hk
        exact .inl (List.mem_cons_self ..)
      · rw [Function.update_of_ne hp] at hk
        exact .inr hk

lemma removeAll_eq_some {ks : List κ} {a : α} (h : removeAll f ks k = some a) :
    k ∉ ks ∧ f k = some a := by
  rw [removeAll_apply] at h
  split at h
  · cases h
  · next hk => exact ⟨hk, h⟩

lemma removeAll_reverse (f : κ → Option α) (ks : List κ) :
    removeAll f ks.reverse = removeAll f ks := by
  funext k
  simp [removeAll_apply]

lemma removeAll_putAll_removeAll {old : List κ} {new : List (κ × α)} (h : k ∈ old) :
    removeAll (putAll (removeAll f old) new) (new.map Prod.fst) k = none := by
  rw [removeAll_apply]
  split
  · rfl
  · next hn => rw [putAll_of_notMem hn, removeAll_apply, if_pos h]

/-- **Undoing a patch.** -/
theorem putAll_removeAll_undo {old new : List (κ × α)} (hold : (old.map Prod.fst).Nodup)
    (hval : ∀ p ∈ old, f p.1 = some p.2)
    (hfresh : ∀ p ∈ new, removeAll f (old.map Prod.fst) p.1 = none) :
    putAll (removeAll (putAll (removeAll f (old.map Prod.fst)) new) (new.map Prod.fst)) old =
      f := by
  funext k
  by_cases hk : k ∈ old.map Prod.fst
  · obtain ⟨⟨k', a⟩, hp, rfl⟩ := List.mem_map.mp hk
    rw [putAll_of_mem hold hp, hval _ hp]
  · rw [putAll_of_notMem hk, removeAll_apply]
    by_cases hn : k ∈ new.map Prod.fst
    · obtain ⟨p, hp, rfl⟩ := List.mem_map.mp hn
      have := hfresh p hp
      rw [removeAll_apply, if_neg hk] at this
      rw [if_pos hn, this]
    · rw [if_neg hn, putAll_of_notMem hn, removeAll_apply, if_neg hk]

end Agenor.Lib.Patch
