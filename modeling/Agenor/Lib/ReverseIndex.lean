import Mathlib.Data.Finset.Insert
import Mathlib.Data.Finset.Erase
import Mathlib.Logic.Function.Basic

/-!
A reverse index: for each key the set of the items that have it, with no entry for a key that no
item has. It is kept up to date one pair at a time, and a pair may be added or removed more than
once.
-/

namespace Agenor.Lib.ReverseIndex

variable {κ ι : Type*}

/-- The index lists exactly the pairs of a relation, and has no empty entry. -/
structure Indexes (index : κ → Option (Finset ι)) (R : κ → ι → Prop) : Prop where
  nonempty : ∀ k items, index k = some items → items.Nonempty
  mem_iff : ∀ k i, (∃ items, index k = some items ∧ i ∈ items) ↔ R k i

variable {index : κ → Option (Finset ι)} {R R' : κ → ι → Prop}

lemma Indexes.congr (h : Indexes index R) (hR : ∀ k i, R k i ↔ R' k i) : Indexes index R' :=
  ⟨h.nonempty, fun k i => (h.mem_iff k i).trans (hR k i)⟩

lemma Indexes.empty : Indexes (fun _ : κ => (none : Option (Finset ι))) fun _ _ => False := by
  refine ⟨fun k items h => ?_, fun k i => ⟨?_, False.elim⟩⟩
  · cases h
  · rintro ⟨_, h, -⟩
    cases h

variable [DecidableEq κ] [DecidableEq ι]

/-- The item has the key. -/
def insertAt (index : κ → Option (Finset ι)) (k : κ) (i : ι) : κ → Option (Finset ι) :=
  Function.update index k (some (insert i ((index k).getD ∅)))

/-- The item no longer has the key; an entry that becomes empty is removed. -/
def eraseAt (index : κ → Option (Finset ι)) (k : κ) (i : ι) : κ → Option (Finset ι) :=
  match index k with
  | none => index
  | some items =>
    Function.update index k (if items.erase i = ∅ then none else some (items.erase i))

lemma Indexes.insertAt (h : Indexes index R) (k : κ) (i : ι) :
    Indexes (insertAt index k i) fun k' i' => R k' i' ∨ k' = k ∧ i' = i := by
  refine ⟨fun k' items hk => ?_, fun k' i' => ?_⟩
  · by_cases heq : k' = k
    · subst heq
      rw [ReverseIndex.insertAt, Function.update_self] at hk
      obtain rfl := Option.some.inj hk
      exact Finset.insert_nonempty _ _
    · rw [ReverseIndex.insertAt, Function.update_of_ne heq] at hk
      exact h.nonempty k' items hk
  · rw [ReverseIndex.insertAt, ← h.mem_iff k' i']
    by_cases heq : k' = k
    · subst heq
      cases hk : index k' <;> simp [or_comm]
    · simp [heq]

lemma Indexes.eraseAt (h : Indexes index R) (k : κ) (i : ι) :
    Indexes (eraseAt index k i) fun k' i' => R k' i' ∧ ¬ (k' = k ∧ i' = i) := by
  have hmem := h.mem_iff
  unfold ReverseIndex.eraseAt
  cases hk : index k with
  | none =>
    refine h.congr fun k' i' => ⟨fun hR => ⟨hR, ?_⟩, fun hR => hR.1⟩
    rintro ⟨rfl, rfl⟩
    obtain ⟨items, hitems, -⟩ := (hmem k' i').mpr hR
    rw [hk] at hitems
    cases hitems
  | some items =>
    dsimp only
    refine ⟨fun k' items' hk' => ?_, fun k' i' => ?_⟩
    · by_cases heq : k' = k
      · subst heq
        rw [Function.update_self] at hk'
        split_ifs at hk' with hempty
        obtain rfl := Option.some.inj hk'
        exact Finset.nonempty_iff_ne_empty.mpr hempty
      · rw [Function.update_of_ne heq] at hk'
        exact h.nonempty k' items' hk'
    · rw [← hmem k' i']
      by_cases heq : k' = k
      · subst heq
        rw [Function.update_self, hk]
        split_ifs with hempty
        · -- the item was the only one
          have hall : ∀ j ∈ items, j = i := by
            intro j hj
            by_contra hne
            have hj' := Finset.mem_erase.mpr ⟨hne, hj⟩
            rw [hempty] at hj'
            exact absurd hj' (Finset.notMem_empty j)
          constructor
          · rintro ⟨_, hnone, -⟩
            cases hnone
          · rintro ⟨⟨_, hsome, hi'⟩, hne⟩
            obtain rfl := Option.some.inj hsome
            exact absurd ⟨rfl, hall i' hi'⟩ hne
        · simp [and_comm]
      · simp [heq]

lemma Indexes.foldl_insertAt (h : Indexes index R) (ks : List κ) (i : ι) :
    Indexes (ks.foldl (fun index k => ReverseIndex.insertAt index k i) index)
      fun k' i' => R k' i' ∨ k' ∈ ks ∧ i' = i := by
  induction ks generalizing index R with
  | nil => exact h.congr fun k' i' => by simp
  | cons k ks ih =>
    rw [List.foldl_cons]
    refine (ih (h.insertAt k i)).congr fun k' i' => ?_
    rw [List.mem_cons, or_and_right, or_assoc]

lemma Indexes.foldl_eraseAt (h : Indexes index R) (ks : List κ) (i : ι) :
    Indexes (ks.foldl (fun index k => ReverseIndex.eraseAt index k i) index)
      fun k' i' => R k' i' ∧ ¬ (k' ∈ ks ∧ i' = i) := by
  induction ks generalizing index R with
  | nil => exact h.congr fun k' i' => by simp
  | cons k ks ih =>
    rw [List.foldl_cons]
    refine (ih (h.eraseAt k i)).congr fun k' i' => ?_
    rw [List.mem_cons, or_and_right, not_or, and_assoc]

end Agenor.Lib.ReverseIndex
