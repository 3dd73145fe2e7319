import Mathlib.Algebra.BigOperators.Group.List.Basic
import Mathlib.Data.List.AList
import Mathlib.Tactic.Abel

/-!
The sum of a weight over the values of a finite map, and how it changes when one key does.

This is what a counter that is kept beside a map has to be equal to: an operation on one key takes
off what the old value weighs and puts on what the new one does.
-/

namespace Agenor.Lib

variable {κ β M : Type*} [DecidableEq κ] [AddCommGroup M] (weight : β → M)

/-- The weight of all values of a map. -/
def tally (m : AList fun _ : κ => β) : M := (m.entries.map fun e => weight e.2).sum

/-- The weight of the value under a key, if there is one. -/
def weightAt (m : AList fun _ : κ => β) (k : κ) : M := (m.lookup k).elim 0 weight

variable {weight} {m : AList fun _ : κ => β} {k : κ} {v : β}

lemma weightAt_of_some (h : m.lookup k = some v) : weightAt weight m k = weight v := by
  rw [weightAt, h, Option.elim_some]

lemma weightAt_of_none (h : m.lookup k = none) : weightAt weight m k = 0 := by
  rw [weightAt, h, Option.elim_none]

lemma tally_erase (weight : β → M) (m : AList fun _ : κ => β) (k : κ) :
    tally weight (m.erase k) = tally weight m - weightAt weight m k := by
  have hlist : ∀ l : List (Sigma fun _ : κ => β), ((l.kerase k).map fun e => weight e.2).sum =
      (l.map fun e => weight e.2).sum - (l.dlookup k).elim 0 weight := by
    intro l
    induction l with
    | nil => simp
    | cons e l ih =>
      by_cases he : k = e.1
      · subst he
        rw [List.kerase_cons_eq rfl, List.dlookup_cons_eq, List.map_cons, List.sum_cons,
          Option.elim_some, add_sub_cancel_left]
      · rw [List.kerase_cons_ne he, List.dlookup_cons_ne l e he, List.map_cons, List.sum_cons, ih,
          List.map_cons, List.sum_cons, add_sub_assoc]
  exact hlist m.entries

lemma tally_insert (weight : β → M) (m : AList fun _ : κ => β) (k : κ) (v : β) :
    tally weight (m.insert k v) = tally weight m - weightAt weight m k + weight v := by
  rw [← tally_erase, add_comm]
  rfl

end Agenor.Lib
