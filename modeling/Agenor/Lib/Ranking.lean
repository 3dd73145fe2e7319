import Mathlib.Algebra.Order.Field.Rat
import Mathlib.Data.Set.Function
import Mathlib.Order.RelClasses
import Mathlib.Tactic.FieldSimp
import Mathlib.Tactic.Positivity

/-!
Rates that are compared by cross products, and comparators that read a key in a linear order: the
strict one is a strict weak order, the other one puts everything before itself and is asymmetric
only where the key tells the elements apart.
-/

namespace Agenor.Lib

/-! ### Rates -/

/-- An amount for a size. -/
structure Rate where
  amount : ℤ
  size : ℤ
  size_pos : 0 < size

namespace Rate

variable (r s : Rate)

def value : ℚ := r.amount / r.size

lemma size_pos_rat : (0 : ℚ) < r.size := by exact_mod_cast r.size_pos

lemma cross_lt_iff : r.amount * s.size < s.amount * r.size ↔ r.value < s.value := by
  rw [value, value, div_lt_div_iff₀ r.size_pos_rat s.size_pos_rat]
  norm_cast

lemma cross_eq_iff : r.amount * s.size = s.amount * r.size ↔ r.value = s.value := by
  rw [value, value, div_eq_div_iff r.size_pos_rat.ne' s.size_pos_rat.ne']
  norm_cast

/-- The better one of two, which is the first when they are equal. -/
def best : Rate := if r.amount * s.size < s.amount * r.size then s else r

end Rate

/-! ### Comparators -/

variable {α L : Type*} [LinearOrder L] {cmp : α → α → Prop} {key : α → L}

/-- A comparator that says when one key is less than the other is a strict weak order. -/
theorem strictWeak_of_key (h : ∀ a b, cmp a b ↔ key a < key b) : IsStrictWeakOrder α cmp where
  irrefl a ha := lt_irrefl _ ((h a a).mp ha)
  trans a b c hab hbc := (h a c).mpr (((h a b).mp hab).trans ((h b c).mp hbc))
  incomp_trans a b c hab hbc := by
    -- neither is less exactly when the keys are equal
    have hincomp : ∀ x y, ¬ cmp x y ∧ ¬ cmp y x ↔ key x = key y := by
      intro x y
      rw [h x y, h y x, not_lt, not_lt]
      exact ⟨fun hxy => le_antisymm hxy.2 hxy.1, fun hxy => ⟨hxy.ge, hxy.le⟩⟩
    rw [hincomp] at hab hbc ⊢
    exact hab.trans hbc

/-- A comparator that puts everything before itself is a strict order on nothing. -/
theorem strictWeak_iff_empty (h : ∀ a, cmp a a) (S : Set α) :
    IsStrictWeakOrder S (fun a b => cmp a b) ↔ S = ∅ := by
  constructor
  · intro hS
    by_contra hne
    obtain ⟨a, ha⟩ := Set.nonempty_iff_ne_empty.mpr hne
    exact hS.irrefl ⟨a, ha⟩ (h a)
  · rintro rfl
    exact
      { irrefl := fun a => absurd a.2 (Set.notMem_empty _)
        trans := fun a => absurd a.2 (Set.notMem_empty _)
        incomp_trans := fun a => absurd a.2 (Set.notMem_empty _) }

section Total

variable (h : ∀ a b, cmp a b ↔ key a ≤ key b)
include h

lemma cmp_self (a : α) : cmp a a := (h a a).mpr le_rfl

lemma cmp_trans {a b c : α} (hab : cmp a b) (hbc : cmp b c) : cmp a c :=
  (h a c).mpr (((h a b).mp hab).trans ((h b c).mp hbc))

lemma cmp_total (a b : α) : cmp a b ∨ cmp b a := by
  rw [h a b, h b a]
  exact le_total _ _

lemma cmp_both_iff (a b : α) : (cmp a b ∧ cmp b a) ↔ key a = key b := by
  rw [h a b, h b a]
  exact ⟨fun hab => le_antisymm hab.1 hab.2, fun hab => ⟨hab.le, hab.ge⟩⟩

/-- Between different elements the comparator is asymmetric exactly where the key is injective. -/
theorem cmp_asymm_iff (S : Set α) : S.Pairwise (fun a b => cmp a b → ¬ cmp b a) ↔ S.InjOn key := by
  constructor
  · intro hS a ha b hb hab
    by_contra hne
    have hboth := (cmp_both_iff h a b).mpr hab
    exact hS ha hb hne hboth.1 hboth.2
  · intro hS a ha b hb hne hab hba
    exact hne (hS ha hb ((cmp_both_iff h a b).mp ⟨hab, hba⟩))

end Total

end Agenor.Lib
