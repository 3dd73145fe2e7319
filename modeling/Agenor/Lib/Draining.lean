import Mathlib.Data.Nat.Notation
import Mathlib.Tactic.TypeStar

/-!
Systems that come to an end: what is known of a state bounds the number of steps that are left.
-/

namespace Agenor.Lib

variable {σ : Type*}

/-- So many steps lead from one state to another. -/
inductive Steps (step : σ → σ → Prop) (s : σ) : ℕ → σ → Prop
  | refl : Steps step s 0 s
  | tail {n : ℕ} {t u : σ} : Steps step s n t → step t u → Steps step s (n + 1) u

/-- **The rank rule.** If every step lowers the rank that an invariant gives to a state, a run has
no more steps than the rank of its start. -/
theorem Steps.ranked {step : σ → σ → Prop} {P : σ → ℕ → Prop}
    (hstep : ∀ s r t, P s r → step s t → ∃ r', r' < r ∧ P t r') {s t : σ} {n r : ℕ}
    (h : Steps step s n t) (hs : P s r) : ∃ r', n + r' ≤ r ∧ P t r' := by
  induction h with
  | refl => exact ⟨r, by omega, hs⟩
  | tail _ hlast ih =>
    obtain ⟨r₁, hr₁, h₁⟩ := ih
    obtain ⟨r₂, hr₂, h₂⟩ := hstep _ _ _ h₁ hlast
    exact ⟨r₂, by omega, h₂⟩

end Agenor.Lib
