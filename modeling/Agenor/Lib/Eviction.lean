import Mathlib.Algebra.Order.Ring.Int

/-!
Loops that evict until a measure is within a limit.

Every pass takes an element of the state and evicts something, so that the loop comes to an end. It
gets stuck when there is nothing left to take while the measure is still over the limit: exactly
when what the measure keeps of a state without elements is over it.
-/

namespace Agenor.Lib.Eviction

variable {σ ε : Type*}

/-- How such a loop ends. -/
inductive Outcome (σ : Type*)
  | done (s : σ)
  /-- An element was asked for, and there was none. -/
  | stuck
  | outOfFuel

structure Loop (σ ε : Type*) where
  measure : σ → ℤ
  pick : σ → Option ε
  evict : σ → ε → σ

/-- `while (measure > limit)`, with a bound on the passes. -/
def Loop.run (L : Loop σ ε) (limit : ℤ) : ℕ → σ → Outcome σ
  | 0, _ => .outOfFuel
  | fuel + 1, s =>
    if L.measure s ≤ limit then .done s
    else match L.pick s with
      | none => .stuck
      | some e => L.run limit fuel (L.evict s e)

/-- What the passes of a loop keep: there is less and less to take, and `floor` is what the measure
comes to when nothing is left. -/
structure Loop.Sound (L : Loop σ ε) (I : σ → Prop) (rank : σ → ℕ) (floor : ℤ) : Prop where
  keep : ∀ {s e}, I s → L.pick s = some e → I (L.evict s e)
  less : ∀ {s e}, I s → L.pick s = some e → rank (L.evict s e) < rank s
  empty : ∀ {s}, I s → L.pick s = none → L.measure s = floor
  bound : ∀ {s}, I s → floor ≤ L.measure s

namespace Loop.Sound

variable {L : Loop σ ε} {I : σ → Prop} {rank : σ → ℕ} {floor limit : ℤ} {fuel : ℕ} {s s' : σ}

/-- With a limit that leaves room for `floor` the loop comes to an end. -/
theorem run_done (h : L.Sound I rank floor) (hs : I s) (hfuel : rank s < fuel)
    (hlimit : floor ≤ limit) : ∃ s', L.run limit fuel s = .done s' := by
  induction fuel generalizing s with
  | zero => omega
  | succ fuel ih =>
    rw [run]
    by_cases hle : L.measure s ≤ limit
    · exact ⟨s, if_pos hle⟩
    rw [if_neg hle]
    cases hpick : L.pick s with
    | none =>
      have := h.empty hs hpick
      omega
    | some e =>
      have := h.less hs hpick
      exact ih (h.keep hs hpick) (by omega)

/-- With a smaller limit it gets stuck. -/
theorem run_stuck (h : L.Sound I rank floor) (hs : I s) (hfuel : rank s < fuel)
    (hlimit : limit < floor) : L.run limit fuel s = .stuck := by
  induction fuel generalizing s with
  | zero => omega
  | succ fuel ih =>
    have := h.bound hs
    rw [run, if_neg (by omega)]
    cases hpick : L.pick s with
    | none => rfl
    | some e =>
      have := h.less hs hpick
      exact ih (h.keep hs hpick) (by omega)

/-- **When the loop comes to an end.** Exactly when the limit leaves room for `floor`. -/
theorem run_done_iff (h : L.Sound I rank floor) (hs : I s) (hfuel : rank s < fuel) :
    (∃ s', L.run limit fuel s = .done s') ↔ floor ≤ limit := by
  refine ⟨?_, h.run_done hs hfuel⟩
  rintro ⟨s', hs'⟩
  by_contra hlt
  rw [h.run_stuck hs hfuel (by omega)] at hs'
  cases hs'

/-- What the passes keep holds at the end. -/
theorem inv_of_done (h : L.Sound I rank floor) (hs : I s) (hrun : L.run limit fuel s = .done s') :
    I s' := by
  induction fuel generalizing s with
  | zero => cases hrun
  | succ fuel ih =>
    rw [run] at hrun
    split_ifs at hrun
    · cases hrun
      exact hs
    · cases hpick : L.pick s with
      | none =>
        rw [hpick] at hrun
        cases hrun
      | some e =>
        rw [hpick] at hrun
        exact ih (h.keep hs hpick) hrun

end Loop.Sound

end Agenor.Lib.Eviction
