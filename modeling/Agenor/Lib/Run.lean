import Mathlib.Data.List.Basic

/-!
Runs of a system that takes one step after the other.

The steps of a run are kept as a list, the last one at the end, so that a property of a state may
speak of what has happened before. A run can be restricted to steps that are allowed in the state
they are taken in.
-/

namespace Agenor.Lib

variable {σ α : Type*}

/-- The states that allowed steps lead to, with the list of these steps. -/
inductive Run (step : σ → α → σ) (ok : σ → α → Prop) (start : σ) : List α → σ → Prop
  | nil : Run step ok start [] start
  | snoc {l : List α} {s : σ} {a : α} : Run step ok start l s → ok s a →
      Run step ok start (l ++ [a]) (step s a)

namespace Run

variable {step : σ → α → σ} {ok : σ → α → Prop} {start s : σ} {l : List α}

/-- **The invariant rule.** What holds at the start and is kept by every allowed step holds in
every state of a run. -/
theorem invariant {P : σ → Prop} (h0 : P start) (hstep : ∀ s a, P s → ok s a → P (step s a))
    (h : Run step ok start l s) : P s := by
  induction h with
  | nil => exact h0
  | snoc _ hok ih => exact hstep _ _ ih hok

/-- Something was the case at some time of a run. -/
def Once (step : σ → α → σ) (ok : σ → α → Prop) (start : σ) (Q : List α → σ → Prop) (l : List α) :
    Prop :=
  ∃ l₁ s₁, l₁ <+: l ∧ Run step ok start l₁ s₁ ∧ Q l₁ s₁

lemma once_now {Q : List α → σ → Prop} (h : Run step ok start l s) (hq : Q l s) :
    Once step ok start Q l :=
  ⟨l, s, List.prefix_rfl, h, hq⟩

lemma Once.later {Q : List α → σ → Prop} (h : Once step ok start Q l) (l' : List α) :
    Once step ok start Q (l ++ l') := by
  obtain ⟨l₁, s₁, hl, hr, hq⟩ := h
  exact ⟨l₁, s₁, hl.trans (List.prefix_append l l'), hr, hq⟩

lemma append (h : Run step ok start l s) {m : List α} (hok : ∀ a ∈ m, ∀ s, ok s a) :
    Run step ok start (l ++ m) (m.foldl step s) := by
  induction m generalizing l s with
  | nil => simpa using h
  | cons a m ih =>
    rw [List.append_cons]
    exact ih (.snoc h (hok a (by simp) s)) fun b hb => hok b (List.mem_cons_of_mem _ hb)

/-- The steps are allowed, each in the state that those before it lead to. -/
def Allowed (step : σ → α → σ) (ok : σ → α → Prop) : σ → List α → Prop
  | _, [] => True
  | s, a :: l => ok s a ∧ Allowed step ok (step s a) l

lemma append_allowed (h : Run step ok start l s) {m : List α} (hm : Allowed step ok s m) :
    Run step ok start (l ++ m) (m.foldl step s) := by
  induction m generalizing l s with
  | nil => simpa using h
  | cons a m ih =>
    rw [List.append_cons]
    exact ih (.snoc h hm.1) hm.2

lemma eq_foldl (h : Run step ok start l s) : s = l.foldl step start := by
  induction h with
  | nil => rfl
  | snoc _ _ ih => rw [List.foldl_append, ← ih, List.foldl_cons, List.foldl_nil]

lemma of_snoc {a : α} (h : Run step ok start (l ++ [a]) s) :
    ∃ s', Run step ok start l s' ∧ ok s' a ∧ s = step s' a := by
  generalize hl : l ++ [a] = k at h
  cases h with
  | nil => simp at hl
  | snoc hr hok =>
    obtain ⟨rfl, ha⟩ := List.append_inj' hl rfl
    obtain rfl := List.singleton_injective ha
    exact ⟨_, hr, hok, rfl⟩

end Run

end Agenor.Lib
