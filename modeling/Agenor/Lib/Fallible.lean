import Mathlib.Data.List.Basic

/-!
Reading computations in `Except` backwards: what must have happened for a sequence or a loop
to have returned.
-/

namespace Agenor.Lib.Fallible

universe u v

variable {ε : Type v} {α β σ : Type u}

@[simp] lemma bind_eq_ok {x : Except ε α} {f : α → Except ε β} {b : β} :
    (x >>= f) = .ok b ↔ ∃ a, x = .ok a ∧ f a = .ok b := by
  cases x <;> simp [bind, Except.bind]

lemma ok_bind (a : α) (f : α → Except ε β) : ((.ok a : Except ε α) >>= f) = f a := rfl

@[simp] lemma pure_eq_ok {a b : α} : (pure a : Except ε α) = .ok b ↔ a = b := by
  simp [pure, Except.pure]

lemma bind_eq_error {x : Except ε α} {f : α → Except ε β} {e : ε} :
    (x >>= f) = .error e ↔ x = .error e ∨ ∃ a, x = .ok a ∧ f a = .error e := by
  cases x <;> simp [bind, Except.bind]

/-- Stop with `e` when the condition holds. -/
def failIf (c : Bool) (e : ε) : Except ε Unit := if c then .error e else .ok ()

@[simp] lemma failIf_eq_ok {c : Bool} {e : ε} {u : Unit} : failIf c e = .ok u ↔ c = false := by
  cases c <;> simp [failIf]

lemma failIf_eq_error {c : Bool} {e e' : ε} : failIf c e = .error e' ↔ c = true ∧ e = e' := by
  cases c <;> simp [failIf]

/-- A loop that carries a state and may stop: the body is run on each element in turn. -/
def loop (f : σ → α → Except ε σ) (s : σ) (l : List α) : Except ε σ := l.foldlM f s

@[simp] lemma loop_nil (f : σ → α → Except ε σ) (s : σ) : loop f s [] = .ok s := rfl

@[simp] lemma loop_cons (f : σ → α → Except ε σ) (s : σ) (a : α) (l : List α) :
    loop f s (a :: l) = (f s a >>= fun s' => loop f s' l) := rfl

lemma loop_append (f : σ → α → Except ε σ) (s : σ) (l m : List α) :
    loop f s (l ++ m) = (loop f s l >>= fun s' => loop f s' m) := by
  simp [loop, List.foldlM_append]

/-- **The loop rule.** What holds on entry and is kept by every pass that returns holds when
the loop returns. -/
theorem loop_inv {f : σ → α → Except ε σ} {P : σ → Prop} {l : List α} {s s' : σ}
    (h : loop f s l = .ok s') (h0 : P s)
    (hstep : ∀ a ∈ l, ∀ t t', P t → f t a = .ok t' → P t') : P s' := by
  induction l generalizing s with
  | nil =>
    simp only [loop_nil, Except.ok.injEq] at h
    exact h ▸ h0
  | cons a l ih =>
    simp only [loop_cons, bind_eq_ok] at h
    obtain ⟨t, ht, hl⟩ := h
    refine ih hl (hstep a (by simp) s t h0 ht) ?_
    intro b hb
    exact hstep b (List.mem_cons_of_mem _ hb)

lemma loop_forall {f : σ → α → Except ε σ} {l : List α} {s s' : σ} (h : loop f s l = .ok s')
    {a : α} (ha : a ∈ l) : ∃ t t', f t a = .ok t' := by
  induction l generalizing s with
  | nil => cases ha
  | cons b l ih =>
    simp only [loop_cons, bind_eq_ok] at h
    obtain ⟨t, ht, hl⟩ := h
    rcases List.mem_cons.mp ha with rfl | ha
    · exact ⟨s, t, ht⟩
    · exact ih hl ha

lemma loop_eq_error {f : σ → α → Except ε σ} {l : List α} {s : σ} {e : ε} :
    loop f s l = .error e ↔
      ∃ pre a post t, l = pre ++ a :: post ∧ loop f s pre = .ok t ∧ f t a = .error e := by
  induction l generalizing s with
  | nil => simp
  | cons b l ih =>
    rw [loop_cons, bind_eq_error]
    constructor
    · rintro (hb | ⟨t, ht, hl⟩)
      · exact ⟨[], b, l, s, rfl, rfl, hb⟩
      · obtain ⟨pre, a, post, t', rfl, hpre, ha⟩ := ih.mp hl
        exact ⟨b :: pre, a, post, t', rfl, by rw [loop_cons, ht]; exact hpre, ha⟩
    · rintro ⟨pre, a, post, t, hl, hpre, ha⟩
      cases pre with
      | nil =>
        cases hl
        cases hpre
        exact .inl ha
      | cons c pre =>
        cases hl
        rw [loop_cons, bind_eq_ok] at hpre
        obtain ⟨t', ht', hpre⟩ := hpre
        exact .inr ⟨t', ht', ih.mpr ⟨pre, a, post, t, rfl, hpre, ha⟩⟩

lemma loop_isOk {f : σ → α → Except ε σ} {l : List α} (s : σ)
    (h : ∀ a ∈ l, ∀ t, ∃ t', f t a = .ok t') : ∃ s', loop f s l = .ok s' := by
  induction l generalizing s with
  | nil => exact ⟨s, rfl⟩
  | cons a l ih =>
    obtain ⟨t, ht⟩ := h a (by simp) s
    obtain ⟨s', hs'⟩ := ih t fun b hb => h b (List.mem_cons_of_mem _ hb)
    refine ⟨s', ?_⟩
    rw [loop_cons, ht]
    exact hs'

/-- **The simulation rule.** A loop returns when another does, whose passes its own passes follow
from one related state to the next. -/
theorem loop_sim {τ : Type u} {f : σ → α → Except ε σ} {g : τ → α → Except ε τ} {R : σ → τ → Prop}
    {l : List α} {s s' : σ} {t : τ} (h : loop f s l = .ok s') (h0 : R s t)
    (hstep : ∀ a ∈ l, ∀ s s' t, R s t → f s a = .ok s' → ∃ t', g t a = .ok t' ∧ R s' t') :
    ∃ t', loop g t l = .ok t' ∧ R s' t' := by
  induction l generalizing s t with
  | nil =>
    simp only [loop_nil, Except.ok.injEq] at h
    exact ⟨t, rfl, h ▸ h0⟩
  | cons a l ih =>
    simp only [loop_cons, bind_eq_ok] at h
    obtain ⟨s₁, hs, hl⟩ := h
    obtain ⟨t₁, ht, h1⟩ := hstep a (by simp) s s₁ t h0 hs
    obtain ⟨t', ht', h'⟩ := ih hl h1 fun b hb => hstep b (List.mem_cons_of_mem _ hb)
    refine ⟨t', ?_, h'⟩
    rw [loop_cons, ht]
    exact ht'

/-! ### Computations that do not end in a given failure -/

/-- The computation does not end in `e`. -/
def Avoids (e : ε) (x : Except ε α) : Prop := x ≠ .error e

lemma Avoids.ok (e : ε) (a : α) : Avoids e (.ok a) := by simp [Avoids]

lemma Avoids.pure (e : ε) (a : α) : Avoids e (Pure.pure a) := Avoids.ok e a

lemma Avoids.error {e e' : ε} (h : e' ≠ e) : Avoids e (.error e' : Except ε α) := by
  simpa [Avoids] using h

lemma Avoids.stop {e e' : ε} {c : Bool} (h : e' ≠ e) : Avoids e (failIf c e') := by
  cases c
  · exact Avoids.ok e ()
  · exact Avoids.error h

lemma Avoids.bind {e : ε} {x : Except ε α} {f : α → Except ε β} (hx : Avoids e x)
    (hf : ∀ a, x = .ok a → Avoids e (f a)) : Avoids e (x >>= f) := by
  intro h
  rcases bind_eq_error.mp h with h | ⟨a, ha, h⟩
  · exact hx h
  · exact hf a ha h

lemma Avoids.guard {γ : Type} {e e' : ε} {c : Bool} {k : Unit → Except ε γ} (h : e' ≠ e)
    (hk : c = false → Avoids e (k ())) : Avoids e (failIf c e' >>= k) :=
  (Avoids.stop h).bind fun _ hc => hk (failIf_eq_ok.mp hc)

lemma Avoids.ite {e : ε} {c : Prop} [Decidable c] {x y : Except ε α} (hx : c → Avoids e x)
    (hy : ¬ c → Avoids e y) : Avoids e (if c then x else y) := by
  split
  · exact hx ‹_›
  · exact hy ‹_›

lemma Avoids.loop {e : ε} {f : σ → α → Except ε σ} {l : List α} (s : σ)
    (h : ∀ a ∈ l, ∀ t, Avoids e (f t a)) : Avoids e (loop f s l) := by
  induction l generalizing s with
  | nil => exact Avoids.ok e s
  | cons a l ih =>
    rw [loop_cons]
    exact (h a (by simp) s).bind fun t _ => ih t fun b hb => h b (List.mem_cons_of_mem _ hb)

/-! ### Computations that return less -/

/-- Whatever `x` returns, `y` returns too; nothing is said when `x` fails. -/
def Below (x y : Except ε α) : Prop := ∀ a, x = .ok a → y = .ok a

lemma Below.refl (x : Except ε α) : Below x x := fun _ h => h

lemma Below.bind {x y : Except ε α} {f g : α → Except ε β} (hx : Below x y)
    (hf : ∀ a, Below (f a) (g a)) : Below (x >>= f) (y >>= g) := by
  intro b h
  obtain ⟨a, ha, hb⟩ := bind_eq_ok.mp h
  exact bind_eq_ok.mpr ⟨a, hx a ha, hf a b hb⟩

lemma Below.failIf {c d : Bool} (e : ε) (h : d = true → c = true) :
    Below (failIf c e) (failIf d e) := by
  intro u hc
  rw [failIf_eq_ok] at hc ⊢
  cases d with
  | false => rfl
  | true => exact absurd (h rfl) (by simp [hc])

lemma Below.ite {c : Prop} [Decidable c] {x y x' y' : Except ε α} (hx : c → Below x x')
    (hy : ¬ c → Below y y') : Below (if c then x else y) (if c then x' else y') := by
  by_cases hc : c
  · rw [if_pos hc, if_pos hc]
    exact hx hc
  · rw [if_neg hc, if_neg hc]
    exact hy hc

end Agenor.Lib.Fallible
