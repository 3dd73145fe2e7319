import Mathlib.Data.List.Basic

/-!
Loops that test at the end, with a bound on their passes, and what can be said of a run that has
such a bound: what holds if it ends, and that it ends when the bound is large enough.
-/

namespace Agenor.Lib

variable {α σ τ : Type}

/-- `do body while (cond)`; `none` when there are more passes. -/
def doWhile (cond : σ → Bool) (body : σ → σ) : ℕ → σ → Option σ
  | 0, _ => none
  | fuel + 1, s => if cond (body s) then doWhile cond body fuel (body s) else some (body s)

/-- `do { if (cond) step } while (cond)` -/
def repeatWhile (cond : σ → Bool) (step : σ → σ) : ℕ → σ → Option σ :=
  doWhile cond fun s => if cond s then step s else s

/-- If the run ends it has the property, and it ends if the condition on the bounds holds. -/
structure Ends (enough : Prop) (o : Option σ) (post : σ → Prop) : Prop where
  post : ∀ s, o = some s → post s
  ends : enough → ∃ s, o = some s

namespace Ends

variable {enough : Prop} {o : Option σ} {P Q : σ → Prop} {s : σ}

lemma pure (h : P s) : Ends enough (some s) P where
  post t ht := by rwa [← Option.some.inj ht]
  ends _ := ⟨s, rfl⟩

lemma mono (h : Ends enough o P) (hPQ : ∀ s, P s → Q s) : Ends enough o Q where
  post s hs := hPQ s (h.post s hs)
  ends := h.ends

lemma bind {R : τ → Prop} {f : σ → Option τ} (h : Ends enough o P)
    (hf : ∀ s, P s → Ends enough (f s) R) : Ends enough (o.bind f) R where
  post t ht := by
    obtain ⟨s, hs, hft⟩ := Option.bind_eq_some_iff.mp ht
    exact (hf s (h.post s hs)).post t hft
  ends he := by
    obtain ⟨s, hs⟩ := h.ends he
    obtain ⟨t, ht⟩ := (hf s (h.post s hs)).ends he
    exact ⟨t, Option.bind_eq_some_iff.mpr ⟨s, hs, ht⟩⟩

lemma map {R : τ → Prop} {f : σ → τ} (h : Ends enough o P) (hf : ∀ s, P s → R (f s)) :
    Ends enough (o.map f) R where
  post t ht := by
    obtain ⟨s, hs, rfl⟩ := Option.map_eq_some_iff.mp ht
    exact hf s (h.post s hs)
  ends he := by
    obtain ⟨s, hs⟩ := h.ends he
    exact ⟨f s, by rw [hs]; rfl⟩

lemma foldlM {f : σ → α → Option σ} {I : List α → σ → Prop}
    (hstep : ∀ a l s, I (a :: l) s → Ends enough (f s a) (I l)) {l : List α} (h : I l s) :
    Ends enough (l.foldlM f s) (I []) := by
  induction l generalizing s with
  | nil => exact pure h
  | cons a l ih =>
    rw [List.foldlM_cons]
    exact (hstep a l s h).bind fun t ht => ih ht

lemma withEq (h : Ends enough o P) : Ends enough o fun s => o = some s ∧ P s where
  post s hs := ⟨hs, h.post s hs⟩
  ends := h.ends

/-- **The rule for a loop.** `Q` holds before every pass and `P` after it; in the end the test
fails. The loop ends if a measure decreases before every further pass. -/
theorem doWhile {cond : σ → Bool} {body : σ → σ} {fuel : ℕ} (m : σ → ℕ)
    (hbody : ∀ s, Q s → P (body s)) (hcond : ∀ s, P s → cond s = true → Q s)
    (hdec : ∀ s, Q s → cond (body s) = true → m (body s) < m s) (h : Q s)
    (hfuel : enough → m s < fuel) :
    Ends enough (Lib.doWhile cond body fuel s) fun t => P t ∧ cond t = false := by
  induction fuel generalizing s with
  | zero => exact ⟨nofun, fun he => absurd (hfuel he) (Nat.not_lt_zero _)⟩
  | succ fuel ih =>
    rw [Lib.doWhile]
    cases hnext : cond (body s) with
    | false => exact pure ⟨hbody s h, hnext⟩
    | true =>
      refine ih (hcond _ (hbody s h) hnext) fun he => ?_
      have hlt := hdec s h hnext
      have hle := hfuel he
      omega

theorem repeatWhile {cond : σ → Bool} {step : σ → σ} {fuel : ℕ} (m : σ → ℕ)
    (hstep : ∀ s, P s → cond s = true → P (step s))
    (hdec : ∀ s, P s → cond s = true → m (step s) < m s) (h : P s)
    (hfuel : enough → m s < fuel) :
    Ends enough (Lib.repeatWhile cond step fuel s) fun t => P t ∧ cond t = false := by
  refine doWhile m (fun t ht => ?_) (fun t ht _ => ht) (fun t ht hcond => ?_) h hfuel
  · split_ifs with hc
    · exact hstep t ht hc
    · exact ht
  · split_ifs at hcond ⊢ with hc
    · exact hdec t ht hc
    · exact absurd hcond hc

end Ends

end Agenor.Lib
