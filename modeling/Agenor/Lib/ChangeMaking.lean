import Mathlib.Algebra.BigOperators.Group.List.Basic
import Mathlib.Algebra.Order.Ring.Int
import Mathlib.Data.List.Chain
import Mathlib.Tactic.Linarith
import Mathlib.Tactic.Ring

/-!
Paying an amount with a limited number of coins of each kind.

When every value divides the next larger one, the greedy choice is right: of what can be paid,
as many of the largest coins may be used as fit, and the rest can still be paid exactly.
-/

namespace Agenor.Lib.ChangeMaking

variable {α : Type} (value held : α → ℤ)

/-- The amount can be paid with the coins held of these kinds. -/
def Payable : List α → ℤ → Prop
  | [], r => r = 0
  | a :: l, r => ∃ x, 0 ≤ x ∧ x ≤ held a ∧ Payable l (r - x * value a)

/-- What so many coins of each kind are worth. -/
def total (l : List α) (used : α → ℤ) : ℤ := (l.map fun a => used a * value a).sum

/-- The values are positive, and each is divisible by the next. -/
structure Divides (l : List α) : Prop where
  pos : ∀ a ∈ l, 0 < value a
  chain : l.IsChain fun a b => value b ∣ value a

variable {value held} {l : List α} {a : α} {r w x : ℤ} {used : α → ℤ}

lemma Divides.tail (h : Divides value (a :: l)) : Divides value l :=
  ⟨fun b hb => h.pos b (List.mem_cons_of_mem a hb), (List.isChain_cons.mp h.chain).2⟩

lemma Divides.head (h : Divides value (a :: l)) (hw : value a ∣ w) : ∀ b ∈ l.head?, value b ∣ w :=
  fun b hb => ((List.isChain_cons.mp h.chain).1 b hb).trans hw

lemma Payable.nonneg (hl : Divides value l) (h : Payable value held l r) : 0 ≤ r := by
  induction l generalizing r with
  | nil =>
    rw [Payable] at h
    exact h.ge
  | cons a l ih =>
    obtain ⟨x, hx, -, hrest⟩ := h
    have hle := ih hl.tail hrest
    have hpos := hl.pos a List.mem_cons_self
    nlinarith

lemma payable_total (h : ∀ a ∈ l, 0 ≤ used a ∧ used a ≤ held a) :
    Payable value held l (total value l used) := by
  induction l with
  | nil => rfl
  | cons a l ih =>
    obtain ⟨⟨h0, hle⟩, hl⟩ := List.forall_mem_cons.mp h
    refine ⟨used a, h0, hle, ?_⟩
    rw [total, List.map_cons, List.sum_cons, add_sub_cancel_left]
    exact ih hl

lemma total_reverse (l : List α) (used : α → ℤ) :
    total value l.reverse used = total value l used := by
  rw [total, total, List.map_reverse, List.sum_reverse]

lemma total_congr {used' : α → ℤ} (h : ∀ a ∈ l, used a = used' a) :
    total value l used = total value l used' :=
  congrArg List.sum (List.map_congr_left fun a ha => by rw [h a ha])

lemma total_update [DecidableEq α] (hl : l.Nodup) (ha : a ∈ l) (used : α → ℤ) (n : ℤ) :
    total value l (Function.update used a (used a + n)) = total value l used + n * value a := by
  induction l with
  | nil => cases ha
  | cons b l ih =>
    obtain ⟨hb, hl⟩ := List.nodup_cons.mp hl
    simp only [total, List.map_cons, List.sum_cons] at ih ⊢
    rcases List.mem_cons.mp ha with rfl | ha
    · have hrest : total value l (Function.update used a (used a + n)) = total value l used :=
        total_congr fun c hc => Function.update_of_ne (fun h : c = a => hb (h ▸ hc)) _ _
      rw [total, total] at hrest
      rw [hrest, Function.update_self]
      ring
    · rw [ih hl ha, Function.update_of_ne fun h : b = a => hb (h ▸ ha)]
      ring

/-- A smaller amount that the largest value divides can be taken out of a payment: going through the
coins from the largest down, the sum of what has been taken meets it. -/
lemma Payable.sub (hl : Divides value l) (h : Payable value held l r) (h0 : 0 ≤ w) (hw : w ≤ r)
    (hd : ∀ a ∈ l.head?, value a ∣ w) : Payable value held l (r - w) := by
  induction l generalizing r w with
  | nil =>
    rw [Payable] at h ⊢
    omega
  | cons a l ih =>
    obtain ⟨x, hx0, hx, hrest⟩ := h
    obtain ⟨q, rfl⟩ := hd a rfl
    have hpos := hl.pos a List.mem_cons_self
    have hq : 0 ≤ q := by
      by_contra hneg
      nlinarith
    rcases le_or_gt q x with hqx | hxq
    · -- the coins of this kind are enough
      refine ⟨x - q, by omega, by omega, ?_⟩
      rwa [show r - value a * q - (x - q) * value a = r - x * value a by ring]
    · refine ⟨0, le_rfl, hx0.trans hx, ?_⟩
      have hsub := @ih (r - x * value a) (value a * (q - x)) hl.tail hrest (by nlinarith)
        (by linarith) (hl.head (Dvd.intro _ rfl))
      rwa [show r - value a * q - 0 * value a = r - x * value a - value a * (q - x) by ring]

/-- **The greedy choice.** As many of the largest coins as fit, or as are held. -/
theorem Payable.greedy (hl : Divides value (a :: l)) (h : Payable value held (a :: l) r)
    (hr : 0 ≤ r - x * value a) (hmax : r - x * value a < value a ∨ x = held a) :
    Payable value held l (r - x * value a) := by
  obtain ⟨k, hk0, hk, hrest⟩ := h
  have hpos := hl.pos a List.mem_cons_self
  have hle := hrest.nonneg hl.tail
  have hkx : k ≤ x := by
    rcases hmax with hlt | rfl
    · by_contra hgt
      nlinarith
    · exact hk
  have hsub := hrest.sub hl.tail (w := value a * (x - k)) (by nlinarith) (by linarith)
    (hl.head (Dvd.intro _ rfl))
  rwa [show r - k * value a - value a * (x - k) = r - x * value a by ring] at hsub

end Agenor.Lib.ChangeMaking
