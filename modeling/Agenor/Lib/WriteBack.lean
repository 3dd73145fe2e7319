import Mathlib.Order.Basic

/-!
A write-back layer over a store, one key at a time.

A layer holds, for some keys, an entry: what it believes the value to be (`none` for a key
that is gone), whether that differs from the layer below (`dirty`), and whether the layer
below is known to have nothing at the key (`fresh`). A key without an entry is answered from
below. Nothing here depends on the other keys, so a whole layer is correct when each of its
keys is.
-/

namespace Agenor.Lib.WriteBack

variable {α : Type*}

/-- What a layer records about one key. -/
structure Entry (α : Type*) where
  val : Option α
  dirty : Bool
  fresh : Bool

/-- What the layer answers at the key, given the answer from below. -/
def read (e : Option (Entry α)) (low : Option α) : Option α :=
  match e with
  | some x => x.val
  | none => low

@[simp] lemma read_none (low : Option α) : read none low = low := rfl
@[simp] lemma read_some (x : Entry α) (low : Option α) : read (some x) low = x.val := rfl

/-- The flags tell the truth about the layer below: a clean entry agrees with it, and a fresh
one has nothing under it. -/
def Coherent (e : Option (Entry α)) (low : Option α) : Prop :=
  ∀ x, e = some x → (x.dirty = false → x.val = low) ∧ (x.fresh = true → low = none)

@[simp] lemma coherent_none (low : Option α) : Coherent none low := by
  intro x hx
  cases hx

@[simp] lemma coherent_some {x : Entry α} {low : Option α} :
    Coherent (some x) low ↔ (x.dirty = false → x.val = low) ∧ (x.fresh = true → low = none) :=
  ⟨fun h => h x rfl, fun h _ hy => Option.some.inj hy ▸ h⟩

/-! ### Operations of one layer -/

/-- Copy the answer from below into the layer. -/
def fill (low : Option α) : Entry α := ⟨low, false, low.isNone⟩

lemma coherent_fill (low : Option α) : Coherent (some (fill low)) low := by
  simp [fill]

/-- Store a value. Unless the caller says that it may be replacing one, an entry that was not
dirty becomes fresh. -/
def put (e : Option (Entry α)) (a : α) (overwrite : Bool) : Entry α :=
  match e with
  | some x => ⟨some a, true, x.fresh || (!overwrite && !x.dirty)⟩
  | none => ⟨some a, true, !overwrite⟩

@[simp] lemma put_val (e : Option (Entry α)) (a : α) (overwrite : Bool) :
    (put e a overwrite).val = some a := by
  cases e <;> rfl

/-- Storing keeps the flags true, as long as a caller who promises not to replace anything
keeps that promise. -/
lemma coherent_put {e : Option (Entry α)} {low : Option α} (h : Coherent e low) (a : α)
    {overwrite : Bool} (hw : overwrite = false → read e low = none) :
    Coherent (some (put e a overwrite)) low := by
  rw [coherent_some]
  cases e with
  | none =>
    refine ⟨by simp [put], ?_⟩
    intro hf
    exact hw (by simpa [put] using hf)
  | some x =>
    obtain ⟨hclean, hfresh⟩ := coherent_some.mp h
    refine ⟨by simp [put], ?_⟩
    intro hf
    simp only [put, Bool.or_eq_true, Bool.and_eq_true, Bool.not_eq_true'] at hf
    rcases hf with hf | ⟨hno, hd⟩
    · exact hfresh hf
    · rw [← hclean hd]
      exact hw hno

/-- Remove the value of an entry. Nothing under a fresh entry needs to be told. -/
def remove (x : Entry α) : Option (Entry α) :=
  if x.fresh then none else some ⟨none, true, false⟩

lemma read_remove {x : Entry α} {low : Option α} (h : Coherent (some x) low) :
    read (remove x) low = none := by
  unfold remove
  split
  · next hf => exact (coherent_some.mp h).2 hf
  · rfl

lemma coherent_remove (x : Entry α) (low : Option α) : Coherent (remove x) low := by
  unfold remove
  split <;> simp

/-! ### Writing one layer into the layer below -/

/-- The entry of the lower layer after the upper one has been written into it; `none` when the
upper entry claims to be fresh over a value. -/
def merge (upper lower : Option (Entry α)) : Option (Option (Entry α)) :=
  match upper with
  | none => some lower
  | some x =>
    if x.dirty = false then some lower
    else match lower with
      | none => if x.fresh && x.val.isNone then some none else some (some ⟨x.val, true, x.fresh⟩)
      | some y =>
        if x.fresh && y.val.isSome then none
        else if y.fresh && x.val.isNone then some none
        else some (some ⟨x.val, true, y.fresh⟩)

/-- **Writing back.** From coherent layers the write never fails; the lower layer then answers
what the upper one answered, and is coherent with what is under it. -/
theorem merge_spec {upper lower : Option (Entry α)} {low : Option α}
    (hu : Coherent upper (read lower low)) (hl : Coherent lower low) :
    ∃ m, merge upper lower = some m ∧ read m low = read upper (read lower low) ∧
      Coherent m low := by
  cases upper with
  | none => exact ⟨lower, rfl, rfl, hl⟩
  | some x =>
    obtain ⟨hclean, hfresh⟩ := coherent_some.mp hu
    by_cases hd : x.dirty = false
    · exact ⟨lower, by simp [merge, hd], by rw [read_some, hclean hd], hl⟩
    cases lower with
    | none =>
      by_cases hx : x.fresh && x.val.isNone
      · simp only [Bool.and_eq_true, Option.isNone_iff_eq_none] at hx
        exact ⟨none, by simp [merge, hd, hx], by simpa [hx.2] using hfresh hx.1, by simp⟩
      · refine ⟨some ⟨x.val, true, x.fresh⟩, by simp [merge, hd, hx], rfl, ?_⟩
        simpa using hfresh
    | some y =>
      obtain ⟨-, hyf⟩ := coherent_some.mp hl
      -- a fresh upper entry sits over nothing, so the misuse branch is dead
      have hmis : ¬(x.fresh && y.val.isSome) = true := by
        intro h
        simp only [Bool.and_eq_true] at h
        have := hfresh h.1
        simp only [read_some] at this
        simp [this] at h
      by_cases hy : y.fresh && x.val.isNone
      · simp only [Bool.and_eq_true, Option.isNone_iff_eq_none] at hy
        refine ⟨none, ?_, ?_, by simp⟩
        · simp only [merge, hd, if_neg hmis]
          simp [hy]
        · simpa [hy.2] using hyf hy.1
      · refine ⟨some ⟨x.val, true, y.fresh⟩, ?_, rfl, by simpa using hyf⟩
        simp only [merge, hd, if_neg hmis, if_neg hy]
        simp

end Agenor.Lib.WriteBack
