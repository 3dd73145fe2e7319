import Mathlib.Data.List.Basic

/-!
Readers of a stream that may fail, and what it means that they read back what has been written.

`ReadsBack r l a` says that `r` gives `a` on any stream that starts with `l` and leaves exactly the
rest. Such facts are put together along the reader: one for each part of a sequence.
-/

namespace Agenor.Lib

variable {β α γ : Type}

/-- The reader gives the value and takes exactly these elements of the stream. -/
def ReadsBack (r : StateT (List β) Option α) (l : List β) (a : α) : Prop :=
  ∀ rest, r (l ++ rest) = some (a, rest)

namespace ReadsBack

variable {r : StateT (List β) Option α} {l l' : List β} {a : α}
variable {k : α → StateT (List β) Option γ} {c : γ}

lemma pure (a : α) : ReadsBack (Pure.pure a : StateT (List β) Option α) [] a := fun _ => rfl

lemma bind (h : ReadsBack r l a) (hk : ReadsBack (k a) l' c) :
    ReadsBack (r >>= k) (l ++ l') c := by
  intro rest
  show (r (l ++ l' ++ rest)).bind (fun p => k p.1 p.2) = _
  rw [List.append_assoc, h]
  exact hk rest

lemma bind_nil (h : ReadsBack r l a) (hk : ReadsBack (k a) [] c) : ReadsBack (r >>= k) l c := by
  have hbind := h.bind hk
  rwa [List.append_nil] at hbind

lemma map (f : α → γ) (h : ReadsBack r l a) :
    ReadsBack (r >>= fun x => Pure.pure (f x)) l (f a) :=
  h.bind_nil (pure (f a))

lemma bind_failure (h : ReadsBack r l a) (hk : k a = failure) (rest : List β) :
    (r >>= k) (l ++ rest) = none := by
  show (r (l ++ rest)).bind (fun p => k p.1 p.2) = none
  rw [h]
  show k a rest = none
  rw [hk]
  rfl

end ReadsBack

end Agenor.Lib
