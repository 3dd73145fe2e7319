import Agenor.Lib.PartialTree

/-!
Cutting a hash tree down to the leaves that are marked.

A subtree without a marked leaf is replaced by its hash. The tree that is left has the shape of the
whole one, its hash, and shows the marked leaves.
-/

namespace Agenor.Lib.Merkle

open BTree PTree

variable {α : Type*} [Inhabited α] (hash : α → α → α)

/-- The partial tree of height `k` over leaves with marks. -/
def cut : ℕ → List (α × Bool) → PTree α
  | 0, L => .stub (L.headD default).1 (L.headD default).2
  | k + 1, L =>
    if L.any (·.2) then
      if L.length ≤ 2 ^ k then .one (cut k L)
      else .two (cut k (L.take (2 ^ k))) (cut k (L.drop (2 ^ k)))
    else .stub ((treeOf (k + 1) (L.map (·.1))).value hash) false

variable {hash} {k : ℕ} {L : List (α × Bool)}

lemma cut_unmarked (h : L.any (·.2) = false) :
    cut hash (k + 1) L = .stub ((treeOf (k + 1) (L.map (·.1))).value hash) false :=
  if_neg (by rw [h]; decide)

lemma cut_of_le (h : L.any (·.2) = true) (hle : L.length ≤ 2 ^ k) :
    cut hash (k + 1) L = .one (cut hash k L) := by
  rw [cut, if_pos h, if_pos hle]

lemma cut_of_lt (h : L.any (·.2) = true) (hlt : 2 ^ k < L.length) :
    cut hash (k + 1) L = .two (cut hash k (L.take (2 ^ k))) (cut hash k (L.drop (2 ^ k))) := by
  rw [cut, if_pos h, if_neg (not_le.mpr hlt)]

lemma shape_cut (k : ℕ) (L : List (α × Bool)) : (cut hash k L).Shape k L.length := by
  induction k generalizing L with
  | zero => trivial
  | succ k ih =>
    cases hany : L.any (·.2) with
    | false =>
      rw [cut_unmarked hany]
      rfl
    | true =>
      rcases le_or_gt L.length (2 ^ k) with hle | hlt
      · rw [cut_of_le hany hle]
        exact ⟨hle, ih L⟩
      · have hleft := ih (L.take (2 ^ k))
        have hright := ih (L.drop (2 ^ k))
        rw [List.length_take, min_eq_left hlt.le] at hleft
        rw [List.length_drop] at hright
        rw [cut_of_lt hany hlt]
        exact ⟨hlt, hleft, hright⟩

lemma value_cut (k : ℕ) (L : List (α × Bool)) :
    (cut hash k L).value hash = (treeOf k (L.map (·.1))).value hash := by
  induction k generalizing L with
  | zero =>
    cases L with
    | nil => rfl
    | cons x L => rfl
  | succ k ih =>
    cases hany : L.any (·.2) with
    | false =>
      rw [cut_unmarked hany]
      rfl
    | true =>
      rcases le_or_gt L.length (2 ^ k) with hle | hlt
      · rw [cut_of_le hany hle, treeOf_of_le (by rwa [List.length_map]), PTree.value, BTree.value,
          ih L]
      · rw [cut_of_lt hany hlt, treeOf_of_lt (by rwa [List.length_map]), PTree.value, BTree.value,
          ih, ih, List.map_take, List.map_drop]

lemma shown_cut (hne : L ≠ []) (hle : L.length ≤ 2 ^ k) :
    (cut hash k L).shown = (L.filter (·.2)).map (·.1) := by
  induction k generalizing L with
  | zero =>
    obtain ⟨x, rfl⟩ : ∃ x, L = [x] := by
      cases L with
      | nil => exact absurd rfl hne
      | cons x L =>
        have hnil : L = [] := List.length_eq_zero_iff.mp (by simpa using hle)
        exact ⟨x, by rw [hnil]⟩
    obtain ⟨y, b⟩ := x
    cases b <;> rfl
  | succ k ih =>
    cases hany : L.any (·.2) with
    | false =>
      have hnone : L.filter (·.2) = [] := by
        rw [List.filter_eq_nil_iff]
        intro x hx hmark
        rw [List.any_eq_false] at hany
        exact hany x hx hmark
      rw [cut_unmarked hany, hnone]
      rfl
    | true =>
      rcases le_or_gt L.length (2 ^ k) with hshort | hlt
      · rw [cut_of_le hany hshort]
        exact ih hne hshort
      · have hpos := Nat.two_pow_pos k
        have hleft : L.take (2 ^ k) ≠ [] := by
          rw [← List.length_pos_iff, List.length_take]
          omega
        have hright : L.drop (2 ^ k) ≠ [] := by
          rw [← List.length_pos_iff, List.length_drop]
          omega
        have hrest : (L.drop (2 ^ k)).length ≤ 2 ^ k := by
          rw [List.length_drop]
          rw [pow_succ] at hle
          omega
        rw [cut_of_lt hany hlt, PTree.shown, ih hleft (List.length_take_le _ _), ih hright hrest,
          ← List.map_append, ← List.filter_append, List.take_append_drop]

omit [Inhabited α] in
lemma PTree.length_bits_lt {c : ℕ} {p : PTree α} (hp : p.Shape k c) :
    p.bits.length < 2 ^ (k + 1) := by
  induction k generalizing p c with
  | zero =>
    cases p with
    | stub x b => exact Nat.one_lt_two_pow (by decide)
    | one l => cases hp
    | two l r => cases hp
  | succ k ih =>
    rw [pow_succ]
    cases p with
    | stub x b =>
      have := Nat.two_pow_pos (k + 1)
      simp only [PTree.bits, List.length_singleton]
      omega
    | one l =>
      have := ih (p := l) hp.2
      simp only [PTree.bits, List.length_cons]
      omega
    | two l r =>
      have hl := ih hp.2.1
      have hr := ih hp.2.2
      simp only [PTree.bits, List.length_cons, List.length_append]
      omega

end Agenor.Lib.Merkle
