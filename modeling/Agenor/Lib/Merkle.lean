import Mathlib.Data.List.Basic
import Mathlib.Tactic.Ring

/-!
Hash trees over lists whose length need not be a power of two: a right half that is missing is a
copy of the left one.

The tree of a list is perfect, so that two trees of one height with the same hash at the top are
equal as long as no two pairs collide. This leaves the copies as the only way in which two lists can
have the same top. The longer of two such lists repeats itself: two complete halves of some node of
its tree are the same.

The top is also what hashing level by level gives, and the siblings on the way from a leaf to the
top prove where the leaf is.
-/

namespace Agenor.Lib.Merkle

inductive BTree (α : Type*)
  | leaf (x : α)
  | node (l r : BTree α)

variable {α : Type*} (hash : α → α → α)

namespace BTree

/-- The hash at the top. -/
def value : BTree α → α
  | leaf x => x
  | node l r => hash l.value r.value

/-- The pairs that are hashed. -/
def pairs : BTree α → List (α × α)
  | leaf _ => []
  | node l r => (l.value hash, r.value hash) :: (l.pairs ++ r.pairs)

def leaves : BTree α → List α
  | leaf x => [x]
  | node l r => l.leaves ++ r.leaves

/-- All leaves have the same depth. -/
def Perfect : ℕ → BTree α → Prop
  | 0, leaf _ => True
  | k + 1, node l r => Perfect k l ∧ Perfect k r
  | _, _ => False

end BTree

open BTree

/-- No two of the pairs have the same hash. -/
def CollisionFree (ps : List (α × α)) : Prop :=
  ∀ p ∈ ps, ∀ q ∈ ps, hash p.1 p.2 = hash q.1 q.2 → p = q

/-- None of the leaves is the hash of one of the pairs. -/
def LeavesApart (xs : List α) (ps : List (α × α)) : Prop :=
  ∀ x ∈ xs, ∀ p ∈ ps, x ≠ hash p.1 p.2

instance [DecidableEq α] (ps : List (α × α)) : Decidable (CollisionFree hash ps) :=
  decidable_of_iff ((ps.all fun p => ps.all fun q =>
      hash p.1 p.2 != hash q.1 q.2 || p == q) = true) <| by
    simp only [List.all_eq_true, Bool.or_eq_true, bne_iff_ne, beq_iff_eq]
    exact ⟨fun h p hp q hq heq => (h p hp q hq).resolve_left (not_not.mpr heq),
      fun h p hp q hq => Classical.or_iff_not_imp_left.mpr fun hne => h p hp q hq (not_not.mp hne)⟩

instance [DecidableEq α] (xs : List α) (ps : List (α × α)) : Decidable (LeavesApart hash xs ps) :=
  decidable_of_iff ((xs.all fun x => ps.all fun p => x != hash p.1 p.2) = true) <| by
    simp only [List.all_eq_true, bne_iff_ne]
    exact Iff.rfl

variable {hash} {ps : List (α × α)} {t t' l r : BTree α} {k k' : ℕ}

lemma children_eq (hps : CollisionFree hash ps) (ht : ∀ p ∈ (node l r).pairs hash, p ∈ ps)
    {a b : α} (hab : (a, b) ∈ ps) (heq : hash a b = (node l r).value hash) :
    a = l.value hash ∧ b = r.value hash := by
  have hpair := hps (a, b) hab (l.value hash, r.value hash) (ht _ List.mem_cons_self) heq
  rwa [Prod.mk.injEq] at hpair

lemma mem_pairs_left {p : α × α} (hp : p ∈ l.pairs hash) : p ∈ (node l r).pairs hash :=
  List.mem_cons_of_mem _ (List.mem_append_left _ hp)

lemma mem_pairs_right {p : α × α} (hp : p ∈ r.pairs hash) : p ∈ (node l r).pairs hash :=
  List.mem_cons_of_mem _ (List.mem_append_right _ hp)

/-- Perfect trees of one height are determined by the top. -/
theorem eq_of_value_eq (hps : CollisionFree hash ps) (ht : t.Perfect k) (ht' : t'.Perfect k)
    (hp : ∀ p ∈ t.pairs hash, p ∈ ps) (hp' : ∀ p ∈ t'.pairs hash, p ∈ ps)
    (heq : t.value hash = t'.value hash) : t = t' := by
  induction k generalizing t t' with
  | zero =>
    cases t <;> cases t' <;> simp_all [BTree.Perfect, value]
  | succ k ih =>
    cases t with
    | leaf x => cases ht
    | node l r =>
      cases t' with
      | leaf x => cases ht'
      | node l' r' =>
        obtain ⟨hl, hr⟩ := children_eq hps hp' (hp _ List.mem_cons_self) heq
        rw [ih ht.1 ht'.1 (fun p h => hp p (mem_pairs_left h)) (fun p h => hp' p (mem_pairs_left h))
          hl, ih ht.2 ht'.2 (fun p h => hp p (mem_pairs_right h))
          (fun p h => hp' p (mem_pairs_right h)) hr]

/-- Trees of different heights have different tops, if no leaf is the hash of a pair. -/
theorem value_ne_of_lt (hps : CollisionFree hash ps) (ht : t.Perfect k) (ht' : t'.Perfect k')
    (hk : k < k') (hp : ∀ p ∈ t.pairs hash, p ∈ ps) (hp' : ∀ p ∈ t'.pairs hash, p ∈ ps)
    (hleaf : LeavesApart hash t.leaves ps) : t.value hash ≠ t'.value hash := by
  induction k generalizing t t' k' with
  | zero =>
    cases t with
    | node l r => cases ht
    | leaf x =>
      cases k' with
      | zero => omega
      | succ k' =>
        cases t' with
        | leaf y => cases ht'
        | node l r => exact hleaf x (List.mem_singleton_self x) _ (hp' _ List.mem_cons_self)
  | succ k ih =>
    cases t with
    | leaf x => cases ht
    | node l r =>
      cases k' with
      | zero => omega
      | succ k' =>
        cases t' with
        | leaf y => cases ht'
        | node l' r' =>
          intro heq
          obtain ⟨hl, -⟩ := children_eq hps hp' (hp _ List.mem_cons_self) heq
          exact ih ht.1 ht'.1 (by omega) (fun p h => hp p (mem_pairs_left h))
            (fun p h => hp' p (mem_pairs_left h))
            (fun x hx => hleaf x (List.mem_append_left _ hx)) hl

/-! ### One level up -/

section NextLevel

variable (hash)

/-- One level up: neighbours are hashed together, the last one with itself if it has none. -/
def nextLevel : List α → List α
  | [] => []
  | [x] => [hash x x]
  | x :: y :: L => hash x y :: nextLevel L

lemma length_nextLevel : ∀ L : List α, (nextLevel hash L).length = (L.length + 1) / 2
  | [] => by simp [nextLevel]
  | [_] => by simp [nextLevel]
  | x :: y :: L => by
    simp only [nextLevel, List.length_cons, length_nextLevel L]
    omega

lemma nextLevel_take (m : ℕ) : ∀ L : List α,
    nextLevel hash (L.take (2 * m)) = (nextLevel hash L).take m := by
  induction m with
  | zero => exact fun L => rfl
  | succ m ih =>
    intro L
    rw [show 2 * (m + 1) = 2 * m + 1 + 1 by ring]
    match L with
    | [] => simp [nextLevel]
    | [x] => simp [nextLevel]
    | x :: y :: L => rw [List.take_succ_cons, List.take_succ_cons, nextLevel, nextLevel,
        List.take_succ_cons, ih L]

lemma nextLevel_drop (m : ℕ) : ∀ L : List α,
    nextLevel hash (L.drop (2 * m)) = (nextLevel hash L).drop m := by
  induction m with
  | zero => exact fun L => rfl
  | succ m ih =>
    intro L
    rw [show 2 * (m + 1) = 2 * m + 1 + 1 by ring]
    match L with
    | [] => simp [nextLevel]
    | [x] => simp [nextLevel]
    | x :: y :: L => rw [List.drop_succ_cons, List.drop_succ_cons, nextLevel, List.drop_succ_cons,
        ih L]

end NextLevel

/-! ### The tree of a list -/

section TreeOf

variable [Inhabited α]

/-- The tree of height `k` over a list of at most `2 ^ k` leaves. -/
def treeOf : ℕ → List α → BTree α
  | 0, L => leaf (L.headD default)
  | k + 1, L =>
    if L.length ≤ 2 ^ k then node (treeOf k L) (treeOf k L)
    else node (treeOf k (L.take (2 ^ k))) (treeOf k (L.drop (2 ^ k)))

variable {L L' : List α}

lemma treeOf_of_le (h : L.length ≤ 2 ^ k) : treeOf (k + 1) L = node (treeOf k L) (treeOf k L) :=
  if_pos h

lemma treeOf_of_lt (h : 2 ^ k < L.length) :
    treeOf (k + 1) L = node (treeOf k (L.take (2 ^ k))) (treeOf k (L.drop (2 ^ k))) :=
  if_neg (not_le.mpr h)

lemma perfect_treeOf (k : ℕ) (L : List α) : (treeOf k L).Perfect k := by
  induction k generalizing L with
  | zero => trivial
  | succ k ih =>
    unfold treeOf
    split_ifs
    · exact ⟨ih L, ih L⟩
    · exact ⟨ih _, ih _⟩

lemma mem_of_mem_leaves (hL : L ≠ []) {x : α} (hx : x ∈ (treeOf k L).leaves) : x ∈ L := by
  induction k generalizing L with
  | zero =>
    cases L with
    | nil => exact absurd rfl hL
    | cons y L =>
      rw [List.mem_singleton.mp hx]
      exact List.mem_cons_self
  | succ k ih =>
    unfold treeOf at hx
    split_ifs at hx with hlen
    · rcases List.mem_append.mp hx with hx | hx <;> exact ih hL hx
    · rcases List.mem_append.mp hx with hx | hx
      · refine List.mem_of_mem_take (ih ?_ hx)
        have := Nat.two_pow_pos k
        simp [hL]
      · refine List.mem_of_mem_drop (ih ?_ hx)
        simpa using hlen

lemma eq_of_treeOf_eq (hL : 0 < L.length) (hk : L.length ≤ 2 ^ k) (hlen : L.length = L'.length)
    (heq : treeOf k L = treeOf k L') : L = L' := by
  induction k generalizing L L' with
  | zero =>
    obtain ⟨x, rfl⟩ := List.length_eq_one_iff.mp (show L.length = 1 by omega)
    obtain ⟨y, rfl⟩ := List.length_eq_one_iff.mp hlen.symm
    injection heq with heq
    exact congrArg (fun z => [z]) heq
  | succ k ih =>
    rcases le_or_gt L.length (2 ^ k) with hle | hlt
    · rw [treeOf_of_le hle, treeOf_of_le (hlen ▸ hle)] at heq
      injection heq with heq
      exact ih hL hle hlen heq
    · rw [treeOf_of_lt hlt, treeOf_of_lt (hlen ▸ hlt)] at heq
      injection heq with hl hr
      have hpos := Nat.two_pow_pos k
      rw [pow_succ] at hk
      have htake := ih (by rw [List.length_take]; omega) (List.length_take_le _ _)
        (by rw [List.length_take, List.length_take, hlen]) hl
      have hdrop := ih (by rw [List.length_drop]; omega) (by rw [List.length_drop]; omega)
        (by rw [List.length_drop, List.length_drop, hlen]) hr
      rw [← List.take_append_drop (2 ^ k) L, htake, hdrop, List.take_append_drop]

variable (hash)

/-- Two complete halves of a node have the same hash. -/
def Repeats : ℕ → List α → Prop
  | 0, _ => False
  | k + 1, L =>
    if L.length ≤ 2 ^ k then Repeats k L
    else Repeats k (L.take (2 ^ k)) ∨ Repeats k (L.drop (2 ^ k)) ∨
      (L.length = 2 ^ (k + 1) ∧
        (treeOf k (L.take (2 ^ k))).value hash = (treeOf k (L.drop (2 ^ k))).value hash)

/-- **Repetition.** Of two lists with the same tree the longer one repeats itself. -/
theorem repeats_of_treeOf_eq (hL' : 0 < L'.length) (hlt : L'.length < L.length)
    (hk : L.length ≤ 2 ^ k) (heq : treeOf k L = treeOf k L') : Repeats hash k L := by
  induction k generalizing L L' with
  | zero => omega
  | succ k ih =>
    have hpow : 2 ^ (k + 1) = 2 ^ k + 2 ^ k := by ring
    unfold Repeats
    split_ifs with hle
    · -- both have a copy for the right half
      rw [treeOf_of_le hle, treeOf_of_le (by omega)] at heq
      injection heq with heq
      exact ih hL' hlt hle heq
    · rw [not_le] at hle
      have htake : (L.take (2 ^ k)).length = 2 ^ k := by
        rw [List.length_take]
        omega
      have hdrop : (L.drop (2 ^ k)).length = L.length - 2 ^ k := List.length_drop
      rcases le_or_gt L'.length (2 ^ k) with hle' | hlt'
      · -- the shorter list only fills the left half
        rw [treeOf_of_lt hle, treeOf_of_le hle'] at heq
        injection heq with hl hr
        rcases hle'.lt_or_eq with hshort | hfull
        · exact Or.inl (ih hL' (by omega) htake.le hl)
        · rcases eq_or_ne L.length (2 ^ (k + 1)) with hcomplete | hpart
          · exact Or.inr (Or.inr ⟨hcomplete, by rw [hl, hr]⟩)
          · exact Or.inl (ih (by omega) (by omega) htake.le (hl.trans hr.symm))
      · rw [treeOf_of_lt hle, treeOf_of_lt hlt'] at heq
        injection heq with hl hr
        exact Or.inr (Or.inl (ih (by rw [List.length_drop]; omega)
          (by rw [List.length_drop, hdrop]; omega) (by omega) hr))

/-! ### Nodes by level and position -/

/-- The hash of the node at position `i` of the given level. -/
def nodeAt (L : List α) (level i : ℕ) : α :=
  (treeOf level ((L.drop (i * 2 ^ level)).take (2 ^ level))).value hash

variable {hash} {level i : ℕ}

lemma nodeAt_zero (h : i < L.length) : nodeAt hash L 0 i = L[i] := by
  rw [nodeAt, pow_zero, Nat.mul_one, List.drop_eq_getElem_cons h]
  rfl

lemma nodeAt_top (h : L.length ≤ 2 ^ k) : nodeAt hash L k 0 = (treeOf k L).value hash := by
  rw [nodeAt, Nat.zero_mul, List.drop_zero, List.take_of_length_le h]

lemma nodeAt_succ (h : (2 * i + 1) * 2 ^ level < L.length) :
    nodeAt hash L (level + 1) i
      = hash (nodeAt hash L level (2 * i)) (nodeAt hash L level (2 * i + 1)) := by
  have hpow : i * 2 ^ (level + 1) = 2 * i * 2 ^ level := by ring
  have hsucc : (2 * i + 1) * 2 ^ level = 2 * i * 2 ^ level + 2 ^ level := by ring
  have hpos := Nat.two_pow_pos level
  have hlen : 2 ^ level < ((L.drop (2 * i * 2 ^ level)).take (2 ^ (level + 1))).length := by
    rw [List.length_take, List.length_drop, pow_succ]
    omega
  rw [nodeAt, hpow, treeOf_of_lt hlen, List.take_take, List.drop_take, List.drop_drop, ← hsucc,
    pow_succ, min_eq_left (by omega), show 2 ^ level * 2 - 2 ^ level = 2 ^ level by omega]
  rfl

lemma nodeAt_succ_of_le (h : L.length ≤ (2 * i + 1) * 2 ^ level) :
    nodeAt hash L (level + 1) i
      = hash (nodeAt hash L level (2 * i)) (nodeAt hash L level (2 * i)) := by
  have hpow : i * 2 ^ (level + 1) = 2 * i * 2 ^ level := by ring
  have hsucc : (2 * i + 1) * 2 ^ level = 2 * i * 2 ^ level + 2 ^ level := by ring
  have hpos := Nat.two_pow_pos level
  have hdrop : (L.drop (2 * i * 2 ^ level)).length ≤ 2 ^ level := by
    rw [List.length_drop]
    omega
  rw [nodeAt, hpow, List.take_of_length_le (by rw [pow_succ]; omega), treeOf_of_le hdrop, nodeAt,
    List.take_of_length_le hdrop]
  rfl

lemma nodeAt_take {m : ℕ} (h : (i + 1) * 2 ^ level ≤ m) :
    nodeAt hash (L.take m) level i = nodeAt hash L level i := by
  have hsucc : (i + 1) * 2 ^ level = i * 2 ^ level + 2 ^ level := by ring
  rw [nodeAt, List.drop_take, List.take_take, min_eq_left (by omega)]
  rfl

lemma nodeAt_drop {m : ℕ} :
    nodeAt hash (L.drop (m * 2 ^ level)) level i = nodeAt hash L level (m + i) := by
  rw [nodeAt, List.drop_drop, ← Nat.add_mul]
  rfl

variable (hash)

/-- Two complete nodes that are hashed together are the same. -/
def SamePair (L : List α) : Prop :=
  ∃ level i, (2 * i + 2) * 2 ^ level ≤ L.length ∧
    nodeAt hash L level (2 * i) = nodeAt hash L level (2 * i + 1)

theorem samePair_of_repeats (hk : L.length ≤ 2 ^ k) (h : Repeats hash k L) : SamePair hash L := by
  induction k generalizing L with
  | zero => cases h
  | succ k ih =>
    have hpow : 2 ^ (k + 1) = 2 ^ k + 2 ^ k := by ring
    unfold Repeats at h
    split_ifs at h with hle
    · exact ih hle h
    · rcases h with h | h | ⟨hlen, heq⟩
      · obtain ⟨level, i, hi, hsame⟩ := ih (List.length_take_le _ _) h
        rw [List.length_take, le_min_iff] at hi
        have hsucc : (2 * i + 2) * 2 ^ level = (2 * i + 1) * 2 ^ level + 2 ^ level := by ring
        have hpos := Nat.two_pow_pos level
        rw [nodeAt_take (by omega), nodeAt_take hi.1] at hsame
        exact ⟨level, i, hi.2, hsame⟩
      · obtain ⟨level, i, hi, hsame⟩ := ih (by rw [List.length_drop]; omega) h
        rw [List.length_drop] at hi
        -- the right half starts at an even position of the level
        have hlevel : level < k := by
          refine (Nat.pow_lt_pow_iff_right (le_refl 2)).mp ?_
          have hge : 2 * 2 ^ level ≤ (2 * i + 2) * 2 ^ level := Nat.mul_le_mul_right _ (by omega)
          have hpos := Nat.two_pow_pos level
          omega
        have hhalf : 2 ^ k = 2 * 2 ^ (k - level - 1) * 2 ^ level := by
          rw [mul_comm 2, ← pow_succ, ← pow_add]
          congr 1
          omega
        refine ⟨level, 2 ^ (k - level - 1) + i, ?_, ?_⟩
        · have : (2 * (2 ^ (k - level - 1) + i) + 2) * 2 ^ level
              = 2 * 2 ^ (k - level - 1) * 2 ^ level + (2 * i + 2) * 2 ^ level := by ring
          omega
        · rw [hhalf, nodeAt_drop, nodeAt_drop] at hsame
          rw [Nat.mul_add, hsame, Nat.add_assoc]
      · refine ⟨k, 0, by omega, ?_⟩
        rw [nodeAt, nodeAt, Nat.mul_zero, Nat.zero_mul, List.drop_zero, heq, Nat.zero_add,
          Nat.one_mul, List.take_of_length_le (by rw [List.length_drop]; omega)]

/-! ### Level by level -/

/-- The root of the list, level by level. -/
def levelRoot : List α → α
  | [] => default
  | [x] => x
  | x :: y :: L => levelRoot (nextLevel hash (x :: y :: L))
termination_by L => L.length
decreasing_by
  rw [length_nextLevel]
  simp only [List.length_cons]
  omega

variable {hash}

lemma value_treeOf_succ (hL : L ≠ []) :
    (treeOf (k + 1) L).value hash = (treeOf k (nextLevel hash L)).value hash := by
  induction k generalizing L with
  | zero =>
    match L with
    | [x] => rfl
    | x :: y :: L => rfl
  | succ k ih =>
    have hlen := length_nextLevel hash L
    have hpow : 2 ^ (k + 1) = 2 * 2 ^ k := by ring
    rcases le_or_gt L.length (2 ^ (k + 1)) with hle | hlt
    · have hle' : (nextLevel hash L).length ≤ 2 ^ k := by omega
      rw [treeOf_of_le hle, treeOf_of_le hle', value, value, ih hL]
    · have htake : L.take (2 ^ (k + 1)) ≠ [] := by simpa using hL
      have hdrop : L.drop (2 ^ (k + 1)) ≠ [] := by simpa using hlt
      have hlt' : 2 ^ k < (nextLevel hash L).length := by omega
      rw [treeOf_of_lt hlt, treeOf_of_lt hlt', value, value, ih htake, ih hdrop,
        hpow, nextLevel_take, nextLevel_drop]

/-- **Level by level.** The tree whose height is just enough for the list has its root at the
top. -/
theorem levelRoot_eq (hL : L ≠ []) (hk : L.length ≤ 2 ^ k) (hmin : ∀ j, L.length ≤ 2 ^ j → k ≤ j) :
    levelRoot hash L = (treeOf k L).value hash := by
  induction k generalizing L with
  | zero =>
    match L with
    | [x] =>
      rw [levelRoot]
      rfl
    | x :: y :: L => simp at hk
  | succ k ih =>
    match L with
    | [x] =>
      have := hmin 0 le_rfl
      omega
    | x :: y :: L =>
      have hlen := length_nextLevel hash (x :: y :: L)
      have hpow : 2 ^ (k + 1) = 2 * 2 ^ k := by ring
      rw [levelRoot, value_treeOf_succ hL]
      refine ih ?_ (by omega) fun j hj => ?_
      · rw [nextLevel]
        exact List.cons_ne_nil _ _
      · have hpow' : 2 ^ (j + 1) = 2 * 2 ^ j := by ring
        have := hmin (j + 1) (by omega)
        omega

/-! ### The way up from a leaf -/

variable (hash)

/-- What the node above position `p` is hashed with: its neighbour, or itself if it has none. -/
def siblingAt (L : List α) (level p : ℕ) : α :=
  if p / 2 ^ level % 2 = 1 then nodeAt hash L level (p / 2 ^ level - 1)
  else if (p / 2 ^ level + 1) * 2 ^ level < L.length then nodeAt hash L level (p / 2 ^ level + 1)
  else nodeAt hash L level (p / 2 ^ level)

variable {hash} {p : ℕ}

lemma siblingAt_of_right (h : p / 2 ^ level = 2 * i + 1) :
    siblingAt hash L level p = nodeAt hash L level (2 * i) := by
  rw [siblingAt, if_pos (by omega), h, Nat.add_sub_cancel]

lemma siblingAt_of_left (h : p / 2 ^ level = 2 * i) (hlen : (2 * i + 1) * 2 ^ level < L.length) :
    siblingAt hash L level p = nodeAt hash L level (2 * i + 1) := by
  rw [siblingAt, if_neg (by omega), h, if_pos hlen]

lemma siblingAt_of_last (h : p / 2 ^ level = 2 * i) (hlen : L.length ≤ (2 * i + 1) * 2 ^ level) :
    siblingAt hash L level p = nodeAt hash L level (2 * i) := by
  rw [siblingAt, if_neg (by omega), h, if_neg (not_lt.mpr hlen)]

lemma div_two_pow_succ (p level : ℕ) : p / 2 ^ (level + 1) = p / 2 ^ level / 2 := by
  rw [pow_succ, Nat.div_div_eq_div_mul]

lemma nodeAt_parent (hp : p < L.length) :
    nodeAt hash L (level + 1) (p / 2 ^ (level + 1)) =
      if p / 2 ^ level % 2 = 1 then
        hash (siblingAt hash L level p) (nodeAt hash L level (p / 2 ^ level))
      else hash (nodeAt hash L level (p / 2 ^ level)) (siblingAt hash L level p) := by
  have hle : p / 2 ^ level * 2 ^ level < L.length := (Nat.div_mul_le_self _ _).trans_lt hp
  split_ifs with hodd
  · obtain ⟨i, hi⟩ : ∃ i, p / 2 ^ level = 2 * i + 1 := ⟨p / 2 ^ level / 2, by omega⟩
    rw [hi] at hle
    rw [siblingAt_of_right hi, div_two_pow_succ, hi, show (2 * i + 1) / 2 = i by omega,
      nodeAt_succ hle]
  · obtain ⟨i, hi⟩ : ∃ i, p / 2 ^ level = 2 * i := ⟨p / 2 ^ level / 2, by omega⟩
    rw [div_two_pow_succ, hi, show 2 * i / 2 = i by omega]
    rcases lt_or_ge ((2 * i + 1) * 2 ^ level) L.length with hlt | hge
    · rw [siblingAt_of_left hi hlt, nodeAt_succ hlt]
    · rw [siblingAt_of_last hi hge, nodeAt_succ_of_le hge]

end TreeOf

end Agenor.Lib.Merkle
