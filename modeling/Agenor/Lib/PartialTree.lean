import Agenor.Lib.Merkle

/-!
Partial hash trees: the part of a hash tree that shows some of its leaves, in the shape that a
claimed number of leaves gives it.

A subtree that shows nothing is cut off and only its hash is kept. What is shown is a subsequence of
the leaves as long as no more leaves are claimed than there are. When more are claimed the copies at
the right of the tree can be shown as well, except where the claim ends within the last complete
subtree that the tree copies.
-/

namespace Agenor.Lib.Merkle

open BTree

/-- A subtree that is cut off, or a leaf; a node whose right half is a copy; a node with two
halves. -/
inductive PTree (α : Type*)
  | stub (x : α) (shown : Bool)
  | one (l : PTree α)
  | two (l r : PTree α)

namespace PTree

variable {α : Type*} (hash : α → α → α)

def value : PTree α → α
  | stub x _ => x
  | one l => hash l.value l.value
  | two l r => hash l.value r.value

/-- The pairs that are hashed, in this order. -/
def pairs : PTree α → List (α × α)
  | stub _ _ => []
  | one l => l.pairs ++ [(l.value hash, l.value hash)]
  | two l r => l.pairs ++ (r.pairs ++ [(l.value hash, r.value hash)])

/-- The leaves that are shown. -/
def shown : PTree α → List α
  | stub x true => [x]
  | stub _ false => []
  | one l => l.shown
  | two l r => l.shown ++ r.shown

/-- Depth first, for each node whether it is a shown leaf or a node with children. -/
def bits : PTree α → List Bool
  | stub _ b => [b]
  | one l => true :: l.bits
  | two l r => true :: (l.bits ++ r.bits)

def hashes : PTree α → List α
  | stub x _ => [x]
  | one l => l.hashes
  | two l r => l.hashes ++ r.hashes

/-- The shape of a tree of height `k` over `c` leaves. -/
def Shape : ℕ → ℕ → PTree α → Prop
  | 0, _, stub _ _ => True
  | _ + 1, _, stub _ b => b = false
  | k + 1, c, one l => c ≤ 2 ^ k ∧ l.Shape k c
  | k + 1, c, two l r => 2 ^ k < c ∧ l.Shape k (2 ^ k) ∧ r.Shape k (c - 2 ^ k)
  | 0, _, _ => False

variable {k c : ℕ} {p : PTree α}

lemma length_hashes_le (hp : p.Shape k c) (hc : 0 < c) : p.hashes.length ≤ c := by
  induction k generalizing p c with
  | zero =>
    cases p with
    | stub x b => exact hc
    | one l => cases hp
    | two l r => cases hp
  | succ k ih =>
    cases p with
    | stub x b => exact hc
    | one l => exact ih (p := l) hp.2 hc
    | two l r =>
      obtain ⟨hlt, hl, hr⟩ := hp
      have hl' := ih hl (Nat.two_pow_pos k)
      have hr' := ih hr (by omega)
      simp only [hashes, List.length_append]
      omega

lemma length_hashes_le_bits (p : PTree α) : p.hashes.length ≤ p.bits.length := by
  induction p with
  | stub x b => exact le_rfl
  | one l ih => exact Nat.le_succ_of_le ih
  | two l r ihl ihr =>
    simp only [hashes, bits, List.length_append, List.length_cons]
    omega

end PTree

open PTree

variable {α : Type*} {hash : α → α → α} {ps : List (α × α)} {t l r : BTree α} {p : PTree α}
variable {k c : ℕ}

lemma length_leaves (ht : t.Perfect k) : t.leaves.length = 2 ^ k := by
  induction k generalizing t with
  | zero =>
    cases t with
    | leaf x => rfl
    | node l r => cases ht
  | succ k ih =>
    cases t with
    | leaf x => cases ht
    | node l r =>
      rw [leaves, List.length_append, ih ht.1, ih ht.2]
      ring

lemma two_eq (hps : CollisionFree hash ps) (ht : ∀ q ∈ (node l r).pairs hash, q ∈ ps)
    {a b : PTree α} (hp : ∀ q ∈ (two a b).pairs hash, q ∈ ps)
    (heq : (two a b).value hash = (node l r).value hash) :
    a.value hash = l.value hash ∧ b.value hash = r.value hash :=
  children_eq hps ht (hp _ (by simp [PTree.pairs])) heq

lemma one_eq (hps : CollisionFree hash ps) (ht : ∀ q ∈ (node l r).pairs hash, q ∈ ps)
    {a : PTree α} (hp : ∀ q ∈ (one a).pairs hash, q ∈ ps)
    (heq : (one a).value hash = (node l r).value hash) :
    a.value hash = l.value hash ∧ a.value hash = r.value hash :=
  children_eq hps ht (hp _ (by simp [PTree.pairs])) heq

lemma mem_pairs_one {a : PTree α} {q : α × α} (hq : q ∈ a.pairs hash) :
    q ∈ (one a).pairs hash :=
  List.mem_append_left _ hq

lemma mem_pairs_two_left {a b : PTree α} {q : α × α} (hq : q ∈ a.pairs hash) :
    q ∈ (two a b).pairs hash :=
  List.mem_append_left _ hq

lemma mem_pairs_two_right {a b : PTree α} {q : α × α} (hq : q ∈ b.pairs hash) :
    q ∈ (two a b).pairs hash :=
  List.mem_append_right _ (List.mem_append_left _ hq)

/-- **What is shown** are leaves at claimed positions, in their order. -/
theorem shown_sublist (hps : CollisionFree hash ps) (ht : t.Perfect k) (hp : p.Shape k c)
    (hc : 0 < c) (htp : ∀ q ∈ t.pairs hash, q ∈ ps) (hpp : ∀ q ∈ p.pairs hash, q ∈ ps)
    (heq : p.value hash = t.value hash) : p.shown.Sublist (t.leaves.take c) := by
  induction k generalizing t p c with
  | zero =>
    cases t with
    | node l r => cases ht
    | leaf x =>
      cases p with
      | one a => cases hp
      | two a b => cases hp
      | stub y b =>
        have hy : y = x := heq
        obtain ⟨c, rfl⟩ : ∃ n, c = n + 1 := ⟨c - 1, by omega⟩
        cases b <;> simp [PTree.shown, leaves, hy]
  | succ k ih =>
    cases t with
    | leaf x => cases ht
    | node l r =>
      have hlen : l.leaves.length = 2 ^ k := length_leaves ht.1
      have hl := fun q hq => htp q (mem_pairs_left hq)
      have hr := fun q hq => htp q (mem_pairs_right hq)
      cases p with
      | stub y b =>
        rw [show b = false from hp]
        exact List.nil_sublist _
      | one a =>
        obtain ⟨hle, hshape⟩ := hp
        have hval := (one_eq hps htp hpp heq).1
        rw [leaves, List.take_append_of_le_length (hlen ▸ hle)]
        exact ih (p := a) ht.1 hshape hc hl (fun q hq => hpp q (mem_pairs_one hq)) hval
      | two a b =>
        obtain ⟨hlt, ha, hb⟩ := hp
        obtain ⟨hva, hvb⟩ := two_eq hps htp hpp heq
        have hleft := ih ht.1 ha (Nat.two_pow_pos k) hl
          (fun q hq => hpp q (mem_pairs_two_left hq)) hva
        have hright := ih ht.2 hb (by omega) hr (fun q hq => hpp q (mem_pairs_two_right hq)) hvb
        rw [leaves, List.take_append, hlen, List.take_of_length_le (hlen ▸ hlt.le)]
        rw [List.take_of_length_le hlen.le] at hleft
        exact hleft.append hright

/-- **A tree that is too high** shows nothing, as no leaf is the hash of a pair. -/
theorem shown_eq_nil_of_lt {k' : ℕ} (hps : CollisionFree hash ps) (ht : t.Perfect k)
    (hk : k < k') (hp : p.Shape k' c) (htp : ∀ q ∈ t.pairs hash, q ∈ ps)
    (hpp : ∀ q ∈ p.pairs hash, q ∈ ps) (hleaf : LeavesApart hash t.leaves ps)
    (heq : p.value hash = t.value hash) : p.shown = [] := by
  induction k generalizing t p k' c with
  | zero =>
    obtain ⟨k', rfl⟩ : ∃ n, k' = n + 1 := ⟨k' - 1, by omega⟩
    cases t with
    | node l r => cases ht
    | leaf x =>
      have hx := hleaf x (List.mem_singleton_self x)
      cases p with
      | stub y b =>
        rw [show b = false from hp]
        rfl
      | one a =>
        exact absurd heq.symm
          (hx (a.value hash, a.value hash) (hpp _ (by simp [PTree.pairs])))
      | two a b =>
        exact absurd heq.symm
          (hx (a.value hash, b.value hash) (hpp _ (by simp [PTree.pairs])))
  | succ k ih =>
    cases t with
    | leaf x => cases ht
    | node l r =>
      obtain ⟨k', rfl⟩ : ∃ n, k' = n + 1 := ⟨k' - 1, by omega⟩
      have hl : LeavesApart hash l.leaves ps := fun x hx => hleaf x (List.mem_append_left _ hx)
      have hr : LeavesApart hash r.leaves ps := fun x hx => hleaf x (List.mem_append_right _ hx)
      cases p with
      | stub y b =>
        rw [show b = false from hp]
        rfl
      | one a =>
        exact ih (p := a) ht.1 (by omega) hp.2 (fun q hq => htp q (mem_pairs_left hq))
          (fun q hq => hpp q (mem_pairs_one hq)) hl (one_eq hps htp hpp heq).1
      | two a b =>
        obtain ⟨hva, hvb⟩ := two_eq hps htp hpp heq
        have hk' : k < k' := by omega
        rw [PTree.shown, ih ht.1 hk' hp.2.1 (fun q hq => htp q (mem_pairs_left hq))
          (fun q hq => hpp q (mem_pairs_two_left hq)) hl hva,
          ih ht.2 hk' hp.2.2 (fun q hq => htp q (mem_pairs_right hq))
          (fun q hq => hpp q (mem_pairs_two_right hq)) hr hvb, List.append_nil]

/-- A partial tree of the given shape that agrees with a tree and hashes nothing else. -/
structure Agrees (hash : α → α → α) (t : BTree α) (k c : ℕ) (p : PTree α) : Prop where
  shape : p.Shape k c
  value_eq : p.value hash = t.value hash
  pairs_mem : ∀ q ∈ p.pairs hash, q ∈ t.pairs hash

lemma Agrees.stub : Agrees hash t k c (.stub (t.value hash) false) where
  shape := by cases k <;> trivial
  value_eq := rfl
  pairs_mem := fun q hq => by cases hq

lemma Agrees.one {a : PTree α} (ha : Agrees hash l k c a) (hc : c ≤ 2 ^ k)
    (hlr : l.value hash = r.value hash) : Agrees hash (node l r) (k + 1) c (.one a) where
  shape := ⟨hc, ha.shape⟩
  value_eq := by rw [PTree.value, ha.value_eq, BTree.value, hlr]
  pairs_mem q hq := by
    rcases List.mem_append.mp hq with hq | hq
    · exact mem_pairs_left (ha.pairs_mem q hq)
    · rw [List.mem_singleton.mp hq, ha.value_eq]
      nth_rewrite 2 [hlr]
      exact List.mem_cons_self

lemma Agrees.two {a b : PTree α} (ha : Agrees hash l k (2 ^ k) a)
    (hb : Agrees hash r k (c - 2 ^ k) b) (hc : 2 ^ k < c) :
    Agrees hash (node l r) (k + 1) c (.two a b) where
  shape := ⟨hc, ha.shape, hb.shape⟩
  value_eq := by rw [PTree.value, ha.value_eq, hb.value_eq, BTree.value]
  pairs_mem q hq := by
    rcases List.mem_append.mp hq with hq | hq
    · exact mem_pairs_left (ha.pairs_mem q hq)
    · rcases List.mem_append.mp hq with hq | hq
      · exact mem_pairs_right (hb.pairs_mem q hq)
      · rw [List.mem_singleton.mp hq, ha.value_eq, hb.value_eq]
        exact List.mem_cons_self

section TreeOf

variable [Inhabited α] {L : List α} {j : ℕ}

lemma prefix_leaves (hk : L.length ≤ 2 ^ k) : L <+: (treeOf k L).leaves := by
  induction k generalizing L with
  | zero =>
    cases L with
    | nil => exact List.nil_prefix
    | cons x L =>
      have hnil : L = [] := List.length_eq_zero_iff.mp (by simpa using hk)
      rw [hnil]
      exact List.prefix_rfl
  | succ k ih =>
    rcases le_or_gt L.length (2 ^ k) with hle | hlt
    · rw [treeOf_of_le hle]
      exact (ih hle).trans (List.prefix_append _ _)
    · rw [treeOf_of_lt hlt, leaves]
      have htake : L.take (2 ^ k) = (treeOf k (L.take (2 ^ k))).leaves :=
        (ih (List.length_take_le _ _)).eq_of_length
          (by rw [length_leaves (perfect_treeOf _ _), List.length_take, min_eq_left hlt.le])
      obtain ⟨rest, hrest⟩ := ih (show (L.drop (2 ^ k)).length ≤ 2 ^ k by
        rw [List.length_drop]
        rw [pow_succ] at hk
        omega)
      exact ⟨rest, by rw [← htake, ← hrest, ← List.append_assoc, List.take_append_drop]⟩

/-- A claim of at most the leaves that there are. -/
theorem shown_sublist_of_le (hps : CollisionFree hash ps) (hk : L.length ≤ 2 ^ k)
    (hp : p.Shape k c) (hc : 0 < c) (hcL : c ≤ L.length)
    (htp : ∀ q ∈ (treeOf k L).pairs hash, q ∈ ps) (hpp : ∀ q ∈ p.pairs hash, q ∈ ps)
    (heq : p.value hash = (treeOf k L).value hash) : p.shown.Sublist L := by
  have hsub := shown_sublist hps (perfect_treeOf k L) hp hc htp hpp heq
  obtain ⟨rest, hrest⟩ := prefix_leaves hk
  rw [← hrest, List.take_append_of_le_length hcL] at hsub
  exact hsub.trans (List.take_sublist _ _)

/-! ### More leaves are claimed than there are -/

lemma value_treeOf_of_lt (hash : α → α → α) (h : 2 ^ k < L.length) (hk : L.length ≤ 2 ^ (k + 1)) :
    (treeOf k (L.take (2 ^ k))).value hash = nodeAt hash L k 0 ∧
      (treeOf k (L.drop (2 ^ k))).value hash = nodeAt hash L k 1 := by
  rw [nodeAt, nodeAt, Nat.zero_mul, List.drop_zero, Nat.one_mul,
    List.take_of_length_le (l := L.drop (2 ^ k))]
  · exact ⟨rfl, rfl⟩
  · rw [List.length_drop]
    rw [pow_succ] at hk
    omega

variable (hash)

/-- The last two complete subtrees with `2 ^ j` leaves are the same. -/
def LastPair (L : List α) (j : ℕ) : Prop :=
  nodeAt hash L j (L.length / 2 ^ j - 2) = nodeAt hash L j (L.length / 2 ^ j - 1)

/-- A claim of `c` leaves that is not caught: wherever it ends within the first half of a copy, the
two halves are the same. -/
def Uncaught (L : List α) (c : ℕ) : Prop :=
  ∀ j, 2 ^ (j + 1) ∣ L.length → c ≤ L.length + 2 ^ j → LastPair hash L j

variable {hash}

lemma lastPair_drop (hk : 2 ^ k < L.length) (hj : j < k) (hdvd : 2 ^ (j + 1) ∣ L.length - 2 ^ k) :
    LastPair hash (L.drop (2 ^ k)) j ↔ LastPair hash L j := by
  have hpow : 2 ^ k = 2 ^ (k - j) * 2 ^ j := by
    rw [← pow_add]
    congr 1
    omega
  obtain ⟨m, hm⟩ := hdvd
  have hpos := Nat.two_pow_pos j
  have hm0 : m ≠ 0 := by
    rintro rfl
    omega
  have hdrop : (L.length - 2 ^ k) / 2 ^ j = 2 * m := by
    rw [hm, pow_succ, mul_assoc, Nat.mul_div_cancel_left _ hpos]
  have hlen : L.length / 2 ^ j = 2 ^ (k - j) + 2 * m := by
    rw [show L.length = 2 ^ j * (2 ^ (k - j) + 2 * m) by
      rw [Nat.mul_add, ← mul_assoc, ← pow_succ, ← hm, mul_comm, ← hpow]
      omega, Nat.mul_div_cancel_left _ hpos]
  rw [LastPair, LastPair, List.length_drop, hdrop, hlen, hpow, nodeAt_drop, nodeAt_drop,
    Nat.add_sub_assoc (by omega), Nat.add_sub_assoc (by omega)]

lemma lastPair_top (hlen : L.length = 2 ^ (k + 1)) :
    LastPair hash L k ↔
      (treeOf k (L.take (2 ^ k))).value hash = (treeOf k (L.drop (2 ^ k))).value hash := by
  have hpos := Nat.two_pow_pos k
  have hdiv : L.length / 2 ^ k = 2 := by rw [hlen, pow_succ, Nat.mul_div_cancel_left _ hpos]
  obtain ⟨hl, hr⟩ := value_treeOf_of_lt hash (show 2 ^ k < L.length by
    rw [hlen, pow_succ]
    omega) hlen.le
  rw [LastPair, hdiv, hl, hr]

lemma lt_of_dvd_of_lt {n j k : ℕ} (hdvd : 2 ^ (j + 1) ∣ n) (hn : 0 < n) (hlt : n < 2 ^ (k + 1)) :
    j < k := by
  have hle := Nat.le_of_dvd hn hdvd
  have := (Nat.pow_lt_pow_iff_right (le_refl 2)).mp (lt_of_le_of_lt hle hlt)
  omega

lemma le_sub_of_dvd {n j k : ℕ} (hj : j < k) (hdvd : 2 ^ (j + 1) ∣ n) (hlt : n < 2 ^ k) :
    2 ^ (j + 1) ≤ 2 ^ k - n :=
  Nat.le_of_dvd (Nat.sub_pos_of_lt hlt) (Nat.dvd_sub (pow_dvd_pow 2 hj) hdvd)

lemma shown_eq_nil (hps : CollisionFree hash ps) (hlen : L.length = 2 ^ k) (hj : j < k)
    (hpair : ¬ LastPair hash L j) (hp : p.Shape k c) (hc : c ≤ 2 ^ j)
    (htp : ∀ q ∈ (treeOf k L).pairs hash, q ∈ ps) (hpp : ∀ q ∈ p.pairs hash, q ∈ ps)
    (heq : p.value hash = (treeOf k L).value hash) : p.shown = [] := by
  induction k generalizing L p with
  | zero => omega
  | succ k ih =>
    have hpos := Nat.two_pow_pos k
    have hlt : 2 ^ k < L.length := by
      rw [hlen, pow_succ]
      omega
    rw [treeOf_of_lt hlt] at htp heq
    cases p with
    | stub y b =>
      rw [show b = false from hp]
      rfl
    | two a b =>
      have := Nat.pow_le_pow_right two_pos (Nat.le_of_lt_succ hj)
      have := hp.1
      omega
    | one a =>
      obtain ⟨hl, hr⟩ := one_eq hps htp hpp heq
      rcases (Nat.le_of_lt_succ hj).eq_or_lt with rfl | hlt'
      · exact absurd ((lastPair_top hlen).mpr (hl.symm.trans hr)) hpair
      · have hdvd : 2 ^ (j + 1) ∣ L.length - 2 ^ k := by
          rw [hlen, pow_succ 2 k, mul_two, Nat.add_sub_cancel]
          exact pow_dvd_pow 2 hlt'
        exact ih (L := L.drop (2 ^ k)) (p := a)
          (by rw [List.length_drop, hlen, pow_succ, mul_two, Nat.add_sub_cancel]) hlt'
          (by rwa [lastPair_drop hlt hlt' hdvd]) hp.2 (fun q hq => htp q (mem_pairs_right hq))
          (fun q hq => hpp q (mem_pairs_one hq)) hr

/-- **A claim that is caught.** -/
theorem shown_sublist_of_caught (hps : CollisionFree hash ps) (hL : 0 < L.length)
    (hk : c ≤ 2 ^ k) (hLc : L.length < c) (hdvd : 2 ^ (j + 1) ∣ L.length)
    (hcj : c ≤ L.length + 2 ^ j) (hpair : ¬ LastPair hash L j) (hp : p.Shape k c)
    (htp : ∀ q ∈ (treeOf k L).pairs hash, q ∈ ps) (hpp : ∀ q ∈ p.pairs hash, q ∈ ps)
    (heq : p.value hash = (treeOf k L).value hash) : p.shown.Sublist L := by
  induction k generalizing L p c with
  | zero => omega
  | succ k ih =>
    have hpos := Nat.two_pow_pos k
    have hj : j < k := lt_of_dvd_of_lt hdvd hL (by omega)
    cases p with
    | stub y b =>
      rw [show b = false from hp]
      exact List.nil_sublist _
    | one a =>
      obtain ⟨hle, hshape⟩ := hp
      rw [treeOf_of_le (by omega)] at htp heq
      exact ih (p := a) hL hle hLc hdvd hcj hpair hshape (fun q hq => htp q (mem_pairs_left hq))
        (fun q hq => hpp q (mem_pairs_one hq)) (one_eq hps htp hpp heq).1
    | two a b =>
      obtain ⟨hlt, ha, hb⟩ := hp
      rcases lt_or_ge (2 ^ k) L.length with hright | hleft
      · -- the left half is complete
        rw [treeOf_of_lt hright] at htp heq
        obtain ⟨hva, hvb⟩ := two_eq hps htp hpp heq
        have hlen : (L.drop (2 ^ k)).length = L.length - 2 ^ k := List.length_drop
        have hdvd' : 2 ^ (j + 1) ∣ L.length - 2 ^ k := Nat.dvd_sub hdvd (pow_dvd_pow 2 hj)
        have hsubl : a.shown.Sublist (L.take (2 ^ k)) :=
          shown_sublist_of_le hps (List.length_take_le _ _) ha hpos
            (by rw [List.length_take]; omega) (fun q hq => htp q (mem_pairs_left hq))
            (fun q hq => hpp q (mem_pairs_two_left hq)) hva
        have hsubr := ih (L := L.drop (2 ^ k)) (p := b) (by omega)
          (by rw [pow_succ] at hk; omega) (by omega) (hlen ▸ hdvd') (by omega)
          (by rwa [lastPair_drop hright hj hdvd']) hb (fun q hq => htp q (mem_pairs_right hq))
          (fun q hq => hpp q (mem_pairs_two_right hq)) hvb
        rw [← List.take_append_drop (2 ^ k) L]
        exact hsubl.append hsubr
      · -- the claim starts in the copy, so that the list is complete
        rw [treeOf_of_le hleft] at htp heq
        obtain ⟨hva, hvb⟩ := two_eq hps htp hpp heq
        have hlen : L.length = 2 ^ k := by
          by_contra hne
          have hroom := le_sub_of_dvd hj hdvd (lt_of_le_of_ne hleft hne)
          have := Nat.two_pow_pos j
          rw [pow_succ] at hroom
          omega
        have hnil : b.shown = [] := shown_eq_nil hps hlen hj hpair hb (by omega)
          (fun q hq => htp q (mem_pairs_right hq)) (fun q hq => hpp q (mem_pairs_two_right hq)) hvb
        rw [PTree.shown, hnil, List.append_nil]
        exact shown_sublist_of_le hps hleft ha hpos hlen.ge
          (fun q hq => htp q (mem_pairs_left hq)) (fun q hq => hpp q (mem_pairs_two_left hq)) hva

/-! ### Trees that show more than they should -/

lemma exists_agrees_all (hash : α → α → α) (hL : 0 < L.length) (hLc : L.length ≤ c)
    (hc : c ≤ 2 ^ k) :
    ∃ p, Agrees hash (treeOf k L) k c p ∧ L.length ≤ p.shown.length := by
  induction k generalizing L c with
  | zero =>
    refine ⟨.stub (L.headD default) true, ⟨trivial, rfl, fun q hq => by cases hq⟩, ?_⟩
    exact hLc.trans hc
  | succ k ih =>
    have hpos := Nat.two_pow_pos k
    have hpow : 2 ^ (k + 1) = 2 ^ k + 2 ^ k := by ring
    rcases le_or_gt L.length (2 ^ k) with hle | hlt
    · rw [treeOf_of_le hle]
      rcases le_or_gt c (2 ^ k) with hck | hck
      · obtain ⟨a, ha, hshown⟩ := ih hL hLc hck
        exact ⟨.one a, ha.one hck rfl, hshown⟩
      · obtain ⟨a, ha, hshown⟩ := ih hL hle le_rfl
        refine ⟨.two a (.stub _ false), ha.two .stub hck, ?_⟩
        rwa [PTree.shown, PTree.shown, List.append_nil]
    · rw [treeOf_of_lt hlt]
      have htake : (L.take (2 ^ k)).length = 2 ^ k := by
        rw [List.length_take]
        omega
      have hdrop : (L.drop (2 ^ k)).length = L.length - 2 ^ k := List.length_drop
      obtain ⟨a, ha, hshown⟩ := ih (L := L.take (2 ^ k)) (by omega) htake.le le_rfl
      obtain ⟨b, hb, hshown'⟩ := ih (L := L.drop (2 ^ k)) (c := c - 2 ^ k) (by omega) (by omega)
        (by omega)
      refine ⟨.two a b, ha.two hb (by omega), ?_⟩
      rw [PTree.shown, List.length_append]
      omega

lemma exists_agrees_copy (hash : α → α → α) (hlen : L.length = 2 ^ k) (hc : c ≤ 2 ^ k)
    (hsame : ∀ j < k, c ≤ 2 ^ j → LastPair hash L j) :
    ∃ p, Agrees hash (treeOf k L) k c p ∧ 0 < p.shown.length := by
  induction k generalizing L c with
  | zero => exact ⟨.stub (L.headD default) true, ⟨trivial, rfl, fun q hq => by cases hq⟩, one_pos⟩
  | succ k ih =>
    have hpos := Nat.two_pow_pos k
    have hpow : 2 ^ (k + 1) = 2 ^ k + 2 ^ k := by ring
    have hlt : 2 ^ k < L.length := by omega
    have htake : (L.take (2 ^ k)).length = 2 ^ k := by
      rw [List.length_take]
      omega
    rw [treeOf_of_lt hlt]
    rcases le_or_gt c (2 ^ k) with hck | hck
    · -- the halves are the same
      have htop := (lastPair_top hlen).mp (hsame k (Nat.lt_succ_self k) hck)
      have hdrop : (L.drop (2 ^ k)).length = 2 ^ k := by
        rw [List.length_drop]
        omega
      obtain ⟨a, ha, hshown⟩ := ih (L := L.drop (2 ^ k)) hdrop hck fun j hj hcj =>
        (lastPair_drop hlt hj (by
          rw [hlen, hpow, Nat.add_sub_cancel]
          exact pow_dvd_pow 2 hj)).mpr (hsame j (by omega) hcj)
      refine ⟨.one a, ⟨⟨hck, ha.shape⟩, ?_, fun q hq => ?_⟩, hshown⟩
      · rw [PTree.value, ha.value_eq, BTree.value, htop]
      · rcases List.mem_append.mp hq with hq | hq
        · exact mem_pairs_right (ha.pairs_mem q hq)
        · rw [List.mem_singleton.mp hq, ha.value_eq]
          nth_rewrite 1 [← htop]
          exact List.mem_cons_self
    · obtain ⟨a, ha, hshown⟩ := ih (L := L.take (2 ^ k)) (c := 2 ^ k) htake le_rfl fun j hj hcj =>
        absurd ((Nat.pow_le_pow_iff_right (le_refl 2)).mp hcj) (by omega)
      refine ⟨.two a (.stub _ false), ha.two .stub hck, ?_⟩
      rwa [PTree.shown, PTree.shown, List.append_nil]

/-- **A claim that is not caught.** More leaves than there are can be shown. -/
theorem exists_agrees_more (hash : α → α → α) (hL : 0 < L.length) (hLc : L.length < c)
    (hc : c ≤ 2 ^ k) (hun : Uncaught hash L c) :
    ∃ p, Agrees hash (treeOf k L) k c p ∧ L.length < p.shown.length := by
  induction k generalizing L c with
  | zero =>
    rw [pow_zero] at hc
    omega
  | succ k ih =>
    have hpos := Nat.two_pow_pos k
    have hpow : 2 ^ (k + 1) = 2 ^ k + 2 ^ k := by ring
    rcases lt_trichotomy L.length (2 ^ k) with hlt | hlen | hgt
    · rw [treeOf_of_le hlt.le]
      rcases le_or_gt c (2 ^ k) with hck | hck
      · obtain ⟨a, ha, hshown⟩ := ih hL hLc hck hun
        exact ⟨.one a, ha.one hck rfl, hshown⟩
      · -- the left half is claimed to be complete
        obtain ⟨a, ha, hshown⟩ := ih (c := 2 ^ k) hL hlt le_rfl fun j hdvd hcj =>
          hun j hdvd (by
            exfalso
            have hj : j < k := lt_of_dvd_of_lt hdvd hL (by omega)
            have hroom := le_sub_of_dvd hj hdvd hlt
            have := Nat.two_pow_pos j
            rw [pow_succ] at hroom
            omega)
        refine ⟨.two a (.stub _ false), ha.two .stub hck, ?_⟩
        rwa [PTree.shown, PTree.shown, List.append_nil]
    · rw [treeOf_of_le hlen.le]
      obtain ⟨a, ha, hshown⟩ := exists_agrees_all hash hL hlen.le le_rfl
      obtain ⟨b, hb, hshown'⟩ := exists_agrees_copy hash (c := c - 2 ^ k) hlen (by omega)
        fun j hj hcj => hun j (by rw [hlen]; exact pow_dvd_pow 2 hj) (by omega)
      refine ⟨.two a b, ha.two hb (by omega), ?_⟩
      rw [PTree.shown, List.length_append]
      omega
    · rw [treeOf_of_lt hgt]
      have htake : (L.take (2 ^ k)).length = 2 ^ k := by
        rw [List.length_take]
        omega
      have hdrop : (L.drop (2 ^ k)).length = L.length - 2 ^ k := List.length_drop
      obtain ⟨a, ha, hshown⟩ := exists_agrees_all hash (L := L.take (2 ^ k))
        (by omega) htake.le le_rfl
      obtain ⟨b, hb, hshown'⟩ := ih (L := L.drop (2 ^ k)) (c := c - 2 ^ k) (by omega) (by omega)
        (by omega) fun j hdvd hcj => by
          rw [hdrop] at hdvd hcj
          have hj : j < k := lt_of_dvd_of_lt hdvd (by omega) (by omega)
          refine (lastPair_drop hgt hj hdvd).mpr (hun j ?_ (by omega))
          rw [← Nat.sub_add_cancel hgt.le]
          exact Nat.dvd_add hdvd (pow_dvd_pow 2 hj)
      refine ⟨.two a b, ha.two hb (by omega), ?_⟩
      rw [PTree.shown, List.length_append]
      omega

end TreeOf

/-- **A tree that is too low** can show the hash of a pair. -/
theorem exists_agrees_inner (hash : α → α → α) {k' : ℕ} (ht : t.Perfect k) (hk : k' < k)
    (hc : 2 ^ k' < 2 * c) :
    ∃ p, Agrees hash t k' c p ∧ ∃ q ∈ t.pairs hash, hash q.1 q.2 ∈ p.shown := by
  induction k' generalizing t k c with
  | zero =>
    obtain ⟨k, rfl⟩ : ∃ n, k = n + 1 := ⟨k - 1, by omega⟩
    cases t with
    | leaf x => cases ht
    | node l r =>
      refine ⟨.stub ((node l r).value hash) true, ⟨trivial, rfl, fun q hq => by cases hq⟩,
        _, List.mem_cons_self, ?_⟩
      exact List.mem_singleton_self _
  | succ k' ih =>
    obtain ⟨k, rfl⟩ : ∃ n, k = n + 1 := ⟨k - 1, by omega⟩
    cases t with
    | leaf x => cases ht
    | node l r =>
      have hpos := Nat.two_pow_pos k'
      obtain ⟨a, ha, q, hq, hshown⟩ := ih (c := 2 ^ k') ht.1 (Nat.lt_of_succ_lt_succ hk) (by omega)
      refine ⟨.two a (.stub _ false), ha.two .stub ?_, q, mem_pairs_left hq, ?_⟩
      · rw [pow_succ] at hc
        omega
      · exact List.mem_append_left _ hshown

end Agenor.Lib.Merkle
