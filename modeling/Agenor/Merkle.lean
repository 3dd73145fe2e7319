import Agenor.CheckBlock
import Agenor.Lib.Merkle
import Mathlib.Data.Nat.Log
import Mathlib.Data.Nat.Bitwise

/-!
The merkle root of a block (`consensus/merkle.cpp`) and the mutations it reports.

`MerkleComputation` runs in constant space: after `count` leaves, `inner` holds the hashes of the
complete subtrees that the set bits of `count` stand for. A second phase, the sweep, goes up the
rightmost branch and copies what is missing there. The first phase notes when it hashes a value with
itself; the second one never does.

Counts and levels are numbers here, while the code is limited to `2 ^ 32` leaves. The hash of a pair
is a parameter.
-/

namespace Agenor

open Lib.Merkle Lib.Fallible

/-- What the first phase of `MerkleComputation` carries along. -/
structure MerkleState where
  count : ℕ
  inner : ℕ → Uint256
  mutated : Bool

namespace MerkleState

def init : MerkleState where
  count := 0
  inner := fun _ => 0
  mutated := false

end MerkleState

section

variable (hash : Uint256 → Uint256 → Uint256)

/-- One step for each of the lower bits in `count` that are zero. -/
def mergeUp (inner : ℕ → Uint256) (count : ℕ) :
    ℕ → ℕ → Uint256 → Bool → ℕ × Uint256 × Bool
  | 0, level, h, mutated => (level, h, mutated)
  | fuel + 1, level, h, mutated =>
    if count.testBit level then (level, h, mutated)
    else mergeUp inner count fuel (level + 1) (hash (inner level) h)
      (mutated || inner level == h)

def MerkleState.addLeaf (st : MerkleState) (leaf : Uint256) : MerkleState :=
  let count := st.count + 1
  let (level, h, mutated) := mergeUp hash st.inner count count 0 leaf st.mutated
  { count, inner := Function.update st.inner level h, mutated }

/-- The lowest bit of `count` that is set. -/
def lowestBit (count : ℕ) : ℕ → ℕ → ℕ
  | 0, level => level
  | fuel + 1, level => if count.testBit level then level else lowestBit count fuel (level + 1)

/-- The sweep over the rightmost branch. What `mergeUp` says about equal hashes is not used here. -/
def sweep (inner : ℕ → Uint256) : ℕ → ℕ → ℕ → Uint256 → Uint256
  | 0, _, _, h => h
  | fuel + 1, count, level, h =>
    if count = 2 ^ level then h
    else
      let count' := count + 2 ^ level
      let (level', h', _) := mergeUp hash inner count' count' (level + 1) (hash h h) false
      sweep inner fuel count' level' h'

/-- `ComputeMerkleRoot`: the root and whether the list has been mutated. -/
def computeMerkleRoot (leaves : List Uint256) : Uint256 × Bool :=
  if leaves.length = 0 then (0, false)
  else
    let st := leaves.foldl (MerkleState.addLeaf hash) .init
    let level := lowestBit st.count st.count 0
    (sweep hash st.inner st.count st.count level (st.inner level), st.mutated)

def blockMerkleRoot (vtx : List CTransaction) : Uint256 × Bool :=
  computeMerkleRoot hash (vtx.map (·.hash))

end

variable {hash : Uint256 → Uint256 → Uint256} {L L' : List Uint256}
variable {inner : ℕ → Uint256} {count level : ℕ} {h : Uint256}

/-! ### The first phase -/

lemma testBit_iff {n i : ℕ} : n.testBit i = true ↔ n / 2 ^ i % 2 = 1 := by
  rw [Nat.testBit_eq_decide_div_mod_eq, decide_eq_true_iff]

lemma lt_two_pow_add (n k : ℕ) : n < 2 ^ (k + n) :=
  lt_of_lt_of_le Nat.lt_two_pow_self (Nat.pow_le_pow_right Nat.zero_lt_two (Nat.le_add_left n k))

lemma two_pow_succ_dvd (hdvd : 2 ^ level ∣ count) (hbit : count.testBit level = false) :
    2 ^ (level + 1) ∣ count := by
  obtain ⟨m, hm⟩ := hdvd
  have hodd : ¬ count / 2 ^ level % 2 = 1 := by
    rw [← testBit_iff, hbit]
    exact Bool.false_ne_true
  rw [hm, Nat.mul_div_cancel_left _ (Nat.two_pow_pos level)] at hodd
  refine ⟨m / 2, ?_⟩
  rw [hm, pow_succ, mul_assoc, Nat.mul_div_cancel' (by omega)]

lemma le_of_testBit {m : ℕ} (hdvd : 2 ^ level ∣ count) (hbit : count.testBit m = true) :
    level ≤ m := by
  by_contra hlt
  obtain ⟨k, hk⟩ := (pow_dvd_pow 2 (Nat.succ_le_of_lt (not_le.mp hlt))).trans hdvd
  rw [testBit_iff, hk, pow_succ, mul_assoc, Nat.mul_div_cancel_left _ (Nat.two_pow_pos m)] at hbit
  omega

lemma div_add_one_of_le {before : ℕ} (hdvd : 2 ^ level ∣ count) (hlt : before < count)
    (hle : count ≤ before + 2 ^ level) : before / 2 ^ level + 1 = count / 2 ^ level := by
  obtain ⟨m, rfl⟩ := hdvd
  have hpos := Nat.two_pow_pos level
  obtain ⟨k, rfl⟩ : ∃ k, m = k + 1 := by
    refine ⟨m - 1, (Nat.succ_pred_eq_of_pos (Nat.pos_of_ne_zero ?_)).symm⟩
    rintro rfl
    omega
  have hsucc : 2 ^ level * (k + 1) = k * 2 ^ level + 2 ^ level := by ring
  rw [Nat.mul_div_cancel_left _ hpos, Nat.add_right_cancel_iff]
  exact Nat.div_eq_of_lt_le (by omega) (by rw [Nat.succ_mul]; omega)

lemma succ_div_of_lt {m : ℕ} (hbit : (count + 1).testBit level = true) (hlt : level < m) :
    (count + 1) / 2 ^ m = count / 2 ^ m := by
  have hndvd : ¬ 2 ^ m ∣ count + 1 := fun hdvd => absurd (le_of_testBit hdvd hbit) (not_le.mpr hlt)
  rw [Nat.succ_div, if_neg hndvd, Nat.add_zero]

/-- `inner` after `count` leaves. -/
def InnerOf (hash : Uint256 → Uint256 → Uint256) (L : List Uint256) (count : ℕ)
    (inner : ℕ → Uint256) : Prop :=
  ∀ level, count.testBit level = true → inner level = nodeAt hash L level (count / 2 ^ level - 1)

/-- What is stored at a level where `count` has a zero bit, `count` being the next multiple of the
size of this level after the leaves so far. -/
lemma InnerOf.left {before : ℕ} (hinner : InnerOf hash L before inner) (hdvd : 2 ^ level ∣ count)
    (hlt : before < count) (hle : count ≤ before + 2 ^ level)
    (hbit : count.testBit level = false) :
    ∃ i, count = (2 * i + 2) * 2 ^ level ∧ before / 2 ^ level = 2 * i + 1 ∧
      inner level = nodeAt hash L level (2 * i) := by
  have hbefore := div_add_one_of_le hdvd hlt hle
  have heven : ¬ count / 2 ^ level % 2 = 1 := by
    rw [← testBit_iff, hbit]
    exact Bool.false_ne_true
  rw [← hbefore] at heven
  obtain ⟨i, hi⟩ : ∃ i, before / 2 ^ level = 2 * i + 1 := ⟨before / 2 ^ level / 2, by omega⟩
  refine ⟨i, ?_, hi, ?_⟩
  · rw [show 2 * i + 2 = count / 2 ^ level by omega, Nat.div_mul_cancel hdvd]
  · rw [hinner level (testBit_iff.mpr (by omega)), hi, Nat.add_sub_cancel]

lemma nodeAt_up {i : ℕ} (hcount : count = (2 * i + 2) * 2 ^ level)
    (hlen : (2 * i + 1) * 2 ^ level < L.length)
    (hh : h = nodeAt hash L level (count / 2 ^ level - 1)) :
    h = nodeAt hash L level (2 * i + 1) ∧ 2 ^ (level + 1) ∣ count ∧
      hash (nodeAt hash L level (2 * i)) h
        = nodeAt hash L (level + 1) (count / 2 ^ (level + 1) - 1) := by
  have hright : count / 2 ^ level - 1 = 2 * i + 1 := by
    rw [hcount, Nat.mul_div_cancel _ (Nat.two_pow_pos level)]
    omega
  have hup : count = (i + 1) * 2 ^ (level + 1) := by
    rw [hcount]
    ring
  rw [hright] at hh
  refine ⟨hh, ⟨i + 1, by rw [hup, mul_comm]⟩, ?_⟩
  rw [hup, Nat.mul_div_cancel _ (Nat.two_pow_pos _), Nat.add_sub_cancel, hh, nodeAt_succ hlen]

/-- **Merging a leaf.** The result is the last complete subtree that ends with it, and two equal
values on the way are noted. -/
lemma mergeUp_addLeaf (hinner : InnerOf hash L count inner) (hlen : count < L.length) :
    ∀ (fuel level : ℕ) (h : Uint256) (mutated : Bool), count + 1 < 2 ^ (level + fuel) →
      2 ^ level ∣ count + 1 → h = nodeAt hash L level ((count + 1) / 2 ^ level - 1) →
      ∀ {level' h' mutated'},
        mergeUp hash inner (count + 1) fuel level h mutated = (level', h', mutated') →
      2 ^ level' ∣ count + 1 ∧ (count + 1).testBit level' = true ∧
        h' = nodeAt hash L level' ((count + 1) / 2 ^ level' - 1) ∧
        (mutated = true → mutated' = true) ∧
        ∀ ℓ i, level ≤ ℓ → (2 * i + 2) * 2 ^ ℓ = count + 1 →
          nodeAt hash L ℓ (2 * i) = nodeAt hash L ℓ (2 * i + 1) → mutated' = true := by
  intro fuel
  induction fuel with
  | zero =>
    intro level h mutated hfuel hdvd
    exact absurd (Nat.le_of_dvd (Nat.succ_pos count) hdvd) (not_le.mpr hfuel)
  | succ fuel ih =>
    intro level h mutated hfuel hdvd hh level' h' mutated' hrun
    unfold mergeUp at hrun
    split_ifs at hrun with hbit
    · simp only [Prod.mk.injEq] at hrun
      obtain ⟨rfl, rfl, rfl⟩ := hrun
      refine ⟨hdvd, hbit, hh, id, fun ℓ i hℓ hpair _ => ?_⟩
      -- a bit that is set ends the merging below the pair
      exfalso
      have hdiv : 2 ^ (level + 1) ∣ count + 1 := by
        refine (pow_dvd_pow 2 (Nat.succ_le_succ hℓ)).trans ⟨i + 1, ?_⟩
        rw [← hpair, pow_succ]
        ring
      exact absurd (le_of_testBit hdiv hbit) (Nat.not_succ_le_self level)
    · rw [Bool.not_eq_true] at hbit
      have hpos := Nat.two_pow_pos level
      obtain ⟨i, hcount, -, hleft⟩ :=
        hinner.left hdvd (Nat.lt_succ_self count) (by omega) hbit
      have hlast : (2 * i + 1) * 2 ^ level < L.length := by
        have : (2 * i + 2) * 2 ^ level = (2 * i + 1) * 2 ^ level + 2 ^ level := by ring
        omega
      obtain ⟨hright, hdvd₁, hnode⟩ := nodeAt_up hcount hlast hh
      rw [← hleft] at hnode
      obtain ⟨hdvd', hbit', hh', hmut, hpairs⟩ :=
        ih (level + 1) (hash (inner level) h) (mutated || inner level == h)
          (by rw [Nat.add_right_comm]; exact hfuel) hdvd₁ hnode hrun
      refine ⟨hdvd', hbit', hh', fun hm => hmut (by rw [hm, Bool.true_or]), ?_⟩
      intro ℓ j hℓ hpair hsame
      rcases hℓ.eq_or_lt with rfl | hlt
      · have hij : j = i := by
          have := Nat.eq_of_mul_eq_mul_right hpos (hpair.trans hcount)
          omega
        subst hij
        refine hmut ?_
        rw [hleft, hright, hsame, beq_self_eq_true, Bool.or_true]
      · exact hpairs ℓ j hlt hpair hsame

/-- The state of the first phase after `count` leaves. -/
structure FirstPhase (hash : Uint256 → Uint256 → Uint256) (L : List Uint256) (count : ℕ)
    (st : MerkleState) : Prop where
  count_eq : st.count = count
  inner_of : InnerOf hash L count st.inner
  mutated_of : ∀ level i, (2 * i + 2) * 2 ^ level ≤ count →
    nodeAt hash L level (2 * i) = nodeAt hash L level (2 * i + 1) → st.mutated = true

lemma InnerOf.update (hinner : InnerOf hash L count inner) (hdvd : 2 ^ level ∣ count + 1)
    (hbit : (count + 1).testBit level = true)
    (hh : h = nodeAt hash L level ((count + 1) / 2 ^ level - 1)) :
    InnerOf hash L (count + 1) (Function.update inner level h) := by
  intro ℓ hℓ
  rcases lt_trichotomy ℓ level with hlt | rfl | hgt
  · exact absurd (le_of_testBit hdvd hℓ) (not_le.mpr hlt)
  · rw [Function.update_self, hh]
  · -- the higher bits are those of `count`
    have hdiv := succ_div_of_lt hbit hgt
    rw [Function.update_of_ne hgt.ne', hdiv]
    rw [testBit_iff, hdiv] at hℓ
    exact hinner ℓ (testBit_iff.mpr hℓ)

lemma FirstPhase.addLeaf {st : MerkleState} (hst : FirstPhase hash L count st)
    (hlen : count < L.length) : FirstPhase hash L (count + 1) (st.addLeaf hash L[count]) := by
  obtain ⟨rfl, hinner, hmut⟩ := hst
  rcases hrun : mergeUp hash st.inner (st.count + 1) (st.count + 1) 0 L[st.count] st.mutated with
    ⟨level, h, mutated⟩
  obtain ⟨hdvd, hbit, hh, hold, hnew⟩ := mergeUp_addLeaf hinner hlen _ 0 L[st.count] st.mutated
    (by rw [Nat.zero_add]; exact Nat.lt_two_pow_self) (one_dvd _)
    (by rw [pow_zero, Nat.div_one, Nat.add_sub_cancel, nodeAt_zero hlen]) hrun
  have heq : st.addLeaf hash L[st.count]
      = { count := st.count + 1, inner := Function.update st.inner level h, mutated } := by
    unfold MerkleState.addLeaf
    dsimp only
    rw [hrun]
  rw [heq]
  refine ⟨rfl, hinner.update hdvd hbit hh, fun ℓ i hle hsame => ?_⟩
  rcases hle.lt_or_eq with hlt | hlast
  · exact hold (hmut ℓ i (Nat.le_of_lt_succ hlt) hsame)
  · exact hnew ℓ i (Nat.zero_le ℓ) hlast hsame

lemma firstPhase_take (hle : count ≤ L.length) :
    FirstPhase hash L count ((L.take count).foldl (MerkleState.addLeaf hash) .init) := by
  induction count with
  | zero =>
    refine ⟨rfl, fun ℓ hℓ => ?_, fun ℓ i hi _ => ?_⟩
    · simp at hℓ
    · have := Nat.two_pow_pos ℓ
      have := Nat.mul_pos (show 0 < 2 * i + 2 by omega) this
      omega
  | succ count ih =>
    rw [List.take_succ_eq_append_getElem (Nat.lt_of_succ_le hle), List.foldl_append]
    exact (ih (Nat.le_of_succ_le hle)).addLeaf (Nat.lt_of_succ_le hle)

/-- **The first phase.** -/
theorem firstPhase_foldl (hash : Uint256 → Uint256 → Uint256) (L : List Uint256) :
    FirstPhase hash L L.length (L.foldl (MerkleState.addLeaf hash) .init) := by
  have hphase : FirstPhase hash L L.length
      ((L.take L.length).foldl (MerkleState.addLeaf hash) .init) := firstPhase_take le_rfl
  rwa [List.take_length] at hphase

/-! ### The sweep -/

lemma lowestBit_spec : ∀ (fuel level : ℕ), 0 < count → count < 2 ^ (level + fuel) →
    2 ^ level ∣ count → 2 ^ lowestBit count fuel level ∣ count ∧
      count.testBit (lowestBit count fuel level) = true := by
  intro fuel
  induction fuel with
  | zero =>
    intro level hpos hfuel hdvd
    exact absurd (Nat.le_of_dvd hpos hdvd) (not_le.mpr hfuel)
  | succ fuel ih =>
    intro level hpos hfuel hdvd
    unfold lowestBit
    split_ifs with hbit
    · exact ⟨hdvd, hbit⟩
    · rw [Bool.not_eq_true] at hbit
      exact ih (level + 1) hpos (by rw [Nat.add_right_comm]; exact hfuel)
        (two_pow_succ_dvd hdvd hbit)

/-- The rightmost node of a level, where the count is rounded up to the nodes of this level. -/
structure Rightmost (hash : Uint256 → Uint256 → Uint256) (L : List Uint256) (count level : ℕ)
    (h : Uint256) : Prop where
  dvd : 2 ^ level ∣ count
  length_le : L.length ≤ count
  lt_length : count < L.length + 2 ^ level
  value_eq : h = nodeAt hash L level (count / 2 ^ level - 1)

lemma Rightmost.mergeUp (hinner : InnerOf hash L L.length inner) (hshort : L.length < count) :
    ∀ (fuel level : ℕ) (h : Uint256) (mutated : Bool), count < 2 ^ (level + fuel) →
      Rightmost hash L count level h →
      ∀ {level' h' mutated'},
        Agenor.mergeUp hash inner count fuel level h mutated = (level', h', mutated') →
      Rightmost hash L count level' h' ∧ count.testBit level' = true ∧ level ≤ level' := by
  intro fuel
  induction fuel with
  | zero =>
    intro level h mutated hfuel hright
    exact absurd (Nat.le_of_dvd (by omega) hright.dvd) (not_le.mpr hfuel)
  | succ fuel ih =>
    intro level h mutated hfuel hright level' h' mutated' hrun
    unfold Agenor.mergeUp at hrun
    split_ifs at hrun with hbit
    · simp only [Prod.mk.injEq] at hrun
      obtain ⟨rfl, rfl, -⟩ := hrun
      exact ⟨hright, hbit, le_rfl⟩
    · obtain ⟨hdvd, hle, hlt, hh⟩ := hright
      rw [Bool.not_eq_true] at hbit
      obtain ⟨i, hcount, -, hleft⟩ := hinner.left hdvd hshort hlt.le hbit
      have hlast : (2 * i + 1) * 2 ^ level < L.length := by
        have : (2 * i + 2) * 2 ^ level = (2 * i + 1) * 2 ^ level + 2 ^ level := by ring
        omega
      obtain ⟨-, hdvd', hnode⟩ := nodeAt_up hcount hlast hh
      have hright' : Rightmost hash L count (level + 1) (hash (inner level) h) :=
        ⟨hdvd', hle, by rw [pow_succ]; omega, by rw [hleft, hnode]⟩
      obtain ⟨hres, hbit', hlevel⟩ := ih (level + 1) _ _
        (by rw [Nat.add_right_comm]; exact hfuel) hright' hrun
      exact ⟨hres, hbit', Nat.le_of_succ_le hlevel⟩

lemma two_pow_succ_dvd_add (hdvd : 2 ^ level ∣ count) (hbit : count.testBit level = true) :
    2 ^ (level + 1) ∣ count + 2 ^ level := by
  obtain ⟨m, hm⟩ := hdvd
  rw [testBit_iff, hm, Nat.mul_div_cancel_left _ (Nat.two_pow_pos level)] at hbit
  obtain ⟨i, rfl⟩ : ∃ i, m = 2 * i + 1 := ⟨m / 2, by omega⟩
  exact ⟨i + 1, by rw [hm]; ring⟩

lemma Rightmost.copy (hright : Rightmost hash L count level h)
    (hbit : count.testBit level = true) :
    Rightmost hash L (count + 2 ^ level) (level + 1) (hash h h) := by
  obtain ⟨⟨m, hm⟩, hle, hlt, hh⟩ := hright
  have hdiv : count / 2 ^ level = m := by
    rw [hm, Nat.mul_div_cancel_left _ (Nat.two_pow_pos level)]
  rw [testBit_iff, hdiv] at hbit
  obtain ⟨i, rfl⟩ : ∃ i, m = 2 * i + 1 := ⟨m / 2, by omega⟩
  have hup : count + 2 ^ level = (i + 1) * 2 ^ (level + 1) := by
    rw [hm]
    ring
  refine ⟨⟨i + 1, by rw [hup, mul_comm]⟩, by omega, by rw [pow_succ]; omega, ?_⟩
  rw [hup, Nat.mul_div_cancel _ (Nat.two_pow_pos _), Nat.add_sub_cancel, hh, hdiv,
    Nat.add_sub_cancel, nodeAt_succ_of_le]
  rw [mul_comm]
  omega

lemma add_two_pow_le {k : ℕ} (hdvd : 2 ^ level ∣ count) (hbit : count.testBit level = true)
    (hne : count ≠ 2 ^ level) (hle : count ≤ 2 ^ k) :
    level < k ∧ count + 2 ^ level ≤ 2 ^ k := by
  obtain ⟨m, rfl⟩ := hdvd
  have hpos := Nat.two_pow_pos level
  rw [testBit_iff, Nat.mul_div_cancel_left _ hpos] at hbit
  have hm : 2 ≤ m := by
    rcases Nat.lt_or_ge m 2 with hlt | hge
    · exact absurd (by rw [show m = 1 by omega, Nat.mul_one]) hne
    · exact hge
  have hlevel : level < k := by
    refine (Nat.pow_lt_pow_iff_right (le_refl 2)).mp ?_
    have := Nat.mul_le_mul_left (2 ^ level) hm
    omega
  obtain ⟨j, rfl⟩ : ∃ j, k = level + (j + 1) := ⟨k - level - 1, by omega⟩
  refine ⟨hlevel, ?_⟩
  rw [pow_add] at hle ⊢
  have hmj := Nat.le_of_mul_le_mul_left hle hpos
  -- the power of two is even and `m` is odd
  have hroom : m + 1 ≤ 2 ^ (j + 1) := by
    rw [pow_succ] at hmj ⊢
    omega
  calc 2 ^ level * m + 2 ^ level = 2 ^ level * (m + 1) := by ring
    _ ≤ 2 ^ level * 2 ^ (j + 1) := Nat.mul_le_mul_left _ hroom

lemma sweep_eq (hinner : InnerOf hash L L.length inner) {k : ℕ} (hk : L.length ≤ 2 ^ k)
    (hmin : ∀ j, L.length ≤ 2 ^ j → k ≤ j) :
    ∀ (fuel count level : ℕ) (h : Uint256), k ≤ level + fuel → count ≤ 2 ^ k →
      Rightmost hash L count level h → count.testBit level = true →
      sweep hash inner fuel count level h = (treeOf k L).value hash := by
  have hend : ∀ {level h}, Rightmost hash L (2 ^ level) level h → 2 ^ level ≤ 2 ^ k →
      h = (treeOf k L).value hash := by
    intro level h hright hle
    have hlevel : level = k := le_antisymm
      ((Nat.pow_le_pow_iff_right (le_refl 2)).mp hle) (hmin level hright.length_le)
    subst hlevel
    rw [hright.value_eq, Nat.div_self (Nat.two_pow_pos level), nodeAt_top hk]
  intro fuel
  induction fuel with
  | zero =>
    intro count level h hfuel hle hright hbit
    have hcount : count = 2 ^ level := by
      by_contra hne
      exact absurd (add_two_pow_le hright.dvd hbit hne hle).1 (by omega)
    subst hcount
    exact hend hright hle
  | succ fuel ih =>
    intro count level h hfuel hle hright hbit
    unfold sweep
    split_ifs with hcount
    · subst hcount
      exact hend hright hle
    · obtain ⟨hlevel, hroom⟩ := add_two_pow_le hright.dvd hbit hcount hle
      have hpos := Nat.two_pow_pos level
      have hlen := hright.length_le
      rcases hrun : mergeUp hash inner (count + 2 ^ level) (count + 2 ^ level) (level + 1)
        (hash h h) false with ⟨level', h', mutated'⟩
      obtain ⟨hright', hbit', hle'⟩ := Rightmost.mergeUp hinner (by omega) _ (level + 1) _ false
        (lt_two_pow_add _ _) (hright.copy hbit) hrun
      dsimp only
      rw [hrun]
      exact ih _ level' h' (by omega) hroom hright' hbit'

def treeHeight (n : ℕ) : ℕ := Nat.clog 2 n

lemma le_two_pow_treeHeight (n : ℕ) : n ≤ 2 ^ treeHeight n := Nat.le_pow_clog one_lt_two n

lemma treeHeight_le {n k : ℕ} (h : n ≤ 2 ^ k) : treeHeight n ≤ k := Nat.clog_le_of_le_pow h

lemma two_pow_treeHeight_lt {n : ℕ} (hn : 0 < n) : 2 ^ treeHeight n < 2 * n := by
  rcases hk : treeHeight n with _ | m
  · rw [pow_zero]
    omega
  · by_contra hle
    rw [pow_succ] at hle
    have := treeHeight_le (show n ≤ 2 ^ m by omega)
    omega

/-- **The root** is the top of the tree of the leaves. -/
theorem computeMerkleRoot_fst (hL : L ≠ []) :
    (computeMerkleRoot hash L).1 = (treeOf (treeHeight L.length) L).value hash := by
  have hlen : 0 < L.length := List.length_pos_iff.mpr hL
  obtain ⟨hcount, hinner, -⟩ := firstPhase_foldl hash L
  unfold computeMerkleRoot
  rw [if_neg hlen.ne']
  dsimp only
  rw [hcount]
  obtain ⟨hdvd, hbit⟩ := lowestBit_spec L.length 0 hlen
    (by rw [Nat.zero_add]; exact Nat.lt_two_pow_self) (one_dvd _)
  refine sweep_eq hinner (le_two_pow_treeHeight _) (fun j hj => treeHeight_le hj) _ _ _ _ ?_
    (le_two_pow_treeHeight _) ⟨hdvd, le_rfl, ?_, hinner _ hbit⟩ hbit
  · exact (treeHeight_le Nat.lt_two_pow_self.le).trans (Nat.le_add_left _ _)
  · exact Nat.lt_add_of_pos_right (Nat.two_pow_pos _)

/-- The first phase sees every pair of complete nodes that are the same. -/
theorem computeMerkleRoot_snd_of_samePair (hsame : SamePair hash L) :
    (computeMerkleRoot hash L).2 = true := by
  obtain ⟨level, i, hle, heq⟩ := hsame
  have hlen : L.length ≠ 0 := by
    have := Nat.mul_pos (show 0 < 2 * i + 2 by omega) (Nat.two_pow_pos level)
    omega
  unfold computeMerkleRoot
  rw [if_neg hlen]
  exact (firstPhase_foldl hash L).mutated_of level i hle heq

/-! ### Lists with the same root -/

/-- The pairs that are hashed for the root. -/
def hashedPairs (hash : Uint256 → Uint256 → Uint256) (L : List Uint256) :
    List (Uint256 × Uint256) :=
  (treeOf (treeHeight L.length) L).pairs hash

/-- What the hash is good for: it is injective on the pairs that are hashed for the two roots, and
none of the leaves is one of these hashes. -/
structure HashSound (hash : Uint256 → Uint256 → Uint256) (L L' : List Uint256) : Prop where
  collisionFree : CollisionFree hash (hashedPairs hash L ++ hashedPairs hash L')
  leavesApart : LeavesApart hash (L ++ L') (hashedPairs hash L ++ hashedPairs hash L')

instance (hash : Uint256 → Uint256 → Uint256) (L L' : List Uint256) :
    Decidable (HashSound hash L L') :=
  decidable_of_iff
    (CollisionFree hash (hashedPairs hash L ++ hashedPairs hash L') ∧
      LeavesApart hash (L ++ L') (hashedPairs hash L ++ hashedPairs hash L'))
    ⟨fun h => ⟨h.1, h.2⟩, fun h => ⟨h.collisionFree, h.leavesApart⟩⟩

lemma HashSound.symm (hs : HashSound hash L L') : HashSound hash L' L where
  collisionFree p hp q hq := hs.collisionFree p (List.mem_append.mpr (List.mem_append.mp hp).symm) q
    (List.mem_append.mpr (List.mem_append.mp hq).symm)
  leavesApart x hx p hp := hs.leavesApart x (List.mem_append.mpr (List.mem_append.mp hx).symm) p
    (List.mem_append.mpr (List.mem_append.mp hp).symm)

lemma HashSound.treeHeight_le (hs : HashSound hash L L') (hL : L ≠ [])
    (hroot : (treeOf (treeHeight L.length) L).value hash
      = (treeOf (treeHeight L'.length) L').value hash) :
    treeHeight L'.length ≤ treeHeight L.length := by
  by_contra hlt
  exact value_ne_of_lt hs.collisionFree (perfect_treeOf _ L) (perfect_treeOf _ L')
    (not_le.mp hlt) (fun p hp => List.mem_append_left _ hp) (fun p hp => List.mem_append_right _ hp)
    (fun x hx => hs.leavesApart x (List.mem_append_left _ (mem_of_mem_leaves hL hx))) hroot

lemma HashSound.mutated (hs : HashSound hash L L') (hL : L ≠ []) (hL' : L' ≠ []) (hne : L ≠ L')
    (hroot : (computeMerkleRoot hash L).1 = (computeMerkleRoot hash L').1)
    (hlen : L'.length ≤ L.length) :
    L'.length < L.length ∧ (computeMerkleRoot hash L).2 = true := by
  rw [computeMerkleRoot_fst hL, computeMerkleRoot_fst hL'] at hroot
  have hheight : treeHeight L'.length = treeHeight L.length :=
    le_antisymm (hs.treeHeight_le hL hroot) (hs.symm.treeHeight_le hL' hroot.symm)
  have htree : treeOf (treeHeight L.length) L = treeOf (treeHeight L.length) L' := by
    refine eq_of_value_eq hs.collisionFree (perfect_treeOf _ L) (perfect_treeOf _ L')
      (fun p hp => List.mem_append_left _ hp) (fun p hp => List.mem_append_right _ ?_)
      (hheight ▸ hroot)
    rwa [hashedPairs, hheight]
  have hpos' : 0 < L'.length := List.length_pos_iff.mpr hL'
  rcases hlen.lt_or_eq with hlt | heq
  · exact ⟨hlt, computeMerkleRoot_snd_of_samePair (samePair_of_repeats hash
      (le_two_pow_treeHeight _) (repeats_of_treeOf_eq hash hpos' hlt (le_two_pow_treeHeight _)
        htree))⟩
  · exact absurd (eq_of_treeOf_eq (by omega) (le_two_pow_treeHeight _) heq.symm htree) hne

lemma checkMerkleRoot_eq_ok {node : Node} {block : CBlock} :
    checkMerkleRoot node block = .ok () ↔
      block.hashMerkleRoot = (node.blockMerkleRoot block.vtx).1 ∧
        (node.blockMerkleRoot block.vtx).2 = false := by
  simp [checkMerkleRoot]

/-- **Merkle malleability.** Of two different lists of leaves with the same root, both with at least
one leaf, one is longer and it is reported as mutated; so the check of the merkle root does not pass
two blocks that have the same header and different transactions. -/
theorem merkle_mutation_reported (hash : Uint256 → Uint256 → Uint256) :
    (∀ L L' : List Uint256, L ≠ [] → L' ≠ [] → L ≠ L' → HashSound hash L L' →
      (computeMerkleRoot hash L).1 = (computeMerkleRoot hash L').1 → L'.length ≤ L.length →
      L'.length < L.length ∧ (computeMerkleRoot hash L).2 = true) ∧
    (∀ (node : Node) (block block' : CBlock), node.blockMerkleRoot = blockMerkleRoot hash →
      block.vtx ≠ [] → block'.vtx ≠ [] → block.vtx ≠ block'.vtx →
      block.hashMerkleRoot = block'.hashMerkleRoot →
      HashSound hash (block.vtx.map (·.hash)) (block'.vtx.map (·.hash)) →
      (∀ tx ∈ block.vtx, ∀ tx' ∈ block'.vtx, tx.hash = tx'.hash → tx = tx') →
      ¬ (checkMerkleRoot node block = .ok () ∧ checkMerkleRoot node block' = .ok ())) := by
  refine ⟨fun L L' hL hL' hne hs hroot hlen => hs.mutated hL hL' hne hroot hlen, ?_⟩
  rintro node block block' hnode hvtx hvtx' hne hheader hs hinj ⟨hcheck, hcheck'⟩
  rw [checkMerkleRoot_eq_ok, hnode] at hcheck hcheck'
  obtain ⟨hroot, hmut⟩ := hcheck
  obtain ⟨hroot', hmut'⟩ := hcheck'
  have hids : block.vtx.map (·.hash) ≠ block'.vtx.map (·.hash) := by
    intro heq
    refine hne (List.ext_getElem ?_ fun n h₁ h₂ => ?_)
    · simpa using congrArg List.length heq
    · refine hinj _ (List.getElem_mem h₁) _ (List.getElem_mem h₂) ?_
      simpa [h₁, h₂] using congrArg (·[n]?) heq
  have hnil : block.vtx.map (·.hash) ≠ [] := by simpa using hvtx
  have hnil' : block'.vtx.map (·.hash) ≠ [] := by simpa using hvtx'
  have hsame := hroot.symm.trans (hheader.trans hroot')
  rcases le_total (block'.vtx.map (·.hash)).length (block.vtx.map (·.hash)).length with hle | hle
  · exact absurd (hs.mutated hnil hnil' hids hsame hle).2 (by rw [← blockMerkleRoot, hmut]; decide)
  · exact absurd (hs.symm.mutated hnil' hnil hids.symm hsame.symm hle).2
      (by rw [← blockMerkleRoot, hmut']; decide)

namespace Concrete

/-- A stand-in for the hash of a pair. -/
def pairHash (a b : Uint256) : Uint256 := 1000 * a + b + 100000

/-- The last of three leaves repeated. -/
theorem merkle_mutation_threeLeaves :
    (computeMerkleRoot pairHash [1, 2, 3, 3]).1 = (computeMerkleRoot pairHash [1, 2, 3]).1 ∧
      (computeMerkleRoot pairHash [1, 2, 3, 3]).2 = true ∧
      (computeMerkleRoot pairHash [1, 2, 3]).2 = false := by
  have hroot : (computeMerkleRoot pairHash [1, 2, 3, 3]).1
      = (computeMerkleRoot pairHash [1, 2, 3]).1 := by decide +kernel
  refine ⟨hroot, ?_, by decide +kernel⟩
  exact ((merkle_mutation_reported pairHash).1 [1, 2, 3, 3] [1, 2, 3] (by decide) (by decide)
    (by decide) (by decide +kernel) hroot (by decide)).2

/-- No leaves at all have the root zero, as a single leaf that is zero has. -/
theorem merkle_empty_null :
    ¬ ∀ (hash : Uint256 → Uint256 → Uint256) (L L' : List Uint256), L ≠ L' → HashSound hash L L' →
      (computeMerkleRoot hash L).1 = (computeMerkleRoot hash L').1 → L'.length ≤ L.length →
      (computeMerkleRoot hash L).2 = true := by
  intro hall
  have hmut := hall pairHash [0] [] (by decide) (by decide +kernel) (by decide +kernel)
    (by decide)
  exact absurd hmut (by decide +kernel)

end Concrete

end Agenor
