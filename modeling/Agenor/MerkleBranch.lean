import Agenor.Merkle

/-!
`MerkleComputation` (`consensus/merkle.cpp`) with its 32 bit counter and its 32 inner hashes, and
the branch it collects for one of the leaves.

The counter and the levels above are numbers without a bound. Here a shift by 32, which is also
where an index leaves `inner`, has no value. The comment of the source says that the calculator is
limited to `2 ^ 32` leaves. It is limited to `2 ^ 31` of them: beyond, the sweep counts up to
`2 ^ 32`, which is zero, and there is no bit to stop at.
-/

namespace Agenor.MerkleBranch

open Lib.Merkle

/-- The first phase of `MerkleComputation` with a branch. -/
structure BranchState extends MerkleState where
  matchlevel : ℤ
  branch : List Uint256

def BranchState.init : BranchState where
  toMerkleState := .init
  matchlevel := -1
  branch := []

/-- What goes up through the levels. -/
structure Climb where
  level : ℕ
  h : Uint256
  matchh : Bool
  mutated : Bool
  branch : List Uint256

section

variable (hash : Uint256 → Uint256 → Uint256) (pbranch : Bool) (inner : ℕ → Uint256)
variable (matchlevel : ℤ)

/-- What a level adds to the branch. -/
def pushBranch (c : Climb) : Climb :=
  if pbranch then
    if c.matchh then { c with branch := c.branch ++ [inner c.level] }
    else if matchlevel = c.level then { c with branch := c.branch ++ [c.h], matchh := true }
    else c
  else c

/-- One step for each of the lower bits in `count` that are zero, where `fuel` levels are left. -/
def climb (count : ℕ) : ℕ → Climb → Option Climb
  | 0, _ => none
  | fuel + 1, c =>
    if count.testBit c.level then some c
    else
      climb count fuel
        { pushBranch pbranch inner matchlevel c with
          level := c.level + 1
          h := hash (inner c.level) c.h
          mutated := c.mutated || inner c.level == c.h }

def BranchState.addLeaf (branchpos : ℕ) (st : BranchState) (leaf : Uint256) :
    Option BranchState := do
  let count := (st.count + 1) % 2 ^ 32
  let c ← climb hash pbranch st.inner st.matchlevel count 32
    { level := 0
      h := leaf
      matchh := st.count == branchpos
      mutated := st.mutated
      branch := st.branch }
  some
    { count
      inner := Function.update st.inner c.level c.h
      mutated := c.mutated
      matchlevel := if c.matchh then c.level else st.matchlevel
      branch := c.branch }

/-- The lowest bit of `count` that is set. -/
def lowestBit (count : ℕ) : ℕ → ℕ → Option ℕ
  | 0, _ => none
  | fuel + 1, level =>
    if count.testBit level then some level else lowestBit count fuel (level + 1)

/-- The sweep over the rightmost branch. Nothing is noted about equal hashes here. -/
def sweep : ℕ → ℕ → Climb → Option Climb
  | 0, _, _ => none
  | fuel + 1, count, c =>
    if count = 2 ^ c.level then some c
    else do
      let count' := (count + 2 ^ c.level) % 2 ^ 32
      let c' ← climb hash pbranch inner matchlevel count' (32 - (c.level + 1))
        { level := c.level + 1
          h := hash c.h c.h
          matchh := c.matchh
          mutated := false
          branch := if pbranch && c.matchh then c.branch ++ [c.h] else c.branch }
      sweep fuel count' c'

/-- `MerkleComputation`: the root, whether the list has been mutated, and the branch. -/
def merkleComputation (leaves : List Uint256) (branchpos : ℕ) :
    Option (Uint256 × Bool × List Uint256) :=
  if leaves.length = 0 then some (0, false, [])
  else do
    let st ← leaves.foldlM (BranchState.addLeaf hash pbranch branchpos) .init
    let level ← lowestBit st.count 32 0
    let c ← sweep hash pbranch st.inner st.matchlevel 32 st.count
      { level
        h := st.inner level
        matchh := st.matchlevel = level
        mutated := st.mutated
        branch := st.branch }
    some (c.h, st.mutated, c.branch)

/-- `ComputeMerkleRoot`, which asks for no branch. -/
def computeMerkleRoot (leaves : List Uint256) : Option (Uint256 × Bool) :=
  (merkleComputation hash false leaves (2 ^ 32 - 1)).map fun r => (r.1, r.2.1)

def computeMerkleBranch (leaves : List Uint256) (position : ℕ) : Option (List Uint256) :=
  (merkleComputation hash true leaves position).map (·.2.2)

def computeMerkleRootFromBranch (leaf : Uint256) : List Uint256 → ℕ → Uint256
  | [], _ => leaf
  | sibling :: vMerkleBranch, nIndex =>
    computeMerkleRootFromBranch
      (if nIndex % 2 = 1 then hash sibling leaf else hash leaf sibling) vMerkleBranch (nIndex / 2)

end

variable {hash : Uint256 → Uint256 → Uint256} {pbranch : Bool} {inner : ℕ → Uint256}
variable {matchlevel : ℤ} {count level fuel fuel' : ℕ} {c : Climb} {L : List Uint256}

/-! ### As with numbers that have no bound -/

lemma exists_fuel {level fuel : ℕ} (hpow : 2 ^ level ≤ count) (hfuel : count < 2 ^ (level + fuel)) :
    ∃ n, fuel = n + 1 := by
  refine ⟨fuel - 1, (Nat.succ_pred_eq_of_pos (Nat.pos_of_ne_zero ?_)).symm⟩
  rintro rfl
  rw [Nat.add_zero] at hfuel
  omega

lemma climb_eq (hash : Uint256 → Uint256 → Uint256) (pbranch : Bool) (inner : ℕ → Uint256)
    (matchlevel : ℤ) (fuel fuel' : ℕ) (c : Climb) (hcount : 0 < count) (hlt : count < 2 ^ 32)
    (hfuel : c.level + fuel = 32) (hfuel' : count < 2 ^ (c.level + fuel'))
    (hdvd : 2 ^ c.level ∣ count) :
    ∃ c', climb hash pbranch inner matchlevel count fuel c = some c' ∧
      mergeUp hash inner count fuel' c.level c.h c.mutated = (c'.level, c'.h, c'.mutated) ∧
      2 ^ c'.level ∣ count ∧ count.testBit c'.level = true ∧ c.level ≤ c'.level := by
  have hpow := Nat.le_of_dvd hcount hdvd
  induction fuel generalizing c fuel' with
  | zero =>
    rw [show c.level = 32 by omega] at hpow
    omega
  | succ fuel ih =>
    obtain ⟨fuel', rfl⟩ := exists_fuel hpow hfuel'
    unfold climb mergeUp
    by_cases hbit : count.testBit c.level = true
    · rw [if_pos hbit, if_pos hbit]
      exact ⟨c, rfl, rfl, hdvd, hbit, le_rfl⟩
    · rw [if_neg hbit, if_neg hbit]
      have hdvd' := two_pow_succ_dvd hdvd (Bool.not_eq_true _ ▸ hbit)
      obtain ⟨c', hrun, hmerge, hdvd'', hbit', hle⟩ := ih fuel'
        { pushBranch pbranch inner matchlevel c with
          level := c.level + 1
          h := hash (inner c.level) c.h
          mutated := c.mutated || inner c.level == c.h }
        (by dsimp only; omega) (by dsimp only; rwa [Nat.add_right_comm]) hdvd'
        (Nat.le_of_dvd hcount hdvd')
      exact ⟨c', hrun, hmerge, hdvd'', hbit', Nat.le_of_succ_le hle⟩

lemma climb_zero : climb hash pbranch inner matchlevel 0 fuel c = none := by
  induction fuel generalizing c with
  | zero => rfl
  | succ fuel ih =>
    unfold climb
    rw [if_neg (by simp), ih]

lemma addLeaf_eq (hash : Uint256 → Uint256 → Uint256) (pbranch : Bool) (branchpos : ℕ)
    (leaf : Uint256) {st : BranchState} (hlt : st.count + 1 < 2 ^ 32) :
    ∃ st', st.addLeaf hash pbranch branchpos leaf = some st' ∧
      st'.toMerkleState = st.toMerkleState.addLeaf hash leaf := by
  obtain ⟨c', hrun, hmerge, -⟩ := climb_eq hash pbranch st.inner st.matchlevel
    32 (st.count + 1)
    { level := 0
      h := leaf
      matchh := st.count == branchpos
      mutated := st.mutated
      branch := st.branch }
    (Nat.succ_pos st.count) hlt rfl (by rw [Nat.zero_add]; exact Nat.lt_two_pow_self) (one_dvd _)
  unfold BranchState.addLeaf MerkleState.addLeaf
  dsimp only at hmerge ⊢
  rw [Nat.mod_eq_of_lt hlt, hrun, hmerge]
  exact ⟨_, rfl, rfl⟩

lemma foldlM_addLeaf_eq (hash : Uint256 → Uint256 → Uint256) (pbranch : Bool) (branchpos : ℕ) :
    ∀ (L : List Uint256) (st : BranchState), st.count + L.length < 2 ^ 32 →
      ∃ st', L.foldlM (BranchState.addLeaf hash pbranch branchpos) st = some st' ∧
        st'.toMerkleState = L.foldl (MerkleState.addLeaf hash) st.toMerkleState
  | [], st, _ => ⟨st, rfl, rfl⟩
  | leaf :: L, st, hlen => by
    rw [List.length_cons] at hlen
    have hlt : st.count + 1 < 2 ^ 32 := by omega
    obtain ⟨st₁, hrun, heq⟩ := addLeaf_eq hash pbranch branchpos leaf hlt
    have hcount : st₁.count = st.count + 1 := congrArg MerkleState.count heq
    obtain ⟨st₂, hrun', heq'⟩ := foldlM_addLeaf_eq hash pbranch branchpos L st₁ (by omega)
    refine ⟨st₂, ?_, ?_⟩
    · rw [List.foldlM_cons, hrun]
      exact hrun'
    · rw [List.foldl_cons, heq', heq]

lemma lowestBit_eq (hcount : 0 < count) (hlt : count < 2 ^ 32) (hfuel : level + fuel = 32)
    (hfuel' : count < 2 ^ (level + fuel')) (hdvd : 2 ^ level ∣ count) :
    lowestBit count fuel level = some (Agenor.lowestBit count fuel' level) := by
  have hpow := Nat.le_of_dvd hcount hdvd
  induction fuel generalizing level fuel' with
  | zero =>
    rw [show level = 32 by omega] at hpow
    omega
  | succ fuel ih =>
    obtain ⟨fuel', rfl⟩ := exists_fuel hpow hfuel'
    unfold lowestBit Agenor.lowestBit
    by_cases hbit : count.testBit level = true
    · rw [if_pos hbit, if_pos hbit]
    · rw [if_neg hbit, if_neg hbit]
      have hdvd' := two_pow_succ_dvd hdvd (Bool.not_eq_true _ ▸ hbit)
      exact ih (by omega) (by rwa [Nat.add_right_comm]) hdvd' (Nat.le_of_dvd hcount hdvd')

lemma sweepClimb_eq (hash : Uint256 → Uint256 → Uint256) (pbranch : Bool) (inner : ℕ → Uint256)
    (matchlevel : ℤ) (c : Climb) (hlt : count + 2 ^ c.level < 2 ^ 32) (hlevel : c.level < 32)
    (hdvd : 2 ^ (c.level + 1) ∣ count + 2 ^ c.level) :
    ∃ c', climb hash pbranch inner matchlevel (count + 2 ^ c.level) (32 - (c.level + 1))
        { level := c.level + 1
          h := hash c.h c.h
          matchh := c.matchh
          mutated := false
          branch := if pbranch && c.matchh then c.branch ++ [c.h] else c.branch } = some c' ∧
      mergeUp hash inner (count + 2 ^ c.level) (count + 2 ^ c.level) (c.level + 1) (hash c.h c.h)
        false = (c'.level, c'.h, c'.mutated) ∧
      2 ^ c'.level ∣ count + 2 ^ c.level ∧ (count + 2 ^ c.level).testBit c'.level = true ∧
      c.level + 1 ≤ c'.level := by
  have hpos := Nat.two_pow_pos c.level
  exact climb_eq hash pbranch inner matchlevel (32 - (c.level + 1)) (count + 2 ^ c.level) _
    (by omega) hlt (by dsimp only; omega) (lt_two_pow_add _ _) hdvd

lemma sweep_eq (hash : Uint256 → Uint256 → Uint256) (pbranch : Bool) (inner : ℕ → Uint256)
    (matchlevel : ℤ) (fuel fuel' : ℕ) (c : Climb) {k : ℕ} (hk : count ≤ 2 ^ k)
    (hk31 : k ≤ 31) (hfuel : 32 ≤ c.level + fuel)
    (hfuel' : k ≤ c.level + fuel') (hcount : 0 < count) (hdvd : 2 ^ c.level ∣ count)
    (hbit : count.testBit c.level = true) :
    ∃ c', sweep hash pbranch inner matchlevel fuel count c = some c' ∧
      c'.h = Agenor.sweep hash inner fuel' count c.level c.h := by
  have hle31 : 2 ^ k ≤ 2 ^ 31 := Nat.pow_le_pow_right (by omega) hk31
  induction fuel generalizing c count fuel' with
  | zero =>
    have hpow := Nat.le_of_dvd hcount hdvd
    have : 2 ^ 32 ≤ 2 ^ c.level := Nat.pow_le_pow_right (by omega) hfuel
    omega
  | succ fuel ih =>
    unfold sweep
    by_cases hend : count = 2 ^ c.level
    · rw [if_pos hend]
      refine ⟨c, rfl, ?_⟩
      cases fuel' with
      | zero => rfl
      | succ fuel' => rw [Agenor.sweep, if_pos hend]
    · obtain ⟨hlevel, hroom⟩ := add_two_pow_le hdvd hbit hend hk
      obtain ⟨fuel', rfl⟩ : ∃ n, fuel' = n + 1 := ⟨fuel' - 1, by omega⟩
      have hpos := Nat.two_pow_pos c.level
      have hlt : count + 2 ^ c.level < 2 ^ 32 := by omega
      have hdvd' := two_pow_succ_dvd_add hdvd hbit
      obtain ⟨c', hrun, hmerge, hdvd'', hbit', hle⟩ :=
        sweepClimb_eq hash pbranch inner matchlevel c hlt (by omega) hdvd'
      have hlevel' : k ≤ c'.level + fuel' := by omega
      obtain ⟨c'', hsweep, hvalue⟩ := ih fuel' c' hroom (by omega) hlevel' (by omega)
        hdvd'' hbit'
      rw [if_neg hend, Agenor.sweep, if_neg hend]
      dsimp only
      rw [Nat.mod_eq_of_lt hlt, hrun, hmerge]
      exact ⟨c'', hsweep, hvalue⟩

/-- What `MerkleComputation` starts the sweep with. -/
def Climb.start (st : BranchState) (level : ℕ) : Climb where
  level := level
  h := st.inner level
  matchh := st.matchlevel = level
  mutated := st.mutated
  branch := st.branch

lemma firstPhase_eq (hash : Uint256 → Uint256 → Uint256) (pbranch : Bool) (branchpos : ℕ)
    (hL : L ≠ []) (hlen : L.length < 2 ^ 32) :
    ∃ st level, L.foldlM (BranchState.addLeaf hash pbranch branchpos) .init = some st ∧
      st.toMerkleState = L.foldl (MerkleState.addLeaf hash) .init ∧ st.count = L.length ∧
      level = Agenor.lowestBit L.length L.length 0 ∧ 2 ^ level ∣ L.length ∧
      L.length.testBit level = true ∧
      merkleComputation hash pbranch L branchpos =
        (sweep hash pbranch st.inner st.matchlevel 32 L.length (.start st level)).map
          fun c => (c.h, st.mutated, c.branch) := by
  have hpos : 0 < L.length := List.length_pos_iff.mpr hL
  have hroom : L.length < 2 ^ (0 + L.length) := lt_two_pow_add _ _
  obtain ⟨st, hrun, hst⟩ := foldlM_addLeaf_eq hash pbranch branchpos L .init (by
    change 0 + L.length < 2 ^ 32
    omega)
  have hcount : st.count = L.length := by
    rw [hst]
    exact (firstPhase_foldl hash L).count_eq
  obtain ⟨hdvd, hbit⟩ := lowestBit_spec L.length 0 hpos hroom (one_dvd _)
  refine ⟨st, _, hrun, hst, hcount, rfl, hdvd, hbit, ?_⟩
  unfold merkleComputation
  rw [if_neg hpos.ne', hrun]
  dsimp only [Option.bind_eq_bind, Option.bind_some]
  rw [hcount, lowestBit_eq hpos hlen rfl hroom (one_dvd _)]
  dsimp only [Option.bind_some, Climb.start]
  cases sweep hash pbranch st.inner st.matchlevel 32 L.length _ <;> rfl

/-- **The code and the numbers.** Up to `2 ^ 31` leaves the root is the one without a bound, with or
without a branch. -/
theorem merkleComputation_eq (hash : Uint256 → Uint256 → Uint256) (pbranch : Bool) (branchpos : ℕ)
    (hlen : L.length ≤ 2 ^ 31) :
    ∃ branch, merkleComputation hash pbranch L branchpos =
      some ((Agenor.computeMerkleRoot hash L).1, (Agenor.computeMerkleRoot hash L).2, branch) := by
  rcases eq_or_ne L [] with rfl | hL
  · exact ⟨[], rfl⟩
  · obtain ⟨st, level, -, hst, hcount, hlevel, hdvd, hbit, heq⟩ :=
      firstPhase_eq hash pbranch branchpos hL (by omega)
    have hpos : 0 < L.length := List.length_pos_iff.mpr hL
    obtain ⟨c, hsweep, hvalue⟩ := sweep_eq hash pbranch st.inner st.matchlevel 32 L.length
      (.start st level)
      (le_two_pow_treeHeight L.length) (treeHeight_le hlen) (Nat.le_add_left _ _)
      ((treeHeight_le Nat.lt_two_pow_self.le).trans (Nat.le_add_left _ _)) hpos hdvd hbit
    refine ⟨c.branch, ?_⟩
    rw [heq, hsweep, Option.map_some, hvalue, hst, Agenor.computeMerkleRoot, if_neg hpos.ne']
    dsimp only [Climb.start]
    rw [(firstPhase_foldl hash L).count_eq, hst, hlevel]

lemma sweep_eq_none (hgt : 2 ^ 31 < count) (hlt : count < 2 ^ 32) (hdvd : 2 ^ c.level ∣ count)
    (hbit : count.testBit c.level = true) :
    sweep hash pbranch inner matchlevel fuel count c = none := by
  induction fuel generalizing c count with
  | zero => rfl
  | succ fuel ih =>
    have hpow := Nat.le_of_dvd (by omega) hdvd
    have hlevel : c.level < 32 :=
      (Nat.pow_lt_pow_iff_right (le_refl 2)).mp (hpow.trans_lt hlt)
    have hle : 2 ^ c.level ≤ 2 ^ 31 := Nat.pow_le_pow_right Nat.zero_lt_two (by omega)
    have hend : count ≠ 2 ^ c.level := by omega
    obtain ⟨hlevel', hroom⟩ := add_two_pow_le hdvd hbit hend hlt.le
    have hdvd' := two_pow_succ_dvd_add hdvd hbit
    unfold sweep
    rw [if_neg hend]
    dsimp only
    rcases hroom.eq_or_lt with hwrap | hno
    · rw [hwrap, Nat.mod_self, climb_zero]
      rfl
    · obtain ⟨c', hrun, -, hdvd'', hbit', -⟩ :=
        sweepClimb_eq hash pbranch inner matchlevel c hno hlevel hdvd'
      rw [Nat.mod_eq_of_lt hno, hrun]
      exact ih (by omega) hno hdvd'' hbit'

/-- **The limit.** -/
theorem merkleComputation_eq_none (hash : Uint256 → Uint256 → Uint256) (pbranch : Bool)
    (branchpos : ℕ) (hgt : 2 ^ 31 < L.length) (hlt : L.length < 2 ^ 32) :
    merkleComputation hash pbranch L branchpos = none := by
  have hL : L ≠ [] := by
    rintro rfl
    simp at hgt
  obtain ⟨st, level, -, -, -, -, hdvd, hbit, heq⟩ := firstPhase_eq hash pbranch branchpos hL hlt
  rw [heq, sweep_eq_none hgt hlt hdvd hbit, Option.map_none]

/-! ### The branch -/

/-- What the position `p` is hashed with below a level. -/
def branchUpTo (hash : Uint256 → Uint256 → Uint256) (L : List Uint256) (p level : ℕ) :
    List Uint256 :=
  (List.range level).map fun ℓ => siblingAt hash L ℓ p

lemma branchUpTo_succ {p : ℕ} : branchUpTo hash L p (level + 1) =
    branchUpTo hash L p level ++ [siblingAt hash L level p] := by
  rw [branchUpTo, List.range_succ, List.map_append]
  rfl

/-- Where the leaf at `p` is after `count` leaves: still to come, or below the last complete subtree
of the level `matchlevel`. -/
inductive Found (hash : Uint256 → Uint256 → Uint256) (L : List Uint256) (p count : ℕ) :
    ℤ → List Uint256 → Prop
  | notYet (h : count ≤ p) : Found hash L p count (-1) []
  | below (m : ℕ) (hbit : count.testBit m = true) (hp : p / 2 ^ m + 1 = count / 2 ^ m) :
    Found hash L p count m (branchUpTo hash L p m)

lemma Found.of_level {p m : ℕ} {branch : List Uint256}
    (hfound : Found hash L p count matchlevel branch) (hm : matchlevel = m) :
    p / 2 ^ m + 1 = count / 2 ^ m ∧ branch = branchUpTo hash L p m := by
  cases hfound with
  | notYet h => omega
  | below m' hbit hp =>
    obtain rfl : m' = m := by omega
    exact ⟨hp, rfl⟩

lemma Found.testBit_of_level {p m : ℕ} {branch : List Uint256}
    (hfound : Found hash L p count matchlevel branch) (hm : matchlevel = m) :
    count.testBit m = true := by
  cases hfound with
  | notYet h => omega
  | below m' hbit hp =>
    obtain rfl : m' = m := by omega
    exact hbit

lemma Found.branch_eq_nil {p : ℕ} {branch : List Uint256}
    (hfound : Found hash L p count matchlevel branch) (hle : count ≤ p) : branch = [] := by
  cases hfound with
  | notYet h => rfl
  | below m hbit hp =>
    have := Nat.div_le_div_right (c := 2 ^ m) hle
    omega

lemma Found.le_of_none {p : ℕ} {branch : List Uint256}
    (hfound : Found hash L p count matchlevel branch) (hnone : matchlevel = -1) : count ≤ p := by
  cases hfound with
  | notYet h => exact h
  | below m hbit hp => omega

lemma Found.not_above {p : ℕ} {branch : List Uint256}
    (hfound : Found hash L p count matchlevel branch) (hp : p < count) (hle : count ≤ 2 ^ level) :
    ¬ ∀ m : ℕ, matchlevel = m → level < m := by
  intro hlevel
  cases hfound with
  | notYet h => omega
  | below m hbit hm =>
    have hpow : 2 ^ level < 2 ^ m := Nat.pow_lt_pow_right Nat.one_lt_two (hlevel m rfl)
    rw [Nat.div_eq_of_lt (hle.trans_lt hpow)] at hm
    exact absurd hm (Nat.succ_ne_zero _)

lemma Found.succ {p : ℕ} {branch : List Uint256} (hfound : Found hash L p count matchlevel branch)
    (hbit : (count + 1).testBit level = true) (hbefore : count.testBit level = false)
    (hnotYet : matchlevel = -1 → count + 1 ≤ p) (hlevel : ∀ m : ℕ, matchlevel = m → level ≤ m) :
    Found hash L p (count + 1) matchlevel branch := by
  cases hfound with
  | notYet h => exact .notYet (hnotYet rfl)
  | below m hbit' hp =>
    have hne : level ≠ m := by
      rintro rfl
      exact absurd (hbit'.symm.trans hbefore) Bool.false_ne_true.symm
    have hdiv := succ_div_of_lt hbit (Nat.lt_of_le_of_ne (hlevel m rfl) hne)
    refine .below m ?_ (by rw [hdiv, hp])
    rwa [testBit_iff, hdiv, ← testBit_iff]

/-- On the way up from the leaves before to the multiple `count` of the size of a level, the
position `p` is below the last node of this level, or it is where it was. -/
structure Climbing (hash : Uint256 → Uint256 → Uint256) (L : List Uint256) (p before count : ℕ)
    (matchlevel : ℤ) (c : Climb) : Prop where
  dvd : 2 ^ c.level ∣ count
  before_lt : before < count
  le_before : count ≤ before + 2 ^ c.level
  reach : count < L.length + 2 ^ c.level
  value_eq : c.h = nodeAt hash L c.level (count / 2 ^ c.level - 1)
  matched : c.matchh = true →
    p / 2 ^ c.level + 1 = count / 2 ^ c.level ∧ c.branch = branchUpTo hash L p c.level
  unmatched : c.matchh = false → Found hash L p before matchlevel c.branch ∧
    (matchlevel = -1 → count ≤ p) ∧ ∀ m : ℕ, matchlevel = m → c.level ≤ m

variable {p before : ℕ}

lemma Climbing.step (hc : Climbing hash L p before count matchlevel c)
    (hinner : InnerOf hash L before inner) (hbit : count.testBit c.level = false) :
    Climbing hash L p before count matchlevel
      { pushBranch true inner matchlevel c with
        level := c.level + 1
        h := hash (inner c.level) c.h
        mutated := c.mutated || inner c.level == c.h } := by
  obtain ⟨hdvd, hlt, hle, hreach, hh, hmatched, hunmatched⟩ := hc
  have hpow : 2 ^ (c.level + 1) = 2 ^ c.level + 2 ^ c.level := by ring
  obtain ⟨i, hcount, hbefore, hleft⟩ := hinner.left hdvd hlt hle hbit
  have hlast : (2 * i + 1) * 2 ^ c.level < L.length := by
    have : (2 * i + 2) * 2 ^ c.level = (2 * i + 1) * 2 ^ c.level + 2 ^ c.level := by ring
    omega
  obtain ⟨hright, hdvd', hnode⟩ := nodeAt_up hcount hlast hh
  have hdiv : count / 2 ^ c.level = 2 * i + 2 := by
    rw [hcount, Nat.mul_div_cancel _ (Nat.two_pow_pos c.level)]
  have hdiv' : count / 2 ^ (c.level + 1) = i + 1 := by
    rw [div_two_pow_succ, hdiv]
    omega
  rw [← hleft] at hnode
  rcases hm : c.matchh with _ | _
  · obtain ⟨hfound, hnotYet, hlevel⟩ := hunmatched hm
    by_cases hhere : matchlevel = c.level
    · -- the leaf is below what is stored here, and is hashed with what comes up
      have hpush : pushBranch true inner matchlevel c
          = { c with branch := c.branch ++ [c.h], matchh := true } := by
        simp [pushBranch, hm, hhere]
      obtain ⟨hp, hbranch⟩ := hfound.of_level hhere
      have hpi : p / 2 ^ c.level = 2 * i := by omega
      rw [hpush]
      refine ⟨hdvd', hlt, by dsimp only; omega, by dsimp only; omega, hnode, fun _ => ?_, nofun⟩
      dsimp only
      rw [hdiv', div_two_pow_succ, hpi, branchUpTo_succ, siblingAt_of_left hpi hlast, hbranch,
        hright]
      exact ⟨by omega, rfl⟩
    · have hpush : pushBranch true inner matchlevel c = c := by
        simp [pushBranch, hm, hhere]
      rw [hpush]
      refine ⟨hdvd', hlt, by dsimp only; omega, by dsimp only; omega, hnode,
        fun h => absurd (hm.symm.trans h) Bool.false_ne_true, fun _ => ⟨hfound, hnotYet, ?_⟩⟩
      intro m hmatch
      have hne : m ≠ c.level := by
        rintro rfl
        exact hhere hmatch
      exact Nat.lt_of_le_of_ne (hlevel m hmatch) hne.symm
  · -- the leaf is below what comes up, and is hashed with what is stored here
    have hpush : pushBranch true inner matchlevel c
        = { c with branch := c.branch ++ [inner c.level] } := by
      simp [pushBranch, hm]
    obtain ⟨hp, hbranch⟩ := hmatched hm
    have hpi : p / 2 ^ c.level = 2 * i + 1 := by omega
    rw [hpush]
    refine ⟨hdvd', hlt, by dsimp only; omega, by dsimp only; omega, hnode, fun _ => ?_,
      fun h => absurd (h.symm.trans hm) Bool.false_ne_true⟩
    dsimp only
    rw [hdiv', div_two_pow_succ, hpi, branchUpTo_succ, siblingAt_of_right hpi, hbranch, hleft]
    exact ⟨by omega, rfl⟩

lemma Climbing.run (hinner : InnerOf hash L before inner) {c' : Climb}
    (hc : Climbing hash L p before count matchlevel c)
    (hrun : climb hash true inner matchlevel count fuel c = some c') :
    Climbing hash L p before count matchlevel c' ∧ count.testBit c'.level = true := by
  induction fuel generalizing c with
  | zero => cases hrun
  | succ fuel ih =>
    unfold climb at hrun
    split_ifs at hrun with hbit
    · cases hrun
      exact ⟨hc, hbit⟩
    · exact ih (hc.step hinner (Bool.not_eq_true _ ▸ hbit)) hrun

lemma Climbing.testBit_before (hc : Climbing hash L p before count matchlevel c)
    (hbit : count.testBit c.level = true) : before.testBit c.level = false := by
  have hdiv := div_add_one_of_le hc.dvd hc.before_lt hc.le_before
  rw [testBit_iff] at hbit
  rw [← Bool.not_eq_true, testBit_iff]
  omega

/-! ### The first phase -/

lemma Found.addLeaf {st st' : BranchState}
    (hfound : Found hash L p st.count st.matchlevel st.branch)
    (hinner : InnerOf hash L st.count st.inner) (hlt : st.count < L.length)
    (h32 : st.count + 1 < 2 ^ 32)
    (hrun : st.addLeaf hash true p L[st.count] = some st') :
    Found hash L p (st.count + 1) st'.matchlevel st'.branch := by
  unfold BranchState.addLeaf at hrun
  dsimp only at hrun
  rw [Nat.mod_eq_of_lt h32, Option.bind_eq_bind, Option.bind_eq_some_iff] at hrun
  obtain ⟨c, hclimb, hst'⟩ := hrun
  cases hst'
  have hstart : Climbing hash L p st.count (st.count + 1) st.matchlevel
      { level := 0
        h := L[st.count]
        matchh := st.count == p
        mutated := st.mutated
        branch := st.branch } := by
    refine ⟨one_dvd _, Nat.lt_succ_self _, le_rfl, Nat.succ_lt_succ hlt, ?_, fun hm => ?_,
      fun hm => ⟨hfound, fun hnone => ?_, fun m _ => Nat.zero_le m⟩⟩
    · rw [pow_zero, Nat.div_one, Nat.add_sub_cancel, nodeAt_zero hlt]
    · obtain rfl : st.count = p := beq_iff_eq.mp hm
      exact ⟨by rw [pow_zero, Nat.div_one, Nat.div_one], hfound.branch_eq_nil le_rfl⟩
    · have hne : st.count ≠ p := beq_eq_false_iff_ne.mp hm
      have := hfound.le_of_none hnone
      omega
  obtain ⟨hc, hbit⟩ := hstart.run hinner hclimb
  rcases hm : c.matchh with _ | _
  · obtain ⟨hbefore, hnotYet, hlevel⟩ := hc.unmatched hm
    dsimp only
    rw [if_neg Bool.false_ne_true]
    exact hbefore.succ hbit (hc.testBit_before hbit) hnotYet hlevel
  · obtain ⟨hp, hbranch⟩ := hc.matched hm
    dsimp only
    rw [if_pos rfl, hbranch]
    exact .below c.level hbit hp

lemma found_take {st : BranchState} (hle : count ≤ L.length) (h32 : L.length < 2 ^ 32)
    (hrun : (L.take count).foldlM (BranchState.addLeaf hash true p) .init = some st) :
    Found hash L p count st.matchlevel st.branch := by
  induction count generalizing st with
  | zero =>
    cases hrun
    exact .notYet (Nat.zero_le p)
  | succ count ih =>
    have hlt : count < L.length := Nat.lt_of_succ_le hle
    rw [List.take_succ_eq_append_getElem hlt, List.foldlM_append, Option.bind_eq_bind,
      Option.bind_eq_some_iff] at hrun
    obtain ⟨st₁, hfirst, hlast⟩ := hrun
    have hlen : 0 + (L.take count).length < 2 ^ 32 := by
      rw [List.length_take]
      omega
    obtain ⟨st₂, hrun₂, hst⟩ := foldlM_addLeaf_eq hash true p (L.take count) .init hlen
    obtain rfl : st₁ = st₂ := Option.some_inj.mp (hfirst.symm.trans hrun₂)
    have hphase : FirstPhase hash L count _ := firstPhase_take hlt.le
    have hcount : st₁.count = count := by
      rw [hst]
      exact hphase.count_eq
    have hinner : InnerOf hash L count st₁.inner := by
      rw [hst]
      exact hphase.inner_of
    rw [List.foldlM_cons, Option.bind_eq_bind, Option.bind_eq_some_iff] at hlast
    obtain ⟨st', hleaf, hnil⟩ := hlast
    cases hnil
    subst hcount
    exact (ih hlt.le hfirst).addLeaf hinner hlt (by omega) hleaf

/-! ### The sweep -/

/-- The sweep at the rightmost node of a level with an odd count: the position `p` is below it, or
below a subtree that is stored at a higher level. -/
structure Sweeping (hash : Uint256 → Uint256 → Uint256) (L : List Uint256) (p count : ℕ)
    (matchlevel : ℤ) (c : Climb) : Prop where
  right : Rightmost hash L count c.level c.h
  testBit : count.testBit c.level = true
  matched : c.matchh = true →
    p / 2 ^ c.level + 1 = count / 2 ^ c.level ∧ c.branch = branchUpTo hash L p c.level
  unmatched : c.matchh = false → Found hash L p L.length matchlevel c.branch ∧
    ∀ m : ℕ, matchlevel = m → c.level < m

lemma Sweeping.copy (hc : Sweeping hash L p count matchlevel c) (hp : p < L.length) :
    Climbing hash L p L.length (count + 2 ^ c.level) matchlevel
      { level := c.level + 1
        h := hash c.h c.h
        matchh := c.matchh
        mutated := false
        branch := if true && c.matchh then c.branch ++ [c.h] else c.branch } := by
  obtain ⟨hright, hbit, hmatched, hunmatched⟩ := hc
  obtain ⟨hdvd, hle, hlt, hvalue⟩ := hright.copy hbit
  have hpos := Nat.two_pow_pos c.level
  have hbefore : L.length < count + 2 ^ c.level := by
    have := hright.length_le
    omega
  refine ⟨hdvd, hbefore, hlt.le, hlt, hvalue, fun hm => ?_, fun hm => ?_⟩
  · obtain ⟨hpos', hbranch⟩ := hmatched hm
    dsimp only at hm ⊢
    obtain ⟨i, hi⟩ : ∃ i, p / 2 ^ c.level = 2 * i := by
      rw [testBit_iff] at hbit
      exact ⟨p / 2 ^ c.level / 2, by omega⟩
    have hcount : count = (2 * i + 1) * 2 ^ c.level := by
      rw [← hi, hpos', Nat.div_mul_cancel hright.dvd]
    have hup : count + 2 ^ c.level = (i + 1) * 2 ^ (c.level + 1) := by
      rw [hcount]
      ring
    rw [hm, hup, Nat.mul_div_cancel _ (Nat.two_pow_pos _), div_two_pow_succ, hi, branchUpTo_succ,
      siblingAt_of_last hi (hcount ▸ hright.length_le), hbranch, hright.value_eq, ← hpos', hi,
      Nat.add_sub_cancel]
    exact ⟨by omega, rfl⟩
  · obtain ⟨hfound, hlevel⟩ := hunmatched hm
    dsimp only at hm ⊢
    rw [hm]
    exact ⟨hfound, fun hnone => absurd (hfound.le_of_none hnone) (not_le.mpr hp), hlevel⟩

lemma Climbing.sweeping (hc : Climbing hash L p L.length count matchlevel c)
    (hbit : count.testBit c.level = true) : Sweeping hash L p count matchlevel c := by
  refine ⟨⟨hc.dvd, hc.before_lt.le, hc.reach, hc.value_eq⟩, hbit, hc.matched, fun hm => ?_⟩
  obtain ⟨hfound, -, hlevel⟩ := hc.unmatched hm
  refine ⟨hfound, fun m hmatch => Nat.lt_of_le_of_ne (hlevel m hmatch) ?_⟩
  rintro rfl
  exact absurd ((hfound.testBit_of_level hmatch).symm.trans (hc.testBit_before hbit))
    Bool.false_ne_true.symm

lemma Sweeping.run (hinner : InnerOf hash L L.length inner) (hp : p < L.length) {c' : Climb}
    (hle : count ≤ 2 ^ 31) (hc : Sweeping hash L p count matchlevel c)
    (hrun : sweep hash true inner matchlevel fuel count c = some c') :
    c'.branch = branchUpTo hash L p c'.level ∧ c'.h = nodeAt hash L c'.level 0 ∧
      p / 2 ^ c'.level = 0 := by
  induction fuel generalizing c count with
  | zero => cases hrun
  | succ fuel ih =>
    unfold sweep at hrun
    by_cases hend : count = 2 ^ c.level
    · rw [if_pos hend] at hrun
      cases hrun
      have hdiv : count / 2 ^ c'.level = 1 := by
        rw [hend, Nat.div_self (Nat.two_pow_pos c'.level)]
      have hm : c'.matchh = true := by
        by_contra hne
        obtain ⟨hfound, hlevel⟩ := hc.unmatched (Bool.not_eq_true _ ▸ hne)
        exact hfound.not_above hp (hend ▸ hc.right.length_le) hlevel
      obtain ⟨hlast, hbranch⟩ := hc.matched hm
      refine ⟨hbranch, ?_, by omega⟩
      rw [hc.right.value_eq, hdiv]
    · rw [if_neg hend] at hrun
      dsimp only at hrun
      obtain ⟨-, hroom⟩ := add_two_pow_le hc.right.dvd hc.testBit hend hle
      rw [Nat.mod_eq_of_lt (by omega), Option.bind_eq_bind, Option.bind_eq_some_iff] at hrun
      obtain ⟨c₁, hclimb, hsweep⟩ := hrun
      obtain ⟨hc₁, hbit₁⟩ := (hc.copy hp).run hinner hclimb
      exact ih hroom (hc₁.sweeping hbit₁) hsweep

/-! ### The root and the branches -/

lemma computeMerkleRootFromBranch_eq (hash : Uint256 → Uint256 → Uint256) (hp : p < L.length)
    (level n : ℕ) :
    computeMerkleRootFromBranch hash (nodeAt hash L level (p / 2 ^ level))
        ((List.range' level n).map fun ℓ => siblingAt hash L ℓ p) (p / 2 ^ level)
      = nodeAt hash L (level + n) (p / 2 ^ (level + n)) := by
  induction n generalizing level with
  | zero => rfl
  | succ n ih =>
    rw [List.range'_succ, List.map_cons, computeMerkleRootFromBranch, ← nodeAt_parent hp,
      ← div_two_pow_succ, ih (level + 1), Nat.add_right_comm, Nat.add_assoc]

lemma computeMerkleBranch_eq (hash : Uint256 → Uint256 → Uint256) (hp : p < L.length)
    (hlen : L.length ≤ 2 ^ 31) :
    ∃ branch, computeMerkleBranch hash L p = some branch ∧
      computeMerkleRootFromBranch hash L[p] branch p = (Agenor.computeMerkleRoot hash L).1 := by
  have hL : L ≠ [] := by
    rintro rfl
    exact absurd hp (Nat.not_lt_zero p)
  obtain ⟨st, level, hrun, hst, hcount, -, hdvd, hbit, heq⟩ :=
    firstPhase_eq hash true p hL (by omega)
  obtain ⟨branch, hresult⟩ := merkleComputation_eq hash true p hlen
  rw [heq, Option.map_eq_some_iff] at hresult
  obtain ⟨c, hsweep, hresult⟩ := hresult
  have hroot : c.h = (Agenor.computeMerkleRoot hash L).1 := congrArg Prod.fst hresult
  have hinner : InnerOf hash L L.length st.inner := by
    rw [hst]
    exact (firstPhase_foldl hash L).inner_of
  have hfound : Found hash L p L.length st.matchlevel st.branch :=
    found_take le_rfl (by omega) (by rwa [List.take_length])
  have hstart : Sweeping hash L p L.length st.matchlevel (.start st level) := by
    refine ⟨⟨hdvd, le_rfl, Nat.lt_add_of_pos_right (Nat.two_pow_pos _), hinner _ hbit⟩, hbit,
      fun hm => hfound.of_level (of_decide_eq_true hm), fun hm => ⟨hfound, fun m hmatch => ?_⟩⟩
    have hle := le_of_testBit hdvd (hfound.testBit_of_level hmatch)
    refine Nat.lt_of_le_of_ne hle ?_
    rintro rfl
    exact of_decide_eq_false hm hmatch
  obtain ⟨hbranch, hvalue, htop⟩ := hstart.run hinner hp hlen hsweep
  refine ⟨c.branch, ?_, ?_⟩
  · rw [computeMerkleBranch, heq, hsweep]
    rfl
  · have hup := computeMerkleRootFromBranch_eq hash hp 0 c.level
    rw [pow_zero, Nat.div_one, nodeAt_zero hp, Nat.zero_add, htop, ← List.range_eq_range',
      ← branchUpTo, ← hbranch] at hup
    rw [hup, ← hvalue, hroot]

/-- **The merkle root and its branches.** For fewer than `2 ^ 32` leaves the root is the one of the
levels, and the branch of each leaf leads to it, for just those lists that have at most `2 ^ 31`
leaves. -/
theorem merkle_computation_iff (hash : Uint256 → Uint256 → Uint256) (L : List Uint256)
    (hL : L ≠ []) (hlen : L.length < 2 ^ 32) :
    ((computeMerkleRoot hash L).map Prod.fst = some (levelRoot hash L) ∧
      ∀ (p : ℕ) (h : p < L.length),
        (computeMerkleBranch hash L p).map
          (fun branch => computeMerkleRootFromBranch hash L[p] branch p)
            = some (levelRoot hash L)) ↔
      L.length ≤ 2 ^ 31 := by
  constructor
  · rintro ⟨hroot, -⟩
    by_contra hgt
    rw [computeMerkleRoot, merkleComputation_eq_none hash false _ (not_le.mp hgt) hlen] at hroot
    cases hroot
  · intro hle
    have hlevels : levelRoot hash L = (Agenor.computeMerkleRoot hash L).1 := by
      rw [computeMerkleRoot_fst hL]
      exact levelRoot_eq hL (le_two_pow_treeHeight _) fun j hj => treeHeight_le hj
    refine ⟨?_, fun p hp => ?_⟩
    · obtain ⟨branch, hresult⟩ := merkleComputation_eq hash false (2 ^ 32 - 1) hle
      rw [computeMerkleRoot, hresult, hlevels]
      rfl
    · obtain ⟨branch, hbranch, hroot⟩ := computeMerkleBranch_eq hash hp hle
      rw [hbranch, Option.map_some, hroot, hlevels]

namespace Concrete

/-- Three leaves, the last one hashed with itself. -/
theorem merkle_computation_threeLeaves :
    (computeMerkleRoot Agenor.Concrete.pairHash [1, 2, 3]).map Prod.fst =
        some (levelRoot Agenor.Concrete.pairHash [1, 2, 3]) ∧
      (computeMerkleBranch Agenor.Concrete.pairHash [1, 2, 3] 2).map
        (fun branch => computeMerkleRootFromBranch Agenor.Concrete.pairHash 3 branch 2) =
          some (levelRoot Agenor.Concrete.pairHash [1, 2, 3]) := by
  obtain ⟨hroot, hbranch⟩ := (merkle_computation_iff Agenor.Concrete.pairHash [1, 2, 3]
    (by decide) (by decide)).mpr (by decide)
  exact ⟨hroot, hbranch 2 (by decide)⟩

/-- One leaf more than `2 ^ 31` has no root. -/
theorem merkle_computation_tooManyLeaves :
    ¬ ∀ (hash : Uint256 → Uint256 → Uint256) (L : List Uint256), L ≠ [] → L.length < 2 ^ 32 →
      (computeMerkleRoot hash L).map Prod.fst = some (levelRoot hash L) ∧
        ∀ (p : ℕ) (h : p < L.length),
          (computeMerkleBranch hash L p).map
            (fun branch => computeMerkleRootFromBranch hash L[p] branch p)
              = some (levelRoot hash L) := by
  intro hall
  have hlen : (List.replicate (2 ^ 31 + 1) (0 : Uint256)).length = 2 ^ 31 + 1 :=
    List.length_replicate
  obtain ⟨hroot, -⟩ := hall Agenor.Concrete.pairHash (List.replicate (2 ^ 31 + 1) 0)
    (List.ne_nil_of_length_pos (by omega)) (by omega)
  rw [computeMerkleRoot, merkleComputation_eq_none _ false _ (by omega) (by omega)] at hroot
  cases hroot

end Concrete

end Agenor.MerkleBranch
