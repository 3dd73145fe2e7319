import Agenor.BudgetVotes
import Agenor.Superblocks

/-!
Finalized budgets: what `CFinalizedBudget::UpdateValid` lets through, and which votes are counted
after `CleanAndRemove`.

The total that `UpdateValid` compares is a sum of signed 64-bit integers, and no payment is looked
at alone. A negative amount or a sum that wraps passes, and so does a budget without payments, which
ends before it starts.

`CleanAndRemove` marks the votes of masternodes that are gone and removes none. A proposal counts
the votes that are left valid; a finalized budget counts all of them.
-/

namespace Agenor

/-! ### Validity -/

/-- What the texts of `UpdateValid` and the hash of a budget are made from. -/
structure BudgetTexts where
  /-- The name of a proposal, or its hash when it is not known. -/
  proposal : Uint256 → String
  /-- What `IsBudgetCollateralValid` says against a fee transaction. -/
  collateral : Uint256 → String
  /-- `CFinalizedBudget::GetHash`. -/
  getHash : String → ℤ → List CTxBudgetPayment → Uint256

namespace CFinalizedBudget

variable (b : CFinalizedBudget)

/-- `GetTotalPayout`, a sum of signed 64-bit integers. -/
def getTotalPayout : ℤ := b.vecBudgetPayments.foldl (fun ret p => int64 (ret + p.nAmount)) 0

def getProposals (texts : BudgetTexts) : String :=
  b.vecBudgetPayments.foldl (fun ret p =>
    if ret = "" then texts.proposal p.nProposalHash
    else ret ++ "," ++ texts.proposal p.nProposalHash) ""

def reject (text : String) : CFinalizedBudget :=
  { b with fValid := false, strInvalid := text }

/-- `CFinalizedBudget::UpdateValid`. The value it returns is `fValid`. -/
def updateValid (env : BudgetEnv) (texts : BudgetTexts) (nCurrentHeight : ℤ)
    (fCheckCollateral : Bool) : CFinalizedBudget :=
  let nBlocksPerCycle := env.consensus.nBudgetCycleBlocks
  let label := "Budget " ++ b.strBudgetName ++ " (" ++ b.getProposals texts ++ ")"
  if b.nBlockStart.tmod nBlocksPerCycle ≠ 0 then b.reject "Invalid BlockStart"
  else if 100 < b.getBlockEnd - b.nBlockStart then b.reject "Invalid BlockEnd"
  else if 100 < b.vecBudgetPayments.length then
    b.reject "Invalid budget payments count (too many)"
  else if b.strBudgetName = "" then b.reject "Invalid Budget Name"
  else if b.nBlockStart = 0 then b.reject (label ++ " Invalid BlockStart == 0")
  else if b.nFeeTXHash = 0 then b.reject (label ++ " Invalid FeeTx == 0")
  else if getTotalBudget env.consensus b.nBlockStart < b.getTotalPayout then
    b.reject (label ++ " Invalid Payout (more than max)")
  else
    let collateral := isBudgetCollateralValid env b.nFeeTXHash
      (texts.getHash b.strBudgetName b.nBlockStart b.vecBudgetPayments) b.nTime true
    let b := if fCheckCollateral then { b with nTime := collateral.2.1 } else b
    if fCheckCollateral && !collateral.1 then
      b.reject (label ++ " Invalid Collateral : " ++ texts.collateral b.nFeeTXHash)
    else
      -- the last payment must not lie two cycles before the current one
      let nBlockStart := nCurrentHeight - nCurrentHeight.tmod nBlocksPerCycle + nBlocksPerCycle
      let nMaxAge := nBlockStart - 2 * nBlocksPerCycle
      if b.getBlockEnd < nMaxAge then
        b.reject (label ++ " (ends at block " ++ toString b.getBlockEnd ++ ") too old and obsolete")
      else { b with fValid := true, strInvalid := "" }

variable {b}

lemma of_ite_reject {c : Prop} [Decidable c] {text : String} {r : CFinalizedBudget}
    (h : (if c then b.reject text else r).fValid = true) : ¬ c ∧ r.fValid = true := by
  by_cases hc : c
  · rw [if_pos hc] at h
    cases h
  · rw [if_neg hc] at h
    exact ⟨hc, h⟩

lemma length_of_updateValid {env : BudgetEnv} {texts : BudgetTexts} {nCurrentHeight : ℤ}
    {fCheckCollateral : Bool}
    (h : (b.updateValid env texts nCurrentHeight fCheckCollateral).fValid = true) :
    b.vecBudgetPayments.length ≤ 100 ∧
      b.getTotalPayout ≤ getTotalBudget env.consensus b.nBlockStart := by
  obtain ⟨-, h⟩ := of_ite_reject h
  obtain ⟨-, h⟩ := of_ite_reject h
  obtain ⟨hlen, h⟩ := of_ite_reject h
  obtain ⟨-, h⟩ := of_ite_reject h
  obtain ⟨-, h⟩ := of_ite_reject h
  obtain ⟨-, h⟩ := of_ite_reject h
  obtain ⟨hpayout, -⟩ := of_ite_reject h
  exact ⟨not_lt.mp hlen, not_lt.mp hpayout⟩

lemma getTotalPayout_eq (b : CFinalizedBudget) :
    b.getTotalPayout = int64 (b.vecBudgetPayments.map (·.nAmount)).sum := by
  have hfold : ∀ (l : List CTxBudgetPayment) (x : ℤ),
      l.foldl (fun ret p => int64 (ret + p.nAmount)) (int64 x) =
        int64 (x + (l.map (·.nAmount)).sum) := by
    intro l
    induction l with
    | nil => simp
    | cons p l ih =>
      intro x
      rw [List.foldl_cons, int64_int64_add, ih, List.map_cons, List.sum_cons, add_assoc]
  simpa [getTotalPayout] using hfold b.vecBudgetPayments 0

end CFinalizedBudget

lemma getTotalBudget_lt (consensus : ChainParams) (nHeight : ℤ) :
    0 ≤ getTotalBudget consensus nHeight ∧ getTotalBudget consensus nHeight < 2 ^ 62 := by
  have hite : ∀ (c : Prop) [Decidable c] (x y k : ℤ), 0 ≤ x ∧ x < k → 0 ≤ y ∧ y < k →
      0 ≤ (if c then x else y) ∧ (if c then x else y) < k := by
    intro c _ x y k hx hy
    by_cases hc : c
    · rwa [if_pos hc]
    · rwa [if_neg hc]
  unfold getTotalBudget
  refine hite _ _ _ _ (by decide) (hite _ _ _ _ (by decide) ?_)
  have hsubsidy : ∀ n : ℤ, 0 ≤ n ∧ n < 51 * COIN →
      0 ≤ n / 100 * 10 * 1440 * 30 ∧ n / 100 * 10 * 1440 * 30 < 2 ^ 62 := by
    intro n hn
    rw [COIN] at hn
    norm_num at hn ⊢
    omega
  apply hsubsidy
  iterate 11 refine hite _ _ _ _ (by decide) ?_
  decide

namespace CFinalizedBudget

/-- What a budget that pays no more than it may looks like. -/
structure Sane (consensus : ChainParams) (b : CFinalizedBudget) : Prop where
  amounts : ∀ p ∈ b.vecBudgetPayments,
    0 ≤ p.nAmount ∧ p.nAmount ≤ getTotalBudget consensus b.nBlockStart
  total : (b.vecBudgetPayments.map (·.nAmount)).sum ≤ getTotalBudget consensus b.nBlockStart
  payments : b.vecBudgetPayments.length ≤ 100
  range : b.nBlockStart ≤ b.getBlockEnd

end CFinalizedBudget

/-- **Sanity of finalized budgets.** A budget that `UpdateValid` accepts is sane exactly when it has
payments, none of them is negative, and their sum does not leave the range of amounts. -/
theorem finalizedBudget_sane_iff (b : CFinalizedBudget) (env : BudgetEnv)
    (texts : BudgetTexts) (nCurrentHeight : ℤ) (fCheckCollateral : Bool)
    (hvalid : (b.updateValid env texts nCurrentHeight fCheckCollateral).fValid = true) :
    b.Sane env.consensus ↔ b.vecBudgetPayments ≠ [] ∧
      (∀ p ∈ b.vecBudgetPayments, 0 ≤ p.nAmount) ∧
      (b.vecBudgetPayments.map (·.nAmount)).sum < 2 ^ 63 := by
  obtain ⟨hlen, hpayout⟩ := CFinalizedBudget.length_of_updateValid hvalid
  have htotal := getTotalBudget_lt env.consensus b.nBlockStart
  constructor
  · intro h
    refine ⟨?_, fun p hp => (h.amounts p hp).1, ?_⟩
    · intro hnil
      have hrange := h.range
      rw [CFinalizedBudget.getBlockEnd, hnil] at hrange
      simp at hrange
    · have hsum := h.total
      norm_num at htotal ⊢
      omega
  · rintro ⟨hne, hpos, hfits⟩
    have hamounts : ∀ x ∈ b.vecBudgetPayments.map (·.nAmount), (0 : ℤ) ≤ x := by
      intro x hx
      obtain ⟨p, hp, rfl⟩ := List.mem_map.mp hx
      exact hpos p hp
    have hsum : (b.vecBudgetPayments.map (·.nAmount)).sum ≤
        getTotalBudget env.consensus b.nBlockStart := by
      have hnonneg := List.sum_nonneg hamounts
      have heq : b.getTotalPayout = (b.vecBudgetPayments.map (·.nAmount)).sum := by
        rw [b.getTotalPayout_eq]
        exact Lib.Wrap.wrap_of_fits (by omega) hfits
      rwa [heq] at hpayout
    refine ⟨fun p hp => ⟨hpos p hp, ?_⟩, hsum, hlen, ?_⟩
    · exact (List.single_le_sum hamounts _ (List.mem_map_of_mem hp)).trans hsum
    · have hlen : 0 < b.vecBudgetPayments.length := List.length_pos_of_ne_nil hne
      rw [CFinalizedBudget.getBlockEnd]
      omega

namespace Concrete

/-- A finalized budget that pays these amounts. -/
def budgetOf (amounts : List ℤ) : CFinalizedBudget :=
  { nBlockStart := 144
    vecBudgetPayments := amounts.map fun n => ⟨4, [Script.OP_1], n⟩
    mapVotes := ∅
    strBudgetName := "main"
    nFeeTXHash := 9
    nTime := 0
    fValid := false
    strInvalid := "" }

/-- Every proposal has the same name, every finalized budget the same hash. -/
def plainTexts : BudgetTexts := ⟨fun _ => "road", fun _ => "", fun _ _ _ => 4⟩

set_option maxRecDepth 20000 in
lemma budgetOf_valid :
    ((budgetOf [2 ^ 62, 2 ^ 62]).updateValid roadEnv plainTexts 100 true).fValid = true ∧
      ((budgetOf [100 * COIN, 0, 250 * COIN]).updateValid roadEnv plainTexts 100 true).fValid =
        true := by
  decide

end Concrete

open Concrete in
/-- A budget with payments of 100, 0 and 250 coins is sane. -/
theorem finalizedBudget_sane_of_three :
    (budgetOf [100 * COIN, 0, 250 * COIN]).Sane roadEnv.consensus :=
  (finalizedBudget_sane_iff _ roadEnv plainTexts 100 true budgetOf_valid.2).mpr
    ⟨by decide, by decide, by decide⟩

open Concrete in
/-- Two payments of `2 ^ 62` each wrap to a negative total, and the budget is accepted. -/
theorem wrapping_budget_accepted :
    ((budgetOf [2 ^ 62, 2 ^ 62]).updateValid roadEnv plainTexts 100 true).fValid = true ∧
      ¬ (budgetOf [2 ^ 62, 2 ^ 62]).Sane roadEnv.consensus := by
  refine ⟨budgetOf_valid.1, fun h => ?_⟩
  have hsum := h.total
  revert hsum
  decide

/-! ### Votes of masternodes that are gone -/

/-- Every vote is changed where it is. -/
def VoteMap.mapValues {V W : Type} (f : V → W) (m : VoteMap V) : VoteMap W where
  entries := m.entries.map fun e => ⟨e.1, f e.2⟩
  nodupKeys := by
    rw [List.NodupKeys, List.keys, List.map_map]
    exact m.nodupKeys

/-- `CFinalizedBudget::CleanAndRemove`: no vote is removed. -/
def CFinalizedBudget.cleanAndRemove (isKnown : COutPoint → Bool) (b : CFinalizedBudget) :
    CFinalizedBudget :=
  { b with mapVotes := b.mapVotes.mapValues fun vote =>
      { vote with fValid := isKnown vote.vin.prevout } }

/-- `CBudgetProposal::CleanAndRemove`, which does the same. -/
def CBudgetProposal.cleanAndRemove (isKnown : COutPoint → Bool) (p : CBudgetProposal) :
    CBudgetProposal :=
  { p with mapVotes := p.mapVotes.mapValues fun vote =>
      { vote with fValid := isKnown vote.vin.prevout } }

/-- The two loops of `CBudgetManager::NewBlock` that clean up votes. -/
def CBudgetManager.cleanAndRemove (isKnown : COutPoint → Bool) (s : CBudgetManager) :
    CBudgetManager :=
  { s with
    mapProposals := fun nHash => (s.mapProposals nHash).map (·.cleanAndRemove isKnown)
    mapFinalizedBudgets := s.mapFinalizedBudgets.map fun e => (e.1, e.2.cleanAndRemove isKnown) }

namespace CFinalizedBudget

/-- The votes that are left valid. -/
def validVotes (b : CFinalizedBudget) : ℤ :=
  (b.mapVotes.entries.filter fun e => e.2.fValid).length

variable {isKnown : COutPoint → Bool} {b : CFinalizedBudget}

lemma validVotes_cleanAndRemove : (b.cleanAndRemove isKnown).validVotes =
    (b.mapVotes.entries.filter fun e => isKnown e.2.vin.prevout).length := by
  simp only [validVotes, cleanAndRemove, VoteMap.mapValues, List.filter_map, List.length_map]
  rfl

lemma getVoteCount_cleanAndRemove :
    (b.cleanAndRemove isKnown).getVoteCount = b.mapVotes.entries.length := by
  simp only [getVoteCount, cleanAndRemove, VoteMap.mapValues, List.length_map]

lemma getVoteCount_eq_validVotes_iff :
    (b.cleanAndRemove isKnown).getVoteCount = (b.cleanAndRemove isKnown).validVotes ↔
      ∀ e ∈ b.mapVotes.entries, isKnown e.2.vin.prevout = true := by
  rw [validVotes_cleanAndRemove, getVoteCount_cleanAndRemove, Nat.cast_inj, eq_comm,
    List.length_filter_eq_length_iff]

end CFinalizedBudget

lemma CBudgetProposal.getVoteCount_cleanAndRemove (isKnown : COutPoint → Bool) (p : CBudgetProposal)
    (vd : VoteDirection) : (p.cleanAndRemove isKnown).getVoteCount vd =
      (p.mapVotes.entries.filter fun e => e.2.nVote == vd && isKnown e.2.vin.prevout).length := by
  simp only [getVoteCount, cleanAndRemove, VoteMap.mapValues, List.filter_map, List.length_map]
  rfl

/-- **Who decides superblocks.** After a clean-up every proposal counts the votes of the masternodes
that are known. For the finalized budgets this is so exactly when all voters are known: the number
that superblocks are decided by is the number of votes ever stored. -/
theorem cleaned_counts_iff (isKnown : COutPoint → Bool) (s : CBudgetManager) :
    ((∀ e ∈ (s.cleanAndRemove isKnown).mapFinalizedBudgets,
        e.2.getVoteCount = e.2.validVotes) ↔
      ∀ e ∈ s.mapFinalizedBudgets, ∀ vote ∈ e.2.mapVotes.entries,
        isKnown vote.2.vin.prevout = true) ∧
    (∀ e ∈ s.mapFinalizedBudgets, (e.2.cleanAndRemove isKnown).validVotes =
      (e.2.mapVotes.entries.filter fun vote => isKnown vote.2.vin.prevout).length) ∧
    ∀ nHash p, s.mapProposals nHash = some p → ∃ q,
      (s.cleanAndRemove isKnown).mapProposals nHash = some q ∧ ∀ vd, q.getVoteCount vd =
        (p.mapVotes.entries.filter fun vote =>
          vote.2.nVote == vd && isKnown vote.2.vin.prevout).length := by
  refine ⟨?_, fun e _ => CFinalizedBudget.validVotes_cleanAndRemove, fun nHash p hp => ?_⟩
  · rw [CBudgetManager.cleanAndRemove, List.forall_mem_map]
    exact forall₂_congr fun e _ => CFinalizedBudget.getVoteCount_eq_validVotes_iff
  · refine ⟨p.cleanAndRemove isKnown, ?_, p.getVoteCount_cleanAndRemove isKnown⟩
    simp only [CBudgetManager.cleanAndRemove, hp, Option.map_some]

open Concrete in
/-- None of the five voters is a masternode any more, and their votes still make a superblock. -/
theorem vanished_voters_decide :
    let s := budgetState.cleanAndRemove fun _ => false
    s.isBudgetPaymentBlock 20 144 = true ∧
      ∃ e ∈ s.mapFinalizedBudgets, e.2.getVoteCount = 5 ∧ e.2.validVotes = 0 := by
  refine ⟨by decide, _, List.mem_cons_self .., by decide, by decide⟩

end Agenor
