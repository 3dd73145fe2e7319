import Agenor.FinalizedBudget
import Agenor.Lib.Greedy
import Mathlib.Tactic.Linarith
import Mathlib.Tactic.Ring

/-!
The allocation of the budget: `CBudgetManager::GetBudget`, and the cycles a proposal is paid in.

The proposals are sorted by their net yes votes, and in this order each one that passes is allotted
its amount if the rest of the budget allows it. This is a greedy pass as long as the sums do not
wrap, which `CBudgetProposal::UpdateValid` takes care of: it bounds every amount by a total budget.
-/

namespace Agenor

open Lib

/-- A proposal, with what the allocation reads and writes besides. -/
structure BudgetCandidate extends CBudgetProposal where
  fValid : Bool
  nAlloted : ℤ

def nProposalEstablishmentTime : Network → ℤ
  | .MAIN => 60 * 60 * 24
  | .TESTNET => 60 * 5
  | .REGTEST => 60 * 5

namespace CBudgetProposal

variable (p : CBudgetProposal)

def netYes : ℤ := p.getVoteCount .VOTE_YES - p.getVoteCount .VOTE_NO

/-- `PtrHigherYes`: a tie is broken by the hash of the fee transaction. -/
def ptrHigherYes (a b : CBudgetProposal) : Bool :=
  if a.netYes = b.netYes then decide (b.nFeeTXHash < a.nFeeTXHash)
  else decide (b.netYes < a.netYes)

def isEstablished (consensus : ChainParams) (nAdjustedTime : ℤ) : Bool :=
  decide (p.nTime < nAdjustedTime - nProposalEstablishmentTime consensus.networkID)

/-- The conditions of `IsPassing` on the blocks of a cycle. -/
def inCycle (nBlockStartBudget nBlockEndBudget : ℤ) : Bool :=
  !decide (nBlockStartBudget < p.nBlockStart) && !decide (p.nBlockEnd < nBlockEndBudget)

end CBudgetProposal

def BudgetCandidate.isPassing (consensus : ChainParams) (nAdjustedTime : ℤ)
    (nBlockStartBudget nBlockEndBudget : ℤ) (mnCount : ℕ) (p : BudgetCandidate) : Bool :=
  if !p.fValid then false
  else if !p.inCycle nBlockStartBudget nBlockEndBudget then false
  else if p.netYes ≤ (mnCount : ℤ) / 10 then false
  else if !p.isEstablished consensus nAdjustedTime then false
  else true

/-! ### The allocation -/

/-- A proposal under its hash; the source holds pointers to these. -/
abbrev BudgetEntry := Sigma fun _ : Uint256 => BudgetCandidate

namespace BudgetEntry

variable (e : BudgetEntry)

def setAllotted (nAlloted : ℤ) : BudgetEntry := ⟨e.1, { e.2 with nAlloted }⟩

/-- The proposal with all it asks for. -/
def allotted : BudgetEntry := setAllotted e e.2.nAmount

end BudgetEntry

open BudgetEntry in
/-- The loop of `GetBudget`: the proposals it returns, and all of them as it leaves them. -/
def grabBudgets (passing : BudgetCandidate → Bool) (nTotalBudget : ℤ) :
    ℤ → List BudgetEntry → List BudgetEntry × List BudgetEntry
  | _, [] => ([], [])
  | nBudgetAllocated, e :: rest =>
    if passing e.2 then
      if int64 (e.2.nAmount + nBudgetAllocated) ≤ nTotalBudget then
        let (ret, left) :=
          grabBudgets passing nTotalBudget (int64 (nBudgetAllocated + e.2.nAmount)) rest
        (allotted e :: ret, allotted e :: left)
      else
        let (ret, left) := grabBudgets passing nTotalBudget nBudgetAllocated rest
        (ret, setAllotted e 0 :: left)
    else
      let (ret, left) := grabBudgets passing nTotalBudget nBudgetAllocated rest
      (ret, e :: left)

/-- What `std::sort` does with `PtrHigherYes`; proposals that tie may come in any order. -/
structure HigherYesSort (v w : List BudgetEntry) : Prop where
  perm : w.Perm v
  sorted : w.Pairwise fun a b => b.2.ptrHigherYes a.2.toCBudgetProposal = false

/-- The first block of the budget cycle after a height. -/
def nextCycleStart (consensus : ChainParams) (nHeight : ℤ) : ℤ :=
  nHeight - nHeight.tmod consensus.nBudgetCycleBlocks + consensus.nBudgetCycleBlocks

/-- The test of `GetBudget` for the cycle after the best block. -/
def passesNext (env : BudgetEnv) (nAdjustedTime : ℤ) (p : BudgetCandidate) : Bool :=
  let nBlockStart := nextCycleStart env.consensus env.nBestHeight
  p.isPassing env.consensus nAdjustedTime nBlockStart
    (nBlockStart + env.consensus.nBudgetCycleBlocks - 1) env.countEnabled

/-- The proposals after their votes have been cleaned up. -/
def cleanedProposals (env : BudgetEnv) (mapProposals : VoteMap BudgetCandidate) :
    List BudgetEntry :=
  (mapProposals.mapValues fun p =>
    { p with toCBudgetProposal := p.toCBudgetProposal.cleanAndRemove env.isKnown }).entries

/-- `CBudgetManager::GetBudget`: what it returns, and the proposals as it leaves them. -/
def getBudget (env : BudgetEnv) (nAdjustedTime : ℤ) (sort : List BudgetEntry → List BudgetEntry)
    (mapProposals : VoteMap BudgetCandidate) : List BudgetEntry × List BudgetEntry :=
  if env.nBestHeight ≤ 0 then ([], mapProposals.entries)
  else
    let nTotalBudget := getTotalBudget env.consensus (nextCycleStart env.consensus env.nBestHeight)
    grabBudgets (passesNext env nAdjustedTime) nTotalBudget 0
      (sort (cleanedProposals env mapProposals))

lemma CBudgetProposal.netYes_le {a b : CBudgetProposal} (h : b.ptrHigherYes a = false) :
    b.netYes ≤ a.netYes := by
  rw [ptrHigherYes] at h
  split_ifs at h with hnet
  · exact hnet.le
  · exact not_lt.mp (of_decide_eq_false h)

/-- What `GetBudget` returns is an allocation of the proposals in this order. -/
structure IsAllocation (passing : BudgetCandidate → Bool) (nTotalBudget : ℤ)
    (sorted ret : List BudgetEntry) : Prop where
  /-- Every proposal is returned once, passes, and is allotted its full amount. -/
  nodup : (ret.map (·.1)).Nodup
  taken : ∀ r ∈ ret, ∃ e ∈ sorted, passing e.2 = true ∧ r = e.allotted
  ordered : ret.Pairwise fun a b => b.2.netYes ≤ a.2.netYes
  total : (ret.map (·.2.nAlloted)).sum ≤ nTotalBudget
  /-- A proposal that passes is left out exactly when it did not fit into what was left by those
  returned before its turn. -/
  maximal : ∀ front e rest, sorted = front ++ e :: rest → passing e.2 = true →
    ∃ before after, ret = before ++ after ∧ (∀ r ∈ before, r.1 ∈ front.map (·.1)) ∧
      (∀ r ∈ after, r.1 ∉ front.map (·.1)) ∧
      (e.1 ∉ ret.map (·.1) ↔ nTotalBudget < (before.map (·.2.nAlloted)).sum + e.2.nAmount)

section Allocation

variable {passing : BudgetCandidate → Bool} {nTotalBudget : ℤ} {l : List BudgetEntry}

/-- The amount a proposal asks for. -/
def BudgetEntry.amount (e : BudgetEntry) : ℤ := e.2.nAmount

open BudgetEntry

lemma grabBudgets_eq_greedy {used : ℤ} (hused : 0 ≤ used) (hle : used ≤ nTotalBudget)
    (hl : ∀ e ∈ l, 0 ≤ e.amount ∧ e.amount < 2 ^ 63 - nTotalBudget) :
    (grabBudgets passing nTotalBudget used l).1 =
      (greedy amount nTotalBudget used (l.filter (passing ·.2))).map allotted := by
  induction l generalizing used with
  | nil => rfl
  | cons e l ih =>
    obtain ⟨he, hl⟩ := List.forall_mem_cons.mp hl
    have hsum : int64 (used + e.amount) = used + e.amount :=
      Lib.Wrap.wrap_of_fits (by omega) (by omega)
    have hsum' : int64 (e.2.nAmount + used) = used + e.amount := by
      rw [add_comm]
      exact hsum
    rw [grabBudgets, List.filter_cons]
    by_cases hpass : passing e.2 = true
    · rw [if_pos hpass, if_pos hpass, greedy, hsum']
      split_ifs with hfit
      · have hrest := ih (by omega : 0 ≤ used + e.amount) hfit hl
        rw [← hsum] at hrest
        rw [← hsum, List.map_cons, ← hrest]
        rfl
      · exact ih hused hle hl
    · rw [if_neg hpass, if_neg hpass]
      exact ih hused hle hl

lemma sum_allotted (v : List BudgetEntry) :
    ((v.map allotted).map (·.2.nAlloted)).sum = (v.map amount).sum := by
  rw [List.map_map]
  rfl

lemma keys_allotted (v : List BudgetEntry) : (v.map allotted).map (·.1) = v.map (·.1) := by
  rw [List.map_map]
  rfl

lemma isAllocation_greedy (htotal : 0 ≤ nTotalBudget) (hkeys : (l.map (·.1)).Nodup)
    (hsorted : l.Pairwise fun a b => b.2.ptrHigherYes a.2.toCBudgetProposal = false) :
    IsAllocation passing nTotalBudget l
      ((greedy amount nTotalBudget 0 (l.filter (passing ·.2))).map allotted) := by
  have hsub := greedy_sublist amount nTotalBudget 0 (l.filter (passing ·.2))
  have hall := hsub.trans List.filter_sublist
  constructor
  · rw [keys_allotted]
    exact (hall.map _).nodup hkeys
  · intro r hr
    obtain ⟨e, he, rfl⟩ := List.mem_map.mp hr
    obtain ⟨hel, hpass⟩ := List.mem_filter.mp (hsub.subset he)
    exact ⟨e, hel, hpass, rfl⟩
  · rw [List.pairwise_map]
    exact (hsorted.sublist hall).imp fun h => CBudgetProposal.netYes_le h
  · rw [sum_allotted]
    simpa [greedyWeight] using greedyWeight_le amount (l.filter (passing ·.2)) htotal
  · rintro front e rest rfl hpass
    set w : List BudgetEntry := front.filter (passing ·.2) with hw
    have hfilter : (front ++ e :: rest).filter (passing ·.2) =
        w ++ e :: rest.filter (passing ·.2) := by
      rw [List.filter_append, List.filter_cons, if_pos hpass]
    rw [List.map_append, List.map_cons] at hkeys
    obtain ⟨-, htail, hdisjoint⟩ := List.nodup_append.mp hkeys
    have hnodup : (w ++ e :: rest.filter (passing ·.2)).Nodup := by
      rw [← hfilter]
      refine List.Nodup.filter _ (List.Nodup.of_map (·.1) ?_)
      rwa [List.map_append, List.map_cons]
    have hmem := mem_greedy_iff amount nTotalBudget 0 hnodup
    rw [hfilter, keys_allotted]
    rw [greedy_append, List.map_append]
    refine ⟨_, _, rfl, ?_, ?_, ?_⟩
    · intro r hr
      obtain ⟨x, hx, rfl⟩ := List.mem_map.mp hr
      exact List.mem_map.mpr ⟨x, (List.mem_filter.mp ((greedy_sublist ..).subset hx)).1, rfl⟩
    · intro r hr hfront
      obtain ⟨x, hx, rfl⟩ := List.mem_map.mp hr
      refine hdisjoint _ hfront x.1 ?_ rfl
      have hx := (greedy_sublist ..).subset hx
      rcases List.mem_cons.mp hx with rfl | hx
      · exact List.mem_cons_self ..
      · exact List.mem_cons_of_mem _ (List.mem_map.mpr ⟨x, (List.mem_filter.mp hx).1, rfl⟩)
    · rw [sum_allotted, ← not_le, not_iff_not, ← greedy_append]
      have hkey : e.1 ∈ (greedy amount nTotalBudget 0 (w ++ e :: rest.filter (passing ·.2))).map
          (·.1) ↔ e ∈ greedy amount nTotalBudget 0 (w ++ e :: rest.filter (passing ·.2)) := by
        refine ⟨fun h => ?_, List.mem_map_of_mem⟩
        obtain ⟨x, hx, hxe⟩ := List.mem_map.mp h
        rcases List.mem_append.mp ((greedy_sublist ..).subset hx) with hfront | hback
        · exact absurd hxe (hdisjoint _ (List.mem_map_of_mem (List.mem_filter.mp hfront).1) _
            (List.mem_cons_self ..))
        · rcases List.mem_cons.mp hback with rfl | hback
          · exact hx
          · refine absurd ?_ (List.nodup_cons.mp htail).1
            exact hxe ▸ List.mem_map_of_mem (List.mem_filter.mp hback).1
      rw [hkey, hmem, zero_add]
      rfl

end Allocation

lemma amount_of_updateValid {env : BudgetEnv} {H : BudgetHashes} {p : CBudgetProposal}
    (h : p.updateValid env H = true) (nHeight : ℤ) :
    0 ≤ p.nAmount ∧ p.nAmount < 2 ^ 63 - getTotalBudget env.consensus nHeight := by
  have hcap := getTotalBudget_lt env.consensus nHeight
  have hstart := getTotalBudget_lt env.consensus p.nBlockStart
  simp only [CBudgetProposal.updateValid, Bool.ite_eq_true_distrib, Bool.false_eq_true,
    if_false_left] at h
  obtain ⟨-, -, -, hmin, -, -, -, hmax, -⟩ := h
  rw [COIN] at hmin
  norm_num at hcap hstart hmin hmax ⊢
  omega

/-- **Allocation of the budget.** Whatever the proposals and the votes are: when no amount is
negative or so large that it wraps together with a total budget, `GetBudget` returns an
allocation. -/
theorem getBudget_isAllocation (env : BudgetEnv) (nAdjustedTime : ℤ)
    (sort : List BudgetEntry → List BudgetEntry) (mapProposals : VoteMap BudgetCandidate)
    (hheight : 0 < env.nBestHeight)
    (hsort : HigherYesSort (cleanedProposals env mapProposals)
      (sort (cleanedProposals env mapProposals)))
    (hamounts : ∀ e ∈ mapProposals.entries, 0 ≤ e.2.nAmount ∧ e.2.nAmount <
      2 ^ 63 - getTotalBudget env.consensus (nextCycleStart env.consensus env.nBestHeight)) :
    IsAllocation (passesNext env nAdjustedTime)
      (getTotalBudget env.consensus (nextCycleStart env.consensus env.nBestHeight))
      (sort (cleanedProposals env mapProposals))
      (getBudget env nAdjustedTime sort mapProposals).1 := by
  have htotal := (getTotalBudget_lt env.consensus (nextCycleStart env.consensus env.nBestHeight)).1
  have hkeys : ((sort (cleanedProposals env mapProposals)).map (·.1)).Nodup :=
    (hsort.perm.map _).nodup_iff.mpr (AList.nodupKeys _)
  have hl : ∀ e ∈ sort (cleanedProposals env mapProposals), 0 ≤ e.amount ∧ e.amount <
      2 ^ 63 - getTotalBudget env.consensus (nextCycleStart env.consensus env.nBestHeight) := by
    intro e he
    obtain ⟨x, hx, rfl⟩ := List.mem_map.mp (hsort.perm.subset he)
    exact hamounts x hx
  rw [getBudget, if_neg (not_le.mpr hheight)]
  dsimp only
  rw [grabBudgets_eq_greedy le_rfl htotal hl]
  exact isAllocation_greedy htotal hkeys hsort.sorted

namespace Concrete

/-- The yes votes of so many masternodes. -/
def yesVotes (n : ℕ) : VoteMap CBudgetVote :=
  (List.range n).foldl (fun m i => m.insert (BitVec.ofNat 256 i) (roadVote (BitVec.ofNat 256 i))) ∅

/-- A proposal with so many votes that asks for an amount. -/
def askingFor (n : ℕ) (nAmount : ℤ) : BudgetCandidate :=
  { road with mapVotes := yesVotes n, nAmount, fValid := true, nAlloted := 0 }

/-- Two proposals; the one with more votes comes first. -/
def twoProposals (nAmount nAmount' : ℤ) : VoteMap BudgetCandidate :=
  ((∅ : VoteMap BudgetCandidate).insert 2 (askingFor 3 nAmount')).insert 1 (askingFor 4 nAmount)

end Concrete

open Concrete in
/-- Two proposals that ask for a hundred coins each. -/
theorem getBudget_isAllocation_of_two :
    IsAllocation (passesNext roadEnv 1600000000)
      (getTotalBudget testNetParams (nextCycleStart testNetParams 100))
      (cleanedProposals roadEnv (twoProposals (100 * COIN) (100 * COIN)))
      (getBudget roadEnv 1600000000 id (twoProposals (100 * COIN) (100 * COIN))).1 :=
  getBudget_isAllocation roadEnv 1600000000 id (twoProposals (100 * COIN) (100 * COIN)) (by decide)
    ⟨.refl _, by decide⟩ (by decide)

open Concrete in
/-- The second proposal asks for almost everything there is. The sum wraps, and both are
returned. -/
theorem getBudget_wraps :
    HigherYesSort (cleanedProposals roadEnv (twoProposals (100 * COIN) (2 ^ 63 - 1)))
      (id (cleanedProposals roadEnv (twoProposals (100 * COIN) (2 ^ 63 - 1)))) ∧
    getTotalBudget testNetParams (nextCycleStart testNetParams 100) <
      ((getBudget roadEnv 1600000000 id (twoProposals (100 * COIN) (2 ^ 63 - 1))).1.map
        (·.2.nAlloted)).sum :=
  ⟨⟨.refl _, by decide⟩, by decide⟩

/-! ### The cycles of a proposal -/

namespace CBudgetProposal

/-- The constructor of `CBudgetProposalBroadcast`: the end block has one block more than a cycle for
every payment. -/
def broadcast (consensus : ChainParams) (strProposalName strURL : String) (nPaymentCount : ℤ)
    (address : CScript) (nAmount nBlockStart : ℤ) (nFeeTXHash : Uint256) : CBudgetProposal :=
  let nBlocksPerCycle := consensus.nBudgetCycleBlocks
  let nCycleStart := nBlockStart - nBlockStart.tmod nBlocksPerCycle
  let nBlockEnd := int32 (nCycleStart + int32 (int32 (nBlocksPerCycle + 1) * nPaymentCount))
  { strProposalName, strURL, nBlockStart, nBlockEnd, nAmount, address, nFeeTXHash, nTime := 0,
    mapVotes := ∅ }

/-- A proposal is in range for the cycles of `n` payments from `start` on, counts as many, and is
not expired before the last of these cycles has ended. -/
structure PaidFor (consensus : ChainParams) (p : CBudgetProposal) (start n : ℤ) : Prop where
  cycles : ∀ k : ℤ,
    let nBlockStart := k * consensus.nBudgetCycleBlocks
    p.inCycle nBlockStart (nBlockStart + consensus.nBudgetCycleBlocks - 1) = true ↔
      ∃ j, 0 ≤ j ∧ j < n ∧ nBlockStart = start + j * consensus.nBudgetCycleBlocks
  count : p.getTotalPaymentCount consensus = n
  unexpired : ∀ nCurrentHeight, nCurrentHeight ≤ start + n * consensus.nBudgetCycleBlocks →
    p.isExpired consensus nCurrentHeight = false

section Broadcast

variable {consensus : ChainParams} {p : CBudgetProposal} {c s n : ℤ}

lemma inCycle_iff (hn : 1 ≤ n) (hnc : n + 1 < c) (hstart : p.nBlockStart = c * s)
    (hend : p.nBlockEnd = c * s + (c + 1) * n) (k : ℤ) :
    p.inCycle (k * c) (k * c + c - 1) = true ↔ ∃ j, 0 ≤ j ∧ j < n ∧ k * c = c * s + j * c := by
  have hrange : p.inCycle (k * c) (k * c + c - 1) = true ↔
      c * s ≤ k * c ∧ k * c + c - 1 ≤ c * s + (c + 1) * n := by
    rw [inCycle, hend, hstart]
    simp
  rw [hrange]
  constructor
  · rintro ⟨hlo, hhi⟩
    refine ⟨k - s, ?_, ?_, by ring⟩
    · nlinarith
    · -- one more cycle would need a block for every payment and one more
      by_contra hk
      rw [not_lt] at hk
      have hlast : c * n ≤ (k - s) * c := by nlinarith
      nlinarith
  · rintro ⟨j, hj, hjn, hk⟩
    have hlast : j * c + c ≤ n * c := by nlinarith
    rw [hk]
    constructor <;> nlinarith

lemma getTotalPaymentCount_of_fits (hn : 1 ≤ n) (hnc : n + 1 < c) (hfits : (c + 1) * n < 2 ^ 31)
    (hc : consensus.nBudgetCycleBlocks = c) (hstart : p.nBlockStart = c * s)
    (hend : p.nBlockEnd = c * s + (c + 1) * n) : p.getTotalPaymentCount consensus = n := by
  have hcycle : getBlockCycle consensus p.nBlockStart = c * s := by
    rw [getBlockCycle, hc, hstart, Int.mul_tmod_right, sub_zero]
  have hpos : 0 < (c + 1) * n := mul_pos (by omega) (by omega)
  rw [getTotalPaymentCount, hcycle, hend, add_sub_cancel_left, int32_of_fits (by omega) hfits, hc,
    Int.tdiv_eq_ediv_of_nonneg hpos.le, show (c + 1) * n = n + c * n by ring,
    Int.add_mul_ediv_left _ _ (by omega), Int.ediv_eq_zero_of_lt (by omega) (by omega), zero_add]

lemma not_paidFor_of_cut (hn : 1 ≤ n) (hnc : n + 1 < c) (hc31 : c < 2 ^ 31) (hs : 0 ≤ c * s)
    (hc : consensus.nBudgetCycleBlocks = c) (hstart : p.nBlockStart = c * s)
    (hend : p.nBlockEnd = int32 (c * s + (c + 1) * n)) (hcut : 2 ^ 31 ≤ c * s + (c + 1) * n) :
    ¬ p.PaidFor consensus (c * s) n := by
  intro hpaid
  have hlast : p.inCycle ((s + n - 1) * c) ((s + n - 1) * c + c - 1) = true := by
    have hcycle := hpaid.cycles (s + n - 1)
    rw [hc] at hcycle
    exact hcycle.mpr ⟨n - 1, by omega, by omega, by ring⟩
  have hle : c * s + n * c - 1 ≤ p.nBlockEnd := by
    have := hlast
    simp only [inCycle, Bool.and_eq_true, Bool.not_eq_true', decide_eq_false_iff_not, not_lt]
      at this
    linarith [this.2, (by ring : (s + n - 1) * c + c = c * s + n * c)]
  have hcycle : getBlockCycle consensus p.nBlockStart = c * s := by
    rw [getBlockCycle, hc, hstart, Int.mul_tmod_right, sub_zero]
  -- the end lies a multiple of `2 ^ 32` below what it should be
  obtain ⟨q, hq⟩ : ∃ q : ℤ, c * s + (c + 1) * n - p.nBlockEnd = 2 ^ 32 * q := by
    rw [hend]
    exact_mod_cast Int.dvd_self_sub_bmod (x := c * s + (c + 1) * n) (m := 2 ^ 32)
  have hlt : p.nBlockEnd < 2 ^ 31 := hend ▸ Lib.Wrap.wrap_lt _
  have hnc' : c ≤ n * c := by nlinarith
  have hcount := hpaid.count
  rw [getTotalPaymentCount, hcycle, hc, int32_of_fits (by omega) (by omega),
    Int.tdiv_eq_ediv_of_nonneg (by omega)] at hcount
  have hge : n * c ≤ p.nBlockEnd - c * s := by
    have := Int.ediv_mul_le (p.nBlockEnd - c * s) (show c ≠ 0 by omega)
    rwa [hcount] at this
  have hq1 : 0 < q := by
    by_contra hq0
    nlinarith
  nlinarith

end Broadcast

/-- **As many payments as asked for.** A proposal that starts with a cycle and asks for fewer
payments than a cycle has blocks is paid for that many cycles just when its end block is one that an
`int` can hold. -/
theorem broadcast_paidFor_iff (consensus : ChainParams) (strProposalName strURL : String)
    (address : CScript) (nAmount : ℤ) (nFeeTXHash : Uint256) (c n start : ℤ)
    (hc : consensus.nBudgetCycleBlocks = c) (hc31 : c < 2 ^ 31) (hn : 1 ≤ n) (hnc : n + 1 < c)
    (hpos : 0 ≤ start) (hstart : start.tmod c = 0) :
    (broadcast consensus strProposalName strURL n address nAmount start nFeeTXHash).PaidFor
      consensus start n ↔ start + (c + 1) * n < 2 ^ 31 := by
  obtain ⟨s, rfl⟩ := Int.dvd_of_tmod_eq_zero hstart
  set p := broadcast consensus strProposalName strURL n address nAmount (c * s) nFeeTXHash with hp
  have hblock : p.nBlockStart = c * s := rfl
  have hend : p.nBlockEnd = int32 (c * s + (c + 1) * n) := by
    rw [hp, broadcast]
    dsimp only
    rw [hc, Int.mul_tmod_right, sub_zero, int32_int32_mul, int32_add_int32]
  constructor
  · intro hpaid
    by_contra hcut
    exact not_paidFor_of_cut hn hnc hc31 hpos hc hblock hend (not_lt.mp hcut) hpaid
  · intro hfits
    have hprod : 0 < (c + 1) * n := mul_pos (by omega) (by omega)
    rw [int32_of_fits (by omega) hfits] at hend
    have hcount := getTotalPaymentCount_of_fits hn hnc (by omega) hc hblock hend
    refine ⟨fun k => ?_, hcount, fun nCurrentHeight hheight => ?_⟩
    · rw [hc]
      exact inCycle_iff hn hnc hblock hend k
    · rw [hc] at hheight
      have hsum : (c + 1) * n = n + c * n := by ring
      have hcn : 0 < c * n := mul_pos (by omega) (by omega)
      rw [isExpired, hcount, hc, hblock, int32_add_int32, int32_of_fits (by omega) (by omega)]
      split_ifs
      · rfl
      · exact decide_eq_false (by linarith [mul_comm c n])

end CBudgetProposal

open Concrete CBudgetProposal in
/-- Two payments on the test network, from block 144 on. -/
theorem broadcast_paidFor_two_cycles :
    (broadcast testNetParams "road" "" 2 [Script.OP_1] (100 * COIN) 144 9).PaidFor testNetParams
      144 2 :=
  (broadcast_paidFor_iff testNetParams "road" "" [Script.OP_1] (100 * COIN) 9 144 2 144 rfl
    (by decide) (by decide) (by decide) (by decide) (by decide)).mpr (by decide)

open Concrete CBudgetProposal in
/-- On the main network a proposal for 43198 payments from block 281318400 on ends before it
starts. -/
theorem not_broadcast_paidFor_large :
    mainParams.nBudgetCycleBlocks = 43200 ∧ (281318400 : ℤ).tmod 43200 = 0 ∧
      (43198 : ℤ) + 1 < 43200 ∧
      (broadcast mainParams "road" "" 43198 [Script.OP_1] (100 * COIN) 281318400 9).nBlockEnd =
        -2147452098 ∧
      ¬ (broadcast mainParams "road" "" 43198 [Script.OP_1] (100 * COIN) 281318400 9).PaidFor
        mainParams 281318400 43198 := by
  refine ⟨rfl, by decide, by decide, by decide, fun hpaid => ?_⟩
  have hfirst := (hpaid.cycles 6512).mpr ⟨0, by decide, by decide, by decide⟩
  revert hfirst
  decide

end Agenor
