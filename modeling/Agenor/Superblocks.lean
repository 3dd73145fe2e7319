import Agenor.Budget
import Agenor.ConnectBlock
import Mathlib.Algebra.Order.BigOperators.Group.List
import Mathlib.Algebra.Order.Group.Unbundled.Abs
import Mathlib.Data.Fintype.EquivFin

/-!
Superblocks: the budget payment a new block makes (`CBudgetManager::FillBlockPayee`) against the
check of that payment (`CBudgetManager::IsTransactionValid`), and what the check leaves open.

The producer takes the budget with the most votes. The check only looks at budgets with more votes
than the highest count less a tenth of the masternodes; with fewer than ten masternodes this leaves
out the budget with the most votes itself.
-/

namespace Agenor

namespace CFinalizedBudget

variable {b : CFinalizedBudget} {payment : CTxBudgetPayment} {hist : PaymentHistory} {h : ℤ}

lemma getVoteCount_nonneg (b : CFinalizedBudget) : 0 ≤ b.getVoteCount := by
  unfold getVoteCount
  omega

lemma exists_payment (hb : b.inRange h = true) :
    ∃ payment, b.getBudgetPaymentByBlock h = some payment := by
  unfold inRange getBlockEnd at hb
  rw [Bool.and_eq_true, decide_eq_true_eq, decide_eq_true_eq] at hb
  have hi : (h - b.nBlockStart).toNat < b.vecBudgetPayments.length := by omega
  refine ⟨b.vecBudgetPayments[(h - b.nBlockStart).toNat], ?_⟩
  unfold getBudgetPaymentByBlock
  rw [if_neg (by omega), if_neg (by omega), List.getElem?_eq_getElem hi]

/-! ### The check of one budget -/

lemma dropOtherCycles_eq_some {p : Uint256} {x : ℤ} :
    b.dropOtherCycles hist p = some x ↔ hist p = some x ∧ b.inRange x = true := by
  unfold dropOtherCycles inRange
  rw [Option.filter_eq_some_iff]
  simp

lemma isPaidAlready_of_paid {p : Uint256} {x : ℤ} (hx : hist p = some x) (hr : b.inRange x = true) :
    b.isPaidAlready p h hist = (true, b.dropOtherCycles hist) := by
  simp [isPaidAlready, dropOtherCycles_eq_some.mpr ⟨hx, hr⟩]

lemma pays_iff {o : CTxOut} :
    (payment.payee = o.scriptPubKey ∧ payment.nAmount = o.nValue) ↔ payment.out = o := by
  cases o
  simp [CTxBudgetPayment.out, and_comm]

lemma checkOutputs_cons (payment : CTxBudgetPayment) (h : ℤ) (st : TrxValidationStatus)
    (hist : PaymentHistory) (o : CTxOut) (rest : List CTxOut) :
    b.checkOutputs payment h st hist (o :: rest) =
      if payment.out = o then
        if (b.isPaidAlready payment.nProposalHash h hist).1 then
          (.DoublePayment, (b.isPaidAlready payment.nProposalHash h hist).2)
        else b.checkOutputs payment h .Valid (b.isPaidAlready payment.nProposalHash h hist).2 rest
      else b.checkOutputs payment h st hist rest := by
  rw [checkOutputs]
  simp only [pays_iff]

lemma checkOutputs_append {front : List CTxOut} (hfront : payment.out ∉ front)
    (st : TrxValidationStatus) (rest : List CTxOut) :
    b.checkOutputs payment h st hist (front ++ rest) = b.checkOutputs payment h st hist rest := by
  induction front with
  | nil => rfl
  | cons o front ih =>
    rw [List.mem_cons, not_or] at hfront
    rw [List.cons_append, checkOutputs_cons, if_neg hfront.1, ih hfront.2]

end CFinalizedBudget

namespace CBudgetManager

variable {s : CBudgetManager} {N : ℕ} {h T : ℤ} {b : CFinalizedBudget} {payment : CTxBudgetPayment}
  {hist : PaymentHistory}

/-! ### The budget with the most votes -/

lemma le_foldl_higher (l : List (Uint256 × CFinalizedBudget)) (n : ℤ) :
    n ≤ l.foldl (higher h) n := by
  induction l generalizing n with
  | nil => exact le_rfl
  | cons e l ih =>
    refine le_trans ?_ (ih (higher h n e))
    unfold higher
    split_ifs with hlt
    · exact hlt.1.le
    · exact le_rfl

lemma getVoteCount_le_foldl {l : List (Uint256 × CFinalizedBudget)} {e : Uint256 × CFinalizedBudget}
    (he : e ∈ l) (hr : e.2.inRange h = true) (n : ℤ) :
    e.2.getVoteCount ≤ l.foldl (higher h) n := by
  induction l generalizing n with
  | nil => cases he
  | cons a l ih =>
    rw [List.foldl_cons]
    rcases List.mem_cons.mp he with rfl | he
    · refine le_trans ?_ (le_foldl_higher l _)
      unfold higher
      split_ifs with hlt
      · exact le_rfl
      · exact not_lt.mp fun h => hlt ⟨h, hr⟩
    · exact ih he _

lemma foldl_higher_max (l : List (Uint256 × CFinalizedBudget)) (n : ℤ) :
    l.foldl (higher h) (max n 0) = max (l.foldl (higher h) n) 0 := by
  induction l generalizing n with
  | nil => rfl
  | cons e l ih =>
    have hstep : higher h (max n 0) e = max (higher h n e) 0 := by
      have := e.2.getVoteCount_nonneg
      unfold higher
      by_cases hr : e.2.inRange h = true
      · simp only [hr, and_true]
        split_ifs <;> omega
      · simp [hr]
    rw [List.foldl_cons, List.foldl_cons, hstep, ih]

lemma highestCount_zero : s.highestCount h 0 = max (s.highestCount h (-1)) 0 := by
  have hmax := foldl_higher_max (h := h) s.mapFinalizedBudgets (-1)
  rwa [max_eq_right (by decide)] at hmax

/-- One step of the walk of the producer, with the budget itself. -/
def elect (h : ℤ) (best : ℤ × Option CFinalizedBudget) (e : Uint256 × CFinalizedBudget) :
    ℤ × Option CFinalizedBudget :=
  if best.1 < e.2.getVoteCount ∧ e.2.inRange h = true then (e.2.getVoteCount, some e.2) else best

/-- The budget that the producer takes: the first one of the block with the most votes. -/
def elected (s : CBudgetManager) (h : ℤ) : Option CFinalizedBudget :=
  (s.mapFinalizedBudgets.foldl (elect h) (0, none)).2

lemma foldl_elect (l : List (Uint256 × CFinalizedBudget)) (best : ℤ × Option CFinalizedBudget) :
    (l.foldl (elect h) best).1 = l.foldl (higher h) best.1 ∧
      (l.foldl (elect h) best = best ∨ ∃ e ∈ l, e.2.inRange h = true ∧
        e.2.getVoteCount = l.foldl (higher h) best.1 ∧
        (l.foldl (elect h) best).2 = some e.2) := by
  induction l generalizing best with
  | nil => exact ⟨rfl, Or.inl rfl⟩
  | cons a l ih =>
    have hone : (elect h best a).1 = higher h best.1 a := by
      unfold elect higher
      split_ifs <;> rfl
    obtain ⟨hcount, hbest⟩ := ih (elect h best a)
    rw [hone] at hcount hbest
    refine ⟨hcount, ?_⟩
    rcases hbest with hsame | ⟨e, he, hr, hc, hb⟩
    · rw [List.foldl_cons, List.foldl_cons, hsame]
      by_cases hlt : best.1 < a.2.getVoteCount ∧ a.2.inRange h = true
      · right
        refine ⟨a, List.mem_cons_self, hlt.2, ?_, ?_⟩
        · rw [← hcount, hsame, elect, if_pos hlt]
        · rw [elect, if_pos hlt]
      · left
        rw [elect, if_neg hlt]
    · exact Or.inr ⟨e, List.mem_cons_of_mem _ he, hr, hc, hb⟩

/-- The output for what a budget pays at a height. -/
def paymentOut (h : ℤ) (b : Option CFinalizedBudget) : CTxOut :=
  ((b.bind fun b => b.getBudgetPaymentByBlock h).map CTxBudgetPayment.out).getD ⟨0, []⟩

lemma highestPayment_eq :
    s.highestPayment h = (s.highestCount h 0, paymentOut h (s.elected h)) := by
  have key : ∀ (l : List (Uint256 × CFinalizedBudget)) (best : ℤ × Option CFinalizedBudget),
      l.foldl (fun (best : ℤ × CTxOut) e =>
        if best.1 < e.2.getVoteCount ∧ e.2.inRange h = true then
          ((e.2.getBudgetPaymentByBlock h).map fun payment =>
            (e.2.getVoteCount, payment.out)).getD best
        else best) (best.1, paymentOut h best.2) =
      ((l.foldl (elect h) best).1, paymentOut h (l.foldl (elect h) best).2) := by
    intro l
    induction l with
    | nil => intro best; rfl
    | cons e l ih =>
      intro best
      rw [List.foldl_cons, List.foldl_cons, ← ih]
      congr 1
      by_cases hlt : best.1 < e.2.getVoteCount ∧ e.2.inRange h = true
      · obtain ⟨payment, hp⟩ := CFinalizedBudget.exists_payment hlt.2
        rw [if_pos hlt, elect, if_pos hlt, hp]
        simp [paymentOut, hp]
      · rw [if_neg hlt, elect, if_neg hlt]
  have hall := key s.mapFinalizedBudgets (0, none)
  rw [(foldl_elect s.mapFinalizedBudgets (0, none)).1] at hall
  exact hall

/-! ### What the producer builds -/

/-- The outputs of a new block other than the budget payment. -/
def otherOutputs (consensus : ChainParams) (h : ℤ) (fProofOfStake : Bool) (vout : List CTxOut) :
    List CTxOut :=
  if fProofOfStake then vout
  else [{ vout.headD CTxOut.null with nValue := consensus.getBlockValue h }]

lemma fillBlockPayee_eq (consensus : ChainParams) (hh : 1 < h) (hpos : 0 < s.highestCount h 0)
    (hb : s.elected h = some b) (hp : b.getBudgetPaymentByBlock h = some payment)
    (fProofOfStake : Bool) (vout : List CTxOut) :
    s.fillBlockPayee consensus (h - 1) fProofOfStake vout =
      otherOutputs consensus h fProofOfStake vout ++ [payment.out] := by
  have hpay : s.highestPayment h = (s.highestCount h 0, payment.out) := by
    rw [highestPayment_eq, hb]
    simp [paymentOut, hp]
  rw [fillBlockPayee, if_neg (by omega), sub_add_cancel, hpay]
  cases fProofOfStake <;> simp [otherOutputs, hpos]

/-- The votes a budget needs more of to be looked at. -/
def countThreshold (s : CBudgetManager) (N : ℕ) (h : ℤ) : ℤ :=
  s.highestCount h 0 - (N / 10 : ℕ)

end CBudgetManager

namespace Concrete

/-- The votes of so many masternodes on a finalized budget. -/
def budgetVotes (n : ℕ) : VoteMap CFinalizedBudgetVote :=
  (List.range n).foldl (fun m i => m.insert (BitVec.ofNat 256 i)
    ⟨true, ⟨⟨BitVec.ofNat 256 i, 0⟩, [], 0⟩, 5, 0, [], MESS_VER_HASH⟩) ∅

/-- A payment of a hundred coins. -/
def hundredCoins : CTxBudgetPayment := ⟨9, [Script.OP_1, Script.OP_CHECKSIG], 100 * COIN⟩

/-- A finalized budget for one block of the test network, with five votes. -/
def smallBudget : CFinalizedBudget :=
  { nBlockStart := 144
    vecBudgetPayments := [hundredCoins]
    mapVotes := budgetVotes 5 }

/-- The state of a node that knows this budget. -/
def budgetState : CBudgetManager :=
  { CBudgetManager.initial with mapFinalizedBudgets := [(5, smallBudget)] }

/-- The coinbase that the producer starts from. -/
def coinBaseTemplate : List CTxOut := [⟨-1, [Script.OP_1]⟩]

end Concrete

/-! ### What the check leaves open -/

namespace CBudgetManager

variable {s : CBudgetManager} {N : ℕ} {h : ℤ}

lemma isTransactionValid_append_other {o : CTxOut}
    (ho : ∀ e ∈ s.mapFinalizedBudgets, ∀ payment, e.2.getBudgetPaymentByBlock h = some payment →
      payment.out ≠ o) (vout : List CTxOut) :
    s.isTransactionValid N (vout ++ [o]) h = s.isTransactionValid N vout h := by
  have hout : ∀ (b : CFinalizedBudget) (payment : CTxBudgetPayment), payment.out ≠ o →
      ∀ (vout : List CTxOut) (st : TrxValidationStatus) (hist : PaymentHistory),
      b.checkOutputs payment h st hist (vout ++ [o]) = b.checkOutputs payment h st hist vout := by
    intro b payment hne vout
    induction vout with
    | nil =>
      intro st hist
      rw [List.nil_append, CFinalizedBudget.checkOutputs_cons, if_neg hne]
    | cons a vout ih =>
      intro st hist
      rw [List.cons_append, CFinalizedBudget.checkOutputs_cons, CFinalizedBudget.checkOutputs_cons,
        ih, ih]
  have hone : ∀ e ∈ s.mapFinalizedBudgets, ∀ hist,
      e.2.isTransactionValid (vout ++ [o]) h hist = e.2.isTransactionValid vout h hist := by
    intro e he hist
    cases hp : e.2.getBudgetPaymentByBlock h with
    | none => simp [CFinalizedBudget.isTransactionValid, hp]
    | some payment =>
      simp only [CFinalizedBudget.isTransactionValid, hp]
      exact hout e.2 payment (ho e he payment hp) vout _ _
  have hall : ∀ (l : List (Uint256 × CFinalizedBudget)), (∀ e ∈ l, e ∈ s.mapFinalizedBudgets) →
      ∀ T f st hist, checkBudgets (vout ++ [o]) h T f st hist l =
        checkBudgets vout h T f st hist l := by
    intro l hl
    induction l with
    | nil => intro T f st hist; rfl
    | cons e l ih =>
      intro T f st hist
      have ih := ih fun e he => hl e (List.mem_cons_of_mem _ he)
      unfold checkBudgets
      simp only [hone e (hl e List.mem_cons_self), ih]
  unfold isTransactionValid
  simp only [hall s.mapFinalizedBudgets fun e he => he]

lemma exists_other_output (s : CBudgetManager) (h v : ℤ) :
    ∃ script : CScript, ∀ e ∈ s.mapFinalizedBudgets, ∀ payment,
      e.2.getBudgetPaymentByBlock h = some payment → payment.out ≠ ⟨v, script⟩ := by
  obtain ⟨script, hs⟩ := Infinite.exists_notMem_finset
    (s.mapFinalizedBudgets.filterMap fun e =>
      (e.2.getBudgetPaymentByBlock h).map (·.payee)).toFinset
  refine ⟨script, fun e he payment hp heq => hs ?_⟩
  rw [List.mem_toFinset, List.mem_filterMap]
  refine ⟨e, he, ?_⟩
  rw [hp, Option.map_some, show payment.payee = script from congrArg CTxOut.scriptPubKey heq]

def valueOf (vout : List CTxOut) : ℤ := (vout.map (·.nValue)).sum

/-- What the blocks of a height that are accepted as superblocks create is within the value of the
block and a payment of a budget: for all outputs of the transaction that pays the reward, whatever
its inputs are worth. -/
def MintWithinBudget (node : Node) (s : CBudgetManager) (N : ℕ) (h : ℤ) : Prop :=
  ∀ (vout : List CTxOut) (nValueIn nExpectedValue : ℤ),
    (s.isTransactionValid N vout h).1 = .Valid →
    isBlockValueValid node h nExpectedValue (valueOf vout - nValueIn) = true →
    ∃ e ∈ s.mapFinalizedBudgets, ∃ payment, e.2.getBudgetPaymentByBlock h = some payment ∧
      valueOf vout - nValueIn ≤ node.params.getBlockValue h + payment.nAmount

lemma superblock_takes_any_amount {node : Node} (hsync : node.isSynced = true)
    (hspork : node.isSporkActive .SPORK_13_ENABLE_SUPERBLOCKS = true)
    (hnode : node.isBudgetPaymentBlock h = true) {vout : List CTxOut}
    (hvalid : (s.isTransactionValid N vout h).1 = .Valid) (v : ℤ) :
    ∃ script, (s.isTransactionValid N (vout ++ [⟨v, script⟩]) h).1 = .Valid ∧
      ∀ nExpectedValue nMinted, isBlockValueValid node h nExpectedValue nMinted = true := by
  obtain ⟨script, hs⟩ := exists_other_output s h v
  refine ⟨script, ?_, fun _ _ => ?_⟩
  · rw [isTransactionValid_append_other hs]
    exact hvalid
  · simp [isBlockValueValid, hsync, hspork, hnode]

/-- **What a superblock creates has no bound.** On a synchronised node with superblocks switched on,
at every height at which the budget branch can be satisfied at all, it is satisfied by transactions
that create more than the block is worth and any budget pays. -/
theorem superblock_mint_not_bounded (node : Node) (s : CBudgetManager) (N : ℕ) (h : ℤ)
    (hsync : node.isSynced = true)
    (hspork : node.isSporkActive .SPORK_13_ENABLE_SUPERBLOCKS = true)
    (hnode : node.isBudgetPaymentBlock h = s.isBudgetPaymentBlock N h)
    (hblock : s.isBudgetPaymentBlock N h = true)
    (hvalid : ∃ vout, (s.isTransactionValid N vout h).1 = .Valid) :
    ¬ MintWithinBudget node s N h := by
  obtain ⟨vout, hvalid⟩ := hvalid
  intro hbound
  -- more than all payments of the block together
  let total := ((s.mapFinalizedBudgets.filterMap fun e =>
    e.2.getBudgetPaymentByBlock h).map fun p => |p.nAmount|).sum
  let v := node.params.getBlockValue h + total + 1 - valueOf vout
  obtain ⟨script, hnew, hval⟩ :=
    superblock_takes_any_amount hsync hspork (hnode.trans hblock) hvalid v
  obtain ⟨e, he, payment, hp, hle⟩ := hbound _ 0 0 hnew (hval _ _)
  have hmem : |payment.nAmount| ∈ ((s.mapFinalizedBudgets.filterMap fun e =>
      e.2.getBudgetPaymentByBlock h).map fun p => |p.nAmount|) :=
    List.mem_map.mpr ⟨payment, List.mem_filterMap.mpr ⟨e, he, hp⟩, rfl⟩
  have hone : |payment.nAmount| ≤ total := by
    refine List.single_le_sum ?_ _ hmem
    intro x hx
    obtain ⟨p, -, rfl⟩ := List.mem_map.mp hx
    exact abs_nonneg _
  have habs := le_abs_self payment.nAmount
  have hsum : valueOf (vout ++ [⟨v, script⟩]) = valueOf vout + v := by simp [valueOf]
  rw [hsum] at hle
  omega

end CBudgetManager

namespace Concrete

/-- A synchronised node of the test network before the first superblock, with superblocks on. -/
def superblockNode : Node :=
  { Node.idle testNetParams (.simple 0) (chainTo 143) with
    getSporkValue := fun _ => 0
    isBudgetPaymentBlock := budgetState.isBudgetPaymentBlock 20
    isBlockPayeeValid := fun block nHeight =>
      (isBlockPayeeValid ⟨true, true, true, true⟩ testNetParams .initial budgetState 20 block
        nHeight).1 }

/-- The reward, the payment of the budget and a million coins more. -/
def greedyTx : CTransaction :=
  ⟨10, [⟨COutPoint.null, [0x52, 0], 0⟩], [⟨50 * COIN, [Script.OP_1]⟩, hundredCoins.out,
    ⟨1000000 * COIN, [Script.OP_1]⟩]⟩

def greedyBlock : CBlock := ⟨145, 144, 0, 1500008640, 0, [greedyTx], [], false⟩

end Concrete

open Concrete CBudgetManager in
theorem superblock_mint_not_bounded_at_144 :
    ¬ MintWithinBudget superblockNode budgetState 20 144 :=
  superblock_mint_not_bounded superblockNode budgetState 20 144 rfl rfl rfl (by decide)
    ⟨greedyTx.vout, by decide⟩

set_option maxRecDepth 20000 in
open Concrete CBudgetManager in
/-- **A million coins.** The first superblock of the test network is accepted with a coinbase that
makes the scheduled payment of a hundred coins and pays a million coins to somebody else. -/
theorem superblock_with_a_million_more :
    superblockNode.isSynced = true ∧
    superblockNode.isSporkActive .SPORK_13_ENABLE_SUPERBLOCKS = true ∧
    (budgetState.isTransactionValid 20 (rewardOutputs testNetParams greedyBlock 144) 144).1 =
      .Valid ∧
    (connectBlock superblockNode .initial greedyBlock (indexAt 144)
      (.ofView ⟨fun _ => none, 144⟩) false false).isOk = true ∧
    greedyBlock.vtx = [greedyTx] ∧ greedyTx.isCoinBase = true ∧
    testNetParams.getBlockValue 144 + hundredCoins.nAmount < greedyTx.valueOut := by
  decide

end Agenor
