import Agenor.ConnectStep

/-!
How much money a block that `ConnectBlock` accepts can create.

`created` is the true amount: the outputs of all transactions minus what their inputs are really
worth, each coin and each denomination counted once. The code's own accumulators differ from it
in three places. A private zerocoin spend is counted twice, by its denomination and by its
sequence number; the fees of a transaction with zerocoin spends leave out what it redeems; and the
sums are machine integers. `slack` is what this comes to: a block may create exactly so much more
than it is allowed to, so the value check keeps its promise while there is no slack.
-/

namespace Agenor

open Lib.Wrap Lib.Fallible

namespace ConnectEnv

variable {env : ConnectEnv} {s s' : ConnectLoop} {tx : CTransaction}

/-- What the inputs of a transaction are worth: unspent coins, or denominations. -/
def consumed (env : ConnectEnv) (v : CCoinsViewCache) (tx : CTransaction) : ℤ :=
  if tx.isCoinBase then 0
  else if tx.hasZerocoinSpendInputs then env.redeemed tx
  else v.coins.valueOf tx.vin

def createdBy (env : ConnectEnv) (v : CCoinsViewCache) (tx : CTransaction) : ℤ :=
  tx.valueOut - env.consumed v tx

def feeOf (env : ConnectEnv) (v : CCoinsViewCache) (tx : CTransaction) : ℤ :=
  if tx.isCoinBase || tx.isCoinStake then 0 else env.consumed v tx - tx.valueOut

/-- What the code lets a transaction add to `nMint`. -/
def mintedBy (env : ConnectEnv) (v : CCoinsViewCache) (tx : CTransaction) : ℤ :=
  tx.valueOut - env.countedIn v tx + countedFee v tx

/-- The outputs that are not bounded by inputs of the same transaction. -/
def freeOut (tx : CTransaction) : ℤ :=
  if tx.isCoinBase || tx.isCoinStake || tx.hasZerocoinSpendInputs then tx.valueOut else 0

lemma redeemed_nonneg (env : ConnectEnv) (tx : CTransaction) : 0 ≤ env.redeemed tx := by
  apply List.sum_nonneg
  simp only [List.mem_map, forall_exists_index, and_imp]
  rintro x i - rfl
  unfold denominationOf
  split
  · exact mul_nonneg (CoinDenomination.toInt_nonneg _) (by decide)
  · exact le_rfl

lemma getZerocoinSpent_eq_zero (h : ∀ i ∈ tx.vin, i.isZerocoinSpend = false) :
    tx.getZerocoinSpent = 0 := by
  have key : ∀ (l : List CTxIn), (∀ i ∈ l, i.isZerocoinSpend = false) → ∀ acc : ℤ,
      l.foldl (fun n i => if i.isZerocoinSpend then int64 (n + i.nSequence * COIN) else n) acc
        = acc := by
    intro l
    induction l with
    | nil => exact fun _ _ => rfl
    | cons i l ih =>
      intro hl acc
      rw [List.foldl_cons, hl i (by simp)]
      exact ih (fun j hj => hl j (List.mem_cons_of_mem _ hj)) acc
  exact key tx.vin h 0

lemma getZerocoinSpent_of_ordinary (hz : tx.hasZerocoinSpendInputs = false) :
    tx.getZerocoinSpent = 0 := by
  rw [CTransaction.hasZerocoinSpendInputs, List.any_eq_false] at hz
  refine getZerocoinSpent_eq_zero fun i hi => ?_
  have hno := hz i hi
  simp only [CTxIn.isAnyZerocoinSpend, Bool.or_eq_true, not_or, Bool.not_eq_true] at hno
  exact hno.1

lemma ordinary_of_coinBase (hcb : tx.isCoinBase = true) : tx.hasZerocoinSpendInputs = false := by
  by_contra hz
  rw [CTransaction.not_coinBase_of_spend (by simpa using hz)] at hcb
  cases hcb

lemma countedIn_eq (v : CCoinsViewCache) (tx : CTransaction) :
    env.countedIn v tx = env.consumed v tx + tx.getZerocoinSpent := by
  unfold countedIn consumed
  by_cases hcb : tx.isCoinBase = true
  · simp [hcb, getZerocoinSpent_of_ordinary (ordinary_of_coinBase hcb)]
  · cases hz : tx.hasZerocoinSpendInputs with
    | true => simp [hcb]
    | false => simp [hcb, getZerocoinSpent_of_ordinary hz]

lemma valueOf_nonneg {u : UtxoSet} {vin : List CTxIn} (h : ∀ i ∈ vin, 0 ≤ u.value i.prevout) :
    0 ≤ u.valueOf vin := by
  apply List.sum_nonneg
  simpa using h

end ConnectEnv

/-! ### The slack -/

/-- The value that the block creates, along the views it is connected to. -/
def created (node : Node) (g : Global) (block : CBlock) (pindex : CBlockIndex)
    (view : CCoinsViewCache) : ℤ :=
  (connectEnv node g block pindex).sumAlong (connectEnv node g block pindex).createdBy
    (.start view) block.vtx.zipIdx

/-- The true fees of the transactions that are neither coinbase nor coinstake. -/
def trueFees (node : Node) (g : Global) (block : CBlock) (pindex : CBlockIndex)
    (view : CCoinsViewCache) : ℤ :=
  (connectEnv node g block pindex).sumAlong (connectEnv node g block pindex).feeOf
    (.start view) block.vtx.zipIdx

/-- The fees as the code counts them. -/
def countedFees (node : Node) (g : Global) (block : CBlock) (pindex : CBlockIndex)
    (view : CCoinsViewCache) : ℤ :=
  (connectEnv node g block pindex).sumAlong ConnectEnv.countedFee (.start view) block.vtx.zipIdx

/-- What the sequence numbers of the private spends of a block are worth. -/
def countedTwice (block : CBlock) : ℤ := (block.vtx.map (·.getZerocoinSpent)).sum

/-- What a block may create: its reward, in a staked block less the fees. -/
def allowed (node : Node) (g : Global) (block : CBlock) (pindex : CBlockIndex)
    (view : CCoinsViewCache) : ℤ :=
  node.params.getBlockValue pindex.nHeight -
    if block.isProofOfStake then max (trueFees node g block pindex view) 0 else 0

/-- By how much the value check is too lax for a block: what is counted twice, in a staked block
the fees that are not counted, and the turns of the machine integers. -/
def slack (node : Node) (g : Global) (block : CBlock) (pindex : CBlockIndex)
    (view : CCoinsViewCache) : ℤ :=
  let fees := countedFees node g block pindex view
  let turns := wraps (created node g block pindex view - countedTwice block + fees)
  countedTwice block +
    if block.isProofOfStake then max (trueFees node g block pindex view) 0 - fees + 2 ^ 64 * turns
    else 2 ^ 64 * (turns - wraps (node.params.getBlockValue pindex.nHeight + fees))

/-- `IsBlockValueValid` comes to its last line. -/
def regularValueCheck (node : Node) (nHeight : ℤ) : Bool :=
  !(!node.isSynced && decide (nHeight.tmod node.params.nBudgetCycleBlocks < 100)) &&
    !(node.isSynced && node.isSporkActive .SPORK_13_ENABLE_SUPERBLOCKS &&
      node.isBudgetPaymentBlock nHeight)

lemma isBlockValueValid_of_regular {node : Node} {nHeight e m : ℤ}
    (hreg : regularValueCheck node nHeight = true) :
    isBlockValueValid node nHeight e m = true ↔ m ≤ e := by
  simp only [regularValueCheck, Bool.and_eq_true, Bool.not_eq_eq_eq_not, Bool.not_true] at hreg
  simp [isBlockValueValid, hreg.1, hreg.2]

section Accumulators

variable {node : Node} {g : Global} {block : CBlock} {pindex : CBlockIndex}
  {view : CCoinsViewCache} {s : ConnectLoop} (hm : node.params.MoneyOk)
  (hb : CheckedBlock node.params block)
  (hl : loop (connectEnv node g block pindex).connectTx (.start view) block.vtx.zipIdx = .ok s)
include hm hb hl

lemma accumulators_eq :
    s.nMint = int64 (created node g block pindex view - countedTwice block
      + countedFees node g block pindex view) ∧
    int64 s.nFees = int64 (countedFees node g block pindex view) := by
  set env := connectEnv node g block pindex with henv
  have hck : ∀ p ∈ block.vtx.zipIdx, CheckedTx env.node.params p.1 :=
    fun p hp => hb.txs p.1 (List.fst_mem_of_mem_zipIdx hp)
  obtain ⟨hout, hin, hfee⟩ := ConnectEnv.connectTxs_eq_ok hm hck hl
  simp only [ConnectLoop.start_nValueOut, ConnectLoop.start_nValueIn, ConnectLoop.start_nFees,
    zero_add] at hout hin hfee
  have htwice := ConnectEnv.sumAlong_const (·.getZerocoinSpent) hl
  rw [ConnectEnv.map_fst_zipIdx_sum] at htwice
  have hsplit : env.sumAlong (fun _ tx => tx.valueOut) (.start view) block.vtx.zipIdx
      - env.sumAlong env.countedIn (.start view) block.vtx.zipIdx
      = created node g block pindex view - countedTwice block := by
    rw [created, countedTwice, ← htwice, ← henv, sub_eq_add_neg, sub_eq_add_neg,
      ← ConnectEnv.sumAlong_neg, ← ConnectEnv.sumAlong_neg, ← ConnectEnv.sumAlong_add,
      ← ConnectEnv.sumAlong_add]
    apply ConnectEnv.sumAlong_congr hl
    intro p _ t _ _
    rw [ConnectEnv.createdBy, ConnectEnv.countedIn_eq]
    omega
  refine ⟨?_, hfee⟩
  rw [ConnectLoop.nMint, ← hsplit]
  exact int64_add_congr (int64_sub_congr hout hin) hfee

/-- **What the value check lets through**, exactly. -/
theorem isBlockValueValid_iff (hreg : regularValueCheck node pindex.nHeight = true) :
    isBlockValueValid node pindex.nHeight (nExpectedMint node block pindex.nHeight s.nFees)
        s.nMint = true ↔
      created node g block pindex view
        ≤ allowed node g block pindex view + slack node g block pindex view := by
  obtain ⟨hmint, hfee⟩ := accumulators_eq hm hb hl
  rw [isBlockValueValid_of_regular hreg, hmint, int64_eq_sub, nExpectedMint, CBlock.isProofOfWork,
    allowed, slack]
  cases hpos : block.isProofOfStake with
  | true =>
    simp only [Bool.not_true, Bool.false_eq_true, if_false, if_true]
    omega
  | false =>
    have hexp : int64 (node.params.getBlockValue pindex.nHeight + s.nFees)
        = int64 (node.params.getBlockValue pindex.nHeight
          + countedFees node g block pindex view) := by
      rw [← int64_add_int64, hfee, int64_add_int64]
    simp only [Bool.not_false, if_true, Bool.false_eq_true, if_false, hexp, int64_eq_sub]
    omega

end Accumulators

/-- The value check of the blocks with that much slack does what it is for. -/
def Conserves (a : ℤ) : Prop :=
  ∀ {net : Network} {node : Node} {g : Global} {block : CBlock} {pindex : CBlockIndex}
    {view : CCoinsViewCache} {fJustCheck fAlreadyChecked : Bool} {r : CCoinsViewCache × Global},
    node.params = paramsOf net → block.hash ≠ node.params.hashGenesisBlock →
    Vouched node block fAlreadyChecked → regularValueCheck node pindex.nHeight = true →
    slack node g block pindex view = a →
    connectBlock node g block pindex view fJustCheck fAlreadyChecked = .ok r →
    created node g block pindex view ≤ node.params.getBlockValue pindex.nHeight ∧
      (block.isProofOfStake = true → created node g block pindex view
        ≤ node.params.getBlockValue pindex.nHeight - trueFees node g block pindex view)

lemma conserves_of_nonpos {a : ℤ} (ha : a ≤ 0) : Conserves a := by
  intro net node g block pindex view fJustCheck fAlreadyChecked r hnet hgen hv hreg hslack h
  have hm : node.params.MoneyOk := hnet ▸ paramsOf_moneyOk net
  obtain ⟨hcheck, -, s, hs, -⟩ := connectBlock_eq_ok hgen h
  have hb := connectCheckBlock_eq_ok hm hv hcheck
  obtain ⟨-, hl, hval, -⟩ := connectChecks_eq_ok hs
  have hle := (isBlockValueValid_iff hm hb hl hreg).mp hval
  rw [hslack, allowed] at hle
  cases hpos : block.isProofOfStake with
  | true =>
    rw [hpos, if_pos rfl] at hle
    exact ⟨by omega, fun _ => by omega⟩
  | false =>
    rw [hpos, if_neg (by simp)] at hle
    exact ⟨by omega, by simp⟩

/-! ### Blocks without slack -/

/-- The outputs that are not bounded by inputs of the same transaction. -/
def freeOut (tx : CTransaction) : ℤ :=
  if tx.isCoinBase || tx.isCoinStake || tx.hasZerocoinSpendInputs then tx.valueOut else 0

/-- The private spends have no sequence number; in a staked block only the coinstake spends
zerocoins; in a mined block the outputs of the coinbase, of transactions shaped like a coinstake
and of zerocoin spends fit a `CAmount`. -/
structure SupplySafe (block : CBlock) : Prop where
  noSequence : ∀ tx ∈ block.vtx, tx.getZerocoinSpent = 0
  noSpend : block.isProofOfStake = true → ∀ tx ∈ block.vtx, tx.isCoinStake = false →
    tx.hasZerocoinSpendInputs = false
  fits : block.isProofOfStake = false → (block.vtx.map freeOut).sum < 2 ^ 63

namespace ConnectEnv

variable {env : ConnectEnv} {s s' : ConnectLoop} {tx : CTransaction} {i : ℕ}
  (hs : env.Connected s tx i s')
include hs

lemma mintedBy_le (hc : CheckedTx env.node.params tx) (hzero : tx.getZerocoinSpent = 0) :
    env.createdBy s.view tx + countedFee s.view tx ≤ freeOut tx ∧
      -freeOut tx ≤ countedFee s.view tx := by
  have hout := hc.valueOut_nonneg
  have hred := redeemed_nonneg env tx
  unfold createdBy consumed freeOut countedFee
  by_cases hcb : tx.isCoinBase = true
  · simp [hcb, hout]
  simp only [Bool.not_eq_true] at hcb
  by_cases hz : tx.hasZerocoinSpendInputs = true
  · cases hcs : tx.isCoinStake <;> simp only [hcb, hz, hzero, Bool.or_self, Bool.or_true,
      Bool.false_eq_true, if_false, if_true] <;> omega
  · simp only [Bool.not_eq_true] at hz
    obtain ⟨-, hpos, -, -⟩ := hs.inputs hcb hz
    have hval := valueOf_nonneg hpos
    cases hcs : tx.isCoinStake with
    | true =>
      simp only [hcb, hz, Bool.or_true, Bool.or_false, Bool.false_eq_true, if_false, if_true]
      omega
    | false =>
      obtain ⟨-, -, -, hle⟩ := hs.inputs hcb hz
      have hle := hle hcs
      simp only [hcb, hz, Bool.or_false, Bool.false_eq_true, if_false]
      omega

lemma countedFee_eq_feeOf (hno : tx.isCoinStake = false → tx.hasZerocoinSpendInputs = false) :
    countedFee s.view tx = env.feeOf s.view tx ∧ 0 ≤ countedFee s.view tx := by
  unfold countedFee feeOf
  by_cases hk : (tx.isCoinBase || tx.isCoinStake) = true
  · simp [hk]
  simp only [Bool.or_eq_true, not_or, Bool.not_eq_true] at hk
  have hz := hno hk.2
  obtain ⟨-, -, -, hle⟩ := hs.inputs hk.1 hz
  have hle := hle hk.2
  simp only [hk.1, hk.2, hz, consumed, Bool.or_self, Bool.false_eq_true, if_false]
  exact ⟨trivial, by omega⟩

end ConnectEnv

lemma freeOut_le_of_stake {consensus : ChainParams} {block : CBlock}
    (hb : CheckedBlock consensus block) (hsafe : SupplySafe block)
    (hpos : block.isProofOfStake = true) :
    (block.vtx.map freeOut).sum ≤ consensus.nMaxMoneyOut := by
  obtain ⟨cb, cs, rest, hv, ⟨o, ho, hempty⟩, -, hone⟩ := hb.stake hpos
  have hrest : ∀ tx ∈ rest, freeOut tx = 0 := by
    intro tx htx
    obtain ⟨cb', rest', hv', -, hno⟩ := hb.shape
    rw [hv] at hv'
    cases hv'
    have hcs := hone tx htx
    have hz := hsafe.noSpend hpos tx (by simp [hv, htx]) hcs
    simp [freeOut, hcs, hz, hno tx (List.mem_cons_of_mem _ htx)]
  have hcb : freeOut cb = 0 := by
    simp only [CTxOut.isEmpty, Bool.and_eq_true, beq_iff_eq] at hempty
    simp [freeOut, CTransaction.valueOut, ho, hempty.1]
  have hcs : freeOut cs ≤ consensus.nMaxMoneyOut := by
    have hck := hb.txs cs (by simp [hv])
    have h0 := hck.valueOut_nonneg
    have h1 := hck.total
    unfold freeOut
    split <;> omega
  have hsum : (rest.map freeOut).sum = 0 := by
    apply List.sum_eq_zero
    simpa using hrest
  simp only [hv, List.map_cons, List.sum_cons, hcb, hsum]
  omega

/-- **Blocks that meet the condition have no slack.** -/
theorem slack_nonpos {node : Node} {g : Global} {block : CBlock} {pindex : CBlockIndex}
    {view : CCoinsViewCache} {s : ConnectLoop} (hm : node.params.MoneyOk)
    (hb : CheckedBlock node.params block) (hsafe : SupplySafe block)
    (hl : loop (connectEnv node g block pindex).connectTx (.start view) block.vtx.zipIdx = .ok s) :
    slack node g block pindex view ≤ 0 := by
  set env := connectEnv node g block pindex with henv
  have hmem : ∀ p ∈ block.vtx.zipIdx, p.1 ∈ block.vtx := fun p hp => List.fst_mem_of_mem_zipIdx hp
  have hconn : ∀ p ∈ block.vtx.zipIdx, ∀ t t', env.connectTx t p = .ok t' →
      env.Connected t p.1 p.2 t' := fun p hp _ _ ht =>
    ConnectEnv.connectTx_eq_ok hm (hb.txs p.1 (hmem p hp)) ht
  have htwice : countedTwice block = 0 := by
    apply List.sum_eq_zero
    simpa using hsafe.noSequence
  have hfree : (block.vtx.map freeOut).sum < 2 ^ 63 := by
    cases hpos : block.isProofOfStake with
    | false => exact hsafe.fits hpos
    | true =>
      have := freeOut_le_of_stake hb hsafe hpos
      have := hm.le
      omega
  have hsum := ConnectEnv.sumAlong_const freeOut hl
  rw [ConnectEnv.map_fst_zipIdx_sum] at hsum
  have hstep : ∀ p ∈ block.vtx.zipIdx, ∀ t t', env.connectTx t p = .ok t' →
      env.createdBy t.view p.1 + ConnectEnv.countedFee t.view p.1 ≤ freeOut p.1 ∧
        -freeOut p.1 ≤ ConnectEnv.countedFee t.view p.1 := fun p hp t t' ht =>
    ConnectEnv.mintedBy_le (hconn p hp t t' ht) (hb.txs p.1 (hmem p hp))
      (hsafe.noSequence p.1 (hmem p hp))
  have hle := ConnectEnv.sumAlong_le
    (f := fun v tx => env.createdBy v tx + ConnectEnv.countedFee v tx)
    (g := fun _ tx => freeOut tx) hl fun p hp t t' ht => (hstep p hp t t' ht).1
  rw [ConnectEnv.sumAlong_add, hsum] at hle
  have hge := ConnectEnv.sumAlong_le (f := fun _ tx => -freeOut tx) hl
    fun p hp t t' ht => (hstep p hp t t' ht).2
  rw [ConnectEnv.sumAlong_neg (fun _ tx => freeOut tx), hsum] at hge
  change created node g block pindex view + countedFees node g block pindex view ≤ _ at hle
  change _ ≤ countedFees node g block pindex view at hge
  have hup : wraps (created node g block pindex view + countedFees node g block pindex view) ≤ 0 :=
    wraps_nonpos (by omega)
  rw [slack, htwice, sub_zero]
  cases hpos : block.isProofOfStake with
  | false =>
    have hbv := node.params.getBlockValue_nonneg pindex.nHeight
    have hlow : 0 ≤ wraps (node.params.getBlockValue pindex.nHeight
        + countedFees node g block pindex view) := wraps_nonneg (by omega)
    simp only [Bool.false_eq_true, if_false]
    omega
  | true =>
    have hfee : ∀ p ∈ block.vtx.zipIdx, ∀ t t', env.connectTx t p = .ok t' →
        ConnectEnv.countedFee t.view p.1 = env.feeOf t.view p.1 ∧
          0 ≤ ConnectEnv.countedFee t.view p.1 := fun p hp t t' ht =>
      ConnectEnv.countedFee_eq_feeOf (hconn p hp t t' ht) (hsafe.noSpend hpos p.1 (hmem p hp))
    have htrue : countedFees node g block pindex view = trueFees node g block pindex view :=
      ConnectEnv.sumAlong_congr hl fun p hp t t' ht => (hfee p hp t t' ht).1
    have hnonneg := ConnectEnv.sumAlong_le (f := fun _ _ => 0) hl
      fun p hp t t' ht => (hfee p hp t t' ht).2
    rw [ConnectEnv.sumAlong_const (fun _ => 0) hl] at hnonneg
    change _ ≤ countedFees node g block pindex view at hnonneg
    simp only [List.sum_map_zero] at hnonneg
    simp only [if_true, ← htrue]
    omega

/-! ### Blocks with slack -/

namespace Concrete

/-- A private spend of 5000 coins whose sequence number may be another. -/
def spendInAs (nSequence : ℕ) : CTxIn :=
  ⟨COutPoint.null, spendScript [0x88, 0x13, 0, 0] (List.replicate 32 0) 1 0, nSequence⟩

def spendTxAs (nSequence : ℕ) : CTransaction := ⟨11, [spendInAs nSequence], spendTx.vout⟩

/-- A coinbase at height 2 of the main network that takes the smallest unit too much. -/
def overpaidTx : CTransaction := coinBaseTx (50 * COIN + 1)

def slackBlock (nSequence : ℕ) : CBlock := secondBlock [overpaidTx, spendTxAs nSequence]

def slackEnv (nSequence : ℕ) : ConnectEnv :=
  connectEnv mainNode .initial (slackBlock nSequence) secondIndex

end Concrete

open Concrete

lemma vouched_of_unchecked {node : Node} {block : CBlock} (h : block.fChecked = false) :
    Vouched node block false := by
  intro hf
  simp [h] at hf

variable {k : ℕ}

lemma spendOf_spendTxAs (k : ℕ) : ∃ spend,
    (slackEnv k).spendOf (spendTxAs k) (spendInAs k) = .ok spend ∧ spend.denomination.toInt = 5000 ∧
      contextualCheckZerocoinSpend mainNode .initial (spendTxAs k) spend 2 = true := by
  have hread : ∀ j, (slackEnv j).spendOf (spendTxAs j) (spendInAs j)
      = txInToZerocoinSpend (.simple 0) (spendInAs 0) := fun _ => rfl
  have hcheck : ∀ spend, contextualCheckZerocoinSpend mainNode .initial (spendTxAs k) spend 2
      = contextualCheckZerocoinSpend mainNode .initial (spendTxAs 0) spend 2 := fun _ => rfl
  have hok : (txInToZerocoinSpend (.simple 0) (spendInAs 0)).toOption.any (fun spend =>
      decide (spend.denomination.toInt = 5000) &&
        contextualCheckZerocoinSpend mainNode .initial (spendTxAs 0) spend 2) = true := by
    decide +kernel
  rw [hread]
  cases hspend : txInToZerocoinSpend (.simple 0) (spendInAs 0) with
  | error f =>
    rw [hspend] at hok
    cases hok
  | ok spend =>
    rw [hspend] at hok
    simp only [Except.toOption, Option.any_some, Bool.and_eq_true, decide_eq_true_eq] at hok
    exact ⟨spend, rfl, hok.1, (hcheck spend).trans hok.2⟩

lemma connectSpends_spendTxAs (k : ℕ) (s : ConnectLoop) : ∃ vSpends nValueIn,
    (slackEnv k).connectSpends s (spendTxAs k) = .ok { s with vSpends, nValueIn } := by
  obtain ⟨spend, hspend, -, hctx⟩ := spendOf_spendTxAs k
  have hz : (spendInAs k).isZerocoinSpend = true := rfl
  have henf : checkPublicCoinSpendEnforced mainParams 2 (spendInAs k).isZerocoinPublicSpend
    = true := rfl
  have hstep : (slackEnv k).connectSpend (spendTxAs k) s (spendInAs k) = .ok { s with
      nValueIn := int64 (s.nValueIn + spend.denomination.toInt * COIN)
      vSpends := s.vSpends ++ [(spend, 11)] } := by
    rw [ConnectEnv.connectSpend, if_neg (by simp [hz])]
    simp only [bind_eq_ok, failIf_eq_ok, pure_eq_ok, Bool.not_eq_eq_eq_not, Bool.not_false]
    exact ⟨(), henf, spend, hspend, (), hctx, rfl⟩
  have hchain : (slackEnv k).node.isTransactionInChain (spendTxAs k).hash = none := rfl
  have hvin : (spendTxAs k).vin = [spendInAs k] := rfl
  refine ⟨s.vSpends ++ [(spend, 11)], int64 (s.nValueIn + spend.denomination.toInt * COIN), ?_⟩
  rw [ConnectEnv.connectSpends, hchain, hvin]
  simp only [bind_eq_ok, loop_cons, loop_nil]
  exact ⟨_, hstep, rfl⟩

lemma connectValueIn_spendTxAs (k : ℕ) (s : ConnectLoop) : ∃ nFees nValueIn,
    (slackEnv k).connectValueIn s (spendTxAs k) = .ok { s with
      nFees, nValueIn, scriptsOk := s.scriptsOk && true } := ⟨_, _, rfl⟩

lemma connectTx_spendTxAs (k : ℕ) {s : ConnectLoop} {undo : CTxUndo} {v : CCoinsViewCache}
    (hsig : s.nSigOps = 0) (hu : s.view.updateCoins (spendTxAs k) 2 = .ok (undo, v)) :
    ∃ s', (slackEnv k).connectTx s (spendTxAs k, 1) = .ok s' ∧ s'.scriptsOk = s.scriptsOk := by
  have hmint : (spendTxAs k).hasZerocoinMintOutputs = false := rfl
  have hz : (spendTxAs k).hasZerocoinSpendInputs = true := rfl
  have hout : getValueOut (spendTxAs k) = .ok (5000 * COIN) := rfl
  have hfew : decide (MAX_BLOCK_SIGOPS_CURRENT < s.nSigOps + getLegacySigOpCount (spendTxAs k))
      = false := by
    rw [hsig]
    rfl
  obtain ⟨vSpends, nValueIn, hspends⟩ := connectSpends_spendTxAs k
    { s with nSigOps := s.nSigOps + getLegacySigOpCount (spendTxAs k) }
  obtain ⟨nFees, nValueIn', hvalue⟩ := connectValueIn_spendTxAs k
    { s with nSigOps := s.nSigOps + getLegacySigOpCount (spendTxAs k), vSpends, nValueIn }
  refine ⟨{ s with
    nFees
    nValueIn := nValueIn'
    nValueOut := int64 (s.nValueOut + 5000 * COIN)
    nSigOps := s.nSigOps + getLegacySigOpCount (spendTxAs k)
    vSpends
    vtxundo := s.vtxundo ++ [undo]
    scriptsOk := s.scriptsOk && true
    view := v }, ?_, Bool.and_true _⟩
  simp only [ConnectEnv.connectTx, ConnectEnv.connectOutputs, ConnectEnv.connectMints,
    ConnectEnv.connectKind, hmint, hz, bind_eq_ok, failIf_eq_ok, pure_eq_ok]
  exact ⟨(), hfew, (), rfl, _, rfl, _, hspends, _, hvalue, _, hout, _, hu, rfl⟩

lemma connectTxs_slackBlock (k : ℕ) : ∃ s₁ s,
    (slackEnv k).connectTx (.start emptyView) (overpaidTx, 0) = .ok s₁ ∧
      (slackEnv k).connectTx s₁ (spendTxAs k, 1) = .ok s ∧ s.scriptsOk = true := by
  obtain ⟨v₁, v₂, h1, h2⟩ : ∃ v₁ v₂,
      emptyView.updateCoins overpaidTx 2 = .ok (⟨[]⟩, v₁) ∧
        v₁.updateCoins (spendTxAs k) 2 = .ok (⟨[]⟩, v₂) := ⟨_, _, rfl, rfl⟩
  have hcb : (slackEnv k).connectTx (.start emptyView) (overpaidTx, 0)
      = .ok { ConnectLoop.start emptyView with
        nValueOut := 50 * COIN + 1, nSigOps := 0, view := v₁ } := by
    have hout : getValueOut overpaidTx = .ok (50 * COIN + 1) := by decide
    simp only [ConnectEnv.connectTx, ConnectEnv.connectOutputs, bind_eq_ok, failIf_eq_ok,
      pure_eq_ok]
    exact ⟨(), rfl, (), rfl, _, rfl, _, rfl, _, rfl, _, hout, _, h1, rfl⟩
  obtain ⟨s, hs, hscripts⟩ := connectTx_spendTxAs k (s := { ConnectLoop.start emptyView with
        nValueOut := 50 * COIN + 1, nSigOps := 0, view := v₁ }) rfl h2
  exact ⟨_, s, hcb, hs, hscripts⟩


/-! ### What is in the block -/

lemma zipIdx_slackBlock (k : ℕ) : (slackBlock k).vtx.zipIdx
    = [(overpaidTx, 0), (spendTxAs k, 1)] := rfl

lemma spendTxAs_kind (k : ℕ) : (spendTxAs k).isCoinBase = false ∧
    (spendTxAs k).isCoinStake = false ∧ (spendTxAs k).hasZerocoinSpendInputs = true ∧
    (spendTxAs k).valueOut = 5000 * COIN := ⟨rfl, rfl, rfl, rfl⟩

lemma getZerocoinSpent_spendTxAs (hk : k < 2 ^ 32) : (spendTxAs k).getZerocoinSpent = k * COIN := by
  have hz : (spendInAs k).isZerocoinSpend = true := rfl
  have hvin : (spendTxAs k).vin = [spendInAs k] := rfl
  have hseq : (spendInAs k).nSequence = k := rfl
  have hfits : int64 (k * COIN) = k * COIN := by
    rw [COIN]
    exact int64_of_fits (by omega) (by omega)
  rw [CTransaction.getZerocoinSpent, hvin, List.foldl_cons, List.foldl_nil, if_pos hz, hseq,
    zero_add, hfits]

lemma consumed_spendTxAs (k : ℕ) (v : CCoinsViewCache) :
    (slackEnv k).consumed v (spendTxAs k) = 5000 * COIN := by
  obtain ⟨spend, hspend, hden, -⟩ := spendOf_spendTxAs k
  obtain ⟨hcb, -, hz, -⟩ := spendTxAs_kind k
  have hred : (slackEnv k).redeemed (spendTxAs k)
      = (slackEnv k).denominationOf (spendTxAs k) (spendInAs k) + 0 := rfl
  simp only [ConnectEnv.consumed, hcb, hz, hred, ConnectEnv.denominationOf, hspend, hden,
    Bool.false_eq_true, if_false, if_true, add_zero]

lemma created_slackBlock (k : ℕ) :
    created mainNode .initial (slackBlock k) secondIndex emptyView
      = 50 * COIN + 1 := by
  obtain ⟨s₁, s, h1, h2, -⟩ := connectTxs_slackBlock k
  obtain ⟨-, -, -, hout⟩ := spendTxAs_kind k
  have hcb : ∀ v, (slackEnv k).createdBy v overpaidTx = 50 * COIN + 1 :=
    fun _ => rfl
  change (slackEnv k).sumAlong (slackEnv k).createdBy (.start emptyView) _ = _
  rw [zipIdx_slackBlock, ConnectEnv.sumAlong_cons h1, ConnectEnv.sumAlong_cons h2, hcb,
    ConnectEnv.createdBy, consumed_spendTxAs, hout]
  simp [ConnectEnv.sumAlong]

lemma countedFees_slackBlock (hk : k < 2 ^ 32) :
    countedFees mainNode .initial (slackBlock k) secondIndex emptyView
      = k * COIN - 5000 * COIN := by
  obtain ⟨s₁, s, h1, h2, -⟩ := connectTxs_slackBlock k
  obtain ⟨hcb, hcs, hz, hout⟩ := spendTxAs_kind k
  have hfirst : overpaidTx.isCoinBase = true := rfl
  change (slackEnv k).sumAlong ConnectEnv.countedFee (.start emptyView) _ = _
  rw [zipIdx_slackBlock, ConnectEnv.sumAlong_cons h1, ConnectEnv.sumAlong_cons h2]
  simp [ConnectEnv.countedFee, ConnectEnv.sumAlong, hfirst, hcb, hcs, hz, hout,
    getZerocoinSpent_spendTxAs hk]

lemma slack_slackBlock (hk : k < 2 ^ 32) :
    slack mainNode .initial (slackBlock k) secondIndex emptyView = k * COIN := by
  have htwice : countedTwice (slackBlock k) = k * COIN := by
    have hcb : overpaidTx.getZerocoinSpent = 0 := rfl
    simp [countedTwice, slackBlock, secondBlock, hcb, getZerocoinSpent_spendTxAs hk]
  have hpos : (slackBlock k).isProofOfStake = false := rfl
  have hbv : mainNode.params.getBlockValue secondIndex.nHeight = 50 * COIN := by decide
  simp only [slack, hpos, htwice, created_slackBlock, countedFees_slackBlock hk, hbv,
    Bool.false_eq_true, if_false]
  simp only [COIN]
  rw [wraps_of_fits (by omega) (by omega), wraps_of_fits (by omega) (by omega)]
  omega

/-! ### The block goes through -/

set_option maxRecDepth 20000 in
lemma connectCheckBlock_slackBlock (k : ℕ) :
    connectCheckBlock mainNode (slackBlock k) false false = .ok () := by
  have htx : ∀ l, checkBlockTx mainNode false false l (spendTxAs k)
      = checkBlockTx mainNode false false l (spendTxAs 0) := fun _ => rfl
  have htxs : loop (checkBlockTx mainNode false false) []
      [overpaidTx, spendTxAs 0] = .ok [1] := by decide +kernel
  have hloop : loop (checkBlockTx mainNode false false) []
      [overpaidTx, spendTxAs k] = .ok [1] := by
    simpa only [loop_cons, htx] using htxs
  have hshape : checkBlockShape (slackBlock k) = .ok () := rfl
  have hpay : checkPayments mainNode (slackBlock k) = .ok false := rfl
  have hlocked : checkLockedInputs mainNode (slackBlock k) = .ok () := rfl
  have hroot : checkMerkleRoot mainNode (slackBlock k) = .ok () := rfl
  have hsig : ([overpaidTx, spendTxAs k].map getLegacySigOpCount).sum = 0 := rfl
  have hvtx : (slackBlock k).vtx = [overpaidTx, spendTxAs k] :=
    rfl
  have hoff : decide (mainNode.params.ZC_TimeStart < ((slackBlock k).nTime : ℤ))
      = false := rfl
  have hpow : failIf (!(slackBlock k).isProofOfStake &&
      !mainNode.checkProofOfWork (slackBlock k).hash
        (slackBlock k).nBits)
      (Fault.dos 50 REJECT_INVALID "high-hash" false) = .ok () := rfl
  have hok : checkBlock mainNode (slackBlock k) true true true
      = .ok { slackBlock k with fChecked := true } := by
    unfold checkBlock
    simp only [hpow, hroot, hshape, hlocked, hpay, hoff, hvtx, hloop, hsig, bind, Except.bind]
    rfl
  simp [connectCheckBlock, hok]

lemma connectCommit_slackBlock (k : ℕ) (s : ConnectLoop) : ∃ r, connectCommit mainNode .initial
    (slackBlock k) secondIndex s = .ok r := by
  obtain ⟨g₁, h1⟩ : ∃ g₁, writeUndo mainNode .initial secondIndex ⟨s.vtxundo⟩ = .ok g₁ := ⟨_, rfl⟩
  obtain ⟨g₂, h2⟩ : ∃ g₂, writeZerocoinDB mainNode g₁ s = .ok g₂ := by
    simp [writeZerocoinDB, mainNode, Node.idle, failIf, bind, Except.bind, pure, Except.pure]
  have hsupply : updateZAgenorupplyConnect mainNode (slackBlock k)
      secondIndex.nHeight g₂.mapZerocoinSupply = .ok g₂.mapZerocoinSupply := rfl
  rw [connectCommit, h1]
  simp only [bind, Except.bind, h2, hsupply]
  exact ⟨_, rfl⟩

lemma connectBlock_slackBlock (hk : 0 < k) (hk' : k < 2 ^ 32) : ∃ r, connectBlock mainNode .initial
    (slackBlock k) secondIndex emptyView false false = .ok r := by
  obtain ⟨s₁, s, h1, h2, hscripts⟩ := connectTxs_slackBlock k
  have hl : loop (slackEnv k).connectTx (.start emptyView)
      (slackBlock k).vtx.zipIdx = .ok s := by
    rw [zipIdx_slackBlock, loop_cons, h1]
    simp only [bind, Except.bind, loop_cons, h2, loop_nil]
  have hm : mainNode.params.MoneyOk := paramsOf_moneyOk .MAIN
  have hb := connectCheckBlock_eq_ok hm (vouched_of_unchecked rfl) (connectCheckBlock_slackBlock k)
  have hvalue := (isBlockValueValid_iff hm hb hl (by decide)).mpr (by
    have hpos : (slackBlock k).isProofOfStake = false := rfl
    have hbv : mainNode.params.getBlockValue secondIndex.nHeight = 50 * COIN := by decide
    rw [created_slackBlock, slack_slackBlock hk', allowed, hpos, hbv]
    simp only [COIN, Bool.false_eq_true, if_false]
    omega)
  have hchecks : connectChecks mainNode .initial (slackBlock k) secondIndex
      emptyView = .ok s := by
    simp only [connectChecks, bind_eq_ok, failIf_eq_ok, pure_eq_ok]
    exact ⟨(), rfl, s, hl, (), by rw [hvalue]; rfl, (), by rw [hscripts]; rfl, rfl⟩
  obtain ⟨r, hr⟩ := connectCommit_slackBlock k s
  refine ⟨r, ?_⟩
  simp only [connectBlock, bind_eq_ok, withGlobal_eq_ok, failIf_eq_ok]
  refine ⟨(), connectCheckBlock_slackBlock k, (), rfl, ?_⟩
  have hgen : (slackBlock k).hash ≠ mainNode.params.hashGenesisBlock :=
    (by decide : (3 : Uint256) ≠ mainNode.params.hashGenesisBlock)
  rw [if_neg hgen]
  simp only [bind_eq_ok, withGlobal_eq_ok]
  exact ⟨s, hchecks, hr⟩

/-! ### The result -/

/-- **Supply conservation**, exactly: of the blocks with no slack, or with as many coins of slack as
a sequence number can name, those without slack are the ones of which the value check keeps its
promise. -/
theorem connectBlock_supply_bound (a : ℤ) (ha : a ≤ 0 ∨ ∃ k : ℕ, k < 2 ^ 32 ∧ a = k * COIN) :
    Conserves a ↔ a ≤ 0 := by
  refine ⟨fun hcon => ?_, conserves_of_nonpos⟩
  obtain ha | ⟨k, hk', rfl⟩ := ha
  · exact ha
  by_contra hpos
  have hk : 0 < k := Nat.pos_of_ne_zero fun hzero => hpos (by simp [hzero])
  obtain ⟨r, hr⟩ := connectBlock_slackBlock hk hk'
  have hparams : mainNode.params = paramsOf .MAIN := rfl
  have hgen : (slackBlock k).hash ≠ mainNode.params.hashGenesisBlock :=
    (by decide : (3 : Uint256) ≠ mainNode.params.hashGenesisBlock)
  have hle := (hcon hparams hgen (vouched_of_unchecked rfl) (by decide)
    (slack_slackBlock hk') hr).1
  have hbv : mainNode.params.getBlockValue secondIndex.nHeight = 50 * COIN := by decide
  rw [created_slackBlock, hbv] at hle
  omega

/-- A mined block with a private spend that has no sequence number. -/
theorem connectBlock_supply_bound_spend :
    created mainNode .initial (secondBlock [coinBaseTx (50 * COIN), spendTxAs 0]) secondIndex
        emptyView ≤ mainNode.params.getBlockValue 2 ∧
      ((secondBlock [coinBaseTx (50 * COIN), spendTxAs 0]).isProofOfStake = true →
        created mainNode .initial (secondBlock [coinBaseTx (50 * COIN), spendTxAs 0]) secondIndex
            emptyView
          ≤ mainNode.params.getBlockValue 2
            - trueFees mainNode .initial (secondBlock [coinBaseTx (50 * COIN), spendTxAs 0])
              secondIndex emptyView) := by
  have hok : (connectBlock mainNode .initial (secondBlock [coinBaseTx (50 * COIN), spendTxAs 0])
      secondIndex emptyView false false).isOk = true := by decide +kernel
  have hslack : slack mainNode .initial (secondBlock [coinBaseTx (50 * COIN), spendTxAs 0])
      secondIndex emptyView = 0 := by decide +kernel
  cases h : connectBlock mainNode .initial (secondBlock [coinBaseTx (50 * COIN), spendTxAs 0])
      secondIndex emptyView false false with
  | error e => simp [h, Except.isOk, Except.toBool] at hok
  | ok r =>
    have hparams : mainNode.params = paramsOf .MAIN := rfl
    exact (connectBlock_supply_bound 0 (.inl le_rfl)).mpr le_rfl hparams (by decide)
      (vouched_of_unchecked rfl) (by decide) hslack h

/-- A mined block with a private spend. Its 5000 coins are counted twice, so the coinbase can take
them once more: the block creates 5050 coins where its reward is 50. -/
theorem private_spend_creates_money :
    mainNode.params = paramsOf .MAIN ∧
      (secondBlock [coinBaseTx (5050 * COIN), spendTx]).hash ≠ mainNode.params.hashGenesisBlock ∧
      Vouched mainNode (secondBlock [coinBaseTx (5050 * COIN), spendTx]) false ∧
      regularValueCheck mainNode secondIndex.nHeight = true ∧
      (connectBlock mainNode .initial (secondBlock [coinBaseTx (5050 * COIN), spendTx])
        secondIndex emptyView false false).isOk = true ∧
      created mainNode .initial (secondBlock [coinBaseTx (5050 * COIN), spendTx]) secondIndex
        emptyView = 5050 * COIN ∧
      mainNode.params.getBlockValue secondIndex.nHeight = 50 * COIN := by
  refine ⟨rfl, by decide, vouched_of_unchecked rfl, by decide, ?_, ?_, by decide⟩
  · decide +kernel
  · decide +kernel

end Agenor
