import Agenor.MasternodePayments
import Agenor.Node

/-!
The budget (`masternode-budget.{h,cpp}`): proposals, finalized budgets, the votes of the
masternodes on both, and the payments of superblocks.

The maps that the source walks through are association lists; the finalized budgets are listed in
the order of the map. The hashes are parameters. Everything read from the rest of the node is a
`BudgetEnv`, which may be another one at every call.
-/

namespace Agenor

def BUDGET_VOTE_UPDATE_MIN : ℤ := 60 * 60
def PROPOSAL_FEE_TX : ℤ := 50 * COIN
def BUDGET_FEE_TX : ℤ := 5 * COIN

def nBudgetFeeConfirmations : Network → ℤ
  | .MAIN => 6
  | .TESTNET => 3
  | .REGTEST => 3

/-! ### Votes -/

inductive VoteDirection | VOTE_ABSTAIN | VOTE_YES | VOTE_NO
  deriving DecidableEq, Repr

/-- The vote of a masternode on a proposal. -/
structure CBudgetVote where
  fValid : Bool
  nProposalHash : Uint256
  nVote : VoteDirection
  nTime : ℤ
  vin : CTxIn
  vchSig : List UInt8
  nMessVersion : ℤ
  deriving DecidableEq, Repr

/-- The vote of a masternode on a finalized budget. -/
structure CFinalizedBudgetVote where
  fValid : Bool
  vin : CTxIn
  nBudgetHash : Uint256
  nTime : ℤ
  vchSig : List UInt8
  nMessVersion : ℤ
  deriving DecidableEq, Repr

/-- The hashes of the messages. None of them covers a signature. -/
structure BudgetHashes where
  /-- `COutPoint::GetHash`. -/
  outPoint : COutPoint → Uint256
  /-- Name, URL, start, end, amount and address of a proposal. -/
  proposal : String → String → ℤ → ℤ → ℤ → CScript → Uint256
  vote : CTxIn → Uint256 → VoteDirection → ℤ → Uint256
  finalizedVote : CTxIn → Uint256 → ℤ → Uint256

def CBudgetVote.getHash (H : BudgetHashes) (vote : CBudgetVote) : Uint256 :=
  H.vote vote.vin vote.nProposalHash vote.nVote vote.nTime

def CFinalizedBudgetVote.getHash (H : BudgetHashes) (vote : CFinalizedBudgetVote) : Uint256 :=
  H.finalizedVote vote.vin vote.nBudgetHash vote.nTime

/-- The votes on something, under the hash of the masternode they come from. -/
abbrev VoteMap (V : Type) := AList fun _ : Uint256 => V

/-- `AddOrUpdateVote`, which a proposal and a finalized budget have in the same words: `time` is the
time of a vote, `now` that of the node. -/
def addOrUpdateVote {V : Type} (time : V → ℤ) (now : ℤ) (mapVotes : VoteMap V) (hash : Uint256)
    (vote : V) : Option (VoteMap V) :=
  let tooSoon := (mapVotes.lookup hash).any fun old =>
    decide (time vote < time old) || decide (time vote - time old < BUDGET_VOTE_UPDATE_MIN)
  if tooSoon then none
  else if now + 60 * 60 < time vote then none
  else some (mapVotes.insert hash vote)

/-! ### Finalized budgets and proposals -/

structure CTxBudgetPayment where
  nProposalHash : Uint256
  payee : CScript
  nAmount : ℤ
  deriving DecidableEq, Repr

/-- The output that makes a payment. -/
def CTxBudgetPayment.out (payment : CTxBudgetPayment) : CTxOut := ⟨payment.nAmount, payment.payee⟩

structure CFinalizedBudget where
  nBlockStart : ℤ
  vecBudgetPayments : List CTxBudgetPayment
  mapVotes : VoteMap CFinalizedBudgetVote
  strBudgetName : String := ""
  nFeeTXHash : Uint256 := 0
  nTime : ℤ := 0
  fValid : Bool := true
  strInvalid : String := ""

structure CBudgetProposal where
  strProposalName : String
  strURL : String
  nBlockStart : ℤ
  nBlockEnd : ℤ
  nAmount : ℤ
  address : CScript
  nFeeTXHash : Uint256
  nTime : ℤ
  mapVotes : VoteMap CBudgetVote

/-- `mapPayment_History`: the proposals that have been paid, with the block. -/
abbrev PaymentHistory := Uint256 → Option ℤ

inductive TrxValidationStatus | InValid | Valid | DoublePayment | VoteThreshold
  deriving DecidableEq, Repr

namespace CFinalizedBudget

variable (b : CFinalizedBudget)

def getBlockEnd : ℤ := b.nBlockStart + (b.vecBudgetPayments.length - 1)
def getVoteCount : ℤ := b.mapVotes.entries.length

/-- The range test that the walks over the finalized budgets share. -/
def inRange (nBlockHeight : ℤ) : Bool :=
  decide (b.nBlockStart ≤ nBlockHeight) && decide (nBlockHeight ≤ b.getBlockEnd)

/-- `GetBudgetPaymentByBlock`, and `GetPayeeAndAmount` without the proposal. -/
def getBudgetPaymentByBlock (nBlockHeight : ℤ) : Option CTxBudgetPayment :=
  let i := nBlockHeight - b.nBlockStart
  if i < 0 then none
  else if (b.vecBudgetPayments.length : ℤ) - 1 < i then none
  else b.vecBudgetPayments[i.toNat]?

/-- The payments of other cycles are dropped from the history. -/
def dropOtherCycles (hist : PaymentHistory) : PaymentHistory := fun p =>
  (hist p).filter fun nPaidBlockHeight =>
    !(decide (nPaidBlockHeight < b.nBlockStart) || decide (b.getBlockEnd < nPaidBlockHeight))

/-- `IsPaidAlready`. A payment that is new is recorded. -/
def isPaidAlready (nProposalHash : Uint256) (nBlockHeight : ℤ) (hist : PaymentHistory) :
    Bool × PaymentHistory :=
  let hist := b.dropOtherCycles hist
  match hist nProposalHash with
  | none => (false, Function.update hist nProposalHash (some nBlockHeight))
  | some _ => (true, hist)

/-- The loop of `IsTransactionValid` over the outputs. -/
def checkOutputs (payment : CTxBudgetPayment) (nBlockHeight : ℤ) :
    TrxValidationStatus → PaymentHistory → List CTxOut → TrxValidationStatus × PaymentHistory
  | status, hist, [] => (status, hist)
  | status, hist, out :: rest =>
    if payment.payee = out.scriptPubKey ∧ payment.nAmount = out.nValue then
      let (paid, hist) := b.isPaidAlready payment.nProposalHash nBlockHeight hist
      if paid then (.DoublePayment, hist) else checkOutputs payment nBlockHeight .Valid hist rest
    else checkOutputs payment nBlockHeight status hist rest

def isTransactionValid (vout : List CTxOut) (nBlockHeight : ℤ) (hist : PaymentHistory) :
    TrxValidationStatus × PaymentHistory :=
  match b.getBudgetPaymentByBlock nBlockHeight with
  | none => (.InValid, hist)
  | some payment => b.checkOutputs payment nBlockHeight .InValid hist vout

end CFinalizedBudget

namespace CBudgetProposal

variable (p : CBudgetProposal)

def getHash (H : BudgetHashes) : Uint256 :=
  H.proposal p.strProposalName p.strURL p.nBlockStart p.nBlockEnd p.nAmount p.address

def getVoteCount (vd : VoteDirection) : ℤ :=
  (p.mapVotes.entries.filter fun e => e.2.nVote == vd && e.2.fValid).length

def getBlockCycle (consensus : ChainParams) (nHeight : ℤ) : ℤ :=
  nHeight - nHeight.tmod consensus.nBudgetCycleBlocks

def getTotalPaymentCount (consensus : ChainParams) : ℤ :=
  (int32 (p.nBlockEnd - getBlockCycle consensus p.nBlockStart)).tdiv consensus.nBudgetCycleBlocks

/-- The last check of `UpdateValid`, which is not made without a chain. -/
def isExpired (consensus : ChainParams) (nCurrentHeight : ℤ) : Bool :=
  if nCurrentHeight ≤ 0 then false
  else
    let nProposalEnd := int32 (p.nBlockStart +
      int32 (consensus.nBudgetCycleBlocks * p.getTotalPaymentCount consensus))
    decide (nProposalEnd < nCurrentHeight)

end CBudgetProposal

def getTotalBudget (consensus : ChainParams) (nHeight : ℤ) : ℤ :=
  if consensus.networkID = .TESTNET then (500 * COIN / 100) * 10 * 146
  else
    let isPoSActive := consensus.networkUpgradeActive nHeight .UPGRADE_POS
    let nSubsidy :=
      if 151200 ≤ nHeight ∧ isPoSActive = false then 50 * COIN
      else if isPoSActive = true ∧ nHeight ≤ 302399 then 50 * COIN
      else if nHeight ≤ 345599 ∧ 302400 ≤ nHeight then 45 * COIN
      else if nHeight ≤ 388799 ∧ 345600 ≤ nHeight then 40 * COIN
      else if nHeight ≤ 431999 ∧ 388800 ≤ nHeight then 35 * COIN
      else if nHeight ≤ 475199 ∧ 432000 ≤ nHeight then 30 * COIN
      else if nHeight ≤ 518399 ∧ 475200 ≤ nHeight then 25 * COIN
      else if nHeight ≤ 561599 ∧ 518400 ≤ nHeight then 20 * COIN
      else if nHeight ≤ 604799 ∧ 561600 ≤ nHeight then 15 * COIN
      else if nHeight ≤ 647999 ∧ 604800 ≤ nHeight then 10 * COIN
      else if consensus.networkUpgradeActive nHeight .UPGRADE_ZC_V2 then 10 * COIN
      else 5 * COIN
    if nHeight ≤ 172800 then 648000 * COIN else (nSubsidy / 100) * 10 * 1440 * 30

/-! ### The manager -/

/-- `CBudgetManager`, with the payments the file has recorded. -/
structure CBudgetManager where
  mapProposals : Uint256 → Option CBudgetProposal
  mapFinalizedBudgets : List (Uint256 × CFinalizedBudget)
  mapSeenMasternodeBudgetProposals : Uint256 → Option CBudgetProposal
  mapSeenMasternodeBudgetVotes : Uint256 → Option CBudgetVote
  mapOrphanMasternodeBudgetVotes : VoteMap CBudgetVote
  mapSeenFinalizedBudgetVotes : Uint256 → Option CFinalizedBudgetVote
  mapOrphanFinalizedBudgetVotes : VoteMap CFinalizedBudgetVote
  vecImmatureBudgetProposals : List CBudgetProposal
  mapPayment_History : PaymentHistory

/-- A node that has just been started. -/
def CBudgetManager.initial : CBudgetManager :=
  ⟨fun _ => none, [], fun _ => none, fun _ => none, ∅, fun _ => none, ∅, [], fun _ => none⟩

/-- What the budget reads from the rest of the node. -/
structure BudgetEnv where
  consensus : ChainParams
  fLiteMode : Bool
  isBlockchainSynced : Bool
  /-- `masternodeSync.IsSynced()`. -/
  isSynced : Bool
  /-- `GetTime()`. -/
  getTime : ℤ
  /-- `GetBestHeight()`. -/
  nBestHeight : ℤ
  /-- `mnodeman.CountEnabled(ActiveProtocol())`. -/
  countEnabled : ℕ
  /-- `mnodeman.Find` finds the masternode. -/
  isKnown : COutPoint → Bool
  /-- `CheckSignature`, with the key that the masternode list has for the voter. -/
  checkSignature : CBudgetVote → Bool
  checkFinalizedSignature : CFinalizedBudgetVote → Bool
  getTransaction : Uint256 → Option (CTransaction × Uint256)
  /-- The lock time, which a `CTransaction` of the model does not hold. -/
  nLockTime : CTransaction → ℕ
  getIXConfirmations : Uint256 → ℤ
  /-- The depth and the time of a block of the active chain. -/
  confirmations : Uint256 → Option (ℤ × ℤ)

/-- The bytes of a hash, the lowest first. -/
def uint256Bytes (h : Uint256) : List UInt8 :=
  (List.range 32).map fun i => UInt8.ofNat (h.toNat / 256 ^ i % 256)

/-- What `IsBudgetCollateralValid` says of a fee transaction: whether it pays for the hash, the time
of its block and its confirmations. -/
def isBudgetCollateralValid (env : BudgetEnv) (nTxCollateralHash nExpectedHash : Uint256)
    (nTime : ℤ) (fBudgetFinalization : Bool) : Bool × ℤ × ℤ :=
  match env.getTransaction nTxCollateralHash with
  | none => (false, nTime, 0)
  | some (txCollateral, nBlockHash) =>
    let findScript := Script.OP_RETURN :: 32 :: uint256Bytes nExpectedHash
    let nFee := if fBudgetFinalization then BUDGET_FEE_TX else PROPOSAL_FEE_TX
    if txCollateral.vout.length < 1 then (false, nTime, 0)
    else if env.nLockTime txCollateral ≠ 0 then (false, nTime, 0)
    else if txCollateral.vout.any (fun o => !Script.isNormalPaymentScript o.scriptPubKey &&
        !Script.isUnspendable o.scriptPubKey) then (false, nTime, 0)
    else if !txCollateral.vout.any (fun o => o.scriptPubKey == findScript &&
        decide (nFee ≤ o.nValue)) then (false, nTime, 0)
    else
      let block := if nBlockHash = 0 then none else env.confirmations nBlockHash
      let conf := env.getIXConfirmations nTxCollateralHash + (block.map (·.1)).getD 0
      let nTime := (block.map (·.2)).getD nTime
      (decide (nBudgetFeeConfirmations env.consensus.networkID ≤ conf), nTime, conf)

/-- `CBudgetProposal::UpdateValid`, with the check of the collateral. -/
def CBudgetProposal.updateValid (env : BudgetEnv) (H : BudgetHashes) (p : CBudgetProposal) : Bool :=
  if (env.countEnabled : ℤ) / 10 < p.getVoteCount .VOTE_NO - p.getVoteCount .VOTE_YES then false
  else if p.nBlockStart < 0 then false
  else if p.nBlockEnd < p.nBlockStart then false
  else if p.nAmount < 10 * COIN then false
  else if p.address = [] then false
  else if !(isBudgetCollateralValid env p.nFeeTXHash (p.getHash H) p.nTime false).1 then false
  else if Script.isPayToScriptHash p.address then false
  else if getTotalBudget env.consensus p.nBlockStart < p.nAmount then false
  else !p.isExpired env.consensus env.nBestHeight

namespace CBudgetManager

/-! ### Superblocks -/

/-- One step of the walks that look for the highest vote count among the budgets of a block. -/
def higher (nBlockHeight nHighestCount : ℤ) (e : Uint256 × CFinalizedBudget) : ℤ :=
  if nHighestCount < e.2.getVoteCount ∧ e.2.inRange nBlockHeight = true then e.2.getVoteCount
  else nHighestCount

@[inherit_doc higher]
def highestCount (s : CBudgetManager) (nBlockHeight : ℤ) (start : ℤ) : ℤ :=
  s.mapFinalizedBudgets.foldl (higher nBlockHeight) start

def isBudgetPaymentBlock (s : CBudgetManager) (countEnabled : ℕ) (nBlockHeight : ℤ) : Bool :=
  decide (((countEnabled / 20 : ℕ) : ℤ) < s.highestCount nBlockHeight (-1))

/-- The second walk of `IsTransactionValid`, over the budgets above the threshold. -/
def checkBudgets (vout : List CTxOut) (nBlockHeight nCountThreshold : ℤ) :
    Bool → TrxValidationStatus → PaymentHistory → List (Uint256 × CFinalizedBudget) →
      TrxValidationStatus × PaymentHistory
  | fThreshold, status, hist, [] => (if fThreshold then status else .VoteThreshold, hist)
  | fThreshold, status, hist, (_, b) :: rest =>
    if nCountThreshold < b.getVoteCount then
      if b.inRange nBlockHeight then
        let (status, hist) := b.isTransactionValid vout nBlockHeight hist
        if status = .Valid then (.Valid, hist)
        else checkBudgets vout nBlockHeight nCountThreshold true status hist rest
      else checkBudgets vout nBlockHeight nCountThreshold true status hist rest
    else checkBudgets vout nBlockHeight nCountThreshold fThreshold status hist rest

def isTransactionValid (s : CBudgetManager) (countEnabled : ℕ) (vout : List CTxOut)
    (nBlockHeight : ℤ) : TrxValidationStatus × PaymentHistory :=
  let nHighestCount := s.highestCount nBlockHeight 0
  if nHighestCount < (countEnabled / 20 : ℕ) then (.InValid, s.mapPayment_History)
  else checkBudgets vout nBlockHeight (nHighestCount - (countEnabled / 10 : ℕ)) false .InValid
    s.mapPayment_History s.mapFinalizedBudgets

/-- The walk of `FillBlockPayee`: the highest count, and the payment of the budget that has it. -/
def highestPayment (s : CBudgetManager) (nBlockHeight : ℤ) : ℤ × CTxOut :=
  s.mapFinalizedBudgets.foldl (fun best e =>
    if best.1 < e.2.getVoteCount ∧ e.2.inRange nBlockHeight = true then
      ((e.2.getBudgetPaymentByBlock nBlockHeight).map fun payment =>
        (e.2.getVoteCount, payment.out)).getD best
    else best) (0, ⟨0, []⟩)

/-- `CBudgetManager::FillBlockPayee`: the outputs of the coinbase or coinstake on the best block. -/
def fillBlockPayee (s : CBudgetManager) (consensus : ChainParams) (nBestHeight : ℤ)
    (fProofOfStake : Bool) (vout : List CTxOut) : List CTxOut :=
  if nBestHeight ≤ 0 then vout
  else
    let (nHighestCount, payment) := s.highestPayment (nBestHeight + 1)
    if fProofOfStake then
      if 0 < nHighestCount then vout ++ [payment] else vout
    else
      let first := { vout.headD CTxOut.null with
        nValue := consensus.getBlockValue (nBestHeight + 1) }
      if 0 < nHighestCount then [first, payment] else first :: vout.tail

/-! ### Messages -/

/-- `UpdateProposal`: the new state, and whether the vote was taken. A vote on a proposal that is
not known waits for it, in the one place there is for the proposal; `fromPeer` is false when the
vote is such a waiting one. -/
def updateProposal (H : BudgetHashes) (env : BudgetEnv) (s : CBudgetManager) (vote : CBudgetVote)
    (fromPeer : Bool) : CBudgetManager × Bool :=
  match s.mapProposals vote.nProposalHash with
  | none =>
    if fromPeer && env.isSynced then
      ({ s with mapOrphanMasternodeBudgetVotes :=
          s.mapOrphanMasternodeBudgetVotes.insert vote.nProposalHash vote }, false)
    else (s, false)
  | some p =>
    match addOrUpdateVote CBudgetVote.nTime env.getTime p.mapVotes (H.outPoint vote.vin.prevout)
        vote with
    | none => (s, false)
    | some mapVotes =>
      ({ s with mapProposals :=
          Function.update s.mapProposals vote.nProposalHash (some { p with mapVotes }) }, true)

/-- The finalized budget under a hash. -/
def findFinalizedBudget (s : CBudgetManager) (nHash : Uint256) : Option CFinalizedBudget :=
  (s.mapFinalizedBudgets.find? (·.1 == nHash)).map (·.2)

def updateFinalizedBudget (H : BudgetHashes) (env : BudgetEnv) (s : CBudgetManager)
    (vote : CFinalizedBudgetVote) (fromPeer : Bool) : CBudgetManager × Bool :=
  match s.findFinalizedBudget vote.nBudgetHash with
  | none =>
    if fromPeer && env.isSynced then
      ({ s with mapOrphanFinalizedBudgetVotes :=
          s.mapOrphanFinalizedBudgetVotes.insert vote.nBudgetHash vote }, false)
    else (s, false)
  | some b =>
    match addOrUpdateVote CFinalizedBudgetVote.nTime env.getTime b.mapVotes
        (H.outPoint vote.vin.prevout) vote with
    | none => (s, false)
    | some mapVotes =>
      ({ s with mapFinalizedBudgets := s.mapFinalizedBudgets.map fun e =>
          if e.1 = vote.nBudgetHash then (e.1, { b with mapVotes }) else e }, true)

/-- One loop of `CheckOrphanVotes`. After a vote has been taken its entry is erased and the iterator
to it is moved on: from there on the behaviour is undefined. -/
def checkOrphans {V : Type} (update : CBudgetManager → V → CBudgetManager × Bool) :
    CBudgetManager → List V → Option CBudgetManager
  | s, [] => some s
  | s, vote :: rest =>
    let (s, taken) := update s vote
    if taken then none else checkOrphans update s rest

def checkOrphanVotes (H : BudgetHashes) (env : BudgetEnv) (s : CBudgetManager) :
    Option CBudgetManager := do
  let s ← checkOrphans (fun s vote => s.updateProposal H env vote false) s
    (s.mapOrphanMasternodeBudgetVotes.entries.map (·.2))
  checkOrphans (fun s vote => s.updateFinalizedBudget H env vote false) s
    (s.mapOrphanFinalizedBudgetVotes.entries.map (·.2))

def addProposal (H : BudgetHashes) (env : BudgetEnv) (s : CBudgetManager) (p : CBudgetProposal) :
    CBudgetManager :=
  if !p.updateValid env H then s
  else if (s.mapProposals (p.getHash H)).isSome then s
  else { s with mapProposals := Function.update s.mapProposals (p.getHash H) (some p) }

/-- `std::map::insert`: an entry that is there stays. -/
def insertNew {V : Type} (m : Uint256 → Option V) (k : Uint256) (v : V) : Uint256 → Option V :=
  Function.update m k (some ((m k).getD v))

def addSeenProposal (H : BudgetHashes) (s : CBudgetManager) (p : CBudgetProposal) :
    CBudgetManager :=
  { s with mapSeenMasternodeBudgetProposals :=
      insertNew s.mapSeenMasternodeBudgetProposals (p.getHash H) p }

def addSeenProposalVote (H : BudgetHashes) (s : CBudgetManager) (vote : CBudgetVote) :
    CBudgetManager :=
  { s with mapSeenMasternodeBudgetVotes :=
      insertNew s.mapSeenMasternodeBudgetVotes (vote.getHash H) vote }

def addSeenFinalizedBudgetVote (H : BudgetHashes) (s : CBudgetManager)
    (vote : CFinalizedBudgetVote) : CBudgetManager :=
  { s with mapSeenFinalizedBudgetVotes :=
      insertNew s.mapSeenFinalizedBudgetVotes (vote.getHash H) vote }

/-- Lite mode and the state of the synchronisation close `ProcessMessage` altogether. -/
def isOpen (env : BudgetEnv) : Bool := !env.fLiteMode && env.isBlockchainSynced

/-- `ProcessMessage` for `BUDGETPROPOSAL`. A broadcast brings no votes with it. -/
def processProposal (H : BudgetHashes) (env : BudgetEnv) (s : CBudgetManager)
    (broadcast : CBudgetProposal) : Option CBudgetManager :=
  let broadcast := { broadcast with mapVotes := ∅ }
  let nHash := broadcast.getHash H
  if !isOpen env then some s
  else if (s.mapSeenMasternodeBudgetProposals nHash).isSome then some s
  else
    let (valid, nTime, nConf) :=
      isBudgetCollateralValid env broadcast.nFeeTXHash nHash broadcast.nTime false
    let broadcast := { broadcast with nTime }
    if !valid then
      let vecImmatureBudgetProposals := s.vecImmatureBudgetProposals ++ [broadcast]
      some (if 1 ≤ nConf then { s with vecImmatureBudgetProposals } else s)
    else
      let s := s.addSeenProposal H broadcast
      if !broadcast.updateValid env H then some s
      else (s.addProposal H env broadcast).checkOrphanVotes H env

/-- `ProcessMessage` for `BUDGETVOTE`: the new state, and whether the vote has been taken and is
relayed. -/
def processVote (H : BudgetHashes) (env : BudgetEnv) (s : CBudgetManager) (vote : CBudgetVote) :
    CBudgetManager × Bool :=
  let vote := { vote with fValid := true }
  if !isOpen env then (s, false)
  else if (s.mapSeenMasternodeBudgetVotes (vote.getHash H)).isSome then (s, false)
  else if !env.isKnown vote.vin.prevout then (s, false)
  else
    let s := s.addSeenProposalVote H vote
    if !env.checkSignature vote then (s, false)
    else s.updateProposal H env vote true

/-- `ProcessMessage` for `FINALBUDGETVOTE`. -/
def processFinalizedVote (H : BudgetHashes) (env : BudgetEnv) (s : CBudgetManager)
    (vote : CFinalizedBudgetVote) : CBudgetManager × Bool :=
  let vote := { vote with fValid := true }
  if !isOpen env then (s, false)
  else if (s.mapSeenFinalizedBudgetVotes (vote.getHash H)).isSome then (s, false)
  else if !env.isKnown vote.vin.prevout then (s, false)
  else
    let s := s.addSeenFinalizedBudgetVote H vote
    if !env.checkFinalizedSignature vote then (s, false)
    else s.updateFinalizedBudget H env vote true

/-! ### Which votes are taken -/

/-- The proposal is known and takes the vote. -/
def proposalTakes (H : BudgetHashes) (env : BudgetEnv) (s : CBudgetManager) (vote : CBudgetVote) :
    Bool :=
  (s.mapProposals vote.nProposalHash).any fun p =>
    (addOrUpdateVote CBudgetVote.nTime env.getTime p.mapVotes (H.outPoint vote.vin.prevout)
      vote).isSome

/-- The finalized budget is known and takes the vote. -/
def budgetTakes (H : BudgetHashes) (env : BudgetEnv) (s : CBudgetManager)
    (vote : CFinalizedBudgetVote) : Bool :=
  (s.findFinalizedBudget vote.nBudgetHash).any fun b =>
    (addOrUpdateVote CFinalizedBudgetVote.nTime env.getTime b.mapVotes
      (H.outPoint vote.vin.prevout) vote).isSome

section Spec

variable {H : BudgetHashes} {env : BudgetEnv} {s : CBudgetManager}

lemma updateProposal_snd (vote : CBudgetVote) (fromPeer : Bool) :
    (s.updateProposal H env vote fromPeer).2 = s.proposalTakes H env vote := by
  unfold updateProposal proposalTakes
  cases s.mapProposals vote.nProposalHash with
  | none =>
    dsimp only
    split_ifs <;> rfl
  | some p =>
    dsimp only [Option.any_some]
    cases addOrUpdateVote CBudgetVote.nTime env.getTime p.mapVotes (H.outPoint vote.vin.prevout)
      vote <;> rfl

lemma updateFinalizedBudget_snd (vote : CFinalizedBudgetVote) (fromPeer : Bool) :
    (s.updateFinalizedBudget H env vote fromPeer).2 = s.budgetTakes H env vote := by
  unfold updateFinalizedBudget budgetTakes
  cases s.findFinalizedBudget vote.nBudgetHash with
  | none =>
    dsimp only
    split_ifs <;> rfl
  | some b =>
    dsimp only [Option.any_some]
    cases addOrUpdateVote CFinalizedBudgetVote.nTime env.getTime b.mapVotes
      (H.outPoint vote.vin.prevout) vote <;> rfl

lemma processVote_snd (vote : CBudgetVote) :
    (s.processVote H env vote).2 = true ↔
      isOpen env = true ∧ s.mapSeenMasternodeBudgetVotes (vote.getHash H) = none ∧
      env.isKnown vote.vin.prevout = true ∧ env.checkSignature { vote with fValid := true } = true ∧
      s.proposalTakes H env { vote with fValid := true } = true := by
  have hhash : CBudgetVote.getHash H { vote with fValid := true } = vote.getHash H := rfl
  have htakes : (s.addSeenProposalVote H { vote with fValid := true }).proposalTakes H env
      { vote with fValid := true } = s.proposalTakes H env { vote with fValid := true } := rfl
  unfold processVote
  dsimp only
  rw [hhash]
  split_ifs with h1 h2 h3 h4
  · simp_all
  · rw [Option.isSome_iff_ne_none] at h2
    simp_all
  · simp_all
  · simp_all
  · rw [updateProposal_snd, htakes]
    simp_all

lemma processFinalizedVote_snd (vote : CFinalizedBudgetVote) :
    (s.processFinalizedVote H env vote).2 = true ↔
      isOpen env = true ∧ s.mapSeenFinalizedBudgetVotes (vote.getHash H) = none ∧
      env.isKnown vote.vin.prevout = true ∧
      env.checkFinalizedSignature { vote with fValid := true } = true ∧
      s.budgetTakes H env { vote with fValid := true } = true := by
  have hhash : CFinalizedBudgetVote.getHash H { vote with fValid := true } = vote.getHash H := rfl
  have htakes : (s.addSeenFinalizedBudgetVote H { vote with fValid := true }).budgetTakes H env
      { vote with fValid := true } = s.budgetTakes H env { vote with fValid := true } := rfl
  unfold processFinalizedVote
  dsimp only
  rw [hhash]
  split_ifs with h1 h2 h3 h4
  · simp_all
  · rw [Option.isSome_iff_ne_none] at h2
    simp_all
  · simp_all
  · simp_all
  · rw [updateFinalizedBudget_snd, htakes]
    simp_all

end Spec

end CBudgetManager

/-- The state and the sporks that `IsBlockPayeeValid` reads. -/
structure PayeeRules where
  /-- `masternodeSync.IsSynced()`. -/
  isSynced : Bool
  /-- `SPORK_13_ENABLE_SUPERBLOCKS`. -/
  superblocks : Bool
  /-- `SPORK_9_MASTERNODE_BUDGET_ENFORCEMENT`. -/
  budgetEnforcement : Bool
  /-- `SPORK_8_MASTERNODE_PAYMENT_ENFORCEMENT`. -/
  paymentEnforcement : Bool
  deriving DecidableEq, Repr

/-- The outputs of the transaction that pays the reward of a block: its coinstake, or its
coinbase. -/
def rewardOutputs (consensus : ChainParams) (block : CBlock) (nBlockHeight : ℤ) : List CTxOut :=
  let isPoSActive := consensus.networkUpgradeActive nBlockHeight .UPGRADE_POS
  ((block.vtx[if isPoSActive then 1 else 0]?).map (·.vout)).getD []

/-- `IsBlockPayeeValid`, with the payments that are recorded afterwards. -/
def isBlockPayeeValid (rules : PayeeRules) (consensus : ChainParams)
    (payments : CMasternodePayments)
    (budget : CBudgetManager) (countEnabled : ℕ) (block : CBlock) (nBlockHeight : ℤ) :
    Bool × PaymentHistory :=
  let vout := rewardOutputs consensus block nBlockHeight
  -- a masternode gets the payment when the budget does not
  let masternodePaid :=
    payments.isTransactionValid consensus vout nBlockHeight || !rules.paymentEnforcement
  if !rules.isSynced then (true, budget.mapPayment_History)
  else if rules.superblocks && budget.isBudgetPaymentBlock countEnabled nBlockHeight then
    let (transactionStatus, hist) := budget.isTransactionValid countEnabled vout nBlockHeight
    if transactionStatus = .Valid then (true, hist)
    else if transactionStatus = .InValid ∧ rules.budgetEnforcement = true then (false, hist)
    else (masternodePaid, hist)
  else (masternodePaid, budget.mapPayment_History)

end Agenor
