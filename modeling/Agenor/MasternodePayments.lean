import Agenor.Params
import Mathlib.Data.List.AList

/-!
Masternode payments (`masternode-payments.{h,cpp}`): the votes of the masternodes for the payee of
a block, the output a new block gets for the elected payee and the check of that output.

The rest of the node is read through a `PaymentEnv`, which may be another one at every call. The
hash of a vote is a parameter: it covers the payee, the height and the masternode, not the
signature.
-/

namespace Agenor

def MNPAYMENTS_SIGNATURES_REQUIRED : ℤ := 6
def MNPAYMENTS_SIGNATURES_TOTAL : ℤ := 10

def MESS_VER_HASH : ℤ := 1
def MESS_VER_STRMESS : ℤ := 0

structure CMasternodePayee where
  scriptPubKey : CScript
  nVotes : ℤ
  deriving DecidableEq, Repr

/-- The votes for the payees of one block. -/
structure CMasternodeBlockPayees where
  nBlockHeight : ℤ
  vecPayments : List CMasternodePayee
  deriving DecidableEq, Repr

/-- The loop of `AddPayee`. -/
def addPayeeTo (payeeIn : CScript) (nIncrement : ℤ) : List CMasternodePayee → List CMasternodePayee
  | [] => [⟨payeeIn, nIncrement⟩]
  | payee :: rest =>
    if payee.scriptPubKey = payeeIn then
      { payee with nVotes := payee.nVotes + nIncrement } :: rest
    else payee :: addPayeeTo payeeIn nIncrement rest

namespace CMasternodeBlockPayees

variable (b : CMasternodeBlockPayees)

def addPayee (payeeIn : CScript) (nIncrement : ℤ) : CMasternodeBlockPayees :=
  { b with vecPayments := addPayeeTo payeeIn nIncrement b.vecPayments }

/-- `GetPayee`: the first of the payees with the most votes. -/
def getPayee : Option CScript :=
  let best := b.vecPayments.foldl (fun (best : Option CScript × ℤ) p =>
    if best.2 < p.nVotes then (some p.scriptPubKey, p.nVotes) else best) (none, -1)
  if -1 < best.2 then best.1 else none

def hasPayeeWithVotes (payee : CScript) (nVotesReq : ℤ) : Bool :=
  b.vecPayments.any fun p => decide (nVotesReq ≤ p.nVotes) && p.scriptPubKey == payee

/-- The first loop of `IsTransactionValid`. -/
def nMaxSignatures : ℤ :=
  b.vecPayments.foldl (fun nMax p =>
    if nMax ≤ p.nVotes ∧ MNPAYMENTS_SIGNATURES_REQUIRED ≤ p.nVotes then p.nVotes else nMax) 0

/-- `IsTransactionValid`: without a payee that has six votes anything goes, else one of those
that have them is paid what the height of the block asks for. -/
def isTransactionValid (consensus : ChainParams) (vout : List CTxOut) : Bool :=
  if b.nMaxSignatures < MNPAYMENTS_SIGNATURES_REQUIRED then true
  else
    let requiredMasternodePayment := getMasternodePayment (consensus.getBlockValue b.nBlockHeight)
    b.vecPayments.any fun payee =>
      let found := vout.any fun out =>
        payee.scriptPubKey == out.scriptPubKey && out.nValue == requiredMasternodePayment
      decide (MNPAYMENTS_SIGNATURES_REQUIRED ≤ payee.nVotes) && found

end CMasternodeBlockPayees

/-- `CMasternodePaymentWinner`: the vote of a masternode for the payee of a block. -/
structure CMasternodePaymentWinner where
  vinMasternode : CTxIn
  nBlockHeight : ℤ
  payee : CScript
  vchSig : List UInt8
  nMessVersion : ℤ
  deriving DecidableEq, Repr

/-- The hash of a payee, a height and a masternode. -/
abbrev WinnerHash := CScript → ℤ → COutPoint → Uint256

def CMasternodePaymentWinner.getHash (hash : WinnerHash) (winner : CMasternodePaymentWinner) :
    Uint256 :=
  hash winner.payee winner.nBlockHeight winner.vinMasternode.prevout

/-- `CMasternodePayments`. A vote is kept under its hash, and the payees of a block under the
height they are for. -/
structure CMasternodePayments where
  mapMasternodePayeeVotes : AList fun _ : Uint256 => CMasternodePaymentWinner
  mapMasternodeBlocks : ℤ → Option CMasternodeBlockPayees
  mapMasternodesLastVote : COutPoint → Option ℤ
  height_eq : ∀ {nHeight b}, mapMasternodeBlocks nHeight = some b → b.nBlockHeight = nHeight

/-- What the handlers read from the rest of the node. -/
structure PaymentEnv where
  isBlockchainSynced : Bool
  fLiteMode : Bool
  /-- `pfrom->nVersion`. -/
  nVersion : ℤ
  /-- `ActiveProtocol()`. -/
  activeProtocol : ℤ
  /-- The height of the tip, when there is one and `cs_main` could be taken. -/
  tipHeight : Option ℤ
  /-- `mnodeman.CountEnabled()`. -/
  countEnabled : ℕ
  /-- The protocol version of a masternode that `mnodeman.Find` finds. -/
  find : COutPoint → Option ℤ
  /-- `mnodeman.GetMasternodeRank` for the active protocol; `-1` when there is none. -/
  getMasternodeRank : COutPoint → ℤ → ℤ
  /-- `GetBlockHash` finds a block at that height. -/
  hasBlockHash : ℤ → Bool
  /-- `CheckSignature`, with the key that the masternode list has for the voter. -/
  checkSignature : CMasternodePaymentWinner → Bool

/-- `CMasternodePaymentWinner::IsValid`. A masternode without a rank passes the last check. -/
def CMasternodePaymentWinner.isValid (env : PaymentEnv) (winner : CMasternodePaymentWinner) :
    Bool :=
  match env.find winner.vinMasternode.prevout with
  | none => false
  | some protocolVersion =>
    if protocolVersion < env.activeProtocol then false
    else
      let n := env.getMasternodeRank winner.vinMasternode.prevout (winner.nBlockHeight - 100)
      !decide (MNPAYMENTS_SIGNATURES_TOTAL < n)

namespace CMasternodePayments

/-- A node that has just been started, without a payments file. -/
def initial : CMasternodePayments := ⟨∅, fun _ => none, fun _ => none, by simp⟩

def getBlockPayee (s : CMasternodePayments) (nBlockHeight : ℤ) : Option CScript :=
  (s.mapMasternodeBlocks nBlockHeight).bind CMasternodeBlockPayees.getPayee

def isTransactionValid (s : CMasternodePayments) (consensus : ChainParams) (vout : List CTxOut)
    (nBlockHeight : ℤ) : Bool :=
  (s.mapMasternodeBlocks nBlockHeight).all (·.isTransactionValid consensus vout)

/-- The height of the last vote of a masternode is recorded. -/
def recordVote (s : CMasternodePayments) (outMasternode : COutPoint) (nBlockHeight : ℤ) :
    CMasternodePayments where
  mapMasternodePayeeVotes := s.mapMasternodePayeeVotes
  mapMasternodeBlocks := s.mapMasternodeBlocks
  mapMasternodesLastVote :=
    Function.update s.mapMasternodesLastVote outMasternode (some nBlockHeight)
  height_eq := s.height_eq

/-- `CanVote` records the vote it allows. -/
def canVote (s : CMasternodePayments) (outMasternode : COutPoint) (nBlockHeight : ℤ) :
    Option CMasternodePayments :=
  if s.mapMasternodesLastVote outMasternode = some nBlockHeight then none
  else some (s.recordVote outMasternode nBlockHeight)

/-- The payees of a block, which are looked up or made anew. -/
def payeesAt (s : CMasternodePayments) (nBlockHeight : ℤ) : CMasternodeBlockPayees :=
  (s.mapMasternodeBlocks nBlockHeight).getD ⟨nBlockHeight, []⟩

lemma payeesAt_nBlockHeight (s : CMasternodePayments) (nBlockHeight : ℤ) :
    (s.payeesAt nBlockHeight).nBlockHeight = nBlockHeight := by
  unfold payeesAt
  cases h : s.mapMasternodeBlocks nBlockHeight with
  | none => rfl
  | some b => exact s.height_eq h

/-- The two maps with one more vote. -/
def addVote (s : CMasternodePayments) (hash : Uint256) (winner : CMasternodePaymentWinner) :
    CMasternodePayments where
  mapMasternodePayeeVotes := s.mapMasternodePayeeVotes.insert hash winner
  mapMasternodeBlocks := Function.update s.mapMasternodeBlocks winner.nBlockHeight
    (some ((s.payeesAt winner.nBlockHeight).addPayee winner.payee 1))
  mapMasternodesLastVote := s.mapMasternodesLastVote
  height_eq {nHeight b} h := by
    rcases eq_or_ne nHeight winner.nBlockHeight with rfl | hne
    · rw [Function.update_self, Option.some.injEq] at h
      rw [← h]
      exact s.payeesAt_nBlockHeight winner.nBlockHeight
    · rw [Function.update_of_ne hne] at h
      exact s.height_eq h

def addWinningMasternode (hash : WinnerHash) (env : PaymentEnv) (s : CMasternodePayments)
    (winnerIn : CMasternodePaymentWinner) : Option CMasternodePayments :=
  if !env.hasBlockHash (winnerIn.nBlockHeight - 100) then none
  else if winnerIn.getHash hash ∈ s.mapMasternodePayeeVotes then none
  else some (s.addVote (winnerIn.getHash hash) winnerIn)

/-- The checks of `ProcessMessageMasternodePayments` on a vote that come before `CanVote`. -/
def passesChecks (hash : WinnerHash) (env : PaymentEnv) (s : CMasternodePayments)
    (winner : CMasternodePaymentWinner) : Bool :=
  if !env.isBlockchainSynced then false
  else if env.fLiteMode then false
  else if env.nVersion < env.activeProtocol then false
  else match env.tipHeight with
    | none => false
    | some nHeight =>
      if winner.getHash hash ∈ s.mapMasternodePayeeVotes then false
      else
        -- `nHeight - CountEnabled() * 1.25`, cut off towards zero
        let nFirstBlock := (4 * nHeight - 5 * env.countEnabled).tdiv 4
        if winner.nBlockHeight < nFirstBlock ∨ nHeight + 20 < winner.nBlockHeight then false
        else if winner.nMessVersion ≠ MESS_VER_HASH then false
        else winner.isValid env

/-- `ProcessMessageMasternodePayments` for `MNWINNER`: the new state, and whether the vote has been
accepted and is relayed. -/
def processWinner (hash : WinnerHash) (env : PaymentEnv) (s : CMasternodePayments)
    (winner : CMasternodePaymentWinner) : CMasternodePayments × Bool :=
  if !s.passesChecks hash env winner then (s, false)
  else match s.canVote winner.vinMasternode.prevout winner.nBlockHeight with
    | none => (s, false)
    | some s =>
      if !env.checkSignature winner then (s, false)
      else match s.addWinningMasternode hash env winner with
        | none => (s, false)
        | some s => (s, true)

/-- The conditions under which a vote is counted. -/
structure Counts (hash : WinnerHash) (env : PaymentEnv) (s : CMasternodePayments)
    (winner : CMasternodePaymentWinner) : Prop where
  passes : s.passesChecks hash env winner = true
  fresh : s.mapMasternodesLastVote winner.vinMasternode.prevout ≠ some winner.nBlockHeight
  signed : env.checkSignature winner = true
  hasBlock : env.hasBlockHash (winner.nBlockHeight - 100) = true

section Spec

variable {hash : WinnerHash} {env : PaymentEnv} {s : CMasternodePayments}
  {winner : CMasternodePaymentWinner}

lemma not_mem_of_passesChecks (h : s.passesChecks hash env winner = true) :
    winner.getHash hash ∉ s.mapMasternodePayeeVotes := by
  intro hmem
  revert h
  unfold passesChecks
  cases env.tipHeight <;> simp [hmem]

lemma processWinner_of_counts (h : Counts hash env s winner) :
    s.processWinner hash env winner =
      ((s.recordVote winner.vinMasternode.prevout winner.nBlockHeight).addVote
        (winner.getHash hash) winner, true) := by
  have hnew : winner.getHash hash ∉
      (s.recordVote winner.vinMasternode.prevout winner.nBlockHeight).mapMasternodePayeeVotes :=
    not_mem_of_passesChecks h.passes
  simp [processWinner, canVote, addWinningMasternode, h.passes, h.fresh, h.signed, h.hasBlock, hnew]

lemma processWinner_of_not_counts (h : ¬ Counts hash env s winner) :
    (s.passesChecks hash env winner = true →
        s.mapMasternodesLastVote winner.vinMasternode.prevout = some winner.nBlockHeight) ∧
      s.processWinner hash env winner = (s, false) ∨
    s.passesChecks hash env winner = true ∧
      s.mapMasternodesLastVote winner.vinMasternode.prevout ≠ some winner.nBlockHeight ∧
      s.processWinner hash env winner =
        (s.recordVote winner.vinMasternode.prevout winner.nBlockHeight, false) := by
  by_cases hp : s.passesChecks hash env winner = true
  · by_cases hl : s.mapMasternodesLastVote winner.vinMasternode.prevout = some winner.nBlockHeight
    · refine Or.inl ⟨fun _ => hl, ?_⟩
      simp [processWinner, canVote, hp, hl]
    · refine Or.inr ⟨hp, hl, ?_⟩
      by_cases hs : env.checkSignature winner = true
      · have hb : env.hasBlockHash (winner.nBlockHeight - 100) = false := by
          rw [← Bool.not_eq_true]
          exact fun hb => h ⟨hp, hl, hs, hb⟩
        simp [processWinner, canVote, addWinningMasternode, hp, hl, hs, hb]
      · simp [processWinner, canVote, hp, hl, hs]
  · refine Or.inl ⟨fun h => absurd h hp, ?_⟩
    simp [processWinner, hp]

lemma processWinner_snd :
    (s.processWinner hash env winner).2 = true ↔ Counts hash env s winner := by
  by_cases h : Counts hash env s winner
  · rw [processWinner_of_counts h]
    exact iff_of_true rfl h
  · refine iff_of_false ?_ h
    rcases processWinner_of_not_counts h with ⟨-, he⟩ | ⟨-, -, he⟩
    · simp [he]
    · simp [he]

end Spec

end CMasternodePayments

/-- `nValue -= nAmount`. -/
def CTxOut.minus (nAmount : ℤ) (o : CTxOut) : CTxOut := { o with nValue := o.nValue - nAmount }

/-- The payment to a masternode is taken from the outputs of a coinstake, which the new output
follows. -/
def subtractPayment (masternodePayment : ℤ) (i : ℕ) (vout : List CTxOut) : List CTxOut :=
  if (vout[1]?).any (·.isZerocoinMint) then vout
  else if i = 2 then vout.modify (i - 1) (CTxOut.minus masternodePayment)
  else if 2 < i then
    let outputs := i - 1
    let mnPaymentSplit := masternodePayment.tdiv outputs
    let mnPaymentRemainder := masternodePayment - mnPaymentSplit * outputs
    ((List.range' 1 outputs).foldl (fun v j => v.modify j (CTxOut.minus mnPaymentSplit))
      vout).modify outputs (CTxOut.minus mnPaymentRemainder)
  else vout

/-- `CMasternodePayments::FillBlockPayee` on the block at `prevHeight`: the outputs of the coinbase
or coinstake. The current masternode (`mnodeman.GetCurrentMasterNode`) stands in when there is no
vote for the block. -/
def CMasternodePayments.fillBlockPayee (s : CMasternodePayments) (consensus : ChainParams)
    (currentMasterNode : Option CScript) (prevHeight : ℤ) (fProofOfStake : Bool)
    (vout : List CTxOut) : List CTxOut :=
  match (s.getBlockPayee (prevHeight + 1)).or currentMasterNode with
  | none => vout
  | some payee =>
    let blockValue := consensus.getBlockValue prevHeight
    let masternodePayment := getMasternodePayment blockValue
    if fProofOfStake then
      subtractPayment masternodePayment vout.length (vout ++ [⟨masternodePayment, payee⟩])
    else
      -- `vout.resize(2)`: the first output keeps its script
      let first := vout.headD CTxOut.null
      [{ first with nValue := consensus.getBlockValue (prevHeight + 1) - masternodePayment },
        ⟨masternodePayment, payee⟩]

end Agenor
