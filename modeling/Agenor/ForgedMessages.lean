import Agenor.Superblocks
import Agenor.PayeeVotes

/-!
Forged votes: what a message with a bad signature leaves behind.

The three handlers record something before they check the signature: the height a masternode has
last voted for (`mnw`), or the hash of the vote (`mvote`, `fbvote`), which does not cover the
signature. Whoever sends a copy of a vote with a bad signature first keeps the real one out.
-/

namespace Agenor

/-- The three messages that carry a vote. -/
inductive GovMsg
  | mnw (winner : CMasternodePaymentWinner)
  | mvote (vote : CBudgetVote)
  | fbvote (vote : CFinalizedBudgetVote)
  deriving DecidableEq, Repr

structure GovEnv where
  hash : WinnerHash
  H : BudgetHashes
  payment : PaymentEnv
  budget : BudgetEnv

structure GovState where
  payments : CMasternodePayments
  budget : CBudgetManager

namespace GovMsg

/-- The signature fits; a handler marks a budget vote as valid before it looks. -/
def signed (env : GovEnv) : GovMsg → Bool
  | mnw winner => env.payment.checkSignature winner
  | mvote vote => env.budget.checkSignature { vote with fValid := true }
  | fbvote vote => env.budget.checkFinalizedSignature { vote with fValid := true }

end GovMsg

namespace GovState

open CMasternodePayments CBudgetManager

/-- One message: the new state, and whether the vote has been taken and is relayed. -/
def receive (env : GovEnv) (s : GovState) : GovMsg → GovState × Bool
  | .mnw winner =>
    let r := s.payments.processWinner env.hash env.payment winner
    ({ s with payments := r.1 }, r.2)
  | .mvote vote =>
    let r := s.budget.processVote env.H env.budget vote
    ({ s with budget := r.1 }, r.2)
  | .fbvote vote =>
    let r := s.budget.processFinalizedVote env.H env.budget vote
    ({ s with budget := r.1 }, r.2)

/-- The state after some messages. -/
def after (env : GovEnv) (s : GovState) (F : List GovMsg) : GovState :=
  F.foldl (fun s f => (s.receive env f).1) s

variable {env : GovEnv} {s : GovState} {F : List GovMsg}

lemma after_append (F : List GovMsg) (f : GovMsg) :
    s.after env (F ++ [f]) = ((s.after env F).receive env f).1 := by
  rw [after, List.foldl_append]
  rfl

/-! ### What forged messages leave behind -/

/-- The height that a forged `mnw` records for a masternode. -/
def recorded (env : GovEnv) (s : GovState) (m : COutPoint) : GovMsg → Option ℤ
  | .mnw winner =>
    if winner.vinMasternode.prevout = m ∧
        s.payments.passesChecks env.hash env.payment winner = true then some winner.nBlockHeight
    else none
  | _ => none

/-- The hash that a forged `mvote` marks as seen. -/
def marked (env : GovEnv) : GovMsg → Option Uint256
  | .mvote vote =>
    if isOpen env.budget = true ∧ env.budget.isKnown vote.vin.prevout = true then
      some (vote.getHash env.H)
    else none
  | _ => none

/-- The hash that a forged `fbvote` marks as seen. -/
def markedFinal (env : GovEnv) : GovMsg → Option Uint256
  | .fbvote vote =>
    if isOpen env.budget = true ∧ env.budget.isKnown vote.vin.prevout = true then
      some (vote.getHash env.H)
    else none
  | _ => none

/-- Forged messages change nothing but the last heights and the seen hashes. -/
structure Trace (env : GovEnv) (s : GovState) (F : List GovMsg) (s' : GovState) : Prop where
  votes : s'.payments.mapMasternodePayeeVotes = s.payments.mapMasternodePayeeVotes
  last : ∀ m, s'.payments.mapMasternodesLastVote m =
    ((F.filterMap (s.recorded env m)).getLast?).or (s.payments.mapMasternodesLastVote m)
  proposals : s'.budget.mapProposals = s.budget.mapProposals
  budgets : s'.budget.mapFinalizedBudgets = s.budget.mapFinalizedBudgets
  seen : ∀ k, s'.budget.mapSeenMasternodeBudgetVotes k = none ↔
    s.budget.mapSeenMasternodeBudgetVotes k = none ∧ k ∉ F.filterMap (marked env)
  seenFinal : ∀ k, s'.budget.mapSeenFinalizedBudgetVotes k = none ↔
    s.budget.mapSeenFinalizedBudgetVotes k = none ∧ k ∉ F.filterMap (markedFinal env)

lemma passesChecks_congr {p p' : CMasternodePayments}
    (h : p'.mapMasternodePayeeVotes = p.mapMasternodePayeeVotes) (hash : WinnerHash)
    (e : PaymentEnv) (winner : CMasternodePaymentWinner) :
    p'.passesChecks hash e winner = p.passesChecks hash e winner := by
  unfold passesChecks
  rw [h]

lemma insertNew_eq_none {V : Type} (m : Uint256 → Option V) (k i : Uint256) (v : V) :
    insertNew m k v i = none ↔ m i = none ∧ i ≠ k := by
  unfold insertNew
  rcases eq_or_ne i k with rfl | hi
  · simp
  · simp [hi]

lemma trace_mnw {winner : CMasternodePaymentWinner}
    (hf : (GovMsg.mnw winner).signed env = false) :
    Trace env s [.mnw winner] (s.receive env (.mnw winner)).1 := by
  have hno : ¬ Counts env.hash env.payment s.payments winner := by
    intro hc
    exact absurd hc.signed (by simpa [GovMsg.signed] using hf)
  have hlast : ∀ m, ((s.payments.processWinner env.hash env.payment winner).1).mapMasternodesLastVote m
      = (s.recorded env m (.mnw winner)).or (s.payments.mapMasternodesLastVote m) := by
    intro m
    unfold recorded
    dsimp only
    rcases processWinner_of_not_counts hno with ⟨hwas, he⟩ | ⟨hp, -, he⟩
    · rw [he]
      split_ifs with hm
      · rw [← hm.1, hwas hm.2, Option.some_or]
      · rfl
    · rw [he]
      rcases eq_or_ne winner.vinMasternode.prevout m with rfl | hm
      · simp [recordVote, hp]
      · simp [recordVote, hm, Function.update_of_ne (Ne.symm hm)]
  have hvotes : ((s.payments.processWinner env.hash env.payment winner).1).mapMasternodePayeeVotes
      = s.payments.mapMasternodePayeeVotes := by
    rcases processWinner_of_not_counts hno with ⟨-, he⟩ | ⟨-, -, he⟩
    · rw [he]
    · rw [he]
      rfl
  refine ⟨hvotes, fun m => ?_, rfl, rfl, fun k => ?_, fun k => ?_⟩
  · refine (hlast m).trans ?_
    cases h : s.recorded env m (.mnw winner) <;> simp [h]
  · simp [receive, marked]
  · simp [receive, markedFinal]

lemma trace_mvote {vote : CBudgetVote} (hf : (GovMsg.mvote vote).signed env = false) :
    Trace env s [.mvote vote] (s.receive env (.mvote vote)).1 := by
  have hbad : env.budget.checkSignature { vote with fValid := true } = false := hf
  have hmark : List.filterMap (marked env) [.mvote vote] =
      if isOpen env.budget = true ∧ env.budget.isKnown vote.vin.prevout = true then
        [vote.getHash env.H] else [] := by
    simp only [List.filterMap_cons, List.filterMap_nil, marked]
    split_ifs <;> rfl
  have hhash : CBudgetVote.getHash env.H { vote with fValid := true } = vote.getHash env.H := rfl
  have key : (s.budget.processVote env.H env.budget vote).1 = s.budget ∧
        (∀ k ∈ List.filterMap (marked env) [.mvote vote],
          s.budget.mapSeenMasternodeBudgetVotes k ≠ none) ∨
      (s.budget.processVote env.H env.budget vote).1 =
          s.budget.addSeenProposalVote env.H { vote with fValid := true } ∧
        List.filterMap (marked env) [.mvote vote] = [vote.getHash env.H] := by
    rw [hmark]
    unfold processVote
    dsimp only
    rw [hhash]
    split_ifs with h1 h2 h3 <;> simp_all [Option.isSome_iff_ne_none]
  rcases key with ⟨he, hseen⟩ | ⟨he, hm⟩
  · refine ⟨rfl, fun m => by simp [recorded, receive], ?_, ?_, fun k => ?_, fun k => ?_⟩
    · rw [receive, he]
    · rw [receive, he]
    · rw [receive, he]
      exact ⟨fun h => ⟨h, fun hk => hseen k hk h⟩, And.left⟩
    · rw [receive, he]
      simp [markedFinal]
  · refine ⟨rfl, fun m => by simp [recorded, receive], ?_, ?_, fun k => ?_, fun k => ?_⟩
    · rw [receive, he]
      rfl
    · rw [receive, he]
      rfl
    · rw [receive, he, hm, List.mem_singleton]
      exact insertNew_eq_none _ _ _ _
    · rw [receive, he]
      simp [markedFinal, addSeenProposalVote]

lemma trace_fbvote {vote : CFinalizedBudgetVote} (hf : (GovMsg.fbvote vote).signed env = false) :
    Trace env s [.fbvote vote] (s.receive env (.fbvote vote)).1 := by
  have hbad : env.budget.checkFinalizedSignature { vote with fValid := true } = false := hf
  have hmark : List.filterMap (markedFinal env) [.fbvote vote] =
      if isOpen env.budget = true ∧ env.budget.isKnown vote.vin.prevout = true then
        [vote.getHash env.H] else [] := by
    simp only [List.filterMap_cons, List.filterMap_nil, markedFinal]
    split_ifs <;> rfl
  have hhash : CFinalizedBudgetVote.getHash env.H { vote with fValid := true } =
      vote.getHash env.H := rfl
  have key : (s.budget.processFinalizedVote env.H env.budget vote).1 = s.budget ∧
        (∀ k ∈ List.filterMap (markedFinal env) [.fbvote vote],
          s.budget.mapSeenFinalizedBudgetVotes k ≠ none) ∨
      (s.budget.processFinalizedVote env.H env.budget vote).1 =
          s.budget.addSeenFinalizedBudgetVote env.H { vote with fValid := true } ∧
        List.filterMap (markedFinal env) [.fbvote vote] = [vote.getHash env.H] := by
    rw [hmark]
    unfold processFinalizedVote
    dsimp only
    rw [hhash]
    split_ifs with h1 h2 h3 <;> simp_all [Option.isSome_iff_ne_none]
  rcases key with ⟨he, hseen⟩ | ⟨he, hm⟩
  · refine ⟨rfl, fun m => by simp [recorded, receive], ?_, ?_, fun k => ?_, fun k => ?_⟩
    · rw [receive, he]
    · rw [receive, he]
    · rw [receive, he]
      simp [marked]
    · rw [receive, he]
      exact ⟨fun h => ⟨h, fun hk => hseen k hk h⟩, And.left⟩
  · refine ⟨rfl, fun m => by simp [recorded, receive], ?_, ?_, fun k => ?_, fun k => ?_⟩
    · rw [receive, he]
      rfl
    · rw [receive, he]
      rfl
    · rw [receive, he]
      simp [marked, addSeenFinalizedBudgetVote]
    · rw [receive, he, hm, List.mem_singleton]
      exact insertNew_eq_none _ _ _ _

lemma Trace.snoc {s₁ s₂ : GovState} {f : GovMsg} (h₁ : Trace env s F s₁)
    (h₂ : Trace env s₁ [f] s₂) : Trace env s (F ++ [f]) s₂ := by
  have hrec : ∀ m, s₁.recorded env m = s.recorded env m := by
    intro m
    funext g
    cases g with
    | mnw winner =>
      unfold recorded
      dsimp only
      rw [passesChecks_congr h₁.votes]
    | mvote vote => rfl
    | fbvote vote => rfl
  refine ⟨h₂.votes.trans h₁.votes, fun m => ?_, h₂.proposals.trans h₁.proposals,
    h₂.budgets.trans h₁.budgets, fun k => ?_, fun k => ?_⟩
  · rw [h₂.last, h₁.last, hrec, List.filterMap_append, List.getLast?_append, Option.or_assoc]
  · rw [h₂.seen, h₁.seen, List.filterMap_append, List.mem_append, not_or, and_assoc]
  · rw [h₂.seenFinal, h₁.seenFinal, List.filterMap_append, List.mem_append, not_or, and_assoc]

lemma trace_after (hF : ∀ f ∈ F, f.signed env = false) : Trace env s F (s.after env F) := by
  induction F using List.reverseRecOn with
  | nil => exact ⟨rfl, fun _ => rfl, rfl, rfl, by simp [after], by simp [after]⟩
  | append_singleton F f ih =>
    have hf : f.signed env = false := hF f (by simp)
    have hrest := ih fun g hg => hF g (List.mem_append_left _ hg)
    rw [after_append]
    refine hrest.snoc ?_
    cases f with
    | mnw winner => exact trace_mnw hf
    | mvote vote => exact trace_mvote hf
    | fbvote vote => exact trace_fbvote hf

/-! ### Which votes get through -/

/-- The genuine vote is taken after the forged messages just when it would have been taken
without them. -/
def Undisturbed (env : GovEnv) (s : GovState) (F : List GovMsg) (g : GovMsg) : Prop :=
  ((s.after env F).receive env g).2 = (s.receive env g).2

/-- The forged messages do not touch what the genuine vote needs: for an `mnw` that nothing else
keeps out, the last recorded height of its masternode is the height it votes for after them just
when it was before; for a budget vote that would be taken, none of them is of the same kind with
the same hash and comes from a known masternode. -/
def Untouched (env : GovEnv) (s : GovState) (F : List GovMsg) : GovMsg → Prop
  | .mnw g =>
    s.payments.passesChecks env.hash env.payment g = true →
    env.payment.hasBlockHash (g.nBlockHeight - 100) = true →
    (((F.filterMap (s.recorded env g.vinMasternode.prevout)).getLast?).or
        (s.payments.mapMasternodesLastVote g.vinMasternode.prevout) = some g.nBlockHeight ↔
      s.payments.mapMasternodesLastVote g.vinMasternode.prevout = some g.nBlockHeight)
  | .mvote g =>
    isOpen env.budget = true → env.budget.isKnown g.vin.prevout = true →
    s.budget.mapSeenMasternodeBudgetVotes (g.getHash env.H) = none →
    s.budget.proposalTakes env.H env.budget { g with fValid := true } = true →
    g.getHash env.H ∉ F.filterMap (marked env)
  | .fbvote g =>
    isOpen env.budget = true → env.budget.isKnown g.vin.prevout = true →
    s.budget.mapSeenFinalizedBudgetVotes (g.getHash env.H) = none →
    s.budget.budgetTakes env.H env.budget { g with fValid := true } = true →
    g.getHash env.H ∉ F.filterMap (markedFinal env)

lemma undisturbed_mnw (ht : Trace env s F (s.after env F)) {g : CMasternodePaymentWinner}
    (hg : (GovMsg.mnw g).signed env = true) :
    Undisturbed env s F (.mnw g) ↔ Untouched env s F (.mnw g) := by
  have hpass := passesChecks_congr ht.votes env.hash env.payment g
  have hcounts : ∀ p : CMasternodePayments, Counts env.hash env.payment p g ↔
      p.passesChecks env.hash env.payment g = true ∧
      env.payment.hasBlockHash (g.nBlockHeight - 100) = true ∧
      p.mapMasternodesLastVote g.vinMasternode.prevout ≠ some g.nBlockHeight :=
    fun p => ⟨fun h => ⟨h.passes, h.hasBlock, h.fresh⟩, fun ⟨h₁, h₂, h₃⟩ => ⟨h₁, h₃, hg, h₂⟩⟩
  unfold Undisturbed Untouched receive
  dsimp only
  rw [Bool.eq_iff_iff, processWinner_snd, processWinner_snd, hcounts, hcounts, hpass, ht.last]
  constructor
  · intro h hp hb
    rw [← not_iff_not]
    simpa [hp, hb] using h
  · intro h
    constructor
    · rintro ⟨hp, hb, hne⟩
      exact ⟨hp, hb, fun heq => hne ((h hp hb).mpr heq)⟩
    · rintro ⟨hp, hb, hne⟩
      exact ⟨hp, hb, fun heq => hne ((h hp hb).mp heq)⟩

lemma guarded_iff {isOpen unseen unmarked known signed taken : Prop} (hsigned : signed) :
    ((isOpen ∧ (unseen ∧ unmarked) ∧ known ∧ signed ∧ taken) ↔
        isOpen ∧ unseen ∧ known ∧ signed ∧ taken) ↔
      (isOpen → known → unseen → taken → unmarked) := by
  constructor
  · intro h hopen hknown hseen htaken
    exact (h.mpr ⟨hopen, hseen, hknown, hsigned, htaken⟩).2.1.2
  · intro h
    constructor
    · rintro ⟨hopen, hseen, hrest⟩
      exact ⟨hopen, hseen.1, hrest⟩
    · rintro ⟨hopen, hseen, hknown, hs, htaken⟩
      exact ⟨hopen, ⟨hseen, h hopen hknown hseen htaken⟩, hknown, hs, htaken⟩

lemma undisturbed_mvote (ht : Trace env s F (s.after env F)) {g : CBudgetVote}
    (hg : (GovMsg.mvote g).signed env = true) :
    Undisturbed env s F (.mvote g) ↔ Untouched env s F (.mvote g) := by
  have htakes : (s.after env F).budget.proposalTakes env.H env.budget { g with fValid := true } =
      s.budget.proposalTakes env.H env.budget { g with fValid := true } := by
    unfold proposalTakes
    rw [ht.proposals]
  have hsigned : env.budget.checkSignature { g with fValid := true } = true := hg
  unfold Undisturbed Untouched receive
  dsimp only
  rw [Bool.eq_iff_iff, processVote_snd, processVote_snd, ht.seen, htakes]
  exact guarded_iff hsigned

lemma undisturbed_fbvote (ht : Trace env s F (s.after env F)) {g : CFinalizedBudgetVote}
    (hg : (GovMsg.fbvote g).signed env = true) :
    Undisturbed env s F (.fbvote g) ↔ Untouched env s F (.fbvote g) := by
  have htakes : (s.after env F).budget.budgetTakes env.H env.budget { g with fValid := true } =
      s.budget.budgetTakes env.H env.budget { g with fValid := true } := by
    unfold budgetTakes findFinalizedBudget
    rw [ht.budgets]
  have hsigned : env.budget.checkFinalizedSignature { g with fValid := true } = true := hg
  unfold Undisturbed Untouched receive
  dsimp only
  rw [Bool.eq_iff_iff, processFinalizedVote_snd, processFinalizedVote_snd, ht.seenFinal, htakes]
  exact guarded_iff hsigned

/-- **Forged votes.** In every state and after any messages with bad signatures, a genuine vote is
taken just when it would have been taken before them, if and only if they do not touch what it
needs. -/
theorem forged_votes_iff (env : GovEnv) (s : GovState) {F : List GovMsg}
    (hF : ∀ f ∈ F, f.signed env = false) {g : GovMsg} (hg : g.signed env = true) :
    Undisturbed env s F g ↔ Untouched env s F g := by
  have ht := trace_after (s := s) hF
  cases g with
  | mnw g => exact undisturbed_mnw ht hg
  | mvote g => exact undisturbed_mvote ht hg
  | fbvote g => exact undisturbed_fbvote ht hg

end GovState

namespace Concrete

def knownProposal : CBudgetProposal :=
  ⟨"road", "", 144, 289, 100 * COIN, [Script.OP_1], 3, 0, ∅⟩

def govEnv : GovEnv where
  hash := winnerHash
  H := ⟨fun o => o.hash, fun _ _ _ _ _ _ => 4,
    fun i p _ t => i.prevout.hash + p + BitVec.ofInt 256 t,
    fun i p t => i.prevout.hash + p + BitVec.ofInt 256 t⟩
  payment := { paymentEnv with checkSignature := fun w => w.vchSig == [1] }
  budget :=
    { consensus := testNetParams
      fLiteMode := false
      isBlockchainSynced := true
      isSynced := true
      getTime := 1600000000
      nBestHeight := 100
      countEnabled := 20
      isKnown := fun _ => true
      checkSignature := fun v => v.vchSig == [1]
      checkFinalizedSignature := fun v => v.vchSig == [1]
      getTransaction := fun _ => none
      nLockTime := fun _ => 0
      getIXConfirmations := fun _ => 0
      confirmations := fun _ => none }

/-- A node that knows a proposal and a finalized budget. -/
def govState : GovState where
  payments := .initial
  budget :=
    { budgetState with mapProposals := fun k => if k = 4 then some knownProposal else none }

/-- Three votes of one masternode, with some signature. -/
def mnwWith (sig : UInt8) : GovMsg := .mnw ⟨⟨⟨70, 0⟩, [], 0⟩, 1005, [1], [sig], MESS_VER_HASH⟩

@[inherit_doc mnwWith]
def mvoteWith (sig : UInt8) : GovMsg :=
  .mvote ⟨true, 4, .VOTE_YES, 1600000000, ⟨⟨70, 0⟩, [], 0⟩, [sig], MESS_VER_HASH⟩

@[inherit_doc mnwWith]
def fbvoteWith (sig : UInt8) : GovMsg :=
  .fbvote ⟨true, ⟨⟨70, 0⟩, [], 0⟩, 5, 1600000000, [sig], MESS_VER_HASH⟩

end Concrete

open Concrete GovState in
/-- Forged votes of another kind and for another budget are in nobody's way. -/
theorem forged_votes_of_another_kind :
    Undisturbed govEnv govState [mvoteWith 0, fbvoteWith 0] (mnwWith 1) :=
  (forged_votes_iff govEnv govState (F := [mvoteWith 0, fbvoteWith 0]) (by decide)
    (g := mnwWith 1) (by decide)).mpr fun _ _ => by decide

open Concrete GovState in
/-- **A copy with a bad signature.** Each of the three votes would be taken, and none is after a
copy of it with a bad signature. -/
theorem copy_keeps_vote_out :
    ((govState.receive govEnv (mnwWith 1)).2 = true ∧
      ((govState.after govEnv [mnwWith 0]).receive govEnv (mnwWith 1)).2 = false) ∧
    ((govState.receive govEnv (mvoteWith 1)).2 = true ∧
      ((govState.after govEnv [mvoteWith 0]).receive govEnv (mvoteWith 1)).2 = false) ∧
    ((govState.receive govEnv (fbvoteWith 1)).2 = true ∧
      ((govState.after govEnv [fbvoteWith 0]).receive govEnv (fbvoteWith 1)).2 = false) ∧
    ¬ Undisturbed govEnv govState [mvoteWith 0] (mvoteWith 1) := by
  refine ⟨by decide, by decide, by decide, ?_⟩
  intro h
  have hdirect : (govState.receive govEnv (mvoteWith 1)).2 = true := by decide
  have hafter : ((govState.after govEnv [mvoteWith 0]).receive govEnv (mvoteWith 1)).2 = false := by
    decide
  rw [Undisturbed, hdirect, hafter] at h
  cases h

end Agenor
