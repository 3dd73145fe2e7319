import Agenor.MasternodePayments
import Agenor.Lib.Run
import Mathlib.Data.Finset.Dedup
import Mathlib.Algebra.BigOperators.Group.List.Basic

/-!
One payee vote per masternode and height.

`CanVote` only remembers the height a masternode has last voted for. A masternode that votes for a
height, then for another one and then for the first one again is counted twice there, if its two
votes differ in the payee.
-/

namespace Agenor

open Lib

namespace CMasternodePayments

variable {hash : WinnerHash} {env : PaymentEnv} {s : CMasternodePayments}
  {winner : CMasternodePaymentWinner} {h : ℤ}

/-- The votes for a height that have been counted. -/
def votesFor (s : CMasternodePayments) (h : ℤ) : List CMasternodePaymentWinner :=
  (s.mapMasternodePayeeVotes.entries.map (·.2)).filter (·.nBlockHeight == h)

/-- The masternodes they come from, one entry for each vote. -/
def votersFor (s : CMasternodePayments) (h : ℤ) : List COutPoint :=
  (s.votesFor h).map (·.vinMasternode.prevout)

/-- The votes of all payees of a height. -/
def totalVotes (s : CMasternodePayments) (h : ℤ) : ℤ :=
  ((s.payeesAt h).vecPayments.map (·.nVotes)).sum

/-- No masternode is counted twice for a height. -/
structure OneVoteEach (s : CMasternodePayments) : Prop where
  /-- What the payees of a height have are the votes that were taken for it. -/
  counted : ∀ h, s.totalVotes h = (s.votersFor h).length
  once : ∀ h m, (s.votersFor h).count m ≤ 1
  total : ∀ h, s.totalVotes h ≤ (s.votersFor h).toFinset.card

/-! ### What a step changes -/

/-- A node that gets one message. -/
def receive (hash : WinnerHash) (s : CMasternodePayments)
    (a : PaymentEnv × CMasternodePaymentWinner) : CMasternodePayments :=
  (s.processWinner hash a.1 a.2).1

@[simp] lemma votersFor_recordVote (m : COutPoint) (n : ℤ) :
    (s.recordVote m n).votersFor h = s.votersFor h := rfl

@[simp] lemma totalVotes_recordVote (m : COutPoint) (n : ℤ) :
    (s.recordVote m n).totalVotes h = s.totalVotes h := rfl

lemma votersFor_addVote {k : Uint256} (hk : k ∉ s.mapMasternodePayeeVotes) :
    (s.addVote k winner).votersFor h =
      if winner.nBlockHeight = h then winner.vinMasternode.prevout :: s.votersFor h
      else s.votersFor h := by
  have he : (s.addVote k winner).mapMasternodePayeeVotes.entries =
      ⟨k, winner⟩ :: s.mapMasternodePayeeVotes.entries := AList.entries_insert_of_notMem hk
  unfold votersFor votesFor
  rw [he, List.map_cons, List.filter_cons]
  simp only [beq_iff_eq]
  split_ifs
  · rfl
  · rfl

lemma sum_addPayeeTo (payee : CScript) (n : ℤ) (l : List CMasternodePayee) :
    ((addPayeeTo payee n l).map (·.nVotes)).sum = (l.map (·.nVotes)).sum + n := by
  induction l with
  | nil => simp [addPayeeTo]
  | cons p l ih =>
    unfold addPayeeTo
    split_ifs
    · simp only [List.map_cons, List.sum_cons]
      omega
    · simp only [List.map_cons, List.sum_cons, ih]
      omega

lemma totalVotes_addVote {k : Uint256} :
    (s.addVote k winner).totalVotes h =
      if winner.nBlockHeight = h then s.totalVotes h + 1 else s.totalVotes h := by
  split_ifs with hh
  · subst hh
    have hp : (s.addVote k winner).payeesAt winner.nBlockHeight =
        (s.payeesAt winner.nBlockHeight).addPayee winner.payee 1 := by
      simp [payeesAt, addVote]
    rw [totalVotes, hp]
    exact sum_addPayeeTo _ _ _
  · have hp : (s.addVote k winner).payeesAt h = s.payeesAt h := by
      simp [payeesAt, addVote, Function.update_of_ne (Ne.symm hh)]
    rw [totalVotes, hp, totalVotes]

lemma votersFor_receive (hash : WinnerHash) (s : CMasternodePayments)
    (a : PaymentEnv × CMasternodePaymentWinner) :
    (¬ Counts hash a.1 s a.2 ∧ (∀ h, (s.receive hash a).votersFor h = s.votersFor h) ∧
      ∀ h, (s.receive hash a).totalVotes h = s.totalVotes h) ∨
    (Counts hash a.1 s a.2 ∧
      (∀ h, (s.receive hash a).votersFor h =
        if a.2.nBlockHeight = h then a.2.vinMasternode.prevout :: s.votersFor h
        else s.votersFor h) ∧
      ∀ h, (s.receive hash a).totalVotes h =
        if a.2.nBlockHeight = h then s.totalVotes h + 1 else s.totalVotes h) := by
  unfold receive
  by_cases hc : Counts hash a.1 s a.2
  · right
    have hnew : a.2.getHash hash ∉
        (s.recordVote a.2.vinMasternode.prevout a.2.nBlockHeight).mapMasternodePayeeVotes :=
      not_mem_of_passesChecks hc.passes
    rw [processWinner_of_counts hc]
    refine ⟨hc, fun h => ?_, fun h => ?_⟩
    · rw [votersFor_addVote hnew, votersFor_recordVote]
    · rw [totalVotes_addVote, totalVotes_recordVote]
  · left
    rcases processWinner_of_not_counts hc with ⟨-, he⟩ | ⟨-, -, he⟩
    · exact ⟨hc, fun h => by rw [he], fun h => by rw [he]⟩
    · exact ⟨hc, fun h => by rw [he]; rfl, fun h => by rw [he]; rfl⟩

lemma totalVotes_run (hash : WinnerHash) (l : List (PaymentEnv × CMasternodePaymentWinner))
    (h : ℤ) :
    (l.foldl (receive hash) initial).totalVotes h =
      ((l.foldl (receive hash) initial).votersFor h).length := by
  induction l using List.reverseRecOn with
  | nil => rfl
  | append_singleton l a ih =>
    rw [List.foldl_append, List.foldl_cons, List.foldl_nil]
    rcases votersFor_receive hash (l.foldl (receive hash) initial) a with
      ⟨-, hv, ht⟩ | ⟨-, hv, ht⟩
    · rw [hv, ht, ih]
    · rw [hv, ht, ih]
      split_ifs
      · push_cast [List.length_cons]
        rfl
      · rfl

/-! ### Runs -/

/-- The message is a vote with a valid signature that passes all checks, of a masternode that has
been counted for this height and has voted for another one since. -/
structure VotesAgain (hash : WinnerHash) (s : CMasternodePayments)
    (a : PaymentEnv × CMasternodePaymentWinner) : Prop where
  counts : Counts hash a.1 s a.2
  voted : a.2.vinMasternode.prevout ∈ s.votersFor a.2.nBlockHeight

lemma nodup_receive_iff (hash : WinnerHash) (s : CMasternodePayments)
    (a : PaymentEnv × CMasternodePaymentWinner) :
    (∀ h, ((s.receive hash a).votersFor h).Nodup) ↔
      (∀ h, (s.votersFor h).Nodup) ∧ ¬ VotesAgain hash s a := by
  rcases votersFor_receive hash s a with ⟨hc, hv, -⟩ | ⟨hc, hv, -⟩
  · simp only [hv]
    exact ⟨fun h => ⟨h, fun hv => hc hv.counts⟩, And.left⟩
  · simp only [hv]
    constructor
    · intro h
      have hself := h a.2.nBlockHeight
      rw [if_pos rfl, List.nodup_cons] at hself
      refine ⟨fun k => ?_, fun hv => hself.1 hv.voted⟩
      rcases eq_or_ne a.2.nBlockHeight k with rfl | hk
      · exact hself.2
      · have := h k
        rwa [if_neg hk] at this
    · rintro ⟨h, hnot⟩ k
      split_ifs with hk
      · subst hk
        exact List.nodup_cons.mpr ⟨fun hmem => hnot ⟨hc, hmem⟩, h _⟩
      · exact h k

lemma oneVoteEach_iff_nodup (hash : WinnerHash)
    (l : List (PaymentEnv × CMasternodePaymentWinner)) :
    OneVoteEach (l.foldl (receive hash) initial) ↔
      ∀ h, ((l.foldl (receive hash) initial).votersFor h).Nodup := by
  constructor
  · intro hone h
    exact List.nodup_iff_count_le_one.mpr (hone.once h)
  · intro hnodup
    refine ⟨totalVotes_run hash l, fun h => List.nodup_iff_count_le_one.mp (hnodup h), fun h => ?_⟩
    rw [totalVotes_run, List.toFinset_card_of_nodup (hnodup h)]

/-- **One vote per masternode and height.** After any sequence of messages every masternode is
counted at most once for every height, just when none of them was a vote of a masternode that came
back to a height after it had voted for another. -/
theorem oneVoteEach_iff (hash : WinnerHash) (l : List (PaymentEnv × CMasternodePaymentWinner)) :
    OneVoteEach (l.foldl (receive hash) initial) ↔
      Run (receive hash) (fun s a => ¬ VotesAgain hash s a) initial l
        (l.foldl (receive hash) initial) := by
  rw [oneVoteEach_iff_nodup]
  induction l using List.reverseRecOn with
  | nil => exact iff_of_true (fun _ => List.nodup_nil) .nil
  | append_singleton l a ih =>
    rw [List.foldl_append, List.foldl_cons, List.foldl_nil, nodup_receive_iff, ih]
    constructor
    · rintro ⟨hrun, hok⟩
      exact hrun.snoc hok
    · intro hrun
      obtain ⟨s, hs, hok, -⟩ := hrun.of_snoc
      obtain rfl := hs.eq_foldl
      exact ⟨hs, hok⟩

end CMasternodePayments

/-! ### Coming back to a height -/

namespace Concrete

/-- A node at height 1000 that knows every masternode and every key. -/
def paymentEnv : PaymentEnv where
  isBlockchainSynced := true
  fLiteMode := false
  nVersion := 70922
  activeProtocol := 70922
  tipHeight := some 1000
  countEnabled := 20
  find _ := some 70922
  getMasternodeRank _ _ := 1
  hasBlockHash _ := true
  checkSignature _ := true

/-- Hashes without a collision among the votes of the example. -/
def winnerHash : WinnerHash := fun payee h m =>
  m.hash + BitVec.ofInt 256 (h * 1000 + (payee.map (·.toNat)).sum)

def winnerVote (h : ℤ) (payee : CScript) : PaymentEnv × CMasternodePaymentWinner :=
  (paymentEnv, ⟨⟨⟨7, 0⟩, [], 0⟩, h, payee, [], MESS_VER_HASH⟩)

/-- It votes for a height, for the next one and for the first one again. -/
def comingBack : List (PaymentEnv × CMasternodePaymentWinner) :=
  [winnerVote 1005 [1], winnerVote 1006 [1], winnerVote 1005 [2]]

end Concrete

open Concrete CMasternodePayments in
/-- One masternode is counted twice for a height. -/
theorem counted_twice_for_a_height :
    (comingBack.foldl (receive winnerHash) initial).totalVotes 1005 = 2 ∧
    ((comingBack.foldl (receive winnerHash) initial).votersFor 1005).toFinset.card = 1 ∧
    ¬ OneVoteEach (comingBack.foldl (receive winnerHash) initial) := by
  have htotal : (comingBack.foldl (receive winnerHash) initial).totalVotes 1005 = 2 := by decide
  have hcard :
      ((comingBack.foldl (receive winnerHash) initial).votersFor 1005).toFinset.card = 1 := by
    decide
  refine ⟨htotal, hcard, fun h => ?_⟩
  have := h.total 1005
  rw [htotal, hcard] at this
  omega

end Agenor
