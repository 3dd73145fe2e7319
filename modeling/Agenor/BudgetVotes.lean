import Agenor.Budget
import Mathlib.Data.List.Sort

/-!
The tally of a proposal and the order in which proposals and votes arrive.

A vote that arrives before its proposal waits in a map with one place for each proposal. When the
proposal comes, the loop over the waiting votes erases the entry it stands on and moves on from
it, which is undefined. The tallies are the same in any two orders in which every vote comes after
its proposal, and only in these is there a result at all.
-/

namespace Agenor

inductive BudgetMsg
  | proposal (p : CBudgetProposal)
  | vote (v : CBudgetVote)

/-- A message, with what the node reads when it gets it. -/
abbrev Arrival := BudgetEnv × BudgetMsg

def proposalsOf (l : List Arrival) : List CBudgetProposal :=
  l.filterMap fun a => match a.2 with
    | .proposal p => some p
    | .vote _ => none

def votesOf (l : List Arrival) : List CBudgetVote :=
  l.filterMap fun a => match a.2 with
    | .proposal _ => none
    | .vote v => some v

@[simp] lemma proposalsOf_append (l l' : List Arrival) :
    proposalsOf (l ++ l') = proposalsOf l ++ proposalsOf l' := List.filterMap_append

@[simp] lemma votesOf_append (l l' : List Arrival) :
    votesOf (l ++ l') = votesOf l ++ votesOf l' := List.filterMap_append

@[simp] lemma proposalsOf_proposal (env : BudgetEnv) (p : CBudgetProposal) (l : List Arrival) :
    proposalsOf ((env, .proposal p) :: l) = p :: proposalsOf l := rfl

@[simp] lemma proposalsOf_vote (env : BudgetEnv) (v : CBudgetVote) (l : List Arrival) :
    proposalsOf ((env, .vote v) :: l) = proposalsOf l := rfl

@[simp] lemma votesOf_proposal (env : BudgetEnv) (p : CBudgetProposal) (l : List Arrival) :
    votesOf ((env, .proposal p) :: l) = votesOf l := rfl

@[simp] lemma votesOf_vote (env : BudgetEnv) (v : CBudgetVote) (l : List Arrival) :
    votesOf ((env, .vote v) :: l) = v :: votesOf l := rfl

@[simp] lemma proposalsOf_nil : proposalsOf [] = [] := rfl
@[simp] lemma votesOf_nil : votesOf [] = [] := rfl

namespace CBudgetManager

/-- One message; nothing when the behaviour is undefined. -/
def deliver (H : BudgetHashes) (s : CBudgetManager) (a : Arrival) : Option CBudgetManager :=
  match a.2 with
  | .proposal p => s.processProposal H a.1 p
  | .vote v => some (s.processVote H a.1 v).1

/-- All messages, one after the other. -/
def run (H : BudgetHashes) (s : CBudgetManager) (l : List Arrival) : Option CBudgetManager :=
  l.foldlM (deliver H) s

/-- The vote that is kept for a proposal under a masternode. -/
def tally (s : CBudgetManager) (k key : Uint256) : Option CBudgetVote :=
  (s.mapProposals k).bind fun p => p.mapVotes.lookup key

/-- The proposal as it is stored: without votes, and with the time of the block of its fee. -/
def stored (H : BudgetHashes) (env : BudgetEnv) (p : CBudgetProposal) : CBudgetProposal :=
  { p with
    mapVotes := ∅
    nTime := (isBudgetCollateralValid env p.nFeeTXHash (p.getHash H) p.nTime false).2.1 }

/-- A valid message: the node is synchronised and takes budget messages, a proposal has paid its
fee and passes its checks, and a vote comes from a known masternode with a good signature. -/
def ValidArrival (H : BudgetHashes) (a : Arrival) : Prop :=
  isOpen a.1 = true ∧ a.1.isSynced = true ∧
  match a.2 with
  | .proposal p =>
    (isBudgetCollateralValid a.1 p.nFeeTXHash (p.getHash H) p.nTime false).1 = true ∧
    (stored H a.1 p).updateValid a.1 H = true
  | .vote v => a.1.isKnown v.vin.prevout = true ∧
    a.1.checkSignature { v with fValid := true } = true

/-- Valid messages that the node has not seen: proposals and votes with different hashes. The votes
of a masternode on a proposal come in the order of their times and far enough apart, and none of
them is ahead of the clock. At the start no vote is waiting. -/
structure Arrivals (H : BudgetHashes) (s : CBudgetManager) (l : List Arrival) : Prop where
  valid : ∀ a ∈ l, ValidArrival H a
  proposals_nodup : ((proposalsOf l).map (·.getHash H)).Nodup
  proposals_new : ∀ p ∈ proposalsOf l, s.mapSeenMasternodeBudgetProposals (p.getHash H) = none ∧
    s.mapProposals (p.getHash H) = none
  votes_nodup : ((votesOf l).map (·.getHash H)).Nodup
  votes_new : ∀ v ∈ votesOf l, s.mapSeenMasternodeBudgetVotes (v.getHash H) = none
  outPoint_inj : ∀ v ∈ votesOf l, ∀ w ∈ votesOf l,
    H.outPoint v.vin.prevout = H.outPoint w.vin.prevout → v.vin.prevout = w.vin.prevout
  inTime : (votesOf l).Pairwise fun v w => v.vin.prevout = w.vin.prevout →
    v.nProposalHash = w.nProposalHash → v.nTime + BUDGET_VOTE_UPDATE_MIN ≤ w.nTime
  clock : ∀ a ∈ l, ∀ v ∈ votesOf l, v.nTime ≤ a.1.getTime + 60 * 60
  waiting : s.mapOrphanMasternodeBudgetVotes = ∅
  waitingFinal : s.mapOrphanFinalizedBudgetVotes = ∅

/-- All votes are on proposals that are delivered too. -/
structure Delivery (H : BudgetHashes) (s : CBudgetManager) (l : List Arrival) : Prop
    extends Arrivals H s l where
  votes_on : ∀ v ∈ votesOf l, ∃ p ∈ proposalsOf l, p.getHash H = v.nProposalHash

/-- Every vote comes after its proposal. -/
def KnownFirst (H : BudgetHashes) (l : List Arrival) : Prop :=
  ∀ l₁ env v l₂, l = l₁ ++ (env, .vote v) :: l₂ →
    ∃ p ∈ proposalsOf l₁, p.getHash H = v.nProposalHash

variable {H : BudgetHashes} {env : BudgetEnv} {s s₀ : CBudgetManager} {l : List Arrival}

lemma run_append (l : List Arrival) (a : Arrival) :
    run H s (l ++ [a]) = (run H s l).bind fun s' => deliver H s' a := by
  simp [run, List.foldlM_append]

/-! ### A proposal arrives -/

/-- The state with a new proposal, before the waiting votes are looked at. -/
def withProposal (H : BudgetHashes) (env : BudgetEnv) (s : CBudgetManager) (p : CBudgetProposal) :
    CBudgetManager :=
  { s.addSeenProposal H (stored H env p) with
    mapProposals := Function.update s.mapProposals (p.getHash H) (some (stored H env p)) }

lemma processProposal_eq {p : CBudgetProposal} (hv : ValidArrival H (env, .proposal p))
    (hseen : s.mapSeenMasternodeBudgetProposals (p.getHash H) = none)
    (hnew : s.mapProposals (p.getHash H) = none) :
    s.processProposal H env p = (s.withProposal H env p).checkOrphanVotes H env := by
  obtain ⟨hopen, -, hfee, hupd⟩ := hv
  have hhash : CBudgetProposal.getHash { p with mapVotes := ∅ } H = p.getHash H := rfl
  have hadd : (s.addSeenProposal H (stored H env p)).addProposal H env (stored H env p) =
      s.withProposal H env p := by
    have hnone : (s.addSeenProposal H (stored H env p)).mapProposals ((stored H env p).getHash H) =
      none := hnew
    simp only [addProposal, hupd, hnone, Bool.not_true, Bool.false_eq_true, if_false,
      Option.isSome_none]
    rfl
  have hfee' : (isBudgetCollateralValid env p.nFeeTXHash (p.getHash H) p.nTime false).1 = true :=
    hfee
  unfold processProposal
  simp only [hhash, hopen, hseen, hfee', Bool.not_true, Bool.false_eq_true, if_false,
    Option.isSome_none]
  change (if (!(stored H env p).updateValid env H) = true then _ else _) = _
  rw [hupd, if_neg (by decide)]
  exact congrArg (checkOrphanVotes H env) hadd

lemma checkOrphans_eq_some {V : Type} {update : CBudgetManager → V → CBudgetManager × Bool}
    (hupd : ∀ v, (update s v).2 = false → (update s v).1 = s) {votes : List V}
    {s' : CBudgetManager} :
    checkOrphans update s votes = some s' ↔ s' = s ∧ ∀ v ∈ votes, (update s v).2 = false := by
  induction votes with
  | nil =>
    rw [checkOrphans, Option.some.injEq]
    exact ⟨fun h => ⟨h.symm, by simp⟩, fun h => h.1.symm⟩
  | cons v votes ih =>
    unfold checkOrphans
    cases ht : (update s v).2 with
    | true => simp [ht]
    | false =>
      simp only [ht, hupd v ht, Bool.false_eq_true, if_false, ih, List.forall_mem_cons, true_and]

lemma updateProposal_waiting (v : CBudgetVote) (h : (s.updateProposal H env v false).2 = false) :
    (s.updateProposal H env v false).1 = s := by
  revert h
  unfold updateProposal
  cases s.mapProposals v.nProposalHash with
  | none => simp
  | some p =>
    cases ha : addOrUpdateVote CBudgetVote.nTime env.getTime p.mapVotes (H.outPoint v.vin.prevout) v
    · simp [ha]
    · simp [ha]

lemma updateFinalizedBudget_waiting (v : CFinalizedBudgetVote)
    (h : (s.updateFinalizedBudget H env v false).2 = false) :
    (s.updateFinalizedBudget H env v false).1 = s := by
  revert h
  unfold updateFinalizedBudget
  cases s.findFinalizedBudget v.nBudgetHash with
  | none => simp
  | some b =>
    cases ha : addOrUpdateVote CFinalizedBudgetVote.nTime env.getTime b.mapVotes
      (H.outPoint v.vin.prevout) v
    · simp [ha]
    · simp [ha]

lemma checkOrphanVotes_eq_some {s' : CBudgetManager} :
    s.checkOrphanVotes H env = some s' ↔ s' = s ∧
      (∀ e ∈ s.mapOrphanMasternodeBudgetVotes.entries, s.proposalTakes H env e.2 = false) ∧
      ∀ e ∈ s.mapOrphanFinalizedBudgetVotes.entries, s.budgetTakes H env e.2 = false := by
  unfold checkOrphanVotes
  simp only [bind, Option.bind_eq_some_iff]
  constructor
  · rintro ⟨s₁, h₁, h₂⟩
    obtain ⟨rfl, hp⟩ := (checkOrphans_eq_some fun v => updateProposal_waiting v).mp h₁
    obtain ⟨rfl, hb⟩ := (checkOrphans_eq_some fun v => updateFinalizedBudget_waiting v).mp h₂
    refine ⟨rfl, fun e he => ?_, fun e he => ?_⟩
    · rw [← updateProposal_snd e.2 false]
      exact hp e.2 (List.mem_map_of_mem he)
    · rw [← updateFinalizedBudget_snd e.2 false]
      exact hb e.2 (List.mem_map_of_mem he)
  · rintro ⟨rfl, hp, hb⟩
    refine ⟨s', (checkOrphans_eq_some fun v => updateProposal_waiting v).mpr ⟨rfl, fun v hv => ?_⟩,
      (checkOrphans_eq_some fun v => updateFinalizedBudget_waiting v).mpr ⟨rfl, fun v hv => ?_⟩⟩
    · obtain ⟨e, he, rfl⟩ := List.mem_map.mp hv
      rw [updateProposal_snd]
      exact hp e he
    · obtain ⟨e, he, rfl⟩ := List.mem_map.mp hv
      rw [updateFinalizedBudget_snd]
      exact hb e he

/-! ### A vote arrives -/

def counted (v : CBudgetVote) : CBudgetVote := { v with fValid := true }

lemma processVote_fst {v : CBudgetVote} (hv : ValidArrival H (env, .vote v))
    (hseen : s.mapSeenMasternodeBudgetVotes (v.getHash H) = none) :
    (s.processVote H env v).1 =
      ((s.addSeenProposalVote H (counted v)).updateProposal H env (counted v) true).1 := by
  obtain ⟨hopen, -, hknown, hsigned⟩ := hv
  have hhash : CBudgetVote.getHash H { v with fValid := true } = v.getHash H := rfl
  have hknown' : env.isKnown v.vin.prevout = true := hknown
  unfold processVote
  simp only [hhash, hopen, hseen, hknown', Bool.not_true, Bool.false_eq_true, if_false,
    Option.isSome_none]
  rw [if_neg]
  · rfl
  · simpa using hsigned

/-- The state in which a vote waits for its proposal. -/
def withWaiting (s : CBudgetManager) (v : CBudgetVote) : CBudgetManager :=
  { s with mapOrphanMasternodeBudgetVotes :=
      s.mapOrphanMasternodeBudgetVotes.insert v.nProposalHash v }

/-- The state in which a proposal has kept a vote. -/
def withVote (H : BudgetHashes) (s : CBudgetManager) (p : CBudgetProposal) (v : CBudgetVote) :
    CBudgetManager :=
  let p := { p with mapVotes := p.mapVotes.insert (H.outPoint v.vin.prevout) v }
  { s with mapProposals := Function.update s.mapProposals v.nProposalHash (some p) }

lemma updateProposal_unknown {v : CBudgetVote} (hsync : env.isSynced = true)
    (hk : s.mapProposals v.nProposalHash = none) :
    (s.updateProposal H env v true).1 = s.withWaiting v := by
  simp [updateProposal, hk, hsync, withWaiting]

lemma updateProposal_known {v : CBudgetVote} {p : CBudgetProposal} (fromPeer : Bool)
    (hk : s.mapProposals v.nProposalHash = some p)
    (hold : ∀ w, p.mapVotes.lookup (H.outPoint v.vin.prevout) = some w →
      w.nTime + BUDGET_VOTE_UPDATE_MIN ≤ v.nTime)
    (hclock : v.nTime ≤ env.getTime + 60 * 60) :
    s.updateProposal H env v fromPeer = (s.withVote H p v, true) := by
  have hadd : addOrUpdateVote CBudgetVote.nTime env.getTime p.mapVotes (H.outPoint v.vin.prevout) v
      = some (p.mapVotes.insert (H.outPoint v.vin.prevout) v) := by
    have hsoon : ((p.mapVotes.lookup (H.outPoint v.vin.prevout)).any fun old =>
        decide (v.nTime < old.nTime) ||
          decide (v.nTime - old.nTime < BUDGET_VOTE_UPDATE_MIN)) = false := by
      cases hl : p.mapVotes.lookup (H.outPoint v.vin.prevout) with
      | none => rfl
      | some w =>
        have := hold w hl
        have hmin : 0 ≤ BUDGET_VOTE_UPDATE_MIN := by decide
        simp only [Option.any_some, Bool.or_eq_false_iff, decide_eq_false_iff_not]
        omega
    unfold addOrUpdateVote
    rw [hsoon]
    simp only [Bool.false_eq_true, if_false]
    rw [if_neg (by omega)]
  simp [updateProposal, hk, hadd, withVote]

/-! ### Runs in which every vote finds its proposal -/

/-- The votes on a proposal under one masternode. -/
def votesUnder (H : BudgetHashes) (l : List Arrival) (k key : Uint256) : List CBudgetVote :=
  (votesOf l).filter fun v => v.nProposalHash == k && H.outPoint v.vin.prevout == key

lemma mem_votesUnder {k key : Uint256} {v : CBudgetVote} :
    v ∈ votesUnder H l k key ↔
      v ∈ votesOf l ∧ v.nProposalHash = k ∧ H.outPoint v.vin.prevout = key := by
  simp [votesUnder]

lemma Arrivals.init {a : Arrival} (h : Arrivals H s₀ (l ++ [a])) : Arrivals H s₀ l where
  valid b hb := h.valid b (List.mem_append_left _ hb)
  proposals_nodup := by
    have := h.proposals_nodup
    rw [proposalsOf_append, List.map_append] at this
    exact (List.nodup_append.mp this).1
  proposals_new p hp :=
    h.proposals_new p (by rw [proposalsOf_append]; exact List.mem_append_left _ hp)
  votes_nodup := by
    have := h.votes_nodup
    rw [votesOf_append, List.map_append] at this
    exact (List.nodup_append.mp this).1
  votes_new v hv := h.votes_new v (by rw [votesOf_append]; exact List.mem_append_left _ hv)
  outPoint_inj v hv w hw :=
    h.outPoint_inj v (by rw [votesOf_append]; exact List.mem_append_left _ hv)
    w (by rw [votesOf_append]; exact List.mem_append_left _ hw)
  inTime := by
    have := h.inTime
    rw [votesOf_append] at this
    exact (List.pairwise_append.mp this).1
  clock b hb v hv := h.clock b (List.mem_append_left _ hb) v
    (by rw [votesOf_append]; exact List.mem_append_left _ hv)
  waiting := h.waiting
  waitingFinal := h.waitingFinal

lemma KnownFirst.init {a : Arrival} (h : KnownFirst H (l ++ [a])) : KnownFirst H l := by
  intro l₁ env v l₂ hl
  exact h l₁ env v (l₂ ++ [a]) (by rw [hl]; simp)

lemma KnownFirst.votes_on (h : KnownFirst H l) {v : CBudgetVote} (hv : v ∈ votesOf l) :
    ∃ p ∈ proposalsOf l, p.getHash H = v.nProposalHash := by
  induction l using List.reverseRecOn with
  | nil => cases hv
  | append_singleton l a ih =>
    rw [votesOf_append, List.mem_append] at hv
    rw [proposalsOf_append]
    rcases hv with hv | hv
    · obtain ⟨p, hp, he⟩ := ih h.init hv
      exact ⟨p, List.mem_append_left _ hp, he⟩
    · obtain ⟨env, msg⟩ := a
      cases msg with
      | proposal p => cases hv
      | vote w =>
        obtain rfl : v = w := by simpa using hv
        obtain ⟨p, hp, he⟩ := h l env v [] rfl
        exact ⟨p, List.mem_append_left _ hp, he⟩

/-- What holds after the messages `l`, with the state `s₀` at the start. -/
structure Tallied (H : BudgetHashes) (s₀ : CBudgetManager) (l : List Arrival) (s : CBudgetManager) :
    Prop where
  waiting : s.mapOrphanMasternodeBudgetVotes = ∅
  waitingFinal : s.mapOrphanFinalizedBudgetVotes = ∅
  known : ∀ p ∈ proposalsOf l, (s.mapProposals (p.getHash H)).isSome = true
  other : ∀ k, (∀ p ∈ proposalsOf l, p.getHash H ≠ k) → s.mapProposals k = s₀.mapProposals k ∧
    s.mapSeenMasternodeBudgetProposals k = s₀.mapSeenMasternodeBudgetProposals k
  unseen : ∀ k, (∀ v ∈ votesOf l, v.getHash H ≠ k) →
    s.mapSeenMasternodeBudgetVotes k = s₀.mapSeenMasternodeBudgetVotes k
  last : ∀ p ∈ proposalsOf l, ∀ key,
    s.tally (p.getHash H) key = ((votesUnder H l (p.getHash H) key).getLast?).map counted

lemma insertNew_of_ne {V : Type} {m : Uint256 → Option V} {k i : Uint256} (v : V) (h : i ≠ k) :
    insertNew m k v i = m i := Function.update_of_ne h _ _

lemma Arrivals.proposal_ne {p : CBudgetProposal} (h : Arrivals H s₀ (l ++ [(env, .proposal p)])) :
    ∀ q ∈ proposalsOf l, q.getHash H ≠ p.getHash H := by
  have := h.proposals_nodup
  simp only [proposalsOf_append, proposalsOf_proposal, proposalsOf_nil, List.map_append,
    List.map_cons, List.map_nil] at this
  intro q hq
  exact (List.nodup_append.mp this).2.2 _ (List.mem_map_of_mem hq) _ (by simp)

lemma Arrivals.vote_ne {v : CBudgetVote} (h : Arrivals H s₀ (l ++ [(env, .vote v)])) :
    ∀ w ∈ votesOf l, w.getHash H ≠ v.getHash H := by
  have := h.votes_nodup
  simp only [votesOf_append, votesOf_vote, votesOf_nil, List.map_append, List.map_cons,
    List.map_nil] at this
  intro w hw
  exact (List.nodup_append.mp this).2.2 _ (List.mem_map_of_mem hw) _ (by simp)

lemma Tallied.proposal {p : CBudgetProposal} (ht : Tallied H s₀ l s)
    (h : Arrivals H s₀ (l ++ [(env, .proposal p)])) (hfirst : KnownFirst H l) :
    ∃ s', deliver H s (env, .proposal p) = some s' ∧
      Tallied H s₀ (l ++ [(env, .proposal p)]) s' := by
  have hne := h.proposal_ne
  have hnew := h.proposals_new p (by simp)
  have hold := ht.other (p.getHash H) hne
  have hvotes : ∀ key, votesUnder H l (p.getHash H) key = [] := by
    intro key
    rw [votesUnder, List.filter_eq_nil_iff]
    intro v hv
    obtain ⟨q, hq, he⟩ := hfirst.votes_on hv
    have := hne q hq
    rw [he] at this
    simp [this]
  refine ⟨s.withProposal H env p, ?_, ?_⟩
  · have hproc := processProposal_eq (s := s) (h.valid (env, .proposal p) (by simp))
      (hold.2.trans hnew.1) (hold.1.trans hnew.2)
    refine hproc.trans (checkOrphanVotes_eq_some.mpr ⟨rfl, ?_, ?_⟩)
    · have hw : (s.withProposal H env p).mapOrphanMasternodeBudgetVotes = ∅ := ht.waiting
      rw [hw]
      simp
    · have hw : (s.withProposal H env p).mapOrphanFinalizedBudgetVotes = ∅ := ht.waitingFinal
      rw [hw]
      simp
  · have hvotesOf : votesOf (l ++ [(env, .proposal p)]) = votesOf l := by simp
    have hself : (s.withProposal H env p).mapProposals (p.getHash H) = some (stored H env p) :=
      Function.update_self ..
    have hother : ∀ k, k ≠ p.getHash H →
        (s.withProposal H env p).mapProposals k = s.mapProposals k :=
      fun k hk => Function.update_of_ne hk _ _
    refine ⟨ht.waiting, ht.waitingFinal, ?_, ?_, ?_, ?_⟩
    · intro q hq
      rcases eq_or_ne (q.getHash H) (p.getHash H) with he | he
      · rw [he, hself]
        rfl
      · rw [hother _ he]
        refine ht.known q ?_
        simp only [proposalsOf_append, proposalsOf_proposal, proposalsOf_nil, List.mem_append,
          List.mem_singleton] at hq
        exact hq.resolve_right fun hqp => he (congrArg (CBudgetProposal.getHash · H) hqp)
    · intro k hk
      have hkp : k ≠ p.getHash H := (hk p (by simp)).symm
      obtain ⟨hm, hs⟩ := ht.other k fun q hq => hk q (by simp [hq])
      exact ⟨(hother k hkp).trans hm, (insertNew_of_ne _ hkp).trans hs⟩
    · intro k hk
      rw [hvotesOf] at hk
      exact ht.unseen k hk
    · intro q hq key
      have hunder : votesUnder H (l ++ [(env, .proposal p)]) (q.getHash H) key =
          votesUnder H l (q.getHash H) key := by
        rw [votesUnder, hvotesOf, votesUnder]
      rw [hunder]
      rcases eq_or_ne (q.getHash H) (p.getHash H) with he | he
      · rw [he, hvotes key, tally, hself]
        rfl
      · rw [tally, hother _ he]
        refine ht.last q ?_ key
        simp only [proposalsOf_append, proposalsOf_proposal, proposalsOf_nil, List.mem_append,
          List.mem_singleton] at hq
        exact hq.resolve_right fun hqp => he (congrArg (CBudgetProposal.getHash · H) hqp)

lemma Tallied.vote {v : CBudgetVote} (ht : Tallied H s₀ l s)
    (h : Arrivals H s₀ (l ++ [(env, .vote v)])) (hfirst : KnownFirst H (l ++ [(env, .vote v)])) :
    ∃ s', deliver H s (env, .vote v) = some s' ∧ Tallied H s₀ (l ++ [(env, .vote v)]) s' := by
  obtain ⟨q, hq, hqv⟩ := hfirst l env v [] rfl
  have hseen : s.mapSeenMasternodeBudgetVotes (v.getHash H) = none :=
    (ht.unseen _ h.vote_ne).trans (h.votes_new v (by simp))
  obtain ⟨p, hp⟩ := Option.isSome_iff_exists.mp (ht.known q hq)
  rw [hqv] at hp
  have htally : ∀ key, p.mapVotes.lookup key =
      ((votesUnder H l v.nProposalHash key).getLast?).map counted := by
    intro key
    have := ht.last q hq key
    rwa [hqv, tally, hp] at this
  -- the vote that is kept is one of the same masternode, an hour or more before
  have hold : ∀ w, p.mapVotes.lookup (H.outPoint v.vin.prevout) = some w →
      w.nTime + BUDGET_VOTE_UPDATE_MIN ≤ v.nTime := by
    intro w hw
    rw [htally, Option.map_eq_some_iff] at hw
    obtain ⟨u, hu, rfl⟩ := hw
    obtain ⟨hmem, hprop, hkey⟩ := mem_votesUnder.mp (List.mem_of_getLast? hu)
    have hin : u.vin.prevout = v.vin.prevout :=
      h.outPoint_inj u (by simp [hmem]) v (by simp) hkey
    have htime := h.inTime
    rw [votesOf_append, List.pairwise_append] at htime
    exact htime.2.2 u hmem v (by simp) hin hprop
  have hclock : (counted v).nTime ≤ env.getTime + 60 * 60 :=
    h.clock (env, .vote v) (by simp) v (by simp)
  have hupd : (s.addSeenProposalVote H (counted v)).updateProposal H env (counted v) true =
      ((s.addSeenProposalVote H (counted v)).withVote H p (counted v), true) :=
    updateProposal_known true hp hold hclock
  refine ⟨(s.addSeenProposalVote H (counted v)).withVote H p (counted v), ?_, ?_⟩
  · have hproc := processVote_fst (h.valid (env, .vote v) (by simp)) hseen
    rw [hupd] at hproc
    exact congrArg some hproc
  · have hprops : proposalsOf (l ++ [(env, .vote v)]) = proposalsOf l := by simp
    have hself : ((s.addSeenProposalVote H (counted v)).withVote H p (counted v)).mapProposals
        v.nProposalHash = some { p with
          mapVotes := p.mapVotes.insert (H.outPoint v.vin.prevout) (counted v) } :=
      Function.update_self ..
    have hother : ∀ k, k ≠ v.nProposalHash →
        ((s.addSeenProposalVote H (counted v)).withVote H p (counted v)).mapProposals k =
          s.mapProposals k :=
      fun k hk => Function.update_of_ne hk _ _
    refine ⟨ht.waiting, ht.waitingFinal, ?_, ?_, ?_, ?_⟩
    · intro r hr
      rw [hprops] at hr
      rcases eq_or_ne (r.getHash H) v.nProposalHash with he | he
      · rw [he, hself]
        rfl
      · rw [hother _ he]
        exact ht.known r hr
    · intro k hk
      rw [hprops] at hk
      have hkv : k ≠ v.nProposalHash := by
        rintro rfl
        exact hk q hq hqv
      obtain ⟨hm, hs⟩ := ht.other k hk
      exact ⟨(hother k hkv).trans hm, hs⟩
    · intro k hk
      have hkv : k ≠ v.getHash H := (hk v (by simp)).symm
      exact (insertNew_of_ne _ hkv).trans (ht.unseen k fun w hw => hk w (by simp [hw]))
    · intro r hr key
      rw [hprops] at hr
      have hunder : votesUnder H (l ++ [(env, .vote v)]) (r.getHash H) key =
          votesUnder H l (r.getHash H) key ++
            if v.nProposalHash = r.getHash H ∧ H.outPoint v.vin.prevout = key then [v] else [] := by
        rw [votesUnder, votesOf_append, List.filter_append, votesUnder]
        congr 1
        simp [List.filter_cons]
      rw [hunder]
      rcases eq_or_ne (r.getHash H) v.nProposalHash with he | he
      · rw [he, tally, hself, Option.bind_some]
        rcases eq_or_ne (H.outPoint v.vin.prevout) key with hk | hk
        · subst hk
          simp only [and_self, if_true, List.getLast?_append, List.getLast?_singleton,
            Option.some_or, Option.map_some]
          exact AList.lookup_insert _
        · rw [if_neg fun hc => hk hc.2, List.append_nil, ← htally key]
          exact AList.lookup_insert_ne (Ne.symm hk)
      · rw [if_neg fun hc => he hc.1.symm, List.append_nil, tally, hother _ he]
        exact ht.last r hr key

lemma exists_tallied (h : Arrivals H s₀ l) (hfirst : KnownFirst H l) :
    ∃ s, run H s₀ l = some s ∧ Tallied H s₀ l s := by
  induction l using List.reverseRecOn with
  | nil =>
    refine ⟨s₀, rfl, h.waiting, h.waitingFinal, ?_, fun _ _ => ⟨rfl, rfl⟩, fun _ _ => rfl, ?_⟩
    · simp
    · simp
  | append_singleton l a ih =>
    obtain ⟨s, hrun, ht⟩ := ih h.init hfirst.init
    rw [run_append, hrun, Option.bind_some]
    obtain ⟨env, msg⟩ := a
    cases msg with
    | proposal p => exact ht.proposal h hfirst.init
    | vote v => exact ht.vote h hfirst

/-! ### A vote without its proposal -/

lemma KnownFirst.nil : KnownFirst H [] := by
  intro l₁ env v l₂ hl
  simp at hl

lemma KnownFirst.snoc_proposal {p : CBudgetProposal} (h : KnownFirst H l) :
    KnownFirst H (l ++ [(env, .proposal p)]) := by
  intro l₁ e v l₂ hl
  rcases List.eq_nil_or_concat l₂ with rfl | ⟨l₂', a, rfl⟩
  · have := (List.append_inj' hl rfl).2
    simp at this
  · rw [List.concat_eq_append, ← List.cons_append, ← List.append_assoc] at hl
    exact h l₁ e v l₂' (List.append_inj' hl rfl).1

lemma KnownFirst.snoc_vote {v : CBudgetVote} (h : KnownFirst H l)
    (hv : ∃ p ∈ proposalsOf l, p.getHash H = v.nProposalHash) :
    KnownFirst H (l ++ [(env, .vote v)]) := by
  intro l₁ e w l₂ hl
  rcases List.eq_nil_or_concat l₂ with rfl | ⟨l₂', a, rfl⟩
  · obtain ⟨rfl, hlast⟩ := List.append_inj' hl rfl
    obtain ⟨-, rfl⟩ : env = e ∧ v = w := by simpa using (List.cons.inj hlast).1
    exact hv
  · rw [List.concat_eq_append, ← List.cons_append, ← List.append_assoc] at hl
    exact h l₁ e w l₂' (List.append_inj' hl rfl).1

/-- A vote has come before its proposal, and a vote waits for that proposal. -/
structure Waiting (H : BudgetHashes) (s₀ : CBudgetManager) (l : List Arrival) (s : CBudgetManager) :
    Prop where
  other : ∀ k, (∀ p ∈ proposalsOf l, p.getHash H ≠ k) → s.mapProposals k = s₀.mapProposals k ∧
    s.mapSeenMasternodeBudgetProposals k = s₀.mapSeenMasternodeBudgetProposals k
  unseen : ∀ k, (∀ v ∈ votesOf l, v.getHash H ≠ k) →
    s.mapSeenMasternodeBudgetVotes k = s₀.mapSeenMasternodeBudgetVotes k
  waits : ∃ w ∈ votesOf l, (∀ p ∈ proposalsOf l, p.getHash H ≠ w.nProposalHash) ∧
    s.mapOrphanMasternodeBudgetVotes.lookup w.nProposalHash = some (counted w)

lemma withProposal_other {p : CBudgetProposal} {k : Uint256}
    (hother : ∀ k, (∀ p ∈ proposalsOf l, p.getHash H ≠ k) →
      s.mapProposals k = s₀.mapProposals k ∧
      s.mapSeenMasternodeBudgetProposals k = s₀.mapSeenMasternodeBudgetProposals k)
    (hk : ∀ q ∈ proposalsOf (l ++ [(env, .proposal p)]), q.getHash H ≠ k) :
    (s.withProposal H env p).mapProposals k = s₀.mapProposals k ∧
      (s.withProposal H env p).mapSeenMasternodeBudgetProposals k =
        s₀.mapSeenMasternodeBudgetProposals k := by
  have hkp : k ≠ p.getHash H := (hk p (by simp)).symm
  obtain ⟨hm, hs⟩ := hother k fun q hq => hk q (by simp [hq])
  exact ⟨(Function.update_of_ne hkp _ _).trans hm, (insertNew_of_ne _ hkp).trans hs⟩

/-- The proposal that is waited for makes the behaviour undefined; another one changes nothing for
the waiting vote. -/
lemma Waiting.proposal {p : CBudgetProposal} {s' : CBudgetManager} (hw : Waiting H s₀ l s)
    (h : Arrivals H s₀ (l ++ [(env, .proposal p)]))
    (hs : deliver H s (env, .proposal p) = some s') :
    Waiting H s₀ (l ++ [(env, .proposal p)]) s' := by
  obtain ⟨hold, hseen⟩ := hw.other (p.getHash H) h.proposal_ne
  obtain ⟨hnew₁, hnew₂⟩ := h.proposals_new p (by simp)
  have hproc := processProposal_eq (s := s) (h.valid (env, .proposal p) (by simp))
    (hseen.trans hnew₁) (hold.trans hnew₂)
  obtain ⟨rfl, htake, -⟩ := checkOrphanVotes_eq_some.mp (hproc.symm.trans hs)
  obtain ⟨w, hwl, hwp, hlook⟩ := hw.waits
  have hne : p.getHash H ≠ w.nProposalHash := by
    intro he
    have hmem : (⟨w.nProposalHash, counted w⟩ : Sigma fun _ : Uint256 => CBudgetVote) ∈
        (s.withProposal H env p).mapOrphanMasternodeBudgetVotes.entries :=
      AList.mem_lookup_iff.mp hlook
    have hno := htake _ hmem
    have hself : (s.withProposal H env p).mapProposals (counted w).nProposalHash =
        some (stored H env p) := by
      rw [show (counted w).nProposalHash = p.getHash H from he.symm]
      exact Function.update_self ..
    have hyes := updateProposal_known (H := H) (s := s.withProposal H env p) (v := counted w) false
      hself (fun u hu => by simp [stored] at hu)
      (h.clock (env, .proposal p) (by simp) w (by simp [hwl]))
    rw [← updateProposal_snd (counted w) false, hyes] at hno
    cases hno
  refine ⟨fun k hk => withProposal_other hw.other hk, fun k hk => hw.unseen k ?_, w, ?_, ?_, hlook⟩
  · simpa using hk
  · simpa using hwl
  · intro q hq
    simp only [proposalsOf_append, proposalsOf_proposal, proposalsOf_nil, List.mem_append,
      List.mem_singleton] at hq
    rcases hq with hq | rfl
    · exact hwp q hq
    · exact hne

lemma updateProposal_frame (env : BudgetEnv) (v : CBudgetVote) :
    (s.updateProposal H env v true).1.mapSeenMasternodeBudgetProposals =
        s.mapSeenMasternodeBudgetProposals ∧
      (s.updateProposal H env v true).1.mapSeenMasternodeBudgetVotes =
        s.mapSeenMasternodeBudgetVotes ∧
      (∀ k, k ≠ v.nProposalHash ∨ s.mapProposals k = none →
        (s.updateProposal H env v true).1.mapProposals k = s.mapProposals k) ∧
      ∀ k, k ≠ v.nProposalHash →
        (s.updateProposal H env v true).1.mapOrphanMasternodeBudgetVotes.lookup k =
          s.mapOrphanMasternodeBudgetVotes.lookup k := by
  unfold updateProposal
  cases hk : s.mapProposals v.nProposalHash with
  | none =>
    cases env.isSynced with
    | false => exact ⟨rfl, rfl, fun _ _ => rfl, fun _ _ => rfl⟩
    | true => exact ⟨rfl, rfl, fun _ _ => rfl, fun k hk => AList.lookup_insert_ne hk⟩
  | some p =>
    dsimp only
    cases addOrUpdateVote CBudgetVote.nTime env.getTime p.mapVotes (H.outPoint v.vin.prevout) v with
    | none => exact ⟨rfl, rfl, fun _ _ => rfl, fun _ _ => rfl⟩
    | some m =>
      refine ⟨rfl, rfl, fun k hne => ?_, fun _ _ => rfl⟩
      have hkv : k ≠ v.nProposalHash := by
        rintro rfl
        rcases hne with hne | hne
        · exact hne rfl
        · rw [hk] at hne
          cases hne
      exact Function.update_of_ne hkv _ _

lemma waiting_of_unknown {v : CBudgetVote} (h : Arrivals H s₀ (l ++ [(env, .vote v)]))
    (hother : ∀ k, (∀ p ∈ proposalsOf l, p.getHash H ≠ k) → s.mapProposals k = s₀.mapProposals k ∧
      s.mapSeenMasternodeBudgetProposals k = s₀.mapSeenMasternodeBudgetProposals k)
    (hunseen : ∀ k, (∀ v ∈ votesOf l, v.getHash H ≠ k) →
      s.mapSeenMasternodeBudgetVotes k = s₀.mapSeenMasternodeBudgetVotes k)
    (hk : s.mapProposals v.nProposalHash = none)
    (hnot : ∀ p ∈ proposalsOf l, p.getHash H ≠ v.nProposalHash) :
    Waiting H s₀ (l ++ [(env, .vote v)]) (s.processVote H env v).1 := by
  have hvalid := h.valid (env, .vote v) (by simp)
  have hseen : s.mapSeenMasternodeBudgetVotes (v.getHash H) = none :=
    (hunseen _ h.vote_ne).trans (h.votes_new v (by simp))
  have hprops : proposalsOf (l ++ [(env, .vote v)]) = proposalsOf l := by simp
  have hk' : (s.addSeenProposalVote H (counted v)).mapProposals (counted v).nProposalHash = none :=
    hk
  rw [processVote_fst hvalid hseen, updateProposal_unknown hvalid.2.1 hk']
  refine ⟨fun k hk => hother k (by rwa [hprops] at hk), fun k hk => ?_, v, by simp, ?_, ?_⟩
  · have hkv : k ≠ v.getHash H := (hk v (by simp)).symm
    exact (insertNew_of_ne _ hkv).trans (hunseen k fun w hw => hk w (by simp [hw]))
  · rwa [hprops]
  · exact AList.lookup_insert _

lemma Waiting.vote {v : CBudgetVote} (hw : Waiting H s₀ l s)
    (h : Arrivals H s₀ (l ++ [(env, .vote v)]))
    (hs₀ : s₀.mapProposals v.nProposalHash = none) :
    Waiting H s₀ (l ++ [(env, .vote v)]) (s.processVote H env v).1 := by
  obtain ⟨w, hwl, hwp, hlook⟩ := hw.waits
  rcases eq_or_ne w.nProposalHash v.nProposalHash with he | he
  · -- the new vote takes the place of the one that waits
    rw [he] at hwp
    exact waiting_of_unknown h hw.other hw.unseen ((hw.other _ hwp).1.trans hs₀) hwp
  · have hvalid := h.valid (env, .vote v) (by simp)
    have hseen : s.mapSeenMasternodeBudgetVotes (v.getHash H) = none :=
      (hw.unseen _ h.vote_ne).trans (h.votes_new v (by simp))
    have hprops : proposalsOf (l ++ [(env, .vote v)]) = proposalsOf l := by simp
    obtain ⟨hsp, hsv, hmap, horph⟩ := updateProposal_frame (H := H)
      (s := s.addSeenProposalVote H (counted v)) env (counted v)
    rw [processVote_fst hvalid hseen]
    refine ⟨fun k hk => ?_, fun k hk => ?_, w, by simp [hwl], by rwa [hprops], ?_⟩
    · rw [hprops] at hk
      obtain ⟨hm, hs⟩ := hw.other k hk
      refine ⟨(hmap k ?_).trans hm, (congrFun hsp k).trans hs⟩
      rcases eq_or_ne k v.nProposalHash with rfl | hkv
      · exact .inr (hm.trans hs₀)
      · exact .inl hkv
    · have hkv : k ≠ v.getHash H := (hk v (by simp)).symm
      have hold := hw.unseen k fun u hu => hk u (by simp [hu])
      exact (congrFun hsv k).trans ((insertNew_of_ne _ hkv).trans hold)
    · exact (horph _ he).trans hlook

lemma knownFirst_or_waiting (h : Arrivals H s₀ l)
    (hs₀ : ∀ v ∈ votesOf l, s₀.mapProposals v.nProposalHash = none) (hrun : run H s₀ l = some s) :
    KnownFirst H l ∨ Waiting H s₀ l s := by
  induction l using List.reverseRecOn generalizing s with
  | nil => exact .inl .nil
  | append_singleton l a ih =>
    rw [run_append, Option.bind_eq_some_iff] at hrun
    obtain ⟨s₁, hrun₁, hs⟩ := hrun
    have hih := ih h.init
      (fun v hv => hs₀ v (by rw [votesOf_append]; exact List.mem_append_left _ hv))
      hrun₁
    obtain ⟨env, msg⟩ := a
    cases msg with
    | proposal p =>
      rcases hih with hfirst | hw
      · exact .inl hfirst.snoc_proposal
      · exact .inr (hw.proposal h hs)
    | vote v =>
      obtain rfl : (s₁.processVote H env v).1 = s := Option.some.inj hs
      rcases hih with hfirst | hw
      · by_cases hv : ∃ p ∈ proposalsOf l, p.getHash H = v.nProposalHash
        · exact .inl (hfirst.snoc_vote hv)
        · push Not at hv
          obtain ⟨s₂, hrun₂, ht⟩ := exists_tallied h.init hfirst
          obtain rfl : s₁ = s₂ := Option.some.inj (hrun₁.symm.trans hrun₂)
          have hk := (ht.other _ hv).1.trans (hs₀ v (by simp))
          exact .inr (waiting_of_unknown h ht.other ht.unseen hk hv)
      · exact .inr (hw.vote h (hs₀ v (by simp)))

lemma Delivery.run_eq_some_iff (h : Delivery H s₀ l) :
    (∃ s, run H s₀ l = some s) ↔ KnownFirst H l := by
  constructor
  · rintro ⟨s, hrun⟩
    have hs₀ : ∀ v ∈ votesOf l, s₀.mapProposals v.nProposalHash = none := by
      intro v hv
      obtain ⟨p, hp, he⟩ := h.votes_on v hv
      rw [← he]
      exact (h.proposals_new p hp).2
    rcases knownFirst_or_waiting h.toArrivals hs₀ hrun with hfirst | hw
    · exact hfirst
    · obtain ⟨w, hwl, hwp, -⟩ := hw.waits
      obtain ⟨p, hp, he⟩ := h.votes_on w hwl
      exact absurd he (hwp p hp)
  · intro hfirst
    obtain ⟨s, hrun, -⟩ := exists_tallied h.toArrivals hfirst
    exact ⟨s, hrun⟩

/-! ### Two orders -/

/-- The two runs have results, and every proposal has the same votes in both. -/
def SameTallies (H : BudgetHashes) (s₀ : CBudgetManager) (l₁ l₂ : List Arrival) : Prop :=
  ∃ s₁ s₂, run H s₀ l₁ = some s₁ ∧ run H s₀ l₂ = some s₂ ∧ ∀ k key, s₁.tally k key = s₂.tally k key

/-- The same messages, in some order and whenever they come. -/
def SameMessages (l₁ l₂ : List Arrival) : Prop := (l₁.map (·.2)).Perm (l₂.map (·.2))

variable {l₁ l₂ : List Arrival}

lemma SameMessages.votesOf (h : SameMessages l₁ l₂) : (votesOf l₁).Perm (Agenor.votesOf l₂) := by
  have := h.filterMap fun m => match m with
    | .proposal _ => none
    | .vote v => some v
  rwa [List.filterMap_map, List.filterMap_map] at this

lemma SameMessages.proposalsOf (h : SameMessages l₁ l₂) :
    (proposalsOf l₁).Perm (Agenor.proposalsOf l₂) := by
  have := h.filterMap fun m => match m with
    | .proposal p => some p
    | .vote _ => none
  rwa [List.filterMap_map, List.filterMap_map] at this

lemma Arrivals.votesUnder_pairwise (h : Arrivals H s₀ l) (k key : Uint256) :
    (votesUnder H l k key).Pairwise fun v w => v.nTime + BUDGET_VOTE_UPDATE_MIN ≤ w.nTime := by
  refine (h.inTime.filter _).imp_of_mem fun {v w} hv hw hvw => ?_
  obtain ⟨hvl, hvk, hvkey⟩ := mem_votesUnder.mp hv
  obtain ⟨hwl, hwk, hwkey⟩ := mem_votesUnder.mp hw
  exact hvw (h.outPoint_inj v hvl w hwl (hvkey.trans hwkey.symm)) (hvk.trans hwk.symm)

lemma SameMessages.votesUnder_eq (h : SameMessages l₁ l₂) (h₁ : Arrivals H s₀ l₁)
    (h₂ : Arrivals H s₀ l₂) (k key : Uint256) : votesUnder H l₁ k key = votesUnder H l₂ k key := by
  have hperm : (votesUnder H l₁ k key).Perm (votesUnder H l₂ k key) := h.votesOf.filter _
  refine hperm.eq_of_pairwise ?_ (h₁.votesUnder_pairwise k key) (h₂.votesUnder_pairwise k key)
  intro v w _ _ hvw hwv
  have hmin : 0 < BUDGET_VOTE_UPDATE_MIN := by decide
  omega

/-- **Arrival orders.** Two deliveries of the same messages leave every proposal with the same votes
if and only if in both of them every vote comes after its proposal. -/
theorem sameTallies_iff (h₁ : Delivery H s₀ l₁) (h₂ : Delivery H s₀ l₂) (h : SameMessages l₁ l₂) :
    SameTallies H s₀ l₁ l₂ ↔ KnownFirst H l₁ ∧ KnownFirst H l₂ := by
  constructor
  · rintro ⟨s₁, s₂, hrun₁, hrun₂, -⟩
    exact ⟨h₁.run_eq_some_iff.mp ⟨s₁, hrun₁⟩, h₂.run_eq_some_iff.mp ⟨s₂, hrun₂⟩⟩
  · rintro ⟨hf₁, hf₂⟩
    obtain ⟨s₁, hrun₁, ht₁⟩ := exists_tallied h₁.toArrivals hf₁
    obtain ⟨s₂, hrun₂, ht₂⟩ := exists_tallied h₂.toArrivals hf₂
    refine ⟨s₁, s₂, hrun₁, hrun₂, fun k key => ?_⟩
    by_cases hk : ∃ p ∈ proposalsOf l₁, p.getHash H = k
    · obtain ⟨p, hp, rfl⟩ := hk
      rw [ht₁.last p hp key, ht₂.last p (h.proposalsOf.mem_iff.mp hp) key,
        h.votesUnder_eq h₁.toArrivals h₂.toArrivals]
    · push Not at hk
      have hk₂ : ∀ p ∈ proposalsOf l₂, p.getHash H ≠ k :=
        fun p hp => hk p (h.proposalsOf.mem_iff.mpr hp)
      rw [tally, tally, (ht₁.other k hk).1, (ht₂.other k hk₂).1]

end CBudgetManager

namespace Concrete

open CBudgetManager

/-- A proposal has the hash 4; a vote has the hash of its masternode. -/
def roadHashes : BudgetHashes :=
  ⟨fun o => o.hash, fun _ _ _ _ _ _ => 4, fun i _ _ _ => i.prevout.hash,
    fun i _ _ => i.prevout.hash⟩

/-- The transaction that pays the fee of the proposal. -/
def roadFee : CTransaction :=
  ⟨9, [], [⟨PROPOSAL_FEE_TX, Script.OP_RETURN :: 32 :: uint256Bytes 4⟩]⟩

/-- A node of the test network on which every signature is good. -/
def roadEnv : BudgetEnv where
  consensus := testNetParams
  fLiteMode := false
  isBlockchainSynced := true
  isSynced := true
  getTime := 1600000000
  nBestHeight := 100
  countEnabled := 20
  isKnown := fun _ => true
  checkSignature := fun _ => true
  checkFinalizedSignature := fun _ => true
  getTransaction := fun h => if h = 9 then some (roadFee, 0) else none
  nLockTime := fun _ => 0
  getIXConfirmations := fun _ => 3
  confirmations := fun _ => none

def road : CBudgetProposal := ⟨"road", "", 144, 289, 100 * COIN, [Script.OP_1], 9, 0, ∅⟩

/-- The vote of a masternode for the proposal. -/
def roadVote (mn : Uint256) : CBudgetVote :=
  ⟨true, 4, .VOTE_YES, 1600000000, ⟨⟨mn, 0⟩, [], 0⟩, [1], MESS_VER_HASH⟩

def roadMsg : Arrival := (roadEnv, .proposal road)
def roadVoteMsg (mn : Uint256) : Arrival := (roadEnv, .vote (roadVote mn))

set_option maxRecDepth 20000 in
lemma road_valid : ValidArrival roadHashes roadMsg := by
  refine ⟨by decide, by decide, by decide, by decide⟩

lemma roadVote_valid (mn : Uint256) : ValidArrival roadHashes (roadVoteMsg mn) :=
  ⟨rfl, rfl, rfl, rfl⟩

lemma roadVote_of_mem {l : List Arrival} {v : CBudgetVote}
    (hv : votesOf l = [roadVote 70, roadVote 71] ∨ votesOf l = [roadVote 71, roadVote 70])
    (hmem : v ∈ votesOf l) : ∃ mn, v = roadVote mn := by
  rcases hv with hv | hv
  all_goals
    rw [hv, List.mem_pair] at hmem
    rcases hmem with rfl | rfl
    · exact ⟨_, rfl⟩
    · exact ⟨_, rfl⟩

lemma road_delivery {l : List Arrival} (hp : proposalsOf l = [road])
    (hv : votesOf l = [roadVote 70, roadVote 71] ∨ votesOf l = [roadVote 71, roadVote 70])
    (hl : ∀ a ∈ l, a = roadMsg ∨ ∃ mn, a = roadVoteMsg mn) :
    Delivery roadHashes .initial l where
  valid := by
    intro a ha
    rcases hl a ha with rfl | ⟨mn, rfl⟩
    · exact road_valid
    · exact roadVote_valid mn
  proposals_nodup := by
    rw [hp]
    simp
  proposals_new := fun _ _ => ⟨rfl, rfl⟩
  votes_nodup := by rcases hv with hv | hv <;> rw [hv] <;> decide
  votes_new := fun _ _ => rfl
  outPoint_inj := by rcases hv with hv | hv <;> rw [hv] <;> decide
  inTime := by rcases hv with hv | hv <;> rw [hv] <;> decide
  clock := by
    intro a ha v hmem
    obtain ⟨mn, rfl⟩ := roadVote_of_mem hv hmem
    have hnow : a.1.getTime = 1600000000 := by rcases hl a ha with rfl | ⟨mn, rfl⟩ <;> rfl
    rw [hnow]
    exact (by decide : (1600000000 : ℤ) ≤ 1600000000 + 60 * 60)
  waiting := rfl
  waitingFinal := rfl
  votes_on := by
    intro v hmem
    obtain ⟨mn, rfl⟩ := roadVote_of_mem hv hmem
    exact ⟨road, by simp [hp], rfl⟩

lemma road_knownFirst (mn mn' : Uint256) :
    KnownFirst roadHashes [roadMsg, roadVoteMsg mn, roadVoteMsg mn'] := by
  have h₁ : KnownFirst roadHashes [roadMsg] := KnownFirst.nil.snoc_proposal
  have h₂ : KnownFirst roadHashes [roadMsg, roadVoteMsg mn] :=
    h₁.snoc_vote ⟨road, List.mem_singleton_self road, rfl⟩
  exact h₂.snoc_vote ⟨road, List.mem_singleton_self road, rfl⟩

end Concrete

open Concrete CBudgetManager in
/-- Two votes after their proposal, in both orders. -/
theorem sameTallies_after_the_proposal :
    SameTallies roadHashes .initial [roadMsg, roadVoteMsg 70, roadVoteMsg 71]
      [roadMsg, roadVoteMsg 71, roadVoteMsg 70] := by
  refine (sameTallies_iff ?_ ?_ ?_).mpr ⟨?_, ?_⟩
  · exact road_delivery rfl (.inl rfl) (by simp)
  · exact road_delivery rfl (.inr rfl) (by simp)
  · exact .cons _ (.swap _ _ _)
  · exact road_knownFirst 70 71
  · exact road_knownFirst 71 70

open Concrete CBudgetManager in
set_option maxRecDepth 20000 in
/-- **Votes before their proposal.** Of two votes that come first only one waits, though both have
been seen; and when the proposal comes the loop that takes the waiting vote is undefined. After the
proposal both votes would have been kept. -/
theorem votes_before_the_proposal :
    Delivery roadHashes .initial [roadMsg, roadVoteMsg 70, roadVoteMsg 71] ∧
    Delivery roadHashes .initial [roadVoteMsg 70, roadVoteMsg 71, roadMsg] ∧
    SameMessages [roadMsg, roadVoteMsg 70, roadVoteMsg 71]
      [roadVoteMsg 70, roadVoteMsg 71, roadMsg] ∧
    ((run roadHashes .initial [roadMsg, roadVoteMsg 70, roadVoteMsg 71]).map fun s =>
      (s.tally 4 70, s.tally 4 71)) = some (some (roadVote 70), some (roadVote 71)) ∧
    ((run roadHashes .initial [roadVoteMsg 70, roadVoteMsg 71]).map fun s =>
      (s.mapSeenMasternodeBudgetVotes 70, s.mapOrphanMasternodeBudgetVotes.entries.map (·.2))) =
        some (some (roadVote 70), [roadVote 71]) ∧
    (run roadHashes .initial [roadVoteMsg 70, roadVoteMsg 71, roadMsg]).isNone = true ∧
    ¬ SameTallies roadHashes .initial [roadMsg, roadVoteMsg 70, roadVoteMsg 71]
      [roadVoteMsg 70, roadVoteMsg 71, roadMsg] := by
  have hnone : (run roadHashes .initial [roadVoteMsg 70, roadVoteMsg 71, roadMsg]).isNone =
      true := by
    decide
  refine ⟨road_delivery rfl (.inl rfl) (by simp), road_delivery rfl (.inl rfl) (by simp), ?_,
    by decide, by decide, hnone, ?_⟩
  · exact @List.perm_append_comm _ ([roadMsg].map (·.2))
      ([roadVoteMsg 70, roadVoteMsg 71].map (·.2))
  · rintro ⟨s₁, s₂, -, hrun, -⟩
    rw [hrun] at hnone
    cases hnone

end Agenor
