import Agenor.SwiftConsensus

/-!
A network of nodes that run this code: lock requests are handed to nodes, and whatever a node
relays can be delivered to any node, any number of times and in any order.

The votes of the masternodes would come from `DoConsensusVote`, which returns before it votes. So
no vote is ever sent, and no lock is ever completed.
-/

namespace Agenor

open Lib Lib.Patch

namespace SwiftTX

variable {env : SwiftEnv} {s : SwiftTX} {tx : CTransaction}

/-- The signatures counted for a transaction, as `GetTransactionLockSignatures` reads them. -/
def lockSignatures (s : SwiftTX) (h : Uint256) : ℤ :=
  (s.mapTxLocks.lookup h).elim (-1) (·.countSignatures)

/-- No lock has a vote. -/
def VoteFree (s : SwiftTX) : Prop := ∀ h lock, s.content h = some lock → lock.vecConsensusVotes = []

lemma voteFree_initial : VoteFree initial := by
  intro h lock hl
  simp [content, initial] at hl

lemma VoteFree.lockSignatures_le (h : VoteFree s) (g : Uint256) : s.lockSignatures g ≤ 0 := by
  unfold lockSignatures
  cases hl : s.mapTxLocks.lookup g with
  | none => decide
  | some lock =>
    have hvotes : lock.vecConsensusVotes = [] := h g lock.untimed (by simp [content, hl])
    simp only [Option.elim_some, CTransactionLock.countSignatures, CTransactionLock.counted, hvotes]
    split <;> simp

lemma VoteFree.contentOr (h : VoteFree s) (n : ℤ) (g : Uint256) :
    (s.contentOr n g).vecConsensusVotes = [] := by
  unfold SwiftTX.contentOr
  cases hl : s.content g with
  | none => rfl
  | some lock => exact h g lock hl

lemma VoteFree.createNewLock (h : VoteFree s) : VoteFree (s.createNewLock env tx).2 := by
  obtain ⟨-, hc | ⟨n, hc⟩⟩ := createNewLock_spec env s tx
  · intro g lock hl
    exact h g lock (hc ▸ hl)
  · intro g lock hl
    rw [hc] at hl
    by_cases hg : g = tx.hash
    · subst hg
      rw [Function.update_self] at hl
      obtain rfl := Option.some.inj hl
      exact h.contentOr n tx.hash
    · rw [Function.update_of_ne hg] at hl
      exact h g lock hl

lemma VoteFree.processIX (h : VoteFree s) : VoteFree (s.processIX env tx).1 := by
  have h₁ : VoteFree (s.createNewLock env tx).2 := h.createNewLock
  rcases processIX_cases env s tx with hs | ⟨-, ⟨-, hs⟩ | ⟨-, hs⟩⟩
  · rw [hs]
    exact h
  · rw [hs]
    exact h₁
  · intro g lock hl
    exact h₁ g lock (hs.content ▸ hl)

lemma relayed_of_processIX {msg : SwiftMsg} (h : msg ∈ (s.processIX env tx).2) : msg = .ix tx := by
  have hvote : ∀ (s : SwiftTX) n, (s.doConsensusVote env tx n).2 = [] := by
    intro s n
    unfold doConsensusVote
    split <;> rfl
  unfold processIX at h
  split_ifs at h
  · cases h
  · cases h
  · cases h
  · dsimp only at h
    split at h
    · simpa [hvote] using h
    · cases h

lemma VoteFree.clean (h : VoteFree s) (hv : VotesOk (fun _ => True) s) :
    VoteFree (s.cleanTransactionLocksList env) := by
  rcases cleanTransactionLocksList_spec env (fun g lock hl => (hv.lookup hl).hash) with
    ⟨-, hs⟩ | ⟨-, hs⟩
  · rw [hs]
    exact h
  · intro g lock' hl'
    obtain ⟨lock, hl, rfl⟩ := Option.map_eq_some_iff.mp hl'
    obtain ⟨hl, -⟩ := (hs.lock g lock).mp hl
    exact h g lock.untimed (by simp [content, hl])

end SwiftTX

/-- What the nodes of a network have in common, and which of them are masternodes. -/
structure SwiftNet (ι : Type) where
  /-- The collateral of a masternode. -/
  vin : ι → Option CTxIn
  height : ℤ
  getCoinDepthAtHeight : COutPoint → ℤ → ℤ
  getMasternodeRank : CTxIn → ℤ → ℤ
  checkSignature : CConsensusVote → Bool

/-- The states of the nodes, and everything that was relayed. -/
structure NetState (ι : Type) where
  nodes : ι → SwiftTX
  sent : List SwiftMsg

inductive NetEvent
  /-- A lock request is handed to a node. -/
  | request (tx : CTransaction)
  /-- A node gets something that was relayed. -/
  | deliver (msg : SwiftMsg)
  | clean

namespace SwiftNet

variable {ι : Type} [DecidableEq ι]

/-- What a node reads at one of its steps: it is synchronised, on the common chain and with the
common masternode list. -/
structure Sees (net : SwiftNet ι) (i : ι) (env : SwiftEnv) : Prop where
  listens : SwiftTX.listens env = true
  fMasterNode : env.fMasterNode = (net.vin i).isSome
  activeMasternode : env.activeMasternode = net.vin i
  height : env.height = net.height
  getCoinDepthAtHeight : env.getCoinDepthAtHeight = net.getCoinDepthAtHeight
  getMasternodeRank : env.getMasternodeRank = net.getMasternodeRank
  checkSignature : env.checkSignature = net.checkSignature

/-- A node takes a message; what it relays is sent. -/
def receive (t : NetState ι) (i : ι) (env : SwiftEnv) (msg : SwiftMsg) : NetState ι where
  nodes := Function.update t.nodes i ((t.nodes i).processMessageSwiftTX env msg).1
  sent := t.sent ++ ((t.nodes i).processMessageSwiftTX env msg).2

def step (t : NetState ι) : ι × SwiftEnv × NetEvent → NetState ι
  | (i, env, .request tx) => receive t i env (.ix tx)
  | (i, env, .deliver msg) => receive t i env msg
  | (i, env, .clean) =>
    { t with nodes := Function.update t.nodes i ((t.nodes i).cleanTransactionLocksList env) }

/-- Only what was sent is delivered. -/
def Ok (net : SwiftNet ι) (t : NetState ι) (a : ι × SwiftEnv × NetEvent) : Prop :=
  net.Sees a.1 a.2.1 ∧ ∀ msg, a.2.2 = .deliver msg → msg ∈ t.sent

def start : NetState ι := ⟨fun _ => .initial, []⟩

/-- The height that `CreateNewLock` gives the lock of a transaction whose inputs are deep enough:
it comes from the depth of the first input. -/
def lockHeight (net : SwiftNet ι) (tx : CTransaction) : ℤ :=
  int32 (net.height -
    tx.vin.head?.elim 0 (fun i => net.getCoinDepthAtHeight i.prevout net.height) + 4)

/-- A round in which a request is honestly handled: its inputs are deep enough, every masternode
among the first has accepted it, and every vote that was sent was delivered to every node. -/
structure HonestRound (net : SwiftNet ι) (tx : CTransaction)
    (l : List (ι × SwiftEnv × NetEvent)) (t : NetState ι) : Prop where
  run : Run step net.Ok start l t
  deep : ∀ txin ∈ tx.vin, 5 ≤ net.getCoinDepthAtHeight txin.prevout net.height
  accepted : ∀ i vin, net.vin i = some vin →
    net.getMasternodeRank vin (net.lockHeight tx) ≠ -1 →
    net.getMasternodeRank vin (net.lockHeight tx) ≤ SWIFTTX_SIGNATURES_TOTAL →
    (t.nodes i).mapTxLockReq tx.hash = some tx
  delivered : ∀ v, .txlvote v ∈ t.sent → ∀ i, ∃ env, (i, env, .deliver (.txlvote v)) ∈ l

variable {net : SwiftNet ι} {l : List (ι × SwiftEnv × NetEvent)} {t : NetState ι}

/-- No vote was sent and no lock has one. -/
structure Silent (t : NetState ι) : Prop where
  sent : ∀ v, .txlvote v ∉ t.sent
  votes : ∀ i, (t.nodes i).VotesOk fun _ => True
  free : ∀ i, (t.nodes i).VoteFree

lemma Silent.update (h : Silent t) {i : ι} {s : SwiftTX} {msgs : List SwiftMsg}
    (hv : s.VotesOk fun _ => True) (hf : s.VoteFree) (hm : ∀ v, .txlvote v ∉ msgs) :
    Silent ⟨Function.update t.nodes i s, t.sent ++ msgs⟩ := by
  refine ⟨?_, ?_, ?_⟩
  · intro v hv
    rcases List.mem_append.mp hv with hv | hv
    · exact h.sent v hv
    · exact hm v hv
  · intro j
    by_cases hj : j = i
    · subst hj
      simpa using hv
    · simpa [hj] using h.votes j
  · intro j
    by_cases hj : j = i
    · subst hj
      simpa using hf
    · simpa [hj] using h.free j

lemma Silent.receive_ix (h : Silent t) (i : ι) {env : SwiftEnv} (hl : SwiftTX.listens env = true)
    (tx : CTransaction) : Silent (receive t i env (.ix tx)) := by
  obtain ⟨hlite, hspork, hsync⟩ := SwiftTX.listens_eq_true.mp hl
  have hmsg : (t.nodes i).processMessageSwiftTX env (.ix tx) = (t.nodes i).processIX env tx := by
    simp [SwiftTX.processMessageSwiftTX, hlite, hspork, hsync]
  unfold receive
  rw [hmsg]
  refine h.update ((h.votes i).processIX env tx) (h.free i).processIX ?_
  intro v hv
  cases SwiftTX.relayed_of_processIX hv

lemma Silent.step (h : Silent t) {a : ι × SwiftEnv × NetEvent} (hok : net.Ok t a) :
    Silent (step t a) := by
  obtain ⟨i, env, ev⟩ := a
  obtain ⟨hsees, hsent⟩ := hok
  cases ev with
  | request tx => exact h.receive_ix i hsees.listens tx
  | deliver msg =>
    cases msg with
    | ix tx => exact h.receive_ix i hsees.listens tx
    | txlvote v => exact absurd (hsent _ rfl) (h.sent v)
  | clean =>
    have hclean : Silent ⟨Function.update t.nodes i ((t.nodes i).cleanTransactionLocksList env),
        t.sent ++ []⟩ :=
      h.update ((h.votes i).clean env) ((h.free i).clean (h.votes i)) (by simp)
    simpa [SwiftNet.step] using hclean

/-- **Honest locks never complete.** In every honest round, whatever the network and the request,
no vote is sent, and no node that has the request counts enough signatures. -/
theorem honest_locks_never_complete {tx : CTransaction} (h : HonestRound net tx l t) :
    (∀ v, .txlvote v ∉ t.sent) ∧
      ∀ i, (t.nodes i).mapTxLockReq tx.hash = some tx →
        (t.nodes i).lockSignatures tx.hash < SWIFTTX_SIGNATURES_REQUIRED := by
  have hsilent : Silent t := by
    refine h.run.invariant (P := Silent) ⟨by simp [start], ?_, ?_⟩ fun s a hs hok => hs.step hok
    · intro i
      exact SwiftTX.votesOk_initial _
    · intro i
      exact SwiftTX.voteFree_initial
  refine ⟨hsilent.sent, ?_⟩
  intro i _
  have hle := (hsilent.free i).lockSignatures_le tx.hash
  unfold SWIFTTX_SIGNATURES_REQUIRED
  omega

end SwiftNet

namespace Concrete

/-- Ten masternodes, ranked by the index of their collateral. -/
def tenMasternodes : SwiftNet (Fin 10) where
  vin := fun i => some ⟨⟨1000, i + 1⟩, [], 0⟩
  height := 100
  getCoinDepthAtHeight := fun _ _ => 20
  getMasternodeRank := fun vin _ => vin.prevout.n
  checkSignature := fun _ => true

def masternodeEnv (i : Fin 10) : SwiftEnv :=
  { swiftEnv 0 true with
    fMasterNode := true
    activeMasternode := some ⟨⟨1000, i + 1⟩, [], 0⟩ }

/-- The request is handed to every masternode. -/
def requestAll : List (Fin 10 × SwiftEnv × NetEvent) :=
  (List.finRange 10).map fun i => (i, masternodeEnv i, .request (lockTx 5))

end Concrete

namespace SwiftNet

open Concrete

lemma run_requestAll :
    Run step tenMasternodes.Ok start requestAll (requestAll.foldl step start) := by
  refine Run.nil.append (m := requestAll) ?_
  intro a ha t
  obtain ⟨i, -, rfl⟩ := List.mem_map.mp ha
  exact ⟨⟨rfl, rfl, rfl, rfl, rfl, rfl, rfl⟩, by rintro msg ⟨⟩⟩

lemma accepted_requestAll (i : Fin 10) :
    ((requestAll.foldl step start).nodes i).mapTxLockReq 5 = some (lockTx 5) := by
  revert i
  decide

lemma sent_requestAll : ∀ v, .txlvote v ∉ (requestAll.foldl step start).sent := by
  have h : (requestAll.foldl step start).sent = List.replicate 10 (.ix (lockTx 5)) := by decide
  rw [h]
  intro v hv
  cases List.eq_of_mem_replicate hv

lemma honestRound_requestAll : HonestRound tenMasternodes (lockTx 5) requestAll
    (requestAll.foldl step start) where
  run := run_requestAll
  deep := by
    intro txin _
    change (5 : ℤ) ≤ 20
    decide
  accepted := fun i _ _ _ _ => accepted_requestAll i
  delivered := fun v hv => absurd hv (sent_requestAll v)

/-- Ten masternodes accept a request, and the first of them has no vote for it. -/
theorem honest_locks_never_complete_ten :
    HonestRound tenMasternodes (lockTx 5) requestAll (requestAll.foldl step start) ∧
      ((requestAll.foldl step start).nodes 0).lockSignatures 5 < SWIFTTX_SIGNATURES_REQUIRED :=
  ⟨honestRound_requestAll,
    (honest_locks_never_complete honestRound_requestAll).2 0 (accepted_requestAll 0)⟩

/-- The lock of a request that ten masternodes have accepted stays without signatures. -/
theorem accepted_request_is_not_locked :
    ∃ l t, HonestRound tenMasternodes (lockTx 5) l t ∧
      (∀ i, (t.nodes i).mapTxLockReq 5 = some (lockTx 5)) ∧
      ¬∀ i, SWIFTTX_SIGNATURES_REQUIRED ≤ (t.nodes i).lockSignatures 5 := by
  refine ⟨requestAll, _, honestRound_requestAll, accepted_requestAll, ?_⟩
  intro h
  have h0 : ((requestAll.foldl step start).nodes 0).lockSignatures 5 = 0 := by decide
  have := h 0
  rw [h0] at this
  exact absurd this (by decide)

end SwiftNet

end Agenor
