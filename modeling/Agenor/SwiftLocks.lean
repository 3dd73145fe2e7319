import Agenor.SwiftTX

/-!
What the handlers of instant transactions do to the maps: one lemma for a lock request, one for a
vote and one for a cleanup, from which every invariant is derived.
-/

namespace Agenor

open Lib.Patch

def CTransactionLock.untimed (lock : CTransactionLock) : CTransactionLock :=
  { lock with nExpiration := 0, nTimeout := 0 }

namespace SwiftTX

variable {env : SwiftEnv} {s : SwiftTX} {tx : CTransaction} {ctx : CConsensusVote}

/-! ### The maps after one operation -/

@[simp] lemma lookup_setLock (s : SwiftTX) (h g : Uint256) (lock : CTransactionLock) :
    (s.setLock h lock).mapTxLocks.lookup g =
      if g = h then some lock else s.mapTxLocks.lookup g := by
  unfold setLock
  by_cases hg : g = h
  · subst hg
    simp
  · simp [hg]

structure SameButLocks (s s' : SwiftTX) : Prop where
  req : s'.mapTxLockReq = s.mapTxLockReq
  rejected : s'.mapTxLockReqRejected = s.mapTxLockReqRejected
  vote : s'.mapTxLockVote = s.mapTxLockVote
  locked : s'.mapLockedInputs = s.mapLockedInputs

lemma SameButLocks.refl (s : SwiftTX) : SameButLocks s s := ⟨rfl, rfl, rfl, rfl⟩

lemma SameButLocks.trans {s s' s'' : SwiftTX} (h : SameButLocks s s') (h' : SameButLocks s' s'') :
    SameButLocks s s'' :=
  ⟨h'.req.trans h.req, h'.rejected.trans h.rejected, h'.vote.trans h.vote,
    h'.locked.trans h.locked⟩

lemma sameButLocks_setLock (s : SwiftTX) (h : Uint256) (lock : CTransactionLock) :
    SameButLocks s (s.setLock h lock) := ⟨rfl, rfl, rfl, rfl⟩

/-- The locks without their times. -/
def content (s : SwiftTX) (h : Uint256) : Option CTransactionLock :=
  (s.mapTxLocks.lookup h).map CTransactionLock.untimed

lemma content_setLock (s : SwiftTX) (h : Uint256) (lock : CTransactionLock) :
    (s.setLock h lock).content = Function.update s.content h (some lock.untimed) := by
  funext g
  by_cases hg : g = h
  · subst hg
    simp [content]
  · simp [content, hg]

/-- The lock of a transaction, or a new one with that height, without its times. -/
def contentOr (s : SwiftTX) (n : ℤ) (h : Uint256) : CTransactionLock :=
  (s.content h).getD ⟨n, h, [], 0, 0⟩

lemma untimed_lockOf (env : SwiftEnv) (s : SwiftTX) (n : ℤ) (h : Uint256) :
    (s.lockOf env n h).untimed = s.contentOr n h := by
  unfold lockOf contentOr content
  cases s.mapTxLocks.lookup h with
  | none => rfl
  | some lock => rfl

lemma sameButLocks_expire (env : SwiftEnv) (s : SwiftTX) (h : Uint256) :
    SameButLocks s (s.expire env h) := by
  unfold expire
  split
  · exact .refl s
  · exact sameButLocks_setLock s h _

lemma content_expire (env : SwiftEnv) (s : SwiftTX) (h : Uint256) :
    (s.expire env h).content = s.content := by
  funext g
  unfold expire
  cases hl : s.mapTxLocks.lookup h with
  | none => rfl
  | some lock =>
    by_cases hg : g = h
    · subst hg
      simp [content, hl, CTransactionLock.untimed]
    · simp [content, hg]

lemma checkForConflictingLocks_spec {b : Bool} {s' : SwiftTX}
    (h : s.checkForConflictingLocks env tx = (b, s')) :
    SameButLocks s s' ∧ s'.content = s.content ∧ (b = false ↔ s.conflicts tx = []) ∧
      (b = false → s' = s) := by
  unfold checkForConflictingLocks at h
  cases hc : s.conflicts tx with
  | nil =>
    rw [hc] at h
    obtain ⟨rfl, rfl⟩ := Prod.mk.inj h
    exact ⟨.refl s, rfl, by simp, fun _ => rfl⟩
  | cons g l =>
    rw [hc] at h
    obtain ⟨rfl, rfl⟩ := Prod.mk.inj h
    refine ⟨(sameButLocks_expire env s tx.hash).trans (sameButLocks_expire env _ g), ?_, by simp,
      by simp⟩
    rw [content_expire, content_expire]

lemma conflicts_eq_nil : s.conflicts tx = [] ↔
    ∀ i ∈ tx.vin, ∀ h, s.mapLockedInputs i.prevout = some h → h = tx.hash := by
  simp only [conflicts, List.filterMap_eq_nil_iff, Option.filter_eq_none_iff, bne_iff_ne, not_not]

@[simp] lemma lockInputs_locked (s : SwiftTX) (vin : List CTxIn) (h : Uint256) (o : COutPoint) :
    (s.lockInputs vin h).mapLockedInputs o =
      (s.mapLockedInputs o).or (if o ∈ vin.map (·.prevout) then some h else none) := by
  have key : ∀ (vin : List CTxIn) (m : COutPoint → Option Uint256),
      vin.foldl (fun m i => if (m i.prevout).isSome then m
        else Function.update m i.prevout (some h)) m o =
        (m o).or (if o ∈ vin.map (·.prevout) then some h else none) := by
    intro vin
    induction vin with
    | nil => simp
    | cons i vin ih =>
      intro m
      rw [List.foldl_cons, ih]
      by_cases ho : o = i.prevout
      · subst ho
        cases hm : m i.prevout with
        | none => simp
        | some g => simp [hm]
      · split
        · simp [ho]
        · simp [ho]
  exact key vin s.mapLockedInputs

lemma lockInputs_eq_some {vin : List CTxIn} {h g : Uint256} {o : COutPoint}
    (hl : (s.lockInputs vin h).mapLockedInputs o = some g) :
    s.mapLockedInputs o = some g ∨
      (s.mapLockedInputs o = none ∧ g = h ∧ o ∈ vin.map (·.prevout)) := by
  rw [lockInputs_locked, Option.or_eq_some_iff] at hl
  rcases hl with hl | ⟨hn, hl⟩
  · exact .inl hl
  · split at hl
    · next hm => exact .inr ⟨hn, (Option.some.inj hl).symm, hm⟩
    · cases hl

lemma checkUnknownVotes_spec (env : SwiftEnv) (s : SwiftTX) (ctx : CConsensusVote) :
    ∃ m, (s.checkUnknownVotes env ctx).2 = { s with mapUnknownVotes := m } := by
  unfold checkUnknownVotes
  by_cases hk : ((s.mapTxLockReq ctx.txHash).isSome || (s.mapTxLockReqRejected ctx.txHash).isSome)
      = true
  · rw [if_pos hk]
    exact ⟨s.mapUnknownVotes, rfl⟩
  · rw [if_neg hk]
    dsimp only
    split_ifs <;> exact ⟨_, rfl⟩

lemma relayVote_spec (env : SwiftEnv) (s : SwiftTX) (ctx : CConsensusVote) :
    ∃ m, (s.relayVote env ctx).1 = { s with mapUnknownVotes := m } := by
  obtain ⟨m, hm⟩ := checkUnknownVotes_spec env s ctx
  refine ⟨m, ?_⟩
  rw [← hm]
  unfold relayVote
  split
  · next h => rw [h]
  · next h => rw [h]

/-! ### What the handlers do -/

lemma createNewLock_spec (env : SwiftEnv) (s : SwiftTX) (tx : CTransaction) :
    SameButLocks s (s.createNewLock env tx).2 ∧
      ((s.createNewLock env tx).2.content = s.content ∨
        ∃ n, (s.createNewLock env tx).2.content = Function.update s.content tx.hash
          (some { s.contentOr n tx.hash with nBlockHeight := n })) := by
  unfold createNewLock
  split
  · exact ⟨.refl s, .inl rfl⟩
  · next nTxAge hage =>
    refine ⟨sameButLocks_setLock s _ _, .inr ⟨int32 (env.height - nTxAge + 4), ?_⟩⟩
    rw [content_setLock, ← untimed_lockOf env]
    rfl

/-- The state after a request that the memory pool has refused. -/
structure Refused (s s₁ : SwiftTX) (tx : CTransaction) (s' : SwiftTX) : Prop where
  rejected : s'.mapTxLockReqRejected = Function.update s.mapTxLockReqRejected tx.hash (some tx)
  vote : s'.mapTxLockVote = s.mapTxLockVote
  content : s'.content = s₁.content
  locked : s'.mapLockedInputs = (s.lockInputs tx.vin tx.hash).mapLockedInputs
  req : s'.mapTxLockReq = if (s₁.content tx.hash).any (·.isComplete) ∧ s.conflicts tx = [] then
    Function.update s.mapTxLockReq tx.hash (some tx) else s.mapTxLockReq

lemma conflicts_lockInputs (s : SwiftTX) (tx : CTransaction) :
    (s.lockInputs tx.vin tx.hash).conflicts tx = [] ↔ s.conflicts tx = [] := by
  simp only [conflicts_eq_nil, lockInputs_locked]
  constructor
  · intro h i hi g hg
    exact h i hi g (by simp [hg])
  · intro h i hi g hg
    rw [Option.or_eq_some_iff] at hg
    rcases hg with hg | ⟨-, hg⟩
    · exact h i hi g hg
    · split at hg
      · exact (Option.some.inj hg).symm
      · cases hg

lemma refuse_spec (env : SwiftEnv) {s s₁ : SwiftTX} (hsame : SameButLocks s s₁)
    (tx : CTransaction) : Refused s s₁ tx (s₁.refuse env tx) := by
  have hlocked : (s₁.reject tx).mapLockedInputs =
      (s.lockInputs tx.vin tx.hash).mapLockedInputs := by
    unfold reject lockInputs
    rw [hsame.locked]
  have hrej : (s₁.reject tx).mapTxLockReqRejected
      = Function.update s.mapTxLockReqRejected tx.hash (some tx) := by
    rw [← hsame.rejected]
    rfl
  have hconf : (s₁.reject tx).conflicts tx = [] ↔ s.conflicts tx = [] := by
    rw [← conflicts_lockInputs s]
    unfold conflicts
    rw [hlocked]
  have hcomplete : ((s₁.reject tx).mapTxLocks.lookup tx.hash).any (·.isComplete) =
      (s₁.content tx.hash).any (·.isComplete) := by
    change (s₁.mapTxLocks.lookup tx.hash).any (·.isComplete) = _
    rw [content]
    cases s₁.mapTxLocks.lookup tx.hash with
    | none => rfl
    | some lock => rfl
  unfold refuse
  dsimp only
  rw [hcomplete]
  by_cases hc : (s₁.content tx.hash).any (·.isComplete) = true
  · rw [if_pos hc]
    cases hr : (s₁.reject tx).checkForConflictingLocks env tx with
    | mk b s₃ =>
      obtain ⟨hsame₃, hcontent₃, hb, hs₃⟩ := checkForConflictingLocks_spec hr
      cases b with
      | true =>
        refine ⟨hsame₃.rejected.trans hrej, hsame₃.vote.trans hsame.vote, hcontent₃,
          hsame₃.locked.trans hlocked, ?_⟩
        rw [if_neg]
        · exact hsame₃.req.trans hsame.req
        · rintro ⟨-, hno⟩
          simp [hconf.mpr hno] at hb
      | false =>
        obtain rfl := hs₃ rfl
        refine ⟨hrej, hsame.vote, rfl, hlocked, ?_⟩
        rw [if_pos ⟨hc, hconf.mp (hb.mp rfl)⟩, ← hsame.req]
        rfl
  · rw [if_neg hc]
    refine ⟨hrej, hsame.vote, rfl, hlocked, ?_⟩
    rw [if_neg (fun h => hc h.1)]
    exact hsame.req

/-- A request gets to the memory pool: it is new, it may be locked and its fee is high enough. -/
def IsNewRequest (env : SwiftEnv) (s : SwiftTX) (tx : CTransaction) : Prop :=
  s.mapTxLockReq tx.hash = none ∧ s.mapTxLockReqRejected tx.hash = none ∧
    isIXTXValid env tx = true ∧ isLockable tx = true

/-- **What a lock request can do.** -/
theorem processIX_cases (env : SwiftEnv) (s : SwiftTX) (tx : CTransaction) :
    (s.processIX env tx).1 = s ∨ IsNewRequest env s tx ∧
      (((s.createNewLock env tx).2.acceptToMemoryPool env tx = true ∧
          (s.processIX env tx).1 = { (s.createNewLock env tx).2 with
            mapTxLockReq := Function.update s.mapTxLockReq tx.hash (some tx) }) ∨
        ((s.createNewLock env tx).2.acceptToMemoryPool env tx = false ∧
          Refused s (s.createNewLock env tx).2 tx (s.processIX env tx).1)) := by
  obtain ⟨hsame, -⟩ := createNewLock_spec env s tx
  unfold processIX
  by_cases hseen : ((s.mapTxLockReq tx.hash).isSome || (s.mapTxLockReqRejected tx.hash).isSome)
      = true
  · left
    rw [if_pos hseen]
  rw [if_neg hseen]
  by_cases hvalid : (!isIXTXValid env tx) = true
  · left
    rw [if_pos hvalid]
  rw [if_neg hvalid]
  by_cases hlock : (!isLockable tx) = true
  · left
    rw [if_pos hlock]
  rw [if_neg hlock]
  refine .inr ⟨by simp_all [IsNewRequest], ?_⟩
  generalize hr : s.createNewLock env tx = r at hsame ⊢
  obtain ⟨n, s₁⟩ := r
  dsimp only at hsame ⊢
  by_cases hacc : s₁.acceptToMemoryPool env tx = true
  · refine .inl ⟨hacc, ?_⟩
    have hvote : s₁.doConsensusVote env tx n = (s₁, []) := by
      unfold doConsensusVote
      split <;> rfl
    rw [if_pos hacc, hvote, ← hsame.req]
  · refine .inr ⟨by simpa using hacc, ?_⟩
    rw [if_neg hacc]
    exact refuse_spec env hsame tx

/-- The state after the request of a complete lock has been looked up. -/
structure Completed (env : SwiftEnv) (s : SwiftTX) (h : Uint256) (s' : SwiftTX) : Prop where
  rejected : s'.mapTxLockReqRejected = s.mapTxLockReqRejected
  vote : s'.mapTxLockVote = s.mapTxLockVote
  content : s'.content = s.content
  req : s'.mapTxLockReq = Function.update s.mapTxLockReq h
    (some ((s.mapTxLockReq h).getD emptyTransaction))
  locked : s'.mapLockedInputs = s.mapLockedInputs ∨ s'.mapLockedInputs =
    (s.lockInputs ((s.mapTxLockReq h).getD emptyTransaction).vin h).mapLockedInputs

lemma completeLock_spec (env : SwiftEnv) (s : SwiftTX) (h : Uint256) :
    Completed env s h (s.completeLock env h) := by
  unfold completeLock
  dsimp only
  generalize htx : (s.mapTxLockReq h).getD emptyTransaction = tx
  cases hr : checkForConflictingLocks env
      { s with mapTxLockReq := Function.update s.mapTxLockReq h (some tx) } tx with
  | mk b s₃ =>
    obtain ⟨hsame, hcontent, -, hs₃⟩ := checkForConflictingLocks_spec hr
    cases b with
    | true =>
      rw [← htx] at hsame
      exact ⟨hsame.rejected, hsame.vote, hcontent, hsame.req, .inl hsame.locked⟩
    | false =>
      obtain rfl := hs₃ rfl
      simp only [Function.update_self, Option.isSome_some, if_true]
      subst htx
      exact ⟨rfl, rfl, rfl, rfl, .inr rfl⟩

/-- The lock of a vote with the vote added. -/
def signed (s : SwiftTX) (ctx : CConsensusVote) : CTransactionLock :=
  (s.contentOr 0 ctx.txHash).addSignature ctx

/-- What a vote that counts leaves behind. -/
structure Counted (s : SwiftTX) (ctx : CConsensusVote) (s' : SwiftTX) : Prop where
  content : s'.content = Function.update s.content ctx.txHash (some (s.signed ctx))
  pending : (s.signed ctx).isComplete = false →
    s'.mapTxLockReq = s.mapTxLockReq ∧ s'.mapLockedInputs = s.mapLockedInputs
  req : (s.signed ctx).isComplete = true → s'.mapTxLockReq =
    Function.update s.mapTxLockReq ctx.txHash
      (some ((s.mapTxLockReq ctx.txHash).getD emptyTransaction))
  locked : (s.signed ctx).isComplete = true → s'.mapLockedInputs = s.mapLockedInputs ∨
    s'.mapLockedInputs = (s.lockInputs ((s.mapTxLockReq ctx.txHash).getD emptyTransaction).vin
      ctx.txHash).mapLockedInputs

lemma processConsensusVote_of_bad (h : isGoodVote env ctx = false) :
    s.processConsensusVote env ctx = (false, s) := by
  simp [processConsensusVote, h]

lemma processConsensusVote_of_good (h : isGoodVote env ctx = true) :
    ∃ s', s.processConsensusVote env ctx = (true, s') ∧ Counted s ctx s' ∧
      s'.mapTxLockVote = s.mapTxLockVote ∧ s'.mapTxLockReqRejected = s.mapTxLockReqRejected := by
  unfold processConsensusVote
  rw [if_neg (by simp [h])]
  refine ⟨_, rfl, ?_⟩
  have hlock : ((s.lockOf env 0 ctx.txHash).addSignature ctx).untimed = s.signed ctx := by
    rw [signed, ← untimed_lockOf env]
    rfl
  have hcomplete : ((s.lockOf env 0 ctx.txHash).addSignature ctx).isComplete
      = (s.signed ctx).isComplete := by
    rw [← hlock]
    rfl
  rw [hcomplete]
  cases hc : (s.signed ctx).isComplete with
  | false =>
    refine ⟨⟨?_, fun _ => ⟨rfl, rfl⟩, by simp [hc], by simp [hc]⟩, rfl, rfl⟩
    rw [← hlock]
    exact content_setLock s _ _
  | true =>
    obtain ⟨hrej, hvote, hcontent, hreq, hlocked⟩ := completeLock_spec env
      (s.setLock ctx.txHash ((s.lockOf env 0 ctx.txHash).addSignature ctx)) ctx.txHash
    refine ⟨⟨?_, by simp [hc], fun _ => hreq, fun _ => hlocked⟩, hvote, hrej⟩
    rw [← hlock]
    exact hcontent.trans (content_setLock s _ _)

/-- **What a vote can do.** It is remembered whether it counts or not. -/
theorem processVote_cases (env : SwiftEnv) (s : SwiftTX) (ctx : CConsensusVote) :
    (s.processVote env ctx).1 = s ∨ s.mapTxLockVote ctx.getHash = none ∧
      (s.processVote env ctx).1.mapTxLockVote
        = Function.update s.mapTxLockVote ctx.getHash (some ctx) ∧
      (s.processVote env ctx).1.mapTxLockReqRejected = s.mapTxLockReqRejected ∧
      ((isGoodVote env ctx = false ∧ (s.processVote env ctx).1.content = s.content ∧
          (s.processVote env ctx).1.mapTxLockReq = s.mapTxLockReq ∧
          (s.processVote env ctx).1.mapLockedInputs = s.mapLockedInputs) ∨
        (isGoodVote env ctx = true ∧ Counted s ctx (s.processVote env ctx).1)) := by
  unfold processVote
  by_cases hseen : (s.mapTxLockVote ctx.getHash).isSome = true
  · left
    rw [if_pos hseen]
  rw [if_neg hseen]
  refine .inr ⟨by simpa using hseen, ?_⟩
  cases hg : isGoodVote env ctx with
  | false =>
    rw [processConsensusVote_of_bad hg]
    exact ⟨rfl, rfl, .inl ⟨rfl, rfl, rfl, rfl⟩⟩
  | true =>
    obtain ⟨s₂, hr, hcounted, hvote, hrej⟩ := processConsensusVote_of_good (s := s.remember ctx) hg
    obtain ⟨m, hm⟩ := relayVote_spec env s₂ ctx
    rw [hr]
    dsimp only
    rw [hm]
    exact ⟨hvote, hrej, .inr ⟨rfl, hcounted.content, hcounted.pending, hcounted.req,
      hcounted.locked⟩⟩

/-! ### Cleaning up -/

/-- The transactions of a list of locks whose lock has expired. -/
def DroppedOf (env : SwiftEnv) (l : List ((_ : Uint256) × CTransactionLock)) (h : Uint256) : Prop :=
  ∃ lock, (⟨h, lock⟩ : (_ : Uint256) × CTransactionLock) ∈ l ∧ isExpired env lock = true

/-- The state after the expired locks of a list have been dropped. Where the request is known,
its inputs are unlocked and its votes forgotten. -/
structure CleanedOf (env : SwiftEnv) (l : List ((_ : Uint256) × CTransactionLock))
    (s s' : SwiftTX) : Prop where
  lock : ∀ h lock, s'.mapTxLocks.lookup h = some lock ↔
    s.mapTxLocks.lookup h = some lock ∧ ¬DroppedOf env l h
  req : ∀ h tx, s'.mapTxLockReq h = some tx ↔ s.mapTxLockReq h = some tx ∧ ¬DroppedOf env l h
  rejected : ∀ h tx, s'.mapTxLockReqRejected h = some tx ↔
    s.mapTxLockReqRejected h = some tx ∧
      ¬(DroppedOf env l h ∧ ∃ tx', s.mapTxLockReq h = some tx')
  locked : ∀ o h, s'.mapLockedInputs o = some h ↔ s.mapLockedInputs o = some h ∧
    ¬∃ g tx, DroppedOf env l g ∧ s.mapTxLockReq g = some tx ∧ o ∈ tx.vin.map (·.prevout)
  vote : ∀ k v, s'.mapTxLockVote k = some v ↔ s.mapTxLockVote k = some v ∧
    ¬∃ g lock tx, (⟨g, lock⟩ : (_ : Uint256) × CTransactionLock) ∈ l ∧ isExpired env lock = true ∧
      s.mapTxLockReq g = some tx ∧ k ∈ lock.vecConsensusVotes.map (·.getHash)

lemma droppedOf_cons {p : (_ : Uint256) × CTransactionLock}
    {l : List ((_ : Uint256) × CTransactionLock)} {h : Uint256} :
    DroppedOf env (p :: l) h ↔ (h = p.1 ∧ isExpired env p.2 = true) ∨ DroppedOf env l h := by
  constructor
  · rintro ⟨lock, hm, he⟩
    rcases List.mem_cons.mp hm with rfl | hm
    · exact .inl ⟨rfl, he⟩
    · exact .inr ⟨lock, hm, he⟩
  · rintro (⟨rfl, he⟩ | ⟨lock, hm, he⟩)
    · exact ⟨p.2, by simp, he⟩
    · exact ⟨lock, List.mem_cons_of_mem _ hm, he⟩

lemma cleanLock_of_fresh {p : (_ : Uint256) × CTransactionLock} (he : isExpired env p.2 = false) :
    cleanLock env s p = s := by
  simp [cleanLock, he]

lemma cleanLock_of_expired {p : (_ : Uint256) × CTransactionLock} (hp : p.2.txHash = p.1)
    (he : isExpired env p.2 = true) :
    (cleanLock env s p).mapTxLocks = s.mapTxLocks.erase p.1 ∧
      (cleanLock env s p).mapTxLockReq = Function.update s.mapTxLockReq p.1 none ∧
      (cleanLock env s p).mapTxLockReqRejected = (if (s.mapTxLockReq p.1).isSome then
        Function.update s.mapTxLockReqRejected p.1 none else s.mapTxLockReqRejected) ∧
      (cleanLock env s p).mapLockedInputs = removeAll s.mapLockedInputs
        (((s.mapTxLockReq p.1).elim [] (·.vin)).map (·.prevout)) ∧
      (cleanLock env s p).mapTxLockVote = (if (s.mapTxLockReq p.1).isSome then
        removeAll s.mapTxLockVote (p.2.vecConsensusVotes.map (·.getHash))
        else s.mapTxLockVote) := by
  unfold cleanLock
  rw [if_pos he, hp]
  cases hr : s.mapTxLockReq p.1 with
  | none =>
    refine ⟨rfl, ?_, rfl, rfl, rfl⟩
    exact (Function.update_eq_self_iff.mpr hr.symm).symm
  | some tx => simp [dropRequest, hp]

lemma mem_locks_cons {p : (_ : Uint256) × CTransactionLock}
    {l : List ((_ : Uint256) × CTransactionLock)} {g : Uint256} {lock : CTransactionLock} :
    (⟨g, lock⟩ : (_ : Uint256) × CTransactionLock) ∈ p :: l ↔
      (g = p.1 ∧ lock = p.2) ∨ (⟨g, lock⟩ : (_ : Uint256) × CTransactionLock) ∈ l := by
  rw [List.mem_cons]
  refine or_congr_left ⟨?_, ?_⟩
  · rintro rfl
    exact ⟨rfl, rfl⟩
  · rintro ⟨rfl, rfl⟩
    rfl

lemma cleanedOf_cons_of_expired {p : (_ : Uint256) × CTransactionLock}
    {l : List ((_ : Uint256) × CTransactionLock)} {s' : SwiftTX} (hp : p.2.txHash = p.1)
    (hfree : ∀ lock, (⟨p.1, lock⟩ : (_ : Uint256) × CTransactionLock) ∉ l)
    (he : isExpired env p.2 = true) (h : CleanedOf env l (cleanLock env s p) s') :
    CleanedOf env (p :: l) s s' := by
  obtain ⟨hlock, hreq, hrej, hin, hvote⟩ := cleanLock_of_expired (s := s) hp he
  have hnd : ¬DroppedOf env l p.1 := fun ⟨lock, hm, _⟩ => hfree lock hm
  -- the requests of the locks that are still to come have not been touched
  have hother : ∀ g tx, g ≠ p.1 → ((cleanLock env s p).mapTxLockReq g = some tx ↔
      s.mapTxLockReq g = some tx) := by
    intro g tx hg
    rw [hreq, Function.update_of_ne hg]
  have hne : ∀ g, DroppedOf env l g → g ≠ p.1 := by
    rintro g hg rfl
    exact hnd hg
  constructor
  · intro g lock
    rw [h.lock, droppedOf_cons, hlock]
    by_cases hg : g = p.1
    · subst hg
      simp [he]
    · simp [AList.lookup_erase_ne hg, hg]
  · intro g tx
    rw [h.req, droppedOf_cons]
    by_cases hg : g = p.1
    · subst hg
      simp [hreq, he]
    · simp [hother g tx hg, hg]
  · intro g tx
    rw [h.rejected, droppedOf_cons, hrej]
    by_cases hg : g = p.1
    · subst hg
      cases hr : s.mapTxLockReq p.1 with
      | none => simp [hnd]
      | some tx' => simp [he]
    · simp only [hg, false_and, false_or, hother g _ hg]
      split
      · rw [Function.update_of_ne hg]
      · rfl
  · intro o h'
    have hex : (∃ g tx, DroppedOf env (p :: l) g ∧ s.mapTxLockReq g = some tx ∧
        o ∈ tx.vin.map (·.prevout)) ↔
        o ∈ ((s.mapTxLockReq p.1).elim [] (·.vin)).map (·.prevout) ∨
        ∃ g tx, DroppedOf env l g ∧ (cleanLock env s p).mapTxLockReq g = some tx ∧
          o ∈ tx.vin.map (·.prevout) := by
      constructor
      · rintro ⟨g, tx, hg, hr, ho⟩
        rcases droppedOf_cons.mp hg with ⟨rfl, -⟩ | hg
        · exact .inl (by simpa [hr] using ho)
        · exact .inr ⟨g, tx, hg, (hother g tx (hne g hg)).mpr hr, ho⟩
      · rintro (ho | ⟨g, tx, hg, hr, ho⟩)
        · cases hr : s.mapTxLockReq p.1 with
          | none => simp [hr] at ho
          | some tx =>
            exact ⟨p.1, tx, droppedOf_cons.mpr (.inl ⟨rfl, he⟩), hr, by simpa [hr] using ho⟩
        · exact ⟨g, tx, droppedOf_cons.mpr (.inr hg), (hother g tx (hne g hg)).mp hr, ho⟩
    rw [h.locked, hin, removeAll_apply, hex, not_or]
    split
    · next ho => simp [ho]
    · next ho => simp [ho]
  · intro k v
    have hex : (∃ g lock tx, (⟨g, lock⟩ : (_ : Uint256) × CTransactionLock) ∈ p :: l ∧
        isExpired env lock = true ∧ s.mapTxLockReq g = some tx ∧
        k ∈ lock.vecConsensusVotes.map (·.getHash)) ↔
        ((s.mapTxLockReq p.1).isSome = true ∧ k ∈ p.2.vecConsensusVotes.map (·.getHash)) ∨
        ∃ g lock tx, (⟨g, lock⟩ : (_ : Uint256) × CTransactionLock) ∈ l ∧
          isExpired env lock = true ∧ (cleanLock env s p).mapTxLockReq g = some tx ∧
          k ∈ lock.vecConsensusVotes.map (·.getHash) := by
      constructor
      · rintro ⟨g, lock, tx, hm, hx, hr, hk⟩
        rcases mem_locks_cons.mp hm with ⟨rfl, rfl⟩ | hm
        · exact .inl ⟨by simp [hr], hk⟩
        · exact .inr ⟨g, lock, tx, hm, hx, (hother g tx (hne g ⟨lock, hm, hx⟩)).mpr hr, hk⟩
      · rintro (⟨hr, hk⟩ | ⟨g, lock, tx, hm, hx, hr, hk⟩)
        · obtain ⟨tx, hr⟩ := Option.isSome_iff_exists.mp hr
          exact ⟨p.1, p.2, tx, by simp, he, hr, hk⟩
        · exact ⟨g, lock, tx, List.mem_cons_of_mem _ hm, hx,
            (hother g tx (hne g ⟨lock, hm, hx⟩)).mp hr, hk⟩
    rw [h.vote, hvote, hex, not_or]
    by_cases hr : (s.mapTxLockReq p.1).isSome = true
    · rw [if_pos hr, removeAll_apply]
      split
      · next hk => simp [hr, hk]
      · next hk => simp [hk]
    · rw [if_neg hr]
      simp [hr]

lemma cleanedOf_foldl (env : SwiftEnv) {l : List ((_ : Uint256) × CTransactionLock)}
    (hl : l.NodupKeys) (hkey : ∀ p ∈ l, p.2.txHash = p.1) (s : SwiftTX) :
    CleanedOf env l s (l.foldl (cleanLock env) s) := by
  induction l generalizing s with
  | nil => constructor <;> simp [DroppedOf]
  | cons p l ih =>
    obtain ⟨hp, hnd⟩ := List.nodupKeys_cons.mp hl
    have hrest := ih hnd (fun q hq => hkey q (List.mem_cons_of_mem _ hq)) (cleanLock env s p)
    rw [List.foldl_cons]
    cases he : isExpired env p.2 with
    | true =>
      refine cleanedOf_cons_of_expired (hkey p (by simp)) ?_ he hrest
      intro lock hm
      exact hp (List.mem_keys_of_mem (s := ⟨p.1, lock⟩) hm)
    | false =>
      rw [cleanLock_of_fresh he] at hrest ⊢
      have hd : ∀ h, DroppedOf env (p :: l) h ↔ DroppedOf env l h := by
        intro h
        simp [droppedOf_cons, he]
      refine ⟨by simpa [hd] using hrest.lock, by simpa [hd] using hrest.req,
        by simpa [hd] using hrest.rejected, by simpa [hd] using hrest.locked, ?_⟩
      intro k v
      rw [hrest.vote]
      refine and_congr_right fun _ => not_congr ?_
      constructor
      · rintro ⟨g, lock, tx, hm, hx⟩
        exact ⟨g, lock, tx, List.mem_cons_of_mem _ hm, hx⟩
      · rintro ⟨g, lock, tx, hm, hx, hrest⟩
        rcases mem_locks_cons.mp hm with ⟨rfl, rfl⟩ | hm
        · rw [he] at hx
          cases hx
        · exact ⟨g, lock, tx, hm, hx, hrest⟩

/-- The lock of a transaction has expired. -/
def Dropped (env : SwiftEnv) (s : SwiftTX) (h : Uint256) : Prop :=
  ∃ lock, s.mapTxLocks.lookup h = some lock ∧ isExpired env lock = true

/-- **What a cleanup does**: every lock that has expired is dropped. -/
structure Cleaned (env : SwiftEnv) (s s' : SwiftTX) : Prop where
  lock : ∀ h lock, s'.mapTxLocks.lookup h = some lock ↔
    s.mapTxLocks.lookup h = some lock ∧ ¬Dropped env s h
  req : ∀ h tx, s'.mapTxLockReq h = some tx ↔ s.mapTxLockReq h = some tx ∧ ¬Dropped env s h
  rejected : ∀ h tx, s'.mapTxLockReqRejected h = some tx ↔ s.mapTxLockReqRejected h = some tx ∧
    ¬(Dropped env s h ∧ ∃ tx', s.mapTxLockReq h = some tx')
  locked : ∀ o h, s'.mapLockedInputs o = some h ↔ s.mapLockedInputs o = some h ∧
    ¬∃ g tx, Dropped env s g ∧ s.mapTxLockReq g = some tx ∧ o ∈ tx.vin.map (·.prevout)
  vote : ∀ k v, s'.mapTxLockVote k = some v ↔ s.mapTxLockVote k = some v ∧
    ¬∃ g lock tx, s.mapTxLocks.lookup g = some lock ∧ isExpired env lock = true ∧
      s.mapTxLockReq g = some tx ∧ k ∈ lock.vecConsensusVotes.map (·.getHash)

theorem cleanTransactionLocksList_spec (env : SwiftEnv) {s : SwiftTX}
    (hkey : ∀ h lock, s.mapTxLocks.lookup h = some lock → lock.txHash = h) :
    (env.hasTip = false ∧ s.cleanTransactionLocksList env = s) ∨
      (env.hasTip = true ∧ Cleaned env s (s.cleanTransactionLocksList env)) := by
  unfold cleanTransactionLocksList
  cases ht : env.hasTip with
  | false => exact .inl ⟨rfl, rfl⟩
  | true =>
    have hmem : ∀ h lock, s.mapTxLocks.lookup h = some lock ↔
        (⟨h, lock⟩ : (_ : Uint256) × CTransactionLock) ∈ s.mapTxLocks.entries :=
      fun h lock => AList.mem_lookup_iff
    have hd : ∀ h, DroppedOf env s.mapTxLocks.entries h ↔ Dropped env s h := by
      intro h
      simp only [DroppedOf, Dropped, hmem]
    obtain ⟨hlock, hreq, hrej, hin, hvote⟩ := cleanedOf_foldl env s.mapTxLocks.nodupKeys
      (fun p hp => hkey p.1 p.2 ((hmem p.1 p.2).mpr hp)) s
    simp only [hd] at hlock hreq hrej hin
    simp only [← hmem] at hvote
    exact .inr ⟨rfl, hlock, hreq, hrej, hin, hvote⟩

/-! ### One step -/

/-- The node takes messages of instant transactions. -/
def listens (env : SwiftEnv) : Bool :=
  !env.fLiteMode && env.isSwiftTXActive && env.isBlockchainSynced

lemma listens_eq_true : listens env = true ↔
    env.fLiteMode = false ∧ env.isSwiftTXActive = true ∧ env.isBlockchainSynced = true := by
  simp [listens, and_assoc]

lemma processMessageSwiftTX_of_not_listens (h : listens env = false) (s : SwiftTX)
    (msg : SwiftMsg) : s.processMessageSwiftTX env msg = (s, []) := by
  unfold processMessageSwiftTX
  split_ifs
  · rfl
  · rfl
  · rfl
  · simp_all [listens]

/-- **What a step can do.** -/
theorem step_cases (env : SwiftEnv) (s : SwiftTX) (ev : SwiftEvent) :
    s.step env ev = s ∨
      (∃ tx, ev = .message (.ix tx) ∧ listens env = true ∧ s.step env ev = (s.processIX env tx).1) ∨
      (∃ ctx, ev = .message (.txlvote ctx) ∧ listens env = true ∧
        s.step env ev = (s.processVote env ctx).1) ∨
      (ev = .clean ∧ s.step env ev = s.cleanTransactionLocksList env) := by
  cases ev with
  | message msg =>
    cases hl : listens env with
    | false =>
      left
      rw [step, processMessageSwiftTX_of_not_listens hl]
    | true =>
      right
      obtain ⟨hlite, hspork, hsync⟩ := listens_eq_true.mp hl
      cases msg with
      | ix tx => exact .inl ⟨tx, rfl, rfl,
        by simp [step, processMessageSwiftTX, hlite, hspork, hsync]⟩
      | txlvote ctx =>
        exact .inr (.inl ⟨ctx, rfl, rfl,
            by simp [step, processMessageSwiftTX, hlite, hspork, hsync]⟩)
  | clean => exact .inr (.inr (.inr ⟨rfl, rfl⟩))
  | newBlock => exact .inl rfl

end SwiftTX

end Agenor
