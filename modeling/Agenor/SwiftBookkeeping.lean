import Agenor.SwiftConsensus

/-!
The five maps of instant transactions against each other.

A request is kept under its own hash, a lock counts no masternode twice, and a cleanup takes along
everything that belongs to the locks it drops and nothing else. Three things get in the way:
requests that the memory pool refuses, votes that are remembered although they fail their checks,
and requests that share an input or are not known when their lock is dropped.
-/

namespace Agenor

open Lib Lib.Patch

namespace SwiftTX

variable {env : SwiftEnv} {s : SwiftTX} {tx : CTransaction} {ctx : CConsensusVote}

/-- The request of every lock that is dropped is known, and none of its inputs is locked for a
lock that stays. -/
def CleanOk (env : SwiftEnv) (s : SwiftTX) : Prop :=
  ∀ h, Dropped env s h → ∃ tx, s.mapTxLockReq h = some tx ∧
    ∀ o ∈ tx.vin.map (·.prevout), ∀ g, s.mapLockedInputs o = some g → Dropped env s g

/-- The steps that keep the books in order. -/
structure OrderlyStep (s : SwiftTX) (a : SwiftEnv × SwiftEvent) : Prop where
  /-- A request that gets to the memory pool is accepted, or its lock is complete already and in
  conflict with no other. -/
  request : ∀ tx, a.2 = .message (.ix tx) → listens a.1 = true → IsNewRequest a.1 s tx →
    (s.createNewLock a.1 tx).2.acceptToMemoryPool a.1 tx = true ∨
      ((s.createNewLock a.1 tx).2.content tx.hash).any (·.isComplete) = true ∧ s.conflicts tx = []
  /-- A vote that is new passes the checks. -/
  vote : ∀ ctx, a.2 = .message (.txlvote ctx) → listens a.1 = true →
    s.mapTxLockVote ctx.getHash = none → isGoodVote a.1 ctx = true
  clean : a.2 = .clean → a.1.hasTip = true → CleanOk a.1 s

/-- What is kept in the maps belongs to a request that is known or to a lock. -/
structure Booked (s : SwiftTX) : Prop where
  req : ∀ h tx, s.mapTxLockReq h = some tx → tx.hash = h
  height : ∀ h lock, s.content h = some lock → lock.nBlockHeight ≠ 0 →
    ∃ tx, s.mapTxLockReq h = some tx
  rejected : ∀ h tx, s.mapTxLockReqRejected h = some tx → ∃ tx', s.mapTxLockReq h = some tx'
  locked : ∀ o h, s.mapLockedInputs o = some h →
    ∃ tx, s.mapTxLockReq h = some tx ∧ o ∈ tx.vin.map (·.prevout)
  vote : ∀ k v, s.mapTxLockVote k = some v → v.getHash = k ∧
    ∃ lock, s.content v.txHash = some lock ∧ v ∈ lock.vecConsensusVotes

lemma booked_initial : Booked initial := by
  constructor <;> simp [initial, content]

lemma createNewLock_content (env : SwiftEnv) (s : SwiftTX) (tx : CTransaction) :
    (∀ h lock, (s.createNewLock env tx).2.content h = some lock →
      h = tx.hash ∨ s.content h = some lock) ∧
    ∀ h lock, s.content h = some lock → ∃ lock', (s.createNewLock env tx).2.content h = some lock' ∧
      lock'.vecConsensusVotes = lock.vecConsensusVotes := by
  obtain ⟨-, hc | ⟨n, hc⟩⟩ := createNewLock_spec env s tx
  · rw [hc]
    exact ⟨fun h lock hl => .inr hl, fun h lock hl => ⟨lock, hl, rfl⟩⟩
  · rw [hc]
    refine ⟨?_, ?_⟩
    · intro h lock hl
      by_cases hh : h = tx.hash
      · exact .inl hh
      · rw [Function.update_of_ne hh] at hl
        exact .inr hl
    · intro h lock hl
      by_cases hh : h = tx.hash
      · subst hh
        rw [Function.update_self]
        exact ⟨_, rfl, by simp [contentOr, hl]⟩
      · rw [Function.update_of_ne hh]
        exact ⟨lock, hl, rfl⟩

lemma Booked.add (h : Booked s) (env : SwiftEnv) {s' : SwiftTX}
    (hreq : s'.mapTxLockReq = Function.update s.mapTxLockReq tx.hash (some tx))
    (hrej : ∀ g t, s'.mapTxLockReqRejected g = some t →
      g = tx.hash ∨ s.mapTxLockReqRejected g = some t)
    (hlocked : ∀ o g, s'.mapLockedInputs o = some g →
      (g = tx.hash ∧ o ∈ tx.vin.map (·.prevout)) ∨ s.mapLockedInputs o = some g)
    (hnew : s.mapTxLockReq tx.hash = none) (hvote : s'.mapTxLockVote = s.mapTxLockVote)
    (hcontent : s'.content = (s.createNewLock env tx).2.content) : Booked s' := by
  obtain ⟨hback, hforth⟩ := createNewLock_content env s tx
  have hself : s'.mapTxLockReq tx.hash = some tx := by rw [hreq, Function.update_self]
  have hkeep : ∀ g t, s.mapTxLockReq g = some t → s'.mapTxLockReq g = some t := by
    intro g t hg
    have hne : g ≠ tx.hash := by
      rintro rfl
      rw [hnew] at hg
      cases hg
    rw [hreq, Function.update_of_ne hne]
    exact hg
  constructor
  · intro g t hg
    by_cases hgk : g = tx.hash
    · subst hgk
      rw [hself] at hg
      exact Option.some.inj hg ▸ rfl
    · rw [hreq, Function.update_of_ne hgk] at hg
      exact h.req g t hg
  · intro g lock hl hn
    rw [hcontent] at hl
    rcases hback g lock hl with rfl | hl
    · exact ⟨tx, hself⟩
    · obtain ⟨t, ht⟩ := h.height g lock hl hn
      exact ⟨t, hkeep g t ht⟩
  · intro g t hg
    rcases hrej g t hg with rfl | hg
    · exact ⟨tx, hself⟩
    · obtain ⟨t', ht'⟩ := h.rejected g t hg
      exact ⟨t', hkeep g t' ht'⟩
  · intro o g hl
    rcases hlocked o g hl with ⟨rfl, ho⟩ | hl
    · exact ⟨tx, hself, ho⟩
    · obtain ⟨t, ht, ho⟩ := h.locked o g hl
      exact ⟨t, hkeep g t ht, ho⟩
  · intro k v hv
    rw [hvote] at hv
    obtain ⟨hk, lock, hl, hmem⟩ := h.vote k v hv
    obtain ⟨lock', hl', hvec⟩ := hforth _ lock hl
    exact ⟨hk, lock', by rw [hcontent]; exact hl', by rw [hvec]; exact hmem⟩

lemma Booked.processIX (h : Booked s) (hok : IsNewRequest env s tx →
    (s.createNewLock env tx).2.acceptToMemoryPool env tx = true ∨
      ((s.createNewLock env tx).2.content tx.hash).any (·.isComplete) = true ∧
        s.conflicts tx = []) : Booked (s.processIX env tx).1 := by
  obtain ⟨hsame, -⟩ := createNewLock_spec env s tx
  rcases processIX_cases env s tx with hs | ⟨hnew, ⟨-, hs⟩ | ⟨hno, hs⟩⟩
  · rw [hs]
    exact h
  · rw [hs]
    refine h.add env rfl ?_ ?_ hnew.1 hsame.vote rfl
    · intro g t hg
      exact .inr (hsame.rejected ▸ hg)
    · intro o g hl
      exact .inr (hsame.locked ▸ hl)
  · have hdone : ((s.createNewLock env tx).2.content tx.hash).any (·.isComplete) = true ∧
        s.conflicts tx = [] := by
      rcases hok hnew with hacc | hdone
      · rw [hacc] at hno
        cases hno
      · exact hdone
    refine h.add env ?_ ?_ ?_ hnew.1 hs.vote hs.content
    · rw [hs.req, if_pos hdone]
    · intro g t hg
      rw [hs.rejected] at hg
      by_cases hgk : g = tx.hash
      · exact .inl hgk
      · rw [Function.update_of_ne hgk] at hg
        exact .inr hg
    · intro o g hl
      rw [hs.locked] at hl
      rcases lockInputs_eq_some hl with hl | ⟨-, rfl, ho⟩
      · exact .inr hl
      · exact .inl ⟨rfl, ho⟩

lemma Booked.req_of_complete (h : Booked s) (hc : (s.signed ctx).isComplete = true) :
    ∃ t, s.mapTxLockReq ctx.txHash = some t := by
  have hn : (s.contentOr 0 ctx.txHash).nBlockHeight ≠ 0 := by
    intro hn
    have : (s.signed ctx).countSignatures = -1 := if_pos hn
    rw [CTransactionLock.isComplete, this] at hc
    simp [SWIFTTX_SIGNATURES_REQUIRED] at hc
  cases hl : s.content ctx.txHash with
  | none => simp [contentOr, hl] at hn
  | some lock =>
    refine h.height ctx.txHash lock hl ?_
    simpa [contentOr, hl] using hn

lemma Booked.processVote (h : Booked s)
    (hok : s.mapTxLockVote ctx.getHash = none → isGoodVote env ctx = true) :
    Booked (s.processVote env ctx).1 := by
  rcases processVote_cases env s ctx with hs | ⟨hnew, hvote, hrej, ⟨hbad, -⟩ | ⟨-, hcount⟩⟩
  · rw [hs]
    exact h
  · rw [hok hnew] at hbad
    cases hbad
  · -- completing a lock puts its request where it is already
    have hreq : (s.processVote env ctx).1.mapTxLockReq = s.mapTxLockReq := by
      cases hc : (s.signed ctx).isComplete with
      | false => exact (hcount.pending hc).1
      | true =>
        obtain ⟨t, ht⟩ := h.req_of_complete hc
        rw [hcount.req hc, ht, Option.getD_some, ← ht, Function.update_eq_self]
    have hlocked : ∀ o g, (s.processVote env ctx).1.mapLockedInputs o = some g →
        s.mapLockedInputs o = some g ∨
          ∃ t, s.mapTxLockReq ctx.txHash = some t ∧ g = ctx.txHash ∧ o ∈ t.vin.map (·.prevout) := by
      intro o g hl
      cases hc : (s.signed ctx).isComplete with
      | false =>
        rw [(hcount.pending hc).2] at hl
        exact .inl hl
      | true =>
        obtain ⟨t, ht⟩ := h.req_of_complete hc
        rcases hcount.locked hc with hsame | hlock
        · exact .inl (hsame ▸ hl)
        · rw [hlock, ht, Option.getD_some] at hl
          rcases lockInputs_eq_some hl with hl | ⟨-, rfl, ho⟩
          · exact .inl hl
          · exact .inr ⟨t, ht, rfl, ho⟩
    constructor
    · rw [hreq]
      exact h.req
    · intro g lock hl hn
      rw [hreq]
      rw [hcount.content] at hl
      by_cases hg : g = ctx.txHash
      · subst hg
        rw [Function.update_self] at hl
        obtain rfl := Option.some.inj hl
        cases hl : s.content ctx.txHash with
        | none => simp [signed, contentOr, hl, CTransactionLock.addSignature] at hn
        | some lock =>
          refine h.height _ lock hl ?_
          simpa [signed, contentOr, hl, CTransactionLock.addSignature] using hn
      · rw [Function.update_of_ne hg] at hl
        exact h.height g lock hl hn
    · rw [hreq, hrej]
      exact h.rejected
    · intro o g hl
      rw [hreq]
      rcases hlocked o g hl with hl | ⟨t, ht, rfl, ho⟩
      · exact h.locked o g hl
      · exact ⟨t, ht, ho⟩
    · intro k v hv
      rw [hvote] at hv
      rw [hcount.content]
      by_cases hk : k = ctx.getHash
      · subst hk
        rw [Function.update_self] at hv
        obtain rfl := Option.some.inj hv
        refine ⟨rfl, s.signed ctx, Function.update_self .., ?_⟩
        exact List.mem_append_right _ (by simp)
      · rw [Function.update_of_ne hk] at hv
        obtain ⟨hkey, lock, hl, hmem⟩ := h.vote k v hv
        refine ⟨hkey, ?_⟩
        by_cases hg : v.txHash = ctx.txHash
        · refine ⟨s.signed ctx, by rw [hg, Function.update_self], ?_⟩
          rw [hg] at hl
          exact List.mem_append_left _ (by simpa [contentOr, hl] using hmem)
        · exact ⟨lock, by rw [Function.update_of_ne hg]; exact hl, hmem⟩

/-! ### Cleaning up -/

/-- Nothing is left of a transaction. -/
structure Forgotten (s : SwiftTX) (h : Uint256) : Prop where
  lock : s.mapTxLocks.lookup h = none
  req : s.mapTxLockReq h = none
  rejected : s.mapTxLockReqRejected h = none
  locked : ∀ o, s.mapLockedInputs o ≠ some h
  vote : ∀ k v, s.mapTxLockVote k = some v → v.txHash ≠ h

/-- Everything that belongs to a transaction is as before. -/
structure Untouched (s s' : SwiftTX) (h : Uint256) : Prop where
  lock : s'.mapTxLocks.lookup h = s.mapTxLocks.lookup h
  req : s'.mapTxLockReq h = s.mapTxLockReq h
  rejected : s'.mapTxLockReqRejected h = s.mapTxLockReqRejected h
  locked : ∀ o, s'.mapLockedInputs o = some h ↔ s.mapLockedInputs o = some h
  vote : ∀ k v, v.txHash = h → (s'.mapTxLockVote k = some v ↔ s.mapTxLockVote k = some v)

variable {s' : SwiftTX}

lemma dropped_of_vote (hv : VotesOk (fun _ => True) s) {g : Uint256} {lock : CTransactionLock}
    {k : Uint256} {v : CConsensusVote} (hl : s.mapTxLocks.lookup g = some lock)
    (he : isExpired env lock = true) (hk : k ∈ lock.vecConsensusVotes.map (·.getHash))
    (hvk : s.mapTxLockVote k = some v) : Dropped env s v.txHash := by
  obtain ⟨v', hv', rfl⟩ := List.mem_map.mp hk
  obtain ⟨hhash, hmap, -⟩ := (hv.lookup hl).mine v' hv'
  rw [hvk] at hmap
  obtain rfl := Option.some.inj hmap
  rw [hhash]
  exact ⟨lock, hl, he⟩

lemma Cleaned.forgotten (hs : Cleaned env s s') (h : Booked s) (hok : CleanOk env s)
    {g : Uint256} (hd : Dropped env s g) : Forgotten s' g := by
  obtain ⟨tx, htx, -⟩ := hok g hd
  constructor
  · rw [Option.eq_none_iff_forall_not_mem]
    intro lock hl
    exact ((hs.lock g lock).mp hl).2 hd
  · rw [Option.eq_none_iff_forall_not_mem]
    intro t ht
    exact ((hs.req g t).mp ht).2 hd
  · rw [Option.eq_none_iff_forall_not_mem]
    intro t ht
    exact ((hs.rejected g t).mp ht).2 ⟨hd, tx, htx⟩
  · intro o ho
    obtain ⟨ho, hkeep⟩ := (hs.locked o g).mp ho
    obtain ⟨t, ht, hin⟩ := h.locked o g ho
    exact hkeep ⟨g, t, hd, ht, hin⟩
  · rintro k v hv rfl
    obtain ⟨hv, hkeep⟩ := (hs.vote k v).mp hv
    obtain ⟨hk, lock, hl, hmem⟩ := h.vote k v hv
    obtain ⟨lock', hl', he⟩ := hd
    rw [content, hl'] at hl
    obtain rfl := Option.some.inj hl
    exact hkeep ⟨v.txHash, lock', tx, hl', he, htx, List.mem_map.mpr ⟨v, hmem, hk⟩⟩

lemma Cleaned.untouched (hs : Cleaned env s s') (hv : VotesOk (fun _ => True) s)
    (hok : CleanOk env s) {g : Uint256} (hd : ¬Dropped env s g) : Untouched s s' g := by
  constructor
  · exact Option.ext fun lock => (hs.lock g lock).trans (and_iff_left hd)
  · exact Option.ext fun t => (hs.req g t).trans (and_iff_left hd)
  · exact Option.ext fun t => (hs.rejected g t).trans (and_iff_left fun h => hd h.1)
  · intro o
    refine ⟨fun ho => ((hs.locked o g).mp ho).1, fun ho => (hs.locked o g).mpr ⟨ho, ?_⟩⟩
    rintro ⟨g', t, hd', ht, hin⟩
    obtain ⟨tx, htx, hshare⟩ := hok g' hd'
    rw [ht] at htx
    obtain rfl := Option.some.inj htx
    exact hd (hshare o hin g ho)
  · rintro k v rfl
    refine ⟨fun h => ((hs.vote k v).mp h).1, fun h => (hs.vote k v).mpr ⟨h, ?_⟩⟩
    rintro ⟨g', lock, t, hl, he, -, hk⟩
    exact hd (dropped_of_vote hv hl he hk h)

lemma Booked.clean (h : Booked s) (hs : Cleaned env s s') (hok : CleanOk env s) : Booked s' := by
  constructor
  · intro g t ht
    exact h.req g t ((hs.req g t).mp ht).1
  · intro g lock' hl' hn
    obtain ⟨lock, hl, rfl⟩ := Option.map_eq_some_iff.mp hl'
    obtain ⟨hl, hd⟩ := (hs.lock g lock).mp hl
    obtain ⟨t, ht⟩ := h.height g lock.untimed (by simp [content, hl]) hn
    exact ⟨t, (hs.req g t).mpr ⟨ht, hd⟩⟩
  · intro g t ht
    obtain ⟨ht, hd⟩ := (hs.rejected g t).mp ht
    obtain ⟨t', ht'⟩ := h.rejected g t ht
    exact ⟨t', (hs.req g t').mpr ⟨ht', fun hdrop => hd ⟨hdrop, t', ht'⟩⟩⟩
  · intro o g ho
    have hd : ¬Dropped env s g := fun hd => (hs.forgotten h hok hd).locked o ho
    obtain ⟨t, ht, hin⟩ := h.locked o g ((hs.locked o g).mp ho).1
    exact ⟨t, (hs.req g t).mpr ⟨ht, hd⟩, hin⟩
  · intro k v hv
    have hd : ¬Dropped env s v.txHash := fun hd => (hs.forgotten h hok hd).vote k v hv rfl
    obtain ⟨hk, lock', hl', hmem⟩ := h.vote k v ((hs.vote k v).mp hv).1
    obtain ⟨lock, hl, rfl⟩ := Option.map_eq_some_iff.mp hl'
    refine ⟨hk, lock.untimed, ?_, hmem⟩
    rw [content, (hs.lock v.txHash lock).mpr ⟨hl, hd⟩]
    rfl

theorem Booked.step (h : Booked s) (hv : VotesOk (fun _ => True) s) {a : SwiftEnv × SwiftEvent}
    (hok : OrderlyStep s a) : Booked (s.act a) := by
  obtain ⟨env, ev⟩ := a
  change Booked (s.step env ev)
  rcases step_cases env s ev with hs | ⟨tx, hev, hl, hs⟩ | ⟨ctx, hev, hl, hs⟩ | ⟨hev, hs⟩
  · rw [hs]
    exact h
  · rw [hs]
    exact h.processIX (hok.request tx hev hl)
  · rw [hs]
    exact h.processVote (hok.vote ctx hev hl)
  · rw [hs]
    rcases cleanTransactionLocksList_spec env (fun g lock hl => (hv.lookup hl).hash) with
      ⟨-, hs⟩ | ⟨htip, hs⟩
    · rw [hs]
      exact h
    · exact h.clean hs (hok.clean hev htip)

/-- **The books are consistent** in every state of a run whose steps are orderly: requests are kept
under their hashes, no masternode is counted twice, and after a cleanup nothing is left of the locks
that have expired, while what belongs to the others is untouched. -/
theorem bookkeeping_consistent {l : List (SwiftEnv × SwiftEvent)}
    (h : Run act OrderlyStep initial l s) :
    (∀ g tx, s.mapTxLockReq g = some tx → tx.hash = g) ∧
    (∀ g lock, s.mapTxLocks.lookup g = some lock →
      (lock.counted.map (·.vinMasternode.prevout)).Nodup) ∧
    ∀ env, env.hasTip = true → OrderlyStep s (env, .clean) → ∀ g lock,
      s.mapTxLocks.lookup g = some lock →
      (isExpired env lock = true → Forgotten (s.step env .clean) g) ∧
      (isExpired env lock = false → Untouched s (s.step env .clean) g) := by
  have hinv : VotesOk (fun _ => True) s ∧ Booked s := by
    refine h.invariant (P := fun s => VotesOk (fun _ => True) s ∧ Booked s)
      ⟨votesOk_initial _, booked_initial⟩ ?_
    rintro s a ⟨hv, hb⟩ hok
    exact ⟨hv.step fun _ _ _ => trivial, hb.step hv hok⟩
  obtain ⟨hv, hb⟩ := hinv
  refine ⟨hb.req, ?_, ?_⟩
  · intro g lock hl
    exact (hv.lookup hl).prevouts_nodup.sublist (List.filter_sublist.map _)
  · intro env htip hok g lock hl
    have hclean : Cleaned env s (s.step env .clean) := by
      rcases cleanTransactionLocksList_spec env (fun g lock hl => (hv.lookup hl).hash) with
        ⟨hno, -⟩ | ⟨-, hs⟩
      · rw [htip] at hno
        cases hno
      · exact hs
    refine ⟨?_, ?_⟩
    · intro he
      exact hclean.forgotten hb (hok.clean rfl htip) ⟨lock, hl, he⟩
    · intro he
      refine hclean.untouched hv (hok.clean rfl htip) ?_
      rintro ⟨lock', hl', he'⟩
      rw [hl] at hl'
      rw [← Option.some.inj hl', he] at he'
      cases he'

open Concrete

lemma orderly_lockRun (n : ℕ) (hn : n ≤ 10) :
    Run act OrderlyStep initial (lockRun true n) ((lockRun true n).foldl act initial) := by
  have h1 : Run act OrderlyStep initial [(swiftEnv 0 true, .message (.ix (lockTx 5)))]
      (initial.act (swiftEnv 0 true, .message (.ix (lockTx 5)))) := by
    refine .snoc .nil ⟨?_, ?_, ?_⟩
    · rintro tx ⟨⟩ - -
      exact .inl (by decide)
    · rintro ctx ⟨⟩
    · rintro ⟨⟩
  refine h1.append ?_
  intro a ha s
  obtain ⟨k, hk, rfl⟩ := List.mem_map.mp ha
  refine ⟨?_, ?_, ?_⟩
  · rintro tx ⟨⟩
  · rintro ctx ⟨⟩ - -
    have hk : k < n := List.mem_range.mp hk
    have hrank : ((k + 1 : ℕ) : ℤ) ≤ 10 ∧ ((k + 1 : ℕ) : ℤ) ≠ -1 := by omega
    simp [isGoodVote, swiftEnv, lockVote, SWIFTTX_SIGNATURES_TOTAL]
    omega
  · rintro ⟨⟩

/-- An accepted request with six votes leaves nothing behind when its lock has expired. -/
theorem bookkeeping_consistent_six_votes :
    ∃ s, Run act OrderlyStep initial (lockRun true 6) s ∧ s.mapLockedInputs ⟨7, 0⟩ = some 5 ∧
      Forgotten (s.step (swiftEnv 4000 true) .clean) 5 := by
  have hrun := orderly_lockRun 6 (by decide)
  generalize hs : (lockRun true 6).foldl act initial = s at hrun
  have hlocked : s.mapLockedInputs ⟨7, 0⟩ = some 5 := by
    subst hs
    decide
  have hreq : s.mapTxLockReq 5 = some (lockTx 5) := by
    subst hs
    decide
  have hkeys : s.mapTxLocks.keys = [5] := by
    subst hs
    decide
  have hexp : (s.mapTxLocks.lookup 5).any (isExpired (swiftEnv 4000 true)) = true := by
    subst hs
    decide
  obtain ⟨lock, hl, he⟩ := (Option.any_eq_true ..).mp hexp
  have hdrop : Dropped (swiftEnv 4000 true) s 5 := ⟨lock, hl, he⟩
  have hclean : CleanOk (swiftEnv 4000 true) s := by
    rintro g ⟨lock', hl', -⟩
    have hg : g ∈ s.mapTxLocks.keys := AList.mem_keys.mpr (AList.lookup_isSome.mp (by simp [hl']))
    rw [hkeys, List.mem_singleton] at hg
    subst hg
    refine ⟨lockTx 5, hreq, ?_⟩
    intro o ho g hg
    rw [show o = ⟨7, 0⟩ by simpa [lockTx] using ho, hlocked] at hg
    exact Option.some.inj hg ▸ hdrop
  have hok : OrderlyStep s (swiftEnv 4000 true, .clean) :=
    ⟨by rintro tx ⟨⟩, by rintro ctx ⟨⟩, fun _ _ => hclean⟩
  exact ⟨s, hrun, hlocked,
    ((bookkeeping_consistent hrun).2.2 (swiftEnv 4000 true) rfl hok 5 lock hl).1 he⟩

/-- The votes for a request that was refused make an empty transaction the request, under a hash
that is not its own. -/
theorem complete_lock_of_refused_request :
    ∃ s tx, Run act (fun _ _ => True) initial (lockRun false 6) s ∧
      s.mapTxLockReq 5 = some tx ∧ tx.hash ≠ 5 :=
  ⟨_, emptyTransaction, Run.nil.append (m := lockRun false 6) fun _ _ _ => trivial, by decide,
    by decide⟩

end SwiftTX

end Agenor
