import Agenor.SwiftLocks
import Agenor.CheckBlock
import Agenor.Lib.Run

/-!
Locked inputs and the agreement of the masternodes.

An input is locked when the votes for a transaction that spends it are complete, and also when a
lock request is refused by the memory pool. Without the second way every locked input goes back to
a lock that was complete.
-/

namespace Agenor

open Lib Lib.Patch Lib.Fallible

namespace SwiftTX

variable {env : SwiftEnv} {s : SwiftTX} {tx : CTransaction} {ctx : CConsensusVote}
variable {good : CConsensusVote → Prop}

/-! ### The votes of a lock -/

/-- The votes of a lock are for its transaction, are remembered, have passed their checks and are
all different. -/
structure LockOk (good : CConsensusVote → Prop) (votes : Uint256 → Option CConsensusVote)
    (h : Uint256) (lock : CTransactionLock) : Prop where
  hash : lock.txHash = h
  mine : ∀ v ∈ lock.vecConsensusVotes, v.txHash = h ∧ votes v.getHash = some v ∧ good v
  nodup : (lock.vecConsensusVotes.map (·.getHash)).Nodup

def VotesOk (good : CConsensusVote → Prop) (s : SwiftTX) : Prop :=
  ∀ h lock, s.content h = some lock → LockOk good s.mapTxLockVote h lock

lemma votesOk_initial (good : CConsensusVote → Prop) : VotesOk good initial := by
  intro h lock hl
  simp [content, initial] at hl

lemma VotesOk.lookup (h : VotesOk good s) {g : Uint256} {lock : CTransactionLock}
    (hl : s.mapTxLocks.lookup g = some lock) : LockOk good s.mapTxLockVote g lock := by
  obtain ⟨hhash, hmine, hnd⟩ := h g lock.untimed (by simp [content, hl])
  exact ⟨hhash, hmine, hnd⟩

lemma VotesOk.mono {good' : CConsensusVote → Prop} (h : VotesOk good s)
    (hg : ∀ v, good v → good' v) : VotesOk good' s := by
  intro g lock hl
  obtain ⟨hhash, hmine, hnd⟩ := h g lock hl
  refine ⟨hhash, ?_, hnd⟩
  intro v hv
  obtain ⟨h1, h2, h3⟩ := hmine v hv
  exact ⟨h1, h2, hg v h3⟩

lemma VotesOk.contentOr (h : VotesOk good s) (n : ℤ) (g : Uint256) :
    LockOk good s.mapTxLockVote g (s.contentOr n g) := by
  unfold SwiftTX.contentOr
  cases hl : s.content g with
  | none => exact ⟨rfl, by simp, by simp⟩
  | some lock => exact h g lock hl

lemma VotesOk.update (h : VotesOk good s) {s' : SwiftTX} {g : Uint256} {lock : CTransactionLock}
    (hvote : s'.mapTxLockVote = s.mapTxLockVote) (hlock : LockOk good s.mapTxLockVote g lock)
    (hc : s'.content = Function.update s.content g (some lock)) : VotesOk good s' := by
  intro g' lock' hl
  rw [hc] at hl
  rw [hvote]
  by_cases hg : g' = g
  · subst hg
    rw [Function.update_self] at hl
    exact Option.some.inj hl ▸ hlock
  · rw [Function.update_of_ne hg] at hl
    exact h g' lock' hl

lemma VotesOk.createNewLock (h : VotesOk good s) (env : SwiftEnv) (tx : CTransaction) :
    VotesOk good (s.createNewLock env tx).2 := by
  obtain ⟨hsame, hc | ⟨n, hc⟩⟩ := createNewLock_spec env s tx
  · intro g lock hl
    rw [hc] at hl
    rw [hsame.vote]
    exact h g lock hl
  · obtain ⟨hhash, hmine, hnd⟩ := h.contentOr n tx.hash
    have hlock : LockOk good s.mapTxLockVote tx.hash
        { s.contentOr n tx.hash with nBlockHeight := n } := ⟨hhash, hmine, hnd⟩
    exact h.update hsame.vote hlock hc

lemma VotesOk.processIX (h : VotesOk good s) (env : SwiftEnv) (tx : CTransaction) :
    VotesOk good (s.processIX env tx).1 := by
  obtain ⟨hsame, -⟩ := createNewLock_spec env s tx
  have h₁ := h.createNewLock env tx
  rcases processIX_cases env s tx with hs | ⟨-, ⟨-, hs⟩ | ⟨-, hs⟩⟩
  · rw [hs]
    exact h
  · rw [hs]
    exact h₁
  · intro g lock hl
    rw [hs.content] at hl
    rw [hs.vote, ← hsame.vote]
    exact h₁ g lock hl

lemma LockOk.remember {g : Uint256} {lock : CTransactionLock}
    {votes : Uint256 → Option CConsensusVote} (h : LockOk good votes g lock)
    (hnew : votes ctx.getHash = none) :
    LockOk good (Function.update votes ctx.getHash (some ctx)) g lock ∧
      ctx.getHash ∉ lock.vecConsensusVotes.map (·.getHash) := by
  have hne : ∀ v ∈ lock.vecConsensusVotes, v.getHash ≠ ctx.getHash := by
    intro v hv hk
    have hv := (h.mine v hv).2.1
    rw [hk, hnew] at hv
    cases hv
  refine ⟨⟨h.hash, ?_, h.nodup⟩, ?_⟩
  · intro v hv
    rw [Function.update_of_ne (hne v hv)]
    exact h.mine v hv
  · intro hk
    obtain ⟨v, hv, hk⟩ := List.mem_map.mp hk
    exact hne v hv hk

lemma VotesOk.processVote (h : VotesOk good s)
    (hgood : isGoodVote env ctx = true → good ctx) : VotesOk good (s.processVote env ctx).1 := by
  rcases processVote_cases env s ctx with hs | ⟨hnew, hvote, -, ⟨-, hc, -, -⟩ | ⟨hg, hcount⟩⟩
  · rw [hs]
    exact h
  · intro g lock hl
    rw [hc] at hl
    rw [hvote]
    exact ((h g lock hl).remember hnew).1
  · have hlock := h.contentOr 0 ctx.txHash
    obtain ⟨⟨hhash, hmine, hnd⟩, hfresh⟩ := hlock.remember hnew
    intro g lock hl
    rw [hcount.content] at hl
    rw [hvote]
    by_cases hgk : g = ctx.txHash
    · subst hgk
      rw [Function.update_self] at hl
      obtain rfl := Option.some.inj hl
      refine ⟨hhash, ?_, ?_⟩
      · intro v hv
        rcases List.mem_append.mp hv with hv | hv
        · exact hmine v hv
        · obtain rfl := List.mem_singleton.mp hv
          exact ⟨rfl, Function.update_self .., hgood hg⟩
      · change (((s.contentOr 0 ctx.txHash).vecConsensusVotes ++ [ctx]).map (·.getHash)).Nodup
        rw [List.map_append, List.nodup_append]
        refine ⟨hnd, by simp, ?_⟩
        intro k hk k' hk' hkk
        rw [List.map_singleton, List.mem_singleton] at hk'
        subst hkk hk'
        exact hfresh hk
    · rw [Function.update_of_ne hgk] at hl
      exact ((h g lock hl).remember hnew).1

lemma VotesOk.clean (h : VotesOk good s) (env : SwiftEnv) :
    VotesOk good (s.cleanTransactionLocksList env) := by
  rcases cleanTransactionLocksList_spec env (fun g lock hl => (h.lookup hl).hash) with
    ⟨-, hs⟩ | ⟨-, hs⟩
  · rw [hs]
    exact h
  · intro g lock' hl'
    obtain ⟨lock, hl, rfl⟩ := Option.map_eq_some_iff.mp hl'
    obtain ⟨hl, hkeep⟩ := (hs.lock g lock).mp hl
    obtain ⟨hhash, hmine, hnd⟩ := h.lookup hl
    refine ⟨hhash, ?_, hnd⟩
    intro v hv
    obtain ⟨h1, h2, h3⟩ := hmine v hv
    refine ⟨h1, (hs.vote v.getHash v).mpr ⟨h2, ?_⟩, h3⟩
    -- a vote with the same hash in a dropped lock would be the same vote
    rintro ⟨g', lock', tx, hl', he, -, hk⟩
    obtain ⟨v', hv', hk⟩ := List.mem_map.mp hk
    obtain ⟨h1', h2', -⟩ := (h.lookup hl').mine v' hv'
    rw [hk, h2] at h2'
    obtain rfl := Option.some.inj h2'
    subst h1 h1'
    exact hkeep ⟨lock', hl', he⟩

/-- **The votes of every lock stay in order**, whatever happens. -/
theorem VotesOk.step (h : VotesOk good s) {ev : SwiftEvent}
    (hgood : ∀ ctx, ev = .message (.txlvote ctx) → isGoodVote env ctx = true → good ctx) :
    VotesOk good (s.step env ev) := by
  rcases step_cases env s ev with hs | ⟨tx, -, -, hs⟩ | ⟨ctx, hev, -, hs⟩ | ⟨-, hs⟩
  · rw [hs]
    exact h
  · rw [hs]
    exact h.processIX env tx
  · rw [hs]
    exact h.processVote (hgood ctx hev)
  · rw [hs]
    exact h.clean env

lemma LockOk.prevouts_nodup {votes : Uint256 → Option CConsensusVote} {g : Uint256}
    {lock : CTransactionLock} (h : LockOk good votes g lock) :
    (lock.vecConsensusVotes.map (·.vinMasternode.prevout)).Nodup := by
  have hmap : lock.vecConsensusVotes.map (·.getHash) =
      (lock.vecConsensusVotes.map (·.vinMasternode.prevout)).map
        fun o => o.hash + BitVec.ofNat 256 o.n + g := by
    rw [List.map_map]
    apply List.map_congr_left
    intro v hv
    simp [CConsensusVote.getHash, (h.mine v hv).1]
  exact List.Nodup.of_map _ (hmap ▸ h.nodup)

/-! ### Where locked inputs come from -/

/-- A request is backed when the memory pool takes it, when its lock is complete, or when its
inputs are locked already, so that refusing it locks nothing. -/
def Backed (env : SwiftEnv) (s : SwiftTX) (tx : CTransaction) : Prop :=
  (s.createNewLock env tx).2.acceptToMemoryPool env tx = true ∨
    ((s.createNewLock env tx).2.content tx.hash).any (·.isComplete) = true ∨
    ∀ i ∈ tx.vin, (s.mapLockedInputs i.prevout).isSome = true

/-- The steps at which every request that gets to the memory pool is backed. -/
def BackedStep (s : SwiftTX) (a : SwiftEnv × SwiftEvent) : Prop :=
  ∀ tx, a.2 = .message (.ix tx) → listens a.1 = true → IsNewRequest a.1 s tx → Backed a.1 s tx

variable {known : CTransaction → Prop} {done : Uint256 → Prop}

/-- Every request is a transaction that was sent under its hash, or empty, and every locked input
belongs to a transaction that was sent and whose lock was complete. -/
structure Sound (known : CTransaction → Prop) (done : Uint256 → Prop) (s : SwiftTX) : Prop where
  req : ∀ h tx, s.mapTxLockReq h = some tx → (known tx ∧ tx.hash = h) ∨ tx.vin = []
  locked : ∀ o h, s.mapLockedInputs o = some h →
    done h ∧ ∃ tx, known tx ∧ tx.hash = h ∧ o ∈ tx.vin.map (·.prevout)

lemma Sound.mono {known' : CTransaction → Prop} {done' : Uint256 → Prop} (h : Sound known done s)
    (hk : ∀ tx, known tx → known' tx) (hd : ∀ g, done g → done' g) : Sound known' done' s := by
  refine ⟨?_, ?_⟩
  · intro g tx hr
    exact (h.req g tx hr).imp_left (And.imp_left (hk tx))
  · intro o g hl
    obtain ⟨hdone, tx, hkn, hrest⟩ := h.locked o g hl
    exact ⟨hd g hdone, tx, hk tx hkn, hrest⟩

lemma Sound.update_req (h : Sound known done s) {g g' : Uint256} {t t' : CTransaction}
    (ht : (known t ∧ t.hash = g) ∨ t.vin = [])
    (hr : Function.update s.mapTxLockReq g (some t) g' = some t') :
    (known t' ∧ t'.hash = g') ∨ t'.vin = [] := by
  by_cases hg : g' = g
  · subst hg
    rw [Function.update_self] at hr
    exact Option.some.inj hr ▸ ht
  · rw [Function.update_of_ne hg] at hr
    exact h.req g' t' hr

lemma Sound.processIX (h : Sound known done s) (hk : known tx) (hb : IsNewRequest env s tx →
      Backed env s tx)
    (hd : ∀ lock, (s.processIX env tx).1.content tx.hash = some lock → lock.isComplete = true →
      done tx.hash) : Sound known done (s.processIX env tx).1 := by
  obtain ⟨hsame, -⟩ := createNewLock_spec env s tx
  have hput : ∀ g t', Function.update s.mapTxLockReq tx.hash (some tx) g = some t' →
      (known t' ∧ t'.hash = g) ∨ t'.vin = [] :=
    fun g t' hr => h.update_req (.inl ⟨hk, rfl⟩) hr
  rcases processIX_cases env s tx with hs | ⟨hnew, ⟨-, hs⟩ | ⟨hno, hs⟩⟩
  · rw [hs]
    exact h
  · rw [hs]
    refine ⟨hput, ?_⟩
    intro o g hl
    exact h.locked o g (hsame.locked ▸ hl)
  · refine ⟨?_, ?_⟩
    · intro g t' hr
      rw [hs.req] at hr
      split at hr
      · exact hput g t' hr
      · exact h.req g t' hr
    · intro o g hl
      rw [hs.locked] at hl
      rcases lockInputs_eq_some hl with hl | ⟨hfree, rfl, ho⟩
      · exact h.locked o g hl
      · refine ⟨?_, tx, hk, rfl, ho⟩
        -- an input was free, so only a complete lock is left of the three reasons
        rcases hb hnew with hacc | hcomp | hall
        · rw [hacc] at hno
          cases hno
        · obtain ⟨lock, hlock, hcomp⟩ := (Option.any_eq_true ..).mp hcomp
          exact hd lock (hs.content ▸ hlock) hcomp
        · obtain ⟨i, hi, rfl⟩ := List.mem_map.mp ho
          have := hall i hi
          rw [hfree] at this
          cases this

lemma Sound.processVote (h : Sound known done s)
    (hd : ∀ lock, (s.processVote env ctx).1.content ctx.txHash = some lock →
      lock.isComplete = true → done ctx.txHash) : Sound known done (s.processVote env ctx).1 := by
  rcases processVote_cases env s ctx with hs | ⟨-, -, -, ⟨-, -, hr, hl⟩ | ⟨-, hcount⟩⟩
  · rw [hs]
    exact h
  · exact ⟨fun g t => by rw [hr]; exact h.req g t, fun o g => by rw [hl]; exact h.locked o g⟩
  · cases hc : (s.signed ctx).isComplete with
    | false =>
      obtain ⟨hr, hl⟩ := hcount.pending hc
      exact ⟨fun g t => by rw [hr]; exact h.req g t, fun o g => by rw [hl]; exact h.locked o g⟩
    | true =>
      -- the request of a complete lock, empty when there was none
      have ht : (known ((s.mapTxLockReq ctx.txHash).getD emptyTransaction) ∧
          ((s.mapTxLockReq ctx.txHash).getD emptyTransaction).hash = ctx.txHash) ∨
          ((s.mapTxLockReq ctx.txHash).getD emptyTransaction).vin = [] := by
        cases hr : s.mapTxLockReq ctx.txHash with
        | none => exact .inr rfl
        | some t => exact h.req _ t hr
      refine ⟨?_, ?_⟩
      · intro g t hr
        rw [hcount.req hc] at hr
        exact h.update_req ht hr
      · intro o g hl
        rcases hcount.locked hc with hsame | hnew
        · exact h.locked o g (hsame ▸ hl)
        · rw [hnew] at hl
          rcases lockInputs_eq_some hl with hl | ⟨-, rfl, ho⟩
          · exact h.locked o g hl
          · refine ⟨hd (s.signed ctx) ?_ hc, ?_⟩
            · rw [hcount.content, Function.update_self]
            · rcases ht with ⟨hk, hhash⟩ | hnil
              · exact ⟨_, hk, hhash, ho⟩
              · rw [hnil] at ho
                cases ho

lemma Sound.clean (h : Sound known done s) (hv : VotesOk good s) (env : SwiftEnv) :
    Sound known done (s.cleanTransactionLocksList env) := by
  rcases cleanTransactionLocksList_spec env (fun g lock hl => (hv.lookup hl).hash) with
    ⟨-, hs⟩ | ⟨-, hs⟩
  · rw [hs]
    exact h
  · refine ⟨?_, ?_⟩
    · intro g t hr
      exact h.req g t ((hs.req g t).mp hr).1
    · intro o g hl
      exact h.locked o g ((hs.locked o g).mp hl).1

theorem Sound.step (h : Sound known done s) (hv : VotesOk good s) {ev : SwiftEvent}
    (hok : BackedStep s (env, ev)) (hk : ∀ tx, ev = .message (.ix tx) → known tx)
    (hd : ∀ g lock, (s.step env ev).content g = some lock → lock.isComplete = true → done g) :
    Sound known done (s.step env ev) := by
  rcases step_cases env s ev with hs | ⟨tx, hev, hl, hs⟩ | ⟨ctx, -, -, hs⟩ | ⟨-, hs⟩
  · rw [hs]
    exact h
  · rw [hs] at hd ⊢
    exact h.processIX (hk tx hev) (hok tx hev hl) (hd tx.hash)
  · rw [hs] at hd ⊢
    exact h.processVote (hd ctx.txHash)
  · rw [hs]
    exact h.clean hv env

/-! ### Runs -/

/-- A step with what the node reads during it. -/
def act (s : SwiftTX) (a : SwiftEnv × SwiftEvent) : SwiftTX := s.step a.1 a.2

/-- The lock of a transaction is complete: enough masternodes, all different, have each sent a
vote for it that passed the checks. -/
def Agreed (h : Uint256) (l : List (SwiftEnv × SwiftEvent)) (s : SwiftTX) : Prop :=
  ∃ lock, s.mapTxLocks.lookup h = some lock ∧
    SWIFTTX_SIGNATURES_REQUIRED ≤ lock.countSignatures ∧
    lock.countSignatures = lock.counted.length ∧
    (lock.counted.map (·.vinMasternode.prevout)).Nodup ∧
    ∀ v ∈ lock.counted, v.txHash = h ∧ ∃ env, (env, .message (.txlvote v)) ∈ l ∧
      env.getMasternodeRank v.vinMasternode v.nBlockHeight ≠ -1 ∧
      env.getMasternodeRank v.vinMasternode v.nBlockHeight ≤ SWIFTTX_SIGNATURES_TOTAL ∧
      env.checkSignature v = true

/-- A vote that was sent and passed its checks. -/
def Received (l : List (SwiftEnv × SwiftEvent)) (v : CConsensusVote) : Prop :=
  ∃ env, (env, .message (.txlvote v)) ∈ l ∧ isGoodVote env v = true

lemma countSignatures_of_complete {lock : CTransactionLock} (h : lock.isComplete = true) :
    lock.countSignatures = lock.counted.length := by
  unfold CTransactionLock.isComplete CTransactionLock.countSignatures at h
  unfold CTransactionLock.countSignatures
  split at h
  · simp [SWIFTTX_SIGNATURES_REQUIRED] at h
  · next hn => rw [if_neg hn]

lemma agreed_of_complete {l : List (SwiftEnv × SwiftEvent)} (hv : VotesOk (Received l) s)
    {h : Uint256} {lock : CTransactionLock} (hl : s.content h = some lock)
    (hc : lock.isComplete = true) : Agreed h l s := by
  obtain ⟨lock, hlook, rfl⟩ := Option.map_eq_some_iff.mp hl
  have hc' : lock.isComplete = true := hc
  have hlock := hv.lookup hlook
  refine ⟨lock, hlook, by simpa [CTransactionLock.isComplete] using hc',
    countSignatures_of_complete hc', ?_, ?_⟩
  · exact hlock.prevouts_nodup.sublist (List.filter_sublist.map _)
  · intro v hv
    obtain ⟨hhash, -, env, hm, hgood⟩ := hlock.mine v (List.mem_of_mem_filter hv)
    simp only [isGoodVote, Bool.and_eq_true, bne_iff_ne, decide_eq_true_eq] at hgood
    exact ⟨hhash, env, hm, hgood.1.1, hgood.1.2, hgood.2⟩

lemma sound_of_run {l : List (SwiftEnv × SwiftEvent)} (h : Run act BackedStep initial l s) :
    VotesOk (Received l) s ∧ Sound (fun tx => ∃ env, (env, .message (.ix tx)) ∈ l)
      (fun g => Run.Once act BackedStep initial (Agreed g) l) s := by
  induction h with
  | nil => exact ⟨votesOk_initial _, ⟨by simp [initial], by simp [initial]⟩⟩
  | @snoc l s a hr hok ih =>
    obtain ⟨env, ev⟩ := a
    obtain ⟨hv, hs⟩ := ih
    have hv₁ : VotesOk (Received (l ++ [(env, ev)])) s := by
      refine hv.mono ?_
      rintro v ⟨e, hm, hg⟩
      exact ⟨e, List.mem_append_left _ hm, hg⟩
    have hv' : VotesOk (Received (l ++ [(env, ev)])) (act s (env, ev)) := by
      refine hv₁.step ?_
      rintro v rfl hg
      exact ⟨env, by simp, hg⟩
    refine ⟨hv', Sound.step (hs.mono ?_ ?_) hv₁ hok ?_ ?_⟩
    · rintro tx ⟨e, hm⟩
      exact ⟨e, List.mem_append_left _ hm⟩
    · intro g hg
      exact hg.later _
    · rintro tx rfl
      exact ⟨env, by simp⟩
    · intro g lock hl hc
      exact Run.once_now (.snoc hr hok) (agreed_of_complete hv' hl hc)

/-- **Inputs are locked only by consensus** in a run in which every request that gets to the
memory pool is backed: a locked input is an input of a transaction that was sent and whose lock was
complete at some time. So a transaction that conflicts with a lock, and a block that is rejected
for one, conflict with something the masternodes have agreed on. -/
theorem locked_only_by_consensus {l : List (SwiftEnv × SwiftEvent)}
    (h : Run act BackedStep initial l s) :
    (∀ o g, s.mapLockedInputs o = some g →
      (∃ tx env, (env, .message (.ix tx)) ∈ l ∧ tx.hash = g ∧ o ∈ tx.vin.map (·.prevout)) ∧
        Run.Once act BackedStep initial (Agreed g) l) ∧
    (∀ tx, s.conflicts tx ≠ [] → ∃ i ∈ tx.vin, ∃ g, s.mapLockedInputs i.prevout = some g ∧
      g ≠ tx.hash ∧ Run.Once act BackedStep initial (Agreed g) l) ∧
    (∀ (node : Node) block f, node.mapLockedInputs = s.mapLockedInputs →
      checkLockedInputs node block = .error f → ∃ tx ∈ block.vtx, ∃ i ∈ tx.vin, ∃ g,
        s.mapLockedInputs i.prevout = some g ∧ g ≠ tx.hash ∧
        Run.Once act BackedStep initial (Agreed g) l) := by
  obtain ⟨-, -, hlocked⟩ := sound_of_run h
  refine ⟨?_, ?_, ?_⟩
  · intro o g hl
    obtain ⟨hdone, tx, ⟨env, hm⟩, hhash, ho⟩ := hlocked o g hl
    exact ⟨⟨tx, env, hm, hhash, ho⟩, hdone⟩
  · intro tx hc
    rw [Ne, conflicts_eq_nil] at hc
    push Not at hc
    obtain ⟨i, hi, g, hl, hne⟩ := hc
    exact ⟨i, hi, g, hl, hne, (hlocked _ g hl).1⟩
  · intro node block f hnode hf
    obtain ⟨hbad, -⟩ := failIf_eq_error.mp hf
    simp only [Bool.and_eq_true, List.any_eq_true, Option.any_eq_true, bne_iff_ne, hnode] at hbad
    obtain ⟨-, tx, htx, -, i, hi, g, hl, hne⟩ := hbad
    exact ⟨tx, htx, i, hi, g, hl, hne, (hlocked _ g hl).1⟩

end SwiftTX

namespace Concrete

/-- A node at height 100 on which every input is 20 blocks deep. The masternodes are the outpoints
of one transaction, in the order of their indices, and every signature is good. -/
def swiftEnv (getTime : ℤ) (accepts : Bool) : SwiftEnv where
  getTime := getTime
  fLiteMode := false
  fMasterNode := false
  activeMasternode := none
  isSwiftTXActive := true
  maxValue := 1000
  isBlockchainSynced := true
  hasTip := true
  height := 100
  getCoinDepthAtHeight := fun _ _ => 20
  getTransaction := fun _ => none
  nLockTime := fun _ => 0
  poolAccepts := fun _ => accepts
  getMasternodeRank := fun vin _ => vin.prevout.n
  checkSignature := fun _ => true

def payScript : CScript :=
  [Script.OP_DUP, Script.OP_HASH160, 20] ++ List.replicate 20 1 ++
    [Script.OP_EQUALVERIFY, Script.OP_CHECKSIG]

/-- A transaction that spends one coin. -/
def lockTx (hash : Uint256) : CTransaction := ⟨hash, [⟨⟨7, 0⟩, [], 0⟩], [⟨1 * COIN, payScript⟩]⟩

/-- The vote of a masternode for the height of the lock. -/
def lockVote (n : ℕ) (txHash : Uint256) : CConsensusVote := ⟨⟨⟨1000, n⟩, [], 0⟩, txHash, 84, [], 1⟩

/-- A request followed by the votes of the first masternodes. -/
def lockRun (accepts : Bool) (n : ℕ) : List (SwiftEnv × SwiftEvent) :=
  (swiftEnv 0 accepts, .message (.ix (lockTx 5))) ::
    (List.range n).map fun k => (swiftEnv 0 true, .message (.txlvote (lockVote (k + 1) 5)))

end Concrete

namespace SwiftTX

open Concrete

lemma backed_lockRun (n : ℕ) :
    Run act BackedStep initial (lockRun true n) ((lockRun true n).foldl act initial) := by
  have h1 : Run act BackedStep initial [(swiftEnv 0 true, .message (.ix (lockTx 5)))]
      (initial.act (swiftEnv 0 true, .message (.ix (lockTx 5)))) := by
    refine .snoc .nil ?_
    rintro tx ⟨⟩ - -
    exact .inl (by decide)
  refine h1.append ?_
  intro a ha s tx hev
  obtain ⟨k, -, rfl⟩ := List.mem_map.mp ha
  cases hev

/-- Six votes lock the input of an accepted request. -/
theorem locked_only_by_consensus_six_votes :
    ∃ s, Run act BackedStep initial (lockRun true 6) s ∧ s.mapLockedInputs ⟨7, 0⟩ = some 5 ∧
      Run.Once act BackedStep initial (Agreed 5) (lockRun true 6) := by
  have hrun := backed_lockRun 6
  have hlocked : ((lockRun true 6).foldl act initial).mapLockedInputs ⟨7, 0⟩ = some 5 := by decide
  exact ⟨_, hrun, hlocked, ((locked_only_by_consensus hrun).1 _ _ hlocked).2⟩

/-- One peer sends a request that the memory pool refuses. No masternode has voted, and its input
is locked: a block that spends it otherwise is rejected. -/
theorem refused_request_locks_input :
    ∃ l s, Run act (fun _ _ => True) initial l s ∧ s.mapLockedInputs ⟨7, 0⟩ = some 5 ∧
      ¬Run.Once act (fun _ _ => True) initial (Agreed 5) l ∧
      ∀ block : CBlock, block.vtx = [lockTx 6] → ∀ node : Node,
        node.mapLockedInputs = s.mapLockedInputs →
        node.isSporkActive .SPORK_3_SWIFTTX_BLOCK_FILTERING = true →
        checkLockedInputs node block =
          .error (.dos 100 REJECT_INVALID "conflicting-tx-ix" false) := by
  refine ⟨lockRun false 0, _, Run.nil.append (m := lockRun false 0) fun _ _ _ => trivial, by decide,
    ?_, ?_⟩
  · -- an agreement needs a vote, and none was sent
    rintro ⟨l₁, s₁, hl₁, -, lock, -, hc, hcount, -, hvotes⟩
    have hpos : 0 < lock.counted.length := by
      rw [hcount, SWIFTTX_SIGNATURES_REQUIRED] at hc
      omega
    obtain ⟨v, hv⟩ := List.exists_mem_of_length_pos hpos
    obtain ⟨-, env, hm, -⟩ := hvotes v hv
    have hm := hl₁.subset hm
    simp [lockRun] at hm
  · intro block hb node hn hspork
    have hlocked : node.mapLockedInputs ⟨7, 0⟩ = some 5 := by
      rw [hn]
      decide
    have hcb : (lockTx 6).isCoinBase = false := by decide
    have hother : ((lockTx 6).vin.any fun i =>
        (node.mapLockedInputs i.prevout).any (· != (lockTx 6).hash)) = true := by
      change (Option.any _ (node.mapLockedInputs ⟨7, 0⟩) || false) = true
      rw [hlocked]
      decide
    refine failIf_eq_error.mpr ⟨?_, rfl⟩
    rw [hb, hspork, List.any_cons, hcb, hother]
    rfl

end SwiftTX

end Agenor
