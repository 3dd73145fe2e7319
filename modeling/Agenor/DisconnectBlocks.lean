import Agenor.ActiveChain
import Agenor.MoneySupply

/-!
Rolling the active chain back: `DisconnectTip`, and `DisconnectBlocks`, which calls it for a number
of blocks (`main.cpp`).

`DisconnectBlocks` counts from nought up to the number of blocks and drops what the calls report.
A call that fails leaves the tip where it is, and the next one starts from there again.
-/

namespace Agenor

open Lib.Fallible Lib.Ancestry

/-- The outcome of a write to a database. -/
inductive DiskWrite
  | ok
  | failed
  | throws (what : String)
  deriving DecidableEq, Repr

/-- What `FlushStateToDisk` finds on the disk: the two checks of the space, and the writes of the
block index, of the two supplies and of the coins. -/
structure Disk where
  checkDiskSpace : Bool
  writeBatchSync : DiskWrite
  writeZCSupply : DiskWrite
  writeMoneySupply : DiskWrite
  checkCoinsSpace : Bool
  writeCoins : DiskWrite
  deriving DecidableEq, Repr

namespace Disk

/-- A write inside the `try` of `FlushStateToDisk`, with the message for one that fails. -/
def written (w : DiskWrite) (strMessage : String) (coins : CoinsStack) :
    Except (Fault × CoinsStack) Unit :=
  match w with
  | .ok => .ok ()
  | .failed => .error (.abortNode strMessage, coins)
  | .throws what => .error (.abortNode ("System error while flushing: " ++ what), coins)

/-- The zerocoin supply is written if there is one. -/
def flushZCSupply (disk : Disk) (g : Global) (coins : CoinsStack) :
    Except (Fault × CoinsStack) Unit :=
  if CoinDenomination.zerocoinDenomList.any fun d => (g.mapZerocoinSupply d).isSome then
    written disk.writeZCSupply "Failed to write zerocoin supply to DB" coins
  else .ok ()

/-- `pcoinsTip->Flush()`. The cache is emptied also when the write fails. -/
def flushCoins (disk : Disk) (coins : CoinsStack) : Except (Fault × CoinsStack) CoinsStack := do
  written disk.writeCoins "Failed to write to coin database"
    { coins with layers := ∅ :: coins.layers.tail }
  match CoinsStack.flushFrom coins.db coins.layers with
  | .error f => .error (f, coins)
  | .ok r => return ⟨r.1, r.2⟩

/-- `FlushStateToDisk(state, FLUSH_STATE_ALWAYS)`. -/
def flushStateToDisk (disk : Disk) (g : Global) (coins : CoinsStack) :
    Except (Fault × CoinsStack) CoinsStack := do
  failIf (!disk.checkDiskSpace) (.abortNode "out of disk space", coins)
  written disk.writeBatchSync "Files to write to block index database" coins
  disk.flushZCSupply g coins
  written disk.writeMoneySupply "Failed to write money supply to DB" coins
  failIf (!disk.checkCoinsSpace) (.abortNode "out of disk space", coins)
  disk.flushCoins coins

end Disk

/-- The chain state with the active chain as a vector. -/
structure ActiveState (α : Type) where
  coins : CoinsStack
  bestBlock : Uint256
  global : Global
  chainActive : CChain α

/-- The state with the entries of the chain read out, the tip first. -/
def ActiveState.toChainState {α : Type} (index : α → CBlockIndex) (st : ActiveState α) :
    ChainState :=
  ⟨st.coins, st.bestBlock, st.global, (st.chainActive.vChain.reverse.filterMap id).map index⟩

/-- What one `DisconnectTip` meets: the rest of the node, the block if it can be read, the disk, and
what the memory pool looks up when the transactions go back to it. -/
structure DisconnectEnv where
  node : Node
  readBlockFromDisk : Option CBlock
  disk : Disk
  mempool : List { op : CoinsStack.Op // op.isUpkeep = true }

namespace BlockMap

section

variable {α : Type} [DecidableEq α] (s : BlockMap α) (index : α → CBlockIndex)

/-- A call that comes back with `false` reports the failure. -/
def reported (f : Fault) (st : ActiveState α) : Check (Option Fault × ActiveState α) :=
  if f.isReturn then .ok (some f, st) else .error f

/-- The part of `UpdateTip` that sets the tip; the null pointer is not a tip. -/
def updateTip (pindexNew : Option α) (st : ActiveState α) : Check (ActiveState α) :=
  match pindexNew with
  | none => .error .assertion
  | some pindexNew =>
    match st.chainActive.setTip s (some pindexNew) with
    | none => .error .assertion
    | some chainActive => .ok { st with chainActive }

/-- `DisconnectTip` once the block has been read and undone: the failure it reports, if any. -/
def disconnectTipFlush (env : DisconnectEnv) (pindexDelete : α) (view : CCoinsViewCache)
    (st : ActiveState α) : Check (Option Fault × ActiveState α) :=
  match (st.toChainState index).flush view with
  | .error f => .error f
  | .ok coins =>
    match env.disk.flushStateToDisk st.global coins with
    | .error (f, coins) => reported f { st with coins, bestBlock := view.getBestBlock }
    | .ok coins => do
      let r ← coins.run (env.mempool.map (·.val))
      let st ← s.updateTip (s.pprev pindexDelete)
        { st with coins := r.2, bestBlock := view.getBestBlock }
      return (none, st)

/-- `DisconnectTip`: the failure it reports, if any. -/
def disconnectTip (env : DisconnectEnv) (st : ActiveState α) :
    Check (Option Fault × ActiveState α) :=
  match st.chainActive.tip with
  | none => .error .assertion
  | some pindexDelete =>
    match env.readBlockFromDisk with
    | none => reported (.abortNode "Failed to read block") st
    | some block =>
      match disconnectBlock env.node st.global block (index pindexDelete)
          (st.toChainState index).view with
      | .error (f, g) => reported f { st with global := g }
      | .ok (false, _, g) => reported .fail { st with global := g }
      | .ok (true, view, g) =>
        s.disconnectTipFlush index env pindexDelete view { st with global := g }

/-- The loop of `DisconnectBlocks`, with the failures that it drops. -/
def disconnectTips : List DisconnectEnv → ActiveState α → Check (List Fault × ActiveState α)
  | [], st => .ok ([], st)
  | env :: envs, st => do
    let (f, st) ← s.disconnectTip index env st
    let (fs, st) ← disconnectTips envs st
    return (f.toList ++ fs, st)

/-- What the calls meet, one after the other. -/
def disconnectEnvs (env : ℕ → DisconnectEnv) (nBlocks : ℤ) : List DisconnectEnv :=
  (List.range (nBlocks + 1).toNat).map env

def disconnectBlocks (env : ℕ → DisconnectEnv) (nBlocks : ℤ) (st : ActiveState α) :
    Check (Bool × ActiveState α) := do
  let (_, st) ← s.disconnectTips index (disconnectEnvs env nBlocks) st
  return (true, st)

end

/-! ### One call -/

section

variable {α : Type} [DecidableEq α] {s : BlockMap α} {index : α → CBlockIndex}
  {st st' : ActiveState α} {env : DisconnectEnv} {t : α}

omit [DecidableEq α] in
lemma reported_eq_ok {f : Fault} {r : Option Fault × ActiveState α} :
    reported f st = .ok r ↔ f.isReturn = true ∧ r = (some f, st) := by
  unfold reported
  split_ifs with h
  · simp [h, eq_comm]
  · simp [h]

lemma updateTip_eq_ok {pindexNew : Option α} (h : s.updateTip pindexNew st = .ok st') :
    ∃ p c, pindexNew = some p ∧ st.chainActive.setTip s (some p) = some c ∧
      st' = { st with chainActive := c } := by
  unfold updateTip at h
  split at h
  · cases h
  · next p =>
    split at h
    · cases h
    · next c hc =>
      cases h
      exact ⟨p, c, rfl, hc, rfl⟩

lemma disconnectTip_cases {r : Option Fault} (htip : st.chainActive.tip = some t)
    (h : s.disconnectTip index env st = .ok (r, st')) :
    (∃ f, r = some f ∧ st'.chainActive = st.chainActive) ∨
    (r = none ∧ ∃ p, s.pprev t = some p ∧
      st.chainActive.setTip s (some p) = some st'.chainActive) := by
  have hreported : ∀ {f : Fault} {st₀ : ActiveState α}, st₀.chainActive = st.chainActive →
      reported f st₀ = .ok (r, st') → ∃ f, r = some f ∧ st'.chainActive = st.chainActive := by
    intro f st₀ hsame hrep
    obtain ⟨-, heq⟩ := reported_eq_ok.mp hrep
    rw [Prod.mk.injEq] at heq
    obtain ⟨rfl, rfl⟩ := heq
    exact ⟨f, rfl, hsame⟩
  unfold disconnectTip at h
  rw [htip] at h
  dsimp only at h
  split at h
  · exact .inl (hreported (by rfl) h)
  · split at h
    · exact .inl (hreported (by rfl) h)
    · exact .inl (hreported (by rfl) h)
    · unfold disconnectTipFlush at h
      split at h
      · cases h
      · split at h
        · exact .inl (hreported (by rfl) h)
        · simp only [bind_eq_ok, pure_eq_ok, Prod.mk.injEq] at h
          obtain ⟨a, -, st₁, hup, rfl, rfl⟩ := h
          obtain ⟨p, c, hp, hc, rfl⟩ := updateTip_eq_ok hup
          exact .inr ⟨rfl, p, hp, hc⟩

lemma disconnectTip_run {r : Option Fault} (hrun : CChain.Run s st.chainActive (some t))
    (h : s.disconnectTip index env st = .ok (r, st')) :
    (r.isSome ∧ CChain.Run s st'.chainActive (some t)) ∨
    (r = none ∧ ∃ p, s.pprev t = some p ∧ CChain.Run s st'.chainActive (some p)) := by
  rcases disconnectTip_cases (CChain.run_tip hrun).1 h with ⟨f, rfl, hsame⟩ | ⟨rfl, p, hp, hset⟩
  · exact .inl ⟨rfl, hsame ▸ hrun⟩
  · obtain ⟨hbuilt, ht, -⟩ := hrun.isPathTo
    refine .inr ⟨rfl, p, hp, hrun.setTip ?_ hset⟩
    intro q hq
    obtain rfl := Option.some.inj hq
    exact hbuilt.skipped.graded.closed ht hp

/-! ### The chain state -/

lemma Disk.flushStateToDisk_eq_ok {disk : Disk} {g : Global} {coins coins' : CoinsStack}
    (h : disk.flushStateToDisk g coins = .ok coins') :
    ∃ a, coins.step (.flush 0) = .ok (a, coins') := by
  simp only [Disk.flushStateToDisk, Disk.flushCoins, bind_eq_ok] at h
  obtain ⟨-, -, -, -, -, -, -, -, -, -, -, -, h⟩ := h
  split at h
  · cases h
  · next r hr =>
    cases h
    exact ⟨.done, by simp [CoinsStack.step, hr, bind, Except.bind, pure, Except.pure]⟩

lemma steps_of_run {net : Network} {lib : Libzerocoin} {H : Hashes} {c : ChainState}
    {ops : List CoinsStack.Op} (hops : ∀ op ∈ ops, op.isUpkeep = true)
    {r : List CoinsStack.Answer × CoinsStack} (h : c.coins.run ops = .ok r) :
    Relation.ReflTransGen (ChainState.Step net lib H) c { c with coins := r.2 } := by
  induction ops generalizing c r with
  | nil =>
    cases h
    exact .refl
  | cons op ops ih =>
    simp only [CoinsStack.run, bind_eq_ok, pure_eq_ok] at h
    obtain ⟨a, ha, b, hb, rfl⟩ := h
    have hstep : ChainState.Step net lib H c { c with coins := a.2 } :=
      .upkeep (hops op (by simp)) ha
    exact .head hstep
      (ih (c := { c with coins := a.2 }) (r := b) (fun op' hop' => hops op' (by simp [hop'])) hb)

/-- **A call that does not fail** takes the tip off the chain state. -/
theorem disconnectTip_steps {net : Network} {lib : Libzerocoin} {H : Hashes} {block : CBlock}
    (hrun : CChain.Run s st.chainActive (some t)) (hnode : H.Hosts net lib env.node)
    (hread : env.readBlockFromDisk = some block) (hblock : H.Holds block)
    (hindex : (index t).hash = block.hash)
    (h : s.disconnectTip index env st = .ok (none, st')) :
    Relation.ReflTransGen (ChainState.Step net lib H) (st.toChainState index)
      (st'.toChainState index) := by
  have hreported : ∀ (f : Fault) (st₀ : ActiveState α), reported f st₀ ≠ .ok (none, st') := by
    intro f st₀ hrep
    obtain ⟨-, heq⟩ := reported_eq_ok.mp hrep
    cases heq
  obtain ⟨hbuilt, ht, hpath⟩ := hrun.isPathTo
  unfold disconnectTip at h
  rw [(CChain.run_tip hrun).1, hread] at h
  dsimp only at h
  split at h
  · exact absurd h (hreported _ _)
  · exact absurd h (hreported _ _)
  · next view g hdisconnect =>
    unfold disconnectTipFlush at h
    split at h
    · cases h
    · next coins hflush =>
      split at h
      · exact absurd h (hreported _ _)
      · next coins₁ hdisk =>
        simp only [bind_eq_ok, pure_eq_ok, Prod.mk.injEq] at h
        obtain ⟨r, hpool, st₁, hup, -, rfl⟩ := h
        obtain ⟨p, c, hp, hset, rfl⟩ := updateTip_eq_ok hup
        obtain ⟨c', hc', hpath'⟩ := CChain.setTip_isPath hbuilt.skipped hrun.isPathTo.2
          (hbuilt.skipped.graded.closed ht hp)
        obtain rfl := Option.some.inj (hset.symm.trans hc')
        have hchain : (st.toChainState index).chain =
            index t :: ((c.vChain.reverse.filterMap id).map index) := by
          simp [ActiveState.toChainState,
            hpath.eq_append hbuilt.skipped.graded ht hp hpath']
        obtain ⟨a, hflushed⟩ := Disk.flushStateToDisk_eq_ok hdisk
        refine .head (.disconnect hnode hblock hindex hchain hdisconnect hflush)
          (.head (.upkeep rfl hflushed) (steps_of_run ?_ hpool))
        intro op hop
        obtain ⟨q, -, rfl⟩ := List.mem_map.mp hop
        exact q.2

/-! ### All calls -/

/-- **Where the tip is.** It has come down by one for each call that did not fail. -/
theorem disconnectTips_run {envs : List DisconnectEnv} {fs : List Fault}
    (hrun : CChain.Run s st.chainActive (some t))
    (h : s.disconnectTips index envs st = .ok (fs, st')) :
    ∃ k t', k + fs.length = envs.length ∧ climb s.pprev k t = some t' ∧
      CChain.Run s st'.chainActive (some t') := by
  induction envs generalizing st t fs with
  | nil =>
    cases h
    exact ⟨0, t, rfl, rfl, hrun⟩
  | cons env envs ih =>
    simp only [disconnectTips, bind_eq_ok, pure_eq_ok, Prod.mk.injEq, Prod.exists] at h
    obtain ⟨r, st₁, h1, gs, st₂, h2, rfl, rfl⟩ := h
    rcases disconnectTip_run hrun h1 with ⟨hr, hrun₁⟩ | ⟨rfl, p, hp, hrun₁⟩
    · obtain ⟨f, rfl⟩ := Option.isSome_iff_exists.mp hr
      obtain ⟨k, t', hk, hclimb, hrun'⟩ := ih hrun₁ h2
      exact ⟨k, t', by simp; omega, hclimb, hrun'⟩
    · obtain ⟨k, t', hk, hclimb, hrun'⟩ := ih hrun₁ h2
      refine ⟨k + 1, t', by simp; omega, ?_, hrun'⟩
      rw [climb, hp, Option.bind_some]
      exact hclimb

/-! ### The number of blocks -/

/-- What rolling back a number of blocks is to do: success means that the tip is that many blocks
further down, and a call that failed is reported. -/
structure RollsBack (s : BlockMap α) (index : α → CBlockIndex) (env : ℕ → DisconnectEnv)
    (nBlocks : ℤ) (st : ActiveState α) (t : α) (ret : Bool) (st' : ActiveState α) : Prop where
  tip : ret = true → ∃ a, st'.chainActive.tip = some a ∧ Anc s.pprev a t ∧
    (s.nHeight a : ℤ) + nBlocks = s.nHeight t
  failure : ∀ f fs, s.disconnectTips index (disconnectEnvs env nBlocks) st = .ok (f :: fs, st') →
    ret = false

/-- **`DisconnectBlocks`.** No call does what it is to do: one block too many is taken off, or a
failure is dropped. -/
theorem disconnectBlocks_never {env : ℕ → DisconnectEnv} {nBlocks : ℤ} {ret : Bool}
    (hrun : CChain.Run s st.chainActive (some t))
    (hret : s.disconnectBlocks index env nBlocks st = .ok (ret, st')) :
    ¬ RollsBack s index env nBlocks st t ret st' := by
  intro hroll
  simp only [disconnectBlocks, bind_eq_ok, pure_eq_ok, Prod.mk.injEq, Prod.exists] at hret
  obtain ⟨fs, st₁, htips, rfl, rfl⟩ := hret
  obtain ⟨k, t', hk, hclimb, hrun'⟩ := disconnectTips_run hrun htips
  obtain ⟨hbuilt, ht, -⟩ := hrun.isPathTo
  obtain ⟨a, ha, -, hheight⟩ := hroll.tip rfl
  rw [(CChain.run_tip hrun').1] at ha
  obtain rfl := Option.some.inj ha
  have hdown := hbuilt.skipped.graded.height_climb ht hclimb
  have hlen : (disconnectEnvs env nBlocks).length = (nBlocks + 1).toNat := by
    simp [disconnectEnvs]
  cases fs with
  | nil =>
    rw [List.length_nil] at hk
    omega
  | cons f fs => exact absurd (hroll.failure f fs htips) (by simp)

end

end BlockMap

/-! ### Concrete calls -/

namespace Concrete

open BlockMap

/-- What is read of the entries of a chain of three. -/
def threeIndex : ℕ → CBlockIndex
  | 0 => genesisIndex
  | 1 => firstIndex
  | _ => secondIndex

/-- Nothing is in the way, and the block with nothing but its reward is read. -/
def goodEnv : DisconnectEnv where
  node := mainNode
  readBlockFromDisk := some (secondBlock [coinBaseTx (50 * COIN)])
  disk := ⟨true, .ok, .ok, .ok, true, .ok⟩
  mempool := []

def unreadableEnv : DisconnectEnv := { goodEnv with readBlockFromDisk := none }

/-- The block has been connected on top of the first one. -/
def threeState (c : CChain ℕ) : Option (ActiveState ℕ) := do
  let (v, g) ← (connectBlock mainNode startState.global (secondBlock [coinBaseTx (50 * COIN)])
    secondIndex startState.view false false).toOption
  let coins ← (startState.flush v).toOption
  return ⟨coins, v.getBestBlock, g, c⟩

/-- A chain of three, and the call with its tip afterwards. -/
def rolledBack (env : ℕ → DisconnectEnv) (nBlocks : ℤ) : Option (Bool × Option ℕ) := do
  let s ← forkedMap
  let c ← (⟨[]⟩ : CChain ℕ).setTip s (some 2)
  let st ← threeState c
  let (ret, st') ← (s.disconnectBlocks threeIndex env nBlocks st).toOption
  return (ret, st'.chainActive.tip)

lemma rolledBack_eq_some {env : ℕ → DisconnectEnv} {nBlocks : ℤ} {ret : Bool} {tip : Option ℕ}
    (h : rolledBack env nBlocks = some (ret, tip)) :
    ∃ (s : BlockMap ℕ) (st st' : ActiveState ℕ), CChain.Run s st.chainActive (some 2) ∧
      s.nHeight 1 = 1 ∧ s.nHeight 2 = 2 ∧
      s.disconnectBlocks threeIndex env nBlocks st = .ok (ret, st') ∧
      st'.chainActive.tip = tip := by
  simp only [rolledBack, threeState, Option.bind_eq_bind, Option.bind_eq_some_iff,
    toOption_eq_some, Option.pure_def, Option.some.injEq, Prod.mk.injEq, Prod.exists] at h
  obtain ⟨s, hs, c, hc, st, ⟨v, g, -, coins, -, rfl⟩, r, st', hcall, rfl, rfl⟩ := h
  obtain ⟨s', hs', hbuilt, hmem⟩ := forkedMap_built
  obtain rfl := Option.some.inj (hs.symm.trans hs')
  have hread : forkedMap.map (fun s => (s.nHeight 1, s.nHeight 2)) = some (1, 2) := by decide
  rw [hs, Option.map_some, Option.some.injEq, Prod.mk.injEq] at hread
  refine ⟨s, _, st', .setTip (.start hbuilt) ?_ hc, hread.1, hread.2, hcall, rfl⟩
  intro p hp
  obtain rfl := Option.some.inj hp
  simp [hmem]

/-- Asked to take off no block, a call without failures takes off one. -/
theorem disconnectBlocks_takesOne :
    ¬ ∀ (s : BlockMap ℕ) (index : ℕ → CBlockIndex) (env : ℕ → DisconnectEnv) (nBlocks : ℤ)
      (st st' : ActiveState ℕ) (t : ℕ) (ret : Bool), CChain.Run s st.chainActive (some t) →
      0 ≤ nBlocks → nBlocks < s.nHeight t →
      s.disconnectBlocks index env nBlocks st = .ok (ret, st') →
      RollsBack s index env nBlocks st t ret st' := by
  intro hall
  have hcall : rolledBack (fun _ => goodEnv) 0 = some (true, some 1) := by decide
  obtain ⟨s, st, st', hrun, hone, htwo, hret, htip⟩ := rolledBack_eq_some hcall
  obtain ⟨a, ha, -, hheight⟩ := (hall s _ _ _ st st' 2 _ hrun le_rfl (by omega) hret).tip rfl
  rw [htip] at ha
  obtain rfl := Option.some.inj ha
  omega

/-- Asked to take off one block, a call whose first pass fails takes off one and says nothing. -/
theorem disconnectBlocks_dropsFailure : ∃ (s : BlockMap ℕ) (st st' : ActiveState ℕ),
    s.disconnectBlocks threeIndex (fun i => if i = 0 then unreadableEnv else goodEnv) 1 st
      = .ok (true, st') ∧ st'.chainActive.tip = some 1 ∧
    ¬ RollsBack s threeIndex (fun i => if i = 0 then unreadableEnv else goodEnv) 1 st 2 true
      st' := by
  have hcall : rolledBack (fun i => if i = 0 then unreadableEnv else goodEnv) 1 =
      some (true, some 1) := by decide
  obtain ⟨s, st, st', hrun, -, -, hret, htip⟩ := rolledBack_eq_some hcall
  exact ⟨s, st, st', hret, htip, disconnectBlocks_never hrun hret⟩

end Concrete

end Agenor
