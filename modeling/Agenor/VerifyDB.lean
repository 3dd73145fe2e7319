import Agenor.MoneySupply

/-!
`VerifyDB` (`main.cpp`): the last blocks are read, checked, undone on a throw-away cache and
connected again, depending on the level.

The coins are safe in the cache, but the blocks are undone and connected by the functions that
maintain `nMoneySupply`. What a run does to it is said by `verifyDB_money`: it loses what the undone
blocks are worth, and gets back what connecting them counts only if the run comes to its last part.
-/

namespace Agenor

open Lib.Wrap Lib.Fallible

/-- What `VerifyDB` reads besides the node. -/
structure VerifyEnv where
  node : Node
  readBlockFromDisk : CBlockIndex → Option CBlock
  /-- Whether the caches are within `nCoinCacheUsage` when the loop comes to the block. -/
  cacheFits : CBlockIndex → Bool
  /-- `ShutdownRequested()` at the end of the pass for the block. -/
  shutdownRequested : CBlockIndex → Bool

/-- What the loop carries. Blocks of the active chain are given by their distance from the tip;
`nState` is that of `pindexState`. -/
structure VerifyLoop where
  coins : CCoinsViewCache
  global : Global
  nState : ℕ
  pindexFailure : Option CBlockIndex
  nGoodTransactions : ℕ

namespace VerifyEnv

variable (env : VerifyEnv)

/-- The blocks above the genesis block, the tip first. -/
def line : List CBlockIndex := env.node.chainActive.tail.reverse

def readBlock (g : Global) (pindex : CBlockIndex) : Except (Fault × Global) CBlock :=
  match env.readBlockFromDisk pindex with
  | some block => .ok block
  | none => .error (.fail, g)

/-- Level 1: `CheckBlock`. -/
def level1 (nCheckLevel : ℤ) (block : CBlock) : Check Unit :=
  if 1 ≤ nCheckLevel then do
    let _ ← checkBlock env.node block true true true
    return
  else .ok ()

/-- Level 2: the undo data, if there are any, can be read. -/
def level2 (nCheckLevel : ℤ) (g : Global) (pindex : CBlockIndex) : Check Unit :=
  failIf (decide (2 ≤ nCheckLevel) && (g.undo pindex.hash).isSome && !env.node.undoReadFromDisk)
    .fail

/-- Level 3: the block is undone, as long as all blocks above it were and the caches fit. -/
def level3 (nCheckLevel : ℤ) (s : VerifyLoop) (block : CBlock) (pindex : CBlockIndex) (n : ℕ) :
    Except (Fault × Global) VerifyLoop :=
  if decide (3 ≤ nCheckLevel) && n == s.nState && env.cacheFits pindex then do
    let (clean, coins, global) ← disconnectBlock env.node s.global block pindex s.coins
    if clean then return { s with
      coins, global, nState := n + 1, nGoodTransactions := s.nGoodTransactions + block.vtx.length }
    else return { s with
      coins, global, nState := n + 1, nGoodTransactions := 0, pindexFailure := some pindex }
  else .ok s

def verifyBlock (nCheckLevel : ℤ) (s : VerifyLoop) (pindex : CBlockIndex) (n : ℕ) :
    Except (Fault × Global) VerifyLoop := do
  let block ← env.readBlock s.global pindex
  withGlobal s.global (env.level1 nCheckLevel block)
  withGlobal s.global (env.level2 nCheckLevel s.global pindex)
  env.level3 nCheckLevel s block pindex n

/-- The loop from some block on: whether it was ended by a shutdown, and its state. -/
def verifyBlocks (nCheckLevel nLowest : ℤ) :
    VerifyLoop → List (CBlockIndex × ℕ) → Except (Fault × Global) (Bool × VerifyLoop)
  | s, [] => .ok (false, s)
  | s, (pindex, n) :: rest =>
    if pindex.nHeight < nLowest then .ok (false, s)
    else do
      let s ← env.verifyBlock nCheckLevel s pindex n
      if env.shutdownRequested pindex then return (true, s)
      else verifyBlocks nCheckLevel nLowest s rest

/-- Level 4: one block is connected again. -/
def reconnect (s : CCoinsViewCache × Global) (pindex : CBlockIndex) :
    Except (Fault × Global) (CCoinsViewCache × Global) := do
  let block ← env.readBlock s.2 pindex
  connectBlock env.node s.2 block pindex s.1 false false

/-- `nCheckLevel` between 0 and 4. -/
def clampLevel (nCheckLevel : ℤ) : ℤ := max 0 (min 4 nCheckLevel)

/-- The lowest height that is looked at. -/
def lowest (nCheckDepth : ℤ) : ℤ :=
  let nCheckDepth := if nCheckDepth ≤ 0 then 1000000000 else nCheckDepth
  env.node.height - min nCheckDepth env.node.height

/-- The last part: the undone blocks are connected again, from the lowest up. -/
def level4 (nCheckLevel : ℤ) (s : VerifyLoop) : Except (Fault × Global) Global :=
  if 4 ≤ nCheckLevel then do
    let r ← loop env.reconnect (s.coins, s.global) (env.line.take s.nState).reverse
    return r.2
  else .ok s.global

end VerifyEnv

/-- `VerifyDB`: the globals after a run that returns `true`. -/
def verifyDB (env : VerifyEnv) (g : Global) (coinsview : CCoinsView) (nCheckLevel nCheckDepth : ℤ) :
    Except (Fault × Global) Global :=
  if env.node.chainActive.length ≤ 1 then .ok g
  else do
    let nCheckLevel := VerifyEnv.clampLevel nCheckLevel
    let (shutdown, s) ← env.verifyBlocks nCheckLevel (env.lowest nCheckDepth)
      ⟨.ofView coinsview, g, 0, none, 0⟩ env.line.zipIdx
    if shutdown then return s.global
    else do
      failIf s.pindexFailure.isSome (.fail, s.global)
      env.level4 nCheckLevel s

/-! ### The blocks that are undone -/

namespace VerifyEnv

variable (env : VerifyEnv)

/-- The blocks that the loop comes to. -/
def reached (nLowest : ℤ) : List CBlockIndex → List CBlockIndex
  | [] => []
  | pindex :: rest =>
    if pindex.nHeight < nLowest then []
    else pindex :: if env.shutdownRequested pindex then [] else reached nLowest rest

def undone (nCheckLevel nLowest : ℤ) (l : List CBlockIndex) : List CBlockIndex :=
  if 3 ≤ nCheckLevel then (env.reached nLowest l).takeWhile env.cacheFits else []

def interrupted (nLowest : ℤ) (l : List CBlockIndex) : Bool :=
  (env.reached nLowest l).any env.shutdownRequested

/-- What some blocks are worth when they are undone. -/
def undoneMoney (lib : Libzerocoin) (H : Hashes) (l : List CBlockIndex) : ℤ :=
  (l.map fun pindex => H.disconnectedMoney lib (H.vtxOf pindex.hash)).sum

/-- What is missing after some blocks have been undone and connected again. -/
def missing (lib : Libzerocoin) (H : Hashes) (l : List CBlockIndex) : ℤ :=
  (l.map fun pindex => privateSequences (H.vtxOf pindex.hash)
    - strayDenominations lib (H.vtxOf pindex.hash)).sum

/-- The condition. When the run comes to level 4, the private and stray spends of the undone blocks
cancel; when it does not, the undone blocks are worth nothing. Below level 3 none is undone. -/
def KeepsMoney (lib : Libzerocoin) (H : Hashes) (nCheckLevel nCheckDepth : ℤ) : Prop :=
  let nLowest := env.lowest nCheckDepth
  let blocks := env.undone (clampLevel nCheckLevel) nLowest env.line
  if 4 ≤ nCheckLevel ∧ env.interrupted nLowest env.line = false then
    int64 (missing lib H blocks) = 0
  else int64 (undoneMoney lib H blocks) = 0

instance (lib : Libzerocoin) (H : Hashes) (nCheckLevel nCheckDepth : ℤ) :
    Decidable (env.KeepsMoney lib H nCheckLevel nCheckDepth) :=
  inferInstanceAs (Decidable (ite _ _ _))

/-- Files, index and node belong to one chain: a block read from disk is the one behind the hash of
its entry, the blocks above the genesis block are others, and none is at a height at which the money
supply is corrected. -/
structure Stored (net : Network) (lib : Libzerocoin) (H : Hashes) : Prop where
  hosts : H.Hosts net lib env.node
  blocks : ∀ pindex block, env.readBlockFromDisk pindex = some block →
    pindex.hash = block.hash ∧ H.Holds block ∧ block.fChecked = false
  above : ∀ pindex ∈ env.line, pindex.hash ≠ env.node.params.hashGenesisBlock
  uncorrected : ∀ pindex ∈ env.line, correctsMoney env.node.params pindex.nHeight = false

/-- The coins are genuine, the undo data fit, and the money supply is a machine integer. -/
structure Fine (H : Hashes) (v : CCoinsViewCache) (g : Global) : Prop where
  coins : v.Every H.Genuine
  undo : ∀ h blockUndo, g.undo h = some blockUndo → H.Fits (H.vtxOf h) blockUndo
  money : int64 g.nMoneySupply = g.nMoneySupply

variable {env} {net : Network} {lib : Libzerocoin} {H : Hashes} {nCheckLevel nLowest : ℤ}
  {s s' : VerifyLoop} {pindex : CBlockIndex}

lemma readBlock_eq_ok (hst : env.Stored net lib H) {g : Global} {block : CBlock}
    (h : env.readBlock g pindex = .ok block) :
    pindex.hash = block.hash ∧ H.Holds block ∧ block.fChecked = false := by
  unfold readBlock at h
  split at h
  · next b hb =>
    cases h
    exact hst.blocks _ _ hb
  · cases h

/-! ### The first loop -/

lemma verifyBlock_of_not {n : ℕ}
    (hno : (decide (3 ≤ nCheckLevel) && n == s.nState && env.cacheFits pindex) = false)
    (h : env.verifyBlock nCheckLevel s pindex n = .ok s') : s' = s := by
  simp only [verifyBlock, bind_eq_ok, withGlobal_eq_ok] at h
  obtain ⟨block, -, _, -, _, -, h⟩ := h
  simp only [level3, hno, Bool.false_eq_true, if_false, Except.ok.injEq] at h
  exact h.symm

lemma verifyBlock_of_undo (hst : env.Stored net lib H) (hs : Fine H s.coins s.global)
    (hlevel : 3 ≤ nCheckLevel) (hfits : env.cacheFits pindex = true)
    (h : env.verifyBlock nCheckLevel s pindex s.nState = .ok s') :
    Fine H s'.coins s'.global ∧ s'.nState = s.nState + 1 ∧
      s'.global.nMoneySupply
        = int64 (s.global.nMoneySupply - H.disconnectedMoney lib (H.vtxOf pindex.hash)) := by
  simp only [verifyBlock, bind_eq_ok, withGlobal_eq_ok] at h
  obtain ⟨block, hread, _, -, _, -, h⟩ := h
  obtain ⟨hindex, hb, -⟩ := readBlock_eq_ok hst hread
  have hguard : (decide (3 ≤ nCheckLevel) && s.nState == s.nState && env.cacheFits pindex)
      = true := by
    simp [hlevel, hfits]
  rw [level3, if_pos hguard] at h
  simp only [bind_eq_ok, Prod.exists] at h
  obtain ⟨clean, coins, g, hd, h⟩ := h
  have hfit : ∀ bu, s.global.undo pindex.hash = some bu → H.Fits block.vtx bu := by
    intro bu hbu
    rw [← hb.vtx, ← hindex]
    exact hs.undo _ _ hbu
  obtain ⟨hm, hv, hu⟩ := disconnectBlock_money hst.hosts hs.coins hfit hd
  rw [← hb.vtx, ← hindex] at hm
  split at h
  · cases h
    exact ⟨⟨hv, by rw [hu]; exact hs.undo, by rw [hm, int64_int64]⟩, rfl, hm⟩
  · cases h
    exact ⟨⟨hv, by rw [hu]; exact hs.undo, by rw [hm, int64_int64]⟩, rfl, hm⟩

lemma verifyBlocks_stopped {l : List CBlockIndex} {n : ℕ} {sd : Bool} (hn : s.nState < n)
    (h : env.verifyBlocks nCheckLevel nLowest s (l.zipIdx n) = .ok (sd, s')) :
    s' = s ∧ sd = env.interrupted nLowest l := by
  induction l generalizing n with
  | nil =>
    simp only [List.zipIdx_nil, verifyBlocks, Except.ok.injEq, Prod.mk.injEq] at h
    exact ⟨h.2.symm, by simp [interrupted, reached, h.1]⟩
  | cons pindex l ih =>
    simp only [List.zipIdx_cons, verifyBlocks] at h
    split at h
    · next hlow =>
      cases h
      exact ⟨rfl, by simp [interrupted, reached, hlow]⟩
    · next hlow =>
      simp only [bind_eq_ok] at h
      obtain ⟨s₁, h1, h⟩ := h
      obtain rfl := verifyBlock_of_not (by
        have hne : (n == s.nState) = false := by simpa using (Nat.ne_of_lt hn).symm
        simp [hne]) h1
      split at h
      · next hsd =>
        cases h
        exact ⟨rfl, by simp [interrupted, reached, hlow, hsd]⟩
      · next hsd =>
        obtain ⟨h2, h3⟩ := ih (Nat.lt_succ_of_lt hn) h
        refine ⟨h2, ?_⟩
        rw [h3]
        simp [interrupted, reached, hlow, hsd]

/-- **The first loop**, as long as every block has been undone. -/
theorem verifyBlocks_eq_ok (hst : env.Stored net lib H) {l : List CBlockIndex} {sd : Bool}
    (hs : Fine H s.coins s.global)
    (h : env.verifyBlocks nCheckLevel nLowest s (l.zipIdx s.nState) = .ok (sd, s')) :
    Fine H s'.coins s'.global ∧ sd = env.interrupted nLowest l ∧
      s'.nState = s.nState + (env.undone nCheckLevel nLowest l).length ∧
      int64 s'.global.nMoneySupply = int64 (s.global.nMoneySupply
        - undoneMoney lib H (env.undone nCheckLevel nLowest l)) := by
  induction l generalizing s with
  | nil =>
    simp only [List.zipIdx_nil, verifyBlocks, Except.ok.injEq, Prod.mk.injEq] at h
    obtain ⟨rfl, rfl⟩ := h
    exact ⟨hs, rfl, by simp [undone, reached], by simp [undone, reached, undoneMoney]⟩
  | cons pindex l ih =>
    simp only [List.zipIdx_cons, verifyBlocks] at h
    split at h
    · next hlow =>
      cases h
      exact ⟨hs, by simp [interrupted, reached, hlow], by simp [undone, reached, hlow],
        by simp [undone, reached, hlow, undoneMoney]⟩
    next hlow =>
    simp only [bind_eq_ok] at h
    obtain ⟨s₁, h1, h⟩ := h
    by_cases hgo : 3 ≤ nCheckLevel ∧ env.cacheFits pindex = true
    · obtain ⟨hlevel, hfits⟩ := hgo
      obtain ⟨hs₁, hn₁, hm₁⟩ := verifyBlock_of_undo hst hs hlevel hfits h1
      split at h
      · next hsd =>
        cases h
        refine ⟨hs₁, by simp [interrupted, reached, hlow, hsd], ?_, ?_⟩
        · simp [undone, reached, hlow, hsd, hlevel, hfits, hn₁]
        · simp [undone, reached, hlow, hsd, hlevel, hfits, hm₁, undoneMoney]
      · next hsd =>
        rw [← hn₁] at h
        obtain ⟨i1, i2, i3, i4⟩ := ih hs₁ h
        have hund : env.undone nCheckLevel nLowest (pindex :: l)
            = pindex :: env.undone nCheckLevel nLowest l := by
          simp [undone, reached, hlow, hsd, hlevel, hfits]
        refine ⟨i1, ?_, ?_, ?_⟩
        · rw [i2]
          simp [interrupted, reached, hlow, hsd]
        · rw [i3, hn₁, hund, List.length_cons]
          omega
        · rw [i4, hm₁, hund, int64_int64_sub]
          simp [undoneMoney, sub_sub]
    · -- the block is left as it is, and the loop only goes on reading
      obtain rfl := verifyBlock_of_not (by
        rw [not_and] at hgo
        by_cases hl : 3 ≤ nCheckLevel
        · simp [hgo hl]
        · simp [hl]) h1
      have hund : env.undone nCheckLevel nLowest (pindex :: l) = [] := by
        unfold undone
        split
        · next hl =>
          have hf : env.cacheFits pindex = false := by
            by_contra hf
            exact hgo ⟨hl, by simpa using hf⟩
          simp [reached, hlow, hf]
        · rfl
      rw [hund]
      split at h
      · next hsd =>
        cases h
        exact ⟨hs, by simp [interrupted, reached, hlow, hsd], by simp, by simp [undoneMoney]⟩
      · next hsd =>
        obtain ⟨rfl, h3⟩ := verifyBlocks_stopped (Nat.lt_succ_self _) h
        refine ⟨hs, ?_, by simp, by simp [undoneMoney]⟩
        rw [h3]
        simp [interrupted, reached, hlow, hsd]

/-! ### The second loop -/

lemma reachedInitial (l : List CBlockIndex) : env.reached nLowest l <+: l := by
  induction l with
  | nil => exact List.prefix_rfl
  | cons pindex l ih =>
    unfold reached
    split_ifs
    · exact List.nil_prefix
    · exact (List.prefix_cons_inj pindex).mpr List.nil_prefix
    · exact (List.prefix_cons_inj pindex).mpr ih

lemma undoneInitial (l : List CBlockIndex) : env.undone nCheckLevel nLowest l <+: l := by
  unfold undone
  split
  · exact (List.takeWhile_prefix _).trans (reachedInitial l)
  · exact List.nil_prefix

/-- **Connecting again.** -/
theorem reconnect_eq_ok (hst : env.Stored net lib H) {l : List CBlockIndex}
    {r r' : CCoinsViewCache × Global} (hl : ∀ pindex ∈ l, pindex ∈ env.line)
    (hr : Fine H r.1 r.2) (h : loop env.reconnect r l = .ok r') :
    Fine H r'.1 r'.2 ∧ int64 r'.2.nMoneySupply = int64 (r.2.nMoneySupply
      + (l.map fun pindex => H.connectedMoney lib (H.vtxOf pindex.hash)).sum) := by
  induction l generalizing r with
  | nil =>
    simp only [loop_nil, Except.ok.injEq] at h
    subst h
    exact ⟨hr, by simp⟩
  | cons pindex l ih =>
    simp only [loop_cons, bind_eq_ok] at h
    obtain ⟨r₁, h1, h⟩ := h
    simp only [reconnect, bind_eq_ok] at h1
    obtain ⟨block, hread, hc⟩ := h1
    obtain ⟨hindex, hb, hf⟩ := readBlock_eq_ok hst hread
    have hmem := hl pindex (by simp)
    obtain ⟨hm, hv, hu⟩ := connectBlock_money hst.hosts hb (hindex ▸ hst.above _ hmem)
      (fun hvouched => by simp [hf] at hvouched) hr.coins (hst.uncorrected _ hmem) hc
    have hr₁ : Fine H r₁.1 r₁.2 := by
      refine ⟨hv, ?_, by rw [hm, int64_int64]⟩
      intro hash bu hbu
      rcases hu hash bu hbu with hold | ⟨rfl, hfit⟩
      · exact hr.undo _ _ hold
      · rwa [hindex, hb.vtx]
    obtain ⟨i1, i2⟩ := ih (fun q hq => hl q (by simp [hq])) hr₁ h
    refine ⟨i1, ?_⟩
    rw [i2, hm]
    simp [hb.vtx, hindex, add_assoc]

lemma undoneMoney_sub_connected (l : List CBlockIndex) :
    (l.map fun pindex => H.connectedMoney lib (H.vtxOf pindex.hash)).sum
      = undoneMoney lib H l - missing lib H l := by
  induction l with
  | nil => rfl
  | cons pindex l ih =>
    simp only [undoneMoney, missing, List.map_cons, List.sum_cons] at ih ⊢
    rw [ih, Hashes.disconnectedMoney_eq]
    omega

/-- What a run does to the money supply. -/
theorem verifyDB_money (hst : env.Stored net lib H) {g g' : Global} {coinsview : CCoinsView}
    {nCheckDepth : ℤ} (hg : Fine H (.ofView coinsview) g)
    (h : verifyDB env g coinsview nCheckLevel nCheckDepth = .ok g') :
    g'.nMoneySupply = int64 (g.nMoneySupply
      - if 4 ≤ nCheckLevel ∧ env.interrupted (env.lowest nCheckDepth) env.line = false then
          missing lib H (env.undone (clampLevel nCheckLevel) (env.lowest nCheckDepth) env.line)
        else
          undoneMoney lib H
            (env.undone (clampLevel nCheckLevel) (env.lowest nCheckDepth) env.line)) := by
  unfold verifyDB at h
  split at h
  · next hlen =>
    cases h
    have hline : env.line = [] := by
      unfold line
      match env.node.chainActive, hlen with
      | [], _ => rfl
      | [_], _ => rfl
      | _ :: _ :: _, hlen => simp at hlen
    simp [hline, undone, reached, missing, undoneMoney, hg.money]
  simp only [bind_eq_ok, Prod.exists] at h
  obtain ⟨sd, s, hloop, h⟩ := h
  obtain ⟨hfine, hsd, hn, hm⟩ := verifyBlocks_eq_ok hst
    (s := ⟨.ofView coinsview, g, 0, none, 0⟩) hg hloop
  simp only [Nat.zero_add] at hn hm
  have hlevel : 4 ≤ clampLevel nCheckLevel ↔ 4 ≤ nCheckLevel := by
    simp only [clampLevel]
    omega
  cases hi : env.interrupted (env.lowest nCheckDepth) env.line with
  | true =>
    rw [hi] at hsd
    subst hsd
    simp only [if_true, pure_eq_ok] at h
    subst h
    rw [hfine.money] at hm
    simpa using hm
  | false =>
    rw [hi] at hsd
    subst hsd
    simp only [Bool.false_eq_true, if_false, bind_eq_ok] at h
    obtain ⟨_, -, h⟩ := h
    unfold level4 at h
    split at h
    · next hl =>
      simp only [bind_eq_ok, pure_eq_ok] at h
      obtain ⟨r, hr, rfl⟩ := h
      have hpre : env.line.take s.nState
          = env.undone (clampLevel nCheckLevel) (env.lowest nCheckDepth) env.line := by
        rw [hn]
        exact (List.prefix_iff_eq_take.mp (undoneInitial env.line)).symm
      rw [hpre] at hr
      obtain ⟨hfine', hrec⟩ := reconnect_eq_ok hst (fun q hq => (undoneInitial env.line).subset
        (List.mem_reverse.mp hq)) hfine hr
      rw [List.map_reverse, List.sum_reverse, undoneMoney_sub_connected, hfine'.money] at hrec
      rw [if_pos ⟨hlevel.mp hl, rfl⟩, hrec, int64_add_congr hm rfl]
      congr 1
      omega
    · next hl =>
      cases h
      rw [hfine.money] at hm
      rw [if_neg (by rw [← hlevel]; simp [hl])]
      exact hm

end VerifyEnv

/-! ### Concrete runs -/

namespace Concrete

/-- A mined block on top of the genesis block. -/
def firstBlock (vtx : List CTransaction) : CBlock := ⟨2, 1, 0, 1500000060, 0, vtx, [], false⟩

/-- A synchronised node that has only the genesis block. -/
def genesisNode : Node := .idle mainParams (.simple 0) [genesisIndex]

/-- What `VerifyDB` reads when that block is the tip; no limit on the caches, no shutdown. -/
def firstEnv (vtx : List CTransaction) : VerifyEnv where
  node := .idle mainParams (.simple 0) [genesisIndex, firstIndex]
  readBlockFromDisk := fun pindex => if pindex.hash = 2 then some (firstBlock vtx) else none
  cacheFits := fun _ => true
  shutdownRequested := fun _ => false

/-- Connect the block and run `VerifyDB` on what that leaves: the view and the globals before, and
the globals after. -/
def verifyFirst (vtx : List CTransaction) (nCheckLevel : ℤ) :
    Option ((CCoinsViewCache × Global) × Global) := do
  let r ← (connectBlock genesisNode .initial (firstBlock vtx) firstIndex
    (.ofView ⟨fun _ => none, 1⟩) false false).toOption
  let g ← (verifyDB (firstEnv vtx) r.2 r.1.toView nCheckLevel 1).toOption
  return (r, g)

lemma verifyFirst_eq_some {vtx : List CTransaction} {nCheckLevel : ℤ} {v : CCoinsViewCache}
    {g g' : Global} (h : verifyFirst vtx nCheckLevel = some ((v, g), g')) :
    connectBlock genesisNode .initial (firstBlock vtx) firstIndex (.ofView ⟨fun _ => none, 1⟩)
        false false = .ok (v, g) ∧
      verifyDB (firstEnv vtx) g v.toView nCheckLevel 1 = .ok g' := by
  simp only [verifyFirst, Option.bind_eq_bind, Option.bind_eq_some_iff, toOption_eq_some] at h
  obtain ⟨r, hr, g₁, hg, h⟩ := h
  cases h
  exact ⟨hr, hg⟩

end Concrete

/-! ### When the money supply is kept -/

/-- **When `VerifyDB` keeps the money supply**: exactly under the condition. -/
theorem verifyDB_keeps_nMoneySupply_iff {env : VerifyEnv} {net : Network} {lib : Libzerocoin}
    {H : Hashes} (hst : env.Stored net lib H) {g g' : Global} {coinsview : CCoinsView}
    {nCheckLevel nCheckDepth : ℤ} (hg : VerifyEnv.Fine H (.ofView coinsview) g)
    (h : verifyDB env g coinsview nCheckLevel nCheckDepth = .ok g') :
    g'.nMoneySupply = g.nMoneySupply ↔ env.KeepsMoney lib H nCheckLevel nCheckDepth := by
  rw [VerifyEnv.verifyDB_money hst hg h, int64_sub_eq_self hg.money, VerifyEnv.KeepsMoney]
  split <;> rfl

open Concrete in
/-- A block with nothing but its reward, checked at level 4. -/
theorem verifyDB_keeps_nMoneySupply_reward :
    ∃ v g g', connectBlock genesisNode .initial (firstBlock [coinBaseTx (50 * COIN)]) firstIndex
        (.ofView ⟨fun _ => none, 1⟩) false false = .ok (v, g) ∧
      verifyDB (firstEnv [coinBaseTx (50 * COIN)]) g v.toView 4 1 = .ok g' ∧
      g.nMoneySupply = 50 * COIN ∧ g'.nMoneySupply = g.nMoneySupply := by
  have hok : (verifyFirst [coinBaseTx (50 * COIN)] 4).map (fun r => r.1.2.nMoneySupply)
      = some (50 * COIN) := by
    decide
  obtain ⟨⟨⟨v, g⟩, g'⟩, hr, hg⟩ := Option.map_eq_some_iff.mp hok
  obtain ⟨h1, h2⟩ := verifyFirst_eq_some hr
  refine ⟨v, g, g', h1, h2, hg, ?_⟩
  have hb : rewardHashes.Holds (firstBlock [coinBaseTx (50 * COIN)]) :=
    ⟨rfl, by simp [firstBlock, rewardHashes]⟩
  have hn : ∀ chain, rewardHashes.Hosts .MAIN (.simple 0) (.idle mainParams (.simple 0) chain) :=
    fun chain => ⟨rfl, rfl, fun _ _ _ h => by simp [Node.idle] at h⟩
  have hst : (firstEnv [coinBaseTx (50 * COIN)]).Stored .MAIN (.simple 0) rewardHashes := by
    refine ⟨hn _, ?_, by decide, by decide⟩
    intro pindex block hread
    simp only [firstEnv] at hread
    split at hread
    · next hp =>
      cases hread
      exact ⟨hp, hb, rfl⟩
    · cases hread
  obtain ⟨hm, hv, hu⟩ := connectBlock_money (hn _) hb (by decide)
    (fun hvouched => by simp [firstBlock] at hvouched)
    ⟨CCoinsMap.every_empty, fun o c hc => by simp [CCoinsViewCache.ofView] at hc⟩ (by decide) h1
  have hfine : VerifyEnv.Fine rewardHashes (.ofView v.toView) g := by
    refine ⟨⟨CCoinsMap.every_empty, hv.toView⟩, ?_, by rw [hm, int64_int64]⟩
    intro h bu hbu
    rcases hu h bu hbu with hold | ⟨rfl, hfit⟩
    · simp [Global.initial] at hold
    · exact hfit
  exact (verifyDB_keeps_nMoneySupply_iff hst hfine h2).mpr (by decide)

open Concrete in
/-- A block with nothing but its reward, checked at level 3: the reward is gone from the money
supply. And a block with a private spend of 5000 coins, checked at level 4, the level that all
callers ask for: 5000 coins are gone. -/
theorem verifyDB_changes_money_supply :
    (verifyFirst [coinBaseTx (50 * COIN)] 3).map
        (fun r => (r.1.2.nMoneySupply, r.2.nMoneySupply)) = some (50 * COIN, 0) ∧
      (verifyFirst [coinBaseTx (50 * COIN), spendTx] 4).map
        (fun r => (r.1.2.nMoneySupply, r.2.nMoneySupply)) = some (-4950 * COIN, -9950 * COIN) := by
  refine ⟨?_, ?_⟩
  · decide
  · decide +kernel

end Agenor
