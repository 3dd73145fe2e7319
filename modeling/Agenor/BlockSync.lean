import Agenor.ActiveChain
import Agenor.BlockDownload
import Mathlib.Data.List.TakeWhile
import Mathlib.Tactic.IntervalCases

/-!
Which blocks are asked of which peer (`main.cpp`): `ProcessBlockAvailability`,
`UpdateBlockAvailability`, `FindNextBlocksToDownload` and the part of `SendMessages` that calls it.

The walk from the last common block towards the best block of a peer goes in chunks, each of which
is found from its far end through the skip pointers. The chunks are of no consequence: the walk is
one pass over the path between the two blocks.
-/

namespace Agenor

open Lib.Ancestry

def BLOCK_DOWNLOAD_WINDOW : ℕ := 1024

def MAX_BLOCKS_IN_TRANSIT_PER_PEER : ℕ := 16

/-- In seconds. -/
def BLOCK_STALLING_TIMEOUT : ℤ := 2

/-- `mapBlockIndex` with what the download reads of its entries, and the active chain. -/
structure SyncIndex (α : Type*) where
  map : BlockMap α
  chainActive : CChain α
  nChainWork : α → ℕ
  status : α → BlockStatus
  getBlockHash : α → Uint256

/-- What `CNodeState` has about the blocks that a peer has. -/
structure PeerSync (α : Type*) where
  /-- Zero is the null hash. -/
  hashLastUnknownBlock : Uint256
  pindexBestKnownBlock : Option α
  pindexLastCommonBlock : Option α
  deriving DecidableEq, Repr

def PeerSync.initial {α : Type*} : PeerSync α := ⟨0, none, none⟩

/-- The variables of `FindNextBlocksToDownload` that the walk changes, and whether it has
returned. -/
structure FetchState (α : Type*) where
  pindexLastCommonBlock : α
  vBlocks : List α
  waitingfor : NodeId
  nodeStaller : NodeId
  done : Bool
  deriving DecidableEq, Repr

namespace SyncIndex

variable {α : Type*} (s : SyncIndex α)

def nHeight (b : α) : ℕ := s.map.nHeight b

/-- `mapBlockIndex.find`. -/
def find (hash : Uint256) : Option α :=
  s.map.mapBlockIndex.find? fun b => s.getBlockHash b == hash

/-- `mapBlockIndex.find`, if the entry has `nChainWork > 0`. -/
def findWork (hash : Uint256) : Option α :=
  (s.find hash).filter fun b => decide (0 < s.nChainWork b)

/-- The entry is the best known block, unless one with more work is. -/
def better (state : PeerSync α) (pindex : α) : PeerSync α :=
  match state.pindexBestKnownBlock with
  | none => { state with pindexBestKnownBlock := some pindex }
  | some best =>
    if s.nChainWork best ≤ s.nChainWork pindex then
      { state with pindexBestKnownBlock := some pindex }
    else state

def processBlockAvailability (state : PeerSync α) : PeerSync α :=
  if state.hashLastUnknownBlock = 0 then state
  else match s.findWork state.hashLastUnknownBlock with
    | some itOld => { s.better state itOld with hashLastUnknownBlock := 0 }
    | none => state

def updateBlockAvailability (state : PeerSync α) (hash : Uint256) : PeerSync α :=
  let state := s.processBlockAvailability state
  match s.findWork hash with
  | some it => s.better state it
  | none => { state with hashLastUnknownBlock := hash }

/-- `vToFetch`, filled from its last entry through `pprev`. A null pointer is followed at once or
when the entries are visited. -/
def fetchBack : ℕ → α → Option (List α)
  | 0, b => some [b]
  | i + 1, b => (s.map.pprev b).bind fun p => (fetchBack i p).map (· ++ [b])

variable (mapBlocksInFlight : Uint256 → Option (NodeId × ℕ)) (nodeid : NodeId)
  (count nWindowEnd : ℕ)

/-- `IsValid(BLOCK_VALID_TREE)`. -/
def validTree (b : α) : Bool := (s.status b).isValid BLOCK_VALID_TREE

/-- The body of the loop over `vToFetch`. -/
def visit (st : FetchState α) (pindex : α) : FetchState α :=
  if !s.validTree pindex then { st with done := true }
  else if (s.status pindex).haveData then
    if (s.status pindex).nChainTx = 0 then st else { st with pindexLastCommonBlock := pindex }
  else match mapBlocksInFlight (s.getBlockHash pindex) with
    | none =>
      if nWindowEnd < s.nHeight pindex then
        -- nothing can be fetched, but could be if the window was one larger
        { st with
          nodeStaller :=
            if st.vBlocks.length = 0 ∧ st.waitingfor ≠ nodeid then st.waitingfor
            else st.nodeStaller
          done := true }
      else
        { st with
          vBlocks := st.vBlocks ++ [pindex]
          done := decide (st.vBlocks.length + 1 = count) }
    | some (peer, _) => if st.waitingfor = -1 then { st with waitingfor := peer } else st

/-- The loop over `vToFetch`. -/
def visitAll : List α → FetchState α → FetchState α
  | [], st => st
  | pindex :: vToFetch, st =>
    let st := s.visit mapBlocksInFlight nodeid count nWindowEnd st pindex
    if st.done then st else visitAll vToFetch st

/-- The outer loop; `none` when a null pointer is followed, or the passes run out. -/
def fetchLoop (pindexBest : α) (nMaxHeight : ℕ) : ℕ → α → FetchState α → Option (FetchState α)
  | 0, _, _ => none
  | fuel + 1, pindexWalk, st =>
    if s.nHeight pindexWalk < nMaxHeight then
      let nToFetch := min (nMaxHeight - s.nHeight pindexWalk) (max (count - st.vBlocks.length) 128)
      (s.map.getAncestor pindexBest (s.nHeight pindexWalk + nToFetch : ℕ)).join.bind
        fun pindexWalk => (s.fetchBack (nToFetch - 1) pindexWalk).bind fun vToFetch =>
          let st := s.visitAll mapBlocksInFlight nodeid count nWindowEnd vToFetch st
          if st.done then some st else fetchLoop pindexBest nMaxHeight fuel pindexWalk st
    else some st

section

variable [DecidableEq α]

/-- `FindNextBlocksToDownload` from the last common block on. -/
def fetchFrom (pindexLast pindexBest : α) (vBlocks : List α) (nodeStaller : NodeId) :
    Option (FetchState α) :=
  let st : FetchState α := ⟨pindexLast, vBlocks, -1, nodeStaller, false⟩
  if pindexLast = pindexBest then some st
  else
    let nWindowEnd := s.nHeight pindexLast + BLOCK_DOWNLOAD_WINDOW
    let nMaxHeight := min (s.nHeight pindexBest) (nWindowEnd + 1)
    s.fetchLoop mapBlocksInFlight nodeid count nWindowEnd pindexBest nMaxHeight (nMaxHeight + 1)
      pindexLast st

/-- The last common block that the walk starts from, before it is corrected. -/
def guess (state : PeerSync α) (pindexBest : α) : Option α :=
  match state.pindexLastCommonBlock with
  | some pindexLast => some pindexLast
  | none => s.chainActive.get (min (s.nHeight pindexBest) s.chainActive.height)

/-- `FindNextBlocksToDownload`, with `vBlocks` and `nodeStaller`; `none` when a null pointer is
followed. -/
def findNextBlocksToDownload (state : PeerSync α) (vBlocks : List α) (nodeStaller : NodeId) :
    Option (PeerSync α × List α × NodeId) :=
  if count = 0 then some (state, vBlocks, nodeStaller)
  else
    let state := s.processBlockAvailability state
    match state.pindexBestKnownBlock with
    | none => some (state, vBlocks, nodeStaller)
    | some pindexBest => do
      let tip ← s.chainActive.tip
      if s.nChainWork pindexBest < s.nChainWork tip then some (state, vBlocks, nodeStaller)
      else
        let pindexLast ← s.guess state pindexBest
        let pindexLast ← (s.map.lastCommonAncestor pindexLast pindexBest).join
        let st ← s.fetchFrom mapBlocksInFlight nodeid count pindexLast pindexBest vBlocks
          nodeStaller
        return ({ state with pindexLastCommonBlock := some st.pindexLastCommonBlock }, st.vBlocks,
          st.nodeStaller)

end

/-! ### One pass over the path -/

/-- Neither downloaded nor in flight. -/
def missing (b : α) : Bool :=
  !(s.status b).haveData && (mapBlocksInFlight (s.getBlockHash b)).isNone

def asks (b : α) : Bool := s.missing mapBlocksInFlight b && decide (s.nHeight b ≤ nWindowEnd)

/-- Downloaded, with all blocks below. -/
def linked (b : α) : Bool := (s.status b).haveData && decide ((s.status b).nChainTx ≠ 0)

/-- The peers that blocks which are not there yet are in flight from. -/
def waitsFor (b : α) : Option NodeId :=
  if (s.status b).haveData then none else (mapBlocksInFlight (s.getBlockHash b)).map (·.1)

/-- The shortest beginning of a list with `n` of its entries that satisfy `p`, if there are. -/
def upTo (p : α → Bool) : ℕ → List α → List α
  | _, [] => []
  | n, a :: l => if p a then (if n ≤ 1 then [a] else a :: upTo p (n - 1) l) else a :: upTo p n l

lemma upTo_subset (p : α → Bool) (n : ℕ) (l : List α) : upTo p n l ⊆ l := by
  induction l generalizing n with
  | nil => exact List.Subset.refl _
  | cons a l ih =>
    rw [upTo]
    split_ifs
    · simp
    · exact List.cons_subset_cons a (ih _)
    · exact List.cons_subset_cons a (ih _)

/-- The first peer that the list waits for. -/
def firstAwaited (waitingfor : NodeId) (l : List α) : NodeId :=
  if waitingfor = -1 then
    ((l.filterMap (s.waitsFor mapBlocksInFlight)).find? (· != -1)).getD (-1)
  else waitingfor

/-- What a walk over a path comes to. The path counts up to the first block that is not valid. -/
structure Fetched (path : List α) (st r : FetchState α) : Prop where
  vBlocks : r.vBlocks = st.vBlocks ++
    ((path.filter (s.asks mapBlocksInFlight nWindowEnd)).take (count - st.vBlocks.length))
  lastCommon : r.pindexLastCommonBlock =
    (((upTo (s.asks mapBlocksInFlight nWindowEnd) (count - st.vBlocks.length) path).filter
      s.linked).getLast?).getD st.pindexLastCommonBlock
  nodeStaller : r.nodeStaller =
    if st.vBlocks = [] ∧ path.filter (s.asks mapBlocksInFlight nWindowEnd) = [] ∧
        path.filter (s.missing mapBlocksInFlight) ≠ [] ∧
        s.firstAwaited mapBlocksInFlight st.waitingfor path ≠ nodeid then
      s.firstAwaited mapBlocksInFlight st.waitingfor path
    else st.nodeStaller

/-- The part of a path that is not known to be invalid. -/
def validPart (path : List α) : List α := path.takeWhile s.validTree

variable {s mapBlocksInFlight nodeid count nWindowEnd}

lemma visit_invalid {st : FetchState α} {b : α} (hvalid : s.validTree b = false) :
    s.visit mapBlocksInFlight nodeid count nWindowEnd st b = { st with done := true } := by
  simp [visit, hvalid]

section

variable {st : FetchState α} {b : α} (hvalid : s.validTree b = true)

include hvalid

lemma visit_data (hdata : (s.status b).haveData = true) :
    s.visit mapBlocksInFlight nodeid count nWindowEnd st b =
      { st with pindexLastCommonBlock := if s.linked b then b else st.pindexLastCommonBlock } := by
  by_cases hzero : (s.status b).nChainTx = 0 <;> simp [visit, hvalid, hdata, linked, hzero]

lemma visit_flying {peer : NodeId} {it : ℕ} (hdata : (s.status b).haveData = false)
    (hmap : mapBlocksInFlight (s.getBlockHash b) = some (peer, it)) :
    s.visit mapBlocksInFlight nodeid count nWindowEnd st b =
      { st with waitingfor := if st.waitingfor = -1 then peer else st.waitingfor } := by
  by_cases hwait : st.waitingfor = -1 <;> simp [visit, hvalid, hdata, hmap, hwait]

lemma visit_beyond (hmissing : s.missing mapBlocksInFlight b = true)
    (hhigh : nWindowEnd < s.nHeight b) :
    s.visit mapBlocksInFlight nodeid count nWindowEnd st b =
      { st with
        nodeStaller :=
          if st.vBlocks = [] ∧ st.waitingfor ≠ nodeid then st.waitingfor else st.nodeStaller
        done := true } := by
  simp only [missing, Bool.and_eq_true, Bool.not_eq_true', Option.isNone_iff_eq_none] at hmissing
  simp [visit, hvalid, hmissing.1, hmissing.2, hhigh]

lemma visit_asks (hasks : s.asks mapBlocksInFlight nWindowEnd b = true) :
    s.visit mapBlocksInFlight nodeid count nWindowEnd st b =
      { st with
        vBlocks := st.vBlocks ++ [b]
        done := decide (st.vBlocks.length + 1 = count) } := by
  simp only [asks, missing, Bool.and_eq_true, Bool.not_eq_true', Option.isNone_iff_eq_none,
    decide_eq_true_eq] at hasks
  simp [visit, hvalid, hasks.1.1, hasks.1.2, hasks.2]

end

lemma Fetched.skip {b : α} {l : List α} {st st' r : FetchState α}
    (h : s.Fetched mapBlocksInFlight nodeid count nWindowEnd l st' r)
    (hmissing : s.missing mapBlocksInFlight b = false) (hvBlocks : st'.vBlocks = st.vBlocks)
    (hlast : st'.pindexLastCommonBlock = if s.linked b then b else st.pindexLastCommonBlock)
    (hwait : s.firstAwaited mapBlocksInFlight st'.waitingfor l =
      s.firstAwaited mapBlocksInFlight st.waitingfor (b :: l))
    (hstaller : st'.nodeStaller = st.nodeStaller) :
    s.Fetched mapBlocksInFlight nodeid count nWindowEnd (b :: l) st r := by
  have hasks : s.asks mapBlocksInFlight nWindowEnd b = false := by rw [asks, hmissing]; rfl
  obtain ⟨h1, h2, h3⟩ := h
  refine ⟨?_, ?_, ?_⟩
  · rw [h1, hvBlocks, List.filter_cons_of_neg (by simp [hasks])]
  · rw [h2, hvBlocks, hlast, upTo, hasks, if_neg Bool.false_ne_true,
      List.filter_cons]
    split_ifs
    · rw [List.getLast?_cons, Option.getD_some]
    · rfl
  · rw [h3, hvBlocks, hwait, hstaller, List.filter_cons_of_neg (by simp [hasks]),
      List.filter_cons_of_neg (by simp [hmissing])]

lemma visitAll_fetched {path : List α} {st : FetchState α} (hdone : st.done = false)
    (hpath : path.Pairwise fun a b => s.nHeight a < s.nHeight b)
    (hend : ∀ b ∈ path, s.nHeight b ≤ nWindowEnd + 1) (hcount : st.vBlocks.length < count) :
    s.Fetched mapBlocksInFlight nodeid count nWindowEnd (s.validPart path) st
      (s.visitAll mapBlocksInFlight nodeid count nWindowEnd path st) := by
  induction path generalizing st with
  | nil => exact ⟨by simp [visitAll, validPart], rfl, by simp [visitAll, validPart]⟩
  | cons b l ih =>
    rw [List.pairwise_cons] at hpath
    rw [List.forall_mem_cons] at hend
    unfold visitAll validPart
    dsimp only
    by_cases hvalid : s.validTree b = true
    swap
    · -- the chain of the peer is invalid
      rw [List.takeWhile_cons_of_neg hvalid, visit_invalid (by simpa using hvalid), if_pos rfl]
      exact ⟨by simp, rfl, by simp⟩
    rw [List.takeWhile_cons_of_pos hvalid, ← validPart]
    by_cases hdata : (s.status b).haveData = true
    · have hmissing : s.missing mapBlocksInFlight b = false := by simp [missing, hdata]
      have hwait : s.waitsFor mapBlocksInFlight b = none := by simp [waitsFor, hdata]
      rw [visit_data hvalid hdata, if_neg (by simp [hdone])]
      exact Fetched.skip (ih hdone hpath.2 hend.2 hcount) hmissing rfl rfl
        (by simp [firstAwaited, hwait]) rfl
    rw [Bool.not_eq_true] at hdata
    have hlinked : s.linked b = false := by simp [linked, hdata]
    cases hmap : mapBlocksInFlight (s.getBlockHash b) with
    | some r =>
      obtain ⟨peer, it⟩ := r
      have hmissing : s.missing mapBlocksInFlight b = false := by simp [missing, hmap]
      have hpeer : s.waitsFor mapBlocksInFlight b = some peer := by simp [waitsFor, hdata, hmap]
      rw [visit_flying hvalid hdata hmap, if_neg (by simp [hdone])]
      refine Fetched.skip (ih hdone hpath.2 hend.2 hcount) hmissing rfl (by simp [hlinked]) ?_ rfl
      by_cases hwait : st.waitingfor = -1
      · by_cases hself : peer = -1 <;> simp [firstAwaited, hwait, hself, hpeer]
      · simp [firstAwaited, hwait]
    | none =>
      have hmissing : s.missing mapBlocksInFlight b = true := by simp [missing, hdata, hmap]
      have hwait : s.waitsFor mapBlocksInFlight b = none := by simp [waitsFor, hdata, hmap]
      by_cases hhigh : nWindowEnd < s.nHeight b
      · -- it is the last block
        obtain rfl : l = [] := by
          refine List.eq_nil_iff_forall_not_mem.mpr fun c hc => ?_
          have := hpath.1 c hc
          have := hend.2 c hc
          omega
        have hasks : s.asks mapBlocksInFlight nWindowEnd b = false := by
          simp [asks, hmissing, hhigh]
        have hfirst : s.firstAwaited mapBlocksInFlight st.waitingfor [b] = st.waitingfor := by
          by_cases hw : st.waitingfor = -1 <;> simp [firstAwaited, hwait, hw]
        rw [visit_beyond hvalid hmissing hhigh, if_pos rfl]
        exact ⟨by simp [validPart, hasks], by simp [validPart, upTo, hasks, hlinked],
          by simp [validPart, hasks, hmissing, hfirst]⟩
      · have hasks : s.asks mapBlocksInFlight nWindowEnd b = true := by
          simp [asks, hmissing, Nat.le_of_not_lt hhigh]
        have hstaller : ¬ (st.vBlocks = [] ∧
            (b :: s.validPart l).filter (s.asks mapBlocksInFlight nWindowEnd) = [] ∧
            (b :: s.validPart l).filter (s.missing mapBlocksInFlight) ≠ [] ∧
            s.firstAwaited mapBlocksInFlight st.waitingfor (b :: s.validPart l) ≠ nodeid) := by
          rintro ⟨-, hnone, -⟩
          simp [hasks] at hnone
        rw [visit_asks hvalid hasks]
        by_cases hlast : st.vBlocks.length + 1 = count
        · rw [if_pos (by simpa using hlast)]
          have hone : count - st.vBlocks.length = 1 := by omega
          refine ⟨?_, ?_, (if_neg hstaller).symm⟩
          · rw [hone, List.filter_cons_of_pos hasks]
            simp
          · rw [hone, upTo, if_pos hasks, if_pos le_rfl]
            simp [hlinked]
        · rw [if_neg (by simpa using hlast)]
          obtain ⟨n, hn⟩ : ∃ n, count - st.vBlocks.length = n + 2 :=
            ⟨count - st.vBlocks.length - 2, by omega⟩
          have hn' : count - (st.vBlocks ++ [b]).length = n + 1 := by
            rw [List.length_append, List.length_singleton]
            omega
          obtain ⟨h1, h2, h3⟩ := @ih { st with
            vBlocks := st.vBlocks ++ [b]
            done := decide (st.vBlocks.length + 1 = count) } (by simpa using hlast) hpath.2 hend.2
            (by simp only [List.length_append, List.length_singleton]; omega)
          refine ⟨?_, ?_, ?_⟩
          · rw [h1, hn, hn', List.filter_cons_of_pos hasks, List.append_assoc, List.take_succ_cons]
            rfl
          · rw [h2, hn, hn', upTo, if_pos hasks, if_neg (by omega),
              List.filter_cons_of_neg (by simp [hlinked])]
            rfl
          · rw [h3, if_neg hstaller, if_neg (by simp)]

/-! ### The chunks -/

lemma visitAll_cons (b : α) (l : List α) (st : FetchState α) :
    s.visitAll mapBlocksInFlight nodeid count nWindowEnd (b :: l) st =
      if (s.visit mapBlocksInFlight nodeid count nWindowEnd st b).done then
        s.visit mapBlocksInFlight nodeid count nWindowEnd st b
      else s.visitAll mapBlocksInFlight nodeid count nWindowEnd l
        (s.visit mapBlocksInFlight nodeid count nWindowEnd st b) := rfl

lemma visitAll_append {l₁ l₂ : List α} {st r : FetchState α} (hdone : st.done = false)
    (hr : s.visitAll mapBlocksInFlight nodeid count nWindowEnd l₁ st = r) :
    s.visitAll mapBlocksInFlight nodeid count nWindowEnd (l₁ ++ l₂) st =
      if r.done then r else s.visitAll mapBlocksInFlight nodeid count nWindowEnd l₂ r := by
  induction l₁ generalizing st with
  | nil =>
    obtain rfl : st = r := hr
    simp [hdone]
  | cons b l ih =>
    rw [visitAll_cons] at hr
    rw [List.cons_append, visitAll_cons]
    by_cases hb : (s.visit mapBlocksInFlight nodeid count nWindowEnd st b).done = true
    · rw [if_pos hb] at hr
      rw [if_pos hb, ← hr, if_pos hb]
    · rw [if_neg hb] at hr
      rw [if_neg hb]
      exact ih (by simpa using hb) hr

lemma fetchBack_eq_line {n : ℕ} {a b : α} (h : climb s.map.pprev n b = some a) :
    s.fetchBack n b = some (line s.map.pprev (n + 1) b) := by
  induction n generalizing b with
  | zero => cases hp : s.map.pprev b <;> simp [fetchBack, line, hp]
  | succ n ih =>
    obtain ⟨p, hp, h⟩ := Option.bind_eq_some_iff.mp h
    rw [line, hp, Option.map_some, Option.getD_some, fetchBack, hp, Option.bind_some, ih h,
      Option.map_some]

variable {S : α → Prop}

lemma fetchLoop_eq (h : BlockMap.Skipped s.map S) {best top w : α} {fuel : ℕ} {st : FetchState α}
    (hbest : S best) (htop : Anc s.map.pprev top best) (hw : Anc s.map.pprev w top)
    (hdone : st.done = false) (hfuel : s.nHeight top - s.nHeight w < fuel) :
    s.fetchLoop mapBlocksInFlight nodeid count nWindowEnd best (s.nHeight top) fuel w st =
      some (s.visitAll mapBlocksInFlight nodeid count nWindowEnd
        (line s.map.pprev (s.nHeight top - s.nHeight w) top) st) := by
  have hStop := h.graded.mem hbest htop
  induction fuel generalizing w st with
  | zero => omega
  | succ fuel ih =>
    unfold fetchLoop
    have hle := h.graded.height_le hStop hw
    by_cases hlt : s.nHeight w < s.nHeight top
    swap
    · have hzero : s.nHeight top - s.nHeight w = 0 := by omega
      rw [if_neg hlt, hzero]
      rfl
    rw [if_pos hlt]
    dsimp only
    obtain ⟨n, hn⟩ : ∃ n, min (s.nHeight top - s.nHeight w) (max (count - st.vBlocks.length) 128) =
        n + 1 := ⟨_, (Nat.sub_add_cancel (by omega)).symm⟩
    rw [hn, Nat.add_sub_cancel]
    have hnle : s.nHeight w + (n + 1) ≤ s.nHeight top := by omega
    obtain ⟨w', hw', hanc, hh⟩ := h.getAncestor (k := s.nHeight w + (n + 1)) hStop hnle
    obtain ⟨w₂, hw₂, hanc₂, hh₂⟩ := h.getAncestor (k := s.nHeight w + (n + 1)) hbest
      (hnle.trans (h.graded.height_le hbest htop))
    -- the ancestor of the best block is on the way to the top
    obtain rfl : w₂ = w' := by
      rcases hanc₂.total (hanc.trans htop) with ha | ha
      · exact h.graded.eq_of_height (h.graded.mem hStop hanc) ha (by omega)
      · exact (h.graded.eq_of_height (h.graded.mem hbest hanc₂) ha (by omega)).symm
    have hSw := h.graded.mem hStop hanc
    obtain ⟨a, ha, -⟩ := h.graded.exists_climb h.root (n := n) hSw (by unfold nHeight at *; omega)
    have hclimb : climb s.map.pprev (s.nHeight top - s.nHeight w₂) top = some w₂ :=
      ((h.graded.climb_iff hStop).mpr hanc).2
    have hsplit : s.nHeight top - s.nHeight w = n + 1 + (s.nHeight top - s.nHeight w₂) := by
      unfold nHeight at *
      omega
    rw [hw₂, Option.join_some, Option.bind_some, fetchBack_eq_line ha, Option.bind_some, hsplit,
      line_add hclimb]
    generalize hr : s.visitAll mapBlocksInFlight nodeid count nWindowEnd
      (line s.map.pprev (n + 1) w₂) st = r
    rw [visitAll_append hdone hr]
    by_cases hrdone : r.done = true
    · rw [if_pos hrdone, if_pos hrdone]
    · rw [if_neg hrdone, if_neg hrdone]
      exact ih hanc (by simpa using hrdone) (by unfold nHeight at *; omega)

/-! ### The next blocks -/

/-- The entries that are known of a peer are in the index. -/
structure Known (s : SyncIndex α) (state : PeerSync α) : Prop where
  best : ∀ b, state.pindexBestKnownBlock = some b → b ∈ s.map.mapBlockIndex
  last : ∀ b, state.pindexLastCommonBlock = some b → b ∈ s.map.mapBlockIndex

variable {state : PeerSync α} {genesis tip : α}

lemma mem_of_findWork {hash : Uint256} {b : α} (h : s.findWork hash = some b) :
    b ∈ s.map.mapBlockIndex :=
  List.mem_of_find?_eq_some (Option.eq_some_of_filter_eq_some h)

lemma Known.better (h : s.Known state) {b : α} (hb : b ∈ s.map.mapBlockIndex) :
    s.Known (s.better state b) := by
  have hnew : s.Known { state with pindexBestKnownBlock := some b } :=
    ⟨fun c hc => Option.some.inj hc ▸ hb, h.last⟩
  unfold SyncIndex.better
  split
  · exact hnew
  · split_ifs
    · exact hnew
    · exact h

lemma Known.processBlockAvailability (h : s.Known state) :
    s.Known (s.processBlockAvailability state) := by
  unfold SyncIndex.processBlockAvailability
  split_ifs
  · exact h
  · split
    · next itOld hfind =>
      obtain ⟨h1, h2⟩ := h.better (mem_of_findWork hfind)
      exact ⟨h1, h2⟩
    · exact h

lemma Known.updateBlockAvailability (h : s.Known state) (hash : Uint256) :
    s.Known (s.updateBlockAvailability state hash) := by
  unfold SyncIndex.updateBlockAvailability
  dsimp only
  split
  · next it hfind => exact h.processBlockAvailability.better (mem_of_findWork hfind)
  · obtain ⟨h1, h2⟩ := h.processBlockAvailability
    exact ⟨h1, h2⟩

variable [DecidableEq α]

/-- A tree with one root, and a chain in it that is not empty. -/
structure Rooted (s : SyncIndex α) (genesis tip : α) : Prop where
  built : BlockMap.Built s.map
  genesis : ∀ b ∈ s.map.mapBlockIndex, Anc s.map.pprev genesis b
  path : CChain.IsPathTo s.map s.chainActive.vChain (some tip)

lemma Rooted.tip_eq (h : s.Rooted genesis tip) : s.chainActive.tip = some tip := by
  obtain ⟨ht, hpath⟩ := h.path
  have hself := hpath.below.self h.built.skipped.graded ht
  rw [CChain.tip, List.getLast?_eq_getElem?, hpath.length, Nat.add_sub_cancel, hself]
  rfl

lemma Rooted.exists_guess (h : s.Rooted genesis tip) (hknown : s.Known state) (best : α) :
    ∃ b ∈ s.map.mapBlockIndex, s.guess state best = some b := by
  unfold SyncIndex.guess
  cases hlast : state.pindexLastCommonBlock with
  | some b => exact ⟨b, hknown.last b hlast, rfl⟩
  | none =>
    obtain ⟨ht, hpath⟩ := h.path
    have hheight : s.chainActive.height = s.map.nHeight tip := by
      rw [CChain.height, hpath.length]
      omega
    obtain ⟨b, hb, hanc, -⟩ := hpath.below (min (s.nHeight best) (s.map.nHeight tip)) (by omega)
    refine ⟨b, h.built.skipped.graded.mem ht hanc, ?_⟩
    have hmin : min (s.nHeight best : ℤ) (s.chainActive.height) =
        ((min (s.nHeight best) (s.map.nHeight tip) : ℕ) : ℤ) := by
      rw [hheight]
      omega
    dsimp only
    rw [hmin, CChain.get_natCast, hb]
    rfl

/-- Where the path that is looked at ends: towards the best block of the peer, and not further than
one block past the window. -/
structure Ahead (s : SyncIndex α) (pindexLast pindexBest top : α) : Prop where
  below : Anc s.map.pprev pindexLast top
  up : Anc s.map.pprev top pindexBest
  height : s.nHeight top =
    min (s.nHeight pindexBest) (s.nHeight pindexLast + BLOCK_DOWNLOAD_WINDOW + 1)

def ahead (s : SyncIndex α) (pindexLast top : α) : List α :=
  line s.map.pprev (s.nHeight top - s.nHeight pindexLast) top

variable (mapBlocksInFlight nodeid) in
lemma fetchFrom_fetched (h : BlockMap.Skipped s.map S) {last best : α} {vBlocks : List α}
    (nodeStaller : NodeId) (hbest : S best) (hlast : Anc s.map.pprev last best)
    (hcount : vBlocks.length < count) :
    ∃ top r, s.Ahead last best top ∧
      s.fetchFrom mapBlocksInFlight nodeid count last best vBlocks nodeStaller = some r ∧
      s.Fetched mapBlocksInFlight nodeid count (s.nHeight last + BLOCK_DOWNLOAD_WINDOW)
        (s.validPart (s.ahead last top)) ⟨last, vBlocks, -1, nodeStaller, false⟩ r := by
  have hle := h.graded.height_le hbest hlast
  obtain ⟨top, -, hup, hheight⟩ := h.getAncestor (k := min (s.nHeight best)
    (s.nHeight last + BLOCK_DOWNLOAD_WINDOW + 1)) hbest (Nat.min_le_left _ _)
  have hStop := h.graded.mem hbest hup
  have hbelow : Anc s.map.pprev last top := by
    rcases hlast.total hup with ha | ha
    · exact ha
    · have hlow := h.graded.height_le (h.graded.mem hbest hlast) ha
      rw [h.graded.eq_of_height (h.graded.mem hbest hlast) ha (by unfold nHeight at *; omega)]
      exact .refl last
  have hfetched : s.Fetched mapBlocksInFlight nodeid count
      (s.nHeight last + BLOCK_DOWNLOAD_WINDOW) (s.validPart (s.ahead last top))
      ⟨last, vBlocks, -1, nodeStaller, false⟩
      (s.visitAll mapBlocksInFlight nodeid count (s.nHeight last + BLOCK_DOWNLOAD_WINDOW)
        (s.ahead last top) ⟨last, vBlocks, -1, nodeStaller, false⟩) := by
    refine visitAll_fetched rfl (h.graded.pairwise_line hStop) (fun b hb => ?_) hcount
    have := h.graded.height_le hStop (anc_of_mem_line hb)
    unfold nHeight at *
    omega
  refine ⟨top, _, ⟨hbelow, hup, hheight⟩, ?_, hfetched⟩
  unfold fetchFrom
  by_cases heq : last = best
  · -- the path is empty
    subst heq
    have hzero : s.nHeight top - s.nHeight last = 0 := by
      unfold nHeight at *
      omega
    rw [if_pos rfl, ahead, hzero]
    rfl
  · rw [if_neg heq]
    dsimp only
    have hmax : min (s.nHeight best) (s.nHeight last + BLOCK_DOWNLOAD_WINDOW + 1) =
        s.nHeight top := hheight.symm
    rw [hmax]
    exact fetchLoop_eq h hbest hup hbelow rfl (by omega)

variable (mapBlocksInFlight nodeid) in
/-- **`FindNextBlocksToDownload`.** A peer whose best known block has less work than the tip is
asked for nothing. Else the walk starts from the deepest block that the best block of the peer has
in common with the block where the walk ended before, or with the active chain, and it is one pass
over the path from there: no null pointer is followed, and what is asked for, the new last common
block and the peer that stalls are those of the path. -/
theorem findNextBlocksToDownload_eq (h : s.Rooted genesis tip) (hknown : s.Known state)
    (vBlocks : List α) (hcount : vBlocks.length < count) (nodeStaller : NodeId) :
    let t := s.processBlockAvailability state
    ((∀ best, t.pindexBestKnownBlock = some best → s.nChainWork best < s.nChainWork tip) →
      s.findNextBlocksToDownload mapBlocksInFlight nodeid count state vBlocks nodeStaller =
        some (t, vBlocks, nodeStaller)) ∧
    ∀ best, t.pindexBestKnownBlock = some best → s.nChainWork tip ≤ s.nChainWork best →
      ∃ guess last top r, s.guess t best = some guess ∧ Meet s.map.pprev last guess best ∧
        s.Ahead last best top ∧
        s.Fetched mapBlocksInFlight nodeid count (s.nHeight last + BLOCK_DOWNLOAD_WINDOW)
          (s.validPart (s.ahead last top)) ⟨last, vBlocks, -1, nodeStaller, false⟩ r ∧
        s.findNextBlocksToDownload mapBlocksInFlight nodeid count state vBlocks nodeStaller =
          some ({ t with pindexLastCommonBlock := some r.pindexLastCommonBlock }, r.vBlocks,
            r.nodeStaller) := by
  intro t
  have ht : s.Known t := hknown.processBlockAvailability
  have hpos : count ≠ 0 := by omega
  unfold findNextBlocksToDownload
  rw [if_neg hpos]
  dsimp only
  rw [h.tip_eq]
  refine ⟨fun hless => ?_, fun best hbest hwork => ?_⟩
  · cases hbest : t.pindexBestKnownBlock with
    | none => rfl
    | some best =>
      dsimp only
      rw [Option.bind_eq_bind, Option.bind_some, if_pos (hless best hbest)]
  · have hin := ht.best best hbest
    obtain ⟨guess, hguess, hg⟩ := h.exists_guess ht best
    obtain ⟨last, hlast, hmeet⟩ := h.built.skipped.lastCommonAncestor hguess hin
      (h.genesis guess hguess) (h.genesis best hin)
    obtain ⟨top, r, hahead, hr, hfetched⟩ := fetchFrom_fetched mapBlocksInFlight nodeid
      h.built.skipped nodeStaller hin hmeet.right hcount
    refine ⟨guess, last, top, r, hg, hmeet, hahead, hfetched, ?_⟩
    rw [hbest]
    dsimp only
    rw [Option.bind_eq_bind, Option.bind_some, if_neg (Nat.not_lt.mpr hwork), hg,
      Option.bind_eq_bind, Option.bind_some, hlast, Option.join_some, Option.bind_some, hr]
    rfl

structure Requests (s : SyncIndex α) (mapBlocksInFlight : Uint256 → Option (NodeId × ℕ))
    (count : ℕ) (peer : PeerSync α) (vBlocks : List α) (staller : NodeId) : Prop where
  known : s.Known peer
  nodup : vBlocks.Nodup
  length : vBlocks.length ≤ count
  each : ∀ b ∈ vBlocks, s.validTree b = true ∧ s.missing mapBlocksInFlight b = true ∧
    ∃ best, peer.pindexBestKnownBlock = some best ∧ Anc s.map.pprev b best
  staller : staller = -1 ∨ ∃ hash it, mapBlocksInFlight hash = some (staller, it)

omit [DecidableEq α] in
lemma firstAwaited_cases (l : List α) :
    s.firstAwaited mapBlocksInFlight (-1) l = -1 ∨
      ∃ hash it, mapBlocksInFlight hash = some (s.firstAwaited mapBlocksInFlight (-1) l, it) := by
  unfold firstAwaited
  rw [if_pos rfl]
  cases hfind : (l.filterMap (s.waitsFor mapBlocksInFlight)).find? (· != -1) with
  | none => exact .inl rfl
  | some peer =>
    obtain ⟨b, -, hb⟩ := List.mem_filterMap.mp (List.mem_of_find?_eq_some hfind)
    unfold waitsFor at hb
    split_ifs at hb
    obtain ⟨⟨q, it⟩, hmap, rfl⟩ := Option.map_eq_some_iff.mp hb
    exact .inr ⟨_, it, hmap⟩

variable (mapBlocksInFlight nodeid) in
lemma findNextBlocksToDownload_requests (h : s.Rooted genesis tip) (hknown : s.Known state)
    (hcount : 0 < count) :
    ∃ peer vBlocks staller,
      s.findNextBlocksToDownload mapBlocksInFlight nodeid count state [] (-1) =
        some (peer, vBlocks, staller) ∧
      s.Requests mapBlocksInFlight count peer vBlocks staller := by
  obtain ⟨hnothing, hwalk⟩ := findNextBlocksToDownload_eq mapBlocksInFlight nodeid h hknown []
    (by simpa using hcount) (-1)
  have ht : s.Known (s.processBlockAvailability state) := hknown.processBlockAvailability
  by_cases hless : ∀ best, (s.processBlockAvailability state).pindexBestKnownBlock = some best →
      s.nChainWork best < s.nChainWork tip
  · exact ⟨_, _, _, hnothing hless, ht, .nil, by simp, by simp, .inl rfl⟩
  push Not at hless
  obtain ⟨best, hbest, hwork⟩ := hless
  obtain ⟨guess, last, top, r, -, hmeet, hahead, hfetched, hr⟩ := hwalk best hbest hwork
  have hin := ht.best best hbest
  have hg := h.built.skipped.graded
  have hvBlocks := hfetched.vBlocks
  dsimp only at hvBlocks
  rw [List.nil_append] at hvBlocks
  have hsub : r.vBlocks.Sublist (s.ahead last top) := by
    rw [hvBlocks]
    exact (List.take_sublist _ _).trans (List.filter_sublist.trans (List.takeWhile_sublist _))
  refine ⟨_, _, _, hr, ⟨ht.best, fun b hb => ?_⟩, ?_, ?_, fun b hb => ⟨?_, ?_, best, hbest, ?_⟩, ?_⟩
  · obtain rfl := Option.some.inj hb
    have hlast := h.built.skipped.graded.mem hin hmeet.right
    rw [hfetched.lastCommon]
    dsimp only
    cases hget : ((upTo (s.asks mapBlocksInFlight (s.nHeight last + BLOCK_DOWNLOAD_WINDOW))
      (count - ([] : List α).length) (s.validPart (s.ahead last top))).filter
      s.linked).getLast? with
    | none => exact hlast
    | some c =>
      have hc := upTo_subset _ _ _ (List.mem_of_mem_filter (List.mem_of_getLast? hget))
      exact hg.mem hin ((anc_of_mem_line (List.takeWhile_subset _ hc)).trans hahead.up)
  · exact hsub.nodup ((hg.pairwise_line (hg.mem hin hahead.up)).imp fun hlt heq => by
      rw [heq] at hlt
      omega)
  · rw [hvBlocks]
    simp
  · rw [hvBlocks] at hb
    exact List.mem_takeWhile_imp (List.mem_of_mem_filter (List.mem_of_mem_take hb))
  · rw [hvBlocks] at hb
    have := (List.mem_filter.mp (List.mem_of_mem_take hb)).2
    simp only [asks, Bool.and_eq_true] at this
    exact this.1
  · exact (anc_of_mem_line (hsub.subset hb)).trans hahead.up
  · rw [hfetched.nodeStaller]
    split_ifs
    · exact firstAwaited_cases _
    · exact .inl rfl

end SyncIndex

namespace Concrete

open SyncIndex

/-- A tree on which the active chain ends one block after the genesis block. -/
def syncIndex (map : BlockMap ℕ) : SyncIndex ℕ where
  map := map
  chainActive := ⟨[some 0, some 1]⟩
  nChainWork := fun b => b + 1
  status := fun b => ⟨BLOCK_VALID_TREE, decide (b ≤ 1), false, false, 1, if b ≤ 1 then 1 else 0, 1⟩
  getBlockHash := BitVec.ofNat 256

/-- A peer with the second of two branches. -/
theorem findNextBlocksToDownload_forked : ∃ map, forkedMap = some map ∧
    ∃ guess last top, ∃ r : FetchState ℕ, (syncIndex map).guess ⟨0, some 3, none⟩ 3 = some guess ∧
      Meet map.pprev last guess 3 ∧ (syncIndex map).Ahead last 3 top ∧
      (syncIndex map).findNextBlocksToDownload (fun _ => none) 7 16 ⟨0, some 3, none⟩ [] (-1) =
        some (⟨0, some 3, some r.pindexLastCommonBlock⟩, r.vBlocks, r.nodeStaller) := by
  obtain ⟨map, hmap, hbuilt, hmem⟩ := forkedMap_built
  have hread : forkedMap.map (fun s =>
      (s.pprev 1, s.pprev 2, s.pprev 3, s.nHeight 0, s.nHeight 1)) =
      some (some 0, some 1, some 1, 0, 1) := by decide
  rw [hmap, Option.map_some, Option.some.injEq, Prod.mk.injEq, Prod.mk.injEq, Prod.mk.injEq,
    Prod.mk.injEq] at hread
  obtain ⟨h1, h2, h3, hzero, hone⟩ := hread
  have hanc : Anc map.pprev 0 1 := .of_parent h1
  have hrooted : (syncIndex map).Rooted 0 1 := by
    refine ⟨hbuilt, fun b hb => ?_, ?_, congrArg (· + 1) hone.symm, fun k hk => ?_⟩
    · change b ∈ map.mapBlockIndex at hb
      simp only [hmem, List.mem_cons, List.not_mem_nil, or_false] at hb
      rcases hb with rfl | rfl | rfl | rfl
      · exact .refl 0
      · exact hanc
      · exact .step h2 hanc
      · exact .step h3 hanc
    · change 1 ∈ map.mapBlockIndex
      simp [hmem]
    · change k ≤ map.nHeight 1 at hk
      rw [hone] at hk
      interval_cases k
      · exact ⟨0, rfl, hanc, hzero⟩
      · exact ⟨1, rfl, .refl 1, hone⟩
  have hknown : (syncIndex map).Known ⟨0, some 3, none⟩ := by
    refine ⟨fun b hb => ?_, nofun⟩
    obtain rfl := Option.some.inj hb
    change 3 ∈ map.mapBlockIndex
    simp [hmem]
  obtain ⟨-, hwalk⟩ := findNextBlocksToDownload_eq (fun _ => none) 7 hrooted hknown []
    (show ([] : List ℕ).length < 16 by decide) (-1)
  obtain ⟨guess, last, top, r, hguess, hmeet, hahead, -, hr⟩ :=
    hwalk 3 rfl (show 1 + 1 ≤ 3 + 1 by decide)
  exact ⟨map, hmap, guess, last, top, r, hguess, hmeet, hahead, hr⟩

end Concrete

end Agenor
