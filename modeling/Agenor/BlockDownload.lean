import Agenor.Transaction
import Mathlib.Algebra.Order.BigOperators.Group.List
import Mathlib.Data.List.Infix
import Mathlib.Tactic.Ring

/-!
The bookkeeping of blocks that are being downloaded (`main.cpp`): which block has been asked of
which peer, how many are in flight from a peer, and how many of all of them had a valid header.

Four functions keep these in step by hand. Where a peer is forgotten with blocks in flight, the
number of blocks with a valid header is not adjusted.
-/

namespace Agenor

abbrev NodeId := ℤ

def MAX_INV_SZ : ℕ := 50000

structure QueuedBlock where
  hash : Uint256
  /-- The entry of the block index, by its hash. -/
  pindex : Option Uint256
  nTime : ℤ
  nValidatedQueuedBefore : ℤ
  fValidatedHeaders : Bool
  deriving DecidableEq, Repr

/-- What `CNodeState` has about the connection and the download. The nodes of the list of blocks
have addresses, which is what an iterator stands for. -/
structure CNodeState where
  fCurrentlyConnected : Bool
  nMisbehavior : ℤ
  fSyncStarted : Bool
  nStallingSince : ℤ
  vBlocksInFlight : List (ℕ × QueuedBlock)
  nBlocksInFlight : ℤ
  fPreferredDownload : Bool
  deriving DecidableEq, Repr

def CNodeState.initial : CNodeState := ⟨false, 0, false, 0, [], 0, false⟩

/-- The globals that keep track of the download. -/
structure Download where
  mapNodeState : List (NodeId × CNodeState)
  /-- The peer and the iterator. -/
  mapBlocksInFlight : Uint256 → Option (NodeId × ℕ)
  nQueuedValidatedHeaders : ℤ
  nSyncStarted : ℤ
  nPreferredDownload : ℤ
  /-- The next address for a node of a list. -/
  next : ℕ

namespace Download

def initial : Download := ⟨[], fun _ => none, 0, 0, 0, 0⟩

/-- The state of a peer in a list of peers. -/
def stateIn (l : List (NodeId × CNodeState)) (pnode : NodeId) : Option CNodeState :=
  (l.find? fun e => e.1 == pnode).map (·.2)

/-- The state of one peer is changed in place. -/
def changed (nodeid : NodeId) (f : CNodeState → CNodeState) (l : List (NodeId × CNodeState)) :
    List (NodeId × CNodeState) :=
  l.map fun e => if e.1 = nodeid then (e.1, f e.2) else e

variable (s : Download)

/-! ### The functions -/

def state (pnode : NodeId) : Option CNodeState := stateIn s.mapNodeState pnode

def initializeNode (nodeid : NodeId) : Download :=
  if (s.state nodeid).isSome then s
  else { s with mapNodeState := s.mapNodeState ++ [(nodeid, .initial)] }

/-- `FinalizeNode`, and the value it returns. A null pointer is followed for a peer that is not
known. -/
def finalizeNode (nodeid : NodeId) : Option (Download × Bool) := do
  let state ← s.state nodeid
  let fUpdateConnectionTime := decide (state.nMisbehavior = 0) && state.fCurrentlyConnected
  return ({ s with
    nSyncStarted := s.nSyncStarted - state.fSyncStarted.toInt
    mapBlocksInFlight := fun h =>
      if h ∈ state.vBlocksInFlight.map (·.2.hash) then none else s.mapBlocksInFlight h
    nPreferredDownload := s.nPreferredDownload - state.fPreferredDownload.toInt
    mapNodeState := s.mapNodeState.filter fun e => e.1 != nodeid }, fUpdateConnectionTime)

/-- A block is taken off the list of a peer. -/
def unqueue (it : ℕ) (state : CNodeState) : CNodeState :=
  { state with
    vBlocksInFlight := state.vBlocksInFlight.eraseP fun e => e.1 == it
    nBlocksInFlight := state.nBlocksInFlight - 1
    nStallingSince := 0 }

/-- `MarkBlockAsReceived`. It fails if the peer or the node of its list are not there any more. -/
def markBlockAsReceived (hash : Uint256) : Option Download :=
  match s.mapBlocksInFlight hash with
  | none => some s
  | some (nodeid, it) => do
    let state ← s.state nodeid
    let entry ← state.vBlocksInFlight.find? fun e => e.1 == it
    return { s with
      nQueuedValidatedHeaders := s.nQueuedValidatedHeaders - entry.2.fValidatedHeaders.toInt
      mapNodeState := changed nodeid (unqueue it) s.mapNodeState
      mapBlocksInFlight := Function.update s.mapBlocksInFlight hash none }

/-- A block is put on the list of a peer. -/
def enqueue (it : ℕ) (newentry : QueuedBlock) (state : CNodeState) : CNodeState :=
  { state with
    vBlocksInFlight := state.vBlocksInFlight ++ [(it, newentry)]
    nBlocksInFlight := state.nBlocksInFlight + 1 }

/-- `MarkBlockAsInFlight` after the block is not listed any more. -/
def queueBlock (nodeid : NodeId) (hash : Uint256) (pindex : Option Uint256) (nTime : ℤ) :
    Download :=
  let newentry : QueuedBlock := ⟨hash, pindex, nTime, s.nQueuedValidatedHeaders, pindex.isSome⟩
  { s with
    nQueuedValidatedHeaders := s.nQueuedValidatedHeaders + newentry.fValidatedHeaders.toInt
    mapNodeState := changed nodeid (enqueue s.next newentry) s.mapNodeState
    mapBlocksInFlight := Function.update s.mapBlocksInFlight hash (some (nodeid, s.next))
    next := s.next + 1 }

/-- `MarkBlockAsInFlight`. The peer must be known. -/
def markBlockAsInFlight (nodeid : NodeId) (hash : Uint256) (pindex : Option Uint256) (nTime : ℤ) :
    Option Download := do
  let _ ← s.state nodeid
  let s ← s.markBlockAsReceived hash
  return s.queueBlock nodeid hash pindex nTime

/-! ### Runs -/

inductive Op
  | initializeNode (nodeid : NodeId)
  | finalizeNode (nodeid : NodeId)
  | markBlockAsReceived (hash : Uint256)
  | markBlockAsInFlight (nodeid : NodeId) (hash : Uint256) (pindex : Option Uint256) (nTime : ℤ)
  deriving DecidableEq, Repr

def step : Op → Option Download
  | .initializeNode nodeid => some (s.initializeNode nodeid)
  | .finalizeNode nodeid => (s.finalizeNode nodeid).map (·.1)
  | .markBlockAsReceived hash => s.markBlockAsReceived hash
  | .markBlockAsInFlight nodeid hash pindex nTime => s.markBlockAsInFlight nodeid hash pindex nTime

/-- The state after some calls, if none of them fails. -/
def exec (ops : List Op) : Option Download := ops.foldlM step initial

/-! ### The bookkeeping -/

/-- The blocks in flight from a peer that had a valid header. -/
def validated (state : CNodeState) : ℤ :=
  (state.vBlocksInFlight.map fun e => e.2.fValidatedHeaders.toInt).sum

/-- The number of all blocks in flight that had one. -/
def validatedInFlight (s : Download) : ℤ := (s.mapNodeState.map fun e => validated e.2).sum

/-- The map and the lists describe the same blocks, and the counters count them. -/
structure Consistent (s : Download) : Prop where
  pairs : ∀ nodeid hash, (∃ it, s.mapBlocksInFlight hash = some (nodeid, it)) ↔
    ∃ state, s.state nodeid = some state ∧ hash ∈ state.vBlocksInFlight.map (·.2.hash)
  once : ∀ nodeid state, s.state nodeid = some state →
    (state.vBlocksInFlight.map (·.2.hash)).Nodup
  lengths : ∀ nodeid state, s.state nodeid = some state →
    state.nBlocksInFlight = state.vBlocksInFlight.length
  headers : s.nQueuedValidatedHeaders = s.validatedInFlight

/-! ### The peers -/

variable {s} {l : List (NodeId × CNodeState)} {nodeid : NodeId} {st : CNodeState}

lemma stateIn_cons (e : NodeId × CNodeState) (l : List (NodeId × CNodeState)) (q : NodeId) :
    stateIn (e :: l) q = if e.1 = q then some e.2 else stateIn l q := by
  unfold stateIn
  by_cases he : e.1 = q
  · simp [he]
  · rw [List.find?_cons_of_neg (by simpa using he), if_neg he]

lemma stateIn_changed (f : CNodeState → CNodeState) (q : NodeId) :
    stateIn (changed nodeid f l) q =
      if q = nodeid then (stateIn l q).map f else stateIn l q := by
  induction l with
  | nil => simp [changed, stateIn]
  | cons e l ih =>
    rw [changed, List.map_cons, stateIn_cons, stateIn_cons, ← changed, ih]
    by_cases he : e.1 = nodeid
    · by_cases hq : e.1 = q
      · simp [he, ← hq]
      · simp [he, show ¬ nodeid = q by rwa [← he]]
    · by_cases hq : e.1 = q
      · simp [hq, show ¬ q = nodeid by rwa [← hq]]
      · simp [he, hq]

lemma map_fst_changed (f : CNodeState → CNodeState) :
    (changed nodeid f l).map (·.1) = l.map (·.1) := by
  rw [changed, List.map_map]
  apply List.map_congr_left
  intro e _
  simp only [Function.comp_apply]
  split_ifs <;> rfl

lemma sum_changed (g : CNodeState → ℤ) (f : CNodeState → CNodeState)
    (hl : (l.map (·.1)).Nodup) (h : stateIn l nodeid = some st) :
    ((changed nodeid f l).map fun e => g e.2).sum =
    (l.map fun e => g e.2).sum - g st + g (f st) := by
  induction l with
  | nil => cases h
  | cons e l ih =>
    rw [List.map_cons, List.nodup_cons] at hl
    rw [stateIn_cons] at h
    rw [changed, List.map_cons, List.map_cons, List.sum_cons, List.map_cons, List.sum_cons,
      ← changed]
    split_ifs at h with he
    · cases h
      have hsame : changed nodeid f l = l := by
        unfold changed
        conv_rhs => rw [← List.map_id l]
        apply List.map_congr_left
        intro a ha
        rw [if_neg, id]
        rintro rfl
        exact hl.1 (he ▸ List.mem_map_of_mem ha)
      rw [hsame, if_pos he]
      ring
    · rw [ih hl.2 h, if_neg he]
      ring

lemma stateIn_filter (q : NodeId) :
    stateIn (l.filter fun e => e.1 != nodeid) q = if q = nodeid then none else stateIn l q := by
  induction l with
  | nil => simp [stateIn]
  | cons e l ih =>
    rw [List.filter_cons, stateIn_cons]
    by_cases he : e.1 = nodeid
    · rw [if_neg (by simpa using he), ih]
      by_cases hq : q = nodeid
      · simp [hq]
      · rw [if_neg hq, if_neg hq, if_neg (by rw [he]; exact Ne.symm hq)]
    · rw [if_pos (by simpa using he), stateIn_cons, ih]
      by_cases hq : e.1 = q
      · simp [hq, show ¬ q = nodeid by rwa [← hq]]
      · simp [hq]

lemma sum_filter (g : CNodeState → ℤ) (hl : (l.map (·.1)).Nodup)
    (h : stateIn l nodeid = some st) :
    ((l.filter fun e => e.1 != nodeid).map fun e => g e.2).sum =
      (l.map fun e => g e.2).sum - g st := by
  induction l with
  | nil => cases h
  | cons e l ih =>
    rw [List.map_cons, List.nodup_cons] at hl
    rw [stateIn_cons] at h
    rw [List.filter_cons]
    split_ifs at h with he
    · cases h
      have hsame : (l.filter fun e => e.1 != nodeid) = l := by
        rw [List.filter_eq_self]
        intro a ha
        rw [bne_iff_ne]
        rintro rfl
        exact hl.1 (he ▸ List.mem_map_of_mem ha)
      rw [if_neg (by simpa using he), hsame, List.map_cons, List.sum_cons]
      ring
    · rw [if_pos (by simpa using he), List.map_cons, List.sum_cons, ih hl.2 h, List.map_cons,
        List.sum_cons]
      ring

/-! ### The invariant -/

/-- What every call keeps: the iterators of the map are those of the lists, and the counter of valid
headers is off by those that were lost. -/
structure Tracked (s : Download) (lost : ℤ) : Prop where
  peers : (s.mapNodeState.map (·.1)).Nodup
  links : ∀ hash nodeid it, s.mapBlocksInFlight hash = some (nodeid, it) ↔
    ∃ state, s.state nodeid = some state ∧
      ∃ entry, (it, entry) ∈ state.vBlocksInFlight ∧ entry.hash = hash
  addresses : ∀ nodeid state, s.state nodeid = some state →
    (state.vBlocksInFlight.map (·.1)).Nodup ∧ ∀ e ∈ state.vBlocksInFlight, e.1 < s.next
  lengths : ∀ nodeid state, s.state nodeid = some state →
    state.nBlocksInFlight = state.vBlocksInFlight.length
  headers : s.nQueuedValidatedHeaders = s.validatedInFlight + lost

variable {lost : ℤ} {hash : Uint256}

lemma Tracked.consistent_iff (h : Tracked s lost) : Consistent s ↔ lost = 0 := by
  constructor
  · intro hc
    have := hc.headers.symm.trans h.headers
    omega
  · rintro rfl
    refine ⟨fun nodeid hash => ?_, fun nodeid state hst => ?_, h.lengths, by simpa using h.headers⟩
    · constructor
      · rintro ⟨it, hit⟩
        obtain ⟨state, hst, entry, hmem, rfl⟩ := (h.links hash nodeid it).mp hit
        exact ⟨state, hst, List.mem_map.mpr ⟨_, hmem, rfl⟩⟩
      · rintro ⟨state, hst, hmem⟩
        obtain ⟨⟨it, entry⟩, he, rfl⟩ := List.mem_map.mp hmem
        exact ⟨it, (h.links _ nodeid it).mpr ⟨state, hst, entry, he, rfl⟩⟩
    · -- two entries with one hash have one address
      have hnodup := (h.addresses nodeid state hst).1
      refine (List.Nodup.of_map _ hnodup).map_on fun a ha b hb hab => ?_
      have hlink : ∀ e ∈ state.vBlocksInFlight,
          s.mapBlocksInFlight e.2.hash = some (nodeid, e.1) :=
        fun e he => (h.links _ _ _).mpr ⟨state, hst, e.2, he, rfl⟩
      have hone := (hlink a ha).symm.trans (hab ▸ hlink b hb)
      rw [Option.some.injEq, Prod.mk.injEq] at hone
      exact List.inj_on_of_nodup_map hnodup ha hb hone.2

lemma tracked_initial : Tracked initial 0 := by
  constructor <;> simp [initial, state, stateIn, validatedInFlight]

lemma Tracked.initializeNode (h : Tracked s lost) (nodeid : NodeId) :
    Tracked (s.initializeNode nodeid) lost := by
  unfold Download.initializeNode
  split_ifs with hold
  · exact h
  · have hnone : stateIn s.mapNodeState nodeid = none := by simpa [state] using hold
    have hfresh : nodeid ∉ s.mapNodeState.map (·.1) := by
      intro hmem
      obtain ⟨e, he, rfl⟩ := List.mem_map.mp hmem
      rw [stateIn, Option.map_eq_none_iff, List.find?_eq_none] at hnone
      exact hnone e he (by simp)
    have hstate : ∀ q, ({ s with mapNodeState := s.mapNodeState ++ [(nodeid, .initial)] } :
        Download).state q = if q = nodeid then some .initial else s.state q := by
      intro q
      simp only [state, stateIn, List.find?_append]
      by_cases hq : q = nodeid
      · subst hq
        rw [stateIn, Option.map_eq_none_iff] at hnone
        simp [hnone]
      · simp [hq, Ne.symm hq]
    refine ⟨?_, fun hash q it => ?_, fun q st hst => ?_, fun q st hst => ?_, ?_⟩
    · rw [List.map_append, List.map_singleton]
      refine List.nodup_append.mpr ⟨h.peers, List.nodup_singleton _, ?_⟩
      intro a ha b hb
      rw [List.mem_singleton.mp hb]
      rintro rfl
      exact hfresh ha
    · rw [h.links, hstate]
      by_cases hq : q = nodeid
      · subst hq
        rw [if_pos rfl]
        simp [CNodeState.initial, state, hnone]
      · rw [if_neg hq]
    · rw [hstate] at hst
      split_ifs at hst
      · cases hst
        exact ⟨List.nodup_nil, by simp [CNodeState.initial]⟩
      · exact h.addresses q st hst
    · rw [hstate] at hst
      split_ifs at hst
      · cases hst
        rfl
      · exact h.lengths q st hst
    · simpa [validatedInFlight, validated, CNodeState.initial] using h.headers

lemma Tracked.finalizeNode {r : Download × Bool} (h : Tracked s lost)
    (hst : s.state nodeid = some st) (hr : s.finalizeNode nodeid = some r) :
    Tracked r.1 (lost + validated st) := by
  simp only [Download.finalizeNode, hst, Option.bind_eq_bind, Option.bind_some, Option.pure_def,
    Option.some.injEq] at hr
  subst hr
  have hstate : ∀ q, stateIn (s.mapNodeState.filter fun e => e.1 != nodeid) q =
      if q = nodeid then none else s.state q := stateIn_filter
  refine ⟨h.peers.sublist (List.Sublist.map _ List.filter_sublist), fun hash q it => ?_,
    fun q st' hst' => ?_, fun q st' hst' => ?_, ?_⟩
  · simp only [state, hstate]
    by_cases hmem : hash ∈ st.vBlocksInFlight.map (·.2.hash)
    · -- the hash was in flight from this peer, and from no other
      rw [if_pos hmem]
      obtain ⟨⟨it', entry'⟩, he', rfl⟩ := List.mem_map.mp hmem
      have hlink := (h.links _ _ _).mpr ⟨st, hst, entry', he', rfl⟩
      constructor
      · intro hcontra
        cases hcontra
      · rintro ⟨state', hst', entry, hentry, hhash⟩
        split_ifs at hst' with hq
        have hlink' := (h.links _ _ _).mpr ⟨state', hst', entry, hentry, hhash⟩
        rw [hlink] at hlink'
        cases hlink'
        exact absurd rfl hq
    · rw [if_neg hmem, h.links]
      by_cases hq : q = nodeid
      · subst hq
        rw [if_pos rfl, hst]
        constructor
        · rintro ⟨state', heq, entry, hentry, rfl⟩
          cases heq
          exact absurd (List.mem_map.mpr ⟨_, hentry, rfl⟩) hmem
        · rintro ⟨_, hcontra, _⟩
          cases hcontra
      · rw [if_neg hq]
        exact Iff.rfl
  · simp only [state, hstate] at hst'
    split_ifs at hst'
    exact h.addresses q st' hst'
  · simp only [state, hstate] at hst'
    split_ifs at hst'
    exact h.lengths q st' hst'
  · have hsum := sum_filter validated h.peers hst
    simp only [validatedInFlight, hsum, h.headers]
    ring

lemma mem_unqueue {it : ℕ} {e : ℕ × QueuedBlock}
    (hnodup : (st.vBlocksInFlight.map (·.1)).Nodup) :
    e ∈ (unqueue it st).vBlocksInFlight ↔ e ∈ st.vBlocksInFlight ∧ e.1 ≠ it := by
  have hmem : ∀ (l : List (ℕ × QueuedBlock)), (l.map (·.1)).Nodup →
      (e ∈ l.eraseP (fun e => e.1 == it) ↔ e ∈ l ∧ e.1 ≠ it) := by
    intro l
    induction l with
    | nil => simp
    | cons a l ih =>
      intro hl
      rw [List.map_cons, List.nodup_cons] at hl
      by_cases ha : a.1 = it
      · rw [List.eraseP_cons_of_pos (by simpa using ha)]
        constructor
        · intro he
          refine ⟨List.mem_cons_of_mem _ he, fun heq => hl.1 ?_⟩
          rw [ha, ← heq]
          exact List.mem_map_of_mem he
        · rintro ⟨he, hne⟩
          rcases List.mem_cons.mp he with rfl | he
          · exact absurd ha hne
          · exact he
      · rw [List.eraseP_cons_of_neg (by simpa using ha), List.mem_cons, ih hl.2, List.mem_cons]
        constructor
        · rintro (rfl | ⟨he, hne⟩)
          · exact ⟨Or.inl rfl, ha⟩
          · exact ⟨Or.inr he, hne⟩
        · rintro ⟨rfl | he, hne⟩
          · exact Or.inl rfl
          · exact Or.inr ⟨he, hne⟩
  exact hmem _ hnodup

lemma validated_unqueue {it : ℕ} {e : ℕ × QueuedBlock}
    (he : st.vBlocksInFlight.find? (fun e => e.1 == it) = some e) :
    validated (unqueue it st) = validated st - e.2.fValidatedHeaders.toInt ∧
      ((unqueue it st).vBlocksInFlight.length : ℤ) = st.vBlocksInFlight.length - 1 := by
  unfold validated unqueue
  dsimp only
  generalize st.vBlocksInFlight = l at he ⊢
  induction l with
  | nil => cases he
  | cons a l ih =>
    by_cases ha : a.1 = it
    · rw [List.find?_cons_of_pos (by simpa using ha)] at he
      cases he
      rw [List.eraseP_cons_of_pos (by simpa using ha), List.map_cons, List.sum_cons,
        List.length_cons]
      exact ⟨by ring, by push_cast; ring⟩
    · rw [List.find?_cons_of_neg (by simpa using ha)] at he
      obtain ⟨h1, h2⟩ := ih he
      rw [List.eraseP_cons_of_neg (by simpa using ha), List.map_cons, List.sum_cons, h1,
        List.map_cons, List.sum_cons, List.length_cons, List.length_cons]
      exact ⟨by ring, by push_cast; omega⟩

lemma forall_changed {t : Download} {f : CNodeState → CNodeState} {P : CNodeState → Prop}
    (hstate : ∀ q, t.state q = if q = nodeid then (s.state q).map f else s.state q)
    (hst : s.state nodeid = some st) (hown : P (f st))
    (hother : ∀ q st', s.state q = some st' → P st') :
    ∀ q st', t.state q = some st' → P st' := by
  intro q st' hst'
  rw [hstate] at hst'
  split_ifs at hst' with hq
  · rw [hq, hst, Option.map_some] at hst'
    cases hst'
    exact hown
  · exact hother q st' hst'

lemma exists_changed {t : Download} {f : CNodeState → CNodeState} {P : CNodeState → Prop}
    (hstate : ∀ q, t.state q = if q = nodeid then (s.state q).map f else s.state q)
    (hst : s.state nodeid = some st) (hown : P (f st) ↔ P st) (q : NodeId) :
    (∃ st', t.state q = some st' ∧ P st') ↔ ∃ st', s.state q = some st' ∧ P st' := by
  rw [hstate]
  split_ifs with hq
  · rw [hq, hst, Option.map_some]
    constructor
    · rintro ⟨st', heq, hP⟩
      cases heq
      exact ⟨st, rfl, hown.mp hP⟩
    · rintro ⟨st', heq, hP⟩
      cases heq
      exact ⟨f st, rfl, hown.mpr hP⟩
  · exact Iff.rfl

lemma Tracked.markBlockAsReceived (h : Tracked s lost) (hash : Uint256) :
    ∃ s', s.markBlockAsReceived hash = some s' ∧ Tracked s' lost ∧
      s'.mapBlocksInFlight hash = none ∧ ∀ q, (s'.state q).isSome = (s.state q).isSome := by
  unfold Download.markBlockAsReceived
  cases hmap : s.mapBlocksInFlight hash with
  | none => exact ⟨s, rfl, h, hmap, fun _ => rfl⟩
  | some r =>
    obtain ⟨nodeid, it⟩ := r
    obtain ⟨st, hst, entry, hentry, hhash⟩ := (h.links _ _ _).mp hmap
    obtain ⟨hnodup, hlt⟩ := h.addresses nodeid st hst
    have hfind : st.vBlocksInFlight.find? (fun e => e.1 == it) = some (it, entry) := by
      cases hf : st.vBlocksInFlight.find? (fun e => e.1 == it) with
      | none =>
        rw [List.find?_eq_none] at hf
        exact absurd (beq_self_eq_true it) (hf _ hentry)
      | some e =>
        have hit : e.1 = it := by simpa using List.find?_some hf
        rw [List.inj_on_of_nodup_map hnodup (List.mem_of_find?_eq_some hf) hentry hit]
    obtain ⟨hval, hlen⟩ := validated_unqueue hfind
    let t : Download :=
      { s with
        nQueuedValidatedHeaders := s.nQueuedValidatedHeaders - entry.fValidatedHeaders.toInt
        mapNodeState := changed nodeid (unqueue it) s.mapNodeState
        mapBlocksInFlight := Function.update s.mapBlocksInFlight hash none }
    have hstate : ∀ q, t.state q =
        if q = nodeid then (s.state q).map (unqueue it) else s.state q := stateIn_changed _
    have hlinks : t.mapBlocksInFlight = Function.update s.mapBlocksInFlight hash none := rfl
    -- no other entry is for this block
    have honly : ∀ q state' it' entry', s.state q = some state' →
        (it', entry') ∈ state'.vBlocksInFlight → entry'.hash = hash → q = nodeid ∧ it' = it := by
      intro q state' it' entry' hst' he' hh'
      have hlink := (h.links _ _ _).mpr ⟨state', hst', entry', he', hh'⟩
      rw [hmap] at hlink
      cases hlink
      exact ⟨rfl, rfl⟩
    refine ⟨t, by simp [hst, hfind, t], ⟨?_, fun hash' q it' => ?_,
      forall_changed hstate hst ?_ h.addresses, forall_changed hstate hst ?_ h.lengths, ?_⟩,
      Function.update_self .., fun q => ?_⟩
    · rw [map_fst_changed]
      exact h.peers
    · rw [hlinks]
      by_cases hh : hash' = hash
      · subst hh
        rw [Function.update_self]
        constructor
        · intro hcontra
          cases hcontra
        · rintro ⟨state', hst', entry', he', hh'⟩
          rw [hstate] at hst'
          split_ifs at hst' with hq
          · subst hq
            rw [hst, Option.map_some] at hst'
            cases hst'
            rw [mem_unqueue hnodup] at he'
            exact absurd (honly _ _ _ _ hst he'.1 hh').2 he'.2
          · exact absurd (honly _ _ _ _ hst' he' hh').1 hq
      · rw [Function.update_of_ne hh, h.links]
        refine (exists_changed hstate hst ⟨?_, ?_⟩ q).symm
        · rintro ⟨entry', he', hh'⟩
          exact ⟨entry', ((mem_unqueue hnodup).mp he').1, hh'⟩
        · rintro ⟨entry', he', hh'⟩
          refine ⟨entry', (mem_unqueue hnodup).mpr ⟨he', ?_⟩, hh'⟩
          rintro rfl
          -- the address has one entry
          have hsame := List.inj_on_of_nodup_map hnodup he' hentry rfl
          cases hsame
          exact hh (hh'.symm.trans hhash)
    · exact ⟨hnodup.sublist (List.Sublist.map _ List.eraseP_sublist),
        fun e he => hlt e ((mem_unqueue hnodup).mp he).1⟩
    · rw [hlen, ← h.lengths nodeid st hst]
      rfl
    · have hsum := sum_changed validated (unqueue it) h.peers hst
      have hhead := h.headers
      rw [hval] at hsum
      unfold validatedInFlight at hhead
      simp only [t, validatedInFlight, hsum, hhead]
      ring
    · rw [hstate]
      split_ifs <;> simp

lemma Tracked.queueBlock (h : Tracked s lost) (hst : s.state nodeid = some st)
    (hmap : s.mapBlocksInFlight hash = none) (pindex : Option Uint256) (nTime : ℤ) :
    Tracked (s.queueBlock nodeid hash pindex nTime) lost := by
  let entry : QueuedBlock := ⟨hash, pindex, nTime, s.nQueuedValidatedHeaders, pindex.isSome⟩
  obtain ⟨hnodup, hlt⟩ := h.addresses nodeid st hst
  have hstate : ∀ q, (s.queueBlock nodeid hash pindex nTime).state q =
      if q = nodeid then (s.state q).map (enqueue s.next entry) else s.state q := stateIn_changed _
  have hlinks : (s.queueBlock nodeid hash pindex nTime).mapBlocksInFlight =
      Function.update s.mapBlocksInFlight hash (some (nodeid, s.next)) := rfl
  have hnot : ∀ q state' it' entry', s.state q = some state' →
      (it', entry') ∈ state'.vBlocksInFlight → entry'.hash ≠ hash := by
    rintro q state' it' entry' hst' he' rfl
    have hlink := (h.links _ _ _).mpr ⟨state', hst', entry', he', rfl⟩
    rw [hmap] at hlink
    cases hlink
  have hnext : (s.queueBlock nodeid hash pindex nTime).next = s.next + 1 := rfl
  refine ⟨?_, fun hash' q it' => ?_, forall_changed hstate hst ?_ ?_,
    forall_changed hstate hst ?_ h.lengths, ?_⟩
  · exact (map_fst_changed _).symm ▸ h.peers
  · rw [hlinks]
    by_cases hh : hash' = hash
    · subst hh
      rw [Function.update_self]
      constructor
      · intro heq
        cases heq
        rw [hstate, if_pos rfl, hst]
        exact ⟨_, rfl, entry, by simp [enqueue], rfl⟩
      · rintro ⟨state', hst', entry', he', hh'⟩
        rw [hstate] at hst'
        split_ifs at hst' with hq
        · subst hq
          rw [hst, Option.map_some] at hst'
          cases hst'
          rcases List.mem_append.mp he' with he' | he'
          · exact absurd hh' (hnot _ _ _ _ hst he')
          · cases List.mem_singleton.mp he'
            rfl
        · exact absurd hh' (hnot _ _ _ _ hst' he')
    · rw [Function.update_of_ne hh, h.links]
      refine (exists_changed hstate hst ⟨?_, ?_⟩ q).symm
      · rintro ⟨entry', he', hh'⟩
        rcases List.mem_append.mp he' with he' | he'
        · exact ⟨entry', he', hh'⟩
        · cases List.mem_singleton.mp he'
          exact absurd hh'.symm hh
      · rintro ⟨entry', he', hh'⟩
        exact ⟨entry', List.mem_append_left _ he', hh'⟩
  · rw [hnext]
    constructor
    · simp only [enqueue, List.map_append, List.map_singleton]
      refine List.nodup_append.mpr ⟨hnodup, List.nodup_singleton _, ?_⟩
      intro a ha b hb
      obtain ⟨e, he, rfl⟩ := List.mem_map.mp ha
      rw [List.mem_singleton.mp hb]
      exact (hlt e he).ne
    · intro e he
      rcases List.mem_append.mp he with he | he
      · exact Nat.lt_succ_of_lt (hlt e he)
      · cases List.mem_singleton.mp he
        exact Nat.lt_succ_self _
  · intro q st' hst'
    obtain ⟨h1, h2⟩ := h.addresses q st' hst'
    rw [hnext]
    exact ⟨h1, fun e he => Nat.lt_succ_of_lt (h2 e he)⟩
  · simp [enqueue, h.lengths nodeid st hst]
  · have hsum := sum_changed validated (enqueue s.next entry) h.peers hst
    have hval : validated (enqueue s.next entry st) =
        validated st + entry.fValidatedHeaders.toInt := by
      simp [validated, enqueue]
    have hhead := h.headers
    rw [hval] at hsum
    unfold validatedInFlight at hhead
    simp only [Download.queueBlock, validatedInFlight]
    rw [hsum, hhead]
    ring

/-! ### Runs -/

/-- What a call loses: the valid headers in flight from a peer that is forgotten. -/
def loses (s : Download) : Op → ℤ
  | .finalizeNode nodeid => ((s.state nodeid).map validated).getD 0
  | _ => 0

/-- **What a call preserves.** -/
theorem Tracked.step {op : Op} {s' : Download} (h : Tracked s lost) (hs : s.step op = some s') :
    Tracked s' (lost + s.loses op) := by
  cases op with
  | initializeNode nodeid =>
    cases hs
    simpa [loses] using h.initializeNode nodeid
  | finalizeNode nodeid =>
    obtain ⟨r, hr, rfl⟩ := Option.map_eq_some_iff.mp hs
    cases hst : s.state nodeid with
    | none => simp [Download.finalizeNode, hst] at hr
    | some st =>
      have hnew := h.finalizeNode hst hr
      simpa [loses, hst] using hnew
  | markBlockAsReceived hash =>
    obtain ⟨t, ht, hnew, -⟩ := h.markBlockAsReceived hash
    obtain rfl : t = s' := Option.some.inj (ht.symm.trans hs)
    simpa [loses] using hnew
  | markBlockAsInFlight nodeid hash pindex nTime =>
    obtain ⟨t, ht, hnew, hnone, hstate⟩ := h.markBlockAsReceived hash
    simp only [Download.step, Download.markBlockAsInFlight, Option.bind_eq_bind,
      Option.bind_eq_some_iff] at hs
    obtain ⟨st, hst, t', ht', hs⟩ := hs
    obtain rfl : t = t' := Option.some.inj (ht.symm.trans ht')
    obtain rfl := Option.some.inj hs
    obtain ⟨st', hst'⟩ := Option.isSome_iff_exists.mp
      ((hstate nodeid).trans (Option.isSome_iff_exists.mpr ⟨st, hst⟩))
    simpa [loses] using hnew.queueBlock hst' hnone pindex nTime

lemma exec_append_singleton (l : List Op) (op : Op) :
    exec (l ++ [op]) = (exec l).bind fun s => s.step op := by
  unfold exec
  rw [List.foldlM_append]
  simp [Option.bind_fun_some]

lemma exists_tracked {l : List Op} (h : exec l = some s) : ∃ lost, Tracked s lost := by
  induction l using List.reverseRecOn generalizing s with
  | nil =>
    cases h
    exact ⟨0, tracked_initial⟩
  | append_singleton l op ih =>
    rw [exec_append_singleton, Option.bind_eq_some_iff] at h
    obtain ⟨s₁, h₁, hs⟩ := h
    obtain ⟨lost, hlost⟩ := ih h₁
    exact ⟨_, hlost.step hs⟩

/-- A call forgets no peer from which blocks with valid headers are in flight. -/
def KeepsHeaders (s : Download) : Op → Prop
  | .finalizeNode nodeid => ∀ state, s.state nodeid = some state →
    ∀ e ∈ state.vBlocksInFlight, e.2.fValidatedHeaders = false
  | _ => True

lemma validated_eq_zero_iff :
    validated st = 0 ↔ ∀ e ∈ st.vBlocksInFlight, e.2.fValidatedHeaders = false := by
  have hnonneg : ∀ l : List (ℕ × QueuedBlock),
      0 ≤ (l.map fun e => e.2.fValidatedHeaders.toInt).sum := by
    intro l
    refine List.sum_nonneg fun x hx => ?_
    obtain ⟨e, -, rfl⟩ := List.mem_map.mp hx
    cases e.2.fValidatedHeaders <;> decide
  unfold validated
  generalize st.vBlocksInFlight = l
  induction l with
  | nil => simp
  | cons e l ih =>
    have hl := hnonneg l
    rw [List.map_cons, List.sum_cons, List.forall_mem_cons]
    cases he : e.2.fValidatedHeaders with
    | false => simpa using ih
    | true =>
      simp only [Bool.toInt_true, Bool.true_eq_false, false_and, iff_false]
      omega

lemma loses_eq_zero_iff {op : Op} : s.loses op = 0 ↔ KeepsHeaders s op := by
  cases op with
  | finalizeNode nodeid =>
    simp only [loses, KeepsHeaders]
    cases hst : s.state nodeid with
    | none => simp
    | some st => simpa using validated_eq_zero_iff
  | _ => simp [loses, KeepsHeaders]

/-- **The bookkeeping over a run.** It is right after each of some calls if and only if no peer is
forgotten while blocks with valid headers are in flight from it. -/
theorem consistent_prefixes_iff (ops : List Op) :
    (∀ l s, l <+: ops → exec l = some s → Consistent s) ↔
      ∀ l op s, l ++ [op] <+: ops → exec l = some s → KeepsHeaders s op := by
  constructor
  · intro hall l op s hpre hs
    rw [← loses_eq_zero_iff]
    have hl : l <+: ops := (List.prefix_append l [op]).trans hpre
    obtain ⟨lost, htracked⟩ := exists_tracked hs
    have hzero := htracked.consistent_iff.mp (hall l s hl hs)
    cases hstep : s.step op with
    | none =>
      -- a call that fails on an unknown peer loses nothing
      cases op with
      | finalizeNode nodeid =>
        cases hst : s.state nodeid with
        | none => simp [loses, hst]
        | some st => simp [Download.step, Download.finalizeNode, hst] at hstep
      | _ => rfl
    | some s' =>
      have hs' : exec (l ++ [op]) = some s' := by
        rw [exec_append_singleton, hs, Option.bind_some, hstep]
      have hzero' := (htracked.step hstep).consistent_iff.mp (hall _ s' hpre hs')
      omega
  · intro hkeeps l s hpre hs
    suffices h : Tracked s 0 from h.consistent_iff.mpr rfl
    induction l using List.reverseRecOn generalizing s with
    | nil =>
      cases hs
      exact tracked_initial
    | append_singleton l op ih =>
      rw [exec_append_singleton, Option.bind_eq_some_iff] at hs
      obtain ⟨s₁, h₁, hstep⟩ := hs
      have htracked := ih s₁ ((List.prefix_append l [op]).trans hpre) h₁
      have hnew := htracked.step hstep
      rwa [loses_eq_zero_iff.mpr (hkeeps l op s₁ hpre h₁), add_zero] at hnew

/-- **A peer that leaves.** One block with a valid header is asked of a peer, and the peer is
forgotten: the counter stays at one with nothing in flight. -/
theorem headers_lost_with_peer :
    ∃ s, exec [.initializeNode 1, .markBlockAsInFlight 1 5 (some 5) 100, .finalizeNode 1] = some s ∧
      s.mapNodeState = [] ∧ s.nQueuedValidatedHeaders = 1 ∧ ¬ Consistent s := by
  refine ⟨_, rfl, rfl, rfl, fun h => ?_⟩
  have := h.headers
  revert this
  decide

end Download

end Agenor
