import Agenor.BlockSync

/-!
The requests for blocks over a run (`main.cpp`).

Blocks are asked for in two places: in `SendMessages`, which keeps track of what it asks for, and
when a peer announces a block with `inv`, which does not. Peers come and go, the index grows, blocks
are received and the tip moves in between, in any order.
-/

namespace Agenor

open Lib.Ancestry

structure CInv where
  type : ℕ
  hash : Uint256
  deriving DecidableEq, Repr

def MSG_BLOCK : ℕ := 2

/-- The globals: the index, the bookkeeping of the download, and what is known of the peers. -/
structure SyncNode (α : Type) where
  index : SyncIndex α
  download : Download
  peers : NodeId → PeerSync α

namespace SyncNode

open SyncIndex

variable {α : Type}

/-- The genesis block is in the index and in the active chain, and there are no peers. -/
def initial (getBlockHash : α → Uint256) (genesis : α) (nChainWork : ℕ) (status : BlockStatus) :
    SyncNode α where
  index :=
    { map := ⟨[genesis], fun _ => ⟨none, none, 0⟩⟩
      chainActive := ⟨[some genesis]⟩
      nChainWork := fun _ => nChainWork
      status := fun _ => status
      getBlockHash }
  download := .initial
  peers := fun _ => .initial

variable [DecidableEq α] (s : SyncNode α)

/-- `AddToBlockIndex`, where `AcceptBlockHeader` comes to it: the block is not there and its parent
is. -/
def acceptBlockHeader (pindexNew : α) (hashPrevBlock : Uint256) (proof : ℕ) :
    Option (SyncNode α) :=
  if (s.index.find (s.index.getBlockHash pindexNew)).isSome then some s
  else match s.index.find hashPrevBlock with
    | none => some s
    | some pprev => do
      let map ← s.index.map.addToBlockIndex pindexNew (some pprev)
      return { s with
        index := { s.index with
          map
          nChainWork := Function.update s.index.nChainWork pindexNew
            (s.index.nChainWork pprev + proof)
          status := Function.update s.index.status pindexNew
            ⟨BLOCK_VALID_TREE, false, false, false, 0, 0, 0⟩ } }

/-- `chainActive.SetTip`. -/
def setTip (pindex : α) : Option (SyncNode α) := do
  let chainActive ← s.index.chainActive.setTip s.index.map (some pindex)
  return { s with index := { s.index with chainActive } }

/-- What is known of a peer is changed. -/
def setPeer (nodeid : NodeId) (peer : PeerSync α) : SyncNode α :=
  { s with peers := Function.update s.peers nodeid peer }

/-- `UpdateBlockAvailability`. The peer must be known. -/
def updateBlockAvailability (nodeid : NodeId) (hash : Uint256) : Option (SyncNode α) := do
  let _ ← s.download.state nodeid
  return s.setPeer nodeid (s.index.updateBlockAvailability (s.peers nodeid) hash)

/-- What is added to `nMisbehavior`. -/
def punished (howmuch : ℤ) (state : CNodeState) : CNodeState :=
  { state with nMisbehavior := state.nMisbehavior + howmuch }

def misbehaving (nodeid : NodeId) (howmuch : ℤ) : SyncNode α :=
  { s with download := { s.download with
      mapNodeState := Download.changed nodeid (punished howmuch) s.download.mapNodeState } }

/-- One entry of an `inv`, with `vToFetch`. What is no block is asked for elsewhere. -/
def processInvEntry (nodeid : NodeId) (fImportingOrReindex : Bool) (r : SyncNode α × List CInv)
    (inv : CInv) : Option (SyncNode α × List CInv) :=
  if inv.type = MSG_BLOCK then do
    let fAlreadyHave := (r.1.index.find inv.hash).isSome
    let s ← r.1.updateBlockAvailability nodeid inv.hash
    let fetch := !fAlreadyHave && !fImportingOrReindex &&
      (s.download.mapBlocksInFlight inv.hash).isNone
    return (s, if fetch then r.2 ++ [inv] else r.2)
  else some r

/-- `inv`, and the blocks of the `getdata` that answers it. -/
def processInv (nodeid : NodeId) (vInv : List CInv) (fImportingOrReindex : Bool) :
    Option (SyncNode α × List Uint256) :=
  if MAX_INV_SZ < vInv.length then some (s.misbehaving nodeid 20, [])
  else (vInv.foldlM (processInvEntry nodeid fImportingOrReindex) (s, [])).map fun r =>
    (r.1, r.2.map (·.hash))

/-- The blocks that are asked for are marked as in flight. -/
def markAll (getBlockHash : α → Uint256) (nodeid : NodeId) (nTime : α → ℤ) (download : Download)
    (vToDownload : List α) : Option Download :=
  vToDownload.foldlM (fun d pindex => d.markBlockAsInFlight nodeid (getBlockHash pindex)
    (some (getBlockHash pindex)) (nTime pindex)) download

def stalled (nNow : ℤ) (state : CNodeState) : CNodeState := { state with nStallingSince := nNow }

/-- If nothing is in flight and a peer stalls, this is noted. The peer must be known. -/
def markStalling (nBlocksInFlight : ℤ) (download : Download) (staller : NodeId) (nNow : ℤ) :
    Option Download :=
  if nBlocksInFlight = 0 ∧ staller ≠ -1 then do
    let state ← download.state staller
    if state.nStallingSince = 0 then
      return { download with
        mapNodeState := Download.changed staller (stalled nNow) download.mapNodeState }
    else return download
  else some download

/-- A block has been in flight for too long, given the number of blocks before it. -/
def timedOut (state : CNodeState) (nNow nTargetSpacing : ℤ) : Bool :=
  match state.vBlocksInFlight with
  | [] => false
  | (_, front) :: _ =>
    decide (front.nTime < nNow - 500000 * nTargetSpacing * (4 + front.nValidatedQueuedBefore))

/-- The part of `SendMessages` from where a stalling peer is looked for to the blocks in
`vGetData`, and `fDisconnect`. -/
def sendGetData (nodeid : NodeId) (fClient fFetch : Bool) (nNow nTargetSpacing : ℤ)
    (nTime : α → ℤ) : Option (SyncNode α × Bool × List Uint256) := do
  let state ← s.download.state nodeid
  if state.nStallingSince ≠ 0 ∧
      state.nStallingSince < nNow - 1000000 * BLOCK_STALLING_TIMEOUT then
    return (s, true, [])
  else if timedOut state nNow nTargetSpacing then return (s, true, [])
  else if !fClient && fFetch &&
      decide (state.nBlocksInFlight < MAX_BLOCKS_IN_TRANSIT_PER_PEER) then
    let (peer, vToDownload, staller) ← s.index.findNextBlocksToDownload
      s.download.mapBlocksInFlight nodeid
      (MAX_BLOCKS_IN_TRANSIT_PER_PEER - state.nBlocksInFlight).toNat (s.peers nodeid) [] (-1)
    let download ← markAll s.index.getBlockHash nodeid nTime s.download vToDownload
    let state ← download.state nodeid
    let download ← markStalling state.nBlocksInFlight download staller nNow
    return ({ s.setPeer nodeid peer with download }, false, vToDownload.map s.index.getBlockHash)
  else return (s, false, [])

/-! ### Runs -/

inductive Op (α : Type)
  | initializeNode (nodeid : NodeId)
  | finalizeNode (nodeid : NodeId)
  /-- `ProcessNewBlock`. -/
  | received (hash : Uint256)
  /-- The end of a `headers` message. -/
  | headers (nodeid : NodeId) (hash : Uint256)
  | inv (nodeid : NodeId) (vInv : List CInv) (fImportingOrReindex : Bool)
  | acceptBlockHeader (pindexNew : α) (hashPrevBlock : Uint256) (proof : ℕ)
  | setStatus (pindex : α) (status : BlockStatus)
  | setTip (pindex : α)
  | sendMessages (nodeid : NodeId) (fClient fFetch : Bool) (nNow nTargetSpacing : ℤ)
    (nTime : α → ℤ)

/-- One step, and the blocks that are asked for. -/
def step : Op α → Option (SyncNode α × List Uint256)
  | .initializeNode nodeid =>
    let peers := if (s.download.state nodeid).isSome then s.peers
      else Function.update s.peers nodeid .initial
    some ({ s with download := s.download.initializeNode nodeid, peers }, [])
  | .finalizeNode nodeid =>
    (s.download.finalizeNode nodeid).map fun r => ({ s with download := r.1 }, [])
  | .received hash => (s.download.markBlockAsReceived hash).map fun d =>
    ({ s with download := d }, [])
  | .headers nodeid hash => (s.updateBlockAvailability nodeid hash).map fun s => (s, [])
  | .inv nodeid vInv fImportingOrReindex => s.processInv nodeid vInv fImportingOrReindex
  | .acceptBlockHeader pindexNew hashPrevBlock proof =>
    (s.acceptBlockHeader pindexNew hashPrevBlock proof).map fun s => (s, [])
  | .setStatus pindex status =>
    some ({ s with
      index := { s.index with status := Function.update s.index.status pindex status } }, [])
  | .setTip pindex => (s.setTip pindex).map fun s => (s, [])
  | .sendMessages nodeid fClient fFetch nNow nTargetSpacing nTime =>
    (s.sendGetData nodeid fClient fFetch nNow nTargetSpacing nTime).map fun r => (r.1, r.2.2)

/-- What the callers see to: the peer is known, and the new tip is in the index. -/
def Allowed : Op α → Prop
  | .finalizeNode nodeid | .headers nodeid _ | .inv nodeid _ _ | .sendMessages nodeid _ _ _ _ _ =>
    (s.download.state nodeid).isSome
  | .setTip pindex => pindex ∈ s.index.map.mapBlockIndex
  | _ => True

/-- The steps that have been taken, each with the blocks that were asked for. -/
inductive Run (start : SyncNode α) : List (Op α × List Uint256) → SyncNode α → Prop
  | nil : Run start [] start
  | snoc {log : List (Op α × List Uint256)} {s s' : SyncNode α} {op : Op α}
      {asked : List Uint256} (h : Run start log s) (hok : s.Allowed op)
      (hs : s.step op = some (s', asked)) : Run start (log ++ [(op, asked)]) s'

end SyncNode

namespace Download

variable {d : Download} {nodeid : NodeId} {st : CNodeState} {lost : ℤ}

lemma markBlockAsInFlight_eq {hash : Uint256} (hst : d.state nodeid = some st)
    (hmap : d.mapBlocksInFlight hash = none) (pindex : Option Uint256) (nTime : ℤ) :
    d.markBlockAsInFlight nodeid hash pindex nTime =
      some (d.queueBlock nodeid hash pindex nTime) := by
  simp [Download.markBlockAsInFlight, Download.markBlockAsReceived, hst, hmap]

/-- What marking some blocks as in flight from a peer has changed. -/
structure Marked (d d' : Download) (nodeid : NodeId) (hashes : List Uint256) : Prop where
  own : ∀ st, d.state nodeid = some st → ∃ st', d'.state nodeid = some st' ∧
    st'.nBlocksInFlight = st.nBlocksInFlight + hashes.length
  others : ∀ q, q ≠ nodeid → d'.state q = d.state q
  before : ∀ h, h ∉ hashes → d'.mapBlocksInFlight h = d.mapBlocksInFlight h
  now : ∀ h ∈ hashes, ∃ it, d'.mapBlocksInFlight h = some (nodeid, it)

lemma Tracked.markAll {α : Type} {getBlockHash : α → Uint256} {l : List α} (h : Tracked d lost)
    (nTime : α → ℤ) (hst : d.state nodeid = some st) (hnodup : (l.map getBlockHash).Nodup)
    (hmap : ∀ b ∈ l, d.mapBlocksInFlight (getBlockHash b) = none) :
    ∃ d', SyncNode.markAll getBlockHash nodeid nTime d l = some d' ∧ Tracked d' lost ∧
      Marked d d' nodeid (l.map getBlockHash) := by
  induction l generalizing d st with
  | nil => exact ⟨d, rfl, h, fun st hst => ⟨st, hst, by simp⟩, by simp, by simp, by simp⟩
  | cons b l ih =>
    rw [List.map_cons, List.nodup_cons] at hnodup
    rw [List.forall_mem_cons] at hmap
    let d₁ := d.queueBlock nodeid (getBlockHash b) (some (getBlockHash b)) (nTime b)
    have hstate : ∀ q, d₁.state q = if q = nodeid then (d.state q).map (enqueue d.next
        ⟨getBlockHash b, some (getBlockHash b), nTime b, d.nQueuedValidatedHeaders, true⟩)
        else d.state q := stateIn_changed _
    have hlinks : d₁.mapBlocksInFlight = Function.update d.mapBlocksInFlight (getBlockHash b)
      (some (nodeid, d.next)) := rfl
    have hst₁ := hstate nodeid
    rw [if_pos rfl, hst, Option.map_some] at hst₁
    obtain ⟨d', hd', htracked, hmarked⟩ := ih (h.queueBlock hst hmap.1 _ (nTime b)) hst₁ hnodup.2
      (fun c hc => by
        have hne : getBlockHash c ≠ getBlockHash b := fun heq =>
          hnodup.1 (heq ▸ List.mem_map_of_mem hc)
        rw [hlinks, Function.update_of_ne hne]
        exact hmap.2 c hc)
    refine ⟨d', ?_, htracked, fun st' hst' => ?_, fun q hq => ?_, fun c hc => ?_, fun c hc => ?_⟩
    · rw [SyncNode.markAll, List.foldlM_cons, markBlockAsInFlight_eq hst hmap.1]
      exact hd'
    · obtain rfl := Option.some.inj (hst.symm.trans hst')
      obtain ⟨st₂, hst₂, hcount⟩ := hmarked.own _ hst₁
      refine ⟨st₂, hst₂, ?_⟩
      rw [hcount, List.map_cons, List.length_cons]
      simp only [enqueue]
      push_cast
      ring
    · rw [hmarked.others q hq, hstate, if_neg hq]
    · rw [List.map_cons, List.mem_cons, not_or] at hc
      rw [hmarked.before c hc.2, hlinks, Function.update_of_ne hc.1]
    · rw [List.map_cons, List.mem_cons] at hc
      by_cases hin : c ∈ l.map getBlockHash
      · exact hmarked.now c hin
      · rw [hmarked.before c hin, hlinks, hc.resolve_right hin, Function.update_self]
        exact ⟨_, rfl⟩

lemma Tracked.changeState {f : CNodeState → CNodeState} (h : Tracked d lost)
    (hst : d.state nodeid = some st)
    (hf : ∀ st, (f st).vBlocksInFlight = st.vBlocksInFlight ∧
      (f st).nBlocksInFlight = st.nBlocksInFlight) :
    Tracked { d with mapNodeState := changed nodeid f d.mapNodeState } lost := by
  let d' : Download := { d with mapNodeState := changed nodeid f d.mapNodeState }
  have hstate : ∀ q, d'.state q = if q = nodeid then (d.state q).map f else d.state q :=
    stateIn_changed _
  refine ⟨?_, fun hash q it => ?_, forall_changed hstate hst ?_ h.addresses,
    forall_changed hstate hst ?_ h.lengths, ?_⟩
  · rw [map_fst_changed]
    exact h.peers
  · exact (h.links hash q it).trans (exists_changed hstate hst (by rw [(hf st).1]) q).symm
  · rw [(hf st).1]
    exact h.addresses nodeid st hst
  · rw [(hf st).1, (hf st).2]
    exact h.lengths nodeid st hst
  · have hsum := sum_changed validated f h.peers hst
    have hval : validated (f st) = validated st := by rw [validated, validated, (hf st).1]
    have hhead := h.headers
    unfold validatedInFlight at hhead ⊢
    rw [hsum, hval, hhead]
    ring

end Download

namespace SyncNode

open SyncIndex

variable {α : Type} [DecidableEq α] {s : SyncNode α} {genesis : α} {nodeid : NodeId}

/-! ### The invariant -/

/-- No peer has too many blocks in flight. -/
def Bounded (d : Download) : Prop :=
  ∀ q st, d.state q = some st → st.nBlocksInFlight ≤ MAX_BLOCKS_IN_TRANSIT_PER_PEER

structure Inv (s : SyncNode α) (genesis : α) : Prop where
  rooted : ∃ tip, s.index.Rooted genesis tip
  /-- The keys of `mapBlockIndex`. -/
  hashes : ∀ a ∈ s.index.map.mapBlockIndex, ∀ b ∈ s.index.map.mapBlockIndex,
    s.index.getBlockHash a = s.index.getBlockHash b → a = b
  known : ∀ q, s.index.Known (s.peers q)
  tracked : ∃ lost, s.download.Tracked lost
  bounded : Bounded s.download

/-- The blocks of an `inv` that are neither there nor in flight. -/
def toFetch (s : SyncNode α) (vInv : List CInv) : List Uint256 :=
  ((vInv.filter fun inv => decide (inv.type = MSG_BLOCK)).map (·.hash)).filter fun hash =>
    (s.index.find hash).isNone && (s.download.mapBlocksInFlight hash).isNone

/-- **What is asked for.** In `SendMessages`, blocks that differ from each other and are neither
there nor in flight: each lies on a chain that is not known to be invalid and that the peer has, and
it is in flight afterwards. After an `inv`, what it announces and is neither there nor in flight, in
the same order and as often. -/
def Asks (s s' : SyncNode α) (asked : List Uint256) : Op α → Prop
  | .sendMessages nodeid _ _ _ _ _ => asked.Nodup ∧ ∀ hash ∈ asked, ∃ b best,
    s.index.getBlockHash b = hash ∧ s.index.validTree b = true ∧
    s.index.missing s.download.mapBlocksInFlight b = true ∧
    (s'.peers nodeid).pindexBestKnownBlock = some best ∧ Anc s.index.map.pprev b best ∧
    ∃ it, s'.download.mapBlocksInFlight hash = some (nodeid, it)
  | .inv _ vInv fImportingOrReindex =>
    asked = if MAX_INV_SZ < vInv.length ∨ fImportingOrReindex = true then [] else s.toFetch vInv
  | _ => asked = []

omit [DecidableEq α] in
lemma known_initial (index : SyncIndex α) : index.Known PeerSync.initial :=
  ⟨nofun, nofun⟩

omit [DecidableEq α] in
lemma known_update {index : SyncIndex α} {peers : NodeId → PeerSync α} {peer : PeerSync α}
    (h : ∀ q, index.Known (peers q)) (hpeer : index.Known peer) (nodeid q : NodeId) :
    index.Known (Function.update peers nodeid peer q) := by
  by_cases hq : q = nodeid
  · rw [hq, Function.update_self]
    exact hpeer
  · rw [Function.update_of_ne hq]
    exact h q

theorem inv_initial (genesis : α) (getBlockHash : α → Uint256) (nChainWork : ℕ)
    (status : BlockStatus) :
    Inv (initial getBlockHash genesis nChainWork status) genesis := by
  have hadd : (⟨[], fun _ => ⟨none, none, 0⟩⟩ : BlockMap α).addToBlockIndex genesis none =
      some (initial getBlockHash genesis nChainWork status).index.map := by
    simp [BlockMap.addToBlockIndex, initial]
  refine ⟨⟨genesis, .add (.empty _) (by simp) (by simp) hadd, ?_, ?_, rfl, ?_⟩, ?_,
    fun _ => known_initial _, ⟨0, Download.tracked_initial⟩, nofun⟩
  · intro b hb
    obtain rfl := List.mem_singleton.mp hb
    exact .refl b
  · exact List.mem_singleton_self genesis
  · intro k hk
    obtain rfl : k = 0 := Nat.le_zero.mp hk
    exact ⟨genesis, rfl, .refl genesis, rfl⟩
  · intro a ha b hb _
    rw [List.mem_singleton.mp ha, List.mem_singleton.mp hb]

omit [DecidableEq α] in
lemma find_eq_none {index : SyncIndex α} {hash : Uint256} (h : (index.find hash).isSome = false)
    {b : α} (hb : b ∈ index.map.mapBlockIndex) : index.getBlockHash b ≠ hash := by
  rw [Option.isSome_eq_false_iff, Option.isNone_iff_eq_none, SyncIndex.find,
    List.find?_eq_none] at h
  simpa using h b hb

lemma Inv.acceptBlockHeader (h : Inv s genesis) (pindexNew : α) (hashPrevBlock : Uint256)
    (proof : ℕ) : ∃ s', s.acceptBlockHeader pindexNew hashPrevBlock proof = some s' ∧
      Inv s' genesis ∧ s'.download = s.download := by
  unfold SyncNode.acceptBlockHeader
  by_cases hold : (s.index.find (s.index.getBlockHash pindexNew)).isSome = true
  · exact ⟨s, if_pos hold, h, rfl⟩
  rw [if_neg hold]
  rw [Bool.not_eq_true] at hold
  cases hprev : s.index.find hashPrevBlock with
  | none => exact ⟨s, rfl, h, rfl⟩
  | some pprev =>
    obtain ⟨tip, hbuilt, hgenesis, hpath⟩ := h.rooted
    have hp : pprev ∈ s.index.map.mapBlockIndex := List.mem_of_find?_eq_some hprev
    have hnew : pindexNew ∉ s.index.map.mapBlockIndex := fun hmem => find_eq_none hold hmem rfl
    have hparent : ∀ p, some pprev = some p → p ∈ s.index.map.mapBlockIndex := by
      intro p heq
      rwa [← Option.some.inj heq]
    obtain ⟨map, hmap, hbuilt', hmem⟩ := hbuilt.exists_add pindexNew (some pprev) hnew hparent
    obtain ⟨hlink, hsame, -⟩ := BlockMap.addToBlockIndex_fields hmap
    have hclosed : ∀ b p, b ∈ s.index.map.mapBlockIndex → s.index.map.pprev b = some p →
        p ∈ s.index.map.mapBlockIndex := fun _ _ hb hq => hbuilt.skipped.graded.closed hb hq
    have hanc : ∀ a b, b ∈ s.index.map.mapBlockIndex →
        (Anc map.pprev a b ↔ Anc s.index.map.pprev a b) := by
      intro a b hb
      refine anc_congr hclosed (fun c hc => (hsame c ?_).1) hb
      rintro rfl
      exact hnew hc
    have hmono : ∀ b ∈ s.index.map.mapBlockIndex, b ∈ map.mapBlockIndex := by
      intro b hb
      rw [hmem]
      exact List.mem_append_left _ hb
    dsimp only
    rw [hmap]
    refine ⟨_, rfl, ⟨⟨tip, hbuilt', ?_, hpath.add hbuilt.skipped hnew hmap⟩, ?_, ?_, h.tracked,
      h.bounded⟩, rfl⟩
    · intro b hb
      rw [hmem, List.mem_append, List.mem_singleton] at hb
      rcases hb with hb | rfl
      · exact (hanc genesis b hb).mpr (hgenesis b hb)
      · exact .step hlink ((hanc genesis pprev hp).mpr (hgenesis pprev hp))
    · intro a ha b hb heq
      rw [hmem, List.mem_append, List.mem_singleton] at ha hb
      rcases ha with ha | rfl <;> rcases hb with hb | rfl
      · exact h.hashes a ha b hb heq
      · exact absurd heq (find_eq_none hold ha)
      · exact absurd heq.symm (find_eq_none hold hb)
      · rfl
    · exact fun q => ⟨fun b hb => hmono b ((h.known q).best b hb),
        fun b hb => hmono b ((h.known q).last b hb)⟩

lemma Inv.setTip (h : Inv s genesis) {pindex : α} (hp : pindex ∈ s.index.map.mapBlockIndex) :
    ∃ s', s.setTip pindex = some s' ∧ Inv s' genesis ∧ s'.download = s.download := by
  obtain ⟨tip, hbuilt, hgenesis, hpath⟩ := h.rooted
  obtain ⟨c, hc, hnew⟩ := CChain.setTip_isPath hbuilt.skipped hpath hp
  refine ⟨{ s with index := { s.index with chainActive := c } }, ?_,
    ⟨⟨pindex, hbuilt, hgenesis, hp, hnew⟩, h.hashes,
      fun q => ⟨(h.known q).best, (h.known q).last⟩, h.tracked, h.bounded⟩, rfl⟩
  rw [SyncNode.setTip, hc]
  rfl

omit [DecidableEq α] in
lemma markStalling_spec {d : Download} {lost : ℤ} {staller : NodeId} (h : d.Tracked lost)
    (hknown : staller ≠ -1 → (d.state staller).isSome) (hbounded : Bounded d) (n nNow : ℤ) :
    ∃ d', markStalling n d staller nNow = some d' ∧ d'.Tracked lost ∧ Bounded d' ∧
      d'.mapBlocksInFlight = d.mapBlocksInFlight := by
  unfold markStalling
  split_ifs with hstaller
  swap
  · exact ⟨d, rfl, h, hbounded, rfl⟩
  obtain ⟨st, hst⟩ := Option.isSome_iff_exists.mp (hknown hstaller.2)
  rw [hst, Option.bind_eq_bind, Option.bind_some]
  split_ifs with hzero
  · let d' : Download := { d with
      mapNodeState := Download.changed staller (stalled nNow) d.mapNodeState }
    have hstate : ∀ q, d'.state q = if q = staller then (d.state q).map (stalled nNow)
        else d.state q := Download.stateIn_changed _
    refine ⟨d', rfl, h.changeState hst fun _ => ⟨rfl, rfl⟩, ?_, rfl⟩
    exact Download.forall_changed (P := fun st => st.nBlocksInFlight ≤ _) hstate hst
      (hbounded staller st hst) hbounded
  · exact ⟨d, rfl, h, hbounded, rfl⟩

lemma Inv.sendGetData (h : Inv s genesis) (hpeer : (s.download.state nodeid).isSome)
    (fClient fFetch : Bool) (nNow nTargetSpacing : ℤ) (nTime : α → ℤ) :
    ∃ s' fDisconnect asked,
      s.sendGetData nodeid fClient fFetch nNow nTargetSpacing nTime =
        some (s', fDisconnect, asked) ∧ Inv s' genesis ∧
      Asks s s' asked (.sendMessages nodeid fClient fFetch nNow nTargetSpacing nTime) ∧
      ∀ hash, hash ∉ asked →
        s'.download.mapBlocksInFlight hash = s.download.mapBlocksInFlight hash := by
  obtain ⟨st, hst⟩ := Option.isSome_iff_exists.mp hpeer
  obtain ⟨tip, hrooted⟩ := h.rooted
  obtain ⟨lost, htracked⟩ := h.tracked
  unfold SyncNode.sendGetData
  rw [hst, Option.bind_eq_bind, Option.bind_some]
  split_ifs with hstall htimeout hask
  · exact ⟨s, true, [], rfl, h, ⟨.nil, by simp⟩, by simp⟩
  · exact ⟨s, true, [], rfl, h, ⟨.nil, by simp⟩, by simp⟩
  swap
  · exact ⟨s, false, [], rfl, h, ⟨.nil, by simp⟩, by simp⟩
  simp only [Bool.and_eq_true, decide_eq_true_eq] at hask
  obtain ⟨-, hroom⟩ := hask
  obtain ⟨peer, vToDownload, staller, hnext, hrequests⟩ :=
    findNextBlocksToDownload_requests s.download.mapBlocksInFlight nodeid hrooted (h.known nodeid)
      (show 0 < ((MAX_BLOCKS_IN_TRANSIT_PER_PEER : ℤ) - st.nBlocksInFlight).toNat by omega)
  have hmissing : ∀ b ∈ vToDownload,
      s.download.mapBlocksInFlight (s.index.getBlockHash b) = none := by
    intro b hb
    have := (hrequests.each b hb).2.1
    rw [missing, Bool.and_eq_true, Option.isNone_iff_eq_none] at this
    exact this.2
  have hin : ∀ b ∈ vToDownload, b ∈ s.index.map.mapBlockIndex := by
    intro b hb
    obtain ⟨-, -, best, hbest, hanc⟩ := hrequests.each b hb
    exact hrooted.built.skipped.graded.mem (hrequests.known.best best hbest) hanc
  have hnodup : (vToDownload.map s.index.getBlockHash).Nodup :=
    hrequests.nodup.map_on fun a ha b hb heq => h.hashes a (hin a ha) b (hin b hb) heq
  obtain ⟨d, hd, htracked', hmarked⟩ := htracked.markAll nTime hst hnodup hmissing
  obtain ⟨st', hst', hcount⟩ := hmarked.own st hst
  have hbounded : Bounded d := by
    intro q stq hq
    by_cases heq : q = nodeid
    · subst heq
      obtain rfl := Option.some.inj (hst'.symm.trans hq)
      have := hrequests.length
      rw [hcount, List.length_map]
      omega
    · rw [hmarked.others q heq] at hq
      exact h.bounded q stq hq
  have hknown : staller ≠ -1 → (d.state staller).isSome := by
    intro hne
    obtain ⟨hash, it, hlink⟩ := hrequests.staller.resolve_left hne
    obtain ⟨sts, hsts, -⟩ := (htracked.links hash staller it).mp hlink
    by_cases heq : staller = nodeid
    · rw [heq, hst']
      rfl
    · rw [hmarked.others staller heq, hsts]
      rfl
  obtain ⟨d', hd', htracked'', hbounded', hmap⟩ := markStalling_spec htracked' hknown hbounded
    st'.nBlocksInFlight nNow
  rw [hnext, Option.bind_eq_bind, Option.bind_some]
  dsimp only
  rw [hd, Option.bind_eq_bind, Option.bind_some, hst', Option.bind_some, hd', Option.bind_some]
  refine ⟨_, false, _, rfl, ⟨⟨tip, hrooted⟩, h.hashes, known_update h.known hrequests.known nodeid,
    ⟨lost, htracked''⟩, hbounded'⟩, ⟨hnodup, fun hash hhash => ?_⟩, fun hash hhash => ?_⟩
  · obtain ⟨b, hb, rfl⟩ := List.mem_map.mp hhash
    obtain ⟨hvalid, hmiss, best, hbest, hanc⟩ := hrequests.each b hb
    refine ⟨b, best, rfl, hvalid, hmiss, ?_, hanc, ?_⟩
    · rw [setPeer]
      dsimp only
      rw [Function.update_self]
      exact hbest
    · rw [hmap]
      exact hmarked.now _ hhash
  · rw [hmap]
    exact hmarked.before hash hhash

/-- A block is in flight from a peer. -/
def Flying (d : Download) (hash : Uint256) (nodeid : NodeId) : Prop :=
  ∃ it, d.mapBlocksInFlight hash = some (nodeid, it)

omit [DecidableEq α] in
lemma Asks.not_flying {s' : SyncNode α} {asked : List Uint256} {op : Op α}
    (h : Asks s s' asked op) {hash : Uint256} (hhash : hash ∈ asked) (q : NodeId) :
    ¬ Flying s.download hash q := by
  rintro ⟨it, hit⟩
  cases op with
  | sendMessages nodeid fClient fFetch nNow nTargetSpacing nTime =>
    obtain ⟨b, -, rfl, -, hmissing, -⟩ := h.2 hash hhash
    rw [missing, hit] at hmissing
    simp at hmissing
  | inv nodeid vInv fImportingOrReindex =>
    obtain rfl := h
    split_ifs at hhash
    · cases hhash
    · have hnone := (List.mem_filter.mp hhash).2
      rw [hit] at hnone
      simp at hnone
  | _ =>
    obtain rfl := h
    cases hhash

/-- What one step keeps, and what it asks for. -/
structure Stepped (s : SyncNode α) (genesis : α) (op : Op α) (s' : SyncNode α)
    (asked : List Uint256) : Prop where
  inv : Inv s' genesis
  asks : Asks s s' asked op
  flying : ∀ hash q, Flying s.download hash q → op ≠ .received hash → op ≠ .finalizeNode q →
    Flying s'.download hash q

omit [DecidableEq α] in
lemma markBlockAsReceived_frame {d d' : Download} {hash : Uint256} (hbounded : Bounded d)
    (hd : d.markBlockAsReceived hash = some d') :
    Bounded d' ∧ ∀ h, h ≠ hash → d'.mapBlocksInFlight h = d.mapBlocksInFlight h := by
  unfold Download.markBlockAsReceived at hd
  split at hd
  · obtain rfl := Option.some.inj hd
    exact ⟨hbounded, fun _ _ => rfl⟩
  · next nodeid it hmap =>
    simp only [Option.bind_eq_bind, Option.bind_eq_some_iff, Option.pure_def] at hd
    obtain ⟨st, hst, entry, -, hd⟩ := hd
    have hstate : ∀ q, d'.state q =
        if q = nodeid then (d.state q).map (Download.unqueue it) else d.state q := by
      obtain rfl := Option.some.inj hd
      exact Download.stateIn_changed _
    refine ⟨Download.forall_changed (P := fun st => st.nBlocksInFlight ≤ _) hstate hst ?_ hbounded,
      fun h hne => ?_⟩
    · have := hbounded nodeid st hst
      simp only [Download.unqueue]
      omega
    · obtain rfl := Option.some.inj hd
      exact Function.update_of_ne hne _ _

lemma Inv.received (h : Inv s genesis) (hash : Uint256) :
    ∃ s' asked, s.step (.received hash) = some (s', asked) ∧
      Stepped s genesis (.received hash) s' asked := by
  obtain ⟨lost, htracked⟩ := h.tracked
  obtain ⟨d, hd, htracked', -⟩ := htracked.markBlockAsReceived hash
  obtain ⟨hbounded, hsame⟩ := markBlockAsReceived_frame h.bounded hd
  refine ⟨{ s with download := d }, [], by rw [SyncNode.step, hd]; rfl, ⟨h.rooted, h.hashes,
    h.known, ⟨lost, htracked'⟩, hbounded⟩, rfl, ?_⟩
  rintro h' q ⟨it, hit⟩ hne -
  refine ⟨it, ?_⟩
  rw [hsame h' fun heq => hne (heq ▸ rfl), hit]

lemma Inv.finalizeNode (h : Inv s genesis) (hpeer : (s.download.state nodeid).isSome) :
    ∃ s' asked, s.step (.finalizeNode nodeid) = some (s', asked) ∧
      Stepped s genesis (.finalizeNode nodeid) s' asked := by
  obtain ⟨lost, htracked⟩ := h.tracked
  obtain ⟨st, hst⟩ := Option.isSome_iff_exists.mp hpeer
  obtain ⟨r, hr⟩ : ∃ r, s.download.finalizeNode nodeid = some r := by
    simp [Download.finalizeNode, hst]
  have htracked' := htracked.finalizeNode hst hr
  have hr' := hr
  simp only [Download.finalizeNode, hst, Option.bind_eq_bind, Option.bind_some, Option.pure_def,
    Option.some.injEq] at hr'
  have hstate : ∀ q, r.1.state q = if q = nodeid then none else s.download.state q := by
    rw [← hr']
    exact Download.stateIn_filter
  refine ⟨{ s with download := r.1 }, [], by rw [SyncNode.step, hr]; rfl, ⟨h.rooted, h.hashes,
    h.known, ⟨_, htracked'⟩, fun q stq hq => ?_⟩, rfl, ?_⟩
  · rw [hstate] at hq
    split_ifs at hq
    exact h.bounded q stq hq
  · rintro hash q ⟨it, hit⟩ - hne
    refine ⟨it, ?_⟩
    rw [← hr']
    dsimp only
    rw [if_neg, hit]
    -- the block is in flight from another peer
    intro hmem
    obtain ⟨⟨it', entry⟩, hentry, rfl⟩ := List.mem_map.mp hmem
    have hlink := (htracked.links _ nodeid it').mpr ⟨st, hst, entry, hentry, rfl⟩
    rw [hit] at hlink
    cases hlink
    exact hne rfl

lemma Inv.updateBlockAvailability (h : Inv s genesis) (hpeer : (s.download.state nodeid).isSome)
    (hash : Uint256) : ∃ s', s.updateBlockAvailability nodeid hash = some s' ∧ Inv s' genesis ∧
      s'.download = s.download ∧ s'.index = s.index := by
  obtain ⟨st, hst⟩ := Option.isSome_iff_exists.mp hpeer
  refine ⟨s.setPeer nodeid (s.index.updateBlockAvailability (s.peers nodeid) hash), ?_,
    ⟨h.rooted, h.hashes, known_update h.known ((h.known nodeid).updateBlockAvailability hash)
      nodeid, h.tracked, h.bounded⟩, rfl, rfl⟩
  rw [SyncNode.updateBlockAvailability, hst]
  rfl

lemma Inv.processInvEntries (h : Inv s genesis) (hpeer : (s.download.state nodeid).isSome)
    (vInv : List CInv) (fImportingOrReindex : Bool) (vToFetch : List CInv) :
    ∃ s' vToFetch', vInv.foldlM (processInvEntry nodeid fImportingOrReindex) (s, vToFetch) =
        some (s', vToFetch') ∧
      Inv s' genesis ∧ s'.download = s.download ∧
      vToFetch'.map (·.hash) = vToFetch.map (·.hash) ++
        if fImportingOrReindex = true then [] else s.toFetch vInv := by
  induction vInv generalizing s vToFetch with
  | nil => exact ⟨s, vToFetch, rfl, h, rfl, by simp [toFetch]⟩
  | cons inv vInv ih =>
    rw [List.foldlM_cons]
    by_cases hblock : inv.type = MSG_BLOCK
    · obtain ⟨s₁, hs₁, h₁, hdownload, hindex⟩ := h.updateBlockAvailability hpeer inv.hash
      have hsame : s₁.toFetch vInv = s.toFetch vInv := by rw [toFetch, hindex, hdownload, toFetch]
      obtain ⟨s₂, l, hl, h₂, hdownload₂, hfetch⟩ := ih h₁ (by rwa [hdownload])
        (if !(s.index.find inv.hash).isSome && !fImportingOrReindex &&
          (s₁.download.mapBlocksInFlight inv.hash).isNone then vToFetch ++ [inv] else vToFetch)
      rw [processInvEntry, if_pos hblock]
      simp only [hs₁, Option.bind_eq_bind, Option.bind_some, Option.pure_def]
      refine ⟨s₂, l, hl, h₂, hdownload₂.trans hdownload, ?_⟩
      rw [hfetch, hsame, hdownload]
      cases fImportingOrReindex with
      | true => simp
      | false =>
        simp only [toFetch, hblock, List.filter_cons, List.map_cons, decide_true, if_true,
          Bool.not_false, Bool.and_true, Option.not_isSome, Bool.false_eq_true, if_false]
        split_ifs <;> simp
    · obtain ⟨s₂, l, hl, h₂, hdownload, hfetch⟩ := ih h hpeer vToFetch
      rw [processInvEntry, if_neg hblock, Option.bind_eq_bind, Option.bind_some]
      refine ⟨s₂, l, hl, h₂, hdownload, ?_⟩
      rw [hfetch, toFetch, toFetch, List.filter_cons_of_neg (by simpa using hblock)]

lemma Inv.misbehaving (h : Inv s genesis) (hpeer : (s.download.state nodeid).isSome)
    (howmuch : ℤ) : Inv (s.misbehaving nodeid howmuch) genesis := by
  obtain ⟨st, hst⟩ := Option.isSome_iff_exists.mp hpeer
  obtain ⟨lost, htracked⟩ := h.tracked
  have hstate : ∀ q, (s.misbehaving nodeid howmuch).download.state q =
      if q = nodeid then (s.download.state q).map (punished howmuch) else s.download.state q :=
    Download.stateIn_changed _
  exact ⟨h.rooted, h.hashes, h.known, ⟨lost, htracked.changeState hst fun _ => ⟨rfl, rfl⟩⟩,
    Download.forall_changed (P := fun st => st.nBlocksInFlight ≤ _) hstate hst
      (h.bounded nodeid st hst) h.bounded⟩

lemma Inv.initializeNode (h : Inv s genesis) (nodeid : NodeId) :
    ∃ s' asked, s.step (.initializeNode nodeid) = some (s', asked) ∧
      Stepped s genesis (.initializeNode nodeid) s' asked := by
  obtain ⟨lost, htracked⟩ := h.tracked
  have hmap : (s.download.initializeNode nodeid).mapBlocksInFlight =
      s.download.mapBlocksInFlight := by
    unfold Download.initializeNode
    split_ifs <;> rfl
  refine ⟨_, [], rfl, ⟨h.rooted, h.hashes, ?_, ⟨lost, htracked.initializeNode nodeid⟩, ?_⟩, rfl,
    ?_⟩
  · dsimp only
    split_ifs
    · exact h.known
    · exact known_update h.known (known_initial _) nodeid
  · intro q st hst
    dsimp only at hst
    unfold Download.initializeNode at hst
    split_ifs at hst with hold
    · exact h.bounded q st hst
    · rw [Download.state, Download.stateIn, List.find?_append] at hst
      cases hfind : s.download.mapNodeState.find? fun e => e.1 == q with
      | some e =>
        refine h.bounded q st ?_
        rw [hfind, Option.some_or] at hst
        rw [Download.state, Download.stateIn, hfind, hst]
      | none =>
        rw [hfind, Option.none_or] at hst
        obtain ⟨e, he, rfl⟩ := Option.map_eq_some_iff.mp hst
        rw [List.mem_singleton.mp (List.mem_of_find?_eq_some he)]
        exact Int.natCast_nonneg _
  · rintro hash q ⟨it, hit⟩ - -
    refine ⟨it, ?_⟩
    dsimp only
    rw [hmap, hit]

/-- **What one step keeps.** -/
theorem Inv.step (h : Inv s genesis) {op : Op α} (hok : s.Allowed op) :
    ∃ s' asked, s.step op = some (s', asked) ∧ Stepped s genesis op s' asked := by
  cases op with
  | initializeNode nodeid => exact h.initializeNode nodeid
  | finalizeNode nodeid => exact h.finalizeNode hok
  | received hash => exact h.received hash
  | headers nodeid hash =>
    obtain ⟨s', hs', hinv, hsame, -⟩ := h.updateBlockAvailability hok hash
    refine ⟨s', [], by rw [SyncNode.step, hs']; rfl, hinv, rfl, ?_⟩
    intro hash q hf _ _
    rwa [hsame]
  | inv nodeid vInv fImportingOrReindex =>
    rw [SyncNode.step, processInv]
    by_cases hmany : MAX_INV_SZ < vInv.length
    · rw [if_pos hmany]
      refine ⟨_, [], rfl, h.misbehaving hok 20, ?_, fun _ _ hf _ _ => hf⟩
      rw [Asks, if_pos (.inl hmany)]
    · obtain ⟨s', l, hl, hinv, hsame, hfetch⟩ :=
        h.processInvEntries hok vInv fImportingOrReindex []
      rw [if_neg hmany, hl]
      refine ⟨s', _, rfl, hinv, ?_, ?_⟩
      · rw [Asks, hfetch]
        simp [hmany]
      · intro hash q hf _ _
        rwa [hsame]
  | acceptBlockHeader pindexNew hashPrevBlock proof =>
    obtain ⟨s', hs', hinv, hsame⟩ := h.acceptBlockHeader pindexNew hashPrevBlock proof
    refine ⟨s', [], by rw [SyncNode.step, hs']; rfl, hinv, rfl, ?_⟩
    intro hash q hf _ _
    rwa [hsame]
  | setStatus pindex status =>
    refine ⟨_, [], rfl, ⟨?_, h.hashes, fun q => ⟨(h.known q).best, (h.known q).last⟩, h.tracked,
      h.bounded⟩, rfl, fun _ _ hf _ _ => hf⟩
    obtain ⟨tip, hbuilt, hgenesis, hpath⟩ := h.rooted
    exact ⟨tip, hbuilt, hgenesis, hpath⟩
  | setTip pindex =>
    obtain ⟨s', hs', hinv, hsame⟩ := h.setTip hok
    refine ⟨s', [], by rw [SyncNode.step, hs']; rfl, hinv, rfl, ?_⟩
    intro hash q hf _ _
    rwa [hsame]
  | sendMessages nodeid fClient fFetch nNow nTargetSpacing nTime =>
    obtain ⟨s', fDisconnect, asked, hs', hinv, hasks, hbefore⟩ :=
      h.sendGetData hok fClient fFetch nNow nTargetSpacing nTime
    refine ⟨s', asked, by rw [SyncNode.step, hs']; rfl, hinv, hasks, ?_⟩
    intro hash q hf _ _
    have hnot : hash ∉ asked := fun hhash => hasks.not_flying hhash q hf
    obtain ⟨it, hit⟩ := hf
    exact ⟨it, (hbefore hash hnot).trans hit⟩

/-! ### Requests over a run -/

variable {start : SyncNode α} {log : List (Op α × List Uint256)}

lemma Run.inv (h : Run start log s) (h0 : Inv start genesis) : Inv s genesis := by
  induction h with
  | nil => exact h0
  | snoc _ hok hs ih =>
    obtain ⟨s', asked, hs', hstepped⟩ := ih.step hok
    rw [hs] at hs'
    cases hs'
    exact hstepped.inv

lemma Run.stepped {op : Op α} {s' : SyncNode α} {asked : List Uint256} (h : Run start log s)
    (h0 : Inv start genesis) (hok : s.Allowed op) (hs : s.step op = some (s', asked)) :
    Stepped s genesis op s' asked := by
  obtain ⟨s₂, asked₂, hs₂, hstepped⟩ := (h.inv h0).step hok
  rw [hs] at hs₂
  cases hs₂
  exact hstepped

lemma Run.of_snoc {s' : SyncNode α} {op : Op α} {asked : List Uint256}
    (h : Run start (log ++ [(op, asked)]) s') :
    ∃ s, Run start log s ∧ s.Allowed op ∧ s.step op = some (s', asked) := by
  generalize hl : log ++ [(op, asked)] = l at h
  cases h with
  | nil => simp at hl
  | @snoc l' s _ op' asked' h hok hs =>
    obtain ⟨rfl, he⟩ := List.append_inj' hl rfl
    cases List.singleton_inj.mp he
    exact ⟨s, h, hok, hs⟩

lemma Run.split {log₁ log₂ : List (Op α × List Uint256)} (h : Run start (log₁ ++ log₂) s) :
    ∃ mid, Run start log₁ mid ∧ Run mid log₂ s := by
  induction log₂ using List.reverseRecOn generalizing s with
  | nil => exact ⟨s, by simpa using h, .nil⟩
  | append_singleton log₂ e ih =>
    rw [← List.append_assoc] at h
    obtain ⟨s₁, h', hok, hs⟩ := h.of_snoc
    obtain ⟨mid, h₁, h₂⟩ := ih h'
    exact ⟨mid, h₁, h₂.snoc hok hs⟩

lemma Run.flying {hash : Uint256} {q : NodeId} (h : Run start log s) (h0 : Inv start genesis)
    (hf : Flying start.download hash q)
    (hno : ∀ e ∈ log, e.1 ≠ .received hash ∧ e.1 ≠ .finalizeNode q) :
    Flying s.download hash q := by
  induction h with
  | nil => exact hf
  | @snoc log s s' op asked h hok hs ih =>
    obtain ⟨hr, hd⟩ := hno _ (List.mem_append_right _ (List.mem_singleton_self _))
    exact (h.stepped h0 hok hs).flying hash q
      (ih fun e he => hno e (List.mem_append_left _ he)) hr hd

/-- **The requests of a run.** Whatever the peers announce and whatever is accepted, received or
forgotten in between, in any order: no step fails. At most 16 blocks are in flight from a peer. What
is asked for in `SendMessages` are blocks that differ from each other, are neither there nor in
flight, and lie on a chain of the peer that is not known to be invalid; after an `inv` it is what
was announced without those that are there or in flight. A block that was asked for in
`SendMessages` is not asked for again, from any peer, before it is received or the peer that was
asked is forgotten. -/
theorem Run.requests (getBlockHash : α → Uint256) (nChainWork : ℕ) (status : BlockStatus)
    (h : Run (initial getBlockHash genesis nChainWork status) log s) :
    (∀ op, s.Allowed op → (s.step op).isSome) ∧
    (∀ q st, s.download.state q = some st → st.nBlocksInFlight = st.vBlocksInFlight.length ∧
      st.vBlocksInFlight.length ≤ MAX_BLOCKS_IN_TRANSIT_PER_PEER) ∧
    (∀ op s' asked, s.Allowed op → s.step op = some (s', asked) → Asks s s' asked op) ∧
    ∀ log₁ log₂ nodeid fClient fFetch nNow nTargetSpacing nTime asked op asked',
      log = log₁ ++ [(.sendMessages nodeid fClient fFetch nNow nTargetSpacing nTime, asked)] ++
        log₂ ++ [(op, asked')] →
      ∀ hash ∈ asked, hash ∈ asked' →
        ∃ e ∈ log₂, e.1 = .received hash ∨ e.1 = .finalizeNode nodeid := by
  have h0 := inv_initial genesis getBlockHash nChainWork status
  have hinv := h.inv h0
  refine ⟨fun op hok => ?_, fun q st hst => ?_, fun op s' asked hok hs => ?_, ?_⟩
  · obtain ⟨s', asked, hs, -⟩ := hinv.step hok
    rw [hs]
    rfl
  · obtain ⟨lost, htracked⟩ := hinv.tracked
    have hlen := htracked.lengths q st hst
    have := hinv.bounded q st hst
    exact ⟨hlen, by omega⟩
  · exact (h.stepped h0 hok hs).asks
  · rintro log₁ log₂ nodeid fClient fFetch nNow nTargetSpacing nTime asked op asked' rfl hash hhash
      hhash'
    by_contra hno
    push Not at hno
    obtain ⟨s₃, h₃, hok₃, hs₃⟩ := h.of_snoc
    obtain ⟨s₂, h₂, hmid⟩ := h₃.split
    obtain ⟨s₁, h₁, hok₁, hs₁⟩ := h₂.of_snoc
    -- the block is in flight after the first request, and at the second
    obtain ⟨b, best, -, -, -, -, -, hflying⟩ := (h₁.stepped h0 hok₁ hs₁).asks.2 hash hhash
    have hstill := hmid.flying (h₂.inv h0) hflying hno
    exact (h₃.stepped h0 hok₃ hs₃).asks.not_flying hhash' nodeid hstill

end SyncNode

namespace Concrete

open SyncNode

/-- A node that knows its genesis block, whose number is also its hash. -/
def syncNode : SyncNode ℕ :=
  initial (BitVec.ofNat 256) 5 1 ⟨BLOCK_VALID_TRANSACTIONS, true, false, false, 1, 1, 1⟩

/-- Two peers come, two blocks come after the genesis block, and one peer says that it has the
second. Both blocks are asked for, and not again when the other peer announces them with one that is
not known. -/
def twoBlocks : List (Op ℕ × List Uint256) :=
  [(.initializeNode 3, []), (.initializeNode 4, []), (.acceptBlockHeader 6 5 10, []),
    (.acceptBlockHeader 7 6 10, []), (.headers 3 7, []),
    (.sendMessages 3 false true 1000 60 fun _ => 1000, [6, 7]),
    (.inv 4 [⟨MSG_BLOCK, 6⟩, ⟨MSG_BLOCK, 8⟩, ⟨1, 9⟩, ⟨MSG_BLOCK, 8⟩] false, [8, 8])]

theorem requests_twoBlocks : ∃ s, Run syncNode twoBlocks s ∧
    ∀ op s' asked, s.Allowed op → s.step op = some (s', asked) → Asks s s' asked op := by
  have h₁ : Run syncNode (twoBlocks.take 1) _ := .snoc .nil trivial rfl
  have h₂ : Run syncNode (twoBlocks.take 2) _ := .snoc h₁ trivial rfl
  have h₃ : Run syncNode (twoBlocks.take 3) _ := .snoc h₂ trivial rfl
  have h₄ : Run syncNode (twoBlocks.take 4) _ := .snoc h₃ trivial rfl
  have h₅ : Run syncNode (twoBlocks.take 5) _ := .snoc h₄ rfl rfl
  have h₆ : Run syncNode (twoBlocks.take 6) _ := .snoc h₅ rfl rfl
  have h₇ : Run syncNode twoBlocks _ := .snoc h₆ rfl rfl
  exact ⟨_, h₇, (Run.requests _ _ _ h₇).2.2.1⟩

end Concrete

end Agenor
