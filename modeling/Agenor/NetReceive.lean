import Agenor.NetMessage

/-!
From the socket to the handlers of the messages (`net.cpp`, `main.cpp`).

One thread reads from the sockets and queues the messages that are complete, another takes them off
the queue, one at a time, and checks them. In whatever order the two come to it, and however the
stream is cut, what is handled is what the stream says.
-/

namespace Agenor

/-- What is the same in the whole program: the magic bytes, the double hash and the two limits. -/
structure NetEnv where
  MessageStart : List UInt8
  Hash : List UInt8 → Uint256
  nReceiveFloodSize : ℕ
  nSendBufferMaxSize : ℕ
  start_length : MessageStart.length = CMessageHeader.MESSAGE_START_SIZE

def NetEnv.checksum (env : NetEnv) (data : List UInt8) : List UInt8 :=
  (bytesLE 32 (env.Hash data).toNat).take CMessageHeader.CHECKSUM_SIZE

namespace CMessageHeader

/-- The loop of `IsValid` over the command: printable characters, then zeros only. -/
def isCommand : List UInt8 → Bool
  | [] => true
  | b :: l =>
    if b = 0 then l.all fun b => b == 0
    else if b < 0x20 || 0x7e < b then false
    else isCommand l

def isValid (hdr : CMessageHeader) (messageStart : List UInt8) : Bool :=
  if hdr.pchMessageStart ≠ messageStart then false
  else if !isCommand hdr.pchCommand then false
  else if Reader.MAX_SIZE < hdr.nMessageSize then false
  else true

/-- `GetCommand`: up to the first zero. -/
def getCommand (hdr : CMessageHeader) : List UInt8 := hdr.pchCommand.takeWhile fun b => b != 0

end CMessageHeader

/-- What `CNode` has about the messages that come in. -/
structure RecvNode where
  vRecvMsg : List CNetMessage
  vProcessMsg : List CNetMessage
  nProcessQueueSize : ℕ
  fPauseRecv : Bool
  fDisconnect : Bool
  /-- `hSocket` is `INVALID_SOCKET`. -/
  closed : Bool
  deriving DecidableEq, Repr

namespace RecvNode

def initial : RecvNode := ⟨[], [], 0, false, false, false⟩

variable (env : NetEnv) (node : RecvNode)

def closeSocketDisconnect : RecvNode := { node with fDisconnect := true, closed := true }

/-- The connection is closed when `ReceiveMsgBytes` returns `false`. -/
def keep (r : BytesReceived) : RecvNode :=
  let node := { node with vRecvMsg := r.vRecvMsg }
  if r.ok then node else node.closeSocketDisconnect

/-- The size that messages are counted with. -/
def queueSize (msgs : List CNetMessage) : ℕ :=
  (msgs.map fun msg => msg.vRecv.length + CMessageHeader.HEADER_SIZE).sum

/-- The messages that are complete go to the other thread. -/
def splice : RecvNode :=
  let ready := node.vRecvMsg.takeWhile (·.complete)
  let nProcessQueueSize := node.nProcessQueueSize + queueSize ready
  { node with
    vRecvMsg := node.vRecvMsg.dropWhile (·.complete)
    vProcessMsg := node.vProcessMsg ++ ready
    nProcessQueueSize
    fPauseRecv := decide (env.nReceiveFloodSize < nProcessQueueSize) }

/-- The part of `ThreadSocketHandler` after `recv` has given some bytes. -/
def socketReceive (pchBuf : List UInt8) : Option RecvNode :=
  if node.closed then some node
  else do
    let r ← receiveMsgBytes env.MessageStart node.vRecvMsg pchBuf
    let node := node.keep r
    return if r.complete then node.splice env else node

/-- What a message is taken for, after it has been taken off the queue. -/
inductive Verdict
  | disconnect
  | ignore
  /-- The arguments of `ProcessMessage`. -/
  | process (strCommand : List UInt8) (vRecv : List UInt8)
  deriving DecidableEq, Repr

/-- The checks of `ProcessMessages` on one message. -/
def verdict (hdr : CMessageHeader) (vRecv : List UInt8) : Verdict :=
  if hdr.pchMessageStart ≠ env.MessageStart then .disconnect
  else if !hdr.isValid env.MessageStart then .ignore
  else if env.checksum (vRecv.take hdr.nMessageSize) ≠ hdr.pchChecksum then .ignore
  else .process hdr.getCommand vRecv

/-- `ProcessMessages`: the node, and what `ProcessMessage` is called with. It waits while there are
requests to be answered first, or the send buffer is full. -/
def processMessages (wait : Bool) : RecvNode × Option (List UInt8 × List UInt8) :=
  if node.fDisconnect then (node, none)
  else if wait then (node, none)
  else
    match node.vProcessMsg with
    | [] => (node, none)
    | msg :: msgs =>
      let nProcessQueueSize :=
        node.nProcessQueueSize - (msg.vRecv.length + CMessageHeader.HEADER_SIZE)
      let node := { node with
        vProcessMsg := msgs
        nProcessQueueSize
        fPauseRecv := decide (env.nReceiveFloodSize < nProcessQueueSize) }
      match verdict env msg.hdr msg.vRecv with
      | .disconnect => ({ node with fDisconnect := true }, none)
      | .ignore => (node, none)
      | .process strCommand vRecv => (node, some (strCommand, vRecv))

/-! ### Runs -/

/-- The node, what `recv` has given, whether the connection has been given up, and what has been
handled. -/
structure World where
  node : RecvNode
  stream : List UInt8
  hungUp : Bool
  handled : List (List UInt8 × List UInt8)
  deriving DecidableEq, Repr

def World.initial : World := ⟨.initial, [], false, []⟩

/-- The steps of the two threads. The connection is given up for an error of the socket, or when
nothing has come for too long. -/
inductive Op
  | receive (pchBuf : List UInt8)
  | process (wait : Bool)
  | hangUp
  deriving DecidableEq, Repr

/-- Nothing is read from a socket that is closed. -/
def World.step (w : World) : Op → Option World
  | .receive pchBuf => do
    let node ← w.node.socketReceive env pchBuf
    return { w with
      node
      stream := if w.node.closed then w.stream else w.stream ++ pchBuf }
  | .process wait =>
    let (node, message) := w.node.processMessages env wait
    some { w with
      node
      handled := w.handled ++ message.toList }
  | .hangUp => some { w with node := w.node.closeSocketDisconnect, hungUp := true }

/-- What is handled of some messages: those before one with other magic bytes, and of these the
ones that have a valid header and the checksum of their data. -/
def handledOf : List (CMessageHeader × List UInt8) → List (List UInt8 × List UInt8)
  | [] => []
  | m :: ms =>
    match verdict env m.1 m.2 with
    | .disconnect => []
    | .ignore => handledOf ms
    | .process strCommand vRecv => (strCommand, vRecv) :: handledOf ms

/-- The messages that have been taken off the queue and those that are in it make up the stream. -/
structure Inv (w : World) (taken : List (CMessageHeader × List UInt8)) : Prop where
  collected : Collected w.node.vRecvMsg { frames w.stream with messages := [] }
  closed : w.node.closed = ((frames w.stream).oversized || w.hungUp)
  queue : ∃ queued, List.Forall₂ Whole w.node.vProcessMsg queued ∧
    (frames w.stream).messages = taken ++ queued
  handled : w.handled = handledOf env taken
  disconnect : w.node.fDisconnect = true ↔
    w.node.closed = true ∨ ∃ m ∈ taken, verdict env m.1 m.2 = .disconnect
  size : w.node.nProcessQueueSize = queueSize w.node.vProcessMsg
  pause : w.node.fPauseRecv = decide (env.nReceiveFloodSize < w.node.nProcessQueueSize)

section Steps

variable {env node} {w : World} {taken : List (CMessageHeader × List UInt8)}

lemma inv_initial : Inv env .initial [] where
  collected := by
    have hframes : frames World.initial.stream = ⟨[], [], false⟩ :=
      frames_short (show ([] : List UInt8).length < 24 by decide)
    rw [hframes]
    exact .closed .nil rfl rfl
  closed := by
    rw [show World.initial.stream = [] from rfl, frames_short (by decide)]
    rfl
  queue := by
    rw [show World.initial.stream = [] from rfl, frames_short (by decide)]
    exact ⟨[], .nil, rfl⟩
  handled := rfl
  disconnect := by simp [World.initial, RecvNode.initial]
  size := rfl
  pause := by simp [World.initial, RecvNode.initial]

lemma Inv.receive (h : Inv env w taken) (pchBuf : List UInt8) :
    ∃ w', w.step env (.receive pchBuf) = some w' ∧ Inv env w' taken := by
  by_cases hclosed : w.node.closed = true
  · have hstep : w.step env (.receive pchBuf) = some w := by
      simp [World.step, socketReceive, hclosed]
    exact ⟨w, hstep, h⟩
  have hopen : ((frames w.stream).oversized || w.hungUp) = false := by
    rw [← h.closed]
    simpa using hclosed
  obtain ⟨hok, hhung⟩ := Bool.or_eq_false_iff.mp hopen
  have hrest := frames_rest w.stream hok
  obtain ⟨r, hr, hcol, hrok, hcomplete⟩ := receiveLoop_collected env.MessageStart pchBuf.length
    w.node.vRecvMsg pchBuf false h.collected hok le_rfl hrest
  obtain ⟨queued, hqueued, hmessages⟩ := h.queue
  -- what has come now, and the whole stream
  generalize hg : frames ((frames w.stream).rest ++ pchBuf) = g at hcomplete
  have hext : Frames.extend { frames w.stream with messages := [] } pchBuf = g := by
    rw [Frames.extend, hg]
    rfl
  rw [hext] at hcol hrok
  have hstream : frames (w.stream ++ pchBuf) =
      ⟨(frames w.stream).messages ++ g.messages, g.rest, g.oversized⟩ := by
    rw [frames_append _ _ hok, Frames.extend, hg]
  obtain ⟨hready, hleft⟩ := hcol.split
  -- the node after the bytes have been read, before the queue
  generalize hnode : w.node.keep r = node
  have hsame : node.vRecvMsg = r.vRecvMsg ∧ node.vProcessMsg = w.node.vProcessMsg ∧
      node.nProcessQueueSize = w.node.nProcessQueueSize ∧ node.fPauseRecv = w.node.fPauseRecv := by
    rw [← hnode, keep]
    split_ifs <;> exact ⟨rfl, rfl, rfl, rfl⟩
  obtain ⟨hrecv, hprocess, hsize, hpause⟩ := hsame
  have hclosed' : node.closed = ((frames (w.stream ++ pchBuf)).oversized || w.hungUp) := by
    rw [hstream, hhung, Bool.or_false, ← hnode, keep]
    cases hro : r.ok with
    | true =>
      rw [if_pos rfl]
      rw [hro] at hrok
      dsimp only
      rw [h.closed, hopen]
      simpa using hrok
    | false =>
      rw [if_neg Bool.false_ne_true]
      rw [hro] at hrok
      dsimp only [closeSocketDisconnect]
      simpa using hrok
  have hdisconnect : node.fDisconnect = true ↔
      node.closed = true ∨ ∃ m ∈ taken, verdict env m.1 m.2 = .disconnect := by
    rw [← hnode, keep]
    split_ifs
    · exact h.disconnect
    · simp [closeSocketDisconnect]
  by_cases hc : r.complete = true
  · refine ⟨{ w with node := node.splice env, stream := w.stream ++ pchBuf }, ?_, ?_⟩
    · simp only [World.step, socketReceive, hclosed, receiveMsgBytes, hr, hc, hnode,
        Option.bind_eq_bind, Option.bind_some, Option.pure_def, Bool.false_eq_true, if_false,
        if_true]
    refine ⟨?_, hclosed', ⟨queued ++ g.messages, ?_, ?_⟩, h.handled, hdisconnect, ?_, rfl⟩
    · dsimp only [splice]
      rw [hstream, hrecv]
      exact hleft
    · dsimp only [splice]
      rw [hprocess, hrecv]
      exact List.rel_append hqueued hready
    · dsimp only
      rw [hstream, hmessages, List.append_assoc]
    · dsimp only [splice]
      rw [hsize, h.size, hprocess]
      simp [queueSize]
  · rw [Bool.not_eq_true] at hc
    have hnone : g.messages = [] := by
      rw [hc, Bool.false_or] at hcomplete
      simpa using hcomplete
    refine ⟨{ w with node, stream := w.stream ++ pchBuf }, ?_, ?_⟩
    · simp only [World.step, socketReceive, hclosed, receiveMsgBytes, hr, hc, hnode,
        Option.bind_eq_bind, Option.bind_some, Option.pure_def, Bool.false_eq_true, if_false]
    refine ⟨?_, hclosed', ⟨queued, ?_, ?_⟩, h.handled, hdisconnect, ?_, ?_⟩
    · dsimp only
      rw [hstream, hrecv]
      have hcol' : Collected r.vRecvMsg { g with messages := [] } := by
        rw [← hnone]
        exact hcol
      exact hcol'
    · dsimp only
      rwa [hprocess]
    · dsimp only
      rw [hstream, hmessages, hnone, List.append_nil]
    · dsimp only
      rw [hsize, h.size, hprocess]
    · dsimp only
      rw [hpause, hsize, h.pause]

lemma Inv.hangUp (h : Inv env w taken) :
    ∃ w', w.step env .hangUp = some w' ∧ Inv env w' taken := by
  refine ⟨_, rfl, h.collected, ?_, h.queue, h.handled, ?_, h.size, h.pause⟩
  · simp [closeSocketDisconnect]
  · simp [closeSocketDisconnect]

lemma handledOf_concat (taken : List (CMessageHeader × List UInt8))
    (m : CMessageHeader × List UInt8)
    (h : ¬ ∃ m ∈ taken, verdict env m.1 m.2 = .disconnect) :
    handledOf env (taken ++ [m]) = handledOf env taken ++ handledOf env [m] := by
  induction taken with
  | nil => rfl
  | cons a taken ih =>
    have htail := ih fun ⟨m, hm, hv⟩ => h ⟨m, List.mem_cons_of_mem _ hm, hv⟩
    rw [List.cons_append, handledOf.eq_2, handledOf.eq_2]
    cases hv : verdict env a.1 a.2 with
    | disconnect => exact absurd ⟨a, List.mem_cons_self, hv⟩ h
    | ignore => exact htail
    | process strCommand vRecv =>
      dsimp only
      rw [htail]
      rfl

lemma Inv.process (h : Inv env w taken) (wait : Bool) :
    ∃ w' taken', w.step env (.process wait) = some w' ∧ Inv env w' taken' := by
  obtain ⟨queued, hqueued, hmessages⟩ := h.queue
  by_cases hidle : w.node.fDisconnect = true ∨ wait = true ∨ w.node.vProcessMsg = []
  · -- nothing is done
    have hstep : w.node.processMessages env wait = (w.node, none) := by
      unfold processMessages
      rcases hidle with hd | hw | hempty
      · rw [if_pos hd]
      · rw [if_pos hw, ite_self]
      · rw [hempty]
        simp
    refine ⟨w, taken, ?_, h⟩
    simp [World.step, hstep]
  push Not at hidle
  obtain ⟨hd, hw, hne⟩ := hidle
  obtain ⟨msg, msgs, hq⟩ := List.exists_cons_of_ne_nil hne
  rw [hq] at hqueued
  obtain ⟨m, queued', hm, hqueued', rfl⟩ := List.forall₂_cons_left_iff.mp hqueued
  have hsize : w.node.nProcessQueueSize - (msg.vRecv.length + CMessageHeader.HEADER_SIZE) =
      queueSize msgs := by
    rw [h.size, hq, queueSize, List.map_cons, List.sum_cons, ← queueSize, Nat.add_sub_cancel_left]
  have hno : ¬ ∃ m ∈ taken, verdict env m.1 m.2 = .disconnect := fun hex =>
    hd (h.disconnect.mpr (.inr hex))
  have hhandled := handledOf_concat taken m hno
  have hmessages' : (frames w.stream).messages = (taken ++ [m]) ++ queued' := by
    rw [hmessages, List.append_assoc]
    rfl
  have hmem : (∃ a ∈ taken ++ [m], verdict env a.1 a.2 = .disconnect) ↔
      verdict env m.1 m.2 = .disconnect := by
    constructor
    · rintro ⟨a, ha, hv⟩
      rcases List.mem_append.mp ha with ha | ha
      · exact absurd ⟨a, ha, hv⟩ hno
      · rwa [List.mem_singleton.mp ha] at hv
    · exact fun hv => ⟨m, by simp, hv⟩
  -- the node after the message has been taken
  generalize hnode : ({ w.node with
    vProcessMsg := msgs
    nProcessQueueSize := w.node.nProcessQueueSize -
      (msg.vRecv.length + CMessageHeader.HEADER_SIZE)
    fPauseRecv := decide (env.nReceiveFloodSize < w.node.nProcessQueueSize -
      (msg.vRecv.length + CMessageHeader.HEADER_SIZE)) } : RecvNode) = node
  have hrun : w.node.processMessages env wait =
      match verdict env m.1 m.2 with
      | .disconnect => ({ node with fDisconnect := true }, none)
      | .ignore => (node, none)
      | .process strCommand vRecv => (node, some (strCommand, vRecv)) := by
    rw [processMessages, if_neg hd, if_neg hw, hq, ← hnode, ← hm.hdr, ← hm.vRecv]
  have hopen : w.node.closed = false := by
    by_contra hc
    exact hd (h.disconnect.mpr (.inl (by simpa using hc)))
  have hdisc : node.fDisconnect = false := by
    rw [← hnode]
    simpa using hd
  have hinv : ∀ fDisconnect handled,
      (fDisconnect = true ↔ verdict env m.1 m.2 = .disconnect) →
      handled = handledOf env (taken ++ [m]) →
      Inv env { w with
        node := { node with fDisconnect }
        handled } (taken ++ [m]) := by
    intro fDisconnect handled hf hh
    rw [← hnode]
    refine ⟨h.collected, h.closed, ⟨queued', hqueued', hmessages'⟩, hh, ?_, hsize, rfl⟩
    rw [hmem, hf]
    simp [hopen]
  cases hv : verdict env m.1 m.2 with
  | disconnect =>
    rw [hv] at hrun
    refine ⟨_, taken ++ [m], by simp [World.step, hrun]; rfl, ?_⟩
    refine hinv true _ (by simp [hv]) ?_
    rw [hhandled, handledOf, hv, h.handled]
    simp
  | ignore =>
    rw [hv] at hrun
    refine ⟨_, taken ++ [m], by simp [World.step, hrun]; rfl, ?_⟩
    have hsame := hinv false w.handled (by simp [hv])
    rw [← hdisc] at hsame
    refine hsame ?_
    rw [hhandled, handledOf, hv, h.handled]
    simp [handledOf]
  | process strCommand vRecv =>
    rw [hv] at hrun
    refine ⟨_, taken ++ [m], by simp [World.step, hrun]; rfl, ?_⟩
    have hsame := hinv false (w.handled ++ [(strCommand, vRecv)]) (by simp [hv])
    rw [← hdisc] at hsame
    refine hsame ?_
    rw [hhandled, handledOf, hv, h.handled]
    simp [handledOf]

lemma Inv.step (h : Inv env w taken) (op : Op) :
    ∃ w' taken', w.step env op = some w' ∧ Inv env w' taken' := by
  cases op with
  | receive pchBuf =>
    obtain ⟨w', hw, hinv⟩ := h.receive pchBuf
    exact ⟨w', taken, hw, hinv⟩
  | process wait => exact h.process wait
  | hangUp =>
    obtain ⟨w', hw, hinv⟩ := h.hangUp
    exact ⟨w', taken, hw, hinv⟩

lemma Inv.run (h : Inv env w taken) (ops : List Op) :
    ∃ w' taken', ops.foldlM (World.step env) w = some w' ∧ Inv env w' taken' := by
  induction ops generalizing w taken with
  | nil => exact ⟨w, taken, rfl, h⟩
  | cons op ops ih =>
    obtain ⟨w₁, taken₁, hstep, h₁⟩ := h.step op
    obtain ⟨w', taken', hrun, h'⟩ := ih h₁
    refine ⟨w', taken', ?_, h'⟩
    rw [List.foldlM_cons, hstep]
    exact hrun

end Steps

/-- **What is handled is what the stream says.** However the stream is cut into pieces, and whenever
the messages are taken off the queue: the loop comes to its end, the messages taken so far and those
in the queue are the messages of the stream, of the former those that pass the checks have been
handled, the connection is closed just when it has been given up or the stream goes on with a
message that is too long, the queue is counted right, and at most one message is held that is not
complete, with at most 256 KiB that have not come yet. -/
theorem received_exactly (ops : List Op) :
    ∃ w, ops.foldlM (World.step env) .initial = some w ∧
      (∃ taken, (frames w.stream).messages =
          taken ++ w.node.vProcessMsg.map (fun msg => (msg.hdr, msg.vRecv)) ∧
        w.handled = handledOf env taken ∧
        (w.node.fDisconnect = true ↔
          w.node.closed = true ∨ ∃ m ∈ taken, verdict env m.1 m.2 = .disconnect)) ∧
      w.node.closed = ((frames w.stream).oversized || w.hungUp) ∧
      w.node.nProcessQueueSize = queueSize w.node.vProcessMsg ∧
      w.node.fPauseRecv = decide (env.nReceiveFloodSize < w.node.nProcessQueueSize) ∧
      w.node.vRecvMsg.length ≤ 1 ∧
      ∀ msg ∈ w.node.vRecvMsg, msg.vRecv.length ≤ msg.nDataPos + 256 * 1024 := by
  obtain ⟨w, taken, hrun, h⟩ := inv_initial.run ops
  obtain ⟨queued, hqueued, hmessages⟩ := h.queue
  obtain ⟨hone, hbounded⟩ := h.collected.bounded rfl
  refine ⟨w, hrun, ⟨taken, ?_, h.handled, h.disconnect⟩, h.closed, h.size, h.pause, hone, ?_⟩
  · rw [map_whole hqueued, hmessages]
  · exact fun msg hmsg => (hbounded msg hmsg).2

end RecvNode

end Agenor
