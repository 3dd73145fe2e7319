import Agenor.NetReceive

/-!
Messages on their way from one node to another (`net.cpp`).

The sender queues the header and the data of a message, and the socket takes of the first entry as
many bytes as it likes. The receiver reads what has arrived in pieces of its own. What is handled at
the other end is what has been pushed, in that order, whatever the sockets and the threads do.
-/

namespace Agenor

structure CSerializedNetMsg where
  data : List UInt8
  command : List UInt8
  deriving DecidableEq, Repr

namespace CSerializedNetMsg

variable (env : NetEnv) (msg : CSerializedNetMsg)

/-- `strncpy` of the command into its field. -/
def commandField : List UInt8 :=
  let s := (msg.command.takeWhile fun b => b != 0).take CMessageHeader.COMMAND_SIZE
  s ++ List.replicate (CMessageHeader.COMMAND_SIZE - s.length) 0

/-- The header that `PushMessage` makes. -/
def header : CMessageHeader where
  pchMessageStart := env.MessageStart
  pchCommand := msg.commandField
  nMessageSize := msg.data.length % 2 ^ 32
  pchChecksum := env.checksum msg.data

/-- What `PushMessage` queues: no entry is empty. -/
def entries : List (List UInt8) :=
  if msg.data.length ≠ 0 then [(msg.header env).serialize, msg.data]
  else [(msg.header env).serialize]

/-- The command is printable and fits, and the data are not too long. -/
structure Sendable : Prop where
  fits : msg.command.length ≤ CMessageHeader.COMMAND_SIZE
  printable : ∀ b ∈ msg.command, 0x20 ≤ b ∧ b ≤ 0x7e
  size : msg.data.length ≤ MAX_PROTOCOL_MESSAGE_LENGTH

end CSerializedNetMsg

/-- The commands of `NetMsgType`. -/
def netMsgTypes : List String :=
  ["version", "verack", "addr", "inv", "getdata", "merkleblock", "getblocks", "getheaders", "tx",
    "headers", "block", "getaddr", "mempool", "ping", "pong", "alert", "notfound", "filterload",
    "filteradd", "filterclear", "reject", "sendheaders", "ix", "txlvote", "spork", "getsporks",
    "mnb", "mnp", "mnw", "mnget", "mprop", "mvote", "mnvs", "fbs", "fbvote", "ssc", "dseg"]

def commandBytes (s : String) : List UInt8 := s.toList.map fun c => UInt8.ofNat c.toNat

lemma netMsgTypes_fit : ∀ s ∈ netMsgTypes, (commandBytes s).length ≤ CMessageHeader.COMMAND_SIZE ∧
    ∀ b ∈ commandBytes s, 0x20 ≤ b ∧ b ≤ 0x7e := by
  decide +kernel

lemma CSerializedNetMsg.sendable_of_mem {s : String} {data : List UInt8} (h : s ∈ netMsgTypes)
    (hdata : data.length ≤ MAX_PROTOCOL_MESSAGE_LENGTH) : Sendable ⟨data, commandBytes s⟩ :=
  ⟨(netMsgTypes_fit s h).1, (netMsgTypes_fit s h).2, hdata⟩

/-! ### The sender -/

/-- What `CNode` has about the messages that go out. -/
structure SendNode where
  vSendMsg : List (List UInt8)
  nSendSize : ℕ
  nSendOffset : ℕ
  fPauseSend : Bool
  /-- `hSocket` is `INVALID_SOCKET`. -/
  closed : Bool
  deriving DecidableEq, Repr

/-- What a call of `send` does: it takes some bytes, at most what it is given, or it cannot take any
now, or it fails for good. -/
inductive SendResult
  | sent (nBytes : ℕ)
  | again
  | error
  deriving DecidableEq, Repr

namespace SendNode

def initial : SendNode := ⟨[], 0, 0, false, false⟩

variable (env : NetEnv)

/-- The loop of `SocketSendData`, with what the calls of `send` do, and the bytes they take; `none`
when an assertion fails. -/
def sendLoop : List (List UInt8) → List SendResult → SendNode → Option (SendNode × List UInt8)
  | [], _, node =>
    if node.nSendOffset = 0 ∧ node.nSendSize = 0 then some ({ node with vSendMsg := [] }, [])
    else none
  | data :: vSendMsg, results, node =>
    let node := { node with vSendMsg := data :: vSendMsg }
    if data.length ≤ node.nSendOffset then none
    else if node.closed then some (node, [])
    else
      match results with
      | [] => some (node, [])
      | .again :: _ => some (node, [])
      | .error :: _ => some ({ node with closed := true }, [])
      | .sent n :: results =>
        let nBytes := min n (data.length - node.nSendOffset)
        if nBytes = 0 then some (node, [])
        else
          let out := (data.drop node.nSendOffset).take nBytes
          let nSendOffset := node.nSendOffset + nBytes
          if nSendOffset = data.length then
            let nSendSize := node.nSendSize - data.length
            (sendLoop vSendMsg results { node with
              nSendOffset := 0
              nSendSize
              fPauseSend := decide (env.nSendBufferMaxSize < nSendSize) }).map
                fun (node, more) => (node, out ++ more)
          -- the rest of this entry has to wait
          else some ({ node with nSendOffset }, out)

def socketSendData (results : List SendResult) (node : SendNode) :
    Option (SendNode × List UInt8) :=
  sendLoop env node.vSendMsg results node

/-- `PushMessage`. If nothing is queued, as much as possible is sent at once. -/
def pushMessage (msg : CSerializedNetMsg) (results : List SendResult) (node : SendNode) :
    Option (SendNode × List UInt8) :=
  let optimisticSend := node.vSendMsg.isEmpty
  let nSendSize := node.nSendSize + (msg.data.length + CMessageHeader.HEADER_SIZE)
  let node := { node with
    nSendSize
    fPauseSend := if env.nSendBufferMaxSize < nSendSize then true else node.fPauseSend
    vSendMsg := node.vSendMsg ++ msg.entries env }
  if optimisticSend then socketSendData env results node else some (node, [])

end SendNode

/-! ### The link -/

/-- The sender, the bytes that have been sent and not read yet, the receiver, and what has been
pushed. -/
structure Link where
  sender : SendNode
  wire : List UInt8
  receiver : RecvNode.World
  pushed : List CSerializedNetMsg

namespace Link

def initial : Link := ⟨.initial, [], .initial, []⟩

inductive Op
  | push (msg : CSerializedNetMsg) (results : List SendResult)
  | send (results : List SendResult)
  /-- So many bytes are read, if that many have arrived. -/
  | receive (nBytes : ℕ)
  | process (wait : Bool)
  | hangUp
  deriving DecidableEq, Repr

variable (env : NetEnv)

/-- The size of the buffer that `recv` is given. -/
def RECV_BUFFER : ℕ := 0x10000

def step (s : Link) : Op → Option Link
  | .push msg results => do
    let (sender, out) ← SendNode.pushMessage env msg results s.sender
    return { s with sender, wire := s.wire ++ out, pushed := s.pushed ++ [msg] }
  | .send results => do
    let (sender, out) ← SendNode.socketSendData env results s.sender
    return { s with sender, wire := s.wire ++ out }
  | .receive nBytes =>
    if s.receiver.node.closed then some s
    else do
      let receiver ← s.receiver.step env (.receive (s.wire.take (min nBytes RECV_BUFFER)))
      return { s with receiver, wire := s.wire.drop (min nBytes RECV_BUFFER) }
  | .process wait => do return { s with receiver := ← s.receiver.step env (.process wait) }
  | .hangUp => do return { s with receiver := ← s.receiver.step env .hangUp }

end Link

/-! ### The header of a message -/

lemma NetEnv.length_checksum (env : NetEnv) (data : List UInt8) :
    (env.checksum data).length = CMessageHeader.CHECKSUM_SIZE := by
  rw [NetEnv.checksum, List.length_take, bytesLE, List.length_map, List.length_range]
  rfl

lemma CMessageHeader.ofBytes_serialize {hdr : CMessageHeader}
    (hstart : hdr.pchMessageStart.length = MESSAGE_START_SIZE)
    (hcommand : hdr.pchCommand.length = COMMAND_SIZE) (hsize : hdr.nMessageSize < 2 ^ 32)
    (hchecksum : hdr.pchChecksum.length = CHECKSUM_SIZE) :
    hdr.serialize.length = HEADER_SIZE ∧ ofBytes hdr.serialize = hdr := by
  have hle := length_writeLE 4 hdr.nMessageSize
  have h4 : hdr.serialize.drop 4 =
      hdr.pchCommand ++ (writeLE 4 hdr.nMessageSize ++ hdr.pchChecksum) :=
    List.drop_left' hstart
  have h16 : hdr.serialize.drop 16 = writeLE 4 hdr.nMessageSize ++ hdr.pchChecksum := by
    rw [show 16 = 4 + 12 from rfl, ← List.drop_drop, h4]
    exact List.drop_left' hcommand
  have h20 : hdr.serialize.drop 20 = hdr.pchChecksum := by
    rw [show 20 = 16 + 4 from rfl, ← List.drop_drop, h16]
    exact List.drop_left' hle
  constructor
  · simp only [serialize, List.length_append, hstart, hcommand, hle, hchecksum]
    rfl
  · have hstart' : hdr.serialize.take 4 = hdr.pchMessageStart := List.take_left' hstart
    have hcommand' : (hdr.serialize.drop 4).take 12 = hdr.pchCommand := by
      rw [h4]
      exact List.take_left' hcommand
    have hchecksum' : (hdr.serialize.drop 20).take 4 = hdr.pchChecksum := by
      rw [h20]
      exact List.take_of_length_le hchecksum.le
    rw [ofBytes, hstart', hcommand', hchecksum', h16, List.take_left' hle, readLE_writeLE hsize]

namespace CSerializedNetMsg

variable (env : NetEnv) (msg : CSerializedNetMsg)

lemma length_commandField : msg.commandField.length = CMessageHeader.COMMAND_SIZE := by
  simp only [commandField, List.length_append, List.length_take, List.length_replicate]
  omega

lemma header_read : (msg.header env).serialize.length = CMessageHeader.HEADER_SIZE ∧
    CMessageHeader.ofBytes (msg.header env).serialize = msg.header env :=
  CMessageHeader.ofBytes_serialize env.start_length msg.length_commandField
    (Nat.mod_lt _ (by decide)) (env.length_checksum _)

lemma flatten_entries : (msg.entries env).flatten = (msg.header env).serialize ++ msg.data := by
  unfold entries
  split_ifs with hdata
  · simp
  · rw [not_not, List.length_eq_zero_iff] at hdata
    simp [hdata]

variable {env msg}

lemma Sendable.ne_zero (h : msg.Sendable) : ∀ b ∈ msg.command, (b != 0) = true := by
  intro b hb
  rw [bne_iff_ne]
  rintro rfl
  exact absurd (h.printable 0 hb).1 (by decide)

lemma Sendable.commandField_eq (h : msg.Sendable) : msg.commandField =
    msg.command ++ List.replicate (CMessageHeader.COMMAND_SIZE - msg.command.length) 0 := by
  have hall : msg.command.takeWhile (fun b => b != 0) = msg.command :=
    List.takeWhile_eq_self_iff.mpr h.ne_zero
  rw [commandField, hall, List.take_of_length_le h.fits]

lemma isCommand_append (k : ℕ) (l : List UInt8) (hl : ∀ b ∈ l, 0x20 ≤ b ∧ b ≤ 0x7e) :
    CMessageHeader.isCommand (l ++ List.replicate k 0) = true := by
  induction l with
  | nil =>
    cases k with
    | zero => rfl
    | succ k => simp [List.replicate_succ, CMessageHeader.isCommand]
  | cons b l ih =>
    obtain ⟨⟨h20, h7e⟩, hrest⟩ := List.forall_mem_cons.mp hl
    have hne : b ≠ 0 := by
      rintro rfl
      exact absurd h20 (by decide)
    have hrange : (decide (b < 0x20) || decide (0x7e < b)) = false := by
      simp [UInt8.not_lt.mpr h20, UInt8.not_lt.mpr h7e]
    rw [List.cons_append, CMessageHeader.isCommand, if_neg hne]
    simpa [UInt8.not_lt.mpr h20, UInt8.not_lt.mpr h7e] using ih hrest

lemma Sendable.verdict (h : msg.Sendable) : RecvNode.verdict env (msg.header env) msg.data =
    .process msg.command msg.data := by
  have hsize : msg.data.length % 2 ^ 32 = msg.data.length :=
    Nat.mod_eq_of_lt (h.size.trans_lt (by decide))
  have hvalid : (msg.header env).isValid env.MessageStart = true := by
    have hmax : ¬ Reader.MAX_SIZE < (msg.header env).nMessageSize := by
      change ¬ Reader.MAX_SIZE < msg.data.length % 2 ^ 32
      rw [hsize, not_lt]
      exact h.size.trans (by decide)
    have hcommand : CMessageHeader.isCommand (msg.header env).pchCommand = true := by
      change CMessageHeader.isCommand msg.commandField = true
      rw [h.commandField_eq]
      exact isCommand_append _ _ h.printable
    have hstart : (msg.header env).pchMessageStart = env.MessageStart := rfl
    unfold CMessageHeader.isValid
    rw [if_neg (not_not.mpr hstart), hcommand, Bool.not_true, if_neg Bool.false_ne_true,
      if_neg hmax]
  have hget : (msg.header env).getCommand = msg.command := by
    change msg.commandField.takeWhile (fun b => b != 0) = msg.command
    rw [h.commandField_eq, List.takeWhile_append_of_pos h.ne_zero]
    cases CMessageHeader.COMMAND_SIZE - msg.command.length with
    | zero => simp
    | succ k => simp [List.replicate_succ]
  have hsum : env.checksum (msg.data.take (msg.header env).nMessageSize) =
      (msg.header env).pchChecksum := by
    change env.checksum (msg.data.take (msg.data.length % 2 ^ 32)) = env.checksum msg.data
    rw [hsize, List.take_length]
  have hstart : (msg.header env).pchMessageStart = env.MessageStart := rfl
  unfold RecvNode.verdict
  rw [if_neg (not_not.mpr hstart), hvalid, Bool.not_true, if_neg Bool.false_ne_true,
    if_neg (not_not.mpr hsum), hget]

lemma frames_entries (l : List CSerializedNetMsg) (hl : ∀ m ∈ l, Sendable m) :
    frames (l.flatMap fun m => (m.entries env).flatten) =
      ⟨l.map fun m => (m.header env, m.data), [], false⟩ := by
  induction l with
  | nil => exact frames_short (show ([] : List UInt8).length < 24 by decide)
  | cons m l ih =>
    obtain ⟨hm, hrest⟩ := List.forall_mem_cons.mp hl
    obtain ⟨hlen, hof⟩ := m.header_read env
    have hsize : (m.header env).nMessageSize = m.data.length :=
      Nat.mod_eq_of_lt (hm.size.trans_lt (by decide))
    rw [List.flatMap_cons, flatten_entries, List.append_assoc,
      frames_message hlen (by rw [hof, hsize]; exact hm.size) (by rw [hof, hsize]), ih hrest, hof]
    rfl

end CSerializedNetMsg

/-! ### The sender's queue -/

namespace SendNode

variable {env : NetEnv} {node : SendNode}

/-- The queue is counted right, and of its first entry something has still to be sent. -/
structure Inv (env : NetEnv) (node : SendNode) : Prop where
  nonempty : ∀ data ∈ node.vSendMsg, data ≠ []
  offset : ∀ data ∈ node.vSendMsg.head?, node.nSendOffset < data.length
  empty : node.vSendMsg = [] → node.nSendOffset = 0
  size : node.nSendSize = (node.vSendMsg.map List.length).sum
  pause : node.fPauseSend = decide (env.nSendBufferMaxSize < node.nSendSize)

/-- The bytes that have not been sent. -/
def pending (node : SendNode) : List UInt8 := node.vSendMsg.flatten.drop node.nSendOffset

lemma inv_initial : Inv env initial := by
  constructor <;> simp [initial]

/-- **Sending.** The assertions hold, and what has been sent is the beginning of what was to be
sent. -/
lemma sendLoop_inv (q : List (List UInt8)) (results : List SendResult) (node : SendNode)
    (h : Inv env { node with vSendMsg := q }) :
    ∃ node' out, sendLoop env q results node = some (node', out) ∧ Inv env node' ∧
      out ++ node'.pending = pending { node with vSendMsg := q } := by
  induction q generalizing results node with
  | nil =>
    have hsize := h.size
    have hzero : node.nSendOffset = 0 ∧ node.nSendSize = 0 := ⟨h.empty rfl, hsize⟩
    refine ⟨{ node with vSendMsg := [] }, [], ?_, h, rfl⟩
    rw [sendLoop, if_pos hzero]
  | cons data q ih =>
    have hlt : node.nSendOffset < data.length := h.offset data rfl
    have hstay : ∀ results', sendLoop env (data :: q) results' node =
        some ({ node with vSendMsg := data :: q }, []) →
        ∃ node' out, sendLoop env (data :: q) results' node = some (node', out) ∧ Inv env node' ∧
          out ++ node'.pending = pending { node with vSendMsg := data :: q } :=
      fun results' hrun => ⟨_, [], hrun, h, rfl⟩
    by_cases hclosed : node.closed = true
    · exact hstay results (by simp [sendLoop, not_le.mpr hlt, hclosed])
    cases results with
    | nil => exact hstay [] (by simp [sendLoop, not_le.mpr hlt, hclosed])
    | cons result results =>
      cases result with
      | again => exact hstay _ (by simp [sendLoop, not_le.mpr hlt, hclosed])
      | error =>
        refine ⟨{ node with vSendMsg := data :: q, closed := true }, [],
          by simp [sendLoop, not_le.mpr hlt, hclosed], ?_, rfl⟩
        exact ⟨h.nonempty, h.offset, h.empty, h.size, h.pause⟩
      | sent n =>
        by_cases hnone : min n (data.length - node.nSendOffset) = 0
        · exact hstay _ (by simp [sendLoop, not_le.mpr hlt, hclosed, hnone])
        generalize hn : min n (data.length - node.nSendOffset) = nBytes at hnone
        have hle : node.nSendOffset + nBytes ≤ data.length := by omega
        have hflat : pending { node with vSendMsg := data :: q } =
            data.drop node.nSendOffset ++ q.flatten := by
          rw [pending, List.flatten_cons, List.drop_append_of_le_length hlt.le]
        have hcut : (data.drop node.nSendOffset).take nBytes ++
            data.drop (node.nSendOffset + nBytes) = data.drop node.nSendOffset := by
          rw [← List.drop_drop, List.take_append_drop]
        by_cases hend : node.nSendOffset + nBytes = data.length
        · -- the entry is done
          have hsize : node.nSendSize = data.length + (q.map List.length).sum := h.size
          have hrest : Inv env { node with
              vSendMsg := q
              nSendOffset := 0
              nSendSize := node.nSendSize - data.length
              fPauseSend :=
                decide (env.nSendBufferMaxSize < node.nSendSize - data.length) } := by
            refine ⟨fun d hd => h.nonempty d (List.mem_cons_of_mem _ hd), fun d hd => ?_,
              fun _ => rfl, by dsimp only; omega, rfl⟩
            have hmem : d ∈ q := List.mem_of_mem_head? hd
            exact List.length_pos_iff.mpr (h.nonempty d (List.mem_cons_of_mem _ hmem))
          obtain ⟨node', out, hrun, hinv, hout⟩ := ih results { node with
            vSendMsg := data :: q
            nSendOffset := 0
            nSendSize := node.nSendSize - data.length
            fPauseSend :=
              decide (env.nSendBufferMaxSize < node.nSendSize - data.length) } hrest
          refine ⟨node', (data.drop node.nSendOffset).take nBytes ++ out, ?_, hinv, ?_⟩
          · rw [sendLoop]
            simp only [if_neg (not_le.mpr hlt), if_neg hclosed, hn, if_neg hnone, if_pos hend]
            rw [hrun]
            rfl
          · have hdone : (data.drop node.nSendOffset).take nBytes = data.drop node.nSendOffset := by
              rw [hend, List.drop_length, List.append_nil] at hcut
              exact hcut
            rw [List.append_assoc, hout, hflat, hdone]
            rfl
        · refine ⟨{ node with vSendMsg := data :: q, nSendOffset := node.nSendOffset + nBytes },
            (data.drop node.nSendOffset).take nBytes, ?_, ?_, ?_⟩
          · rw [sendLoop]
            simp only [if_neg (not_le.mpr hlt), if_neg hclosed, hn, if_neg hnone, if_neg hend]
          · refine ⟨h.nonempty, fun d hd => ?_, fun hq => absurd hq (List.cons_ne_nil _ _), h.size,
              h.pause⟩
            obtain rfl : data = d := Option.some.inj hd
            dsimp only
            omega
          · rw [hflat, pending, List.flatten_cons, List.drop_append_of_le_length hle,
              ← List.append_assoc, hcut]

lemma Inv.socketSendData (h : Inv env node) (results : List SendResult) :
    ∃ node' out, socketSendData env results node = some (node', out) ∧ Inv env node' ∧
      out ++ node'.pending = node.pending :=
  sendLoop_inv node.vSendMsg results node h

lemma Inv.pushMessage (h : Inv env node) (msg : CSerializedNetMsg) (results : List SendResult) :
    ∃ node' out, pushMessage env msg results node = some (node', out) ∧ Inv env node' ∧
      out ++ node'.pending = node.pending ++ (msg.entries env).flatten := by
  have hentries : ∀ d ∈ msg.entries env, d ≠ [] := by
    have hhead : (msg.header env).serialize ≠ [] := by
      rw [← List.length_pos_iff, (msg.header_read env).1]
      decide
    intro d hd
    unfold CSerializedNetMsg.entries at hd
    split_ifs at hd with hdata
    · rcases List.mem_pair.mp hd with rfl | rfl
      · exact hhead
      · exact List.length_pos_iff.mp (Nat.pos_of_ne_zero hdata)
    · rw [List.mem_singleton.mp hd]
      exact hhead
  have hsize : ((msg.entries env).map List.length).sum =
      msg.data.length + CMessageHeader.HEADER_SIZE := by
    rw [← List.length_flatten, msg.flatten_entries, List.length_append, (msg.header_read env).1,
      Nat.add_comm]
  generalize hqueued : ({ node with
    nSendSize := node.nSendSize + (msg.data.length + CMessageHeader.HEADER_SIZE)
    fPauseSend :=
      if env.nSendBufferMaxSize < node.nSendSize + (msg.data.length + CMessageHeader.HEADER_SIZE)
      then true else node.fPauseSend
    vSendMsg := node.vSendMsg ++ msg.entries env } : SendNode) = queued
  have hoffset : node.nSendOffset ≤ node.vSendMsg.flatten.length := by
    cases hq : node.vSendMsg with
    | nil => rw [h.empty hq]; exact Nat.zero_le _
    | cons d q =>
      have := h.offset d (by rw [hq]; rfl)
      rw [List.flatten_cons, List.length_append]
      omega
  have hpending : queued.pending = node.pending ++ (msg.entries env).flatten := by
    rw [← hqueued, pending, pending, List.flatten_append, List.drop_append_of_le_length hoffset]
  have hinv : Inv env queued := by
    rw [← hqueued]
    refine ⟨fun d hd => ?_, fun d hd => ?_, fun hq => ?_, ?_, ?_⟩
    · rcases List.mem_append.mp hd with hd | hd
      · exact h.nonempty d hd
      · exact hentries d hd
    · dsimp only at hd ⊢
      cases hq : node.vSendMsg with
      | nil =>
        rw [hq, List.nil_append] at hd
        rw [h.empty hq]
        exact List.length_pos_iff.mpr (hentries d (List.mem_of_mem_head? hd))
      | cons d' q =>
        rw [hq] at hd
        exact h.offset d (by rw [hq]; exact hd)
    · exact h.empty (List.append_eq_nil_iff.mp hq).1
    · dsimp only
      rw [List.map_append, List.sum_append, h.size, hsize]
    · dsimp only
      split_ifs with hbig
      · exact (decide_eq_true hbig).symm
      · rw [h.pause, decide_eq_false hbig]
        exact decide_eq_false (by omega)
  unfold SendNode.pushMessage
  simp only [hqueued]
  by_cases hempty : node.vSendMsg.isEmpty = true
  · obtain ⟨node', out, hrun, hinv', hout⟩ := hinv.socketSendData results
    exact ⟨node', out, by rw [if_pos hempty, hrun], hinv', by rw [hout, hpending]⟩
  · exact ⟨queued, [], by rw [if_neg hempty], hinv, hpending⟩

end SendNode

/-! ### Delivery -/

namespace Link

variable {env : NetEnv} {s : Link} {taken : List (CMessageHeader × List UInt8)}

/-- What has been read, what is on its way and what is queued is what has been pushed. -/
structure Inv (env : NetEnv) (s : Link) (taken : List (CMessageHeader × List UInt8)) : Prop where
  sender : SendNode.Inv env s.sender
  receiver : RecvNode.Inv env s.receiver taken
  bytes : s.receiver.stream ++ (s.wire ++ s.sender.pending) =
    s.pushed.flatMap fun m => (m.entries env).flatten

lemma inv_initial : Inv env initial [] :=
  ⟨SendNode.inv_initial, RecvNode.inv_initial, rfl⟩

lemma stream_process {w w' : RecvNode.World} {wait : Bool}
    (h : w.step env (.process wait) = some w') : w'.stream = w.stream := by
  rw [RecvNode.World.step] at h
  rw [← Option.some.inj h]

lemma Inv.step (h : Inv env s taken) (op : Op) :
    ∃ s' taken', s.step env op = some s' ∧ Inv env s' taken' := by
  cases op with
  | push msg results =>
    obtain ⟨sender, out, hrun, hinv, hout⟩ := h.sender.pushMessage msg results
    refine ⟨{ s with sender, wire := s.wire ++ out, pushed := s.pushed ++ [msg] }, taken,
      by simp [Link.step, hrun], hinv, h.receiver, ?_⟩
    dsimp only
    rw [List.append_assoc, hout, ← List.append_assoc s.wire, ← List.append_assoc, h.bytes,
      List.flatMap_append, List.flatMap_singleton]
  | send results =>
    obtain ⟨sender, out, hrun, hinv, hout⟩ := h.sender.socketSendData results
    refine ⟨{ s with sender, wire := s.wire ++ out }, taken, by simp [Link.step, hrun], hinv,
      h.receiver, ?_⟩
    dsimp only
    rw [List.append_assoc, hout, h.bytes]
  | receive nBytes =>
    by_cases hclosed : s.receiver.node.closed = true
    · exact ⟨s, taken, by simp [Link.step, hclosed], h⟩
    obtain ⟨w, hrun, hinv⟩ := h.receiver.receive (s.wire.take (min nBytes RECV_BUFFER))
    have hstream : w.stream = s.receiver.stream ++ s.wire.take (min nBytes RECV_BUFFER) := by
      rw [RecvNode.World.step, Option.bind_eq_bind, Option.bind_eq_some_iff] at hrun
      obtain ⟨node, -, hw⟩ := hrun
      rw [← Option.some.inj hw]
      exact if_neg hclosed
    refine ⟨{ s with receiver := w, wire := s.wire.drop (min nBytes RECV_BUFFER) }, taken,
      by simp [Link.step, hclosed, hrun], h.sender, hinv, ?_⟩
    dsimp only
    rw [hstream, List.append_assoc, ← List.append_assoc (s.wire.take _), List.take_append_drop,
      h.bytes]
  | process wait =>
    obtain ⟨w, taken', hrun, hinv⟩ := h.receiver.process wait
    refine ⟨{ s with receiver := w }, taken', by simp [Link.step, hrun], h.sender, hinv, ?_⟩
    dsimp only
    rw [stream_process hrun, h.bytes]
  | hangUp =>
    obtain ⟨w, hrun, hinv⟩ := h.receiver.hangUp
    refine ⟨{ s with receiver := w }, taken, by simp [Link.step, hrun], h.sender, hinv, ?_⟩
    dsimp only
    rw [← Option.some.inj hrun]
    exact h.bytes

lemma Inv.run (h : Inv env s taken) (ops : List Op) :
    ∃ s' taken', ops.foldlM (Link.step env) s = some s' ∧ Inv env s' taken' := by
  induction ops generalizing s taken with
  | nil => exact ⟨s, taken, rfl, h⟩
  | cons op ops ih =>
    obtain ⟨s₁, taken₁, hstep, h₁⟩ := h.step op
    obtain ⟨s', taken', hrun, h'⟩ := ih h₁
    refine ⟨s', taken', ?_, h'⟩
    rw [List.foldlM_cons, hstep]
    exact hrun

lemma Inv.exists_handled (h : Inv env s taken) (hs : ∀ m ∈ s.pushed, m.Sendable) :
    ∃ done rest, s.pushed = done ++ rest ∧
      s.receiver.handled = done.map (fun m => (m.command, m.data)) ∧
      (s.sender.pending = [] → s.wire = [] → s.receiver.node.vProcessMsg = [] → rest = []) := by
  obtain ⟨queued, hqueued, hmessages⟩ := h.receiver.queue
  have hall := @CSerializedNetMsg.frames_entries env s.pushed hs
  rw [← h.bytes] at hall
  -- a stream that goes on with a message that is too long would be one to its end
  have hok : (frames s.receiver.stream).oversized = false := by
    by_contra hover
    have hend := (frames_append_oversized s.receiver.stream (s.wire ++ s.sender.pending)
      (by simpa using hover)).1
    rw [hall] at hend
    cases hend
  rw [frames_append _ _ hok] at hall
  have hsplit : (frames s.receiver.stream).messages ++
      (frames ((frames s.receiver.stream).rest ++ (s.wire ++ s.sender.pending))).messages =
        s.pushed.map fun m => (m.header env, m.data) := congrArg Frames.messages hall
  rw [hmessages, List.append_assoc] at hsplit
  obtain ⟨done, rest, hpushed, hdone, hrest⟩ := List.map_eq_append_iff.mp hsplit.symm
  refine ⟨done, rest, hpushed, ?_, fun hsent hwire hempty => ?_⟩
  · rw [h.receiver.handled, ← hdone]
    have hsend : ∀ m ∈ done, m.Sendable := by
      intro m hm
      refine hs m ?_
      rw [hpushed]
      exact List.mem_append_left rest hm
    clear hdone hpushed hrest
    induction done with
    | nil => rfl
    | cons m done ih =>
      obtain ⟨hm, hmore⟩ := List.forall_mem_cons.mp hsend
      rw [List.map_cons, List.map_cons, RecvNode.handledOf, hm.verdict, ih hmore]
  · -- nothing is left of the stream either
    have hrest' := frames_rest s.receiver.stream hok
    rw [hsent, hwire, List.append_nil, List.append_nil, hrest', List.append_nil] at hrest
    rw [hempty, List.forall₂_nil_left_iff] at hqueued
    rwa [hqueued, List.map_eq_nil_iff] at hrest

/-- The messages of the steps of a run. -/
def pushedBy (ops : List Op) : List CSerializedNetMsg :=
  ops.filterMap fun
    | .push msg _ => some msg
    | _ => none

lemma pushed_step {s s' : Link} {op : Op} (h : s.step env op = some s') :
    s'.pushed = s.pushed ++ pushedBy [op] := by
  cases op with
  | push msg results =>
    simp only [step, Option.bind_eq_bind, Option.bind_eq_some_iff, Option.pure_def,
      Option.some.injEq] at h
    obtain ⟨p, -, rfl⟩ := h
    rfl
  | send results =>
    simp only [step, Option.bind_eq_bind, Option.bind_eq_some_iff, Option.pure_def,
      Option.some.injEq] at h
    obtain ⟨p, -, rfl⟩ := h
    exact (List.append_nil _).symm
  | receive nBytes =>
    rw [step] at h
    split_ifs at h with hclosed
    · rw [← Option.some.inj h]
      exact (List.append_nil _).symm
    · simp only [Option.bind_eq_bind, Option.bind_eq_some_iff, Option.pure_def,
        Option.some.injEq] at h
      obtain ⟨w, -, rfl⟩ := h
      exact (List.append_nil _).symm
  | process wait =>
    simp only [step, Option.bind_eq_bind, Option.bind_eq_some_iff, Option.pure_def,
      Option.some.injEq] at h
    obtain ⟨w, -, rfl⟩ := h
    exact (List.append_nil _).symm
  | hangUp =>
    simp only [step, Option.bind_eq_bind, Option.bind_eq_some_iff, Option.pure_def,
      Option.some.injEq] at h
    obtain ⟨w, -, rfl⟩ := h
    exact (List.append_nil _).symm

lemma pushed_run {s s' : Link} (ops : List Op) (h : ops.foldlM (step env) s = some s') :
    s'.pushed = s.pushed ++ pushedBy ops := by
  induction ops generalizing s with
  | nil =>
    rw [← Option.some.inj h]
    exact (List.append_nil _).symm
  | cons op ops ih =>
    rw [List.foldlM_cons, Option.bind_eq_bind, Option.bind_eq_some_iff] at h
    obtain ⟨s₁, hstep, hrun⟩ := h
    rw [ih hrun, pushed_step hstep, List.append_assoc, pushedBy, pushedBy, ← List.filterMap_append]
    rfl

/-- **Delivery.** Whatever the sockets take and give, and whenever the threads run: no assertion
fails, what the receiver has handled is the beginning of what the sender has pushed, each message
once and in its order, and all of it when nothing is queued or on its way. The sender's queue is
counted right, and it is paused just when that is too large. -/
theorem delivered (ops : List Op) (hs : ∀ m ∈ pushedBy ops, m.Sendable) :
    ∃ s, ops.foldlM (step env) initial = some s ∧
      s.receiver.handled <+: (pushedBy ops).map (fun m => (m.command, m.data)) ∧
      (s.sender.vSendMsg = [] → s.wire = [] → s.receiver.node.vProcessMsg = [] →
        s.receiver.handled = (pushedBy ops).map fun m => (m.command, m.data)) ∧
      s.sender.nSendSize = (s.sender.vSendMsg.map List.length).sum ∧
      s.sender.fPauseSend = decide (env.nSendBufferMaxSize < s.sender.nSendSize) := by
  obtain ⟨s, taken, hrun, h⟩ := (show Inv env initial [] from inv_initial).run ops
  have hpushed : s.pushed = pushedBy ops := pushed_run ops hrun
  rw [← hpushed] at hs ⊢
  obtain ⟨done, rest, hsplit, hhandled, hall⟩ := h.exists_handled hs
  refine ⟨s, hrun, ?_, fun hsent hwire hempty => ?_, h.sender.size, h.sender.pause⟩
  · rw [hhandled, hsplit, List.map_append]
    exact List.prefix_append _ _
  · have hpending : s.sender.pending = [] := by
      rw [SendNode.pending, hsent, List.flatten_nil, List.drop_nil]
    rw [hhandled, hsplit, hall hpending hwire hempty, List.append_nil]

/-- The main network, with the hash of no data. -/
def mainEnv : NetEnv where
  MessageStart := [0x93, 0xc1, 0xf4, 0xe5]
  Hash _ := 0x56944c5d3f98413ef45cf54545538103cc9f298e0575820ad3591376e2e0f65d
  nReceiveFloodSize := 5000000
  nSendBufferMaxSize := 1000000
  start_length := rfl

/-- A `verack` that is sent and read in two pieces each. -/
theorem delivered_verack : ∃ s, List.foldlM (step mainEnv) initial
      [.push ⟨[], commandBytes "verack"⟩ [.sent 10], .receive 7, .send [.sent 100], .receive 64,
        .process false] = some s ∧
    s.receiver.handled <+: [(commandBytes "verack", [])] ∧
    (s.sender.vSendMsg = [] → s.wire = [] → s.receiver.node.vProcessMsg = [] →
      s.receiver.handled = [(commandBytes "verack", [])]) ∧
    s.sender.nSendSize = (s.sender.vSendMsg.map List.length).sum ∧
    s.sender.fPauseSend = decide (mainEnv.nSendBufferMaxSize < s.sender.nSendSize) := by
  refine delivered _ fun m hm => ?_
  obtain rfl : m = ⟨[], commandBytes "verack"⟩ := List.mem_singleton.mp hm
  exact CSerializedNetMsg.sendable_of_mem (by decide) (by decide)

end Link

end Agenor
