import Agenor.Serialize
import Mathlib.Data.List.Forall2
import Mathlib.Data.List.TakeWhile

/-!
Messages as they come in from a socket (`net.cpp`, `protocol.cpp`).

The bytes of a connection come in pieces of any size. A message is collected piece by piece: first
the header, into a buffer of 24 bytes, then as many bytes as the header says. What comes out is the
division of the whole stream into messages, wherever the pieces are cut.
-/

namespace Agenor

open Lib

/-! ### The header -/

structure CMessageHeader where
  pchMessageStart : List UInt8
  pchCommand : List UInt8
  nMessageSize : ℕ
  pchChecksum : List UInt8
  deriving DecidableEq, Repr

namespace CMessageHeader

def MESSAGE_START_SIZE : ℕ := 4
def COMMAND_SIZE : ℕ := 12
def CHECKSUM_SIZE : ℕ := 4
def HEADER_SIZE : ℕ := 24

/-- `SerializationOp`, writing. -/
def serialize (hdr : CMessageHeader) : List UInt8 :=
  hdr.pchMessageStart ++ (hdr.pchCommand ++ (writeLE 4 hdr.nMessageSize ++ hdr.pchChecksum))

/-- `SerializationOp`, reading. -/
def unserialize : Reader CMessageHeader := do
  let pchMessageStart ← Reader.bytes MESSAGE_START_SIZE
  let pchCommand ← Reader.bytes COMMAND_SIZE
  let nMessageSize ← Reader.uint 4
  let pchChecksum ← Reader.bytes CHECKSUM_SIZE
  return { pchMessageStart, pchCommand, nMessageSize, pchChecksum }

/-- The header before anything has been read; the size is `-1`. -/
def blank (pchMessageStart : List UInt8) : CMessageHeader :=
  ⟨pchMessageStart, List.replicate COMMAND_SIZE 0, 2 ^ 32 - 1, List.replicate CHECKSUM_SIZE 0⟩

end CMessageHeader

/-! ### A message that is being received -/

def MAX_PROTOCOL_MESSAGE_LENGTH : ℕ := 2 * 1024 * 1024

/-- Bytes are copied into a buffer. -/
def copyInto (buf : List UInt8) (pos : ℕ) (l : List UInt8) : List UInt8 :=
  buf.take pos ++ l ++ buf.drop (pos + l.length)

/-- `resize`; what is new is zero. -/
def resize (n : ℕ) (buf : List UInt8) : List UInt8 :=
  buf.take n ++ List.replicate (n - buf.length) 0

structure CNetMessage where
  in_data : Bool
  hdrbuf : List UInt8
  hdr : CMessageHeader
  nHdrPos : ℕ
  vRecv : List UInt8
  nDataPos : ℕ
  deriving DecidableEq, Repr

namespace CNetMessage

def new (pchMessageStart : List UInt8) : CNetMessage where
  in_data := false
  hdrbuf := List.replicate 24 0
  hdr := .blank pchMessageStart
  nHdrPos := 0
  vRecv := []
  nDataPos := 0

def complete (msg : CNetMessage) : Bool :=
  msg.in_data && decide (msg.hdr.nMessageSize = msg.nDataPos)

/-- `readHeader`: the message, and how many bytes it has taken or `none` for the value `-1`. -/
def readHeader (msg : CNetMessage) (pch : List UInt8) : CNetMessage × Option ℕ :=
  let nRemaining := 24 - msg.nHdrPos
  let nCopy := min nRemaining pch.length
  let msg := { msg with
    hdrbuf := copyInto msg.hdrbuf msg.nHdrPos (pch.take nCopy)
    nHdrPos := msg.nHdrPos + nCopy }
  if msg.nHdrPos < 24 then (msg, some nCopy)
  else
    match CMessageHeader.unserialize msg.hdrbuf with
    | none => (msg, none)
    | some (hdr, rest) =>
      let msg := { msg with hdr, hdrbuf := rest }
      if Reader.MAX_SIZE < hdr.nMessageSize then (msg, none)
      else ({ msg with in_data := true }, some nCopy)

def readData (msg : CNetMessage) (pch : List UInt8) : CNetMessage × ℕ :=
  let nRemaining := msg.hdr.nMessageSize - msg.nDataPos
  let nCopy := min nRemaining pch.length
  let vRecv :=
    -- up to 256 KiB ahead, but never more than the size of the message
    if msg.vRecv.length < msg.nDataPos + nCopy then
      resize (min msg.hdr.nMessageSize (msg.nDataPos + nCopy + 256 * 1024)) msg.vRecv
    else msg.vRecv
  ({ msg with
    vRecv := copyInto vRecv msg.nDataPos (pch.take nCopy)
    nDataPos := msg.nDataPos + nCopy }, nCopy)

/-- One of the two, and the check of the size; `none` when the loop is to return `false`. -/
def absorb (msg : CNetMessage) (pch : List UInt8) : CNetMessage × Option ℕ :=
  let (msg, handled) :=
    if !msg.in_data then msg.readHeader pch
    else
      let (msg, handled) := msg.readData pch
      (msg, some handled)
  if msg.in_data && decide (MAX_PROTOCOL_MESSAGE_LENGTH < msg.hdr.nMessageSize) then (msg, none)
  else (msg, handled)

end CNetMessage

/-- What `ReceiveMsgBytes` leaves. -/
structure BytesReceived where
  vRecvMsg : List CNetMessage
  /-- The value that is returned. -/
  ok : Bool
  /-- Whether a message has been completed. -/
  complete : Bool
  deriving DecidableEq, Repr

/-- The messages before the one that the next bytes belong to, and that one; it is a new one if the
last is complete. -/
def openMessage (pchMessageStart : List UInt8) (vRecvMsg : List CNetMessage) :
    List CNetMessage × CNetMessage :=
  match vRecvMsg.getLast? with
  | none => (vRecvMsg, .new pchMessageStart)
  | some msg =>
    if msg.complete then (vRecvMsg, .new pchMessageStart) else (vRecvMsg.dropLast, msg)

/-- The loop of `ReceiveMsgBytes`; `none` when the passes run out. -/
def receiveLoop (pchMessageStart : List UInt8) :
    ℕ → List CNetMessage → List UInt8 → Bool → Option BytesReceived
  | _, vRecvMsg, [], complete => some ⟨vRecvMsg, true, complete⟩
  | 0, _, _ :: _, _ => none
  | fuel + 1, vRecvMsg, b :: pch, complete =>
    let (before, msg) := openMessage pchMessageStart vRecvMsg
    match msg.absorb (b :: pch) with
    | (msg, none) => some ⟨before ++ [msg], false, complete⟩
    | (msg, some handled) =>
      receiveLoop pchMessageStart fuel (before ++ [msg]) ((b :: pch).drop handled)
        (complete || msg.complete)

def receiveMsgBytes (pchMessageStart : List UInt8) (vRecvMsg : List CNetMessage)
    (pch : List UInt8) : Option BytesReceived :=
  receiveLoop pchMessageStart pch.length vRecvMsg pch false

/-! ### The stream of the messages -/

/-- The header that some bytes begin with. -/
def CMessageHeader.ofBytes (s : List UInt8) : CMessageHeader :=
  ⟨s.take 4, (s.drop 4).take 12, Script.readLE ((s.drop 16).take 4), (s.drop 20).take 4⟩

/-- A stream cut into messages: those that are complete, what is left, and whether that is the
beginning of a message that is too long. -/
structure Frames where
  messages : List (CMessageHeader × List UInt8)
  rest : List UInt8
  oversized : Bool

/-- A stream is a header, as many bytes as it says, and a stream again. -/
def frames (s : List UInt8) : Frames :=
  if s.length < 24 then ⟨[], s, false⟩
  else
    let hdr := CMessageHeader.ofBytes s
    if MAX_PROTOCOL_MESSAGE_LENGTH < hdr.nMessageSize then ⟨[], s, true⟩
    else if s.length < 24 + hdr.nMessageSize then ⟨[], s, false⟩
    else
      let f := frames (s.drop (24 + hdr.nMessageSize))
      ⟨(hdr, (s.drop 24).take hdr.nMessageSize) :: f.messages, f.rest, f.oversized⟩
termination_by s.length

/-- More of the stream, after what has been cut already. -/
def Frames.extend (f : Frames) (t : List UInt8) : Frames :=
  let g := frames (f.rest ++ t)
  ⟨f.messages ++ g.messages, g.rest, g.oversized⟩

section Frames

variable {s t head data part pch : List UInt8} {hdr : CMessageHeader}

lemma ofBytes_append (h : 24 ≤ s.length) :
    CMessageHeader.ofBytes (s ++ t) = CMessageHeader.ofBytes s := by
  have htake : ∀ a b : ℕ, a + b ≤ 24 → ((s ++ t).drop a).take b = (s.drop a).take b := by
    intro a b hab
    rw [List.drop_append_of_le_length (by omega),
      List.take_append_of_le_length (by rw [List.length_drop]; omega)]
  have hstart := htake 0 4 (by decide)
  rw [List.drop_zero, List.drop_zero] at hstart
  simp only [CMessageHeader.ofBytes, hstart, htake 4 12 (by decide), htake 16 4 (by decide),
    htake 20 4 (by decide)]

lemma frames_short (h : s.length < 24) : frames s = ⟨[], s, false⟩ := by
  rw [frames, if_pos h]

lemma frames_oversized (h : 24 ≤ s.length)
    (hsize : MAX_PROTOCOL_MESSAGE_LENGTH < (CMessageHeader.ofBytes s).nMessageSize) :
    frames s = ⟨[], s, true⟩ := by
  rw [frames, if_neg (by omega)]
  exact if_pos hsize

lemma frames_open (h : 24 ≤ s.length)
    (hsize : (CMessageHeader.ofBytes s).nMessageSize ≤ MAX_PROTOCOL_MESSAGE_LENGTH)
    (hlt : s.length < 24 + (CMessageHeader.ofBytes s).nMessageSize) :
    frames s = ⟨[], s, false⟩ := by
  rw [frames, if_neg (by omega)]
  dsimp only
  rw [if_neg (by omega), if_pos hlt]

lemma frames_message (hhead : head.length = 24)
    (hsize : (CMessageHeader.ofBytes head).nMessageSize ≤ MAX_PROTOCOL_MESSAGE_LENGTH)
    (hdata : data.length = (CMessageHeader.ofBytes head).nMessageSize) :
    frames (head ++ (data ++ t)) =
      ⟨(CMessageHeader.ofBytes head, data) :: (frames t).messages, (frames t).rest,
        (frames t).oversized⟩ := by
  have hof : CMessageHeader.ofBytes (head ++ (data ++ t)) = CMessageHeader.ofBytes head :=
    ofBytes_append hhead.ge
  have hdrop : (head ++ (data ++ t)).drop 24 = data ++ t := by
    rw [← hhead, List.drop_left]
  have hrest : (head ++ (data ++ t)).drop (24 + data.length) = t := by
    rw [← List.drop_drop, hdrop, List.drop_left]
  rw [frames, if_neg (by rw [List.length_append]; omega)]
  simp only [hof]
  rw [if_neg (by omega), if_neg (by simp only [List.length_append]; omega), ← hdata, hdrop, hrest,
    List.take_left]

/-- The cases of the division: nothing is complete, the first message is too long, or it is complete
and followed by a stream. -/
lemma frames_induction {P : List UInt8 → Prop} (rest : ∀ s, frames s = ⟨[], s, false⟩ → P s)
    (oversized : ∀ s, 24 ≤ s.length →
      MAX_PROTOCOL_MESSAGE_LENGTH < (CMessageHeader.ofBytes s).nMessageSize → P s)
    (message : ∀ head data t, head.length = 24 →
      (CMessageHeader.ofBytes head).nMessageSize ≤ MAX_PROTOCOL_MESSAGE_LENGTH →
      data.length = (CMessageHeader.ofBytes head).nMessageSize → P t → P (head ++ (data ++ t)))
    (s : List UInt8) : P s := by
  induction hn : s.length using Nat.strong_induction_on generalizing s with
  | _ n ih =>
    by_cases hshort : s.length < 24
    · exact rest s (frames_short hshort)
    have h24 : 24 ≤ s.length := by omega
    by_cases hsize : MAX_PROTOCOL_MESSAGE_LENGTH < (CMessageHeader.ofBytes s).nMessageSize
    · exact oversized s h24 hsize
    by_cases hopen : s.length < 24 + (CMessageHeader.ofBytes s).nMessageSize
    · exact rest s (frames_open h24 (by omega) hopen)
    obtain ⟨head, u, rfl, hhead⟩ : ∃ head u, s = head ++ u ∧ head.length = 24 :=
      ⟨s.take 24, s.drop 24, (List.take_append_drop ..).symm, by rw [List.length_take]; omega⟩
    rw [ofBytes_append hhead.ge] at hsize hopen
    rw [List.length_append] at hopen hn
    have hroom : (CMessageHeader.ofBytes head).nMessageSize ≤ u.length := by omega
    rw [← List.take_append_drop (CMessageHeader.ofBytes head).nMessageSize u]
    refine message head _ _ hhead (by omega) (List.length_take_of_le hroom) ?_
    refine ih _ ?_ _ rfl
    rw [List.length_drop]
    omega

/-- **Cutting goes on where it has stopped.** -/
theorem frames_append (s t : List UInt8) (h : (frames s).oversized = false) :
    frames (s ++ t) = (frames s).extend t := by
  induction s using frames_induction with
  | rest s hs =>
    rw [hs]
    rfl
  | oversized s h24 hsize =>
    rw [frames_oversized h24 hsize] at h
    cases h
  | message head data u hhead hsize hdata ih =>
    rw [frames_message hhead hsize hdata] at h
    rw [List.append_assoc, List.append_assoc, frames_message hhead hsize hdata,
      frames_message hhead hsize hdata, ih h]
    rfl

/-- What follows a message that is too long is not looked at. -/
theorem frames_append_oversized (s t : List UInt8) (h : (frames s).oversized = true) :
    (frames (s ++ t)).oversized = true ∧ (frames (s ++ t)).messages = (frames s).messages := by
  induction s using frames_induction with
  | rest s hs =>
    rw [hs] at h
    cases h
  | oversized s h24 hsize =>
    rw [frames_oversized h24 hsize, frames_oversized (by rw [List.length_append]; omega)
      (by rwa [ofBytes_append h24])]
    exact ⟨rfl, rfl⟩
  | message head data u hhead hsize hdata ih =>
    rw [frames_message hhead hsize hdata] at h
    obtain ⟨hover, hmessages⟩ := ih h
    rw [List.append_assoc, List.append_assoc, frames_message hhead hsize hdata,
      frames_message hhead hsize hdata]
    exact ⟨hover, by rw [hmessages]⟩

lemma frames_rest (s : List UInt8) (h : (frames s).oversized = false) :
    frames (frames s).rest = ⟨[], (frames s).rest, false⟩ := by
  induction s using frames_induction with
  | rest s hs => rw [hs, hs]
  | oversized s h24 hsize =>
    rw [frames_oversized h24 hsize] at h
    cases h
  | message head data u hhead hsize hdata ih =>
    rw [frames_message hhead hsize hdata] at h ⊢
    exact ih h

end Frames

/-! ### One message -/

section Buffers

variable {buf l : List UInt8} {pos n : ℕ}

lemma length_copyInto (h : pos + l.length ≤ buf.length) :
    (copyInto buf pos l).length = buf.length := by
  simp only [copyInto, List.length_append, List.length_take, List.length_drop]
  omega

lemma take_copyInto (h : pos ≤ buf.length) :
    (copyInto buf pos l).take (pos + l.length) = buf.take pos ++ l := by
  have hlen : (buf.take pos ++ l).length = pos + l.length := by
    rw [List.length_append, List.length_take_of_le h]
  rw [copyInto, ← hlen, List.take_left]

lemma length_resize : (resize n buf).length = n := by
  rw [resize, List.length_append, List.length_take, List.length_replicate]
  omega

lemma take_resize (hpos : pos ≤ buf.length) (hn : pos ≤ n) :
    (resize n buf).take pos = buf.take pos := by
  rw [resize, List.take_append_of_le_length (by rw [List.length_take]; omega), List.take_take,
    min_eq_left hn]

lemma unserialize_ofBytes (h : buf.length = 24) :
    CMessageHeader.unserialize buf = some (CMessageHeader.ofBytes buf, []) := by
  have hbytes : ∀ (k : ℕ) (s : List UInt8), k ≤ s.length →
      Reader.bytes k s = some (s.take k, s.drop k) := by
    intro k s hk
    rw [Reader.bytes, if_neg (by omega)]
  have huint : ∀ s : List UInt8, 4 ≤ s.length →
      Reader.uint 4 s = some (Script.readLE (s.take 4), s.drop 4) := by
    intro s hs
    change (Reader.bytes 4 s).bind _ = _
    rw [hbytes 4 s hs]
    rfl
  have hnil : (buf.drop 20).drop 4 = [] := by
    rw [List.drop_drop]
    exact List.drop_eq_nil_of_le h.le
  simp only [CMessageHeader.unserialize, CMessageHeader.MESSAGE_START_SIZE,
    CMessageHeader.COMMAND_SIZE, CMessageHeader.CHECKSUM_SIZE, StateT.bind, bind, Option.bind]
  rw [hbytes 4 buf (by omega)]
  dsimp only
  rw [hbytes 12 _ (by rw [List.length_drop]; omega)]
  dsimp only
  rw [List.drop_drop, huint _ (by rw [List.length_drop]; omega)]
  dsimp only
  rw [List.drop_drop, hbytes 4 _ (by rw [List.length_drop]; omega), hnil]
  rfl

end Buffers

/-- The buffer for the data has room for what has come, and at most 256 KiB more. -/
def CNetMessage.Bounded (msg : CNetMessage) : Prop :=
  msg.nDataPos ≤ msg.vRecv.length ∧ msg.vRecv.length ≤ msg.nDataPos + 256 * 1024

/-- The message is not complete and has got these bytes. -/
inductive Partial : CNetMessage → List UInt8 → Prop
  | header {msg : CNetMessage} {part : List UInt8} (hin : msg.in_data = false)
      (hbuf : msg.hdrbuf.length = 24) (hpos : msg.nHdrPos = part.length) (hlt : part.length < 24)
      (hpart : msg.hdrbuf.take part.length = part) (hrecv : msg.vRecv = [])
      (hdata : msg.nDataPos = 0) : Partial msg part
  | data {msg : CNetMessage} {head data : List UInt8} (hin : msg.in_data = true)
      (hhead : head.length = 24) (hhdr : msg.hdr = .ofBytes head)
      (hmax : msg.hdr.nMessageSize ≤ MAX_PROTOCOL_MESSAGE_LENGTH)
      (hpos : msg.nDataPos = data.length) (hlt : data.length < msg.hdr.nMessageSize)
      (hdata : msg.vRecv.take data.length = data) (hroom : msg.Bounded)
      (hsize : msg.vRecv.length ≤ msg.hdr.nMessageSize) : Partial msg (head ++ data)

structure Whole (msg : CNetMessage) (m : CMessageHeader × List UInt8) : Prop where
  complete : msg.complete = true
  hdr : msg.hdr = m.1
  vRecv : msg.vRecv = m.2
  size : m.2.length = m.1.nMessageSize

namespace Partial

variable {msg : CNetMessage} {part pch : List UInt8}

lemma complete (h : Partial msg part) : msg.complete = false := by
  cases h with
  | header hin => rw [CNetMessage.complete, hin, Bool.false_and]
  | data hin hhead hhdr hmax hpos hlt =>
    rw [CNetMessage.complete, hin, Bool.true_and]
    exact decide_eq_false (by omega)

lemma bounded (h : Partial msg part) : msg.Bounded := by
  cases h with
  | header _ _ _ _ _ hrecv hdata => simp [CNetMessage.Bounded, hrecv, hdata]
  | data _ _ _ _ _ _ _ hroom => exact hroom

lemma new (pchMessageStart : List UInt8) : Partial (.new pchMessageStart) [] :=
  .header rfl rfl rfl (by decide) rfl rfl rfl

lemma frames_eq (h : Partial msg part) : frames part = ⟨[], part, false⟩ := by
  cases h with
  | header _ _ _ hlt => exact frames_short hlt
  | @data head body hin hhead hhdr hmax hpos hlt =>
    have hof : CMessageHeader.ofBytes (head ++ body) = msg.hdr := by
      rw [ofBytes_append hhead.ge, hhdr]
    refine frames_open ?_ (by rwa [hof]) ?_
    · rw [List.length_append]
      omega
    · rw [List.length_append, hof]
      omega

end Partial

/-- What one pass of the loop does with a message that has got `part`, when `pch` comes. -/
inductive Absorbed (part pch : List UInt8) : CNetMessage × Option ℕ → Prop
  | more {msg : CNetMessage} {n : ℕ} (hn : 0 < n) (hle : n ≤ pch.length)
      (h : Partial msg (part ++ pch.take n)) : Absorbed part pch (msg, some n)
  | whole {msg : CNetMessage} {n : ℕ} {head data : List UInt8} (hn : 0 < n) (hle : n ≤ pch.length)
      (hhead : head.length = 24) (hbytes : part ++ pch.take n = head ++ data)
      (hmax : msg.hdr.nMessageSize ≤ MAX_PROTOCOL_MESSAGE_LENGTH)
      (h : Whole msg (.ofBytes head, data)) : Absorbed part pch (msg, some n)
  | oversized {msg : CNetMessage} {n : ℕ} {head : List UInt8} (hhead : head.length = 24)
      (hbytes : part ++ pch.take n = head)
      (hsize : MAX_PROTOCOL_MESSAGE_LENGTH < (CMessageHeader.ofBytes head).nMessageSize)
      (hopen : msg.complete = false) (hroom : msg.Bounded) : Absorbed part pch (msg, none)

lemma absorbed_header {msg : CNetMessage} {part pch : List UInt8} (hpch : pch ≠ [])
    (hin : msg.in_data = false) (hbuf : msg.hdrbuf.length = 24) (hpos : msg.nHdrPos = part.length)
    (hlt : part.length < 24) (hpart : msg.hdrbuf.take part.length = part) (hrecv : msg.vRecv = [])
    (hdata : msg.nDataPos = 0) : Absorbed part pch (msg.absorb pch) := by
  have hpos' := List.length_pos_iff.mpr hpch
  generalize hn : min (24 - msg.nHdrPos) pch.length = n
  have hlen : (pch.take n).length = n := List.length_take_of_le (by omega)
  generalize hbuf' : copyInto msg.hdrbuf msg.nHdrPos (pch.take n) = buf
  have hlenbuf : buf.length = 24 := by rw [← hbuf', length_copyInto (by omega), hbuf]
  have htake : buf.take (part.length + n) = part ++ pch.take n := by
    have h := take_copyInto (l := pch.take n) (show msg.nHdrPos ≤ msg.hdrbuf.length by omega)
    rwa [hlen, hbuf', hpos, hpart] at h
  by_cases hshort : msg.nHdrPos + n < 24
  · -- the header is not complete
    have hread : msg.absorb pch =
        ({ msg with hdrbuf := buf, nHdrPos := msg.nHdrPos + n }, some n) := by
      simp [CNetMessage.absorb, CNetMessage.readHeader, hin, hn, hbuf', hshort]
    rw [hread]
    refine .more (by omega) (by omega) (.header hin hlenbuf ?_ ?_ ?_ hrecv hdata)
    · rw [List.length_append, hlen, ← hpos]
    · rw [List.length_append, hlen]
      omega
    · rw [List.length_append, hlen, htake]
  · have h24 : part.length + n = 24 := by omega
    rw [h24, List.take_of_length_le hlenbuf.le] at htake
    have hhead : (part ++ pch.take n).length = 24 := by rw [← htake, hlenbuf]
    generalize hhdr : CMessageHeader.ofBytes buf = hdr
    have hof : CMessageHeader.ofBytes (part ++ pch.take n) = hdr := by rw [← htake, hhdr]
    have hread : msg.readHeader pch =
        if Reader.MAX_SIZE < hdr.nMessageSize then
          ({ msg with hdrbuf := [], nHdrPos := msg.nHdrPos + n, hdr := hdr }, none)
        else
          ({ msg with hdrbuf := [], nHdrPos := msg.nHdrPos + n, hdr := hdr, in_data := true },
            some n) := by
      simp only [CNetMessage.readHeader, hn, hbuf', if_neg hshort, unserialize_ofBytes hlenbuf,
        hhdr]
    have hbounded : ∀ m : CNetMessage, m.vRecv = msg.vRecv → m.nDataPos = msg.nDataPos →
        m.Bounded := by
      intro m h₁ h₂
      simp [CNetMessage.Bounded, h₁, h₂, hrecv, hdata]
    by_cases hmax : Reader.MAX_SIZE < hdr.nMessageSize
    · have habsorb : msg.absorb pch =
          ({ msg with hdrbuf := [], nHdrPos := msg.nHdrPos + n, hdr := hdr }, none) := by
        simp [CNetMessage.absorb, hin, hread, if_pos hmax]
      rw [habsorb]
      refine .oversized hhead rfl ?_ (by simp [CNetMessage.complete, hin]) (hbounded _ rfl rfl)
      rw [hof]
      exact lt_trans (by decide) hmax
    by_cases hsize : MAX_PROTOCOL_MESSAGE_LENGTH < hdr.nMessageSize
    · have habsorb : msg.absorb pch = ({ msg with
          hdrbuf := [], nHdrPos := msg.nHdrPos + n, hdr := hdr, in_data := true }, none) := by
        simp [CNetMessage.absorb, hin, hread, if_neg hmax, hsize]
      rw [habsorb]
      refine .oversized hhead rfl (by rwa [hof]) ?_ (hbounded _ rfl rfl)
      simp only [CNetMessage.complete, hdata, Bool.true_and]
      exact decide_eq_false (by omega)
    have habsorb : msg.absorb pch = ({ msg with
        hdrbuf := [], nHdrPos := msg.nHdrPos + n, hdr := hdr, in_data := true }, some n) := by
      simp [CNetMessage.absorb, hin, hread, if_neg hmax, hsize]
    rw [habsorb]
    by_cases hzero : hdr.nMessageSize = 0
    · -- there are no data
      refine .whole (by omega) (by omega) hhead (List.append_nil _).symm (not_lt.mp hsize)
        ⟨?_, hof.symm, hrecv, ?_⟩
      · simp [CNetMessage.complete, hdata, hzero]
      · rw [hof, hzero]
        rfl
    · refine .more (by omega) (by omega) ?_
      have hpartial := @Partial.data
        { msg with hdrbuf := [], nHdrPos := msg.nHdrPos + n, hdr := hdr, in_data := true }
        (part ++ pch.take n) [] rfl hhead hof.symm (not_lt.mp hsize) hdata
        (Nat.pos_of_ne_zero hzero) rfl (hbounded _ rfl rfl) (by simp [hrecv])
      rwa [List.append_nil] at hpartial

lemma absorbed_data {msg : CNetMessage} {head data pch : List UInt8} (hpch : pch ≠ [])
    (hin : msg.in_data = true) (hhead : head.length = 24) (hhdr : msg.hdr = .ofBytes head)
    (hmax : msg.hdr.nMessageSize ≤ MAX_PROTOCOL_MESSAGE_LENGTH) (hpos : msg.nDataPos = data.length)
    (hlt : data.length < msg.hdr.nMessageSize) (hdata : msg.vRecv.take data.length = data)
    (hroom : msg.Bounded) (hsize : msg.vRecv.length ≤ msg.hdr.nMessageSize) :
    Absorbed (head ++ data) pch (msg.absorb pch) := by
  have hpos' := List.length_pos_iff.mpr hpch
  obtain ⟨hroom₁, hroom₂⟩ := hroom
  generalize hn : min (msg.hdr.nMessageSize - msg.nDataPos) pch.length = n
  have hlen : (pch.take n).length = n := List.length_take_of_le (by omega)
  -- the buffer with room for the bytes
  generalize hgrown : (if msg.vRecv.length < msg.nDataPos + n then
    resize (min msg.hdr.nMessageSize (msg.nDataPos + n + 256 * 1024)) msg.vRecv
    else msg.vRecv) = grown
  have hfits : msg.nDataPos + n ≤ grown.length ∧ grown.length ≤ msg.nDataPos + n + 256 * 1024 ∧
      grown.length ≤ msg.hdr.nMessageSize ∧ grown.take msg.nDataPos = data := by
    rw [← hgrown]
    split_ifs with hgrow
    · rw [length_resize, take_resize (by omega) (by omega), hpos, hdata]
      refine ⟨?_, ?_, ?_, rfl⟩ <;> omega
    · rw [hpos, hdata]
      refine ⟨?_, ?_, ?_, rfl⟩ <;> omega
  obtain ⟨hfit, hahead, hsize', hkept⟩ := hfits
  have hread : msg.absorb pch = ({ msg with
      vRecv := copyInto grown msg.nDataPos (pch.take n)
      nDataPos := msg.nDataPos + n }, some n) := by
    have hno : ¬ MAX_PROTOCOL_MESSAGE_LENGTH < msg.hdr.nMessageSize := not_lt.mpr hmax
    simp only [CNetMessage.absorb, CNetMessage.readData, hin, hn, hgrown, Bool.not_true,
      Bool.false_eq_true, if_false, Bool.true_and, decide_eq_true_eq, hno]
  have hcopied : (copyInto grown msg.nDataPos (pch.take n)).length = grown.length :=
    length_copyInto (by omega)
  have htake : (copyInto grown msg.nDataPos (pch.take n)).take (msg.nDataPos + n) =
      data ++ pch.take n := by
    have h := take_copyInto (l := pch.take n) (show msg.nDataPos ≤ grown.length by omega)
    rwa [hlen, hkept] at h
  have hlen' : (data ++ pch.take n).length = msg.nDataPos + n := by
    rw [List.length_append, hlen, hpos]
  rw [hread]
  by_cases hend : msg.nDataPos + n = msg.hdr.nMessageSize
  · have hfull : (copyInto grown msg.nDataPos (pch.take n)).length ≤ msg.nDataPos + n := by omega
    refine .whole (by omega) (by omega) hhead (List.append_assoc ..) hmax ⟨?_, hhdr, ?_, ?_⟩
    · simp [CNetMessage.complete, hin, hend]
    · exact (List.take_of_length_le hfull).symm.trans htake
    · change (data ++ pch.take n).length = (CMessageHeader.ofBytes head).nMessageSize
      rw [hlen', hend, hhdr]
  · refine .more (by omega) (by omega) ?_
    rw [List.append_assoc]
    refine .data hin hhead hhdr hmax hlen'.symm ?_ ?_ ⟨?_, ?_⟩ ?_
    · change (data ++ pch.take n).length < msg.hdr.nMessageSize
      omega
    · rw [hlen']
      exact htake
    all_goals
      dsimp only
      omega

lemma Partial.absorbed {msg : CNetMessage} {part pch : List UInt8} (h : Partial msg part)
    (hpch : pch ≠ []) : Absorbed part pch (msg.absorb pch) := by
  cases h with
  | header hin hbuf hpos hlt hpart hrecv hdata =>
    exact absorbed_header hpch hin hbuf hpos hlt hpart hrecv hdata
  | data hin hhead hhdr hmax hpos hlt hdata hroom hsize =>
    exact absorbed_data hpch hin hhead hhdr hmax hpos hlt hdata hroom hsize

/-! ### The loop -/

/-- The list holds the complete messages of a stream and, at its end, what has come of the next. -/
inductive Collected : List CNetMessage → Frames → Prop
  | closed {done : List CNetMessage} {f : Frames} (h : List.Forall₂ Whole done f.messages)
      (hrest : f.rest = []) (hok : f.oversized = false) : Collected done f
  | opened {done : List CNetMessage} {msg : CNetMessage} {f : Frames}
      (h : List.Forall₂ Whole done f.messages) (hne : f.rest ≠ []) (hmsg : Partial msg f.rest)
      (hok : f.oversized = false) : Collected (done ++ [msg]) f
  | refused {done : List CNetMessage} {msg : CNetMessage} {f : Frames}
      (h : List.Forall₂ Whole done f.messages) (hopen : msg.complete = false)
      (hroom : msg.Bounded) (hok : f.oversized = true) : Collected (done ++ [msg]) f

lemma complete_of_mem {done : List CNetMessage} {l : List (CMessageHeader × List UInt8)}
    (h : List.Forall₂ Whole done l) : ∀ msg ∈ done, msg.complete = true := by
  induction h with
  | nil => simp
  | cons hm _ ih => exact List.forall_mem_cons.mpr ⟨hm.complete, ih⟩

lemma Frames.extend_nil {f : Frames} (hok : f.oversized = false)
    (hrest : frames f.rest = ⟨[], f.rest, false⟩) : f.extend [] = f := by
  rw [Frames.extend, List.append_nil, hrest, List.append_nil, ← hok]

lemma Collected.openMessage {v : List CNetMessage} {f : Frames} (h : Collected v f)
    (hok : f.oversized = false) (start : List UInt8) :
    ∃ done msg, Agenor.openMessage start v = (done, msg) ∧
      List.Forall₂ Whole done f.messages ∧ Partial msg f.rest := by
  cases h with
  | closed h hrest _ =>
    refine ⟨v, .new start, ?_, h, by rw [hrest]; exact .new start⟩
    cases hlast : v.getLast? with
    | none => rw [Agenor.openMessage, hlast]
    | some msg =>
      rw [Agenor.openMessage, hlast]
      dsimp only
      rw [if_pos (complete_of_mem h msg (List.mem_of_getLast? hlast))]
  | @opened done msg _ h _ hmsg _ =>
    refine ⟨done, msg, ?_, h, hmsg⟩
    rw [Agenor.openMessage, List.getLast?_concat]
    dsimp only
    rw [if_neg (by rw [hmsg.complete]; exact Bool.false_ne_true), List.dropLast_concat]
  | refused _ _ _ hover =>
    rw [hok] at hover
    cases hover

lemma receiveLoop_collected (start : List UInt8) (fuel : ℕ) (v : List CNetMessage)
    (pch : List UInt8) (c : Bool) {f : Frames} (h : Collected v f) (hok : f.oversized = false)
    (hfuel : pch.length ≤ fuel) (hrest : frames f.rest = ⟨[], f.rest, false⟩) :
    ∃ r, receiveLoop start fuel v pch c = some r ∧ Collected r.vRecvMsg (f.extend pch) ∧
      r.ok = !(f.extend pch).oversized ∧
      r.complete = (c || !(frames (f.rest ++ pch)).messages.isEmpty) := by
  induction fuel generalizing v pch c f with
  | zero =>
    obtain rfl : pch = [] := List.eq_nil_of_length_eq_zero (by omega)
    refine ⟨⟨v, true, c⟩, by rw [receiveLoop], ?_⟩
    rw [Frames.extend_nil hok hrest, List.append_nil, hrest, hok]
    exact ⟨h, rfl, by simp⟩
  | succ fuel ih =>
    cases pch with
    | nil =>
      refine ⟨⟨v, true, c⟩, by rw [receiveLoop], ?_⟩
      rw [Frames.extend_nil hok hrest, List.append_nil, hrest, hok]
      exact ⟨h, rfl, by simp⟩
    | cons b pch =>
      obtain ⟨done, msg, hopen, hdone, hmsg⟩ := h.openMessage hok start
      rw [receiveLoop, hopen]
      dsimp only
      have hstep := hmsg.absorbed (List.cons_ne_nil b pch)
      generalize msg.absorb (b :: pch) = result at hstep
      generalize hl : b :: pch = l at hstep ⊢
      have hlfuel : l.length ≤ fuel + 1 := by rwa [← hl]
      cases hstep with
      | @more msg' n hn hle hpart =>
        -- the message stays open
        have hne : f.rest ++ l.take n ≠ [] := by
          rw [ne_eq, List.append_eq_nil_iff, not_and]
          intro _ htake
          have := List.length_take_of_le hle
          rw [htake] at this
          simp only [List.length_nil] at this
          omega
        have hcol : Collected (done ++ [msg']) ⟨f.messages, f.rest ++ l.take n, false⟩ :=
          .opened hdone hne hpart rfl
        obtain ⟨r, hr, hr₁, hr₂, hr₃⟩ := ih _ (l.drop n) (c || msg'.complete) hcol rfl
          (by rw [List.length_drop]; omega) hpart.frames_eq
        have hext : Frames.extend ⟨f.messages, f.rest ++ l.take n, false⟩ (l.drop n) =
            f.extend l := by
          rw [Frames.extend, Frames.extend, List.append_assoc, List.take_append_drop]
        rw [hext] at hr₁ hr₂
        refine ⟨r, hr, hr₁, hr₂, ?_⟩
        rw [hr₃, hpart.complete, Bool.or_false, List.append_assoc, List.take_append_drop]
      | @whole msg' n head data hn hle hhead hbytes hmax hmsg' =>
        have hof : (CMessageHeader.ofBytes head).nMessageSize ≤ MAX_PROTOCOL_MESSAGE_LENGTH := by
          have hhdr : msg'.hdr = CMessageHeader.ofBytes head := hmsg'.hdr
          rwa [hhdr] at hmax
        have hl' : f.rest ++ l = head ++ (data ++ l.drop n) := by
          rw [← List.append_assoc, ← hbytes, List.append_assoc, List.take_append_drop]
        have hframes := frames_message (t := l.drop n) hhead hof hmsg'.size
        have hcol : Collected (done ++ [msg'])
            ⟨f.messages ++ [(CMessageHeader.ofBytes head, data)], [], false⟩ :=
          .closed (List.rel_append hdone (.cons hmsg' .nil)) rfl rfl
        obtain ⟨r, hr, hr₁, hr₂, hr₃⟩ := ih _ (l.drop n) (c || msg'.complete) hcol rfl
          (by rw [List.length_drop]; omega)
          (frames_short (show ([] : List UInt8).length < 24 by decide))
        have hext : Frames.extend ⟨f.messages ++ [(CMessageHeader.ofBytes head, data)], [], false⟩
            (l.drop n) = f.extend l := by
          rw [Frames.extend, Frames.extend, hl', hframes, List.append_assoc]
          rfl
        rw [hext] at hr₁ hr₂
        refine ⟨r, hr, hr₁, hr₂, ?_⟩
        rw [hr₃, hmsg'.complete, hl', hframes]
        simp
      | @oversized msg' n head hhead hbytes hsize hopen' hroom =>
        have hl' : f.rest ++ l = head ++ l.drop n := by
          rw [← hbytes, List.append_assoc, List.take_append_drop]
        have hframes : frames (f.rest ++ l) = ⟨[], f.rest ++ l, true⟩ := by
          rw [hl']
          refine frames_oversized (by rw [List.length_append]; omega) ?_
          rwa [ofBytes_append hhead.ge]
        have hext : f.extend l = ⟨f.messages, f.rest ++ l, true⟩ := by
          rw [Frames.extend, hframes, List.append_nil]
        refine ⟨_, rfl, ?_, ?_, ?_⟩
        · rw [hext]
          exact .refused hdone hopen' hroom rfl
        · rw [hext]
          rfl
        · rw [hframes]
          simp

lemma Collected.split {v : List CNetMessage} {f : Frames} (h : Collected v f) :
    List.Forall₂ Whole (v.takeWhile (·.complete)) f.messages ∧
      Collected (v.dropWhile (·.complete)) { f with messages := [] } := by
  have hall : ∀ {done : List CNetMessage}, List.Forall₂ Whole done f.messages →
      ∀ {msg : CNetMessage}, msg.complete = false →
        (done ++ [msg]).takeWhile (·.complete) = done ∧
          (done ++ [msg]).dropWhile (·.complete) = [msg] := by
    intro done hdone msg hmsg
    have hc := complete_of_mem hdone
    constructor
    · rw [List.takeWhile_append_of_pos hc, List.takeWhile_cons_of_neg (by simp [hmsg]),
        List.append_nil]
    · rw [List.dropWhile_append_of_pos hc, List.dropWhile_cons_of_neg (by simp [hmsg])]
  cases h with
  | closed h hrest hok =>
    have hc := complete_of_mem h
    have htake : v.takeWhile (·.complete) = v := List.takeWhile_eq_self_iff.mpr hc
    have hdrop : v.dropWhile (·.complete) = [] := List.dropWhile_eq_nil_iff.mpr hc
    rw [htake, hdrop]
    exact ⟨h, .closed .nil hrest hok⟩
  | opened h hne hmsg hok =>
    obtain ⟨htake, hdrop⟩ := hall h hmsg.complete
    rw [htake, hdrop]
    exact ⟨h, @Collected.opened [] _ { f with messages := [] } .nil hne hmsg hok⟩
  | refused h hopen hroom hok =>
    obtain ⟨htake, hdrop⟩ := hall h hopen
    rw [htake, hdrop]
    exact ⟨h, @Collected.refused [] _ { f with messages := [] } .nil hopen hroom hok⟩

lemma map_whole {done : List CNetMessage} {l : List (CMessageHeader × List UInt8)}
    (h : List.Forall₂ Whole done l) : done.map (fun msg => (msg.hdr, msg.vRecv)) = l := by
  induction h with
  | nil => rfl
  | cons hm _ ih => rw [List.map_cons, ih, hm.hdr, hm.vRecv]

lemma Collected.bounded {v : List CNetMessage} {f : Frames} (h : Collected v f)
    (hnone : f.messages = []) : v.length ≤ 1 ∧ ∀ msg ∈ v, msg.Bounded := by
  cases h with
  | closed h =>
    rw [hnone, List.forall₂_nil_right_iff] at h
    simp [h]
  | opened h _ hmsg =>
    rw [hnone, List.forall₂_nil_right_iff] at h
    simp [h, hmsg.bounded]
  | refused h _ hroom =>
    rw [hnone, List.forall₂_nil_right_iff] at h
    simp [h, hroom]

end Agenor
