import SocietyGold.Transaction

/-!
# Messages from a byte stream

`ReceiveMsgBytes` fills the message at the end of the receive queue, first its header of
24 bytes and then its data, and begins a new message when that one is complete.  The state
of a message is described by the bytes it has received, and the state of the queue by the
messages of the stream and the bytes received of them, however these arrive.
-/

namespace SocietyGold

/-! ## Headers -/

/-- The four bytes at the start of every message of the network. -/
structure MessageStart where
  bytes : List UInt8
  length_bytes : bytes.length = 4

structure CMessageHeader where
  pchMessageStart : List UInt8
  pchCommand : List UInt8
  nMessageSize : ℕ
  nChecksum : ℕ
  deriving DecidableEq, Repr

namespace CMessageHeader

def serialize (hdr : CMessageHeader) : List UInt8 :=
  hdr.pchMessageStart ++ hdr.pchCommand ++ toBytesLE 4 hdr.nMessageSize ++
    toBytesLE 4 hdr.nChecksum

/-- `hdrbuf >> hdr`, for a buffer of 24 bytes. -/
def ofBytes (hdrbuf : List UInt8) : CMessageHeader where
  pchMessageStart := hdrbuf.take 4
  pchCommand := (hdrbuf.drop 4).take 12
  nMessageSize := fromBytesLE ((hdrbuf.drop 16).take 4)
  nChecksum := fromBytesLE ((hdrbuf.drop 20).take 4)

/-- The command up to its first zero. -/
def getCommand (hdr : CMessageHeader) : List UInt8 := hdr.pchCommand.takeWhile (· ≠ 0)

/-- Printable characters, and zeros only after the first zero. -/
def commandIsValid : List UInt8 → Bool
  | [] => true
  | c :: rest =>
      if c = 0 then rest.all (· = 0)
      else if c < 0x20 || c > 0x7e then false
      else commandIsValid rest

def isValid (messageStart : MessageStart) (hdr : CMessageHeader) : Bool :=
  if hdr.pchMessageStart ≠ messageStart.bytes then false
  else if !commandIsValid hdr.pchCommand then false
  else if hdr.nMessageSize > MAX_SIZE then false
  else true

end CMessageHeader

theorem CMessageHeader.ofBytes_serialize
    {hdr : CMessageHeader} (hStart : hdr.pchMessageStart.length = 4)
    (hCommand : hdr.pchCommand.length = 12) (hSize : hdr.nMessageSize < 2 ^ 32)
    (hChecksum : hdr.nChecksum < 2 ^ 32) : ofBytes hdr.serialize = hdr := by
  have hSize' : fromBytesLE (toBytesLE 4 hdr.nMessageSize) = hdr.nMessageSize := by
    rw [fromBytesLE_toBytesLE]
    exact Nat.mod_eq_of_lt (by norm_num at hSize ⊢; exact hSize)
  have hChecksum' : fromBytesLE (toBytesLE 4 hdr.nChecksum) = hdr.nChecksum := by
    rw [fromBytesLE_toBytesLE]
    exact Nat.mod_eq_of_lt (by norm_num at hChecksum ⊢; exact hChecksum)
  cases hdr with
  | mk pchMessageStart pchCommand nMessageSize nChecksum =>
      dsimp only at *
      simp [ofBytes, serialize, List.drop_append, hStart, hCommand, hSize',
        hChecksum', List.take_of_length_le, List.drop_of_length_le]

/-! ## Filling a message -/

/-- `memcpy(&buf[pos], bytes, size)` inside a buffer. -/
def overwrite (buf : List UInt8) (pos : ℕ) (bytes : List UInt8) : List UInt8 :=
  buf.take pos ++ bytes ++ buf.drop (pos + bytes.length)

/-- `resize(n)` of a byte buffer. -/
def resizeTo (n : ℕ) (buf : List UInt8) : List UInt8 :=
  buf.take n ++ List.replicate (n - buf.length) 0

structure CNetMessage where
  /-- Parsing header (false) or data (true). -/
  in_data : Bool
  hdrbuf : List UInt8
  hdr : CMessageHeader
  nHdrPos : ℕ
  vRecv : List UInt8
  nDataPos : ℕ
  deriving DecidableEq, Repr

namespace CNetMessage

/-- A message of which nothing has been received. -/
def new (messageStart : MessageStart) : CNetMessage where
  in_data := false
  hdrbuf := List.replicate 24 0
  hdr := ⟨messageStart.bytes, [0, 1, 0, 0, 0, 0, 0, 0, 0, 0, 0, 0], UINT_MAX, 0⟩
  nHdrPos := 0
  vRecv := []
  nDataPos := 0

def complete (msg : CNetMessage) : Bool := msg.in_data && msg.hdr.nMessageSize = msg.nDataPos

/-- The number of bytes taken, or none for -1, with the message as it is left. -/
def readHeader (msg : CNetMessage) (pch : List UInt8) : Option ℕ × CNetMessage :=
  let nRemaining := 24 - msg.nHdrPos
  let nCopy := min nRemaining pch.length
  let msg :=
    { msg with
      hdrbuf := overwrite msg.hdrbuf msg.nHdrPos (pch.take nCopy)
      nHdrPos := msg.nHdrPos + nCopy }
  if msg.nHdrPos < 24 then (some nCopy, msg)
  else
    let msg := { msg with hdr := CMessageHeader.ofBytes msg.hdrbuf }
    if msg.hdr.nMessageSize > MAX_SIZE then (none, msg)
    else (some nCopy, { msg with in_data := true })

def readData (msg : CNetMessage) (pch : List UInt8) : Option ℕ × CNetMessage :=
  let nRemaining := msg.hdr.nMessageSize - msg.nDataPos
  let nCopy := min nRemaining pch.length
  let vRecv :=
    if msg.vRecv.length < msg.nDataPos + nCopy then
      resizeTo (min msg.hdr.nMessageSize (msg.nDataPos + nCopy + 256 * 1024)) msg.vRecv
    else msg.vRecv
  (some nCopy,
    { msg with
      vRecv := overwrite vRecv msg.nDataPos (pch.take nCopy)
      nDataPos := msg.nDataPos + nCopy })

def read (msg : CNetMessage) (pch : List UInt8) : Option ℕ × CNetMessage :=
  if !msg.in_data then msg.readHeader pch else msg.readData pch

end CNetMessage

/-- The message that takes the next bytes, and those before it: the last one, or a new one
when the queue is empty or its last message is complete. -/
def currentMessage (messageStart : MessageStart) (vRecvMsg : List CNetMessage) :
    List CNetMessage × CNetMessage :=
  match vRecvMsg.getLast? with
  | none => ([], CNetMessage.new messageStart)
  | some back =>
      if back.complete then (vRecvMsg, CNetMessage.new messageStart)
      else (vRecvMsg.dropLast, back)

/-- The loop of `ReceiveMsgBytes`.  Each round takes a byte at least. -/
def receiveLoop (messageStart : MessageStart) :
    (fuel : ℕ) → (vRecvMsg : List CNetMessage) → (pch : List UInt8) → Bool × List CNetMessage
  | 0, vRecvMsg, _ => (true, vRecvMsg)
  | fuel + 1, vRecvMsg, pch =>
      if pch = [] then (true, vRecvMsg)
      else
        let current := currentMessage messageStart vRecvMsg
        match current.2.read pch with
        | (none, msg) => (false, current.1 ++ [msg])
        | (some handled, msg) =>
            receiveLoop messageStart fuel (current.1 ++ [msg]) (pch.drop handled)

def receiveMsgBytes (messageStart : MessageStart) (vRecvMsg : List CNetMessage)
    (pch : List UInt8) : Bool × List CNetMessage :=
  receiveLoop messageStart pch.length vRecvMsg pch

/-! ## What a message holds -/

/-- The message after some bytes: part of the header, or the header and part of the
data. -/
inductive CNetMessage.Holds (msg : CNetMessage) : List UInt8 → Prop
  | header {bytes : List UInt8} (hShort : bytes.length < 24) (in_data : msg.in_data = false)
      (nHdrPos : msg.nHdrPos = bytes.length) (length_hdrbuf : msg.hdrbuf.length = 24)
      (hdrbuf : msg.hdrbuf.take bytes.length = bytes) (nDataPos : msg.nDataPos = 0)
      (vRecv : msg.vRecv = []) : Holds msg bytes
  | data {head payload : List UInt8} (length_head : head.length = 24)
      (in_data : msg.in_data = true) (hdr : msg.hdr = CMessageHeader.ofBytes head)
      (nDataPos : msg.nDataPos = payload.length) (vRecv : msg.vRecv.take payload.length = payload)
      (hFits : payload.length ≤ msg.vRecv.length)
      (hSize : msg.vRecv.length ≤ msg.hdr.nMessageSize) : Holds msg (head ++ payload)

@[simp] theorem length_overwrite
    {buf bytes : List UInt8} {pos : ℕ} (h : pos + bytes.length ≤ buf.length) :
    (overwrite buf pos bytes).length = buf.length := by
  simp only [overwrite, List.length_append, List.length_take, List.length_drop]
  omega

theorem take_overwrite
    {buf bytes : List UInt8} {pos : ℕ} (h : pos + bytes.length ≤ buf.length) :
    (overwrite buf pos bytes).take (pos + bytes.length) = buf.take pos ++ bytes := by
  have hLength : (buf.take pos ++ bytes).length = pos + bytes.length := by
    simp only [List.length_append, List.length_take]
    omega
  rw [overwrite, ← hLength, List.take_left]

@[simp] theorem length_resizeTo (n : ℕ) (buf : List UInt8) : (resizeTo n buf).length = n := by
  simp only [resizeTo, List.length_append, List.length_take, List.length_replicate]
  omega

theorem take_resizeTo
    {buf : List UInt8} {n k : ℕ} (hk : k ≤ buf.length) (hn : k ≤ n) :
    (resizeTo n buf).take k = buf.take k := by
  rw [resizeTo, List.take_append_of_le_length (by simp; omega), List.take_take, min_eq_left hn]

namespace CNetMessage

variable {msg : CNetMessage} {bytes : List UInt8}

theorem holds_new (messageStart : MessageStart) : (new messageStart).Holds [] := by
  apply Holds.header <;> simp [new]

/-- The whole header and nothing of the data. -/
theorem Holds.of_header
    {head : List UInt8} (length_head : head.length = 24) (in_data : msg.in_data = true)
    (hdr : msg.hdr = CMessageHeader.ofBytes head) (nDataPos : msg.nDataPos = 0)
    (vRecv : msg.vRecv = []) : msg.Holds head := by
  have hHolds : msg.Holds (head ++ []) :=
    .data length_head in_data hdr nDataPos rfl (Nat.zero_le _) (by simp [vRecv])
  rwa [List.append_nil] at hHolds

/-- More of the header, up to its end. -/
theorem Holds.readHeader
    (h : msg.Holds bytes) (pch : List UInt8) (hShort : bytes.length < 24)
    (hSize : 24 ≤ bytes.length + pch.length →
      (CMessageHeader.ofBytes (bytes ++ pch.take (24 - bytes.length))).nMessageSize ≤ MAX_SIZE) :
    ∃ msg', msg.read pch = (some (min (24 - bytes.length) pch.length), msg') ∧
      msg'.Holds (bytes ++ pch.take (min (24 - bytes.length) pch.length)) := by
  cases h with
  | data length_head =>
      rw [List.length_append, length_head] at hShort
      omega
  | header _ in_data nHdrPos length_hdrbuf hdrbuf nDataPos vRecv =>
      set nCopy := min (24 - bytes.length) pch.length with hCopy
      have hTaken : (pch.take nCopy).length = nCopy := by
        rw [List.length_take]
        omega
      have hRoom : bytes.length + (pch.take nCopy).length ≤ msg.hdrbuf.length := by
        rw [hTaken, length_hdrbuf]
        omega
      have hBuffer : (overwrite msg.hdrbuf bytes.length (pch.take nCopy)).take
          (bytes.length + nCopy) = bytes ++ pch.take nCopy := by
        have hTake := take_overwrite hRoom
        rwa [hTaken, hdrbuf] at hTake
      unfold CNetMessage.read CNetMessage.readHeader
      rw [in_data, Bool.not_false, if_pos rfl]
      dsimp only
      simp only [nHdrPos, ← hCopy]
      by_cases hMore : bytes.length + nCopy < 24
      · rw [if_pos hMore]
        refine ⟨_, rfl, .header ?_ rfl ?_ ?_ ?_ nDataPos vRecv⟩
        · rw [List.length_append, hTaken]
          exact hMore
        · rw [List.length_append, hTaken]
        · rw [length_overwrite hRoom, length_hdrbuf]
        · rw [List.length_append, hTaken]
          exact hBuffer
      · have hAll : bytes.length + nCopy = 24 := by omega
        have hHead : overwrite msg.hdrbuf bytes.length (pch.take nCopy) =
            bytes ++ pch.take nCopy := by
          rw [← hBuffer, hAll]
          refine (List.take_of_length_le ?_).symm
          rw [length_overwrite hRoom, length_hdrbuf]
        have hFull : nCopy = 24 - bytes.length := by omega
        have hMax : (CMessageHeader.ofBytes (bytes ++ pch.take nCopy)).nMessageSize ≤ MAX_SIZE := by
          rw [hFull]
          exact hSize (by omega)
        rw [if_neg hMore, hHead, if_neg (not_lt.mpr hMax)]
        refine ⟨_, rfl, .of_header ?_ rfl rfl nDataPos vRecv⟩
        rw [List.length_append, hTaken, hAll]

/-- More of the data, up to the size in the header. -/
theorem Holds.readData
    {head payload : List UInt8} (h : msg.Holds (head ++ payload)) (pch : List UInt8)
    (hHead : head.length = 24) :
    ∃ msg', msg.read pch =
        (some (min ((CMessageHeader.ofBytes head).nMessageSize - payload.length) pch.length),
          msg') ∧
      msg'.Holds (head ++ (payload ++ pch.take
        (min ((CMessageHeader.ofBytes head).nMessageSize - payload.length) pch.length))) := by
  generalize hBytes : head ++ payload = bytes at h
  cases h with
  | header hShort =>
      rw [← hBytes, List.length_append, hHead] at hShort
      omega
  | @data head' payload' length_head in_data hdr nDataPos vRecv hFits hSize =>
      obtain ⟨rfl, rfl⟩ := List.append_inj hBytes (hHead.trans length_head.symm)
      rw [← hdr]
      set nCopy := min (msg.hdr.nMessageSize - payload.length) pch.length with hCopy
      have hTaken : (pch.take nCopy).length = nCopy := by
        rw [List.length_take]
        omega
      set buffer :=
        if msg.vRecv.length < payload.length + nCopy then
          resizeTo (min msg.hdr.nMessageSize (payload.length + nCopy + 256 * 1024)) msg.vRecv
        else msg.vRecv with hBuffer
      -- there is room for the new bytes, and what was received stays
      have hRoom : payload.length + nCopy ≤ buffer.length ∧
          buffer.length ≤ msg.hdr.nMessageSize ∧ buffer.take payload.length = payload := by
        rw [hBuffer]
        split_ifs with hGrow
        · refine ⟨?_, ?_, ?_⟩
          · rw [length_resizeTo]
            omega
          · rw [length_resizeTo]
            omega
          · rw [take_resizeTo hFits (by omega), vRecv]
        · exact ⟨by omega, hSize, vRecv⟩
      obtain ⟨hEnough, hMax, hKept⟩ := hRoom
      have hEnough' : payload.length + (pch.take nCopy).length ≤ buffer.length := by
        rw [hTaken]
        exact hEnough
      unfold CNetMessage.read CNetMessage.readData
      rw [in_data, Bool.not_true, if_neg Bool.false_ne_true]
      dsimp only
      simp only [nDataPos, ← hCopy, ← hBuffer]
      refine ⟨_, rfl, .data length_head rfl hdr ?_ ?_ ?_ ?_⟩
      · rw [List.length_append, hTaken]
      · rw [List.length_append, take_overwrite hEnough', hKept]
      · rw [List.length_append, length_overwrite hEnough']
        exact hEnough'
      · rw [length_overwrite hEnough']
        exact hMax

end CNetMessage

/-! ## Well-formed messages -/

/-- A message as a peer of the network sends it. -/
structure WireMessage (prims : Primitives) (messageStart : MessageStart) where
  pchCommand : List UInt8
  payload : List UInt8
  length_pchCommand : pchCommand.length = 12
  commandIsValid : CMessageHeader.commandIsValid pchCommand = true
  size_le : payload.length ≤ MAX_SIZE

namespace WireMessage

variable {prims : Primitives} {messageStart : MessageStart}

def header (m : WireMessage prims messageStart) : CMessageHeader where
  pchMessageStart := messageStart.bytes
  pchCommand := m.pchCommand
  nMessageSize := m.payload.length
  nChecksum := prims.hash m.payload % 2 ^ 32

def bytes (m : WireMessage prims messageStart) : List UInt8 := m.header.serialize ++ m.payload

/-- The bytes of a sequence of messages. -/
def stream (msgs : List (WireMessage prims messageStart)) : List UInt8 := msgs.flatMap bytes

variable {m : WireMessage prims messageStart} {msg : CNetMessage} {received pch later : List UInt8}

@[simp] theorem length_header : m.header.serialize.length = 24 := by
  simp [CMessageHeader.serialize, header, messageStart.length_bytes, m.length_pchCommand]

theorem ofBytes_header : CMessageHeader.ofBytes m.header.serialize = m.header := by
  apply CMessageHeader.ofBytes_serialize
  · exact messageStart.length_bytes
  · exact m.length_pchCommand
  · have hSize := m.size_le
    change m.payload.length < 2 ^ 32
    unfold MAX_SIZE at hSize
    omega
  · exact Nat.mod_lt _ (by decide)

theorem length_bytes : m.bytes.length = 24 + m.payload.length := by
  simp [bytes]

theorem isValid_header : m.header.isValid messageStart = true := by
  have hSize : ¬m.header.nMessageSize > MAX_SIZE := not_lt.mpr m.size_le
  simp only [CMessageHeader.isValid, hSize, if_false]
  simp [header, m.commandIsValid]

@[simp] theorem stream_append (msgs msgs' : List (WireMessage prims messageStart)) :
    stream (msgs ++ msgs') = stream msgs ++ stream msgs' := List.flatMap_append

@[simp] theorem stream_cons (msgs : List (WireMessage prims messageStart)) :
    stream (m :: msgs) = m.bytes ++ stream msgs := List.flatMap_cons

/-- All bytes of a message are received: it is complete. -/
theorem complete_of_holds
    (h : msg.Holds m.bytes) :
    msg.complete = true ∧ msg.hdr = m.header ∧ msg.vRecv = m.payload := by
  generalize hBytes : m.bytes = received at h
  cases h with
  | header hShort =>
      rw [← hBytes, length_bytes] at hShort
      omega
  | data length_head in_data hdr nDataPos vRecv hFits hSize =>
      obtain ⟨rfl, rfl⟩ := List.append_inj hBytes (length_header.trans length_head.symm)
      rw [ofBytes_header] at hdr
      have hMax : msg.hdr.nMessageSize = m.payload.length := by
        rw [hdr]
        rfl
      refine ⟨?_, hdr, ?_⟩
      · simp [CNetMessage.complete, in_data, nDataPos, hMax]
      · rw [List.take_of_length_le (by omega)] at vRecv
        exact vRecv

/-- Some bytes of a message are missing: it is not complete. -/
theorem not_complete_of_holds
    (h : msg.Holds received) (hPrefix : received <+: m.bytes)
    (hShort : received.length < m.bytes.length) : msg.complete = false := by
  cases h with
  | header _ in_data => simp [CNetMessage.complete, in_data]
  | @data head payload length_head in_data hdr nDataPos =>
      have hHead : head = m.header.serialize := by
        have hBoth := (List.prefix_append head payload).trans hPrefix
        exact (List.prefix_of_prefix_length_le hBoth (List.prefix_append _ _)
          (by simp [length_head])).eq_of_length (by simp [length_head])
      rw [List.length_append, length_head, length_bytes] at hShort
      have hNe : m.payload.length ≠ payload.length := by omega
      rw [hHead, ofBytes_header] at hdr
      simpa [CNetMessage.complete, in_data, hdr, nDataPos, header] using hNe

/-- The next read of an incomplete message takes some of the bytes at hand, all of them
its own. -/
theorem read_of_holds
    (h : msg.Holds received) (hShort : received.length < m.bytes.length) (hSome : pch ≠ [])
    (hStream : received ++ pch <+: m.bytes ++ later) :
    ∃ handled msg', msg.read pch = (some handled, msg') ∧ 0 < handled ∧ handled ≤ pch.length ∧
      msg'.Holds (received ++ pch.take handled) ∧
      received ++ pch.take handled <+: m.bytes := by
  have hLength : 0 < pch.length := List.length_pos_iff.mpr hSome
  -- what stays within the message is a prefix of it
  have hWithin : ∀ handled, received.length + handled ≤ m.bytes.length →
      received ++ pch.take handled <+: m.bytes := by
    intro handled hHandled
    have hTake : received ++ pch.take handled <+: received ++ pch :=
      List.prefix_append_right_inj received |>.mpr (List.take_prefix _ _)
    refine List.prefix_of_prefix_length_le (hTake.trans hStream) (List.prefix_append _ _) ?_
    rw [List.length_append, List.length_take]
    omega
  have hHeader : ∀ head : List UInt8, head <+: m.bytes → head.length = 24 →
      head = m.header.serialize := by
    intro head hHead hSize
    exact (List.prefix_of_prefix_length_le hHead (List.prefix_append _ _)
      (by simp [hSize])).eq_of_length (by simp [hSize])
  rw [length_bytes] at hShort hWithin
  by_cases hInHeader : received.length < 24
  · obtain ⟨msg', hRead, hHolds⟩ := h.readHeader pch hInHeader (by
      intro hEnough
      rw [hHeader _ (hWithin (24 - received.length) (by omega))
        (by rw [List.length_append, List.length_take]; omega), ofBytes_header]
      exact m.size_le)
    exact ⟨_, msg', hRead, by omega, by omega, hHolds, hWithin _ (by omega)⟩
  · cases h with
    | header hLess => exact absurd hLess hInHeader
    | @data head payload length_head in_data hdr nDataPos vRecv hFits hSize =>
        have hPrefix : head ++ payload <+: m.bytes := by
          simpa using hWithin 0 (by omega)
        have hHead := hHeader head ((List.prefix_append _ _).trans hPrefix) length_head
        have hHolds : msg.Holds (head ++ payload) :=
          .data length_head in_data hdr nDataPos vRecv hFits hSize
        obtain ⟨msg', hRead, hHolds'⟩ := hHolds.readData pch length_head
        rw [hHead, ofBytes_header] at hRead hHolds'
        rw [List.length_append, length_head] at hShort hWithin
        have hSize : m.header.nMessageSize = m.payload.length := rfl
        rw [hSize] at hRead hHolds'
        refine ⟨_, msg', hRead, by omega, by omega, ?_, hWithin _ (by omega)⟩
        rw [hHead, List.append_assoc]
        exact hHolds'

end WireMessage

/-! ## The receive queue -/

section Queue

variable {prims : Primitives} {messageStart : MessageStart}

/-- Each message of the queue holds one message of the stream. -/
abbrev Arrived (vRecvMsg : List CNetMessage) (msgs : List (WireMessage prims messageStart)) :
    Prop :=
  List.Forall₂ (fun msg m => msg.Holds m.bytes) vRecvMsg msgs

/-- The queue after some bytes of the messages to come: the messages that have arrived, and
a message that has arrived in part, if the bytes end inside one. -/
inductive Waits : (vRecvMsg : List CNetMessage) →
    (msgs : List (WireMessage prims messageStart)) → (received : List UInt8) → Prop
  | whole {front : List CNetMessage} {arrived later : List (WireMessage prims messageStart)}
      (hFront : Arrived front arrived) :
      Waits front (arrived ++ later) (WireMessage.stream arrived)
  | cut {front : List CNetMessage} {arrived later : List (WireMessage prims messageStart)}
      {msg : CNetMessage} {m : WireMessage prims messageStart} {received : List UInt8}
      (hFront : Arrived front arrived) (hLast : msg.Holds received)
      (hPrefix : received <+: m.bytes) (hShort : received.length < m.bytes.length) :
      Waits (front ++ [msg]) (arrived ++ m :: later) (WireMessage.stream arrived ++ received)

variable {vRecvMsg front : List CNetMessage} {msgs arrived : List (WireMessage prims messageStart)}
  {received pch : List UInt8}

theorem waits_nil (msgs : List (WireMessage prims messageStart)) : Waits [] msgs [] := by
  have hEmpty : Waits [] ([] ++ msgs) (WireMessage.stream []) := .whole .nil
  exact hEmpty

/-- When all bytes have been received, all messages have arrived. -/
theorem Waits.all_arrived
    (h : Waits vRecvMsg msgs received) (hAll : received = WireMessage.stream msgs) :
    Arrived vRecvMsg msgs := by
  cases h with
  | @whole _ arrived later hFront =>
      cases later with
      | nil => rwa [List.append_nil]
      | cons m later =>
          have hLength := congrArg List.length hAll
          rw [WireMessage.stream_append, WireMessage.stream_cons, List.length_append,
            List.length_append, WireMessage.length_bytes] at hLength
          omega
  | @cut front arrived later msg m received hFront hLast hPrefix hShort =>
      have hLength := congrArg List.length hAll
      rw [WireMessage.stream_append, WireMessage.stream_cons, List.length_append,
        List.length_append, List.length_append] at hLength
      omega

theorem complete_of_arrived (h : Arrived front arrived) : ∀ msg ∈ front, msg.complete = true := by
  induction h with
  | nil => simp
  | cons hHolds _ ih =>
      intro msg hMem
      rcases List.mem_cons.mp hMem with rfl | hRest
      · exact (WireMessage.complete_of_holds hHolds).1
      · exact ih msg hRest

theorem currentMessage_of_arrived
    (h : Arrived front arrived) :
    currentMessage messageStart front = (front, CNetMessage.new messageStart) := by
  unfold currentMessage
  cases hLast : front.getLast? with
  | none =>
      rw [List.getLast?_eq_none_iff] at hLast
      rw [hLast]
  | some back =>
      have hComplete := complete_of_arrived h back (List.mem_of_getLast? hLast)
      simp only [hComplete, if_true]

theorem currentMessage_of_cut
    {msg : CNetMessage} (h : msg.complete = false) :
    currentMessage messageStart (front ++ [msg]) = (front, msg) := by
  simp [currentMessage, h]

/-- A queue that waits for messages is made of messages that have arrived and at most one
incomplete message, which stays when the others are handled. -/
theorem Waits.exists_split
    (h : Waits vRecvMsg msgs received) :
    ∃ front tail arrived later cut, vRecvMsg = front ++ tail ∧ Arrived front arrived ∧
      (tail = [] ∨ ∃ msg : CNetMessage, tail = [msg] ∧ msg.complete = false) ∧
      msgs = arrived ++ later ∧ received = WireMessage.stream arrived ++ cut ∧
      ∀ front' arrived', Arrived front' arrived' →
        Waits (front' ++ tail) (arrived' ++ later) (WireMessage.stream arrived' ++ cut) := by
  cases h with
  | @whole _ arrived later hFront =>
      refine ⟨_, [], arrived, later, [], (List.append_nil _).symm, hFront, .inl rfl, rfl,
        (List.append_nil _).symm, fun front' arrived' hFront' => ?_⟩
      rw [List.append_nil, List.append_nil]
      exact .whole hFront'
  | @cut front arrived later msg m received hFront hLast hPrefix hShort =>
      exact ⟨front, [msg], arrived, m :: later, received, rfl, hFront,
        .inr ⟨msg, rfl, WireMessage.not_complete_of_holds hLast hPrefix hShort⟩, rfl, rfl,
        fun front' arrived' hFront' => .cut hFront' hLast hPrefix hShort⟩

/-- The message that takes the next bytes belongs to the first message of the stream that
has not arrived. -/
theorem exists_currentMessage
    (h : Waits vRecvMsg msgs received) (hSome : pch ≠ [])
    (hStream : received ++ pch <+: WireMessage.stream msgs) :
    ∃ front msg arrived m later cut,
      currentMessage messageStart vRecvMsg = (front, msg) ∧ Arrived front arrived ∧
      msgs = arrived ++ m :: later ∧ received = WireMessage.stream arrived ++ cut ∧
      msg.Holds cut ∧ cut.length < m.bytes.length := by
  cases h with
  | @whole _ arrived later hFront =>
      cases later with
      | nil =>
          have hLength := hStream.length_le
          have hPositive := List.length_pos_iff.mpr hSome
          rw [List.append_nil, List.length_append] at hLength
          omega
      | cons m later =>
          refine ⟨vRecvMsg, _, arrived, m, later, [], currentMessage_of_arrived hFront, hFront, rfl,
            (List.append_nil _).symm, CNetMessage.holds_new _, ?_⟩
          rw [WireMessage.length_bytes, List.length_nil]
          omega
  | @cut front arrived later msg m received hFront hLast hPrefix hShort =>
      exact ⟨front, msg, arrived, m, later, received,
        currentMessage_of_cut (WireMessage.not_complete_of_holds hLast hPrefix hShort), hFront, rfl,
        rfl, hLast, hShort⟩

/-- A queue that waits for the messages goes on waiting for them after a chunk. -/
theorem waits_receiveLoop
    {fuel : ℕ} (h : Waits vRecvMsg msgs received) (hFuel : pch.length ≤ fuel)
    (hStream : received ++ pch <+: WireMessage.stream msgs) :
    ∃ queue, receiveLoop messageStart fuel vRecvMsg pch = (true, queue) ∧
      Waits queue msgs (received ++ pch) := by
  induction fuel generalizing vRecvMsg received pch with
  | zero =>
      obtain rfl := List.length_eq_zero_iff.mp (Nat.le_zero.mp hFuel)
      exact ⟨vRecvMsg, rfl, by rwa [List.append_nil]⟩
  | succ fuel ih =>
      unfold receiveLoop
      by_cases hSome : pch = []
      · rw [if_pos hSome, hSome, List.append_nil]
        exact ⟨vRecvMsg, rfl, h⟩
      · obtain ⟨front, msg, arrived, m, later, cut, hCurrent, hFront, rfl, rfl, hHolds, hShort⟩ :=
          exists_currentMessage h hSome hStream
        have hRest : cut ++ pch <+: m.bytes ++ WireMessage.stream later := by
          rw [WireMessage.stream_append, WireMessage.stream_cons, List.append_assoc] at hStream
          exact (List.prefix_append_right_inj _).mp hStream
        obtain ⟨handled, msg', hRead, hPositive, hHandled, hHolds', hPrefix⟩ :=
          WireMessage.read_of_holds hHolds hShort hSome hRest
        rw [if_neg hSome]
        simp only [hCurrent, hRead]
        have hWaits : Waits (front ++ [msg']) (arrived ++ m :: later)
            (WireMessage.stream arrived ++ cut ++ pch.take handled) := by
          rw [List.append_assoc]
          rcases hPrefix.length_le.lt_or_eq with hLess | hEq
          · exact .cut hFront hHolds' hPrefix hLess
          · rw [hPrefix.eq_of_length hEq] at hHolds' ⊢
            have hWhole : Arrived (front ++ [msg']) (arrived ++ [m]) :=
              List.rel_append hFront (.cons hHolds' .nil)
            have hNow : Waits (front ++ [msg']) (arrived ++ [m] ++ later)
                (WireMessage.stream (arrived ++ [m])) := .whole hWhole
            simpa [WireMessage.stream] using hNow
        have hJoin : WireMessage.stream arrived ++ cut ++ pch.take handled ++ pch.drop handled =
            WireMessage.stream arrived ++ cut ++ pch := by
          rw [List.append_assoc, List.take_append_drop]
        rw [← hJoin]
        apply ih hWaits
        · rw [List.length_drop]
          omega
        · rw [hJoin]
          exact hStream

/-- A chunk of the stream is received whatever its size, with the bytes it adds. -/
theorem waits_receiveMsgBytes
    (h : Waits vRecvMsg msgs received)
    (hStream : received ++ pch <+: WireMessage.stream msgs) :
    ∃ queue, receiveMsgBytes messageStart vRecvMsg pch = (true, queue) ∧
      Waits queue msgs (received ++ pch) :=
  waits_receiveLoop h le_rfl hStream

end Queue

end SocietyGold
