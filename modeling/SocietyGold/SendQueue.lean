import SocietyGold.MessageStream
import SocietyGold.Support.Trace

/-!
# The send queue

`EndMessage` completes the header of a message and puts it at the end of `vSendMsg`;
`SocketSendData` hands the queue to `send()`, which may take any part of a message, and keeps
the offset reached in the front message.  Whatever `send()` answers, the bytes it has taken
and those that are left make up the completed messages in order.
-/

namespace SocietyGold

open Support

/-! ## The source -/

/-- The fields of `CNode` that sending uses. -/
structure SendQueue where
  vSendMsg : List (List UInt8)
  nSendOffset : ℕ
  nSendSize : ℕ
  nSendBytes : ℕ
  deriving DecidableEq, Repr

def SendQueue.empty : SendQueue := ⟨[], 0, 0, 0⟩

/-- What `send()` returns for its calls in one `SocketSendData`: the number of bytes it took,
at most those it was given, or zero, or an error.  The number fits in the `int` it is stored
in, since the system takes less than 2³¹ bytes at a time. -/
abbrev SendResults := (call remaining : ℕ) → { nBytes : ℤ // nBytes ≤ remaining }

/-- The loop of `SocketSendData`; `vSendMsg` is the queue from the iterator on.  It delivers
the bytes that `send()` took. -/
def sendLoop (send : SendResults) : (call : ℕ) → (vSendMsg : List (List UInt8)) → SendQueue →
    Checked (List UInt8 × SendQueue)
  | _, [], node => do
      assertThat (node.nSendOffset = 0)
      assertThat (node.nSendSize = 0)
      .ok ([], { node with vSendMsg := [] })
  | call, data :: rest, node => do
      assertThat (data.length > node.nSendOffset)
      let nBytes := (send call (data.length - node.nSendOffset)).1
      if nBytes > 0 then
        let taken := (data.drop node.nSendOffset).take nBytes.toNat
        let nSendOffset := node.nSendOffset + nBytes.toNat
        let nSendBytes := node.nSendBytes + nBytes.toNat
        if nSendOffset = data.length then do
          let (more, node) ← sendLoop send (call + 1) rest
            { node with
              nSendOffset := 0
              nSendSize := node.nSendSize - data.length
              nSendBytes := nSendBytes }
          .ok (taken ++ more, node)
        else
          .ok (taken, { node with
            vSendMsg := data :: rest
            nSendOffset := nSendOffset
            nSendBytes := nSendBytes })
      else .ok ([], { node with vSendMsg := data :: rest })

def socketSendData (send : SendResults) (node : SendQueue) :
    Checked (List UInt8 × SendQueue) :=
  sendLoop send 0 node.vSendMsg node

/-- `CMessageHeader::HEADER_SIZE`. -/
def HEADER_SIZE : ℕ := 24

def MESSAGE_SIZE_OFFSET : ℕ := 16

def CHECKSUM_OFFSET : ℕ := 20

/-- `ssSend` when `EndMessage` is called: `BeginMessage` has written a header to it, or it has
been cleared. -/
structure SendStream where
  bytes : List UInt8
  header : bytes = [] ∨ HEADER_SIZE ≤ bytes.length

/-- Set the size and the checksum. -/
def completeMessage (prims : Primitives) (ssSend : List UInt8) : List UInt8 :=
  let nSize := ssSend.length - HEADER_SIZE
  let ssSend := overwrite ssSend MESSAGE_SIZE_OFFSET (toBytesLE 4 nSize)
  let hash := prims.hash (ssSend.drop HEADER_SIZE)
  overwrite ssSend CHECKSUM_OFFSET (toBytesLE 4 hash)

/-- `EndMessage`; `dropped` says that `-dropmessagestest` drops the message. -/
def endMessage (prims : Primitives) (dropped : Bool) (ssSend : SendStream) (send : SendResults)
    (node : SendQueue) : Checked (List UInt8 × SendQueue) :=
  if dropped then .ok ([], node)
  else if ssSend.bytes.length = 0 then .ok ([], node)
  else do
    assertThat (ssSend.bytes.length ≥ CHECKSUM_OFFSET + 4)
    let data := completeMessage prims ssSend.bytes
    let queued := { node with
      vSendMsg := node.vSendMsg ++ [data]
      nSendSize := node.nSendSize + data.length }
    if node.vSendMsg.isEmpty then socketSendData send queued
    else .ok ([], queued)

/-! ## Calls -/

inductive SendCall
  | endMessage (dropped : Bool) (ssSend : SendStream) (send : SendResults)
  | socketSendData (send : SendResults)

/-- The message that a call completes. -/
def SendCall.completed (prims : Primitives) : SendCall → Option (List UInt8)
  | .endMessage dropped ssSend _ =>
      if dropped || ssSend.bytes.isEmpty then none
      else some (completeMessage prims ssSend.bytes)
  | .socketSendData _ => none

/-- The bytes that `send()` has taken so far, and the queue. -/
structure SendState where
  accepted : List UInt8
  node : SendQueue

def SendCall.run (prims : Primitives) : SendCall → SendQueue → Checked (List UInt8 × SendQueue)
  | .endMessage dropped ssSend send, node => SocietyGold.endMessage prims dropped ssSend send node
  | .socketSendData send, node => SocietyGold.socketSendData send node

def sendStep (prims : Primitives) (call : SendCall) (s : SendState) : Checked SendState := do
  let (taken, node) ← call.run prims s.node
  .ok ⟨s.accepted ++ taken, node⟩

def SendState.start : SendState := ⟨[], SendQueue.empty⟩

/-! ## The queue as a stream of bytes -/

/-- The bytes that are left to send. -/
def SendQueue.unsent (node : SendQueue) : List UInt8 :=
  node.vSendMsg.flatten.drop node.nSendOffset

/-- The offset lies inside the front message, messages are not empty, and the size counts
them. -/
structure SendQueue.Consistent (node : SendQueue) : Prop where
  nonempty : ∀ data ∈ node.vSendMsg, data ≠ []
  offset_empty : node.vSendMsg = [] → node.nSendOffset = 0
  offset_front : ∀ data rest, node.vSendMsg = data :: rest → node.nSendOffset < data.length
  size : node.nSendSize = (node.vSendMsg.map List.length).sum

theorem SendQueue.consistent_empty : SendQueue.empty.Consistent where
  nonempty := by simp [SendQueue.empty]
  offset_empty := fun _ => rfl
  offset_front := by simp [SendQueue.empty]
  size := rfl

/-- A message that has been sent leaves the queue of the others consistent. -/
theorem SendQueue.Consistent.next
    {data : List UInt8} {rest : List (List UInt8)} {node : SendQueue}
    (hNode : ({ node with vSendMsg := data :: rest } : SendQueue).Consistent) (nSendBytes : ℕ) :
    SendQueue.Consistent ⟨rest, 0, node.nSendSize - data.length, nSendBytes⟩ where
  nonempty := fun other hMem => hNode.nonempty other (List.mem_cons_of_mem _ hMem)
  offset_empty := fun _ => rfl
  offset_front := by
    intro front others hRest
    have hMem : front ∈ data :: rest := by
      rw [show rest = front :: others from hRest]
      simp
    exact List.length_pos_iff.mpr (hNode.nonempty front hMem)
  size := by
    have hSize := hNode.size
    simp only [List.map_cons, List.sum_cons] at hSize ⊢
    omega

/-- The loop meets no failing assertion, moves bytes from the front of the queue to those
taken, and leaves a consistent queue. -/
theorem sendLoop_spec
    (send : SendResults) (call : ℕ) {vSendMsg : List (List UInt8)} {node : SendQueue}
    (hNode : ({ node with vSendMsg := vSendMsg } : SendQueue).Consistent) :
    ∃ taken node', sendLoop send call vSendMsg node = .ok (taken, node') ∧
      node'.Consistent ∧
      taken ++ node'.unsent = vSendMsg.flatten.drop node.nSendOffset ∧
      node'.nSendBytes = node.nSendBytes + taken.length := by
  induction vSendMsg generalizing call node with
  | nil =>
      have hOffset : node.nSendOffset = 0 := hNode.offset_empty rfl
      have hSize : node.nSendSize = 0 := hNode.size
      refine ⟨[], { node with vSendMsg := [] }, ?_, hNode, ?_, rfl⟩
      · simp [sendLoop, assertThat, hOffset, hSize]
      · simp [SendQueue.unsent]
  | cons data rest ih =>
      have hOffset : node.nSendOffset < data.length := hNode.offset_front data rest rfl
      have hAssert : assertThat (data.length > node.nSendOffset) = .ok () := by
        simp [assertThat, hOffset]
      have hFlat : (data :: rest).flatten.drop node.nSendOffset =
          data.drop node.nSendOffset ++ rest.flatten := by
        rw [List.flatten_cons, List.drop_append_of_le_length hOffset.le]
      rw [hFlat, sendLoop, hAssert, ok_bind]
      dsimp only
      obtain ⟨nBytes, hBytes⟩ := send call (data.length - node.nSendOffset)
      dsimp only
      by_cases hTook : nBytes > 0
      · rw [if_pos hTook]
        have hLe : nBytes.toNat ≤ data.length - node.nSendOffset := by omega
        by_cases hWhole : node.nSendOffset + nBytes.toNat = data.length
        · -- the message is sent, and the loop goes on with the next one
          rw [if_pos hWhole]
          obtain ⟨more, node', hRun, hNode', hMore, hCount⟩ :=
            @ih (call + 1) ⟨node.vSendMsg, 0, node.nSendSize - data.length,
              node.nSendBytes + nBytes.toNat⟩ (hNode.next _)
          have hTaken : (data.drop node.nSendOffset).take nBytes.toNat =
              data.drop node.nSendOffset := by
            apply List.take_of_length_le
            rw [List.length_drop]
            omega
          refine ⟨_, node', by rw [hRun, ok_bind], hNode', ?_, ?_⟩
          · rw [List.append_assoc, hMore, hTaken, List.drop_zero]
          · rw [hCount, hTaken, List.length_append, List.length_drop]
            dsimp only
            omega
        · -- part of it is left
          rw [if_neg hWhole]
          refine ⟨_, _, rfl, ⟨hNode.nonempty, by simp, ?_, hNode.size⟩, ?_, ?_⟩
          · intro front others hFront
            obtain ⟨rfl, -⟩ := List.cons.inj hFront
            dsimp only
            omega
          · unfold SendQueue.unsent
            dsimp only
            rw [List.flatten_cons, List.drop_append_of_le_length (by omega),
              ← List.append_assoc, ← List.drop_drop, List.take_append_drop]
          · dsimp only
            rw [List.length_take, List.length_drop]
            omega
      · rw [if_neg hTook]
        refine ⟨[], _, rfl, hNode, ?_, rfl⟩
        unfold SendQueue.unsent
        rw [List.nil_append]
        exact hFlat

theorem socketSendData_spec (send : SendResults) {node : SendQueue} (hNode : node.Consistent) :
    ∃ taken node', socketSendData send node = .ok (taken, node') ∧ node'.Consistent ∧
      taken ++ node'.unsent = node.unsent ∧
      node'.nSendBytes = node.nSendBytes + taken.length :=
  sendLoop_spec send 0 hNode

theorem length_completeMessage
    (prims : Primitives) {ssSend : List UInt8} (hHeader : HEADER_SIZE ≤ ssSend.length) :
    (completeMessage prims ssSend).length = ssSend.length := by
  unfold HEADER_SIZE at hHeader
  unfold completeMessage MESSAGE_SIZE_OFFSET CHECKSUM_OFFSET
  dsimp only
  rw [length_overwrite, length_overwrite]
  · rw [length_toBytesLE]
    omega
  · rw [length_toBytesLE, length_overwrite]
    · omega
    · rw [length_toBytesLE]
      omega

/-- A message at the end of the queue. -/
theorem SendQueue.Consistent.push
    {node : SendQueue} (hNode : node.Consistent) {data : List UInt8} (hData : data ≠ []) :
    SendQueue.Consistent { node with
      vSendMsg := node.vSendMsg ++ [data]
      nSendSize := node.nSendSize + data.length } where
  nonempty := by
    intro other hMem
    rcases List.mem_append.mp hMem with hOld | hNew
    · exact hNode.nonempty other hOld
    · rw [List.mem_singleton.mp hNew]
      exact hData
  offset_empty := by simp
  offset_front := by
    intro front others hFront
    dsimp only at hFront ⊢
    cases hQueue : node.vSendMsg with
    | nil =>
        rw [hQueue] at hFront
        obtain ⟨rfl, -⟩ := List.cons.inj hFront
        rw [hNode.offset_empty hQueue]
        exact List.length_pos_iff.mpr hData
    | cons old rest =>
        rw [hQueue] at hFront
        obtain ⟨rfl, -⟩ := List.cons.inj hFront
        exact hNode.offset_front _ _ hQueue
  size := by
    dsimp only
    rw [hNode.size, List.map_append, List.sum_append]
    simp

theorem SendQueue.Consistent.unsent_push
    {node : SendQueue} (hNode : node.Consistent) (data : List UInt8) (nSendSize : ℕ) :
    SendQueue.unsent { node with
      vSendMsg := node.vSendMsg ++ [data]
      nSendSize := nSendSize } = node.unsent ++ data := by
  have hOffset : node.nSendOffset ≤ node.vSendMsg.flatten.length := by
    cases hQueue : node.vSendMsg with
    | nil => rw [hNode.offset_empty hQueue]; exact Nat.zero_le _
    | cons front rest =>
        have hFront := hNode.offset_front front rest hQueue
        rw [List.flatten_cons, List.length_append]
        omega
  unfold SendQueue.unsent
  dsimp only
  rw [List.flatten_append, List.drop_append_of_le_length hOffset]
  simp

/-- A call meets no failing assertion; what it takes and what it leaves are what was left
before and the message it completes. -/
theorem sendCall_spec
    (prims : Primitives) (call : SendCall) {node : SendQueue} (hNode : node.Consistent) :
    ∃ taken node', call.run prims node = .ok (taken, node') ∧ node'.Consistent ∧
      taken ++ node'.unsent = node.unsent ++ ((call.completed prims).getD []) ∧
      node'.nSendBytes = node.nSendBytes + taken.length := by
  cases call with
  | socketSendData send =>
      obtain ⟨taken, node', hRun, hNode', hBytes, hCount⟩ := socketSendData_spec send hNode
      exact ⟨taken, node', hRun, hNode', by simpa [SendCall.completed] using hBytes, hCount⟩
  | endMessage dropped ssSend send =>
      unfold SendCall.run endMessage SendCall.completed
      dsimp only
      cases dropped with
      | true => exact ⟨[], node, rfl, hNode, by simp, rfl⟩
      | false =>
          rw [if_neg Bool.false_ne_true, Bool.false_or]
          rcases ssSend.header with hEmpty | hHeader
          · rw [if_pos (by rw [hEmpty]; rfl), if_pos (by rw [hEmpty]; rfl)]
            exact ⟨[], node, rfl, hNode, by simp, rfl⟩
          · have hLength := length_completeMessage prims hHeader
            have hLong : 24 ≤ ssSend.bytes.length := hHeader
            have hData : completeMessage prims ssSend.bytes ≠ [] := by
              intro hNil
              rw [hNil] at hLength
              simp only [List.length_nil] at hLength
              omega
            have hAssert : assertThat (ssSend.bytes.length ≥ CHECKSUM_OFFSET + 4) = .ok () := by
              simp [assertThat, CHECKSUM_OFFSET, hLong]
            have hSome : ¬ssSend.bytes.isEmpty = true := by
              intro hNil
              rw [List.isEmpty_iff.mp hNil] at hLong
              simp at hLong
            rw [if_neg (show ¬ssSend.bytes.length = 0 by omega), hAssert, ok_bind,
              if_neg hSome, Option.getD_some]
            have hPush := hNode.push hData
            have hUnsent := hNode.unsent_push (completeMessage prims ssSend.bytes)
              (node.nSendSize + (completeMessage prims ssSend.bytes).length)
            split_ifs
            · obtain ⟨taken, node', hRun, hNode', hBytes, hCount⟩ := socketSendData_spec send hPush
              exact ⟨taken, node', hRun, hNode', by rw [hBytes, hUnsent], hCount⟩
            · exact ⟨[], _, rfl, hPush, by rw [List.nil_append, hUnsent], rfl⟩

/-! ## Runs -/

def completedMessages (prims : Primitives) (calls : List SendCall) : List (List UInt8) :=
  calls.filterMap (SendCall.completed prims)

/-- After any calls with any results of `send()` no assertion has failed, and the bytes that
`send()` has taken are a part at the front of the completed messages, of which the queue from
its offset on is the rest. -/
theorem sendQueue_of_run (prims : Primitives) (calls : List SendCall) :
    ∃ accepted node, runEvents (sendStep prims) calls .start = .ok ⟨accepted, node⟩ ∧
      accepted <+: (completedMessages prims calls).flatten ∧
      (completedMessages prims calls).flatten.drop accepted.length =
        node.vSendMsg.flatten.drop node.nSendOffset ∧
      (∀ data rest, node.vSendMsg = data :: rest → node.nSendOffset < data.length) ∧
      node.nSendSize = (node.vSendMsg.map List.length).sum := by
  have hRun : ∃ s, runEvents (sendStep prims) calls .start = .ok s ∧ s.node.Consistent ∧
      s.accepted ++ s.node.unsent = (completedMessages prims calls).flatten := by
    induction calls using List.reverseRecOn with
    | nil => exact ⟨.start, rfl, SendQueue.consistent_empty, rfl⟩
    | append_singleton calls call ih =>
        obtain ⟨s, hPast, hNode, hBytes⟩ := ih
        obtain ⟨taken, node', hCall, hNode', hMoved, -⟩ := sendCall_spec prims call hNode
        have hStep : sendStep prims call s = .ok ⟨s.accepted ++ taken, node'⟩ := by
          rw [sendStep, hCall, ok_bind]
        refine ⟨_, runEvents_concat_eq_ok.mpr ⟨s, hPast, hStep⟩, hNode', ?_⟩
        dsimp only
        rw [List.append_assoc, hMoved, ← List.append_assoc, hBytes]
        unfold completedMessages
        rw [List.filterMap_append, List.flatten_append]
        congr 1
        cases hCompleted : call.completed prims <;> simp [hCompleted]
  obtain ⟨⟨accepted, node⟩, hRun, hNode, hBytes⟩ := hRun
  dsimp only at hNode hBytes
  refine ⟨accepted, node, hRun, ⟨node.unsent, hBytes⟩, ?_, hNode.offset_front, hNode.size⟩
  rw [← hBytes, List.drop_left]
  rfl

end SocietyGold
