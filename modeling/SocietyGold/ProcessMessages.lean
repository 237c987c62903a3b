import SocietyGold.MessageStream
import SocietyGold.State
import SocietyGold.Support.Trace

/-!
# Handling the messages of a peer

`ProcessMessages` hands the complete messages of the receive queue to `ProcessMessage`, one
after the other.  It runs in a thread of its own, between any two chunks that the socket
thread receives.

When it meets a message that has arrived in part, it disconnects the peer and, unless the
node is far behind, bans it.  As long as no call meets such a message, the calls of
`ProcessMessage` do not depend on how the stream is cut into chunks.
-/

namespace SocietyGold

open Support

/-! ## The loop over the queue -/

/-- A call of `ProcessMessage`. -/
structure MessageCall where
  strCommand : List UInt8
  vRecv : List UInt8
  deriving DecidableEq, Repr

/-- What such a call does: the state of the node after it, its return value, and whether it
asks to disconnect the peer or bans it.  A call that throws returns false. -/
structure Reaction (σ : Type) where
  world : σ
  fRet : Bool
  fDisconnect : Bool
  banned : Bool

/-- What the handling of messages takes from the rest of the program.  The state of the
node changes with the messages it handles. -/
structure MessageEnv (σ : Type) where
  prims : Primitives
  messageStart : MessageStart
  processMessage : σ → MessageCall → Reaction σ
  /-- `GetTime() - pindexBest->GetBlockTime() > 10000`. -/
  farBehind : σ → Bool

/-- What a call of `ProcessMessages` finds: whether requests for data still wait after
`ProcessGetData`, and whether the send buffer is full in a round of the loop. -/
structure CallInput where
  requestsWaiting : Bool
  sendBufferFull : (round : ℕ) → Bool

/-- The peer and the state of the node that its messages change. -/
structure Peer (σ : Type) where
  vRecvMsg : List CNetMessage
  fDisconnect : Bool
  banned : Bool
  world : σ

/-- What becomes of a complete message before it is handled. -/
inductive Examined
  | invalidStart
  | invalidHeader
  | invalidChecksum
  | handle (call : MessageCall)

/-- The loop returns false, or it is left with a value of `fOk` and a place in the queue. -/
inductive LoopExit
  | returned
  | left (fOk : Bool) (it : List CNetMessage)

section Loop

variable {σ : Type} (env : MessageEnv σ)

def CNetMessage.examine (msg : CNetMessage) : Examined :=
  if msg.hdr.pchMessageStart ≠ env.messageStart.bytes then .invalidStart
  else if !msg.hdr.isValid env.messageStart then .invalidHeader
  else if env.prims.hash (msg.vRecv.take msg.hdr.nMessageSize) % 2 ^ 32 ≠ msg.hdr.nChecksum then
    .invalidChecksum
  else .handle ⟨msg.hdr.getCommand, msg.vRecv⟩

/-- A failed call of `ProcessMessage` counts against the peer, unless the node is far
behind. -/
def MessageEnv.holdsAgainst (reaction : Reaction σ) : Bool :=
  !reaction.fRet && !env.farBehind reaction.world

variable (input : CallInput)

/-- The loop of `ProcessMessages` from a place in the queue, with the calls it makes. -/
def messageLoop :
    (peer : Peer σ) → (round : ℕ) → (it : List CNetMessage) →
      LoopExit × Peer σ × List MessageCall
  | peer, _, [] => (.left true [], peer, [])
  | peer, round, msg :: it =>
      if peer.fDisconnect then (.left true (msg :: it), peer, [])
      else if input.sendBufferFull round then (.left true (msg :: it), peer, [])
      else if !msg.complete then
        (.returned,
          { peer with
            vRecvMsg := msg :: it
            banned := peer.banned || !env.farBehind peer.world
            fDisconnect := true },
          [])
      else
        match msg.examine env with
        | .invalidStart => (.left false it, peer, [])
        | .invalidHeader => messageLoop peer (round + 1) it
        | .invalidChecksum => (.left true it, { peer with fDisconnect := true }, [])
        | .handle call =>
            let reaction := env.processMessage peer.world call
            let peer :=
              { peer with
                world := reaction.world
                fDisconnect := reaction.fDisconnect
                banned := peer.banned || reaction.banned }
            if env.holdsAgainst reaction then
              (.returned, { peer with banned := true, fDisconnect := true }, [call])
            else
              let (exit, peer, calls) := messageLoop peer (round + 1) it
              (exit, peer, call :: calls)

def processMessages (peer : Peer σ) : Bool × Peer σ × List MessageCall :=
  if peer.fDisconnect then (false, peer, [])
  else if input.requestsWaiting then (true, peer, [])
  else
    match messageLoop env input peer 0 peer.vRecvMsg with
    | (.returned, peer, calls) => (false, peer, calls)
    | (.left fOk it, peer, calls) =>
        (fOk, if !peer.fDisconnect then { peer with vRecvMsg := it } else peer, calls)

/-! ## The two threads -/

def closeSocketDisconnect (peer : Peer σ) : Peer σ :=
  { peer with fDisconnect := true, vRecvMsg := [] }

/-- The message handler thread: a call that returns false closes the connection. -/
def handleMessages (peer : Peer σ) : Peer σ × List MessageCall :=
  let (ok, peer, calls) := processMessages env input peer
  (if !ok then closeSocketDisconnect peer else peer, calls)

/-- The socket thread with a chunk. -/
def receiveChunk (peer : Peer σ) (pch : List UInt8) : Peer σ :=
  let (ok, vRecvMsg) := receiveMsgBytes env.messageStart peer.vRecvMsg pch
  let peer := { peer with vRecvMsg := vRecvMsg }
  if !ok then closeSocketDisconnect peer else peer

end Loop

def Peer.fresh {σ : Type} (world : σ) : Peer σ := ⟨[], false, false, world⟩

/-- What happens to a peer in a run. -/
inductive PeerEvent
  | received (pch : List UInt8)
  | invoked (call : MessageCall)

def bytesOf (events : List PeerEvent) : List UInt8 :=
  events.flatMap fun event =>
    match event with
    | .received pch => pch
    | .invoked _ => []

def callsOf (events : List PeerEvent) : List MessageCall :=
  events.filterMap fun event =>
    match event with
    | .received _ => none
    | .invoked call => some call

/-- A chunk is received, or `ProcessMessages` is called under a condition on what it
finds. -/
def PeerStep {σ : Type} (env : MessageEnv σ) (condition : CallInput → Peer σ → Prop)
    (peer : Peer σ) (events : List PeerEvent) (peer' : Peer σ) : Prop :=
  (∃ pch, events = [.received pch] ∧ peer' = receiveChunk env peer pch) ∨
    ∃ input, condition input peer ∧
      events = (handleMessages env input peer).2.map .invoked ∧
      peer' = (handleMessages env input peer).1

/-- A call that nothing holds up. -/
def CallInput.quiet : CallInput := ⟨false, fun _ => false⟩

/-- All bytes arrive at once and `ProcessMessages` is called. -/
def atOnce {σ : Type} (env : MessageEnv σ) (world : σ) (pch : List UInt8) :
    Peer σ × List MessageCall :=
  handleMessages env .quiet (receiveChunk env (Peer.fresh world) pch)

/-! ## Handling without interruption -/

section Delivery

variable {σ : Type} (env : MessageEnv σ)

abbrev MessageEnv.Message := WireMessage env.prims env.messageStart

/-- The call a message makes. -/
def WireMessage.call {prims : Primitives} {messageStart : MessageStart}
    (m : WireMessage prims messageStart) : MessageCall :=
  ⟨m.header.getCommand, m.payload⟩

structure Delivery (σ : Type) where
  calls : List MessageCall
  world : σ
  fDisconnect : Bool
  banned : Bool

/-- The messages handled in turn, until one of them makes the node drop the peer. -/
def deliver : (world : σ) → (msgs : List env.Message) → Delivery σ
  | world, [] => ⟨[], world, false, false⟩
  | world, m :: rest =>
      let reaction := env.processMessage world m.call
      let banned := reaction.banned || env.holdsAgainst reaction
      if reaction.fDisconnect || env.holdsAgainst reaction then
        ⟨[m.call], reaction.world, true, banned⟩
      else
        let later := deliver reaction.world rest
        ⟨m.call :: later.calls, later.world, later.fDisconnect, banned || later.banned⟩

variable {env} {world : σ} {m : env.Message} {msgs : List env.Message}

theorem deliver_cons_of_dropped
    (h : ((env.processMessage world m.call).fDisconnect ||
      env.holdsAgainst (env.processMessage world m.call)) = true) (rest : List env.Message) :
    deliver env world (m :: rest) =
      ⟨[m.call], (env.processMessage world m.call).world, true,
        (env.processMessage world m.call).banned ||
          env.holdsAgainst (env.processMessage world m.call)⟩ := by
  rw [deliver]
  exact if_pos h

theorem deliver_cons_of_kept
    (h : ((env.processMessage world m.call).fDisconnect ||
      env.holdsAgainst (env.processMessage world m.call)) = false) (rest : List env.Message) :
    deliver env world (m :: rest) =
      let later := deliver env (env.processMessage world m.call).world rest
      ⟨m.call :: later.calls, later.world, later.fDisconnect,
        (env.processMessage world m.call).banned || later.banned⟩ := by
  have hAgainst := (Bool.or_eq_false_iff.mp h).2
  rw [deliver]
  refine (if_neg (by rw [h]; exact Bool.false_ne_true)).trans ?_
  rw [hAgainst, Bool.or_false]

theorem deliver_append_of_dropped
    (h : (deliver env world msgs).fDisconnect = true) (rest : List env.Message) :
    deliver env world (msgs ++ rest) = deliver env world msgs := by
  induction msgs generalizing world with
  | nil => cases h
  | cons m msgs ih =>
      cases hDrops : (env.processMessage world m.call).fDisconnect ||
          env.holdsAgainst (env.processMessage world m.call) with
      | true => rw [List.cons_append, deliver_cons_of_dropped hDrops,
          deliver_cons_of_dropped hDrops]
      | false =>
          rw [deliver_cons_of_kept hDrops] at h
          rw [List.cons_append, deliver_cons_of_kept hDrops, deliver_cons_of_kept hDrops, ih h]

theorem deliver_append
    (h : (deliver env world msgs).fDisconnect = false) (rest : List env.Message) :
    deliver env world (msgs ++ rest) =
      let first := deliver env world msgs
      let later := deliver env first.world rest
      ⟨first.calls ++ later.calls, later.world, later.fDisconnect,
        first.banned || later.banned⟩ := by
  induction msgs generalizing world with
  | nil => simp [deliver]
  | cons m msgs ih =>
      cases hDrops : (env.processMessage world m.call).fDisconnect ||
          env.holdsAgainst (env.processMessage world m.call) with
      | true =>
          rw [deliver_cons_of_dropped hDrops] at h
          cases h
      | false =>
          rw [deliver_cons_of_kept hDrops] at h
          rw [List.cons_append, deliver_cons_of_kept hDrops, deliver_cons_of_kept hDrops, ih h]
          simp only [List.cons_append, Bool.or_assoc]

end Delivery

/-! ## Calls that meet no incomplete message -/

section Condition

variable {σ : Type} (env : MessageEnv σ) (input : CallInput)

/-- The loop gets to an incomplete message: the send buffer has room, and every message
before it is skipped or handled without dropping the peer. -/
def reachesIncomplete : (world : σ) → (round : ℕ) → (it : List CNetMessage) → Bool
  | _, _, [] => false
  | world, round, msg :: it =>
      if input.sendBufferFull round then false
      else if !msg.complete then true
      else
        match msg.examine env with
        | .invalidStart => false
        | .invalidHeader => reachesIncomplete world (round + 1) it
        | .invalidChecksum => false
        | .handle call =>
            let reaction := env.processMessage world call
            if reaction.fDisconnect || env.holdsAgainst reaction then false
            else reachesIncomplete reaction.world (round + 1) it

/-- The call is made while a message that has arrived in part is within its reach. -/
def MeetsIncomplete (peer : Peer σ) : Prop :=
  peer.fDisconnect = false ∧ input.requestsWaiting = false ∧
    reachesIncomplete env input peer.world 0 peer.vRecvMsg = true

/-- Calls at the ends of messages meet none. -/
theorem not_meetsIncomplete_of_complete
    {peer : Peer σ} (h : ∀ msg ∈ peer.vRecvMsg, msg.complete = true) :
    ¬MeetsIncomplete env input peer := by
  have hNot : ∀ it : List CNetMessage, (∀ msg ∈ it, msg.complete = true) → ∀ world round,
      reachesIncomplete env input world round it = false := by
    intro it
    induction it with
    | nil => exact fun _ _ _ => rfl
    | cons msg it ih =>
        intro hAll world round
        have hRest := ih fun other hOther => hAll other (List.mem_cons_of_mem _ hOther)
        unfold reachesIncomplete
        rw [hAll msg List.mem_cons_self, Bool.not_true, if_neg Bool.false_ne_true]
        by_cases hFull : input.sendBufferFull round = true
        · exact if_pos hFull
        · rw [if_neg hFull]
          cases msg.examine env with
          | invalidStart => rfl
          | invalidHeader => exact hRest _ _
          | invalidChecksum => rfl
          | handle call =>
              dsimp only
              split_ifs
              · rfl
              · exact hRest _ _
  rintro ⟨-, -, hReaches⟩
  rw [hNot peer.vRecvMsg h] at hReaches
  cases hReaches

end Condition

/-! ## One call -/

section Call

variable {σ : Type} {env : MessageEnv σ} {input : CallInput} {front tail : List CNetMessage}
  {arrived : List env.Message}

/-- A message that has arrived is handled. -/
theorem examine_of_holds
    {msg : CNetMessage} {m : env.Message} (h : msg.Holds m.bytes) :
    msg.examine env = .handle m.call := by
  obtain ⟨-, hHeader, hPayload⟩ := WireMessage.complete_of_holds h
  unfold CNetMessage.examine
  rw [hHeader, hPayload, WireMessage.isValid_header, if_neg (by simp [WireMessage.header]),
    Bool.not_true, if_neg Bool.false_ne_true, if_neg]
  · rfl
  · simp [WireMessage.header]

theorem messageLoop_of_disconnected
    {peer : Peer σ} (h : peer.fDisconnect = true) (round : ℕ) (it : List CNetMessage) :
    messageLoop env input peer round it = (.left true it, peer, []) := by
  cases it with
  | nil => rfl
  | cons msg it =>
      rw [messageLoop]
      exact if_pos h

/-- What the loop has done to the peer when it exits: it has handled some of the messages
that arrived, and has dropped the peer or stands at the next one. -/
structure Handled (peer peer' : Peer σ) (exit : LoopExit) (calls : List MessageCall)
    (it : List CNetMessage) (done : List env.Message) : Prop where
  calls : calls = (deliver env peer.world done).calls
  world : peer'.world = (deliver env peer.world done).world
  fDisconnect : peer'.fDisconnect = (deliver env peer.world done).fDisconnect
  banned : peer'.banned = (peer.banned || (deliver env peer.world done).banned)
  kept : (deliver env peer.world done).fDisconnect = false → exit = .left true it
  dropped : (deliver env peer.world done).fDisconnect = true →
    exit = .returned ∨ ∃ it, exit = .left true it

/-- The peer after a message. -/
def Peer.after (env : MessageEnv σ) (peer : Peer σ) (m : env.Message) : Peer σ :=
  { peer with
    world := (env.processMessage peer.world m.call).world
    fDisconnect := (env.processMessage peer.world m.call).fDisconnect
    banned := peer.banned || (env.processMessage peer.world m.call).banned }

theorem handled_nothing
    {peer : Peer σ} (hConnected : peer.fDisconnect = false) (it : List CNetMessage) :
    Handled peer peer (.left true it) [] it ([] : List env.Message) := by
  constructor
  · rfl
  · rfl
  · exact hConnected
  · exact (Bool.or_false _).symm
  · exact fun _ => rfl
  · intro hDropped
    cases hDropped

variable {peer peer' : Peer σ} {m : env.Message} {exit : LoopExit} {calls : List MessageCall}
  {it : List CNetMessage} {done : List env.Message}

/-- The message drops the peer, and the loop handles none after it. -/
theorem handled_dropped
    (hDrops : ((env.processMessage peer.world m.call).fDisconnect ||
      env.holdsAgainst (env.processMessage peer.world m.call)) = true)
    (hWorld : peer'.world = (env.processMessage peer.world m.call).world)
    (hDropped : peer'.fDisconnect = true)
    (hBanned : peer'.banned = (peer.banned || ((env.processMessage peer.world m.call).banned ||
      env.holdsAgainst (env.processMessage peer.world m.call))))
    (hExit : exit = .returned ∨ ∃ it, exit = .left true it) :
    Handled peer peer' exit [m.call] it [m] := by
  have hDelivery := deliver_cons_of_dropped hDrops []
  constructor
  · rw [hDelivery]
  · rw [hDelivery, hWorld]
  · rw [hDelivery, hDropped]
  · rw [hDelivery, hBanned]
  · intro hKept
    rw [hDelivery] at hKept
    cases hKept
  · exact fun _ => hExit

/-- The message keeps the peer, and the loop goes on. -/
theorem Handled.cons
    (hKept : ((env.processMessage peer.world m.call).fDisconnect ||
      env.holdsAgainst (env.processMessage peer.world m.call)) = false)
    (h : Handled (peer.after env m) peer' exit calls it done) :
    Handled peer peer' exit (m.call :: calls) it (m :: done) := by
  have hDelivery := deliver_cons_of_kept hKept done
  constructor
  · rw [hDelivery, h.calls]
    rfl
  · rw [hDelivery, h.world]
    rfl
  · rw [hDelivery, h.fDisconnect]
    rfl
  · rw [hDelivery, h.banned, Peer.after, Bool.or_assoc]
  · rw [hDelivery]
    exact h.kept
  · rw [hDelivery]
    exact h.dropped

/-- The loop at a message that drops the peer: there are two ways out. -/
theorem messageLoop_of_dropped
    {msg : CNetMessage} (hHolds : msg.Holds m.bytes) {peer : Peer σ}
    (hConnected : peer.fDisconnect = false) {round : ℕ}
    (hRoom : ¬input.sendBufferFull round = true)
    (hDrops : ((env.processMessage peer.world m.call).fDisconnect ||
      env.holdsAgainst (env.processMessage peer.world m.call)) = true)
    (rest : List CNetMessage) :
    ∃ exit peer', messageLoop env input peer round (msg :: rest) = (exit, peer', [m.call]) ∧
      Handled peer peer' exit [m.call] it [m] ∧ peer'.fDisconnect = true := by
  obtain ⟨hComplete, -⟩ := WireMessage.complete_of_holds hHolds
  rw [messageLoop, hConnected, if_neg Bool.false_ne_true, if_neg hRoom, hComplete,
    Bool.not_true, if_neg Bool.false_ne_true, examine_of_holds hHolds]
  dsimp only
  cases hAgainst : env.holdsAgainst (env.processMessage peer.world m.call) with
  | true =>
      rw [if_pos rfl]
      refine ⟨_, _, rfl, handled_dropped hDrops rfl rfl ?_ (.inl rfl), rfl⟩
      rw [hAgainst, Bool.or_true, Bool.or_true]
  | false =>
      have hDisconnect : (env.processMessage peer.world m.call).fDisconnect = true := by
        rwa [hAgainst, Bool.or_false] at hDrops
      rw [if_neg Bool.false_ne_true, messageLoop_of_disconnected hDisconnect]
      refine ⟨_, _, rfl, handled_dropped hDrops rfl hDisconnect ?_ (.inr ⟨_, rfl⟩), hDisconnect⟩
      rw [hAgainst, Bool.or_false]

/-- The loop over messages that have arrived, with at most one incomplete message after
them. -/
theorem messageLoop_arrived
    (hFront : Arrived front arrived)
    (hTail : tail = [] ∨ ∃ msg : CNetMessage, tail = [msg] ∧ msg.complete = false)
    {peer : Peer σ} (hConnected : peer.fDisconnect = false) (round : ℕ)
    (hNot : reachesIncomplete env input peer.world round (front ++ tail) = false) :
    ∃ done rest exit peer' calls, arrived = done ++ rest ∧
      messageLoop env input peer round (front ++ tail) = (exit, peer', calls) ∧
      Handled peer peer' exit calls ((front ++ tail).drop done.length) done ∧
      ((∀ k, input.sendBufferFull k = false) → peer'.fDisconnect = false → rest = []) := by
  induction hFront generalizing peer round with
  | nil =>
      rcases hTail with rfl | ⟨msg, rfl, hCut⟩
      · exact ⟨[], [], _, peer, [], rfl, rfl, handled_nothing hConnected [], fun _ _ => rfl⟩
      · refine ⟨[], [], _, peer, [], rfl, ?_, handled_nothing hConnected [msg], fun _ _ => rfl⟩
        rw [List.nil_append, reachesIncomplete, hCut] at hNot
        rw [List.nil_append, messageLoop, hConnected, if_neg Bool.false_ne_true]
        by_cases hFull : input.sendBufferFull round = true
        · exact if_pos hFull
        · rw [if_neg hFull] at hNot
          cases hNot
  | @cons msg m front arrived hHolds hFront ih =>
      obtain ⟨hComplete, -⟩ := WireMessage.complete_of_holds hHolds
      rw [List.cons_append, reachesIncomplete, hComplete, examine_of_holds hHolds] at hNot
      by_cases hFull : input.sendBufferFull round = true
      · refine ⟨[], m :: arrived, _, peer, [], rfl, ?_, handled_nothing hConnected _, ?_⟩
        · rw [List.cons_append, messageLoop, hConnected, if_neg Bool.false_ne_true, if_pos hFull]
          rfl
        · intro hNever
          rw [hNever] at hFull
          cases hFull
      · cases hDrops : (env.processMessage peer.world m.call).fDisconnect ||
            env.holdsAgainst (env.processMessage peer.world m.call) with
        | true =>
            obtain ⟨exit, peer', hLoop, hHandled, hDropped⟩ :=
              messageLoop_of_dropped hHolds hConnected hFull hDrops (front ++ tail)
            refine ⟨[m], arrived, exit, peer', [m.call], rfl, hLoop, hHandled, fun _ hKept => ?_⟩
            exact absurd (hKept.symm.trans hDropped) Bool.false_ne_true
        | false =>
            obtain ⟨hDisconnect, hAgainst⟩ := Bool.or_eq_false_iff.mp hDrops
            rw [if_neg hFull, Bool.not_true, if_neg Bool.false_ne_true] at hNot
            dsimp only at hNot
            rw [hDrops, if_neg Bool.false_ne_true] at hNot
            obtain ⟨done, rest, exit, peer', calls, rfl, hLoop, hHandled, hAll⟩ :=
              @ih (peer.after env m) hDisconnect (round + 1) hNot
            refine ⟨m :: done, rest, exit, peer', m.call :: calls, rfl, ?_, hHandled.cons hDrops,
              hAll⟩
            rw [List.cons_append, messageLoop, hConnected, if_neg Bool.false_ne_true,
              if_neg hFull, hComplete, Bool.not_true, if_neg Bool.false_ne_true,
              examine_of_holds hHolds]
            dsimp only
            unfold Peer.after at hLoop
            rw [hAgainst, if_neg Bool.false_ne_true, hLoop]

/-- What is left of the queue when some of the messages that have arrived are taken from
it. -/
theorem drop_handled
    {rest : List env.Message} (hFront : Arrived front (done ++ rest)) :
    (front ++ tail).drop done.length = front.drop done.length ++ tail ∧
      Arrived (front.drop done.length) rest := by
  have hLength : done.length ≤ front.length := by
    rw [hFront.length_eq, List.length_append]
    omega
  have hDrop := List.forall₂_drop done.length hFront
  rw [List.drop_left] at hDrop
  exact ⟨List.drop_append_of_le_length hLength, hDrop⟩

/-- A call of the message handler thread that meets no incomplete message: it handles some
of the messages that have arrived, and all of them when nothing holds it up. -/
theorem handleMessages_of_waits
    {msgs : List env.Message} {received : List UInt8} (hWaits : Waits peer.vRecvMsg msgs received)
    (hConnected : peer.fDisconnect = false) (hMeets : ¬MeetsIncomplete env input peer) :
    ∃ done rest received', msgs = done ++ rest ∧
      received = WireMessage.stream done ++ received' ∧
      (handleMessages env input peer).2 = (deliver env peer.world done).calls ∧
      (handleMessages env input peer).1.world = (deliver env peer.world done).world ∧
      (handleMessages env input peer).1.fDisconnect =
        (deliver env peer.world done).fDisconnect ∧
      (handleMessages env input peer).1.banned =
        (peer.banned || (deliver env peer.world done).banned) ∧
      ((deliver env peer.world done).fDisconnect = false →
        Waits (handleMessages env input peer).1.vRecvMsg rest received' ∧
        (input = .quiet →
          ∀ msg ∈ (handleMessages env input peer).1.vRecvMsg, msg.complete = false)) := by
  unfold handleMessages processMessages
  rw [hConnected, if_neg Bool.false_ne_true]
  by_cases hRequests : input.requestsWaiting = true
  · rw [if_pos hRequests]
    refine ⟨[], msgs, received, rfl, rfl, rfl, rfl, hConnected, (Bool.or_false _).symm,
      fun _ => ⟨hWaits, ?_⟩⟩
    rintro rfl
    cases hRequests
  · rw [if_neg hRequests]
    obtain ⟨front, tail, arrived, later, cut, hQueue, hFront, hTail, hMsgs, hReceived, hAfter⟩ :=
      hWaits.exists_split
    have hNot : reachesIncomplete env input peer.world 0 (front ++ tail) = false := by
      rw [← hQueue]
      by_contra hReaches
      exact hMeets ⟨hConnected, by simpa using hRequests, by simpa using hReaches⟩
    obtain ⟨done, rest, exit, peer', calls, rfl, hLoop, hHandled, hQuiet⟩ :=
      messageLoop_arrived hFront hTail hConnected 0 hNot
    rw [hQueue, hLoop]
    refine ⟨done, rest ++ later, WireMessage.stream rest ++ cut, ?_, ?_, ?_⟩
    · rw [hMsgs, List.append_assoc]
    · rw [hReceived, WireMessage.stream_append, List.append_assoc]
    · cases hDropped : (deliver env peer.world done).fDisconnect with
      | true =>
          have hGone : peer'.fDisconnect = true := hHandled.fDisconnect.trans hDropped
          rcases hHandled.dropped hDropped with rfl | ⟨it, rfl⟩
          · exact ⟨hHandled.calls, hHandled.world, rfl, hHandled.banned,
              fun hKept => by cases hKept⟩
          · dsimp only
            rw [hGone]
            exact ⟨hHandled.calls, hHandled.world, hGone, hHandled.banned,
              fun hKept => by cases hKept⟩
      | false =>
          have hStays : peer'.fDisconnect = false := hHandled.fDisconnect.trans hDropped
          obtain rfl := hHandled.kept hDropped
          dsimp only
          rw [hStays]
          refine ⟨hHandled.calls, hHandled.world, rfl, hHandled.banned, fun _ => ?_⟩
          obtain ⟨hLeft, hRest⟩ := drop_handled hFront
          rw [hLeft]
          refine ⟨hAfter _ _ hRest, ?_⟩
          rintro rfl msg hMem
          obtain rfl := hQuiet (fun _ => rfl) hStays
          rw [List.forall₂_nil_right_iff.mp hRest, List.nil_append] at hMem
          rcases hTail with rfl | ⟨last, rfl, hCut⟩
          · cases hMem
          · rw [List.mem_singleton.mp hMem]
            exact hCut

end Call

/-! ## Runs -/

section Run

variable {σ : Type} {env : MessageEnv σ} {world : σ} {msgs : List env.Message}

/-- When all bytes arrive at once, the messages are handled in turn. -/
theorem atOnce_eq_deliver (world : σ) (msgs : List env.Message) :
    (atOnce env world (WireMessage.stream msgs)).2 = (deliver env world msgs).calls ∧
      (atOnce env world (WireMessage.stream msgs)).1.fDisconnect =
        (deliver env world msgs).fDisconnect ∧
      (atOnce env world (WireMessage.stream msgs)).1.banned =
        (deliver env world msgs).banned := by
  obtain ⟨queue, hReceive, hWaits⟩ := waits_receiveMsgBytes (waits_nil msgs)
    (by rw [List.nil_append])
  have hArrived : Arrived queue msgs := hWaits.all_arrived (List.nil_append _)
  have hPeer : receiveChunk env (Peer.fresh world) (WireMessage.stream msgs) =
      ⟨queue, false, false, world⟩ := by
    unfold receiveChunk Peer.fresh
    dsimp only
    rw [hReceive]
    rfl
  have hMeets : ¬MeetsIncomplete env .quiet (⟨queue, false, false, world⟩ : Peer σ) :=
    not_meetsIncomplete_of_complete env .quiet (complete_of_arrived hArrived)
  obtain ⟨done, rest, received, hMsgs, hReceived, hCalls, -, hDisconnect, hBanned, hAfter⟩ :=
    handleMessages_of_waits hWaits rfl hMeets
  unfold atOnce
  rw [hPeer, hCalls, hDisconnect, hBanned, Bool.false_or, hMsgs]
  dsimp only
  cases hDropped : (deliver env world done).fDisconnect with
  | true =>
      rw [deliver_append_of_dropped hDropped rest, hDropped]
      exact ⟨rfl, rfl, rfl⟩
  | false =>
      obtain ⟨hWaits', hRest⟩ := hAfter hDropped
      have hBytes : received = WireMessage.stream rest := by
        rw [List.nil_append, hMsgs, WireMessage.stream_append] at hReceived
        exact (List.append_cancel_left hReceived).symm
      -- a message that has arrived is complete, so none is left
      have hLeft := hWaits'.all_arrived hBytes
      have hEmpty : rest = [] := by
        cases hQueue : (handleMessages env .quiet
            (⟨queue, false, false, world⟩ : Peer σ)).1.vRecvMsg with
        | nil =>
            rw [hQueue] at hLeft
            exact List.forall₂_nil_left_iff.mp hLeft
        | cons msg it =>
            have hMem : msg ∈ (handleMessages env .quiet
                (⟨queue, false, false, world⟩ : Peer σ)).1.vRecvMsg := by
              rw [hQueue]
              exact List.mem_cons_self
            exact absurd ((complete_of_arrived hLeft msg hMem).symm.trans (hRest rfl msg hMem))
              Bool.false_ne_true.symm
      rw [hEmpty, List.append_nil, hDropped]
      exact ⟨rfl, rfl, rfl⟩

/-- What a run has done: some of the messages are handled, and the bytes received of the
others are in the queue, unless the peer is dropped. -/
def Follows (world : σ) (msgs : List env.Message) (events : List PeerEvent) (peer : Peer σ) :
    Prop :=
  ∃ done rest, msgs = done ++ rest ∧
    deliver env world done = ⟨callsOf events, peer.world, peer.fDisconnect, peer.banned⟩ ∧
    (peer.fDisconnect = false → ∃ received,
      bytesOf events = WireMessage.stream done ++ received ∧ Waits peer.vRecvMsg rest received)

variable {events : List PeerEvent} {peer : Peer σ}

theorem bytesOf_append (events events' : List PeerEvent) :
    bytesOf (events ++ events') = bytesOf events ++ bytesOf events' := List.flatMap_append

theorem callsOf_append (events events' : List PeerEvent) :
    callsOf (events ++ events') = callsOf events ++ callsOf events' := List.filterMap_append

theorem bytesOf_invoked (calls : List MessageCall) : bytesOf (calls.map .invoked) = [] := by
  induction calls with
  | nil => rfl
  | cons call calls ih => exact ih

theorem callsOf_invoked (calls : List MessageCall) : callsOf (calls.map .invoked) = calls := by
  induction calls with
  | nil => rfl
  | cons call calls ih => exact congrArg (call :: ·) ih

theorem follows_fresh : Follows world msgs [] (Peer.fresh world) :=
  ⟨[], msgs, rfl, rfl, fun _ => ⟨[], rfl, waits_nil msgs⟩⟩

/-- A chunk of the stream goes into the queue. -/
theorem Follows.receive
    {pch : List UInt8} (h : Follows world msgs events peer)
    (hBytes : bytesOf (events ++ [.received pch]) <+: WireMessage.stream msgs) :
    Follows world msgs (events ++ [.received pch]) (receiveChunk env peer pch) := by
  obtain ⟨done, rest, rfl, hDelivery, hQueue⟩ := h
  have hCalls : callsOf (events ++ [.received pch]) = callsOf events := by
    rw [callsOf_append]
    exact List.append_nil _
  have hNew : bytesOf (events ++ [.received pch]) = bytesOf events ++ pch := by
    rw [bytesOf_append]
    exact congrArg (bytesOf events ++ ·) (List.append_nil pch)
  cases hConnected : peer.fDisconnect with
  | true =>
      have hGone : (receiveChunk env peer pch).world = peer.world ∧
          (receiveChunk env peer pch).fDisconnect = true ∧
          (receiveChunk env peer pch).banned = peer.banned := by
        unfold receiveChunk
        dsimp only
        split_ifs
        · exact ⟨rfl, rfl, rfl⟩
        · exact ⟨rfl, hConnected, rfl⟩
      obtain ⟨hWorld, hDropped, hBanned⟩ := hGone
      refine ⟨done, rest, rfl, ?_, fun hKept => ?_⟩
      · rw [hDelivery, hCalls, hWorld, hDropped, hBanned, hConnected]
      · rw [hDropped] at hKept
        cases hKept
  | false =>
      obtain ⟨received, hReceived, hWaits⟩ := hQueue hConnected
      have hStream : received ++ pch <+: WireMessage.stream rest := by
        rw [hNew, hReceived, WireMessage.stream_append, List.append_assoc] at hBytes
        exact (List.prefix_append_right_inj _).mp hBytes
      obtain ⟨queue, hReceive, hWaits'⟩ := waits_receiveMsgBytes hWaits hStream
      have hPeer : receiveChunk env peer pch = { peer with vRecvMsg := queue } := by
        unfold receiveChunk
        rw [hReceive]
        rfl
      rw [hPeer]
      refine ⟨done, rest, rfl, ?_, fun _ => ⟨received ++ pch, ?_, hWaits'⟩⟩
      · rw [hDelivery, hCalls]
      · rw [hNew, hReceived, List.append_assoc]

/-- A call that meets no incomplete message handles the next ones. -/
theorem Follows.handle
    {input : CallInput} (h : Follows world msgs events peer)
    (hMeets : ¬MeetsIncomplete env input peer) :
    Follows world msgs (events ++ (handleMessages env input peer).2.map .invoked)
      (handleMessages env input peer).1 := by
  obtain ⟨done, rest, rfl, hDelivery, hQueue⟩ := h
  unfold Follows
  rw [callsOf_append, callsOf_invoked, bytesOf_append, bytesOf_invoked, List.append_nil]
  cases hConnected : peer.fDisconnect with
  | true =>
      have hGone : handleMessages env input peer = (closeSocketDisconnect peer, []) := by
        unfold handleMessages processMessages
        rw [hConnected]
        rfl
      rw [hGone]
      refine ⟨done, rest, rfl, ?_, fun hKept => by cases hKept⟩
      rw [hDelivery, hConnected]
      simp [closeSocketDisconnect]
  | false =>
      obtain ⟨received, hReceived, hWaits⟩ := hQueue hConnected
      obtain ⟨now, later, received', rfl, rfl, hCalls, hWorld, hDropped, hBanned, hAfter⟩ :=
        handleMessages_of_waits hWaits hConnected hMeets
      have hKeeps : (deliver env world done).fDisconnect = false := by
        rw [hDelivery]
        exact hConnected
      refine ⟨done ++ now, later, (List.append_assoc _ _ _).symm, ?_, fun hStays => ?_⟩
      · rw [deliver_append hKeeps, hDelivery, hCalls, hWorld, hDropped, hBanned]
      · rw [hDropped] at hStays
        refine ⟨received', ?_, (hAfter hStays).1⟩
        rw [hReceived, WireMessage.stream_append, List.append_assoc]

/-- What a run has to share with the handling of all bytes at once: a peer that is
disconnected or banned would be so anyway, and the calls are the same as far as they go, and
all of them when nothing is left to handle. -/
structure SameHandling (env : MessageEnv σ) (world : σ) (stream : List UInt8)
    (events : List PeerEvent) (peer : Peer σ) : Prop where
  fDisconnect : peer.fDisconnect = true → (atOnce env world stream).1.fDisconnect = true
  banned : peer.banned = true → (atOnce env world stream).1.banned = true
  calls : callsOf events <+: (atOnce env world stream).2
  settled : peer.fDisconnect = true ∨ (bytesOf events = stream ∧ peer.vRecvMsg = []) →
    callsOf events = (atOnce env world stream).2 ∧
      peer.fDisconnect = (atOnce env world stream).1.fDisconnect ∧
      peer.banned = (atOnce env world stream).1.banned

theorem Follows.sameHandling
    (h : Follows world msgs events peer) :
    SameHandling env world (WireMessage.stream msgs) events peer := by
  obtain ⟨done, rest, rfl, hDelivery, hQueue⟩ := h
  obtain ⟨hCalls, hDropped, hBanned⟩ := atOnce_eq_deliver world (done ++ rest)
  cases hConnected : peer.fDisconnect with
  | true =>
      have hKeeps : (deliver env world done).fDisconnect = true := by
        rw [hDelivery]
        exact hConnected
      rw [deliver_append_of_dropped hKeeps, hDelivery] at hCalls hDropped hBanned
      constructor
      · exact fun _ => hDropped.trans hConnected
      · exact fun hBan => hBanned.trans hBan
      · rw [hCalls]
      · exact fun _ =>
          ⟨hCalls.symm, hConnected.trans (hDropped.trans hConnected).symm, hBanned.symm⟩
  | false =>
      have hKeeps : (deliver env world done).fDisconnect = false := by
        rw [hDelivery]
        exact hConnected
      rw [deliver_append hKeeps, hDelivery] at hCalls hDropped hBanned
      obtain ⟨received, hReceived, hWaits⟩ := hQueue hConnected
      constructor
      · intro hGone
        rw [hConnected] at hGone
        cases hGone
      · intro hBan
        rw [hBanned, hBan]
        rfl
      · rw [hCalls]
        exact List.prefix_append _ _
      · rintro (hGone | ⟨hAll, hEmpty⟩)
        · rw [hConnected] at hGone
          cases hGone
        · -- the queue is empty after the last byte, so every message is handled
          have hRest : received = WireMessage.stream rest := by
            rw [hReceived, WireMessage.stream_append] at hAll
            exact List.append_cancel_left hAll
          have hArrived := hWaits.all_arrived hRest
          rw [hEmpty] at hArrived
          obtain rfl := List.forall₂_nil_left_iff.mp hArrived
          rw [hCalls, hDropped, hBanned, hConnected]
          simp [deliver]

/-- However the stream is cut into chunks, a run whose calls meet no incomplete message
handles the messages as when all bytes arrive at once. -/
theorem fragmentation_independent
    (hBytes : bytesOf events <+: WireMessage.stream msgs)
    (hRun : Trace (PeerStep env fun input peer => ¬MeetsIncomplete env input peer)
      (Peer.fresh world) events peer) :
    SameHandling env world (WireMessage.stream msgs) events peer := by
  have hFollows : bytesOf events <+: WireMessage.stream msgs → Follows world msgs events peer := by
    refine Trace.invariant (I := fun events peer =>
      bytesOf events <+: WireMessage.stream msgs → Follows world msgs events peer)
      (fun _ => follows_fresh) ?_ hRun
    intro events peer new peer' hInv hStep hBytes'
    have hBefore : bytesOf events <+: WireMessage.stream msgs := by
      rw [bytesOf_append] at hBytes'
      exact (List.prefix_append _ _).trans hBytes'
    rcases hStep with ⟨pch, rfl, rfl⟩ | ⟨input, hMeets, rfl, rfl⟩
    · exact (hInv hBefore).receive hBytes'
    · exact (hInv hBefore).handle hMeets
  exact (hFollows hBytes).sameHandling

end Run

/-! ## A message in two chunks -/

namespace Sample

/-- A node that counts the messages it handles. -/
def counting : MessageEnv ℕ where
  prims := prims
  messageStart := ⟨[0xa3, 0xd5, 0xc2, 0xf9], rfl⟩
  processMessage count _ := ⟨count + 1, true, false, false⟩
  farBehind _ := false

def ping : counting.Message where
  pchCommand := [0x70, 0x69, 0x6e, 0x67, 0, 0, 0, 0, 0, 0, 0, 0]
  payload := [1, 2, 3, 4, 5, 6, 7, 8]
  length_pchCommand := rfl
  commandIsValid := by decide
  size_le := by decide

def firstChunk : List UInt8 := ping.bytes.take 10

def secondChunk : List UInt8 := ping.bytes.drop 10

/-- The peer after the first chunk. -/
def cutPeer : Peer ℕ := receiveChunk counting (Peer.fresh 0) firstChunk

theorem chunks_of_ping : firstChunk ++ secondChunk = WireMessage.stream [ping] := by
  decide +kernel

/-- A call between the two chunks disconnects and bans the peer. -/
theorem cut_message_drops_peer :
    ∃ events peer,
      Trace (PeerStep counting fun _ _ => True) (Peer.fresh 0) events peer ∧
      bytesOf events = WireMessage.stream [ping] ∧
      (peer.fDisconnect = true ∧ peer.banned = true ∧ callsOf events = []) ∧
      (atOnce counting 0 (WireMessage.stream [ping])).2 = [ping.call] ∧
      ¬SameHandling counting 0 (WireMessage.stream [ping]) events peer := by
  have hFirst : PeerStep counting (fun _ _ => True) (Peer.fresh 0) [.received firstChunk]
      cutPeer := .inl ⟨firstChunk, rfl, rfl⟩
  have hCall : PeerStep counting (fun _ _ => True) cutPeer
      ((handleMessages counting .quiet cutPeer).2.map .invoked)
      (handleMessages counting .quiet cutPeer).1 := .inr ⟨.quiet, trivial, rfl, rfl⟩
  have hSecond : PeerStep counting (fun _ _ => True) (handleMessages counting .quiet cutPeer).1
      [.received secondChunk]
      (receiveChunk counting (handleMessages counting .quiet cutPeer).1 secondChunk) :=
    .inl ⟨secondChunk, rfl, rfl⟩
  have hNone : (handleMessages counting .quiet cutPeer).2 = [] := by decide +kernel
  have hGone : (receiveChunk counting (handleMessages counting .quiet cutPeer).1
      secondChunk).fDisconnect = true := by decide +kernel
  refine ⟨_, _, ((Trace.start.next hFirst).next hCall).next hSecond, ?_, ⟨hGone, ?_, ?_⟩, ?_, ?_⟩
  · rw [hNone]
    exact chunks_of_ping
  · decide +kernel
  · rw [hNone]
    rfl
  · decide +kernel
  · intro hSame
    have hStays : (atOnce counting 0 (WireMessage.stream [ping])).1.fDisconnect = false := by
      decide +kernel
    exact absurd (hStays.symm.trans (hSame.fDisconnect hGone)) Bool.false_ne_true

/-- Without a call between the chunks the message is handled. -/
theorem cut_message_handled :
    SameHandling counting 0 (WireMessage.stream [ping])
      ([.received firstChunk] ++ [.received secondChunk] ++ [.invoked ping.call])
      (handleMessages counting .quiet (receiveChunk counting cutPeer secondChunk)).1 := by
  have hFirst : PeerStep counting (fun input peer => ¬MeetsIncomplete counting input peer)
      (Peer.fresh 0) [.received firstChunk] cutPeer := .inl ⟨firstChunk, rfl, rfl⟩
  have hSecond : PeerStep counting (fun input peer => ¬MeetsIncomplete counting input peer)
      cutPeer [.received secondChunk] (receiveChunk counting cutPeer secondChunk) :=
    .inl ⟨secondChunk, rfl, rfl⟩
  have hMeets : ¬MeetsIncomplete counting .quiet (receiveChunk counting cutPeer secondChunk) := by
    apply not_meetsIncomplete_of_complete
    decide +kernel
  have hCall : PeerStep counting (fun input peer => ¬MeetsIncomplete counting input peer)
      (receiveChunk counting cutPeer secondChunk) [.invoked ping.call]
      (handleMessages counting .quiet (receiveChunk counting cutPeer secondChunk)).1 := by
    refine .inr ⟨.quiet, hMeets, ?_, rfl⟩
    have hCalls : (handleMessages counting .quiet (receiveChunk counting cutPeer secondChunk)).2 =
        [ping.call] := by decide +kernel
    rw [hCalls]
    rfl
  refine fragmentation_independent ?_ (((Trace.start.next hFirst).next hSecond).next hCall)
  rw [← chunks_of_ping]
  decide +kernel

end Sample

end SocietyGold
