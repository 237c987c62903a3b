import SocietyGold.Compact
import SocietyGold.CompactSizes
import SocietyGold.MessageStream
import SocietyGold.SecureMsgBuckets
import SocietyGold.Support.KeyedQueue

/-!
# The queue of outgoing messages

`SecureMsgSend` writes the encrypted message to the message database, and the proof of work
thread takes it from there.  The key of the record has the time of the message in seconds and
eight bytes for the payload, which are copied from the pointer `pPayload` and not from the
bytes it points to: they are an address, free again when the call returns.  A record stays in
the queue until its message has been hashed as long as no other record is written to its key.
-/

namespace SocietyGold

open Support CBigNum Relation

/-! ## Messages -/

structure SecMsgStored where
  timeReceived : ℤ
  sAddrTo : String
  /-- The header and the encrypted payload. -/
  vchMessage : List UInt8
  deriving DecidableEq, Repr

/-- A record of the queue, with the number of the call that wrote it.  The number stands for
the message; nothing reads it. -/
structure QueuedSmsg where
  call : ℕ
  stored : SecMsgStored
  deriving DecidableEq, Repr

/-- A call of `SecureMsgSend` that has encrypted its message. -/
structure SmsgSend where
  addressTo : String
  smsg : {r : SmsgRecord // r.WellFormed}
  /-- The address of the payload. -/
  pPayload : UInt64
  /-- The address of the payload of `smsgForOutbox`. -/
  outbox : Option UInt64
  /-- The call has had its attempt to write the record. -/
  fAttempted : Bool

namespace SmsgSend

/-- The addresses that the call has allocated. -/
def buffers (call : SmsgSend) : List UInt64 := call.pPayload :: call.outbox.toList

/-- `chKey`: the prefix `qm`, the field `timestamp`, and the variable `pPayload`. -/
def keyBytes (call : SmsgSend) : List UInt8 :=
  [0x71, 0x6d] ++ (call.smsg.1.header.drop 7).take 8 ++ toBytesLE 8 call.pPayload.toNat

/-- The database orders the keys by their bytes; those of one length have the order of the
numbers they make. -/
def chKey (call : SmsgSend) : ℕ := fromBytesBE call.keyBytes

/-- `smsgSQ`. -/
def toStored (call : SmsgSend) (now : ℤ) : SecMsgStored :=
  ⟨now, call.addressTo, call.smsg.1.bytes⟩

end SmsgSend

/-! ## Steps -/

/-- The calls of `SecureMsgSend` that have not returned, the database with the proof of work
thread, and the message store.  The thread works on a message when it calls
`SecureMsgSetHash`. -/
structure SmsgQueue where
  calls : Table ℕ SmsgSend
  nextCall : ℕ
  queue : KeyedQueue ℕ QueuedSmsg
  /-- The message for which `SecureMsgSetHash` has returned 0, until it is stored. -/
  hashed : Option SmsgRecord
  store : SmsgStore

namespace SmsgQueue

def start (store : SmsgStore) : SmsgQueue := ⟨∅, 0, .empty, none, store⟩

/-- The addresses in use for payloads. -/
def inUse (s : SmsgQueue) : List UInt64 := s.calls.entries.flatMap fun e => e.2.buffers

def setCall (n : ℕ) (call : SmsgSend) (s : SmsgQueue) : SmsgQueue :=
  { s with calls := s.calls.insert n call }

/-- `SecureMsgEncrypt` for the recipient. -/
def encrypt (addressTo : String) (smsg : {r : SmsgRecord // r.WellFormed}) (pPayload : UInt64)
    (s : SmsgQueue) : SmsgQueue :=
  { s with
    calls := s.calls.insert s.nextCall ⟨addressTo, smsg, pPayload, none, false⟩
    nextCall := s.nextCall + 1 }

/-- The call after its attempt to write. -/
def attempted (n : ℕ) (call : SmsgSend) (s : SmsgQueue) : SmsgQueue :=
  s.setCall n { call with fAttempted := true }

/-- `WriteSmesg`. -/
def writeSmesg (n : ℕ) (call : SmsgSend) (now : ℤ) (s : SmsgQueue) : SmsgQueue :=
  { s.attempted n call with queue := s.queue.put call.chKey ⟨n, call.toStored now⟩ }

/-- The end of a call, which frees its payload. -/
def returns (n : ℕ) (s : SmsgQueue) : SmsgQueue := { s with calls := s.calls.erase n }

/-- The message of a record with a nonse and a hash that fit. -/
def withHash (hash nonse : List UInt8) (stored : SecMsgStored) : SmsgRecord :=
  let pHeader := stored.vchMessage.take SMSG_HDR_LEN
  ⟨overwrite (overwrite pHeader 96 nonse) 0 hash,
    (stored.vchMessage.drop SMSG_HDR_LEN).take (SecureMessage.ofBytes pHeader).nPayload⟩

/-- `SecureMsgStore`. -/
def storeHashed (now : ℤ) (r : SmsgRecord) (s : SmsgQueue) : SmsgQueue :=
  { s with
    hashed := none
    store := (secureMsgStore now r.header r.payload true s.store).2 }

/-- The node stops, and starts again with the records of the database. -/
def restart (now : ℤ) (s : SmsgQueue) : SmsgQueue :=
  { s with
    calls := ∅
    queue := s.queue.close
    hashed := none
    store := secureMsgBuildBucketSet now s.store.files }

end SmsgQueue

section Step

variable (condition : SmsgQueue → SmsgSend → Prop)

/-- A step of a call or of the thread.  A record is written under the condition; the allocator
returns any address that is not in use. -/
inductive QueueStep : SmsgQueue → SmsgQueue → Prop
  | encrypt {s : SmsgQueue} {addressTo : String} {smsg : {r : SmsgRecord // r.WellFormed}}
      {pPayload : UInt64} (hAddress : pPayload ∉ s.inUse) :
      QueueStep s (s.encrypt addressTo smsg pPayload)
  | writeSmesg {s : SmsgQueue} {n : ℕ} {call : SmsgSend} {now : ℤ}
      (hCall : s.calls.lookup n = some call) (hOnce : call.fAttempted = false)
      (hCondition : condition s call) : QueueStep s (s.writeSmesg n call now)
  | writeFails {s : SmsgQueue} {n : ℕ} {call : SmsgSend}
      (hCall : s.calls.lookup n = some call) (hOnce : call.fAttempted = false) :
      QueueStep s (s.attempted n call)
  | encryptOutbox {s : SmsgQueue} {n : ℕ} {call : SmsgSend} {pPayload : UInt64}
      (hCall : s.calls.lookup n = some call) (hAttempted : call.fAttempted = true)
      (hNone : call.outbox = none) (hAddress : pPayload ∉ s.inUse) :
      QueueStep s (s.setCall n { call with outbox := some pPayload })
  | freeOutbox {s : SmsgQueue} {n : ℕ} {call : SmsgSend}
      (hCall : s.calls.lookup n = some call) :
      QueueStep s (s.setCall n { call with outbox := none })
  | returns {s : SmsgQueue} (n : ℕ) : QueueStep s (s.returns n)
  | newIterator {s : SmsgQueue} (hIdle : s.queue.consumer = .idle) :
      QueueStep s { s with queue := s.queue.openSnapshot }
  | nextSmesg {s : SmsgQueue} {rest : List (ℕ × QueuedSmsg)}
      (hReading : s.queue.consumer = .reading rest) (hStored : s.hashed = none) :
      QueueStep s { s with queue := s.queue.fetch rest }
  | nextFails {s : SmsgQueue} {rest : List (ℕ × QueuedSmsg)}
      (hReading : s.queue.consumer = .reading rest) (hStored : s.hashed = none) :
      QueueStep s { s with queue := s.queue.close }
  | setHash {s : SmsgQueue} {entry : ℕ × QueuedSmsg} {rest : List (ℕ × QueuedSmsg)}
      {hash nonse : List UInt8} (hFetched : s.queue.consumer = .fetched entry rest)
      (hHash : hash.length = 4) (hNonse : nonse.length = 4) :
      QueueStep s { s with
        queue := s.queue.work entry rest
        hashed := some (SmsgQueue.withHash hash nonse entry.2.stored) }
  | setHashFails {s : SmsgQueue} {entry : ℕ × QueuedSmsg} {rest : List (ℕ × QueuedSmsg)}
      (hFetched : s.queue.consumer = .fetched entry rest) :
      QueueStep s { s with queue := s.queue.work entry rest }
  | setHashStopped {s : SmsgQueue} {entry : ℕ × QueuedSmsg} {rest : List (ℕ × QueuedSmsg)}
      (hFetched : s.queue.consumer = .fetched entry rest) :
      QueueStep s { s with queue := (s.queue.work entry rest).close }
  | eraseSmesg {s : SmsgQueue} {entry : ℕ × QueuedSmsg} {rest : List (ℕ × QueuedSmsg)}
      (fErased : Bool) (hWorked : s.queue.consumer = .worked entry rest) :
      QueueStep s { s with queue := s.queue.finish fErased entry rest }
  | storeHashed {s : SmsgQueue} {rest : List (ℕ × QueuedSmsg)} {r : SmsgRecord} {now : ℤ}
      (hReading : s.queue.consumer = .reading rest) (hHashed : s.hashed = some r) :
      QueueStep s (s.storeHashed now r)
  | restart {s : SmsgQueue} {now : ℤ} : QueueStep s (s.restart now)

end Step

/-- No record of the queue has the key that the call writes to. -/
def FreeKey (s : SmsgQueue) (call : SmsgSend) : Prop := s.queue.table.lookup call.chKey = none

instance (s : SmsgQueue) (call : SmsgSend) : Decidable (FreeKey s call) :=
  inferInstanceAs (Decidable (_ = none))

/-! ## The numbers of the calls -/

/-- A record has the number of a call that has made its only attempt to write, and no two
records have the same. -/
structure SmsgQueue.Numbered (s : SmsgQueue) : Prop where
  calls_lt : ∀ n call, s.calls.lookup n = some call → n < s.nextCall
  written_lt : ∀ m ∈ s.queue.written, m.call < s.nextCall
  written_once : ∀ m ∈ s.queue.written, ∀ call, s.calls.lookup m.call = some call →
    call.fAttempted = true
  nodup : (s.queue.written.map QueuedSmsg.call).Nodup

variable {condition : SmsgQueue → SmsgSend → Prop} {s s' : SmsgQueue}

theorem SmsgQueue.numbered_start (store : SmsgStore) : (start store).Numbered where
  calls_lt := fun _ _ h => nomatch h
  written_lt := fun _ h => absurd h List.not_mem_nil
  written_once := fun _ h => absurd h List.not_mem_nil
  nodup := List.nodup_nil

/-- A change to a call that has not lost its attempt. -/
theorem SmsgQueue.Numbered.setCall
    (h : s.Numbered) {n : ℕ} {call call' : SmsgSend} (hCall : s.calls.lookup n = some call)
    (hWritten : call.fAttempted = true → call'.fAttempted = true) :
    (s.setCall n call').Numbered where
  calls_lt := by
    intro m other hFound
    change (s.calls.insert n call').lookup m = some other at hFound
    rw [Table.lookup_insert_ite] at hFound
    split_ifs at hFound with hSame
    · rw [hSame]
      exact h.calls_lt n call hCall
    · exact h.calls_lt m other hFound
  written_lt := h.written_lt
  written_once := by
    intro m hMem other hFound
    change (s.calls.insert n call').lookup m.call = some other at hFound
    rw [Table.lookup_insert_ite] at hFound
    split_ifs at hFound with hSame
    · rw [← Option.some.inj hFound]
      exact hWritten (h.written_once m hMem call (hSame ▸ hCall))
    · exact h.written_once m hMem other hFound
  nodup := h.nodup

theorem SmsgQueue.Numbered.congr
    (h : s.Numbered) (hCalls : s'.calls = s.calls) (hNext : s'.nextCall = s.nextCall)
    (hWritten : s'.queue.written = s.queue.written) : s'.Numbered where
  calls_lt := by
    rw [hCalls, hNext]
    exact h.calls_lt
  written_lt := by
    rw [hWritten, hNext]
    exact h.written_lt
  written_once := by
    rw [hWritten, hCalls]
    exact h.written_once
  nodup := by
    rw [hWritten]
    exact h.nodup

/-- The call that writes has not written before. -/
theorem SmsgQueue.Numbered.writeSmesg
    (h : s.Numbered) {n : ℕ} {call : SmsgSend} (hCall : s.calls.lookup n = some call)
    (hOnce : call.fAttempted = false) (now : ℤ) : (s.writeSmesg n call now).Numbered := by
  have hAttempted := @Numbered.setCall s h n call { call with fAttempted := true } hCall
    fun _ => rfl
  have hNew : ∀ m ∈ s.queue.written, m.call ≠ n := by
    rintro m hMem rfl
    rw [h.written_once m hMem call hCall] at hOnce
    cases hOnce
  refine ⟨hAttempted.calls_lt, ?_, ?_, ?_⟩
  · intro m hMem
    rcases List.mem_append.mp hMem with hOld | hLast
    · exact h.written_lt m hOld
    · rw [List.mem_singleton.mp hLast]
      exact h.calls_lt n call hCall
  · intro m hMem other hFound
    rcases List.mem_append.mp hMem with hOld | hLast
    · exact hAttempted.written_once m hOld other hFound
    · rw [List.mem_singleton.mp hLast] at hFound
      change (s.calls.insert n { call with fAttempted := true }).lookup n = some other at hFound
      rw [Table.lookup_insert_ite, if_pos rfl] at hFound
      rw [← Option.some.inj hFound]
  · change ((s.queue.written ++ [_]).map QueuedSmsg.call).Nodup
    rw [List.map_append, List.nodup_append]
    refine ⟨h.nodup, List.nodup_singleton _, ?_⟩
    rintro a hOld b hLast rfl
    obtain ⟨m, hMem, rfl⟩ := List.mem_map.mp hOld
    exact hNew m hMem (List.mem_singleton.mp hLast)

theorem QueueStep.numbered (hStep : QueueStep condition s s') (h : s.Numbered) : s'.Numbered := by
  cases hStep with
  | encrypt hAddress =>
      refine ⟨?_, fun m hMem => Nat.lt_succ_of_lt (h.written_lt m hMem), ?_, h.nodup⟩
      · intro m other hFound
        change (s.calls.insert s.nextCall _).lookup m = some other at hFound
        rw [Table.lookup_insert_ite] at hFound
        split_ifs at hFound with hSame
        · rw [hSame]
          exact Nat.lt_succ_self _
        · exact Nat.lt_succ_of_lt (h.calls_lt m other hFound)
      · intro m hMem other hFound
        change (s.calls.insert s.nextCall _).lookup m.call = some other at hFound
        rw [Table.lookup_insert_ite, if_neg (h.written_lt m hMem).ne] at hFound
        exact h.written_once m hMem other hFound
  | writeSmesg hCall hOnce hCondition => exact h.writeSmesg hCall hOnce _
  | writeFails hCall hOnce => exact h.setCall hCall fun _ => rfl
  | encryptOutbox hCall => exact h.setCall hCall id
  | freeOutbox hCall => exact h.setCall hCall id
  | returns n =>
      have hLeft (m : ℕ) (other : SmsgSend)
          (hFound : (s.calls.erase n).lookup m = some other) : s.calls.lookup m = some other := by
        rw [Table.lookup_erase_ite] at hFound
        split_ifs at hFound with hSame
        exact hFound
      exact ⟨fun m other hFound => h.calls_lt m other (hLeft m other hFound), h.written_lt,
        fun m hMem other hFound => h.written_once m hMem other (hLeft _ other hFound), h.nodup⟩
  | nextSmesg => exact h.congr rfl rfl (KeyedQueue.written_fetch _ _)
  | restart =>
      exact ⟨fun _ _ hFound => (nomatch hFound), h.written_lt,
        fun _ _ _ hFound => (nomatch hFound), h.nodup⟩
  | _ => exact h.congr rfl rfl rfl

/-! ## No message is lost -/

/-- A step of the node is a step of the queue, or leaves it as it is. -/
theorem QueueStep.queue_step
    (hStep : QueueStep FreeKey s s') (hSound : s.queue.Sound) :
    s'.queue.Sound ∧ s.queue.Keeps s'.queue := by
  cases hStep with
  | writeSmesg hCall hOnce hCondition =>
      exact ⟨hSound.put _ hCondition, KeyedQueue.keeps_put _ hCondition⟩
  | newIterator => exact ⟨hSound.openSnapshot, KeyedQueue.keeps_of_table_eq rfl⟩
  | nextSmesg hReading => exact ⟨hSound.fetch hReading, KeyedQueue.keeps_fetch _⟩
  | nextFails => exact ⟨hSound.close, KeyedQueue.keeps_of_table_eq rfl⟩
  | setHash hFetched => exact ⟨hSound.work hFetched, KeyedQueue.keeps_of_table_eq rfl⟩
  | setHashFails hFetched => exact ⟨hSound.work hFetched, KeyedQueue.keeps_of_table_eq rfl⟩
  | setHashStopped hFetched =>
      exact ⟨(hSound.work hFetched).close, KeyedQueue.keeps_of_table_eq rfl⟩
  | eraseSmesg fErased hWorked => exact ⟨hSound.finish hWorked, hSound.keeps_finish hWorked⟩
  | restart => exact ⟨hSound.close, KeyedQueue.keeps_of_table_eq rfl⟩
  | _ => exact ⟨hSound, KeyedQueue.keeps_of_table_eq rfl⟩

/-- In a run whose records are all written to free keys, a message that was written has been
handed to `SecureMsgSetHash` or still has its record; and no step takes a record out of its
place whose message has not been handed over, or puts another one there. -/
theorem queue_keeps_messages
    {store : SmsgStore} (hRun : ReflTransGen (QueueStep FreeKey) (.start store) s) :
    (s.queue.written.map QueuedSmsg.call).Nodup ∧
      (∀ m ∈ s.queue.written, m ∈ s.queue.worked ∨ ∃ k, s.queue.table.lookup k = some m) ∧
      ∀ s', QueueStep FreeKey s s' → s.queue.Keeps s'.queue := by
  have hInvariant : s.Numbered ∧ s.queue.Sound := by
    induction hRun with
    | refl => exact ⟨SmsgQueue.numbered_start store, KeyedQueue.sound_empty⟩
    | tail _ hStep ih => exact ⟨hStep.numbered ih.1, (hStep.queue_step ih.2).1⟩
  obtain ⟨hNumbered, hSound⟩ := hInvariant
  exact ⟨hNumbered.nodup, hSound.kept, fun s' hStep => (hStep.queue_step hSound).2⟩

/-! ## Two messages of one second -/

/-- A call that returns 0, as far as the queue goes. -/
def SmsgQueue.sent (addressTo : String) (smsg : {r : SmsgRecord // r.WellFormed})
    (pPayload : UInt64) (now : ℤ) (s : SmsgQueue) : SmsgQueue :=
  ((s.encrypt addressTo smsg pPayload).writeSmesg s.nextCall
    ⟨addressTo, smsg, pPayload, none, false⟩ now).returns s.nextCall

theorem run_sent
    {addressTo : String} {smsg : {r : SmsgRecord // r.WellFormed}} {pPayload : UInt64}
    {now : ℤ} (hAddress : pPayload ∉ s.inUse)
    (hCondition : condition (s.encrypt addressTo smsg pPayload)
      ⟨addressTo, smsg, pPayload, none, false⟩) :
    ReflTransGen (QueueStep condition) s (s.sent addressTo smsg pPayload now) := by
  have hCall : (s.encrypt addressTo smsg pPayload).calls.lookup s.nextCall =
      some ⟨addressTo, smsg, pPayload, none, false⟩ := by
    change (s.calls.insert s.nextCall _).lookup s.nextCall = _
    rw [Table.lookup_insert_ite, if_pos rfl]
  have hEncrypt : QueueStep condition s (s.encrypt addressTo smsg pPayload) := .encrypt hAddress
  exact ((ReflTransGen.single hEncrypt).tail (.writeSmesg hCall rfl hCondition)).tail (.returns _)

namespace Sample

/-- The header of a message of that second. -/
def queuedHeader : List UInt8 := smsgHeader 1700000410 16

theorem length_queuedHeader : queuedHeader.length = SMSG_HDR_LEN := by decide +kernel

theorem nPayload_queuedHeader : (SecureMessage.ofBytes queuedHeader).nPayload = 16 := by
  decide +kernel

/-- A message with a payload of its own. -/
def queuedSmsg (b : UInt8) : {r : SmsgRecord // r.WellFormed} :=
  ⟨⟨queuedHeader, List.replicate 16 b⟩, by
    refine ⟨length_queuedHeader, ?_, ?_⟩
    · rw [List.length_replicate, nPayload_queuedHeader]
    · rw [List.length_replicate]
      decide⟩

def sentAt (b : UInt8) (pPayload : UInt64) (s : SmsgQueue) : SmsgQueue :=
  s.sent "address" (queuedSmsg b) pPayload 1700000410

/-- One message, which has returned. -/
def firstSent : SmsgQueue := sentAt 1 4096 (.start emptyStore)

theorem run_firstSent {condition : SmsgQueue → SmsgSend → Prop}
    (hCondition : ∀ s call, FreeKey s call → condition s call) :
    ReflTransGen (QueueStep condition) (.start emptyStore) firstSent :=
  run_sent (by decide +kernel) (hCondition _ _ (by decide +kernel))

/-- A second message while the first one is in the queue, with its payload at another
address. -/
def otherAddress : SmsgQueue := sentAt 2 8192 firstSent

theorem otherAddress_kept :
    (otherAddress.queue.written.map QueuedSmsg.call).Nodup ∧
      (∀ m ∈ otherAddress.queue.written, m ∈ otherAddress.queue.worked ∨
        ∃ k, otherAddress.queue.table.lookup k = some m) ∧
      ∀ s', QueueStep FreeKey otherAddress s' → otherAddress.queue.Keeps s'.queue :=
  queue_keeps_messages ((run_firstSent fun _ _ h => h).trans
    (run_sent (by decide +kernel) (by decide +kernel)))

/-- What the queue has of a message. -/
def queued (call : ℕ) (b : UInt8) : QueuedSmsg :=
  ⟨call, 1700000410, "address", (queuedSmsg b).1.bytes⟩

def firstEntry : ℕ × QueuedSmsg :=
  (SmsgSend.chKey ⟨"address", queuedSmsg 1, 4096, none, true⟩, queued 0 1)

/-- The thread has hashed the first message. -/
def firstHashed : SmsgQueue :=
  { firstSent with
    queue := (firstSent.queue.openSnapshot.fetch [firstEntry]).work firstEntry []
    hashed := some (SmsgQueue.withHash [0, 0, 0, 0] [0, 0, 0, 0] firstEntry.2.stored) }

/-- The second message is sent, and the record of the first one is erased. -/
def secondErased : SmsgQueue :=
  { sentAt 2 4096 firstHashed with
    queue := (sentAt 2 4096 firstHashed).queue.finish true firstEntry [] }

theorem no_record
    {t : Table ℕ QueuedSmsg} {m : QueuedSmsg} (h : ∀ e ∈ t.entries, e.2 ≠ m) :
    ¬∃ k, t.lookup k = some m := by
  rintro ⟨k, hFound⟩
  exact h ⟨k, m⟩ (AList.mem_lookup_iff.mp hFound) rfl

/-- The second message gets the address that the first one has freed.  It takes the place of
the first one in the queue, or, if the thread is at work on the first one, is erased in its
place. -/
theorem sameAddress_lost :
    (∃ s, ReflTransGen (QueueStep fun _ _ => True) (.start emptyStore) s ∧ s.calls = ∅ ∧
      ∃ m ∈ s.queue.written, m ∉ s.queue.worked ∧ ¬∃ k, s.queue.table.lookup k = some m) ∧
    ∃ s, ReflTransGen (QueueStep fun _ _ => True) (.start emptyStore) s ∧ s.calls = ∅ ∧
      s.queue.worked = [queued 0 1] ∧ queued 1 2 ∈ s.queue.written ∧
      ¬∃ k, s.queue.table.lookup k = some (queued 1 2) := by
  have hFirst : ReflTransGen (QueueStep fun _ _ => True) (.start emptyStore) firstSent :=
    run_firstSent fun _ _ _ => trivial
  constructor
  · refine ⟨sentAt 2 4096 firstSent, hFirst.trans (run_sent (by decide +kernel) trivial), rfl,
      queued 0 1, by decide +kernel, by decide +kernel, no_record (by decide +kernel)⟩
  · have hHashed : ReflTransGen (QueueStep fun _ _ => True) firstSent firstHashed := by
      have hOpen : QueueStep (fun _ _ => True) firstSent
          { firstSent with queue := firstSent.queue.openSnapshot } := .newIterator rfl
      have hNext : QueueStep (fun _ _ => True)
          { firstSent with queue := firstSent.queue.openSnapshot }
          { firstSent with queue := firstSent.queue.openSnapshot.fetch [firstEntry] } :=
        .nextSmesg (by rfl) rfl
      exact ((ReflTransGen.single hOpen).tail hNext).tail (.setHash rfl rfl rfl)
    refine ⟨secondErased, ?_, rfl, rfl, by decide +kernel, no_record (by decide +kernel)⟩
    exact (hFirst.trans (hHashed.trans (run_sent (by decide +kernel) trivial))).tail
      (.eraseSmesg true rfl)

end Sample

end SocietyGold
