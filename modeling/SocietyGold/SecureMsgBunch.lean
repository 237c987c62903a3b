import SocietyGold.ScriptNum
import SocietyGold.SecureMsgConsistency

/-!
# Bunches of messages

The loop of `SecureMsgReceive` goes on from a message that it has stored.  It stays at a message
that is not valid until the rounds are used up, and ends at one that the store does not take, so
what comes behind such a message is not looked at.
-/

namespace SocietyGold

open Support

/-! ## What a bunch is to leave behind -/

/-- A header of the right size and as many bytes as it announces. -/
def SmsgRecord.Complete (r : SmsgRecord) : Prop :=
  r.header.length = SMSG_HDR_LEN ∧ r.payload.length = (SecureMessage.ofBytes r.header).nPayload

/-- `SecureMsgValidate` accepts the message. -/
def SmsgRecord.Valid (tools : SmsgTools) (r : SmsgRecord) : Prop :=
  (SecureMessage.ofBytes r.header).version.head? = some 1 ∧
    (SecureMessage.ofBytes r.header).nPayload ≤ SMSG_MAX_MSG_WORST ∧
    validateHash tools r.header r.payload = 0

/-- A valid message in the accepted time range that is not in its bucket. -/
def Storable (tools : SmsgTools) (now : ℤ) (store : SmsgStore) (r : SmsgRecord) : Prop :=
  r.Valid tools ∧ now - SMSG_RETENTION ≤ r.timestamp ∧ r.timestamp ≤ now + SMSG_TIME_LEEWAY ∧
    r.key ∉ (store.bucket (bucketOf r.timestamp)).setTokens

instance (tools : SmsgTools) (now : ℤ) (store : SmsgStore) (r : SmsgRecord) :
    Decidable (Storable tools now store r) := by
  unfold Storable SmsgRecord.Valid
  infer_instance

/-- The store with the message at the end of its file and the token in its bucket. -/
def SmsgStore.withRecord (store : SmsgStore) (r : SmsgRecord) : SmsgStore :=
  ⟨store.smsgBuckets.insert (bucketOf r.timestamp) (store.withToken r),
    store.files.insert (bucketOf r.timestamp)
      ((store.files.lookup (bucketOf r.timestamp)).getD [] ++ r.bytes)⟩

/-- The messages that can be stored, one after the other. -/
def recordsToStore (tools : SmsgTools) (now : ℤ) : List SmsgRecord → SmsgStore → List SmsgRecord
  | [], _ => []
  | r :: rest, store =>
      if Storable tools now store r then
        r :: recordsToStore tools now rest (store.withRecord r)
      else recordsToStore tools now rest store

def SmsgStore.withRecords (store : SmsgStore) (records : List SmsgRecord) : SmsgStore :=
  records.foldl SmsgStore.withRecord store

/-- The files and the tokens are the same. -/
def SmsgStore.SameMessages (store store' : SmsgStore) : Prop :=
  store'.files = store.files ∧
    ∀ b, (store'.bucket b).setTokens = (store.bucket b).setTokens

/-- The data of an `smsgMsg`: the number of messages, the time of the bucket and the messages. -/
def bunchData (vchTime : List UInt8) (records : List SmsgRecord) : List UInt8 :=
  toBytesLE 4 records.length ++ vchTime ++ (records.map SmsgRecord.bytes).flatten

/-- The call ends with the messages of the bunch that can be stored in the store. -/
def StoresBunch (tools : SmsgTools) (now : ℤ) (vchTime : List UInt8) (records : List SmsgRecord)
    (store : SmsgStore) : Prop :=
  ∃ rv misbehaving store',
    secureMsgReceive tools now (bunchData vchTime records) store =
      .ok (rv, misbehaving, store') ∧
    (store.withRecords (recordsToStore tools now records store)).SameMessages store'

/-- The messages that can be stored come first, and if there is one, the time that the peer has
named is in the accepted range. -/
def StorableFirst (tools : SmsgTools) (now : ℤ) (vchTime : List UInt8) (records : List SmsgRecord)
    (store : SmsgStore) : Prop :=
  recordsToStore tools now records store <+: records ∧
    (recordsToStore tools now records store ≠ [] →
      now - SMSG_RETENTION ≤ int64Of vchTime ∧ int64Of vchTime ≤ now + SMSG_TIME_LEEWAY)

section Store

variable {tools : SmsgTools} {now : ℤ} {store : SmsgStore} {r : SmsgRecord}

theorem SmsgStore.Unchanged.sameMessages {store' : SmsgStore} (h : store.Unchanged store') :
    store.SameMessages store' := by
  refine ⟨h.1, fun b => ?_⟩
  unfold SmsgStore.bucket
  rw [h.2 b]

/-- The store takes a message in the time range that is not in its bucket. -/
theorem secureMsgStore_eq (now : ℤ) (store : SmsgStore) (r : SmsgRecord) :
    (secureMsgStore now r.header r.payload false store = (0, store.withRecord r) ∧
      now - SMSG_RETENTION ≤ r.timestamp ∧ r.timestamp ≤ now + SMSG_TIME_LEEWAY ∧
        r.key ∉ (store.bucket (bucketOf r.timestamp)).setTokens) ∨
    (∃ store', secureMsgStore now r.header r.payload false store = (1, store') ∧
      store.Unchanged store') ∧
      ¬(now - SMSG_RETENTION ≤ r.timestamp ∧ r.timestamp ≤ now + SMSG_TIME_LEEWAY ∧
        r.key ∉ (store.bucket (bucketOf r.timestamp)).setTokens) := by
  have hKey : (SecMsgToken.new (SecureMessage.ofBytes r.header).timestamp r.payload 0).key =
      r.key := rfl
  have hTime : (SecureMessage.ofBytes r.header).timestamp = r.timestamp := rfl
  unfold secureMsgStore
  dsimp only
  rw [hKey, hTime]
  split_ifs with hLate hOld hKnown hUpdate
  · exact Or.inr ⟨⟨store, rfl, rfl, fun _ => rfl⟩, fun h => absurd h.2.1 (not_le.mpr hLate)⟩
  · exact Or.inr ⟨⟨store, rfl, rfl, fun _ => rfl⟩, fun h => absurd h.1 (not_le.mpr hOld)⟩
  · exact Or.inr ⟨⟨_, rfl, unchanged_setBucket (lookup_of_mem_bucket hKnown)⟩,
      fun h => h.2.2 hKnown⟩
  · exact absurd hUpdate not_false
  · refine Or.inl ⟨?_, not_lt.mp hOld, not_lt.mp hLate, hKnown⟩
    rw [withToken_eq, List.append_assoc, ← SmsgRecord.bytes, SmsgStore.setBucket]
    rfl

theorem secureMsgStore_of_storable (h : Storable tools now store r) :
    secureMsgStore now r.header r.payload false store = (0, store.withRecord r) := by
  rcases secureMsgStore_eq now store r with ⟨hStored, -⟩ | ⟨-, hNot⟩
  · exact hStored
  · exact absurd h.2 hNot

theorem secureMsgStore_of_not_storable (hValid : r.Valid tools) (h : ¬Storable tools now store r) :
    ∃ store', secureMsgStore now r.header r.payload false store = (1, store') ∧
      store.Unchanged store' := by
  rcases secureMsgStore_eq now store r with ⟨-, hRange⟩ | ⟨hFailed, -⟩
  · exact absurd ⟨hValid, hRange⟩ h
  · exact hFailed

theorem bucket_withRecord (store : SmsgStore) (r : SmsgRecord) (b : ℤ) :
    (store.withRecord r).bucket b =
      if b = bucketOf r.timestamp then store.withToken r else store.bucket b := by
  unfold SmsgStore.withRecord
  rw [SmsgStore.bucket, SmsgStore.bucket, Table.lookup_insert_ite]
  split_ifs
  · rfl
  · rfl

theorem mem_tokens_withRecord {b : ℤ} {key : TokenKey} :
    key ∈ ((store.withRecord r).bucket b).setTokens ↔
      (b = bucketOf r.timestamp ∧ key = r.key) ∨ key ∈ (store.bucket b).setTokens := by
  rw [bucket_withRecord]
  split_ifs with hSame
  · rw [SmsgStore.withToken, hSame]
    simp [AList.mem_insert]
  · simp [hSame]

/-- More messages, more tokens. -/
theorem mem_tokens_withRecords {records : List SmsgRecord} {b : ℤ} {key : TokenKey}
    (h : key ∈ (store.bucket b).setTokens) :
    key ∈ ((store.withRecords records).bucket b).setTokens := by
  unfold SmsgStore.withRecords
  induction records generalizing store with
  | nil => exact h
  | cons r records ih =>
      rw [List.foldl_cons]
      apply ih
      rw [mem_tokens_withRecord]
      exact Or.inr h

end Store

/-! ## The loop -/

section Loop

variable {tools : SmsgTools} {now : ℤ} {store : SmsgStore} {r : SmsgRecord}
  {before after : List UInt8} {misbehaving remaining : ℕ}

theorem SmsgRecord.Complete.length_bytes (h : r.Complete) :
    r.bytes.length = SMSG_HDR_LEN + (SecureMessage.ofBytes r.header).nPayload := by
  rw [SmsgRecord.bytes, List.length_append, h.1, h.2]

/-- A complete record lies in the data where it was written. -/
theorem SmsgRecord.Complete.at (h : r.Complete) (before after : List UInt8) :
    headerBytes (before ++ r.bytes ++ after) before.length = r.header ∧
      payloadBytes (before ++ r.bytes ++ after) before.length = r.payload := by
  have hHeader : headerBytes (before ++ r.bytes ++ after) before.length = r.header := by
    rw [headerBytes, List.append_assoc, List.drop_left, SmsgRecord.bytes, List.append_assoc, ← h.1,
      List.take_left]
  refine ⟨hHeader, ?_⟩
  have hSplit : before ++ r.bytes ++ after = (before ++ r.header) ++ (r.payload ++ after) := by
    simp [SmsgRecord.bytes]
  have hStart : before.length + SMSG_HDR_LEN = (before ++ r.header).length := by
    rw [List.length_append, h.1]
  rw [payloadBytes, headerAt, hHeader, hStart, hSplit, List.drop_left, ← h.2, List.take_left]

theorem SmsgRecord.Complete.validate (h : r.Complete) (tools : SmsgTools)
    (before after : List UInt8) :
    ∃ rv, secureMsgValidate tools (before ++ r.bytes ++ after) r.header
      (before.length + SMSG_HDR_LEN) = .ok rv ∧ (rv = 0 ↔ r.Valid tools) := by
  obtain ⟨hHeader, hPayload⟩ := h.at before after
  have hFits : RecordFits (before ++ r.bytes ++ after) before.length := by
    intro _ _
    rw [headerAt, hHeader]
    simp only [List.length_append, h.length_bytes]
    omega
  have hInside : before.length + SMSG_HDR_LEN ≤ (before ++ r.bytes ++ after).length := by
    simp only [List.length_append, h.length_bytes]
    omega
  rcases inRangeIff_validate tools hInside with ⟨-, rv, hRead⟩ | ⟨hNot, -⟩
  · have hZero := validate_eq_zero_iff hFits hRead
    rw [hHeader] at hRead
    refine ⟨rv, hRead, hZero.trans ?_⟩
    rw [ValidRecord, headerAt, hHeader, hPayload, SmsgRecord.Valid]
  · exact absurd hFits hNot

theorem receiveBunch_at (h : r.Complete) (hLength : (before ++ r.bytes ++ after).length < 2 ^ 64) :
    ∃ rv, (rv = 0 ↔ r.Valid tools) ∧
      receiveBunch tools now (before ++ r.bytes ++ after) (remaining + 1) before.length misbehaving
        store =
      if rv ≠ 0 then
        receiveBunch tools now (before ++ r.bytes ++ after) remaining before.length
          (misbehaving + 1) store
      else if (secureMsgStore now r.header r.payload false store).1 ≠ 0 then
        .ok (misbehaving, (secureMsgStore now r.header r.payload false store).2)
      else
        receiveBunch tools now (before ++ r.bytes ++ after) remaining
          ((before.length + r.bytes.length) % 2 ^ 32) misbehaving
          (secureMsgStore now r.header r.payload false store).2 := by
  obtain ⟨hHeader, hPayload⟩ := h.at before after
  obtain ⟨rv, hValidate, hZero⟩ := h.validate tools before after
  refine ⟨rv, hZero, ?_⟩
  have hSize : (before ++ r.bytes ++ after).length =
      before.length + (SMSG_HDR_LEN + (SecureMessage.ofBytes r.header).nPayload) +
        after.length := by
    simp only [List.length_append, h.length_bytes]
  have hShort : ¬(((before ++ r.bytes ++ after).length : ℤ) - before.length) % 2 ^ 64 <
      SMSG_HDR_LEN := by
    omega
  have hReadHeader : readRange (before ++ r.bytes ++ after) before.length SMSG_HDR_LEN =
      .ok r.header := by
    rw [readRange_of_le (by omega), ← headerBytes, hHeader]
  have hReadPayload : readRange (before ++ r.bytes ++ after) (before.length + SMSG_HDR_LEN)
      (SecureMessage.ofBytes r.header).nPayload = .ok r.payload := by
    rw [readRange_of_le (by omega), ← hHeader, ← headerAt, ← payloadBytes, hPayload]
  rw [receiveBunch_succ, if_neg hShort, hReadHeader, ok_bind, hValidate, ok_bind, hReadPayload,
    ok_bind, h.length_bytes, add_assoc]

/-- The loop stays at a message that is not valid. -/
theorem receiveBunch_of_not_valid (h : r.Complete)
    (hLength : (before ++ r.bytes ++ after).length < 2 ^ 64) (hValid : ¬r.Valid tools) :
    receiveBunch tools now (before ++ r.bytes ++ after) remaining before.length misbehaving store =
      .ok (misbehaving + remaining, store) := by
  induction remaining generalizing misbehaving with
  | zero => rfl
  | succ remaining ih =>
      obtain ⟨rv, hZero, hRound⟩ := receiveBunch_at h hLength
      rw [hRound, if_pos (mt hZero.mp hValid), ih, Nat.add_right_comm, Nat.add_assoc]

/-- The loop ends at a valid message that the store does not take. -/
theorem receiveBunch_of_not_storable (remaining : ℕ) (h : r.Complete)
    (hLength : (before ++ r.bytes ++ after).length < 2 ^ 64) (hValid : r.Valid tools)
    (hNot : ¬Storable tools now store r) :
    ∃ store', receiveBunch tools now (before ++ r.bytes ++ after) (remaining + 1) before.length
      misbehaving store = .ok (misbehaving, store') ∧ store.Unchanged store' := by
  obtain ⟨rv, hZero, hRound⟩ := receiveBunch_at h hLength
  obtain ⟨store', hStore, hSame⟩ := secureMsgStore_of_not_storable hValid hNot
  rw [hRound, if_neg (not_not_intro (hZero.mpr hValid)), hStore, if_pos one_ne_zero]
  exact ⟨store', rfl, hSame⟩

theorem receiveBunch_of_storable (h : r.Complete)
    (hLength : (before ++ r.bytes ++ after).length < 2 ^ 64)
    (hNext : before.length + r.bytes.length < 2 ^ 32) (hStorable : Storable tools now store r) :
    receiveBunch tools now (before ++ r.bytes ++ after) (remaining + 1) before.length misbehaving
        store =
      receiveBunch tools now (before ++ r.bytes ++ after) remaining (before ++ r.bytes).length
        misbehaving (store.withRecord r) := by
  obtain ⟨rv, hZero, hRound⟩ := receiveBunch_at h hLength
  rw [hRound, if_neg (not_not_intro (hZero.mpr hStorable.1)),
    secureMsgStore_of_storable hStorable, if_neg (not_not_intro rfl), Nat.mod_eq_of_lt hNext,
    List.length_append]

end Loop

/-- The first of the messages that can be stored. -/
theorem storable_of_recordsToStore {tools : SmsgTools} {now : ℤ} {store : SmsgStore}
    {records rest : List SmsgRecord} {r : SmsgRecord}
    (h : recordsToStore tools now records store = r :: rest) : Storable tools now store r := by
  induction records with
  | nil => cases h
  | cons r' records ih =>
      unfold recordsToStore at h
      split_ifs at h with hStorable
      · cases h
        exact hStorable
      · exact ih h

/-- The loop stores the messages at the start of the bunch that can be stored.  Others that can be
stored are left out exactly if one of them stands behind a message that cannot. -/
theorem receiveBunch_stores (tools : SmsgTools) (now : ℤ) {records : List SmsgRecord}
    (hComplete : ∀ r ∈ records, r.Complete) (before : List UInt8) (store : SmsgStore)
    (hLength : (before ++ (records.map SmsgRecord.bytes).flatten).length < 2 ^ 64)
    (hBefore : before.length + records.length * (SMSG_HDR_LEN + SMSG_MAX_MSG_WORST) < 2 ^ 32)
    (misbehaving : ℕ) :
    ∃ misbehaving' store' good more,
      receiveBunch tools now (before ++ (records.map SmsgRecord.bytes).flatten) records.length
        before.length misbehaving store = .ok (misbehaving', store') ∧
      (store.withRecords good).SameMessages store' ∧
      recordsToStore tools now records store = good ++ more ∧
      (∀ r rest, more = r :: rest → Storable tools now (store.withRecords good) r) ∧
      (recordsToStore tools now records store <+: records ↔ more = []) := by
  induction records generalizing before store misbehaving with
  | nil =>
      refine ⟨misbehaving, store, [], [], rfl, ⟨rfl, fun _ => rfl⟩, rfl, ?_, ?_⟩
      · rintro r rest ⟨⟩
      · simp [recordsToStore]
  | cons r records ih =>
      have hr := hComplete r List.mem_cons_self
      have hData : before ++ ((r :: records).map SmsgRecord.bytes).flatten =
          before ++ r.bytes ++ (records.map SmsgRecord.bytes).flatten := by
        rw [List.map_cons, List.flatten_cons, List.append_assoc]
      rw [hData] at hLength ⊢
      rw [List.length_cons, add_mul, one_mul] at hBefore
      by_cases hStorable : Storable tools now store r
      · have hSize : r.bytes.length ≤ SMSG_HDR_LEN + SMSG_MAX_MSG_WORST := by
          rw [hr.length_bytes]
          exact Nat.add_le_add_left hStorable.1.2.1 _
        have hLater : (before ++ r.bytes).length +
            records.length * (SMSG_HDR_LEN + SMSG_MAX_MSG_WORST) < 2 ^ 32 := by
          rw [List.length_append]
          omega
        obtain ⟨misbehaving', store', good, more, hLoop, hSame, hSplit, hMore, hFirst⟩ :=
          ih (fun r' h => hComplete r' (List.mem_cons_of_mem _ h)) (before ++ r.bytes)
            (store.withRecord r) hLength hLater misbehaving
        refine ⟨misbehaving', store', r :: good, more, ?_, hSame, ?_, hMore, ?_⟩
        · rw [List.length_cons, receiveBunch_of_storable hr hLength (by omega) hStorable, hLoop]
        · rw [recordsToStore, if_pos hStorable, hSplit, List.cons_append]
        · rw [recordsToStore, if_pos hStorable, List.cons_prefix_cons, hFirst]
          simp
      · -- nothing behind this message is looked at
        have hStays : ∃ misbehaving' store',
            receiveBunch tools now (before ++ r.bytes ++ (records.map SmsgRecord.bytes).flatten)
              (r :: records).length before.length misbehaving store =
                .ok (misbehaving', store') ∧ store.Unchanged store' := by
          by_cases hValid : r.Valid tools
          · obtain ⟨store', hLoop, hSame⟩ :=
              receiveBunch_of_not_storable records.length hr hLength hValid hStorable
            exact ⟨misbehaving, store', hLoop, hSame⟩
          · exact ⟨_, store, receiveBunch_of_not_valid hr hLength hValid, rfl, fun _ => rfl⟩
        obtain ⟨misbehaving', store', hLoop, hSame⟩ := hStays
        refine ⟨misbehaving', store', [], recordsToStore tools now (r :: records) store, hLoop,
          hSame.sameMessages, rfl, ?_, ?_⟩
        · intro r' rest hMore
          exact storable_of_recordsToStore hMore
        · constructor
          · intro hPrefix
            cases hMore : recordsToStore tools now (r :: records) store with
            | nil => rfl
            | cons r' rest =>
                rw [hMore, List.cons_prefix_cons] at hPrefix
                exact absurd (hPrefix.1 ▸ storable_of_recordsToStore hMore) hStorable
          · intro hNone
            rw [hNone]
            exact List.nil_prefix

/-! ## Bunches -/

section Bunch

variable {tools : SmsgTools} {now : ℤ} {vchTime : List UInt8} {records : List SmsgRecord}
  {store : SmsgStore}

theorem sameMessages_hashNamedBucket (now : ℤ) {store' : SmsgStore}
    (h : store.SameMessages store') (time : ℤ) : store.SameMessages (hashNamedBucket now time store').2 := by
  refine ⟨(SmsgNode.files_hashNamedBucket store' now time).trans h.1, fun b => ?_⟩
  rw [← h.2 b]
  have hMap := SmsgNode.tokens_hashNamedBucket store' now time b
  unfold SmsgStore.bucket
  cases hBefore : store'.smsgBuckets.lookup b with
  | none =>
      rw [hBefore, Option.map_none, Option.map_eq_none_iff] at hMap
      rw [hMap]
  | some bucket =>
      rw [hBefore, Option.map_some, Option.map_eq_some_iff] at hMap
      obtain ⟨bucket', hAfter, hTokens⟩ := hMap
      rw [hAfter]
      exact hTokens

/-- With further messages the tokens are not the same. -/
theorem not_sameMessages_of_storable {good rest : List SmsgRecord} {r : SmsgRecord}
    {store' : SmsgStore} (hStorable : Storable tools now (store.withRecords good) r)
    (h : (store.withRecords good).SameMessages store') :
    ¬(store.withRecords (good ++ r :: rest)).SameMessages store' := by
  intro hAll
  have hMem : r.key ∈ ((store.withRecords (good ++ r :: rest)).bucket
      (bucketOf r.timestamp)).setTokens := by
    unfold SmsgStore.withRecords
    rw [List.foldl_append, List.foldl_cons]
    apply mem_tokens_withRecords
    rw [mem_tokens_withRecord]
    exact Or.inl ⟨rfl, rfl⟩
  rw [← hAll.2, h.2] at hMem
  exact hStorable.2.2.2 hMem

theorem length_flatten_le (hComplete : ∀ r ∈ records, r.Complete) :
    (records.map SmsgRecord.bytes).flatten.length ≤ records.length * (SMSG_HDR_LEN + 2 ^ 32) := by
  induction records with
  | nil => simp
  | cons r records ih =>
      have hRest := ih fun r' h => hComplete r' (List.mem_cons_of_mem _ h)
      have hBytes := (hComplete r List.mem_cons_self).length_bytes
      have hPayload : (SecureMessage.ofBytes r.header).nPayload < 2 ^ 32 := by
        have hLt := fromBytesLE_lt ((r.header.drop 100).take 4)
        have hPow : 256 ^ ((r.header.drop 100).take 4).length ≤ 256 ^ 4 :=
          Nat.pow_le_pow_right (by norm_num) (List.length_take_le _ _)
        exact hLt.trans_le hPow
      rw [List.map_cons, List.flatten_cons, List.length_append, List.length_cons, add_mul]
      omega

/-- The data are read as they were written. -/
theorem bunchData_reads
    (hTime : vchTime.length = 8) (hCount : records.length ≤ 500) :
    12 ≤ (bunchData vchTime records).length ∧
      readRange (bunchData vchTime records) 0 4 = .ok (toBytesLE 4 records.length) ∧
      readRange (bunchData vchTime records) 4 8 = .ok vchTime ∧
      fromBytesLE (toBytesLE 4 records.length) = records.length := by
  have hLength : 12 ≤ (bunchData vchTime records).length := by
    unfold bunchData
    rw [List.length_append, List.length_append, length_toBytesLE, hTime]
    omega
  have hReadCount : readRange (bunchData vchTime records) 0 4 =
      .ok (toBytesLE 4 records.length) := by
    rw [readRange_of_le (by omega), List.drop_zero, bunchData, List.append_assoc,
      List.take_left' (length_toBytesLE _ _)]
  have hReadTime : readRange (bunchData vchTime records) 4 8 = .ok vchTime := by
    have hDrop : (bunchData vchTime records).drop 4 =
        vchTime ++ (records.map SmsgRecord.bytes).flatten := by
      rw [bunchData, List.append_assoc]
      exact List.drop_left' (length_toBytesLE _ _)
    rw [readRange_of_le (by omega), hDrop, List.take_left' hTime]
  have hNumber : fromBytesLE (toBytesLE 4 records.length) = records.length := by
    rw [fromBytesLE_toBytesLE, Nat.mod_eq_of_lt (by omega)]
  exact ⟨hLength, hReadCount, hReadTime, hNumber⟩

/-- A time out of range ends the call. -/
theorem secureMsgReceive_of_not_range
    (hTime : vchTime.length = 8) (hCount : records.length ≤ 500)
    (hRange : ¬(now - SMSG_RETENTION ≤ int64Of vchTime ∧
      int64Of vchTime ≤ now + SMSG_TIME_LEEWAY)) :
    secureMsgReceive tools now (bunchData vchTime records) store = .ok (1, 0, store) := by
  obtain ⟨hLength, hReadCount, hReadTime, -⟩ := bunchData_reads hTime hCount
  unfold secureMsgReceive
  rw [if_neg (not_lt.mpr hLength), hReadCount, ok_bind]
  dsimp only
  rw [hReadTime, ok_bind]
  split_ifs with hLate hOld
  · rfl
  · rfl
  · exact absurd ⟨not_lt.mp hOld, not_lt.mp hLate⟩ hRange
  · exact absurd ⟨not_lt.mp hOld, not_lt.mp hLate⟩ hRange

theorem secureMsgReceive_of_range
    (hTime : vchTime.length = 8) (hCount : 1 ≤ records.length ∧ records.length ≤ 500)
    (hRange : now - SMSG_RETENTION ≤ int64Of vchTime ∧ int64Of vchTime ≤ now + SMSG_TIME_LEEWAY)
    {misbehaving : ℕ} {store' : SmsgStore}
    (hLoop : receiveBunch tools now (bunchData vchTime records) records.length 12 0 store =
      .ok (misbehaving, store')) :
    secureMsgReceive tools now (bunchData vchTime records) store =
      .ok ((hashNamedBucket now (int64Of vchTime) store').1, misbehaving,
        (hashNamedBucket now (int64Of vchTime) store').2) := by
  obtain ⟨hLength, hReadCount, hReadTime, hNumber⟩ := bunchData_reads hTime hCount.2
  unfold secureMsgReceive
  rw [if_neg (not_lt.mpr hLength), hReadCount, ok_bind]
  dsimp only
  rw [hReadTime, ok_bind, hNumber, if_neg (not_lt.mpr hRange.2), if_neg (not_lt.mpr hRange.1),
    if_neg (by omega), hLoop]
  rfl

/-- A bunch of complete messages is stored as it should be exactly if those that can be stored
come first, and the time of the bucket is in range if there are any. -/
theorem secureMsgReceive_stores_iff
    (hTime : vchTime.length = 8) (hCount : 1 ≤ records.length ∧ records.length ≤ 500)
    (hComplete : ∀ r ∈ records, r.Complete) :
    StoresBunch tools now vchTime records store ↔
      StorableFirst tools now vchTime records store := by
  unfold StoresBunch StorableFirst
  by_cases hRange : now - SMSG_RETENTION ≤ int64Of vchTime ∧
      int64Of vchTime ≤ now + SMSG_TIME_LEEWAY
  · have hStart : (toBytesLE 4 records.length ++ vchTime).length = 12 := by
      rw [List.length_append, length_toBytesLE, hTime]
    have hLength : (toBytesLE 4 records.length ++ vchTime ++
        (records.map SmsgRecord.bytes).flatten).length < 2 ^ 64 := by
      have hRecords := length_flatten_le hComplete
      rw [List.length_append, hStart]
      have hTop := Nat.mul_le_mul_right (SMSG_HDR_LEN + 2 ^ 32) hCount.2
      exact (Nat.add_le_add_left (hRecords.trans hTop) 12).trans_lt (by decide)
    have hBefore : (toBytesLE 4 records.length ++ vchTime).length +
        records.length * (SMSG_HDR_LEN + SMSG_MAX_MSG_WORST) < 2 ^ 32 := by
      have hTop := Nat.mul_le_mul_right (SMSG_HDR_LEN + SMSG_MAX_MSG_WORST) hCount.2
      rw [hStart]
      exact (Nat.add_le_add_left hTop 12).trans_lt (by decide)
    obtain ⟨misbehaving, store', good, more, hLoop, hSame, hSplit, hMore, hFirst⟩ :=
      receiveBunch_stores tools now hComplete (toBytesLE 4 records.length ++ vchTime) store
        hLength hBefore 0
    rw [hStart, ← bunchData] at hLoop
    rw [secureMsgReceive_of_range hTime hCount hRange hLoop, hFirst]
    have hNamed := sameMessages_hashNamedBucket now hSame (int64Of vchTime)
    constructor
    · rintro ⟨rv, misbehaving', store'', hResult, hStored⟩
      rw [Except.ok.injEq, Prod.mk.injEq, Prod.mk.injEq] at hResult
      obtain ⟨-, -, hStore⟩ := hResult
      rw [← hStore] at hStored
      refine ⟨?_, fun _ => hRange⟩
      cases more with
      | nil => rfl
      | cons r rest =>
          rw [hSplit] at hStored
          exact absurd hStored (not_sameMessages_of_storable (hMore r rest rfl) hNamed)
    · rintro ⟨hNone, -⟩
      rw [hSplit, hNone, List.append_nil]
      exact ⟨_, _, _, rfl, hNamed⟩
  · rw [secureMsgReceive_of_not_range hTime hCount.2 hRange]
    constructor
    · rintro ⟨rv, misbehaving, store', hResult, hStored⟩
      cases hResult
      cases hRecords : recordsToStore tools now records store with
      | nil => exact ⟨List.nil_prefix, fun h => absurd rfl h⟩
      | cons r rest =>
          rw [hRecords] at hStored
          have hFirst : Storable tools now (store.withRecords []) r :=
            storable_of_recordsToStore hRecords
          exact absurd hStored (not_sameMessages_of_storable hFirst ⟨rfl, fun _ => rfl⟩)
    · rintro ⟨-, hNamed⟩
      have hNone : recordsToStore tools now records store = [] := by
        by_contra hSome
        exact hRange (hNamed hSome)
      rw [hNone]
      exact ⟨_, _, _, rfl, rfl, fun _ => rfl⟩

end Bunch

namespace Sample

/-- A message whose version is not one, before a good message: nothing is stored. -/
theorem badMessage_spoils :
    ¬StoresBunch smsgTools (smsgTime + 20) (intToBytesLE 8 smsgTime)
      [⟨List.replicate 104 0, []⟩, smsgRecord [1, 2, 3, 4, 5, 6, 7, 8]] emptyStore := by
  rintro ⟨rv, misbehaving, store', hReceive, hSame⟩
  have hBuckets : (secureMsgReceive smsgTools (smsgTime + 20)
      (bunchData (intToBytesLE 8 smsgTime)
        [⟨List.replicate 104 0, []⟩, smsgRecord [1, 2, 3, 4, 5, 6, 7, 8]]) emptyStore).map
      (fun result => result.2.2.files.entries.length) = .ok 0 := by
    decide +kernel
  have hFiles : ((emptyStore.withRecords (recordsToStore smsgTools (smsgTime + 20)
      [⟨List.replicate 104 0, []⟩, smsgRecord [1, 2, 3, 4, 5, 6, 7, 8]]
      emptyStore)).files).entries.length = 1 := by
    decide +kernel
  rw [hReceive] at hBuckets
  have hNone := Except.ok.inj hBuckets
  dsimp only at hNone
  rw [hSame.1, hFiles] at hNone
  exact absurd hNone one_ne_zero

/-- Two good messages, of different times, and a copy of the first. -/
theorem copyLast_stores :
    StoresBunch smsgTools (smsgTime + 20) (intToBytesLE 8 smsgTime)
        [smsgRecord [1, 2, 3, 4, 5, 6, 7, 8], smsgRecord [2, 2, 3, 4, 5, 6, 7, 8],
          smsgRecord [1, 2, 3, 4, 5, 6, 7, 8]] emptyStore ↔
      StorableFirst smsgTools (smsgTime + 20) (intToBytesLE 8 smsgTime)
        [smsgRecord [1, 2, 3, 4, 5, 6, 7, 8], smsgRecord [2, 2, 3, 4, 5, 6, 7, 8],
          smsgRecord [1, 2, 3, 4, 5, 6, 7, 8]] emptyStore :=
  secureMsgReceive_stores_iff (by decide +kernel) (by decide) (by
    unfold SmsgRecord.Complete
    decide +kernel)

end Sample

end SocietyGold
