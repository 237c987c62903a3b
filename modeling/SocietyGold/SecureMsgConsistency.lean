import SocietyGold.SecureMsgLog

/-!
# Consistency of the message store

Whatever peers send, the tokens of a bucket lead to the messages that were stored for them.  The
hash of a bucket is that of its tokens when a call of `SecureMsgReceive` stores messages of the
bucket that the peer has named, and of no other one, and has ended.
-/

namespace SocietyGold

open Support

/-! ## What a call of `SecureMsgStore` does -/

/-- The files and the buckets are the same. -/
def SmsgStore.Unchanged (store store' : SmsgStore) : Prop :=
  store'.files = store.files ∧ ∀ b, store'.smsgBuckets.lookup b = store.smsgBuckets.lookup b

/-- The bucket of a message, with its token for the end of the file. -/
def SmsgStore.withToken (store : SmsgStore) (r : SmsgRecord) : SecMsgBucket :=
  let bucket := store.bucket (bucketOf r.timestamp)
  { bucket with
    setTokens := bucket.setTokens.insert r.key
      (r.token ((store.files.lookup (bucketOf r.timestamp)).getD []).length) }

/-- A message that was new has been appended. -/
def SmsgStore.Appends (fUpdateBucket : Bool) (store : SmsgStore) (r : SmsgRecord)
    (store' : SmsgStore) : Prop :=
  r.key ∉ (store.bucket (bucketOf r.timestamp)).setTokens ∧
    ∃ bucket : SecMsgBucket,
      bucket.setTokens = (store.withToken r).setTokens ∧
      (fUpdateBucket = true → bucket.hash = SecMsgBucket.hashOf bucket.setTokens) ∧
      store' = ⟨store.smsgBuckets.insert (bucketOf r.timestamp) bucket,
        store.files.insert (bucketOf r.timestamp)
          ((store.files.lookup (bucketOf r.timestamp)).getD [] ++ r.bytes)⟩

section Store

variable {store store' : SmsgStore} {stored : List SmsgRecord} {r : SmsgRecord}

/-- A bucket that has a token exists. -/
theorem lookup_of_mem_bucket {b : ℤ} {key : TokenKey} (h : key ∈ (store.bucket b).setTokens) :
    store.smsgBuckets.lookup b = some (store.bucket b) := by
  unfold SmsgStore.bucket at h ⊢
  cases hBucket : store.smsgBuckets.lookup b with
  | none =>
      rw [hBucket] at h
      exact absurd h (AList.notMem_empty key)
  | some bucket => rfl

theorem unchanged_setBucket
    {b : ℤ} {bucket : SecMsgBucket} (h : store.smsgBuckets.lookup b = some bucket) :
    store.Unchanged (store.setBucket b bucket) := by
  refine ⟨rfl, fun b' => ?_⟩
  rw [SmsgStore.setBucket, Table.lookup_insert_ite]
  split_ifs with hSame
  · rw [hSame, h]
  · rfl

theorem withToken_eq (store : SmsgStore) (r : SmsgRecord) :
    { store.bucket (bucketOf r.timestamp) with
      setTokens := (store.bucket (bucketOf r.timestamp)).setTokens.insert
        { SecMsgToken.new r.timestamp r.payload 0 with
          offset := ((store.files.lookup (bucketOf r.timestamp)).getD []).length }.key
        { SecMsgToken.new r.timestamp r.payload 0 with
          offset := ((store.files.lookup (bucketOf r.timestamp)).getD []).length } } =
      store.withToken r := by
  unfold SmsgStore.withToken SmsgRecord.key SmsgRecord.token
  generalize r.timestamp = timestamp
  rfl

theorem secureMsgStore_cases (now : ℤ) (fUpdateBucket : Bool) (store : SmsgStore) (r : SmsgRecord) :
    (∃ store', secureMsgStore now r.header r.payload fUpdateBucket store = (1, store') ∧
      store.Unchanged store') ∨
    ∃ store', secureMsgStore now r.header r.payload fUpdateBucket store = (0, store') ∧
      store.Appends fUpdateBucket r store' := by
  have hKey : (SecMsgToken.new (SecureMessage.ofBytes r.header).timestamp r.payload 0).key =
      r.key := rfl
  have hTime : (SecureMessage.ofBytes r.header).timestamp = r.timestamp := rfl
  unfold secureMsgStore
  dsimp only
  rw [hKey, hTime]
  split_ifs with hLate hOld hKnown hUpdate
  · exact Or.inl ⟨store, rfl, rfl, fun _ => rfl⟩
  · exact Or.inl ⟨store, rfl, rfl, fun _ => rfl⟩
  · exact Or.inl ⟨_, rfl, unchanged_setBucket (lookup_of_mem_bucket hKnown)⟩
  · refine Or.inr ⟨_, rfl, hKnown, (store.withToken r).hashBucket now, rfl, fun _ => rfl, ?_⟩
    rw [withToken_eq, List.append_assoc, ← SmsgRecord.bytes, SmsgStore.setBucket]
  · refine Or.inr ⟨_, rfl, hKnown, store.withToken r, rfl, fun h => absurd h hUpdate, ?_⟩
    rw [withToken_eq, List.append_assoc, ← SmsgRecord.bytes, SmsgStore.setBucket]

theorem Logged.of_unchanged (h : Logged store stored) (hSame : store.Unchanged store') :
    Logged store' stored :=
  h.congr hSame.1 fun b => by rw [hSame.2 b]

theorem Logged.of_appends
    {fUpdateBucket : Bool} (h : Logged store stored) (hr : r.WellFormed)
    (hAppends : store.Appends fUpdateBucket r store') : Logged store' (stored ++ [r]) := by
  obtain ⟨hNew, bucket, hBucket, _, rfl⟩ := hAppends
  exact h.append hr (mt h.key_mem_iff.mpr hNew) hBucket

end Store

/-! ## What a round stores -/

section Round

variable {tools : SmsgTools} {now : ℤ} {data : List UInt8} {store : SmsgStore}

theorem length_of_readRange
    {start size : ℕ} {bytes : List UInt8} (h : readRange data start size = .ok bytes) :
    bytes.length = size := by
  unfold readRange at h
  split_ifs at h with hInside
  obtain rfl := Except.ok.inj h
  rw [List.length_take, List.length_drop]
  omega

/-- A valid message is not too large. -/
theorem nPayload_le_of_validate
    {header : List UInt8} {start : ℕ} (h : secureMsgValidate tools data header start = .ok 0) :
    (SecureMessage.ofBytes header).nPayload ≤ SMSG_MAX_MSG_WORST := by
  unfold secureMsgValidate at h
  dsimp only at h
  split_ifs at h with hVersion hSize
  · exact absurd (Except.ok.inj h) (by decide)
  · exact absurd (Except.ok.inj h) (by decide)
  · exact not_lt.mp hSize

/-- A round leaves the files and buckets as they are, or appends a message of the right size. -/
theorem receiveRound_cases
    {n : ℕ} {outcome : RoundOutcome} (h : receiveRound tools now data n store = .ok outcome) :
    (outcome.stored = none ∧ store.Unchanged outcome.store) ∨
      ∃ r : SmsgRecord, outcome.stored = some r ∧ r.WellFormed ∧
        store.Appends false r outcome.store := by
  unfold receiveRound at h
  split_ifs at h with hShort
  · obtain rfl := Except.ok.inj h
    exact Or.inl ⟨rfl, rfl, fun _ => rfl⟩
  · obtain ⟨header, hHeader, h⟩ := bind_eq_ok.mp h
    dsimp only at h
    obtain ⟨rv, hValidate, h⟩ := bind_eq_ok.mp h
    split_ifs at h with hInvalid
    · obtain rfl := Except.ok.inj h
      exact Or.inl ⟨rfl, rfl, fun _ => rfl⟩
    · obtain ⟨payload, hPayload, h⟩ := bind_eq_ok.mp h
      have hOutcome := Except.ok.inj h
      rcases secureMsgStore_cases now false store ⟨header, payload⟩ with
        ⟨store', hStore, hSame⟩ | ⟨store', hStore, hAppends⟩
      · rw [hStore, roundAfter, if_pos (show (1, store').1 ≠ 0 from one_ne_zero)] at hOutcome
        subst hOutcome
        exact Or.inl ⟨rfl, hSame⟩
      · rw [hStore, roundAfter, if_neg (show ¬(0, store').1 ≠ 0 from not_not_intro rfl)] at hOutcome
        subst hOutcome
        rw [not_not.mp hInvalid] at hValidate
        have hSize := nPayload_le_of_validate hValidate
        have hLength := length_of_readRange hPayload
        have hWorst : SMSG_HDR_LEN + SMSG_MAX_MSG_WORST < 2 ^ 32 := by decide
        refine Or.inr ⟨⟨header, payload⟩, rfl, ⟨length_of_readRange hHeader, hLength, ?_⟩, hAppends⟩
        dsimp only
        omega

end Round

/-! ## Steps -/

/-- The message that a round stores lies in the bucket that the peer has named. -/
def SmsgEvent.StoresNamed (tools : SmsgTools) : SmsgEvent → SmsgNode → Prop
  | .round now, s => ∀ p outcome r, s.receiving = some p → p.remaining ≠ 0 →
      receiveRound tools now p.data p.n s.store = .ok outcome → outcome.stored = some r →
        bucketOf r.timestamp = p.bktTime
  | .store _ _, _ | .receive _ _, _ | .finish _, _ => True

namespace SmsgNode

/-- The hash of a bucket is that of its tokens, unless a call of `SecureMsgReceive` for the
bucket goes on. -/
def Hashed (s : SmsgNode) : Prop :=
  ∀ b bucket, s.store.smsgBuckets.lookup b = some bucket →
    (∀ p, s.receiving = some p → p.bktTime ≠ b) → bucket.hash = SecMsgBucket.hashOf bucket.setTokens

variable {tools : SmsgTools} {s s' : SmsgNode}

theorem Hashed.of_unchanged
    (h : s.Hashed) (hSame : s.store.Unchanged s'.store)
    (hReceiving : ∀ b, (∀ p, s'.receiving = some p → p.bktTime ≠ b) →
      ∀ p, s.receiving = some p → p.bktTime ≠ b) : s'.Hashed := by
  intro b bucket hBucket hIdle
  rw [hSame.2 b] at hBucket
  exact h b bucket hBucket (hReceiving b hIdle)

/-- An update of one bucket keeps the hashes when the hash of that bucket is right. -/
theorem Hashed.insert
    {files : Table ℤ (List UInt8)} {time : ℤ} {bucket : SecMsgBucket} {stored : List SmsgRecord}
    (h : s.Hashed) {receiving : Option SmsgReceive}
    (hReceiving : ∀ b ≠ time, (∀ p, receiving = some p → p.bktTime ≠ b) →
      ∀ p, s.receiving = some p → p.bktTime ≠ b)
    (hHash : (∀ p, receiving = some p → p.bktTime ≠ time) →
      bucket.hash = SecMsgBucket.hashOf bucket.setTokens) :
    Hashed ⟨⟨s.store.smsgBuckets.insert time bucket, files⟩, receiving, stored⟩ := by
  intro b bucket' hBucket hIdle
  dsimp only at hBucket hIdle
  rw [Table.lookup_insert_ite] at hBucket
  split_ifs at hBucket with hSame
  · obtain rfl := Option.some.inj hBucket
    exact hHash (hSame ▸ hIdle)
  · exact h b bucket' hBucket (hReceiving b hSame hIdle)

/-! ## Logs -/

theorem storeOwn_eq
    {now : ℤ} {r : SmsgRecord} {result : ℕ × SmsgStore}
    (h : secureMsgStore now r.header r.payload true s.store = result) :
    s.storeOwn now r =
      ⟨result.2, s.receiving, if result.1 = 0 then s.stored ++ [r] else s.stored⟩ := by
  rw [storeOwn, h]

theorem logged_storeOwn
    (hLog : Logged s.store s.stored) (now : ℤ) {r : SmsgRecord} (hr : r.WellFormed) :
    Logged (s.storeOwn now r).store (s.storeOwn now r).stored := by
  rcases secureMsgStore_cases now true s.store r with
    ⟨store', hStore, hSame⟩ | ⟨store', hStore, hAppends⟩
  · rw [storeOwn_eq hStore]
    exact hLog.of_unchanged hSame
  · rw [storeOwn_eq hStore]
    exact hLog.of_appends hr hAppends

/-- The lock of a bucket is no part of its tokens. -/
theorem tokens_unlock (store : SmsgStore) (time b : ℤ) :
    ((store.unlock time).smsgBuckets.lookup b).map SecMsgBucket.setTokens =
      (store.smsgBuckets.lookup b).map SecMsgBucket.setTokens := by
  unfold SmsgStore.unlock
  cases hBucket : store.smsgBuckets.lookup time with
  | none => rfl
  | some bucket =>
      dsimp only
      rw [SmsgStore.setBucket, Table.lookup_insert_ite]
      split_ifs with hSame
      · rw [hSame, hBucket]
        rfl
      · rfl

theorem tokens_hashNamedBucket (store : SmsgStore) (now time b : ℤ) :
    ((hashNamedBucket now time store).2.smsgBuckets.lookup b).map SecMsgBucket.setTokens =
      (store.smsgBuckets.lookup b).map SecMsgBucket.setTokens := by
  unfold hashNamedBucket
  cases hBucket : store.smsgBuckets.lookup time with
  | none => rfl
  | some bucket =>
      dsimp only
      rw [SmsgStore.setBucket, Table.lookup_insert_ite]
      split_ifs with hSame
      · rw [hSame, hBucket]
        rfl
      · rfl

theorem files_unlock (store : SmsgStore) (time : ℤ) : (store.unlock time).files = store.files := by
  unfold SmsgStore.unlock
  cases store.smsgBuckets.lookup time with
  | none => rfl
  | some bucket => rfl

theorem files_hashNamedBucket (store : SmsgStore) (now time : ℤ) :
    (hashNamedBucket now time store).2.files = store.files := by
  unfold hashNamedBucket
  cases store.smsgBuckets.lookup time with
  | none => rfl
  | some bucket => rfl

/-- `SecureMsgReceive` returns at once, enters its loop or gives up the lock on a bucket. -/
theorem beginReceive_cases
    {now : ℤ} {data : List UInt8} (h : s.beginReceive now data = .ok s') :
    s' = s ∨ (∃ p, s' = { s with receiving := some p }) ∨
      ∃ time, s' = { s with store := s.store.unlock time } := by
  unfold beginReceive at h
  split_ifs at h with hShort
  · exact Or.inl (Except.ok.inj h).symm
  · obtain ⟨bunch, _, h⟩ := bind_eq_ok.mp h
    dsimp only at h
    obtain ⟨time, _, h⟩ := bind_eq_ok.mp h
    split_ifs at h
    · exact Or.inl (Except.ok.inj h).symm
    · exact Or.inl (Except.ok.inj h).symm
    · exact Or.inr (Or.inr ⟨_, (Except.ok.inj h).symm⟩)
    · exact Or.inr (Or.inl ⟨_, (Except.ok.inj h).symm⟩)

theorem receiveNext_cases
    {now : ℤ} (h : s.receiveNext tools now = .ok s') :
    s' = s ∨ ∃ p outcome, s.receiving = some p ∧ p.remaining ≠ 0 ∧
      receiveRound tools now p.data p.n s.store = .ok outcome ∧ s' = s.afterRound p outcome := by
  unfold receiveNext at h
  cases hReceiving : s.receiving with
  | none =>
      rw [hReceiving] at h
      exact Or.inl (Except.ok.inj h).symm
  | some p =>
      rw [hReceiving] at h
      dsimp only at h
      split_ifs at h with hEnd
      · exact Or.inl (Except.ok.inj h).symm
      · obtain ⟨outcome, hRound, h⟩ := bind_eq_ok.mp h
        exact Or.inr ⟨p, outcome, rfl, hEnd, hRound, (Except.ok.inj h).symm⟩

theorem finishReceive_cases (now : ℤ) (s : SmsgNode) :
    s.finishReceive now = s ∨ ∃ p, s.receiving = some p ∧
      s.finishReceive now =
        ⟨(hashNamedBucket now p.bktTime s.store).2, none, s.stored⟩ := by
  unfold finishReceive
  cases hReceiving : s.receiving with
  | none => exact Or.inl rfl
  | some p =>
      dsimp only
      split_ifs with hLeft
      · exact Or.inl rfl
      · exact Or.inr ⟨p, rfl, rfl⟩

theorem Hashed.unlock
    (h : s.Hashed) (time : ℤ) (hIdle : ∀ b p, s.receiving = some p → p.bktTime ≠ b) :
    Hashed { s with store := s.store.unlock time } := by
  unfold SmsgStore.unlock
  cases hBucket : s.store.smsgBuckets.lookup time with
  | none => exact h
  | some bucket =>
      exact h.insert (fun b _ _ => hIdle b) fun _ => h time bucket hBucket (hIdle time)

theorem Hashed.finish
    (h : s.Hashed) (now : ℤ) {p : SmsgReceive} (hReceiving : s.receiving = some p) :
    Hashed ⟨(hashNamedBucket now p.bktTime s.store).2, none, s.stored⟩ := by
  have hOther : ∀ b ≠ p.bktTime, ∀ q, s.receiving = some q → q.bktTime ≠ b := by
    intro b hb q hq
    obtain rfl := Option.some.inj (hReceiving.symm.trans hq)
    exact Ne.symm hb
  unfold hashNamedBucket
  cases hBucket : s.store.smsgBuckets.lookup p.bktTime with
  | none =>
      intro b bucket hFound _
      dsimp only at hFound
      refine h b bucket hFound (hOther b ?_)
      rintro rfl
      rw [hBucket] at hFound
      cases hFound
  | some bucket => exact h.insert (fun b hb _ => hOther b hb) fun _ => rfl

/-- A step keeps the logs. -/
theorem logged_step
    {e : SmsgEvent} (hLog : Logged s.store s.stored) (hStep : e.step tools s = .ok s') :
    Logged s'.store s'.stored := by
  cases e with
  | store now message =>
      obtain rfl := Except.ok.inj hStep
      exact logged_storeOwn hLog now message.2
  | receive now data =>
      rw [SmsgEvent.step] at hStep
      split_ifs at hStep with hBusy
      · obtain rfl := Except.ok.inj hStep
        exact hLog
      · rcases beginReceive_cases hStep with rfl | ⟨p, rfl⟩ | ⟨time, rfl⟩
        · exact hLog
        · exact hLog
        · exact hLog.congr (files_unlock _ _) (tokens_unlock _ _)
  | round now =>
      rcases receiveNext_cases hStep with rfl | ⟨p, outcome, hReceiving, _, hRound, rfl⟩
      · exact hLog
      · rcases receiveRound_cases hRound with ⟨hNone, hSame⟩ | ⟨r, hSome, hr, hAppends⟩
        · rw [afterRound, hNone, Option.toList_none, List.append_nil]
          exact hLog.of_unchanged hSame
        · rw [afterRound, hSome, Option.toList_some]
          exact hLog.of_appends hr hAppends
  | finish now =>
      obtain rfl := Except.ok.inj hStep
      rcases finishReceive_cases now s with hSame | ⟨p, hReceiving, hFinish⟩
      · rw [hSame]
        exact hLog
      · rw [hFinish]
        exact hLog.congr (files_hashNamedBucket _ _ _) (tokens_hashNamedBucket _ _ _)

/-- So does a step of a call that stores messages of the bucket that it names keep the hashes. -/
theorem Hashed.step
    {e : SmsgEvent} (h : s.Hashed) (hNamed : e.StoresNamed tools s)
    (hStep : e.step tools s = .ok s') : s'.Hashed := by
  cases e with
  | store now message =>
      obtain rfl := Except.ok.inj hStep
      rcases secureMsgStore_cases now true s.store message.1 with
        ⟨store', hStore, hSame⟩ | ⟨store', hStore, hAppends⟩
      · rw [storeOwn_eq hStore]
        exact h.of_unchanged hSame fun _ hIdle => hIdle
      · rw [storeOwn_eq hStore]
        obtain ⟨_, bucket, _, hHash, rfl⟩ := hAppends
        exact h.insert (fun _ _ hIdle => hIdle) fun _ => hHash rfl
  | receive now data =>
      rw [SmsgEvent.step] at hStep
      split_ifs at hStep with hBusy
      · obtain rfl := Except.ok.inj hStep
        exact h
      · have hNone : s.receiving = none := by
          rwa [Bool.not_eq_true, Option.isSome_eq_false_iff, Option.isNone_iff_eq_none] at hBusy
        have hIdle : ∀ b p, s.receiving = some p → p.bktTime ≠ b := by
          intro b p hp
          rw [hNone] at hp
          cases hp
        rcases beginReceive_cases hStep with rfl | ⟨p, rfl⟩ | ⟨time, rfl⟩
        · exact h
        · exact h.of_unchanged ⟨rfl, fun _ => rfl⟩ fun b _ => hIdle b
        · exact h.unlock time hIdle
  | round now =>
      rcases receiveNext_cases hStep with rfl | ⟨p, outcome, hReceiving, hLeft, hRound, rfl⟩
      · exact h
      · -- the call goes on, or has ended its loop, with the same bucket
        obtain ⟨p', hNext, hTime⟩ : ∃ p', (s.afterRound p outcome).receiving = some p' ∧
            p'.bktTime = p.bktTime := by
          unfold afterRound
          cases outcome.next with
          | none => exact ⟨_, rfl, rfl⟩
          | some n => exact ⟨_, rfl, rfl⟩
        have hStill : ∀ b, (∀ q, (s.afterRound p outcome).receiving = some q → q.bktTime ≠ b) →
            ∀ q, s.receiving = some q → q.bktTime ≠ b := by
          intro b hIdle q hq
          obtain rfl := Option.some.inj (hReceiving.symm.trans hq)
          rw [← hTime]
          exact hIdle p' hNext
        rcases receiveRound_cases hRound with ⟨_, hSame⟩ | ⟨r, hSome, _, hAppends⟩
        · exact h.of_unchanged hSame hStill
        · obtain ⟨_, bucket, _, _, hStore⟩ := hAppends
          have hBucket := hNamed p outcome r hReceiving hLeft hRound hSome
          rw [show s.afterRound p outcome = ⟨outcome.store, (s.afterRound p outcome).receiving,
            (s.afterRound p outcome).stored⟩ from rfl, hStore]
          refine h.insert (fun b _ => hStill b) fun hIdle => ?_
          exact absurd (hTime.trans hBucket.symm) (hIdle p' hNext)
  | finish now =>
      obtain rfl := Except.ok.inj hStep
      rcases finishReceive_cases now s with hSame | ⟨p, hReceiving, hFinish⟩
      · rw [hSame]
        exact h
      · rw [hFinish]
        exact h.finish now hReceiving

/-- The tokens of a bucket are of times in the bucket, each leads to one message, with its
header and payload, and each message has a token. -/
structure Consistent (s : SmsgNode) : Prop where
  timestamps : ∀ b bucket key token, s.store.smsgBuckets.lookup b = some bucket →
    bucket.setTokens.lookup key = some token → bucketOf token.timestamp = b
  retrieved : ∀ b bucket key token, s.store.smsgBuckets.lookup b = some bucket →
    bucket.setTokens.lookup key = some token →
      ∃ r ∈ s.stored, r.WellFormed ∧ r.key = token.key ∧
        (∀ r' ∈ s.stored, r'.key = token.key → r' = r) ∧
        secureMsgRetrieve s.store.files token = some (r.header ++ r.payload)
  found : ∀ r ∈ s.stored, ∃ bucket token,
    s.store.smsgBuckets.lookup (bucketOf r.timestamp) = some bucket ∧
      bucket.setTokens.lookup r.key = some token

theorem consistent_of_logged (hLog : Logged s.store s.stored) : s.Consistent where
  timestamps b bucket key token hBucket hToken := by
    obtain ⟨r, _, _, hTime, _, hToken, _⟩ := hLog.retrieves hBucket hToken
    rw [hToken, hTime]
  retrieved b bucket key token hBucket hToken := by
    obtain ⟨r, hStored, hKey, _, hSame, _, hRetrieve⟩ := hLog.retrieves hBucket hToken
    refine ⟨r, hStored, hLog.wellFormed r hStored, hKey.trans hSame.symm, ?_, hRetrieve⟩
    intro r' hr' hKey'
    exact List.inj_on_of_nodup_map hLog.keys hr' hStored (hKey'.trans (hSame.trans hKey.symm))
  found r hr := by
    have hMem := hLog.key_mem_iff.mpr (List.mem_map_of_mem hr)
    obtain ⟨token, hToken⟩ := Table.mem_iff_lookup.mp hMem
    exact ⟨_, token, lookup_of_mem_bucket hMem, hToken⟩

end SmsgNode

/-! ## Runs -/

/-- In every state that messages of peers and of the node lead to, the tokens and the files are
consistent.  If no call stores a message outside the bucket that its peer has named, the hashes
are right where no call goes on.  A bucket in the time of retention whose payloads have eight
bytes is rebuilt with the same tokens. -/
theorem smsgStore_consistent
    {tools : SmsgTools} {events : List SmsgEvent} {s : SmsgNode}
    (hRun : runEvents (SmsgEvent.step tools) events SmsgNode.initial = .ok s) :
    s.Consistent ∧
      ((∀ past e rest u, events = past ++ e :: rest →
        runEvents (SmsgEvent.step tools) past SmsgNode.initial = .ok u → e.StoresNamed tools u) →
          s.Hashed) ∧
      ∀ now b, now - SMSG_RETENTION ≤ b →
        (∀ r ∈ s.stored, bucketOf r.timestamp = b → 8 ≤ r.payload.length) →
          ((secureMsgBuildBucketSet now s.store.files).smsgBuckets.lookup b).map
              SecMsgBucket.setTokens =
            (s.store.smsgBuckets.lookup b).map SecMsgBucket.setTokens := by
  have hLog : Logged s.store s.stored :=
    runEvents_invariant (I := fun s => Logged s.store s.stored) Logged.initial
      (fun _ _ _ _ _ _ _ hLog hStep => SmsgNode.logged_step hLog hStep) hRun
  refine ⟨SmsgNode.consistent_of_logged hLog, fun hNamed => ?_, fun now b => hLog.rebuilds⟩
  apply runEvents_invariant (I := SmsgNode.Hashed) ?_ ?_ hRun
  · intro b bucket hBucket
    cases hBucket
  · intro past e rest u v hSplit hPast hHashed hStep
    exact hHashed.step (hNamed past e rest u hSplit hPast) hStep

namespace Sample

def smsgTime : ℤ := 1700000400

/-- A message ten seconds after the beginning of a bucket. -/
def smsgRecord (payload : List UInt8) : SmsgRecord :=
  ⟨smsgHeader (smsgTime + 10) payload.length, payload⟩

def bunchOf (bktTime : ℤ) (r : SmsgRecord) : SmsgEvent :=
  .receive (smsgTime + 20) (smsgBunch 1 bktTime r.bytes)

/-- The message of a peer in a bucket that the peer has not named, the same message in the right
bucket before the end of the call, a message with a payload of four bytes, and a message at
the end of the time of retention. -/
theorem smsgStore_inconsistent :
    (∃ s, runEvents (SmsgEvent.step smsgTools)
        [bunchOf (smsgTime - 600) (smsgRecord [1, 2, 3, 4, 5, 6, 7, 8]), .round (smsgTime + 20),
          .finish (smsgTime + 20)] SmsgNode.initial = .ok s ∧ s.receiving.isNone = true ∧
      ∃ bucket ∈ s.store.smsgBuckets.lookup smsgTime,
        bucket.hash ≠ SecMsgBucket.hashOf bucket.setTokens) ∧
    (∃ s, runEvents (SmsgEvent.step smsgTools)
        [bunchOf smsgTime (smsgRecord [1, 2, 3, 4, 5, 6, 7, 8]), .round (smsgTime + 20)]
          SmsgNode.initial = .ok s ∧
      ∃ bucket ∈ s.store.smsgBuckets.lookup smsgTime,
        bucket.hash ≠ SecMsgBucket.hashOf bucket.setTokens) ∧
    (∃ s, runEvents (SmsgEvent.step smsgTools)
        [bunchOf smsgTime (smsgRecord [1, 2, 3, 4]), .round (smsgTime + 20),
          .finish (smsgTime + 20)] SmsgNode.initial = .ok s ∧
      ((secureMsgBuildBucketSet (smsgTime + 30) s.store.files).smsgBuckets.lookup smsgTime).map
          SecMsgBucket.setTokens ≠
        (s.store.smsgBuckets.lookup smsgTime).map SecMsgBucket.setTokens) ∧
    ∃ s, runEvents (SmsgEvent.step smsgTools)
        [bunchOf smsgTime (smsgRecord [1, 2, 3, 4, 5, 6, 7, 8]), .round (smsgTime + 20),
          .finish (smsgTime + 20)] SmsgNode.initial = .ok s ∧
      ((secureMsgBuildBucketSet (smsgTime + 10 + SMSG_RETENTION)
          s.store.files).smsgBuckets.lookup smsgTime).map SecMsgBucket.setTokens ≠
        (s.store.smsgBuckets.lookup smsgTime).map SecMsgBucket.setTokens := by
  refine ⟨?_, ?_, ?_, ?_⟩
  · apply exists_ok_of_test
    decide +kernel
  · apply exists_ok_of_test
    decide +kernel
  · have hTest : ∃ s, runEvents (SmsgEvent.step smsgTools)
        [bunchOf smsgTime (smsgRecord [1, 2, 3, 4]), .round (smsgTime + 20),
          .finish (smsgTime + 20)] SmsgNode.initial = .ok s ∧
        ((secureMsgBuildBucketSet (smsgTime + 30) s.store.files).smsgBuckets.lookup smsgTime).map
            (fun bucket => bucket.setTokens.entries.length) ≠
          (s.store.smsgBuckets.lookup smsgTime).map
            fun bucket => bucket.setTokens.entries.length := by
      apply exists_ok_of_test
      decide +kernel
    obtain ⟨s, hRun, hLength⟩ := hTest
    refine ⟨s, hRun, fun hSame => hLength ?_⟩
    have hMap := congrArg (Option.map fun setTokens => setTokens.entries.length) hSame
    rw [Option.map_map, Option.map_map] at hMap
    exact hMap
  · apply exists_ok_of_test
    decide +kernel

/-- A message of the node itself. -/
theorem ownMessage_consistent :
    ∃ s, runEvents (SmsgEvent.step smsgTools)
        [.store (smsgTime + 20) ⟨smsgRecord [1, 2, 3, 4, 5, 6, 7, 8],
          by decide +kernel, by decide +kernel, by decide +kernel⟩] SmsgNode.initial = .ok s ∧
      s.Consistent ∧ s.Hashed ∧
      ((secureMsgBuildBucketSet (smsgTime + 30) s.store.files).smsgBuckets.lookup smsgTime).map
          SecMsgBucket.setTokens =
        (s.store.smsgBuckets.lookup smsgTime).map SecMsgBucket.setTokens := by
  refine ⟨_, rfl, ?_⟩
  obtain ⟨hConsistent, hHashed, hRebuilt⟩ := @smsgStore_consistent smsgTools
    [.store (smsgTime + 20) ⟨smsgRecord [1, 2, 3, 4, 5, 6, 7, 8],
      by decide +kernel, by decide +kernel, by decide +kernel⟩] _ rfl
  refine ⟨hConsistent, hHashed ?_, hRebuilt _ _ (by decide) ?_⟩
  · intro past e rest u hSplit hPast
    cases past with
    | nil =>
        obtain ⟨rfl, _⟩ := List.cons.inj hSplit
        exact trivial
    | cons first past => simp at hSplit
  · intro r hr _
    have hOne : r = smsgRecord [1, 2, 3, 4, 5, 6, 7, 8] := by
      unfold SmsgNode.storeOwn at hr
      dsimp only at hr
      split_ifs at hr
      · exact List.mem_singleton.mp hr
      · cases hr
    rw [hOne]
    decide

end Sample

end SocietyGold
