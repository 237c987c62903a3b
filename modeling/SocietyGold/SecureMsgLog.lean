import SocietyGold.SecureMsgBuckets

/-!
# The messages behind the store

A file of the store is the log of the messages of a bucket, and the token set is its index.
`SecureMsgStore` appends to both, so that a token leads to its message.  A scan of the file at
the next start finds the same tokens, unless a payload has less than eight bytes: the loop
takes such a payload for the beginning of the next header.
-/

namespace SocietyGold

open Support

/-! ## Records and tokens -/

theorem SecMsgToken.timestamp_new (timestamp : ℤ) (payload : List UInt8) (offset : ℕ) :
    (SecMsgToken.new timestamp payload offset).timestamp = timestamp := rfl

theorem SecMsgToken.fst_key_new (timestamp : ℤ) (payload : List UInt8) (offset : ℕ) :
    (ofLex (SecMsgToken.new timestamp payload offset).key).1 = timestamp := rfl

namespace SmsgRecord

variable {r r' : SmsgRecord}

theorem key_token (r : SmsgRecord) (offset : ℕ) : (r.token offset).key = r.key := rfl

theorem timestamp_token (r : SmsgRecord) (offset : ℕ) :
    (r.token offset).timestamp = r.timestamp := by
  rw [token, SecMsgToken.timestamp_new]

theorem fst_key (r : SmsgRecord) : (ofLex r.key).1 = r.timestamp := by
  rw [key, token, SecMsgToken.fst_key_new]

theorem timestamp_eq_of_key (h : r.key = r'.key) : r.timestamp = r'.timestamp := by
  rw [← fst_key, h, fst_key]

theorem WellFormed.take_header (h : r.WellFormed) (rest : List UInt8) :
    (r.bytes ++ rest).take SMSG_HDR_LEN = r.header := by
  rw [bytes, List.append_assoc, ← h.header_length, List.take_left]

theorem WellFormed.drop_header (h : r.WellFormed) (rest : List UInt8) :
    (r.bytes ++ rest).drop SMSG_HDR_LEN = r.payload ++ rest := by
  rw [bytes, List.append_assoc, ← h.header_length, List.drop_left]

theorem WellFormed.length_bytes (h : r.WellFormed) :
    r.bytes.length = SMSG_HDR_LEN + r.payload.length := by
  rw [bytes, List.length_append, h.header_length]

/-- The record at a position of a file is what is retrieved for its token. -/
theorem WellFormed.retrieve
    (h : r.WellFormed) {files : Table ℤ (List UInt8)} {file rest : List UInt8} {offset : ℕ}
    (hFile : files.lookup (bucketOf r.timestamp) = some file)
    (hDrop : file.drop offset = r.bytes ++ rest) :
    secureMsgRetrieve files (r.token offset) = some (r.header ++ r.payload) := by
  have hHeader : (file.drop offset).take SMSG_HDR_LEN = r.header := by
    rw [hDrop, h.take_header]
  have hPayload : (file.drop (offset + SMSG_HDR_LEN)).take r.payload.length = r.payload := by
    rw [← List.drop_drop, hDrop, h.drop_header, List.take_left]
  have hOffset : (r.token offset).offset = offset := rfl
  have hSize : (SMSG_HDR_LEN + r.payload.length) % 2 ^ 32 = SMSG_HDR_LEN + r.payload.length := by
    have hLt := h.size_lt
    omega
  unfold secureMsgRetrieve
  rw [timestamp_token, hFile, Option.bind_eq_bind, Option.bind_some, hOffset, hHeader]
  dsimp only
  rw [if_neg (not_not_intro h.header_length), ← h.payload_length, hPayload, hSize,
    if_neg (by simp)]

/-- A round of the scan at a record whose payload is not too small. -/
theorem WellFormed.tokenRound
    (h : r.WellFormed) (hSample : 8 ≤ r.payload.length) {file rest : List UInt8} {offset : ℕ}
    (hDrop : file.drop offset = r.bytes ++ rest) (setTokens : TokenSet) :
    tokenRound file (offset, setTokens) =
      some (offset + r.bytes.length,
        if r.key ∈ setTokens then setTokens else setTokens.insert r.key (r.token offset)) := by
  have hLength := congrArg List.length hDrop
  rw [List.length_drop, List.length_append, h.length_bytes] at hLength
  have hHeader : (file.drop offset).take SMSG_HDR_LEN = r.header := by
    rw [hDrop, h.take_header]
  have hFirst : (file.drop (offset + SMSG_HDR_LEN)).take 8 = r.payload.take 8 := by
    rw [← List.drop_drop, hDrop, h.drop_header, List.take_append_of_le_length hSample]
  have hToken : r.token offset = ⟨r.timestamp, r.payload.take 8, offset⟩ := by
    rw [token, SecMsgToken.new, if_neg (by omega)]
  have hTime : (SecureMessage.ofBytes r.header).timestamp = r.timestamp := rfl
  have hKey : (⟨r.timestamp, r.payload.take 8, offset⟩ : SecMsgToken).key = r.key := by
    rw [← hToken, key_token]
  unfold SocietyGold.tokenRound
  dsimp only
  rw [if_neg (by omega), hHeader, ← h.payload_length, if_neg (by omega), if_neg (by omega), hFirst]
  rw [hTime, hKey, hToken, h.length_bytes, Nat.add_assoc]

end SmsgRecord

/-! ## Logs -/

/-- The messages of a bucket. -/
def logOf (stored : List SmsgRecord) (b : ℤ) : List SmsgRecord :=
  stored.filter fun r => bucketOf r.timestamp = b

/-- The index of a log. -/
def tokensOf (records : List SmsgRecord) : TokenSet :=
  indexed SmsgRecord.bytes SmsgRecord.key SmsgRecord.token records

/-- The files hold the logs of the messages, and the buckets the indices. -/
structure Logged (store : SmsgStore) (stored : List SmsgRecord) : Prop where
  wellFormed : ∀ r ∈ stored, r.WellFormed
  keys : (stored.map SmsgRecord.key).Nodup
  files : ∀ b, store.files.lookup b =
    if logOf stored b = [] then none else some (layout SmsgRecord.bytes (logOf stored b))
  tokens : ∀ b, (store.smsgBuckets.lookup b).map SecMsgBucket.setTokens =
    if logOf stored b = [] then none else some (tokensOf (logOf stored b))

section Logs

variable {store store' : SmsgStore} {stored : List SmsgRecord} {r : SmsgRecord} {b : ℤ}

theorem mem_logOf : r ∈ logOf stored b ↔ r ∈ stored ∧ bucketOf r.timestamp = b := by
  rw [logOf, List.mem_filter, decide_eq_true_eq]

theorem logOf_concat_self : logOf (stored ++ [r]) (bucketOf r.timestamp) =
    logOf stored (bucketOf r.timestamp) ++ [r] := by
  rw [logOf, List.filter_append, List.filter_singleton, decide_eq_true rfl, ← logOf]
  rfl

theorem logOf_concat_of_ne (hOther : bucketOf r.timestamp ≠ b) :
    logOf (stored ++ [r]) b = logOf stored b := by
  rw [logOf, List.filter_append, List.filter_singleton, decide_eq_false hOther, ← logOf]
  exact List.append_nil _

namespace Logged

theorem initial : Logged ⟨∅, ∅⟩ [] where
  wellFormed _ hr := absurd hr List.not_mem_nil
  keys := List.nodup_nil
  files _ := rfl
  tokens _ := rfl

theorem log_keys (h : Logged store stored) (b : ℤ) :
    ((logOf stored b).map SmsgRecord.key).Nodup :=
  h.keys.sublist (List.filter_sublist.map _)

theorem file_eq (h : Logged store stored) (b : ℤ) :
    (store.files.lookup b).getD [] = layout SmsgRecord.bytes (logOf stored b) := by
  rw [h.files b]
  split_ifs with hEmpty
  · rw [hEmpty]
    rfl
  · rfl

theorem bucket_eq (h : Logged store stored) (b : ℤ) :
    (store.bucket b).setTokens = tokensOf (logOf stored b) := by
  have hTokens := h.tokens b
  unfold SmsgStore.bucket
  split_ifs at hTokens with hEmpty
  · rw [Option.map_eq_none_iff.mp hTokens, hEmpty]
    rfl
  · obtain ⟨bucket, hBucket, hEq⟩ := Option.map_eq_some_iff.mp hTokens
    rw [hBucket]
    exact hEq

/-- The tokens that a bucket has are those of its log. -/
theorem tokens_of_lookup
    (h : Logged store stored) {bucket : SecMsgBucket}
    (hBucket : store.smsgBuckets.lookup b = some bucket) :
    logOf stored b ≠ [] ∧ bucket.setTokens = tokensOf (logOf stored b) := by
  have hTokens := h.tokens b
  rw [hBucket, Option.map_some] at hTokens
  split_ifs at hTokens with hEmpty
  exact ⟨hEmpty, Option.some.inj hTokens⟩

/-- A message has a key that is new in its bucket only if it is new everywhere. -/
theorem key_mem_iff (h : Logged store stored) :
    r.key ∈ (store.bucket (bucketOf r.timestamp)).setTokens ↔
      r.key ∈ stored.map SmsgRecord.key := by
  rw [h.bucket_eq, tokensOf, mem_indexed]
  constructor
  · intro hMem
    obtain ⟨r', hr', hKey⟩ := List.mem_map.mp hMem
    exact List.mem_map.mpr ⟨r', (mem_logOf.mp hr').1, hKey⟩
  · intro hMem
    obtain ⟨r', hr', hKey⟩ := List.mem_map.mp hMem
    refine List.mem_map.mpr ⟨r', mem_logOf.mpr ⟨hr', ?_⟩, hKey⟩
    rw [SmsgRecord.timestamp_eq_of_key hKey]

/-- Stores with the same files and token sets hold the same logs. -/
theorem congr
    (h : Logged store stored) (hFiles : store'.files = store.files)
    (hTokens : ∀ b, (store'.smsgBuckets.lookup b).map SecMsgBucket.setTokens =
      (store.smsgBuckets.lookup b).map SecMsgBucket.setTokens) : Logged store' stored where
  wellFormed := h.wellFormed
  keys := h.keys
  files b := by rw [hFiles, h.files b]
  tokens b := by rw [hTokens b, h.tokens b]

/-- A message is appended to the file of its bucket, and its token is inserted. -/
theorem append
    (h : Logged store stored) (hr : r.WellFormed) (hNew : r.key ∉ stored.map SmsgRecord.key)
    {bucket : SecMsgBucket}
    (hBucket : bucket.setTokens = (store.bucket (bucketOf r.timestamp)).setTokens.insert r.key
      (r.token ((store.files.lookup (bucketOf r.timestamp)).getD []).length)) :
    Logged ⟨store.smsgBuckets.insert (bucketOf r.timestamp) bucket,
      store.files.insert (bucketOf r.timestamp)
        ((store.files.lookup (bucketOf r.timestamp)).getD [] ++ r.bytes)⟩ (stored ++ [r]) where
  wellFormed r' hr' := by
    rcases List.mem_append.mp hr' with hOld | hLast
    · exact h.wellFormed r' hOld
    · rw [List.mem_singleton.mp hLast]
      exact hr
  keys := by
    rw [List.map_append, List.map_singleton]
    exact List.nodup_append'.mpr ⟨h.keys, List.nodup_singleton _,
      List.disjoint_singleton.mpr hNew⟩
  files b := by
    rw [Table.lookup_insert_ite]
    by_cases hSame : b = bucketOf r.timestamp
    · rw [if_pos hSame, hSame, logOf_concat_self, if_neg (List.concat_ne_nil _ _), layout_concat,
        h.file_eq]
    · rw [if_neg hSame, logOf_concat_of_ne (Ne.symm hSame), h.files b]
  tokens b := by
    rw [Table.lookup_insert_ite]
    by_cases hSame : b = bucketOf r.timestamp
    · rw [if_pos hSame, hSame, logOf_concat_self, if_neg (List.concat_ne_nil _ _), Option.map_some,
        tokensOf, indexed_concat, hBucket, h.bucket_eq, h.file_eq, tokensOf]
    · rw [if_neg hSame, logOf_concat_of_ne (Ne.symm hSame), h.tokens b]

end Logged

/-! ## Reading a file again -/

/-- A file without small payloads has the tokens of its log. -/
theorem scanFile_layout
    {records : List SmsgRecord} (hWellFormed : ∀ r ∈ records, r.WellFormed)
    (hSample : ∀ r ∈ records, 8 ≤ r.payload.length)
    (hKeys : (records.map SmsgRecord.key).Nodup) :
    scanFile (layout SmsgRecord.bytes records) ∅ = tokensOf records := by
  have hHeader : 0 < SMSG_HDR_LEN := by decide
  have hFuel : records.length < (layout SmsgRecord.bytes records).length + 1 := by
    apply Nat.lt_succ_of_le
    apply length_le_layout
    intro r hr
    rw [(hWellFormed r hr).length_bytes]
    omega
  have hLoop := @runLoop_layout _ _ _ SmsgRecord.bytes (layout SmsgRecord.bytes records)
    (fun (setTokens : TokenSet) r offset =>
      if r.key ∈ setTokens then setTokens else setTokens.insert r.key (r.token offset))
    (tokenRound (layout SmsgRecord.bytes records)) records 0 _ ∅
    (fun r hr offset rest setTokens hDrop =>
      (hWellFormed r hr).tokenRound (hSample r hr) hDrop setTokens)
    (by
      intro offset setTokens hDrop
      have hEnd := List.drop_eq_nil_iff.mp hDrop
      exact if_pos (by omega))
    List.drop_zero hFuel
  have hPlaced : ((placed SmsgRecord.bytes 0 records).map fun p => p.1.key).Nodup := by
    rw [← map_fst_placed SmsgRecord.bytes 0 records, List.map_map] at hKeys
    exact hKeys
  rw [scanFile, hLoop, Option.getD_some]
  exact Table.foldl_insertNew (fun p : SmsgRecord × ℕ => p.1.key) (fun p => p.1.token p.2) ∅ hPlaced
    fun p _ => AList.notMem_empty _

/-- Each file that is not too old gives a bucket. -/
theorem lookup_buildBucketSet (now : ℤ) (files : Table ℤ (List UInt8)) (b : ℤ) :
    (secureMsgBuildBucketSet now files).smsgBuckets.lookup b =
      if b < now - SMSG_RETENTION then none
      else (files.lookup b).map fun file =>
        { SecMsgBucket.new with setTokens := scanFile file ∅ }.hashBucket now := by
  unfold secureMsgBuildBucketSet
  dsimp only
  have hLocal : ∀ (buckets : Table ℤ SecMsgBucket) (file : Sigma fun _ : ℤ => List UInt8) (k : ℤ),
      k ≠ file.1 → AList.lookup k (if file.1 < now - SMSG_RETENTION then buckets
        else buckets.insert file.1 ({ (buckets.lookup file.1).getD SecMsgBucket.new with
          setTokens := scanFile file.2
            ((buckets.lookup file.1).getD SecMsgBucket.new).setTokens }.hashBucket now)) =
        buckets.lookup k := by
    intro buckets file k hOther
    split_ifs
    · rfl
    · rw [Table.lookup_insert_ite, if_neg hOther]
  cases hFile : files.lookup b with
  | none =>
      have hAbsent : b ∉ files.entries.map Sigma.fst := by
        intro hMem
        exact absurd (AList.mem_keys.mpr hMem) (AList.lookup_eq_none.mp hFile)
      rw [Table.lookup_foldl_of_not_mem hLocal _ hAbsent, Option.map_none, ite_self]
      rfl
  | some file =>
      have hMem : (⟨b, file⟩ : Sigma fun _ : ℤ => List UInt8) ∈ files.entries :=
        AList.mem_lookup_iff.mp hFile
      obtain ⟨before, hBefore, hAfter⟩ :=
        Table.lookup_foldl_of_mem hLocal ∅ files.nodupKeys hMem
      rw [hAfter]
      dsimp only at hBefore ⊢
      split_ifs
      · exact hBefore
      · rw [Table.lookup_insert_ite, if_pos rfl, hBefore]
        rfl

/-- At the next start a bucket without small payloads gets its tokens back. -/
theorem Logged.rebuilds
    (h : Logged store stored) {now : ℤ} (hRetained : now - SMSG_RETENTION ≤ b)
    (hSample : ∀ r ∈ stored, bucketOf r.timestamp = b → 8 ≤ r.payload.length) :
    ((secureMsgBuildBucketSet now store.files).smsgBuckets.lookup b).map SecMsgBucket.setTokens =
      (store.smsgBuckets.lookup b).map SecMsgBucket.setTokens := by
  rw [lookup_buildBucketSet, if_neg (not_lt.mpr hRetained), h.files b, h.tokens b]
  split_ifs with hEmpty
  · rfl
  · have hScan := scanFile_layout (fun r hr => h.wellFormed r (mem_logOf.mp hr).1)
      (fun r hr => hSample r (mem_logOf.mp hr).1 (mem_logOf.mp hr).2) (h.log_keys b)
    rw [Option.map_some, Option.map_some, ← hScan]
    rfl

/-! ## Retrieving -/

/-- A token of a bucket is that of a message, which is retrieved for it. -/
theorem Logged.retrieves
    (h : Logged store stored) {bucket : SecMsgBucket} {key : TokenKey} {token : SecMsgToken}
    (hBucket : store.smsgBuckets.lookup b = some bucket)
    (hToken : bucket.setTokens.lookup key = some token) :
    ∃ r ∈ stored, r.key = key ∧ bucketOf r.timestamp = b ∧ token.key = key ∧
      token.timestamp = r.timestamp ∧
      secureMsgRetrieve store.files token = some (r.header ++ r.payload) := by
  obtain ⟨hSome, hTokens⟩ := h.tokens_of_lookup hBucket
  rw [hTokens] at hToken
  obtain ⟨r, offset, hPlaced, rfl, rfl⟩ := placed_of_lookup_indexed (h.log_keys b) hToken
  have hMem : r ∈ logOf stored b := by
    rw [← map_fst_placed SmsgRecord.bytes 0 (logOf stored b)]
    exact List.mem_map_of_mem hPlaced
  obtain ⟨hStored, hTime⟩ := mem_logOf.mp hMem
  obtain ⟨_, rest, hDrop⟩ := drop_of_placed hPlaced
  refine ⟨r, hStored, rfl, hTime, SmsgRecord.key_token r offset,
    SmsgRecord.timestamp_token r offset, ?_⟩
  apply (h.wellFormed r hStored).retrieve
  · rw [hTime, h.files b, if_neg hSome]
  · exact hDrop

end Logs

end SocietyGold
