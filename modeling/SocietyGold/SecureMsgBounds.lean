import SocietyGold.SecureMsgData

/-!
# Reads of received data

The loops over entries of a fixed size stay inside the data as the checks before them intend,
but for the number of buckets of an `smsgShow` that does not fit in 32 bits once it is
multiplied.  The records of an `smsgMsg` are read one after the other; each is read up to the
size that its header gives.
-/

namespace SocietyGold

open Support

/-! ## Entries of a fixed size -/

section Entries

variable {data : List UInt8}

theorem inRangeIff_readRange (start size : ℕ) :
    InRangeIff (size = 0 ∨ start + size ≤ data.length) (readRange data start size) := by
  unfold readRange
  by_cases hInside : size = 0 ∨ start + size ≤ data.length
  · rw [if_pos hInside]
    exact Or.inl ⟨hInside, _, rfl⟩
  · rw [if_neg hInside]
    exact Or.inr ⟨hInside, rfl⟩

theorem readRange_of_le {start size : ℕ} (hInside : start + size ≤ data.length) :
    readRange data start size = .ok ((data.drop start).take size) :=
  if_pos (Or.inr hInside)

theorem invLoop_ok
    (now : ℤ) {remaining pos : ℕ} (hInside : pos + remaining * 16 ≤ data.length) (s : InvState) :
    ∃ s', invLoop now data remaining pos s = .ok s' := by
  induction remaining generalizing pos s with
  | zero => exact ⟨s, rfl⟩
  | succ remaining ih =>
      rw [invLoop, readRange_of_le (by omega), ok_bind]
      exact ih (by omega) _

theorem haveLoop_ok
    (setTokens : TokenSet) {remaining pos : ℕ} (hInside : pos + remaining * 16 ≤ data.length) :
    ∃ wanted, haveLoop data setTokens remaining pos = .ok wanted := by
  induction remaining generalizing pos with
  | zero => exact ⟨[], rfl⟩
  | succ remaining ih =>
      obtain ⟨wanted, hWanted⟩ := @ih (pos + 16) (by omega)
      rw [haveLoop, readRange_of_le (by omega), ok_bind, hWanted, ok_bind]
      split_ifs
      · exact ⟨_, rfl⟩
      · exact ⟨_, rfl⟩

theorem wantLoop_ok
    (files : Table ℤ (List UInt8)) (setTokens : TokenSet) {remaining pos : ℕ}
    (hInside : pos + remaining * 16 ≤ data.length) (nBunch : ℕ) (vchBunch : List UInt8) :
    ∃ bunch, wantLoop data files setTokens remaining pos nBunch vchBunch = .ok bunch := by
  induction remaining generalizing pos nBunch vchBunch with
  | zero => exact ⟨_, rfl⟩
  | succ remaining ih =>
      rw [wantLoop, readRange_of_le (by omega), ok_bind]
      split
      · exact ih (by omega) _ _
      · dsimp only
        split_ifs
        · exact ⟨_, rfl⟩
        · exact ih (by omega) _ _

/-- The loop over the buckets of an `smsgShow` reads all their times. -/
theorem inRangeIff_showLoop (store : SmsgStore) {remaining pos : ℕ} (hPos : pos ≤ data.length) :
    InRangeIff (pos + remaining * 8 ≤ data.length) (showLoop data store remaining pos) := by
  induction remaining generalizing pos with
  | zero => exact Or.inl ⟨by omega, _, rfl⟩
  | succ remaining ih =>
      rw [showLoop]
      by_cases hEntry : pos + 8 ≤ data.length
      · rw [readRange_of_le hEntry, ok_bind]
        rcases ih hEntry with ⟨hRest, pushed, hPushed⟩ | ⟨hRest, hPushed⟩
        · refine Or.inl ⟨by omega, ?_⟩
          rw [hPushed, ok_bind]
          split
          · exact ⟨_, rfl⟩
          · exact ⟨_, rfl⟩
        · refine Or.inr ⟨by omega, ?_⟩
          rw [hPushed]
          rfl
      · refine Or.inr ⟨by omega, ?_⟩
        rw [readRange, if_neg (by omega)]
        rfl

/-- A count that does not fit in an `int` is negative, and the loop has no rounds. -/
theorem tokenCount_le (data : List UInt8) : tokenCount data ≤ (data.length - 8) / 16 := by
  have hLt := Int.bmod_lt (x := (((data.length - 8) / 16 : ℕ) : ℤ)) (m := 2 ^ 32) (by norm_num)
  unfold tokenCount
  rw [Int.bmod_def]
  split_ifs <;> omega

/-- The tokens that are counted lie in the data. -/
theorem tokens_inside (hLength : 8 ≤ data.length) : 8 + tokenCount data * 16 ≤ data.length := by
  have hCount := tokenCount_le data
  omega

end Entries

/-! ## The records of a bunch -/

section Records

variable (tools : SmsgTools) (now : ℤ) (data : List UInt8)

def headerBytes (p : ℕ) : List UInt8 := (data.drop p).take SMSG_HDR_LEN

/-- The header at a position of the data. -/
def headerAt (p : ℕ) : SecureMessage := SecureMessage.ofBytes (headerBytes data p)

def payloadBytes (p : ℕ) : List UInt8 :=
  (data.drop (p + SMSG_HDR_LEN)).take (headerAt data p).nPayload

/-- The check that starts a round of the loop, of a difference without a sign. -/
def HasHeader (n : ℕ) : Prop := (SMSG_HDR_LEN : ℤ) ≤ ((data.length : ℤ) - n) % 2 ^ 64

instance (n : ℕ) : Decidable (HasHeader data n) := inferInstanceAs (Decidable (_ ≤ _))

/-- A record whose payload `SecureMsgValidate` looks at lies in the data. -/
def RecordFits (p : ℕ) : Prop :=
  (headerAt data p).version.head? = some 1 → (headerAt data p).nPayload ≤ SMSG_MAX_MSG_WORST →
    p + SMSG_HDR_LEN + (headerAt data p).nPayload ≤ data.length

/-- The record at a position is valid. -/
def ValidRecord (p : ℕ) : Prop :=
  (headerAt data p).version.head? = some 1 ∧ (headerAt data p).nPayload ≤ SMSG_MAX_MSG_WORST ∧
    validateHash tools (headerBytes data p) (payloadBytes data p) = 0

/-- The positions of the records that follow one another in a bunch of so many: the next one
comes after a valid record that the store takes. -/
inductive RecordAt : (remaining n : ℕ) → SmsgStore → (p : ℕ) → Prop
  | first {remaining n : ℕ} {store : SmsgStore} (hHeader : HasHeader data n) :
      RecordAt (remaining + 1) n store n
  | next {remaining n p : ℕ} {store store' : SmsgStore}
      (hHeader : HasHeader data n) (hValid : ValidRecord tools data n)
      (hStored : secureMsgStore now (headerBytes data n) (payloadBytes data n) false store =
        (0, store'))
      (hNext : RecordAt remaining ((n + SMSG_HDR_LEN + (headerAt data n).nPayload) % 2 ^ 32)
        store' p) :
      RecordAt (remaining + 1) n store p

variable {tools now data}

theorem HasHeader.inside
    {n : ℕ} (hn : n ≤ data.length) (h : HasHeader data n) : n + SMSG_HDR_LEN ≤ data.length := by
  unfold HasHeader at h
  omega

theorem secureMsgValidate_at (tools : SmsgTools) (p : ℕ) :
    secureMsgValidate tools data (headerBytes data p) (p + SMSG_HDR_LEN) =
      if (headerAt data p).version.head? ≠ some 1 then .ok 4
      else if (headerAt data p).nPayload > SMSG_MAX_MSG_WORST then .ok 5
      else readRange data (p + SMSG_HDR_LEN) (headerAt data p).nPayload >>= fun payload =>
        .ok (validateHash tools (headerBytes data p) payload) := rfl

theorem receiveBunch_succ (remaining n misbehaving : ℕ) (store : SmsgStore) :
    receiveBunch tools now data (remaining + 1) n misbehaving store =
      if ((data.length : ℤ) - n) % 2 ^ 64 < SMSG_HDR_LEN then .ok (misbehaving, store)
      else readRange data n SMSG_HDR_LEN >>= fun header =>
        secureMsgValidate tools data header (n + SMSG_HDR_LEN) >>= fun rv =>
          if rv ≠ 0 then receiveBunch tools now data remaining n (misbehaving + 1) store
          else readRange data (n + SMSG_HDR_LEN) (SecureMessage.ofBytes header).nPayload >>=
            fun payload =>
              if (secureMsgStore now header payload false store).1 ≠ 0 then
                .ok (misbehaving, (secureMsgStore now header payload false store).2)
              else receiveBunch tools now data remaining
                ((n + SMSG_HDR_LEN + (SecureMessage.ofBytes header).nPayload) % 2 ^ 32)
                misbehaving (secureMsgStore now header payload false store).2 := rfl

theorem inRangeIff_validate (tools : SmsgTools) {p : ℕ} (hHeader : p + SMSG_HDR_LEN ≤ data.length) :
    InRangeIff (RecordFits data p)
      (secureMsgValidate tools data (headerBytes data p) (p + SMSG_HDR_LEN)) := by
  rw [secureMsgValidate_at]
  by_cases hVersion : (headerAt data p).version.head? = some 1
  · by_cases hSize : (headerAt data p).nPayload ≤ SMSG_MAX_MSG_WORST
    · rw [if_neg (not_not_intro hVersion), if_neg (not_lt_of_ge hSize)]
      refine ((inRangeIff_readRange _ _).bind (fun payload _ => Or.inl ⟨trivial, _, rfl⟩)).congr ?_
      constructor
      · rintro ⟨hEmpty | hInside, _⟩ _ _
        · rw [show (headerAt data p).nPayload = 0 from hEmpty]
          exact hHeader
        · exact hInside
      · intro hFits
        exact ⟨Or.inr (hFits hVersion hSize), trivial⟩
    · refine Or.inl ⟨fun _ h => absurd h hSize, 5, ?_⟩
      rw [if_neg (not_not_intro hVersion), if_pos (lt_of_not_ge hSize)]
  · exact Or.inl ⟨fun h => absurd h hVersion, 4, if_pos hVersion⟩

/-- The payload of a valid record lies in the data. -/
theorem ValidRecord.inside {p : ℕ} (h : ValidRecord tools data p) (hFits : RecordFits data p) :
    p + SMSG_HDR_LEN + (headerAt data p).nPayload ≤ data.length :=
  hFits h.1 h.2.1

theorem validate_eq_zero_iff
    {p rv : ℕ} (hFits : RecordFits data p)
    (hValidate : secureMsgValidate tools data (headerBytes data p)
      (p + SMSG_HDR_LEN) = .ok rv) :
    rv = 0 ↔ ValidRecord tools data p := by
  rw [secureMsgValidate_at] at hValidate
  split_ifs at hValidate with hVersion hSize
  · obtain rfl := Except.ok.inj hValidate
    exact ⟨fun h => absurd h (by decide), fun h => absurd h.1 hVersion⟩
  · obtain rfl := Except.ok.inj hValidate
    exact ⟨fun h => absurd h (by decide), fun h => absurd h.2.1 (not_le_of_gt hSize)⟩
  · have hVersion := not_not.mp hVersion
    have hSize := not_lt.mp hSize
    rw [readRange_of_le (hFits hVersion hSize), ok_bind] at hValidate
    obtain rfl := Except.ok.inj hValidate
    exact ⟨fun h => ⟨hVersion, hSize, h⟩, fun h => h.2.2⟩

theorem RecordAt.eq_of_not_valid
    {remaining n p : ℕ} {store : SmsgStore} (hRecord : RecordAt tools now data remaining n store p)
    (hValid : ¬ValidRecord tools data n) : p = n := by
  cases hRecord with
  | first _ => rfl
  | next _ hValid' _ _ => exact absurd hValid' hValid

/-- After a valid record the bunch goes on when the store has taken it. -/
theorem forall_recordAt_iff
    {remaining n : ℕ} {store : SmsgStore} (hHeader : HasHeader data n)
    (hValid : ValidRecord tools data n) (hFits : RecordFits data n) :
    (∀ p, RecordAt tools now data (remaining + 1) n store p → RecordFits data p) ↔
      ∀ store', secureMsgStore now (headerBytes data n) (payloadBytes data n) false store =
          (0, store') →
        ∀ p, RecordAt tools now data remaining
          ((n + SMSG_HDR_LEN + (headerAt data n).nPayload) % 2 ^ 32) store' p →
            RecordFits data p := by
  constructor
  · intro h store' hStored p hRecord
    exact h p (.next hHeader hValid hStored hRecord)
  · intro h p hRecord
    cases hRecord with
    | first _ => exact hFits
    | next _ _ hStored hNext => exact h _ hStored p hNext

/-- The loop stays in the data when the records that it comes to lie there. -/
theorem inRangeIff_receiveBunch
    {remaining n : ℕ} (hn : n ≤ data.length) (misbehaving : ℕ) (store : SmsgStore) :
    InRangeIff (∀ p, RecordAt tools now data remaining n store p → RecordFits data p)
      (receiveBunch tools now data remaining n misbehaving store) := by
  induction remaining generalizing n misbehaving store with
  | zero =>
      refine Or.inl ⟨?_, _, rfl⟩
      intro p hRecord
      cases hRecord
  | succ remaining ih =>
      rw [receiveBunch_succ]
      by_cases hHeader : HasHeader data n
      · have hInside := hHeader.inside hn
        have hRead : readRange data n SMSG_HDR_LEN = .ok (headerBytes data n) :=
          readRange_of_le hInside
        rw [if_neg (not_lt_of_ge hHeader), hRead, ok_bind]
        rcases inRangeIff_validate tools hInside with ⟨hFits, rv, hValidate⟩ | ⟨hFits, hValidate⟩
        · rw [hValidate, ok_bind]
          have hZero := validate_eq_zero_iff hFits hValidate
          by_cases hrv : rv = 0
          · rw [if_neg (not_not_intro hrv)]
            have hValid := hZero.mp hrv
            have hPayload : readRange data (n + SMSG_HDR_LEN)
                (SecureMessage.ofBytes (headerBytes data n)).nPayload =
                  .ok (payloadBytes data n) := readRange_of_le (hValid.inside hFits)
            rw [hPayload, ok_bind]
            refine InRangeIff.congr ?_ (forall_recordAt_iff hHeader hValid hFits).symm
            obtain ⟨failed, store'⟩ :=
              secureMsgStore now (headerBytes data n) (payloadBytes data n) false store
            by_cases hFailed : failed = 0
            · subst hFailed
              have hNext := hValid.inside hFits
              refine (ih ((Nat.mod_le _ _).trans hNext) misbehaving store').congr ?_
              constructor
              · intro h store'' hStored
                obtain rfl : store' = store'' := (Prod.ext_iff.mp hStored).2
                exact h
              · intro h
                exact h store' rfl
            · refine Or.inl ⟨?_, _, if_pos hFailed⟩
              intro store'' hStored
              exact absurd (Prod.ext_iff.mp hStored).1 hFailed
          · -- the next round looks at the same record again
            have hValid := mt hZero.mpr hrv
            have hAll : ∀ {remaining p}, RecordAt tools now data remaining n store p →
                RecordFits data p := by
              intro remaining p hRecord
              rw [hRecord.eq_of_not_valid hValid]
              exact hFits
            rw [if_pos hrv]
            exact (ih hn _ _).congr ⟨fun _ _ => hAll, fun _ _ => hAll⟩
        · rw [hValidate]
          exact Or.inr ⟨fun h => hFits (h n (.first hHeader)), rfl⟩
      · rw [if_pos (lt_of_not_ge hHeader)]
        refine Or.inl ⟨?_, _, rfl⟩
        intro p hRecord
        cases hRecord with
        | first hHeader' => exact absurd hHeader' hHeader
        | next hHeader' _ _ _ => exact absurd hHeader' hHeader

end Records

/-! ## Whole messages -/

section Messages

variable (tools : SmsgTools) (now : ℤ) (data : List UInt8) (store : SmsgStore)

/-- The records of the bunch in an `smsgMsg` lie in the data, if the checks before the loop
pass. -/
def BunchFits : Prop :=
  12 ≤ data.length →
    let nBunch := fromBytesLE (data.take 4)
    let bktTime := int64Of ((data.drop 4).take 8)
    bktTime ≤ now + SMSG_TIME_LEEWAY → now - SMSG_RETENTION ≤ bktTime →
      nBunch ≠ 0 → nBunch ≤ 500 →
        ∀ p, RecordAt tools now data nBunch 12 store p → RecordFits data p

/-- The number of buckets in an `smsgShow` stands for as many times in the data, or for so many
that their length is too large even when it has lost its high bits. -/
def BucketsFit : Prop :=
  4 ≤ data.length →
    let nBuckets := fromBytesLE (data.take 4)
    (4 + nBuckets * 8) % 2 ^ 32 ≤ data.length → 4 + nBuckets * 8 ≤ data.length

/-- What keeps a handler in the data. -/
def ReadsInside : SmsgCommand → Prop
  | .smsgInv => True
  | .smsgShow => BucketsFit data
  | .smsgHave => True
  | .smsgWant => True
  | .smsgMsg => BunchFits tools now data store

variable {tools now data store}

theorem inRangeIff_receiveShow : InRangeIff (BucketsFit data) (receiveShow data store) := by
  unfold receiveShow
  by_cases hShort : data.length < 4
  · rw [if_pos hShort]
    exact Or.inl ⟨fun h => absurd h (not_le_of_gt hShort), _, rfl⟩
  · rw [if_neg hShort, readRange_of_le (by omega), ok_bind]
    dsimp only
    rw [List.drop_zero]
    unfold BucketsFit
    dsimp only
    generalize fromBytesLE (data.take 4) = nBuckets
    by_cases hCheck : data.length < (4 + nBuckets * 8) % 2 ^ 32
    · rw [if_pos hCheck]
      exact Or.inl ⟨fun _ h => absurd h (not_le_of_gt hCheck), _, rfl⟩
    · rw [if_neg hCheck]
      refine ((inRangeIff_showLoop store (by omega)).bind
        (fun pushed _ => Or.inl ⟨trivial, _, rfl⟩)).congr ?_
      constructor
      · intro h _ _
        exact h.1
      · intro h
        exact ⟨h (by omega) (not_lt.mp hCheck), trivial⟩

theorem inRangeIff_secureMsgReceive :
    InRangeIff (BunchFits tools now data store) (secureMsgReceive tools now data store) := by
  unfold secureMsgReceive
  by_cases hShort : data.length < 12
  · rw [if_pos hShort]
    exact Or.inl ⟨fun h => absurd h (not_le_of_gt hShort), _, rfl⟩
  · rw [if_neg hShort, readRange_of_le (by omega), ok_bind, readRange_of_le (by omega), ok_bind]
    unfold BunchFits
    dsimp only
    rw [List.drop_zero]
    generalize fromBytesLE (data.take 4) = nBunch
    generalize int64Of ((data.drop 4).take 8) = bktTime
    by_cases hEarly : bktTime > now + SMSG_TIME_LEEWAY
    · rw [if_pos hEarly]
      exact Or.inl ⟨fun _ h => absurd h (not_le_of_gt hEarly), _, rfl⟩
    · rw [if_neg hEarly]
      by_cases hLate : bktTime < now - SMSG_RETENTION
      · rw [if_pos hLate]
        exact Or.inl ⟨fun _ _ h => absurd h (not_le_of_gt hLate), _, rfl⟩
      · rw [if_neg hLate]
        by_cases hCount : nBunch = 0 ∨ nBunch > 500
        · rw [if_pos hCount]
          refine Or.inl ⟨?_, _, rfl⟩
          intro _ _ _ hSome hMost
          omega
        · rw [if_neg hCount]
          refine ((inRangeIff_receiveBunch (by omega) 0 store).bind
            (fun s _ => Or.inl ⟨trivial, _, rfl⟩)).congr ?_
          constructor
          · intro h _ _ _ _ _
            exact h.1
          · intro h
            exact ⟨h (by omega) (not_lt.mp hEarly) (not_lt.mp hLate) (by omega) (by omega),
              trivial⟩

theorem receiveInv_ok (peer : SmsgPeer) :
    ∃ outcome, receiveInv now peer data store = .ok outcome := by
  unfold receiveInv
  by_cases hShort : data.length < 4
  · exact ⟨_, if_pos hShort⟩
  · rw [if_neg hShort]
    by_cases hIgnored : now < peer.ignoreUntil
    · exact ⟨_, if_pos hIgnored⟩
    · rw [if_neg hIgnored, readRange_of_le (by omega), ok_bind]
      dsimp only
      split_ifs with hMany hCheck
      · exact ⟨_, rfl⟩
      · exact ⟨_, rfl⟩
      · -- so few buckets do not wrap
        have hFew : SMSG_RETENTION / SMSG_BUCKET_LEN + 1 = 289 := by decide
        rw [hFew] at hMany
        have hInside : 4 + fromBytesLE ((data.drop 0).take 4) * 16 ≤ data.length := by omega
        obtain ⟨s, hs⟩ := invLoop_ok now hInside ⟨0, 0, [], 0, store⟩
        rw [hs]
        exact ⟨_, rfl⟩

theorem receiveHave_ok (peer : SmsgPeer) :
    ∃ outcome, receiveHave now peer data store = .ok outcome := by
  unfold receiveHave
  by_cases hShort : data.length < 8
  · exact ⟨_, if_pos hShort⟩
  · rw [if_neg hShort, readRange_of_le (by omega), ok_bind]
    dsimp only
    split_ifs with hLate hEarly hLocked
    · exact ⟨_, rfl⟩
    · exact ⟨_, rfl⟩
    · exact ⟨_, rfl⟩
    · obtain ⟨wanted, hWanted⟩ := haveLoop_ok
        (store.bucket (int64Of ((data.drop 0).take 8))).setTokens
        (tokens_inside (not_lt.mp hShort))
      rw [hWanted, ok_bind]
      split_ifs
      · exact ⟨_, rfl⟩
      · exact ⟨_, rfl⟩

theorem receiveWant_ok : ∃ outcome, receiveWant data store = .ok outcome := by
  unfold receiveWant
  by_cases hShort : data.length < 8
  · exact ⟨_, if_pos hShort⟩
  · rw [if_neg hShort, readRange_of_le (by omega), ok_bind]
    dsimp only
    split
    · exact ⟨_, rfl⟩
    · next bucket _ =>
        obtain ⟨bunch, hBunch⟩ := wantLoop_ok store.files bucket.setTokens
          (tokens_inside (not_lt.mp hShort)) 0 []
        rw [hBunch]
        exact ⟨_, rfl⟩

/-- The handlers read only received data exactly when the message fits. -/
theorem readsData_iff (peer : SmsgPeer) (command : SmsgCommand) :
    secureMsgReceiveData tools now peer command data store ≠ .error .outOfRange ↔
      ReadsInside tools now data store command := by
  apply InRangeIff.ne_outOfRange_iff
  cases command with
  | smsgInv => exact Or.inl ⟨trivial, receiveInv_ok peer⟩
  | smsgShow => exact inRangeIff_receiveShow
  | smsgHave => exact Or.inl ⟨trivial, receiveHave_ok peer⟩
  | smsgWant => exact Or.inl ⟨trivial, receiveWant_ok⟩
  | smsgMsg =>
      refine (inRangeIff_secureMsgReceive.bind ?_).congr (and_iff_left trivial)
      intro result _
      exact Or.inl ⟨trivial, _, rfl⟩

end Messages

/-! ## Two messages that are read past their end -/

namespace Sample

/-- A library whose hashes are all zero. -/
def smsgTools : SmsgTools := ⟨fun _ _ => some (List.replicate 32 0)⟩

def smsgPeer : SmsgPeer := ⟨7, 0⟩

def emptyStore : SmsgStore := ⟨∅, ∅⟩

/-- The bytes of a header whose hash is zero. -/
def smsgHeader (timestamp : ℤ) (nPayload : ℕ) : List UInt8 :=
  List.replicate 4 0 ++ [1, 1, 0] ++ intToBytesLE 8 timestamp ++ List.replicate 85 0 ++
    toBytesLE 4 nPayload

/-- The data of an `smsgMsg`. -/
def smsgBunch (nBunch : ℕ) (bktTime : ℤ) (records : List UInt8) : List UInt8 :=
  toBytesLE 4 nBunch ++ intToBytesLE 8 bktTime ++ records

/-- An `smsgShow` of 2^29 buckets and no times, and an `smsgMsg` of one record whose payload is
missing. -/
theorem shortMessages_overrun :
    secureMsgReceiveData smsgTools 600600 smsgPeer .smsgShow (toBytesLE 4 (2 ^ 29)) emptyStore =
        .error .outOfRange ∧
      secureMsgReceiveData smsgTools 600600 smsgPeer .smsgMsg
          (smsgBunch 1 600600 (smsgHeader 600600 16)) emptyStore = .error .outOfRange := by
  constructor
  · have hRead := @inRangeIff_receiveShow (toBytesLE 4 (2 ^ 29)) emptyStore
    rcases hRead with ⟨hFits, -⟩ | ⟨-, hError⟩
    · have hInside := hFits (by decide +kernel) (by decide +kernel)
      exact absurd hInside (by decide +kernel)
    · exact hError
  · have hRead := @inRangeIff_secureMsgReceive smsgTools 600600
      (smsgBunch 1 600600 (smsgHeader 600600 16)) emptyStore
    rcases hRead with ⟨hFits, -⟩ | ⟨-, hError⟩
    · have hRecord := hFits (by decide +kernel) (by decide +kernel) (by decide +kernel)
        (by decide +kernel) (by decide +kernel) 12 (.first (by decide +kernel))
      exact absurd (hRecord (by decide +kernel) (by decide +kernel)) (by decide +kernel)
    · rw [secureMsgReceiveData, hError]
      rfl

end Sample

end SocietyGold
