import SocietyGold.SecureMsgBounds
import SocietyGold.Support.Trace
import SocietyGold.Support.RecordLog

/-!
# The message store while it runs

Messages come from peers and from the node itself.  The lock on the store is taken for each
message, so that the messages of the node may come between those of a bunch.  At the next start
the tokens are read again from the files.
-/

namespace SocietyGold

open Support

/-! ## Rebuilding the buckets -/

/-- A round of the loop over a file: the position and the tokens so far.  To seek beyond the
end of the file is no failure. -/
def tokenRound (file : List UInt8) (s : ℕ × TokenSet) : Option (ℕ × TokenSet) :=
  if file.length < s.1 + SMSG_HDR_LEN then none
  else
    let smsg := SecureMessage.ofBytes ((file.drop s.1).take SMSG_HDR_LEN)
    if smsg.nPayload < 8 then some (s.1 + SMSG_HDR_LEN, s.2)
    else if file.length < s.1 + SMSG_HDR_LEN + 8 then none
    else
      let token : SecMsgToken :=
        ⟨smsg.timestamp, (file.drop (s.1 + SMSG_HDR_LEN)).take 8, s.1⟩
      some (s.1 + SMSG_HDR_LEN + smsg.nPayload,
        if token.key ∈ s.2 then s.2 else s.2.insert token.key token)

/-- The loop over a file, with the tokens that the bucket has already. -/
def scanFile (file : List UInt8) (setTokens : TokenSet) : TokenSet :=
  ((runLoop (tokenRound file) (file.length + 1) (0, setTokens)).map Prod.snd).getD setTokens

/-- The loop ends: a round goes on by the size of a header at least. -/
theorem scanFile_ends (file : List UInt8) (setTokens : TokenSet) :
    (runLoop (tokenRound file) (file.length + 1) (0, setTokens)).isSome = true := by
  apply runLoop_isSome_of_measure fun s => file.length - s.1
  · intro s s' hRound
    unfold tokenRound at hRound
    dsimp only at hRound
    have hHeader : 0 < SMSG_HDR_LEN := by decide
    split_ifs at hRound with hEnd
    · obtain rfl := Option.some.inj hRound
      dsimp only
      omega
    · obtain rfl := Option.some.inj hRound
      dsimp only
      omega
    · obtain rfl := Option.some.inj hRound
      dsimp only
      omega
  · exact Nat.lt_succ_of_le (Nat.sub_le _ _)

/-- The files that `SecureMsgBuildBucketSet` does not remove. -/
def retainedFiles (now : ℤ) (files : Table ℤ (List UInt8)) : Table ℤ (List UInt8) :=
  files.entries.foldl
    (fun kept file => if file.1 < now - SMSG_RETENTION then kept.erase file.1 else kept) files

/-- `SecureMsgBuildBucketSet`, with no buckets in memory. -/
def secureMsgBuildBucketSet (now : ℤ) (files : Table ℤ (List UInt8)) : SmsgStore where
  smsgBuckets := files.entries.foldl
    (fun buckets file =>
      if file.1 < now - SMSG_RETENTION then buckets
      else
        let bucket := (buckets.lookup file.1).getD SecMsgBucket.new
        buckets.insert file.1
          ({ bucket with setTokens := scanFile file.2 bucket.setTokens }.hashBucket now)) ∅
  files := retainedFiles now files

/-! ## Messages -/

/-- A message as `SecureMsgStore` gets it. -/
structure SmsgRecord where
  header : List UInt8
  payload : List UInt8
  deriving DecidableEq, Repr

namespace SmsgRecord

def bytes (r : SmsgRecord) : List UInt8 := r.header ++ r.payload

def timestamp (r : SmsgRecord) : ℤ := (SecureMessage.ofBytes r.header).timestamp

/-- Its token, for an offset in the file. -/
def token (r : SmsgRecord) (offset : ℕ) : SecMsgToken :=
  SecMsgToken.new r.timestamp r.payload offset

def key (r : SmsgRecord) : TokenKey := (r.token 0).key

/-- The header has its size and gives that of the payload. -/
structure WellFormed (r : SmsgRecord) : Prop where
  header_length : r.header.length = SMSG_HDR_LEN
  payload_length : r.payload.length = (SecureMessage.ofBytes r.header).nPayload
  size_lt : SMSG_HDR_LEN + r.payload.length < 2 ^ 32

end SmsgRecord

/-! ## Rounds of `SecureMsgReceive` -/

/-- What a round of the loop over the records does. -/
structure RoundOutcome where
  /-- The position of the next round, unless the loop ends. -/
  next : Option ℕ
  misbehaving : ℕ
  stored : Option SmsgRecord
  store : SmsgStore

/-- The end of a round, after `SecureMsgStore`. -/
def roundAfter (r : SmsgRecord) (next : ℕ) (result : ℕ × SmsgStore) : RoundOutcome :=
  if result.1 ≠ 0 then ⟨none, 0, none, result.2⟩ else ⟨some next, 0, some r, result.2⟩

/-- The round at position `n`. -/
def receiveRound (tools : SmsgTools) (now : ℤ) (data : List UInt8) (n : ℕ) (store : SmsgStore) :
    Checked RoundOutcome :=
  if ((data.length : ℤ) - n) % 2 ^ 64 < SMSG_HDR_LEN then .ok ⟨none, 0, none, store⟩
  else do
    let header ← readRange data n SMSG_HDR_LEN
    let nPayload := (SecureMessage.ofBytes header).nPayload
    let rv ← secureMsgValidate tools data header (n + SMSG_HDR_LEN)
    if rv ≠ 0 then .ok ⟨some n, 1, none, store⟩
    else do
      let payload ← readRange data (n + SMSG_HDR_LEN) nPayload
      .ok (roundAfter ⟨header, payload⟩ ((n + SMSG_HDR_LEN + nPayload) % 2 ^ 32)
        (secureMsgStore now header payload false store))

section Rounds

variable (tools : SmsgTools) (now : ℤ) (data : List UInt8) (remaining misbehaving : ℕ)

/-- The loop after a round. -/
def bunchAfter (outcome : RoundOutcome) : Checked (ℕ × SmsgStore) :=
  outcome.next.elim (.ok (misbehaving + outcome.misbehaving, outcome.store)) fun n =>
    receiveBunch tools now data remaining n (misbehaving + outcome.misbehaving) outcome.store

theorem bunchAfter_roundAfter (r : SmsgRecord) (next : ℕ) (result : ℕ × SmsgStore) :
    bunchAfter tools now data remaining misbehaving (roundAfter r next result) =
      if result.1 ≠ 0 then .ok (misbehaving, result.2)
      else receiveBunch tools now data remaining next misbehaving result.2 := by
  unfold roundAfter
  split_ifs
  · rfl
  · rfl

/-- The loop goes from round to round. -/
theorem receiveBunch_eq_round (n : ℕ) (store : SmsgStore) :
    receiveBunch tools now data (remaining + 1) n misbehaving store =
      (receiveRound tools now data n store) >>=
        bunchAfter tools now data remaining misbehaving := by
  rw [receiveBunch_succ, receiveRound]
  split_ifs with hHeader
  · rfl
  · cases readRange data n SMSG_HDR_LEN with
    | error fault => rw [error_bind, error_bind, error_bind]
    | ok header =>
        rw [ok_bind, ok_bind]
        dsimp only
        cases secureMsgValidate tools data header (n + SMSG_HDR_LEN) with
        | error fault => rw [error_bind, error_bind, error_bind]
        | ok rv =>
            rw [ok_bind, ok_bind]
            split_ifs with hInvalid
            · rfl
            · cases readRange data (n + SMSG_HDR_LEN) (SecureMessage.ofBytes header).nPayload with
              | error fault => rw [error_bind, error_bind, error_bind]
              | ok payload =>
                  rw [ok_bind, ok_bind, ok_bind, bunchAfter_roundAfter]

end Rounds

/-! ## Steps -/

/-- A call of `SecureMsgReceive` in its loop. -/
structure SmsgReceive where
  data : List UInt8
  bktTime : ℤ
  remaining : ℕ
  n : ℕ

/-- The store, the call that the message handler is in, and the messages that were stored so
far, in order. -/
structure SmsgNode where
  store : SmsgStore
  receiving : Option SmsgReceive
  stored : List SmsgRecord

/-- A part of the work that is done under the lock.  A message of the node itself has the size
that its header gives. -/
inductive SmsgEvent
  | store (now : ℤ) (message : {r : SmsgRecord // r.WellFormed})
  | receive (now : ℤ) (data : List UInt8)
  | round (now : ℤ)
  | finish (now : ℤ)

namespace SmsgNode

def initial : SmsgNode := ⟨⟨∅, ∅⟩, none, []⟩

/-- `SecureMsgStore` for a message of the node itself. -/
def storeOwn (now : ℤ) (r : SmsgRecord) (s : SmsgNode) : SmsgNode :=
  let stored := secureMsgStore now r.header r.payload true s.store
  { s with
    store := stored.2
    stored := if stored.1 = 0 then s.stored ++ [r] else s.stored }

/-- `SecureMsgReceive` up to its loop. -/
def beginReceive (now : ℤ) (data : List UInt8) (s : SmsgNode) : Checked SmsgNode :=
  if data.length < 12 then .ok s
  else do
    let nBunch := fromBytesLE (← readRange data 0 4)
    let bktTime := int64Of (← readRange data 4 8)
    if bktTime > now + SMSG_TIME_LEEWAY then .ok s
    else if bktTime < now - SMSG_RETENTION then .ok s
    else if nBunch = 0 ∨ nBunch > 500 then .ok { s with store := s.store.unlock bktTime }
    else .ok { s with receiving := some ⟨data, bktTime, nBunch, 12⟩ }

/-- The loop after a round. -/
def afterRound (p : SmsgReceive) (outcome : RoundOutcome) (s : SmsgNode) : SmsgNode where
  store := outcome.store
  receiving := outcome.next.elim (some { p with remaining := 0 }) fun n =>
    some { p with
      remaining := p.remaining - 1
      n := n }
  stored := s.stored ++ outcome.stored.toList

/-- The next round of the loop, if there is one. -/
def receiveNext (tools : SmsgTools) (now : ℤ) (s : SmsgNode) : Checked SmsgNode :=
  match s.receiving with
  | none => .ok s
  | some p =>
      if p.remaining = 0 then .ok s
      else do
        let outcome ← receiveRound tools now p.data p.n s.store
        .ok (s.afterRound p outcome)

/-- The end of `SecureMsgReceive`, after the loop. -/
def finishReceive (now : ℤ) (s : SmsgNode) : SmsgNode :=
  match s.receiving with
  | none => s
  | some p =>
      if p.remaining ≠ 0 then s
      else
        { s with
          store := (hashNamedBucket now p.bktTime s.store).2
          receiving := none }

end SmsgNode

/-- A step of the node.  The message handler takes one message after the other. -/
def SmsgEvent.step (tools : SmsgTools) : SmsgEvent → SmsgNode → Checked SmsgNode
  | .store now message, s => .ok (s.storeOwn now message.1)
  | .receive now data, s => if s.receiving.isSome then .ok s else s.beginReceive now data
  | .round now, s => s.receiveNext tools now
  | .finish now, s => .ok (s.finishReceive now)

/-! ## Calls without interruption -/

section Calls

variable {tools : SmsgTools} {now : ℤ}

theorem idle_rounds
    {data : List UInt8} {bktTime : ℤ} {n : ℕ} {store : SmsgStore} {stored : List SmsgRecord}
    (rounds : ℕ) :
    runEvents (SmsgEvent.step tools) (List.replicate rounds (.round now))
      ⟨store, some ⟨data, bktTime, 0, n⟩, stored⟩ =
        .ok ⟨store, some ⟨data, bktTime, 0, n⟩, stored⟩ := by
  induction rounds with
  | zero => rfl
  | succ rounds ih => exact runEvents_cons_eq_ok.mpr ⟨_, rfl, ih⟩

theorem finish_of_done
    {data : List UInt8} {bktTime : ℤ} {n : ℕ} {store : SmsgStore} {stored : List SmsgRecord} :
    SmsgEvent.step tools (.finish now) ⟨store, some ⟨data, bktTime, 0, n⟩, stored⟩ =
      .ok ⟨(hashNamedBucket now bktTime store).2, none, stored⟩ := rfl

/-- The rounds of a bunch are those of the loop. -/
theorem rounds_of_receiveBunch
    {p : SmsgReceive} {misbehaving misbehaving' : ℕ} {store store' : SmsgStore}
    (stored : List SmsgRecord)
    (hLoop : receiveBunch tools now p.data p.remaining p.n misbehaving store =
      .ok (misbehaving', store')) :
    ∃ n stored', runEvents (SmsgEvent.step tools) (List.replicate p.remaining (.round now))
      ⟨store, some p, stored⟩ =
        .ok ⟨store', some ⟨p.data, p.bktTime, 0, n⟩, stored'⟩ := by
  obtain ⟨data, bktTime, remaining, n⟩ := p
  dsimp only at hLoop ⊢
  induction remaining generalizing n misbehaving store stored with
  | zero =>
      obtain rfl : store = store' := (Prod.ext_iff.mp (Except.ok.inj hLoop)).2
      exact ⟨n, stored, rfl⟩
  | succ remaining ih =>
      rw [receiveBunch_eq_round] at hLoop
      obtain ⟨outcome, hRound, hRest⟩ := bind_eq_ok.mp hLoop
      have hStep : SmsgEvent.step tools (.round now)
          ⟨store, some ⟨data, bktTime, remaining + 1, n⟩, stored⟩ =
            .ok (SmsgNode.afterRound ⟨data, bktTime, remaining + 1, n⟩ outcome
              ⟨store, some ⟨data, bktTime, remaining + 1, n⟩, stored⟩) := by
        rw [SmsgEvent.step, SmsgNode.receiveNext]
        dsimp only
        rw [if_neg (Nat.succ_ne_zero remaining), hRound, ok_bind]
      rw [List.replicate_succ]
      obtain ⟨next, misbehaved, record, after⟩ := outcome
      cases next with
      | none =>
          -- the loop has ended; the rounds left over do nothing
          obtain rfl : after = store' := (Prod.ext_iff.mp (Except.ok.inj hRest)).2
          refine ⟨n, stored ++ record.toList, runEvents_cons_eq_ok.mpr ⟨_, hStep, ?_⟩⟩
          exact idle_rounds remaining
      | some next =>
          obtain ⟨n', stored', hRun⟩ := ih (stored ++ record.toList) next hRest
          exact ⟨n', stored', runEvents_cons_eq_ok.mpr ⟨_, hStep, hRun⟩⟩

theorem store_of_ok
    {rv rv' misbehaving misbehaving' : ℕ} {store store' : SmsgStore}
    (h : (.ok (rv, misbehaving, store) : Checked (ℕ × ℕ × SmsgStore)) =
      .ok (rv', misbehaving', store')) : store = store' :=
  (Prod.ext_iff.mp (Prod.ext_iff.mp (Except.ok.inj h)).2).2

/-- A call of `SecureMsgReceive` that nothing comes between is made of these steps. -/
theorem events_of_secureMsgReceive
    {data : List UInt8} {store store' : SmsgStore} {rv misbehaving : ℕ}
    (stored : List SmsgRecord)
    (hCall : secureMsgReceive tools now data store = .ok (rv, misbehaving, store')) :
    ∃ rounds stored', runEvents (SmsgEvent.step tools)
      (.receive now data :: (List.replicate rounds (.round now) ++ [.finish now]))
        ⟨store, none, stored⟩ = .ok ⟨store', none, stored'⟩ := by
  unfold secureMsgReceive at hCall
  -- a call that ends before the loop is one step, and the end of the call does nothing more
  have hEarly : ∀ after, SmsgNode.beginReceive now data ⟨store, none, stored⟩ =
      .ok ⟨after, none, stored⟩ → store' = after →
        ∃ rounds stored', runEvents (SmsgEvent.step tools)
          (.receive now data :: (List.replicate rounds (.round now) ++ [.finish now]))
            ⟨store, none, stored⟩ = .ok ⟨store', none, stored'⟩ := by
    rintro after hBegin rfl
    exact ⟨0, stored, runEvents_cons_eq_ok.mpr ⟨_, hBegin, rfl⟩⟩
  obtain ⟨begun, hBegin⟩ : ∃ begun, SmsgNode.beginReceive now data ⟨store, none, stored⟩ = begun :=
    ⟨_, rfl⟩
  have hBody := hBegin
  unfold SmsgNode.beginReceive at hBody
  by_cases hShort : data.length < 12
  · rw [if_pos hShort] at hCall hBody
    exact hEarly store (hBegin.trans hBody.symm) (store_of_ok hCall).symm
  · rw [if_neg hShort, readRange_of_le (by omega), ok_bind, readRange_of_le (by omega),
      ok_bind] at hCall hBody
    dsimp only at hCall hBody
    split_ifs at hCall hBody with hLate hOld hBunch
    · exact hEarly _ (hBegin.trans hBody.symm) (store_of_ok hCall).symm
    · exact hEarly _ (hBegin.trans hBody.symm) (store_of_ok hCall).symm
    · exact hEarly _ (hBegin.trans hBody.symm) (store_of_ok hCall).symm
    · obtain ⟨⟨misbehaved, after⟩, hLoop, hEnd⟩ := bind_eq_ok.mp hCall
      obtain ⟨n, stored', hRounds⟩ := @rounds_of_receiveBunch tools now
        ⟨data, int64Of ((data.drop 4).take 8), fromBytesLE ((data.drop 0).take 4), 12⟩ _ _ _ _
        stored hLoop
      have hLast := store_of_ok hEnd
      refine ⟨fromBytesLE ((data.drop 0).take 4), stored', ?_⟩
      refine runEvents_cons_eq_ok.mpr ⟨_, hBegin.trans hBody.symm, ?_⟩
      refine runEvents_concat_eq_ok.mpr ⟨_, hRounds, ?_⟩
      rw [finish_of_done, hLast]

end Calls

end SocietyGold
