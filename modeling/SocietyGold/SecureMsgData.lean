import SocietyGold.SecureMsg

/-!
# Messages about secure messages

`SecureMsgReceiveData` answers the messages by which peers compare their buckets and ask for
what they lack.  A peer chooses the data of a message freely.  The handlers check the sizes
they read from it, but two of the checks miss something: the number of buckets in `smsgShow`
is multiplied in 32 bits, and the size of a payload in `smsgMsg` is not compared with the data
at all.
-/

namespace SocietyGold

open Support

/-! ## The handlers -/

/-- The messages whose data the handlers parse. -/
inductive SmsgCommand
  | smsgInv
  | smsgShow
  | smsgHave
  | smsgWant
  | smsgMsg
  deriving DecidableEq, Repr

/-- The messages sent in reply. -/
inductive SmsgReply
  | smsgShow
  | smsgMatch
  | smsgHave
  | smsgWant
  | smsgMsg
  deriving DecidableEq, Repr

/-- What a call of `SecureMsgReceiveData` does. -/
structure SmsgOutcome where
  success : Bool
  misbehaving : ℕ
  pushed : List (SmsgReply × List UInt8)
  store : SmsgStore

/-- What a handler reads of the peer. -/
structure SmsgPeer where
  id : ℤ
  ignoreUntil : ℤ

/-- What the loop over the buckets of an `smsgInv` collects. -/
structure InvState where
  misbehaving : ℕ
  nLocked : ℕ
  /-- The times of the buckets to ask for. -/
  shown : List UInt8
  nShowBuckets : ℕ
  store : SmsgStore

/-- A bucket of an `smsgInv`. -/
def invBucket (now : ℤ) (entry : List UInt8) (s : InvState) : InvState :=
  let time := int64Of (entry.take 8)
  let ncontent := fromBytesLE ((entry.drop 8).take 4)
  let hash := UInt32.ofNat (fromBytesLE ((entry.drop 12).take 4))
  if time < now - SMSG_RETENTION then
    if time < now - SMSG_RETENTION - SMSG_TIME_LEEWAY then
      { s with misbehaving := s.misbehaving + 1 }
    else s
  else if time > now + SMSG_TIME_LEEWAY then { s with misbehaving := s.misbehaving + 1 }
  else if ncontent < 1 then s
  else
    let bucket := s.store.bucket time
    let s := { s with store := s.store.setBucket time bucket }
    if bucket.nLockCount > 0 then { s with nLocked := s.nLocked + 1 }
    else
      let size := bucket.setTokens.entries.length
      if size < ncontent ∨ (size = ncontent ∧ bucket.hash ≠ hash) then
        { s with
          shown := s.shown ++ intToBytesLE 8 time
          nShowBuckets := s.nShowBuckets + 1 }
      else s

def invLoop (now : ℤ) (data : List UInt8) :
    (remaining pos : ℕ) → InvState → Checked InvState
  | 0, _, s => .ok s
  | remaining + 1, pos, s => do
      let entry ← readRange data pos 16
      invLoop now data remaining (pos + 16) (invBucket now entry s)

/-- The handler of `smsgInv`. -/
def receiveInv (now : ℤ) (peer : SmsgPeer) (data : List UInt8) (store : SmsgStore) :
    Checked SmsgOutcome :=
  if data.length < 4 then .ok ⟨false, 1, [], store⟩
  else if now < peer.ignoreUntil then .ok ⟨false, 0, [], store⟩
  else do
    let nInvBuckets := fromBytesLE (← readRange data 0 4)
    if (nInvBuckets : ℤ) > SMSG_RETENTION / SMSG_BUCKET_LEN + 1 then .ok ⟨false, 1, [], store⟩
    else if data.length < (4 + nInvBuckets * 16) % 2 ^ 32 then .ok ⟨false, 1, [], store⟩
    else do
      let s ← invLoop now data nInvBuckets 4 ⟨0, 0, [], 0, store⟩
      let pushed :=
        if s.shown.length > 0 then [(.smsgShow, toBytesLE 4 s.nShowBuckets ++ s.shown)]
        else if s.nLocked < 1 then [(.smsgMatch, intToBytesLE 8 now)]
        else []
      .ok ⟨true, s.misbehaving, pushed, s.store⟩

/-- The tokens of a bucket, as they are sent. -/
def tokenBytes (setTokens : TokenSet) : List UInt8 :=
  (setTokens.inKeyOrder.map fun token =>
    intToBytesLE 8 token.2.timestamp ++ token.2.sample).flatten

def showLoop (data : List UInt8) (store : SmsgStore) :
    (remaining pos : ℕ) → Checked (List (SmsgReply × List UInt8))
  | 0, _ => .ok []
  | remaining + 1, pos => do
      let bytes ← readRange data pos 8
      let pushed ← showLoop data store remaining (pos + 8)
      match store.smsgBuckets.lookup (int64Of bytes) with
      | none => .ok pushed
      | some bucket => .ok ((.smsgHave, bytes ++ tokenBytes bucket.setTokens) :: pushed)

/-- The handler of `smsgShow`. -/
def receiveShow (data : List UInt8) (store : SmsgStore) : Checked SmsgOutcome :=
  if data.length < 4 then .ok ⟨false, 0, [], store⟩
  else do
    let nBuckets := fromBytesLE (← readRange data 0 4)
    if data.length < (4 + nBuckets * 8) % 2 ^ 32 then .ok ⟨false, 0, [], store⟩
    else do
      let pushed ← showLoop data store nBuckets 4
      .ok ⟨true, 0, pushed, store⟩

/-- The number of tokens in data that begin with a time, in an `int`. -/
def tokenCount (data : List UInt8) : ℕ :=
  ((((data.length - 8) / 16 : ℕ) : ℤ).bmod (2 ^ 32)).toNat

/-- A token that a peer has sent. -/
def tokenOf (entry : List UInt8) : SecMsgToken :=
  ⟨int64Of (entry.take 8), (entry.drop 8).take 8, 0⟩

/-- The tokens of an `smsgHave` that the bucket lacks. -/
def haveLoop (data : List UInt8) (setTokens : TokenSet) :
    (remaining pos : ℕ) → Checked (List UInt8)
  | 0, _ => .ok []
  | remaining + 1, pos => do
      let entry ← readRange data pos 16
      let wanted ← haveLoop data setTokens remaining (pos + 16)
      if (tokenOf entry).key ∈ setTokens then .ok wanted else .ok (entry ++ wanted)

/-- The handler of `smsgHave`. -/
def receiveHave (now : ℤ) (peer : SmsgPeer) (data : List UInt8) (store : SmsgStore) :
    Checked SmsgOutcome :=
  if data.length < 8 then .ok ⟨false, 0, [], store⟩
  else do
    let bytes ← readRange data 0 8
    let time := int64Of bytes
    if time < now - SMSG_RETENTION then .ok ⟨false, 0, [], store⟩
    else if time > now + SMSG_TIME_LEEWAY then .ok ⟨false, 1, [], store⟩
    else
      let bucket := store.bucket time
      let store := store.setBucket time bucket
      if bucket.nLockCount > 0 then .ok ⟨false, 0, [], store⟩
      else do
        let wanted ← haveLoop data bucket.setTokens (tokenCount data) 8
        if wanted.length > 0 then
          .ok ⟨true, 0, [(.smsgWant, bytes ++ wanted)],
            store.setBucket time { bucket with
              nLockCount := 3
              nLockPeerId := peer.id }⟩
        else .ok ⟨true, 0, [], store⟩

/-- The messages of an `smsgWant`; the loop ends when the bunch is large. -/
def wantLoop (data : List UInt8) (files : Table ℤ (List UInt8)) (setTokens : TokenSet) :
    (remaining pos nBunch : ℕ) → (vchBunch : List UInt8) → Checked (ℕ × List UInt8)
  | 0, _, nBunch, vchBunch => .ok (nBunch, vchBunch)
  | remaining + 1, pos, nBunch, vchBunch => do
      let entry ← readRange data pos 16
      match setTokens.lookup (tokenOf entry).key with
      | none => wantLoop data files setTokens remaining (pos + 16) nBunch vchBunch
      | some found =>
          let (nBunch, vchBunch) :=
            match secureMsgRetrieve files { tokenOf entry with offset := found.offset } with
            | none => (nBunch, vchBunch)
            | some vchOne => (nBunch + 1, vchBunch ++ vchOne)
          if nBunch ≥ 500 ∨ 12 + vchBunch.length ≥ 96000 then .ok (nBunch, vchBunch)
          else wantLoop data files setTokens remaining (pos + 16) nBunch vchBunch

/-- The handler of `smsgWant`. -/
def receiveWant (data : List UInt8) (store : SmsgStore) : Checked SmsgOutcome :=
  if data.length < 8 then .ok ⟨false, 0, [], store⟩
  else do
    let bytes ← readRange data 0 8
    match store.smsgBuckets.lookup (int64Of bytes) with
    | none => .ok ⟨false, 0, [], store⟩
    | some bucket => do
        let (nBunch, vchBunch) ←
          wantLoop data store.files bucket.setTokens (tokenCount data) 8 0 []
        let pushed :=
          if nBunch > 0 then [(.smsgMsg, toBytesLE 4 nBunch ++ bytes ++ vchBunch)] else []
        .ok ⟨true, 0, pushed, store⟩

/-- `SecureMsgReceiveData` for the messages that carry data of variable length. -/
def secureMsgReceiveData (tools : SmsgTools) (now : ℤ) (peer : SmsgPeer) (command : SmsgCommand)
    (data : List UInt8) (store : SmsgStore) : Checked SmsgOutcome :=
  match command with
  | .smsgInv => receiveInv now peer data store
  | .smsgShow => receiveShow data store
  | .smsgHave => receiveHave now peer data store
  | .smsgWant => receiveWant data store
  | .smsgMsg => do
      let (_, misbehaving, store) ← secureMsgReceive tools now data store
      .ok ⟨true, misbehaving, [], store⟩

end SocietyGold
