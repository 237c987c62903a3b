import SocietyGold.Serialize
import SocietyGold.XxHash
import SocietyGold.Support.Checked
import SocietyGold.Support.Table
import Mathlib.Data.Prod.Lex

/-!
# Secure messages

A secure message is a header of 104 bytes and a payload whose size the header gives.  The node
keeps its messages in one file for each interval of ten minutes, a bucket, and in memory a set
of tokens for each bucket that say where in the file they are.  Peers compare their buckets by
the number of tokens and a hash over them.
-/

namespace SocietyGold

open Support

/-! ## Constants -/

def SMSG_HDR_LEN : ℕ := 104

/-- The length of the encrypted header in the payload. -/
def SMSG_PL_HDR_LEN : ℕ := 1 + 20 + 65 + 4

def SMSG_BUCKET_LEN : ℤ := 60 * 10

def SMSG_RETENTION : ℤ := 60 * 60 * 48

def SMSG_TIME_LEEWAY : ℤ := 60

def SMSG_MAX_MSG_BYTES : ℕ := 4096

/-- `LZ4_COMPRESSBOUND`. -/
def compressBound (isize : ℕ) : ℕ := isize + isize / 255 + 16

def SMSG_MAX_MSG_WORST : ℕ := compressBound (SMSG_MAX_MSG_BYTES + SMSG_PL_HDR_LEN)

/-! ## Bytes of a buffer -/

/-- `memcpy` out of a buffer; only the bytes that are copied are read. -/
def readRange (data : List UInt8) (start size : ℕ) : Checked (List UInt8) :=
  if size = 0 ∨ start + size ≤ data.length then .ok ((data.drop start).take size)
  else .error .outOfRange

/-- An `int64_t` in a buffer. -/
def int64Of (bytes : List UInt8) : ℤ := ((fromBytesLE bytes : ℕ) : ℤ).bmod (2 ^ 64)

/-! ## Headers -/

/-- The fields of a header, as they lie in its bytes. -/
structure SecureMessage where
  hash : List UInt8
  version : List UInt8
  timestamp : ℤ
  nonse : List UInt8
  nPayload : ℕ
  deriving DecidableEq, Repr

/-- The cast of a pointer to `SecureMessage*`. -/
def SecureMessage.ofBytes (header : List UInt8) : SecureMessage where
  hash := header.take 4
  version := (header.drop 4).take 2
  timestamp := int64Of ((header.drop 7).take 8)
  nonse := (header.drop 96).take 4
  nPayload := fromBytesLE ((header.drop 100).take 4)

/-! ## Tokens and buckets -/

structure SecMsgToken where
  timestamp : ℤ
  sample : List UInt8
  offset : ℕ
  deriving DecidableEq, Repr

/-- Tokens are ordered by their times and then by their samples, which `memcmp` compares like
numbers with the most significant byte first. -/
abbrev TokenKey := ℤ ×ₗ ℕ

namespace SecMsgToken

def key (token : SecMsgToken) : TokenKey :=
  toLex (token.timestamp, fromBytesLE token.sample.reverse)

/-- The constructor; a payload of less than eight bytes has a sample of zeros. -/
def new (timestamp : ℤ) (payload : List UInt8) (offset : ℕ) : SecMsgToken where
  timestamp := timestamp
  sample := if payload.length < 8 then List.replicate 8 0 else payload.take 8
  offset := offset

end SecMsgToken

abbrev TokenSet := Table TokenKey SecMsgToken

structure SecMsgBucket where
  timeChanged : ℤ
  hash : UInt32
  nLockCount : ℕ
  nLockPeerId : ℤ
  setTokens : TokenSet

namespace SecMsgBucket

def new : SecMsgBucket := ⟨0, 0, 0, 0, ∅⟩

/-- The hash over the samples of a token set. -/
def hashOf (setTokens : TokenSet) : UInt32 :=
  XXH32.digest (setTokens.inKeyOrder.foldl (fun state token => XXH32.update state token.2.sample)
    (XXH32.init 1))

def hashBucket (now : ℤ) (bucket : SecMsgBucket) : SecMsgBucket :=
  { bucket with
    timeChanged := now
    hash := hashOf bucket.setTokens }

end SecMsgBucket

/-- The bucket of a time. -/
def bucketOf (timestamp : ℤ) : ℤ := timestamp - timestamp.tmod SMSG_BUCKET_LEN

/-- `smsgBuckets` and the files `<bucket>_01.dat` of the directory `smsgStore`. -/
structure SmsgStore where
  smsgBuckets : Table ℤ SecMsgBucket
  files : Table ℤ (List UInt8)

namespace SmsgStore

/-- `smsgBuckets[time]`, which creates the bucket. -/
def bucket (store : SmsgStore) (time : ℤ) : SecMsgBucket :=
  (store.smsgBuckets.lookup time).getD SecMsgBucket.new

def setBucket (store : SmsgStore) (time : ℤ) (bucket : SecMsgBucket) : SmsgStore :=
  { store with smsgBuckets := store.smsgBuckets.insert time bucket }

end SmsgStore

/-! ## Storing and retrieving -/

/-- `SecureMsgStore`, with the value it returns.  File operations succeed. -/
def secureMsgStore (now : ℤ) (header payload : List UInt8) (fUpdateBucket : Bool)
    (store : SmsgStore) : ℕ × SmsgStore :=
  let smsg := SecureMessage.ofBytes header
  if smsg.timestamp > now + SMSG_TIME_LEEWAY then (1, store)
  else if smsg.timestamp < now - SMSG_RETENTION then (1, store)
  else
    let time := bucketOf smsg.timestamp
    let token := SecMsgToken.new smsg.timestamp payload 0
    let bucket := store.bucket time
    if token.key ∈ bucket.setTokens then (1, store.setBucket time bucket)
    else
      let file := (store.files.lookup time).getD []
      let token := { token with offset := file.length }
      let bucket := { bucket with setTokens := bucket.setTokens.insert token.key token }
      let store := { store with files := store.files.insert time (file ++ header ++ payload) }
      (0, store.setBucket time (if fUpdateBucket then bucket.hashBucket now else bucket))

/-- `SecureMsgRetrieve`: the header and the payload of a token. -/
def secureMsgRetrieve (files : Table ℤ (List UInt8)) (token : SecMsgToken) :
    Option (List UInt8) := do
  let file ← files.lookup (bucketOf token.timestamp)
  let header := (file.drop token.offset).take SMSG_HDR_LEN
  if header.length ≠ SMSG_HDR_LEN then none
  else
    let nPayload := (SecureMessage.ofBytes header).nPayload
    let size := (SMSG_HDR_LEN + nPayload) % 2 ^ 32
    let payload := (file.drop (token.offset + SMSG_HDR_LEN)).take nPayload
    if payload.length ≠ nPayload ∨ size ≠ SMSG_HDR_LEN + nPayload then none
    else some (header ++ payload)

/-! ## Validating -/

/-- `HMAC` with SHA-256 of a key and data, or a failure of the library. -/
structure SmsgTools where
  hmac : (key data : List UInt8) → Option (List UInt8)

/-- What `SecureMsgValidate` returns once it has the payload. -/
def validateHash (tools : SmsgTools) (header payload : List UInt8) : ℕ :=
  let civ := (List.replicate 8 (SecureMessage.ofBytes header).nonse).flatten
  match tools.hmac civ (header.drop 4 ++ payload ++ payload) with
  | none => 1
  | some sha256Hash =>
      if sha256Hash.length ≠ 32 then 1
      else if (SecureMessage.ofBytes header).hash ≠ sha256Hash.take 4 then 3
      else if sha256Hash.getD 31 0 = 0 ∧ sha256Hash.getD 30 0 = 0 ∧
          (sha256Hash.getD 29 0).toNat % 2 = 0 then 0
      else 2

/-- `SecureMsgValidate` for the record at a position of the received data. -/
def secureMsgValidate (tools : SmsgTools) (data : List UInt8) (header : List UInt8)
    (payloadStart : ℕ) : Checked ℕ :=
  let smsg := SecureMessage.ofBytes header
  if smsg.version.head? ≠ some 1 then .ok 4
  else if smsg.nPayload > SMSG_MAX_MSG_WORST then .ok 5
  else do
    let payload ← readRange data payloadStart smsg.nPayload
    .ok (validateHash tools header payload)

/-! ## Receiving messages -/

/-- The loop of `SecureMsgReceive` over the records.  The pointers handed on are those to the
header and to the payload, which `SecureMsgStore` writes to the file and `SecureMsgScanMessage`
tries to decrypt. -/
def receiveBunch (tools : SmsgTools) (now : ℤ) (data : List UInt8) :
    (remaining n : ℕ) → (misbehaving : ℕ) → SmsgStore → Checked (ℕ × SmsgStore)
  | 0, _, misbehaving, store => .ok (misbehaving, store)
  | remaining + 1, n, misbehaving, store =>
      if ((data.length : ℤ) - n) % 2 ^ 64 < SMSG_HDR_LEN then .ok (misbehaving, store)
      else do
        let header ← readRange data n SMSG_HDR_LEN
        let nPayload := (SecureMessage.ofBytes header).nPayload
        let rv ← secureMsgValidate tools data header (n + SMSG_HDR_LEN)
        if rv ≠ 0 then receiveBunch tools now data remaining n (misbehaving + 1) store
        else do
          let payload ← readRange data (n + SMSG_HDR_LEN) nPayload
          let stored := secureMsgStore now header payload false store
          if stored.1 ≠ 0 then .ok (misbehaving, stored.2)
          else
            receiveBunch tools now data remaining ((n + SMSG_HDR_LEN + nPayload) % 2 ^ 32)
              misbehaving stored.2

/-- Give up the lock on a bucket, if the bucket exists. -/
def SmsgStore.unlock (store : SmsgStore) (time : ℤ) : SmsgStore :=
  match store.smsgBuckets.lookup time with
  | none => store
  | some bucket => store.setBucket time { bucket with nLockCount := 0 }

/-- The end of `SecureMsgReceive`: the bucket that the peer has named is hashed. -/
def hashNamedBucket (now bktTime : ℤ) (store : SmsgStore) : ℕ × SmsgStore :=
  match store.smsgBuckets.lookup bktTime with
  | none => (1, store)
  | some bucket =>
      (0, store.setBucket bktTime
        ({ bucket with nLockCount := 0, nLockPeerId := 0 }.hashBucket now))

/-- `SecureMsgReceive`: the value it returns, the calls of `Misbehaving`, and the store. -/
def secureMsgReceive (tools : SmsgTools) (now : ℤ) (data : List UInt8) (store : SmsgStore) :
    Checked (ℕ × ℕ × SmsgStore) :=
  if data.length < 12 then .ok (1, 0, store)
  else do
    let nBunch := fromBytesLE (← readRange data 0 4)
    let bktTime := int64Of (← readRange data 4 8)
    if bktTime > now + SMSG_TIME_LEEWAY then .ok (1, 0, store)
    else if bktTime < now - SMSG_RETENTION then .ok (1, 0, store)
    else if nBunch = 0 ∨ nBunch > 500 then .ok (1, 1, store.unlock bktTime)
    else do
      let (misbehaving, store) ← receiveBunch tools now data nBunch 12 0 store
      let (rv, store) := hashNamedBucket now bktTime store
      .ok (rv, misbehaving, store)

end SocietyGold
