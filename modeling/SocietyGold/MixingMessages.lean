import SocietyGold.CompactSizes
import SocietyGold.RoundTrips

/-!
# What mixing messages carry

The pool hands the fields of a message to `PushMessage`, which writes each of them in
the form of its type; the handler declares variables of its own and reads them in turn.
Nothing but the two lists of types ties the ends together.  A reader delivers only what
its type holds, so that the fields arrive as they were sent exactly when the lists agree
and each field fits.
-/

namespace SocietyGold

open Support

/-! ## What the readers deliver -/

theorem deliversOnly_readUint (width : ℕ) : DeliversOnly (readUint width) (· < 256 ^ width) := by
  intro stream n rest h
  exact (readUint_eq_some_iff.mp h).1

theorem deliversOnly_readInt {width : ℕ} (hWidth : 0 < width) :
    DeliversOnly (readInt width) (FitsInt width) := by
  intro stream z rest h
  obtain ⟨⟨n, tail⟩, -, hNumber⟩ := Option.map_eq_some_iff.mp h
  obtain ⟨rfl, rfl⟩ := Prod.mk.inj hNumber
  have hPos : 0 < 256 ^ width := by
    positivity
  have hEven : 256 ^ width = 2 * (128 * 256 ^ (width - 1)) := by
    obtain ⟨k, rfl⟩ := Nat.exists_eq_add_of_lt hWidth
    simp only [Nat.zero_add, Nat.add_sub_cancel, pow_succ]
    ring
  have hLower := @Int.le_bmod n _ hPos
  have hUpper := @Int.bmod_lt n _ hPos
  have hCast : ((256 : ℤ) ^ width) = ((256 ^ width : ℕ) : ℤ) := by
    norm_num
  rw [FitsInt, hCast]
  omega

theorem deliversOnly_readCompactSize : DeliversOnly readCompactSize (· ≤ MAX_SIZE) := by
  intro stream n rest h
  exact (readCompactSize_eq_some_iff.mp h).2

theorem deliversOnly_readBytes (n : ℕ) :
    DeliversOnly (readBytes n) fun bytes => bytes.length = n := by
  intro stream bytes rest h
  unfold readBytes at h
  split_ifs at h with hLength
  obtain ⟨rfl, rfl⟩ := Prod.mk.inj (Option.some.inj h)
  exact List.length_take_of_le hLength

theorem deliversOnly_unserializeBytes :
    DeliversOnly unserializeBytes fun bytes => bytes.length ≤ MAX_SIZE := by
  refine deliversOnly_readCompactSize.bind ?_
  intro n hMax stream bytes rest h
  rw [deliversOnly_readBytes n stream bytes rest h]
  exact hMax

theorem deliversOnly_readMany
    {α : Type} {read : Reader α} {P : α → Prop} (h : DeliversOnly read P) (n : ℕ) :
    DeliversOnly (readMany read n) fun v => v.length = n ∧ ∀ a ∈ v, P a := by
  induction n with
  | zero => exact DeliversOnly.pure ⟨rfl, by simp⟩
  | succ n ih =>
      refine h.bind ?_
      intro a hHead
      refine ih.bind ?_
      rintro v ⟨hLength, hTail⟩
      exact DeliversOnly.pure
        ⟨by rw [List.length_cons, hLength], List.forall_mem_cons.mpr ⟨hHead, hTail⟩⟩

theorem deliversOnly_unserializeVector
    {α : Type} {read : Reader α} {P : α → Prop} (h : DeliversOnly read P) :
    DeliversOnly (unserializeVector read) fun v => v.length ≤ MAX_SIZE ∧ ∀ a ∈ v, P a := by
  refine deliversOnly_readCompactSize.bind ?_
  intro n hMax stream v rest hRead
  obtain ⟨hLength, hEach⟩ := deliversOnly_readMany h n stream v rest hRead
  exact ⟨hLength ▸ hMax, hEach⟩

namespace CTransaction

theorem deliversOnly_readOutPoint : DeliversOnly readOutPoint COutPoint.Fits := by
  refine (deliversOnly_readUint 32).bind ?_
  intro hash hHash
  refine (deliversOnly_readUint 4).bind ?_
  intro n hN
  exact DeliversOnly.pure ⟨hHash, hN⟩

theorem deliversOnly_readTxIn : DeliversOnly readTxIn CTxIn.Fits := by
  refine deliversOnly_readOutPoint.bind ?_
  intro prevout hPrevout
  refine deliversOnly_unserializeBytes.bind ?_
  intro scriptSig hScript
  refine (deliversOnly_readUint 4).bind ?_
  intro nSequence hSequence
  exact DeliversOnly.pure ⟨hPrevout, hScript, hSequence⟩

theorem deliversOnly_readTxOut : DeliversOnly readTxOut CTxOut.Fits := by
  have hInt : DeliversOnly (readInt 8) (FitsInt 8) := deliversOnly_readInt (by norm_num)
  refine hInt.bind ?_
  intro nValue hValue
  refine deliversOnly_unserializeBytes.bind ?_
  intro scriptPubKey hScript
  exact DeliversOnly.pure ⟨hValue, hScript⟩

theorem deliversOnly_unserialize : DeliversOnly unserialize Fits := by
  have hInt : DeliversOnly (readInt 4) (FitsInt 4) := deliversOnly_readInt (by norm_num)
  refine hInt.bind ?_
  intro nVersion hVersion
  refine (deliversOnly_readUint 4).bind ?_
  intro nTime hTime
  refine (deliversOnly_unserializeVector deliversOnly_readTxIn).bind ?_
  rintro vin ⟨hIn, hInputs⟩
  refine (deliversOnly_unserializeVector deliversOnly_readTxOut).bind ?_
  rintro vout ⟨hOut, hOutputs⟩
  refine (deliversOnly_readUint 4).bind ?_
  intro nLockTime hLock
  exact DeliversOnly.pure ⟨hVersion, hTime, hIn, hOut, hInputs, hOutputs, hLock⟩

end CTransaction

/-! ## Fields -/

/-- The announcement that a masternode waits for participants, or is ready for them. -/
structure CDarksendQueue where
  vin : CTxIn
  time : ℤ
  nDenom : ℤ
  ready : Bool
  vchSig : List UInt8
  deriving DecidableEq, Repr

namespace CDarksendQueue

def serialize (dsq : CDarksendQueue) : List UInt8 :=
  intToBytesLE 4 dsq.nDenom ++ CTransaction.serializeTxIn dsq.vin ++ intToBytesLE 8 dsq.time ++
    serializeBool dsq.ready ++ serializeBytes dsq.vchSig

def unserialize : Reader CDarksendQueue := fun stream => do
  let (nDenom, rest) ← readInt 4 stream
  let (vin, rest) ← CTransaction.unserializeTxIn rest
  let (time, rest) ← readInt 8 rest
  let (ready, rest) ← readBool rest
  let (vchSig, rest) ← unserializeBlocks rest
  some (⟨vin, time, nDenom, ready, vchSig⟩, rest)

structure Fits (dsq : CDarksendQueue) : Prop where
  vin : dsq.vin.Fits
  time : FitsInt 8 dsq.time
  nDenom : FitsInt 4 dsq.nDenom
  vchSig : dsq.vchSig.length ≤ MAX_SIZE

theorem readsAs_unserialize
    {dsq : CDarksendQueue} (h : dsq.Fits) : ReadsAs unserialize dsq.serialize dsq := by
  intro rest
  simp [unserialize, serialize, readsAs_readInt h.nDenom _, CTransaction.readsAs_readTxIn h.vin _,
    readsAs_readInt h.time _, readsAs_readBool _ _, readsAs_unserializeBytes h.vchSig _]

theorem deliversOnly_unserialize : DeliversOnly unserialize Fits := by
  have hDenom : DeliversOnly (readInt 4) (FitsInt 4) := deliversOnly_readInt (by norm_num)
  have hTime : DeliversOnly (readInt 8) (FitsInt 8) := deliversOnly_readInt (by norm_num)
  have hReady : DeliversOnly readBool fun _ => True := fun _ _ _ _ => trivial
  have hIn : DeliversOnly CTransaction.unserializeTxIn CTxIn.Fits := by
    rw [CTransaction.unserializeTxIn_eq]
    exact CTransaction.deliversOnly_readTxIn
  have hBlocks : DeliversOnly unserializeBlocks fun bytes => bytes.length ≤ MAX_SIZE := by
    rw [unserializeBlocks_eq]
    exact deliversOnly_unserializeBytes
  refine hDenom.bind ?_
  intro nDenom hDenom
  refine hIn.bind ?_
  intro vin hVin
  refine hTime.bind ?_
  intro time hTime
  refine hReady.bind ?_
  intro ready _
  refine hBlocks.bind ?_
  intro vchSig hSig
  exact DeliversOnly.pure ⟨hVin, hTime, hDenom, hSig⟩

end CDarksendQueue

/-- The types of which the ends declare fields. -/
inductive FieldType
  | int
  | int64
  | bool
  | string
  | transaction
  | txIns
  | txOuts
  | queue
  deriving DecidableEq, Repr

/-- A field with its value. -/
inductive FieldValue
  | int (z : ℤ)
  | int64 (z : ℤ)
  | bool (a : Bool)
  | string (str : List UInt8)
  | transaction (tx : CTransaction)
  | txIns (v : List CTxIn)
  | txOuts (v : List CTxOut)
  | queue (dsq : CDarksendQueue)
  deriving DecidableEq, Repr

namespace FieldValue

def type : FieldValue → FieldType
  | int _ => .int
  | int64 _ => .int64
  | bool _ => .bool
  | string _ => .string
  | transaction _ => .transaction
  | txIns _ => .txIns
  | txOuts _ => .txOuts
  | queue _ => .queue

/-- `<<`, by the type of the field. -/
def serialize : FieldValue → List UInt8
  | int z => intToBytesLE 4 z
  | int64 z => intToBytesLE 8 z
  | bool a => serializeBool a
  | string str => serializeBytes str
  | transaction tx => tx.serialize
  | txIns v => serializeVector CTransaction.serializeTxIn v
  | txOuts v => serializeVector CTransaction.serializeTxOut v
  | queue dsq => dsq.serialize

/-- The values that the type has, with lengths that readers accept. -/
def Fits : FieldValue → Prop
  | int z => FitsInt 4 z
  | int64 z => FitsInt 8 z
  | bool _ => True
  | string str => str.length ≤ MAX_SIZE
  | transaction tx => tx.Fits
  | txIns v => v.length ≤ MAX_SIZE ∧ ∀ txin ∈ v, txin.Fits
  | txOuts v => v.length ≤ MAX_SIZE ∧ ∀ txout ∈ v, txout.Fits
  | queue dsq => dsq.Fits

end FieldValue

/-- `>>`, by the type of the variable. -/
def readField (sizes : ElementSizes) : FieldType → Reader FieldValue
  | .int, stream => do
      let (z, rest) ← readInt 4 stream
      some (.int z, rest)
  | .int64, stream => do
      let (z, rest) ← readInt 8 stream
      some (.int64 z, rest)
  | .bool, stream => do
      let (a, rest) ← readBool stream
      some (.bool a, rest)
  | .string, stream => do
      let (str, rest) ← unserializeBytes stream
      some (.string str, rest)
  | .transaction, stream => do
      let (tx, rest) ← CTransaction.unserializeInBlocks sizes stream
      some (.transaction tx, rest)
  | .txIns, stream => do
      let (v, rest) ← unserializeElements sizes.txIn CTransaction.unserializeTxIn stream
      some (.txIns v, rest)
  | .txOuts, stream => do
      let (v, rest) ← unserializeElements sizes.txOut CTransaction.unserializeTxOut stream
      some (.txOuts v, rest)
  | .queue, stream => do
      let (dsq, rest) ← CDarksendQueue.unserialize stream
      some (.queue dsq, rest)

namespace FieldValue

theorem readsAs_readField
    (sizes : ElementSizes) {value : FieldValue} (h : value.Fits) :
    ReadsAs (readField sizes value.type) value.serialize value := by
  intro rest
  cases value with
  | int z => simp [readField, type, serialize, readsAs_readInt h _]
  | int64 z => simp [readField, type, serialize, readsAs_readInt h _]
  | bool a => simp [readField, type, serialize, readsAs_readBool a _]
  | string str => simp [readField, type, serialize, readsAs_unserializeBytes h _]
  | transaction tx => simp [readField, type, serialize, CTransaction.readsAs_unserialize h _]
  | txIns v =>
      have hRead := readsAs_unserializeVector h.1 fun txin hIn =>
        CTransaction.readsAs_readTxIn (h.2 txin hIn)
      simp [readField, type, serialize, hRead _]
  | txOuts v =>
      have hRead := readsAs_unserializeVector h.1 fun txout hOut =>
        CTransaction.readsAs_readTxOut (h.2 txout hOut)
      simp [readField, type, serialize, hRead _]
  | queue dsq => simp [readField, type, serialize, CDarksendQueue.readsAs_unserialize h _]

/-- A variable is filled with a value of its own type only. -/
theorem deliversOnly_readField
    (sizes : ElementSizes) (t : FieldType) :
    DeliversOnly (readField sizes t) fun value => value.type = t ∧ value.Fits := by
  cases t with
  | int =>
      have hRead : DeliversOnly (readInt 4) (FitsInt 4) := deliversOnly_readInt (by norm_num)
      refine hRead.bind ?_
      intro z hFits
      exact DeliversOnly.pure ⟨rfl, hFits⟩
  | int64 =>
      have hRead : DeliversOnly (readInt 8) (FitsInt 8) := deliversOnly_readInt (by norm_num)
      refine hRead.bind ?_
      intro z hFits
      exact DeliversOnly.pure ⟨rfl, hFits⟩
  | bool =>
      have hRead : DeliversOnly readBool fun _ => True := fun _ _ _ _ => trivial
      refine hRead.bind ?_
      intro a _
      exact DeliversOnly.pure ⟨rfl, trivial⟩
  | string =>
      refine deliversOnly_unserializeBytes.bind ?_
      intro str hFits
      exact DeliversOnly.pure ⟨rfl, hFits⟩
  | transaction =>
      have hRead : DeliversOnly (CTransaction.unserializeInBlocks sizes) CTransaction.Fits := by
        rw [CTransaction.unserializeInBlocks_eq]
        exact CTransaction.deliversOnly_unserialize
      refine hRead.bind ?_
      intro tx hFits
      exact DeliversOnly.pure ⟨rfl, hFits⟩
  | txIns =>
      have hRead := deliversOnly_unserializeVector CTransaction.deliversOnly_readTxIn
      rw [← unserializeElements_eq sizes.txIn, ← CTransaction.unserializeTxIn_eq] at hRead
      refine hRead.bind ?_
      intro v hFits
      exact DeliversOnly.pure ⟨rfl, hFits⟩
  | txOuts =>
      have hRead := deliversOnly_unserializeVector CTransaction.deliversOnly_readTxOut
      rw [← unserializeElements_eq sizes.txOut, ← CTransaction.unserializeTxOut_eq] at hRead
      refine hRead.bind ?_
      intro v hFits
      exact DeliversOnly.pure ⟨rfl, hFits⟩
  | queue =>
      refine CDarksendQueue.deliversOnly_unserialize.bind ?_
      intro dsq hFits
      exact DeliversOnly.pure ⟨rfl, hFits⟩

end FieldValue

/-! ## Lists of fields -/

/-- `vRecv >> a >> b >> ...`, for variables of the types. -/
def readFields (sizes : ElementSizes) : List FieldType → Reader (List FieldValue)
  | [], stream => some ([], stream)
  | t :: types, stream => do
      let (value, rest) ← readField sizes t stream
      let (values, rest) ← readFields sizes types rest
      some (value :: values, rest)

theorem readsAs_readFields
    (sizes : ElementSizes) {values : List FieldValue} (h : ∀ value ∈ values, value.Fits) :
    ReadsAs (readFields sizes (values.map FieldValue.type))
      (values.flatMap FieldValue.serialize) values := by
  intro rest
  induction values with
  | nil => rfl
  | cons value values ih =>
      obtain ⟨hHead, hTail⟩ := List.forall_mem_cons.mp h
      simp only [List.map_cons, List.flatMap_cons, List.append_assoc, readFields,
        FieldValue.readsAs_readField sizes hHead _, Option.bind_eq_bind, Option.bind_some, ih hTail]

theorem deliversOnly_readFields
    (sizes : ElementSizes) (types : List FieldType) :
    DeliversOnly (readFields sizes types) fun values =>
      values.map FieldValue.type = types ∧ ∀ value ∈ values, value.Fits := by
  induction types with
  | nil => exact DeliversOnly.pure ⟨rfl, by simp⟩
  | cons t types ih =>
      refine (FieldValue.deliversOnly_readField sizes t).bind ?_
      rintro value ⟨hType, hFits⟩
      refine ih.bind ?_
      rintro values ⟨hTypes, hEach⟩
      exact DeliversOnly.pure
        ⟨by rw [List.map_cons, hType, hTypes], List.forall_mem_cons.mpr ⟨hFits, hEach⟩⟩

/-- Fields arrive as they were sent, with nothing left over, exactly when the variables
have their types and the values fit. -/
theorem readFields_sent_iff
    (sizes : ElementSizes) (types : List FieldType) (values : List FieldValue) :
    readFields sizes types (values.flatMap FieldValue.serialize) = some (values, []) ↔
      values.map FieldValue.type = types ∧ ∀ value ∈ values, value.Fits := by
  constructor
  · intro h
    exact deliversOnly_readFields sizes types _ values [] h
  · rintro ⟨rfl, hFits⟩
    have hRead := readsAs_readFields sizes hFits []
    rwa [List.append_nil] at hRead

/-! ## Messages -/

/-- The messages that the pool emits, with what is handed to `PushMessage`. -/
inductive PoolMessage
  | dsa (sessionDenom : ℤ) (txCollateral : CTransaction)
  | dsq (queue : CDarksendQueue)
  | dsi (vin : List CTxIn) (nAmount : ℤ) (txCollateral : CTransaction) (vout : List CTxOut)
  | dssu (sessionID newState newEntriesCount newAccepted : ℤ) (error : List UInt8)
  | dsf (sessionID : ℤ) (txNew : CTransaction)
  | dss (sigs : List CTxIn)
  | dsc (sessionID : ℤ) (error : Bool) (errorMessage : List UInt8)
  deriving DecidableEq, Repr

inductive PoolCommand
  | dsa
  | dsq
  | dsi
  | dssu
  | dsf
  | dss
  | dsc
  deriving DecidableEq, Repr

namespace PoolMessage

def command : PoolMessage → PoolCommand
  | dsa .. => .dsa
  | dsq .. => .dsq
  | dsi .. => .dsi
  | dssu .. => .dssu
  | dsf .. => .dsf
  | dss .. => .dss
  | dsc .. => .dsc

/-- The fields of a message, in the order in which they are sent. -/
def sent : PoolMessage → List FieldValue
  | dsa sessionDenom txCollateral => [.int sessionDenom, .transaction txCollateral]
  | dsq queue => [.queue queue]
  | dsi vin nAmount txCollateral vout =>
      [.txIns vin, .int64 nAmount, .transaction txCollateral, .txOuts vout]
  | dssu sessionID newState newEntriesCount newAccepted error =>
      [.int sessionID, .int newState, .int newEntriesCount, .int newAccepted, .string error]
  | dsf sessionID txNew => [.int sessionID, .transaction txNew]
  | dss sigs => [.txIns sigs]
  | dsc sessionID error errorMessage => [.int sessionID, .bool error, .string errorMessage]

/-- What `PushMessage` writes after the header. -/
def payload (m : PoolMessage) : List UInt8 := m.sent.flatMap FieldValue.serialize

end PoolMessage

/-- The variables that `ProcessMessageDarksend` reads a message into. -/
def PoolCommand.received : PoolCommand → List FieldType
  | .dsa => [.int, .transaction]
  | .dsq => [.queue]
  | .dsi => [.txIns, .int64, .transaction, .txOuts]
  | .dssu => [.int, .int, .int, .int, .string]
  | .dss => [.txIns]
  | .dsf => [.int, .transaction]
  -- `errorID` is an `int`, what is sent is the text of the error
  | .dsc => [.int, .bool, .int]

namespace PoolMessage

/-- The handler obtains what was sent and consumes all of it. -/
def DecodesAsSent (sizes : ElementSizes) (m : PoolMessage) : Prop :=
  readFields sizes m.command.received m.payload = some (m.sent, [])

instance (sizes : ElementSizes) (m : PoolMessage) : Decidable (m.DecodesAsSent sizes) :=
  inferInstanceAs (Decidable (_ = _))

/-- The ends agree on the types of all messages but the last one. -/
theorem types_eq_received_iff (m : PoolMessage) :
    m.sent.map FieldValue.type = m.command.received ↔ m.command ≠ .dsc := by
  cases m with
  | dsc sessionID error errorMessage =>
      simp [sent, command, FieldValue.type, PoolCommand.received]
  | _ => simp [sent, command, FieldValue.type, PoolCommand.received]

end PoolMessage

/-- A mixing message decodes to what was sent exactly when it is not `dsc` and its
fields fit their types and the sizes that readers accept. -/
theorem mixingMessage_decodes_iff
    (sizes : ElementSizes) (m : PoolMessage) :
    m.DecodesAsSent sizes ↔ m.command ≠ .dsc ∧ ∀ value ∈ m.sent, value.Fits := by
  rw [← m.types_eq_received_iff]
  exact readFields_sent_iff sizes m.command.received m.sent

namespace Sample

theorem messageTxIn_pos : 0 < 72 := by decide

theorem messageTxIn_le_block : 72 ≤ BLOCK_BYTES := by decide

def messageSizes : ElementSizes where
  txIn := ⟨72, messageTxIn_pos, messageTxIn_le_block⟩
  txOut := ⟨32, by decide, by decide⟩
  transaction := ⟨64, by decide, by decide⟩

/-- What `RelayCompletedTransaction` sends when a session has ended well. -/
def completedMessage : PoolMessage :=
  .dsc 5 false ("Transaction created successfully.".toList.map fun c => UInt8.ofNat c.toNat)

/-- The length and the first three letters are taken for the number of the error, and
thirty letters are left over. -/
theorem completedMessage_misread :
    ¬completedMessage.DecodesAsSent messageSizes ∧
      (readFields messageSizes completedMessage.command.received completedMessage.payload).map
        (fun found => (found.1, found.2.length)) =
      some ([.int 5, .bool false, .int 0x61725421], 30) := by
  decide +kernel

end Sample

end SocietyGold
