import SocietyGold.Block
import SocietyGold.Unserialize

/-!
# Round trips of transactions, blocks and index entries

`IMPLEMENT_SERIALIZE` instantiates one list of fields three times: to compute the
size, to write and to read.  Whatever fits the types of the source is read back from
its bytes, whatever follows them.  The size is an `unsigned int`, which is the number
of the bytes written modulo 2^32.
-/

namespace SocietyGold

open Support

/-! ## Sizes -/

/-- `nSerSize` after the sizes of the parts have been added to it. -/
def unsignedSum (parts : List ℕ) : ℕ :=
  parts.foldl (fun nSerSize part => (nSerSize + part) % 2 ^ 32) 0

theorem foldl_unsigned
    (parts : List ℕ) {start : ℕ} (hStart : start < 2 ^ 32) :
    parts.foldl (fun nSerSize part => (nSerSize + part) % 2 ^ 32) start =
      (start + parts.sum) % 2 ^ 32 := by
  induction parts generalizing start with
  | nil => rw [List.foldl_nil, List.sum_nil, Nat.add_zero, Nat.mod_eq_of_lt hStart]
  | cons part parts ih =>
      rw [List.foldl_cons, ih (Nat.mod_lt _ (by norm_num)), Nat.mod_add_mod,
        List.sum_cons, Nat.add_assoc]

theorem unsignedSum_eq (parts : List ℕ) : unsignedSum parts = parts.sum % 2 ^ 32 := by
  rw [unsignedSum, foldl_unsigned parts (by norm_num), Nat.zero_add]

/-- `GetSerializeSize` of a vector of elements, in `unsigned int`. -/
def elementsSize {α : Type} (size : α → ℕ) (v : List α) : ℕ :=
  unsignedSum (getSizeOfCompactSize v.length :: v.map size)

/-- `GetSerializeSize` of a vector of bytes, in `unsigned int`. -/
def blocksSize (v : List UInt8) : ℕ :=
  unsignedSum [getSizeOfCompactSize v.length, v.length]

theorem blocksSize_eq (v : List UInt8) : blocksSize v = bytesSerializeSize v % 2 ^ 32 := by
  simp [blocksSize, unsignedSum_eq, bytesSerializeSize]

theorem sum_map_mod
    {α : Type} {size wide : α → ℕ} (h : ∀ a, size a = wide a % 2 ^ 32) (v : List α) :
    (v.map size).sum % 2 ^ 32 = (v.map wide).sum % 2 ^ 32 := by
  induction v with
  | nil => rfl
  | cons a v ih =>
      have hHead := h a
      simp only [List.map_cons, List.sum_cons]
      omega

theorem elementsSize_eq
    {α : Type} {size wide : α → ℕ} (h : ∀ a, size a = wide a % 2 ^ 32) (v : List α) :
    elementsSize size v = vectorSerializeSize wide v % 2 ^ 32 := by
  have hSum := sum_map_mod h v
  rw [elementsSize, unsignedSum_eq, vectorSerializeSize, List.sum_cons]
  omega

/-! ## What a round trip restores -/

/-- The three instantiations of a list of fields agree on the values that fit: the
reader restores what was written, up to the fields that are not written, and the size
counts the bytes modulo 2^32. -/
structure RoundTrip {α : Type}
    (serialize : α → List UInt8) (size : α → ℕ) (read : Reader α) (restored : α → α)
    (values : Set α) : Prop where
  readsBack : ∀ a ∈ values, ReadsAs read (serialize a) (restored a)
  size_mod : ∀ a ∈ values, size a = (serialize a).length % 2 ^ 32
  size_eq : ∀ a ∈ values, (serialize a).length < 2 ^ 32 → size a = (serialize a).length
  prefixFree : ∀ a ∈ values, ∀ b ∈ values, serialize a <+: serialize b → restored a = restored b
  injective : ∀ a ∈ values, ∀ b ∈ values, serialize a = serialize b → restored a = restored b

/-- What is read back is written unambiguously. -/
theorem RoundTrip.of_readsBack
    {α : Type} {serialize : α → List UInt8} {size : α → ℕ} {read : Reader α}
    {restored : α → α} {values : Set α}
    (hRead : ∀ a ∈ values, ReadsAs read (serialize a) (restored a))
    (hSize : ∀ a, size a = (serialize a).length % 2 ^ 32) :
    RoundTrip serialize size read restored values where
  readsBack := hRead
  size_mod a _ := hSize a
  size_eq a _ hSmall := by
    rw [hSize a, Nat.mod_eq_of_lt hSmall]
  prefixFree a ha b hb hPrefix := (hRead a ha).eq_of_startsWith (hRead b hb) hPrefix
  injective a ha b hb hEq := (hRead a ha).eq_of_startsWith (hRead b hb) (hEq ▸ List.prefix_rfl)

/-- The sizes in memory of what the vectors hold. -/
structure ElementSizes where
  txIn : ElementSize
  txOut : ElementSize
  transaction : ElementSize

/-! ## Truth values -/

def serializeBool (a : Bool) : List UInt8 := [if a then 1 else 0]

/-- A `char` that is not zero stands for true. -/
def readBool : Reader Bool := fun stream => do
  let (f, rest) ← readUint 1 stream
  some (decide (f ≠ 0), rest)

theorem readsAs_readBool (a : Bool) : ReadsAs readBool (serializeBool a) a := by
  intro rest
  cases a <;> simp [readBool, serializeBool, readUint_one_cons]

/-! ## Transactions -/

/-- The values of an outpoint's fields. -/
structure COutPoint.Fits (prevout : COutPoint) : Prop where
  hash : prevout.hash < 256 ^ 32
  n : prevout.n < 256 ^ 4

structure CTxIn.Fits (txin : CTxIn) : Prop where
  prevout : txin.prevout.Fits
  scriptSig : txin.scriptSig.length ≤ MAX_SIZE
  nSequence : txin.nSequence < 256 ^ 4

structure CTxOut.Fits (txout : CTxOut) : Prop where
  nValue : FitsInt 8 txout.nValue
  scriptPubKey : txout.scriptPubKey.length ≤ MAX_SIZE

/-- The values of a transaction's fields, with vectors that readers accept. -/
structure CTransaction.Fits (tx : CTransaction) : Prop where
  nVersion : FitsInt 4 tx.nVersion
  nTime : tx.nTime < 256 ^ 4
  vin : tx.vin.length ≤ MAX_SIZE
  vout : tx.vout.length ≤ MAX_SIZE
  inputs : ∀ txin ∈ tx.vin, txin.Fits
  outputs : ∀ txout ∈ tx.vout, txout.Fits
  nLockTime : tx.nLockTime < 256 ^ 4

namespace CTransaction

def unserializeTxIn : Reader CTxIn := fun stream => do
  let (prevout, rest) ← readOutPoint stream
  let (scriptSig, rest) ← unserializeBlocks rest
  let (nSequence, rest) ← readUint 4 rest
  some (⟨prevout, scriptSig, nSequence⟩, rest)

def unserializeTxOut : Reader CTxOut := fun stream => do
  let (nValue, rest) ← readInt 8 stream
  let (scriptPubKey, rest) ← unserializeBlocks rest
  some (⟨nValue, scriptPubKey⟩, rest)

/-- `Unserialize`, with its vectors read in blocks. -/
def unserializeInBlocks (sizes : ElementSizes) : Reader CTransaction := fun stream => do
  let (nVersion, rest) ← readInt 4 stream
  let (nTime, rest) ← readUint 4 rest
  let (vin, rest) ← unserializeElements sizes.txIn unserializeTxIn rest
  let (vout, rest) ← unserializeElements sizes.txOut unserializeTxOut rest
  let (nLockTime, rest) ← readUint 4 rest
  some (⟨nVersion, nTime, vin, vout, nLockTime⟩, rest)

@[simp] theorem unserializeTxIn_eq : unserializeTxIn = readTxIn := by
  funext stream
  simp only [unserializeTxIn, unserializeBlocks_eq, readTxIn]

@[simp] theorem unserializeTxOut_eq : unserializeTxOut = readTxOut := by
  funext stream
  simp only [unserializeTxOut, unserializeBlocks_eq, readTxOut]

/-- Reading in blocks reads the same transactions. -/
@[simp] theorem unserializeInBlocks_eq (sizes : ElementSizes) :
    unserializeInBlocks sizes = unserialize := by
  funext stream
  simp only [unserializeInBlocks, unserializeElements_eq, unserializeTxIn_eq, unserializeTxOut_eq,
    unserialize]

def txInSize (txin : CTxIn) : ℕ := unsignedSum [36, blocksSize txin.scriptSig, 4]

def txOutSize (txout : CTxOut) : ℕ := unsignedSum [8, blocksSize txout.scriptPubKey]

/-- `GetSerializeSize`, in `unsigned int`. -/
def unsignedSerializeSize (tx : CTransaction) : ℕ :=
  unsignedSum [4, 4, elementsSize txInSize tx.vin, elementsSize txOutSize tx.vout, 4]

theorem unsignedSerializeSize_eq_mod (tx : CTransaction) :
    tx.unsignedSerializeSize = tx.getSerializeSize % 2 ^ 32 := by
  have hIn : ∀ txin, txInSize txin = txInSerializeSize txin % 2 ^ 32 := by
    intro txin
    rw [txInSize, unsignedSum_eq, blocksSize_eq, txInSerializeSize]
    simp only [List.sum_cons, List.sum_nil]
    omega
  have hOut : ∀ txout, txOutSize txout = txOutSerializeSize txout % 2 ^ 32 := by
    intro txout
    rw [txOutSize, unsignedSum_eq, blocksSize_eq, txOutSerializeSize]
    simp only [List.sum_cons, List.sum_nil]
    omega
  rw [unsignedSerializeSize, unsignedSum_eq, elementsSize_eq hIn, elementsSize_eq hOut,
    getSerializeSize]
  simp only [List.sum_cons, List.sum_nil]
  omega

theorem readsAs_readOutPoint
    {prevout : COutPoint} (h : prevout.Fits) :
    ReadsAs readOutPoint (serializeOutPoint prevout) prevout := by
  intro rest
  simp [readOutPoint, serializeOutPoint, readsAs_readUint h.hash _, readsAs_readUint h.n _]

theorem readsAs_readTxIn
    {txin : CTxIn} (h : txin.Fits) : ReadsAs readTxIn (serializeTxIn txin) txin := by
  intro rest
  simp [readTxIn, serializeTxIn, readsAs_readOutPoint h.prevout _,
    readsAs_unserializeBytes h.scriptSig _, readsAs_readUint h.nSequence _]

theorem readsAs_readTxOut
    {txout : CTxOut} (h : txout.Fits) : ReadsAs readTxOut (serializeTxOut txout) txout := by
  intro rest
  simp [readTxOut, serializeTxOut, readsAs_readInt h.nValue _,
    readsAs_unserializeBytes h.scriptPubKey _]

/-- A transaction is read back from its bytes. -/
theorem readsAs_unserialize
    {tx : CTransaction} (h : tx.Fits) : ReadsAs unserialize tx.serialize tx := by
  intro rest
  have hIn := readsAs_unserializeVector h.vin fun txin hMem =>
    readsAs_readTxIn (h.inputs txin hMem)
  have hOut := readsAs_unserializeVector h.vout fun txout hMem =>
    readsAs_readTxOut (h.outputs txout hMem)
  simp [unserialize, serialize, readsAs_readInt h.nVersion _, readsAs_readUint h.nTime _,
    hIn _, hOut _, readsAs_readUint h.nLockTime _]

end CTransaction

/-! ## Blocks -/

structure CBlockHeader.Fits (header : CBlockHeader) : Prop where
  nVersion : FitsInt 4 header.nVersion
  hashPrevBlock : header.hashPrevBlock < 256 ^ 32
  hashMerkleRoot : header.hashMerkleRoot < 256 ^ 32
  nTime : header.nTime < 256 ^ 4
  nBits : header.nBits < 256 ^ 4
  nNonce : header.nNonce < 256 ^ 4

/-- The values of a block's fields, with vectors that readers accept. -/
structure CBlock.Fits (block : CBlock) : Prop where
  header : block.toCBlockHeader.Fits
  vtx : block.vtx.length ≤ MAX_SIZE
  transactions : ∀ tx ∈ block.vtx, tx.Fits
  vchBlockSig : block.vchBlockSig.length ≤ MAX_SIZE

namespace CBlock

/-- `Unserialize` of a block from disk or from the network. -/
def unserialize (sizes : ElementSizes) : Reader CBlock := fun stream => do
  let (header, rest) ← readHeader stream
  let (vtx, rest) ←
    unserializeElements sizes.transaction (CTransaction.unserializeInBlocks sizes) rest
  let (vchBlockSig, rest) ← unserializeBlocks rest
  some ({ header with vtx := vtx, vchBlockSig := vchBlockSig }, rest)

/-- `GetSerializeSize`, in `unsigned int`. -/
def unsignedSerializeSize (block : CBlock) : ℕ :=
  unsignedSum [4, 32, 32, 4, 4, 4, elementsSize CTransaction.unsignedSerializeSize block.vtx,
    blocksSize block.vchBlockSig]

theorem unsignedSerializeSize_eq_mod (block : CBlock) :
    block.unsignedSerializeSize = block.getSerializeSize % 2 ^ 32 := by
  rw [unsignedSerializeSize, unsignedSum_eq,
    elementsSize_eq CTransaction.unsignedSerializeSize_eq_mod, blocksSize_eq, getSerializeSize]
  simp only [List.sum_cons, List.sum_nil]
  omega

theorem readsAs_readHeader
    {header : CBlockHeader} (h : header.Fits) : ReadsAs readHeader header.serialize header := by
  intro rest
  simp [readHeader, CBlockHeader.serialize, readsAs_readInt h.nVersion _,
    readsAs_readUint h.hashPrevBlock _, readsAs_readUint h.hashMerkleRoot _,
    readsAs_readUint h.nTime _, readsAs_readUint h.nBits _, readsAs_readUint h.nNonce _]

/-- A block is read back from its bytes. -/
theorem readsAs_unserialize
    (sizes : ElementSizes) {block : CBlock} (h : block.Fits) :
    ReadsAs (unserialize sizes) block.serialize block := by
  intro rest
  have hVtx := readsAs_unserializeVector h.vtx fun tx hMem =>
    CTransaction.readsAs_unserialize (h.transactions tx hMem)
  simp [unserialize, serialize, readsAs_readHeader h.header _, hVtx _,
    readsAs_unserializeBytes h.vchBlockSig _]

end CBlock

/-! ## Index entries -/

/-- An index entry with the two fields that are stored beside those the node uses: a
second stake modifier and a copy of the block's hash. -/
structure StoredBlockIndex extends CDiskBlockIndex where
  bnStakeModifierV2 : ℕ
  blockHash : ℕ

namespace StoredBlockIndex

def isProofOfStake (entry : StoredBlockIndex) : Bool :=
  entry.nFlags.testBit BLOCK_PROOF_OF_STAKE

/-- What is left of an entry when the stake of one that is not proof-of-stake is
dropped. -/
def serialized (entry : StoredBlockIndex) : StoredBlockIndex :=
  { entry with
    prevoutStake := if entry.isProofOfStake then entry.prevoutStake else COutPoint.null
    nStakeTime := if entry.isProofOfStake then entry.nStakeTime else 0 }

/-- The stake of a proof-of-stake entry. -/
def serializeStake (entry : StoredBlockIndex) : List UInt8 :=
  if entry.isProofOfStake then
    CTransaction.serializeOutPoint entry.prevoutStake ++ toBytesLE 4 entry.nStakeTime
  else []

/-- `Serialize` to a stream of the given version, which comes first. -/
def serialize (nVersion : ℤ) (entry : StoredBlockIndex) : List UInt8 :=
  intToBytesLE 4 nVersion ++ toBytesLE 32 entry.hashNext ++ toBytesLE 4 entry.nFile ++
    toBytesLE 4 entry.nBlockPos ++ intToBytesLE 4 entry.nHeight ++
    intToBytesLE 8 entry.nMint ++ intToBytesLE 8 entry.nMoneySupply ++
    intToBytesLE 8 entry.nLastReward ++ toBytesLE 4 entry.nFlags ++
    toBytesLE 8 entry.nStakeModifier ++ toBytesLE 32 entry.bnStakeModifierV2 ++
    entry.serializeStake ++ toBytesLE 32 entry.hashProof ++ entry.header.serialize ++
    toBytesLE 32 entry.blockHash

/-- `GetSerializeSize`, in `unsigned int`. -/
def unsignedSerializeSize (entry : StoredBlockIndex) : ℕ :=
  unsignedSum ([4, 32, 4, 4, 4, 8, 8, 8, 4, 8, 32] ++
    (if entry.isProofOfStake then [36, 4] else []) ++ [32, 4, 32, 32, 4, 4, 4, 32])

def readStake (nFlags : ℕ) : Reader (COutPoint × ℕ) := fun stream =>
  if nFlags.testBit BLOCK_PROOF_OF_STAKE then do
    let (prevoutStake, rest) ← CTransaction.readOutPoint stream
    let (nStakeTime, rest) ← readUint 4 rest
    some ((prevoutStake, nStakeTime), rest)
  else some ((COutPoint.null, 0), stream)

/-- `Unserialize`; the version that comes first is not used. -/
def unserialize : Reader StoredBlockIndex := fun stream => do
  let (_, rest) ← readInt 4 stream
  let (hashNext, rest) ← readUint 32 rest
  let (nFile, rest) ← readUint 4 rest
  let (nBlockPos, rest) ← readUint 4 rest
  let (nHeight, rest) ← readInt 4 rest
  let (nMint, rest) ← readInt 8 rest
  let (nMoneySupply, rest) ← readInt 8 rest
  let (nLastReward, rest) ← readInt 8 rest
  let (nFlags, rest) ← readUint 4 rest
  let (nStakeModifier, rest) ← readUint 8 rest
  let (bnStakeModifierV2, rest) ← readUint 32 rest
  let ((prevoutStake, nStakeTime), rest) ← readStake nFlags rest
  let (hashProof, rest) ← readUint 32 rest
  let (header, rest) ← CBlock.readHeader rest
  let (blockHash, rest) ← readUint 32 rest
  some (⟨⟨hashNext, nFile, nBlockPos, nHeight, nMint, nMoneySupply, nLastReward, nFlags,
    nStakeModifier, prevoutStake, nStakeTime, hashProof, header⟩, bnStakeModifierV2,
    blockHash⟩, rest)

/-- The values of an entry's fields. -/
structure Fits (entry : StoredBlockIndex) : Prop where
  hashNext : entry.hashNext < 256 ^ 32
  nFile : entry.nFile < 256 ^ 4
  nBlockPos : entry.nBlockPos < 256 ^ 4
  nHeight : FitsInt 4 entry.nHeight
  nMint : FitsInt 8 entry.nMint
  nMoneySupply : FitsInt 8 entry.nMoneySupply
  nLastReward : FitsInt 8 entry.nLastReward
  nFlags : entry.nFlags < 256 ^ 4
  nStakeModifier : entry.nStakeModifier < 256 ^ 8
  bnStakeModifierV2 : entry.bnStakeModifierV2 < 256 ^ 32
  prevoutStake : entry.prevoutStake.Fits
  nStakeTime : entry.nStakeTime < 256 ^ 4
  hashProof : entry.hashProof < 256 ^ 32
  header : entry.header.Fits
  blockHash : entry.blockHash < 256 ^ 32

theorem unsignedSerializeSize_eq_mod (nVersion : ℤ) (entry : StoredBlockIndex) :
    entry.unsignedSerializeSize = (entry.serialize nVersion).length % 2 ^ 32 := by
  have hLength : (entry.serialize nVersion).length =
      ([4, 32, 4, 4, 4, 8, 8, 8, 4, 8, 32] ++
        (if entry.isProofOfStake then [36, 4] else []) ++ [32, 4, 32, 32, 4, 4, 4, 32]).sum := by
    cases hStake : entry.isProofOfStake <;>
      simp [serialize, serializeStake, CBlockHeader.serialize, CTransaction.serializeOutPoint,
        hStake]
  rw [unsignedSerializeSize, unsignedSum_eq, hLength]

/-- The stake is read back for proof-of-stake entries and is null for others. -/
theorem readsAs_readStake
    {entry : StoredBlockIndex} (h : entry.Fits) :
    ReadsAs (readStake entry.nFlags) entry.serializeStake
      (entry.serialized.prevoutStake, entry.serialized.nStakeTime) := by
  intro rest
  by_cases hStake : entry.nFlags.testBit BLOCK_PROOF_OF_STAKE = true
  · simp [readStake, serializeStake, serialized, isProofOfStake, hStake,
      CTransaction.readsAs_readOutPoint h.prevoutStake _, readsAs_readUint h.nStakeTime _]
  · simp [readStake, serializeStake, serialized, isProofOfStake, hStake]

/-- An entry is read back from its bytes, up to a stake that is not written. -/
theorem readsAs_unserialize
    (nVersion : ℤ) {entry : StoredBlockIndex} (h : entry.Fits) :
    ReadsAs unserialize (entry.serialize nVersion) entry.serialized := by
  simp only [serialize, List.append_assoc]
  refine (readsAs_readInt_bmod 4 nVersion).bind ?_
  refine (readsAs_readUint h.hashNext).bind ?_
  refine (readsAs_readUint h.nFile).bind ?_
  refine (readsAs_readUint h.nBlockPos).bind ?_
  refine (readsAs_readInt h.nHeight).bind ?_
  refine (readsAs_readInt h.nMint).bind ?_
  refine (readsAs_readInt h.nMoneySupply).bind ?_
  refine (readsAs_readInt h.nLastReward).bind ?_
  refine (readsAs_readUint h.nFlags).bind ?_
  refine (readsAs_readUint h.nStakeModifier).bind ?_
  refine (readsAs_readUint h.bnStakeModifierV2).bind ?_
  refine (readsAs_readStake h).bind ?_
  refine (readsAs_readUint h.hashProof).bind ?_
  refine (CBlock.readsAs_readHeader h.header).bind ?_
  intro rest
  simp only [readsAs_readUint h.blockHash _, Option.bind_eq_bind, Option.bind_some]
  rfl

end StoredBlockIndex

/-! ## The round trips -/

/-- Transactions, blocks and index entries are read back from their bytes, whatever
follows.  Their sizes count the bytes modulo 2^32, so exactly when there are fewer. -/
theorem transactions_blocks_entries_roundTrip (sizes : ElementSizes) :
    RoundTrip CTransaction.serialize CTransaction.unsignedSerializeSize
        (CTransaction.unserializeInBlocks sizes) id {tx | tx.Fits} ∧
      RoundTrip CBlock.serialize CBlock.unsignedSerializeSize
        (CBlock.unserialize sizes) id {block | block.Fits} ∧
      ∀ nVersion, RoundTrip (StoredBlockIndex.serialize nVersion)
        StoredBlockIndex.unsignedSerializeSize StoredBlockIndex.unserialize
        StoredBlockIndex.serialized {entry | entry.Fits} := by
  refine ⟨?_, ?_, fun nVersion => ?_⟩
  · apply RoundTrip.of_readsBack
    · intro tx hFits
      rw [CTransaction.unserializeInBlocks_eq]
      exact CTransaction.readsAs_unserialize hFits
    · intro tx
      rw [CTransaction.length_serialize, CTransaction.unsignedSerializeSize_eq_mod]
  · apply RoundTrip.of_readsBack
    · intro block hFits
      exact CBlock.readsAs_unserialize sizes hFits
    · intro block
      rw [CBlock.length_serialize, CBlock.unsignedSerializeSize_eq_mod]
  · apply RoundTrip.of_readsBack
    · intro entry hFits
      exact StoredBlockIndex.readsAs_unserialize nVersion hFits
    · intro entry
      exact StoredBlockIndex.unsignedSerializeSize_eq_mod nVersion entry

namespace Sample

/-- A transaction with 129 outputs that pay to one script. -/
def wideTx (scriptPubKey : CScript) : CTransaction where
  nVersion := 1
  nTime := 0
  vin := []
  vout := List.replicate 129 ⟨0, scriptPubKey⟩
  nLockTime := 0

theorem wideTx_fits
    {scriptPubKey : CScript} (h : scriptPubKey.length = MAX_SIZE) :
    (wideTx scriptPubKey).Fits where
  nVersion := ⟨by norm_num [wideTx], by norm_num [wideTx]⟩
  nTime := by norm_num [wideTx]
  vin := by simp [wideTx]
  vout := by simp [wideTx, MAX_SIZE]
  inputs := by simp [wideTx]
  outputs txout hMem := by
    obtain ⟨-, rfl⟩ := List.mem_replicate.mp hMem
    exact ⟨⟨by norm_num, by norm_num⟩, h.le⟩
  nLockTime := by norm_num [wideTx]

theorem length_serialize_wideTx
    {scriptPubKey : CScript} (h : scriptPubKey.length = MAX_SIZE) :
    (wideTx scriptPubKey).serialize.length = 4328523419 := by
  have hScript : getSizeOfCompactSize MAX_SIZE = 5 := by
    decide
  have hIn : getSizeOfCompactSize 0 = 1 := by
    decide
  have hOut : getSizeOfCompactSize 129 = 1 := by
    decide
  rw [CTransaction.length_serialize]
  simp only [wideTx, CTransaction.getSerializeSize, vectorSerializeSize,
    CTransaction.txOutSerializeSize, bytesSerializeSize, List.map_replicate,
    List.sum_replicate, List.length_replicate, h, hScript, hIn, hOut, List.map_nil,
    List.sum_nil, List.length_nil, smul_eq_mul]
  norm_num [MAX_SIZE]

/-- The longest script that readers accept, of zeros. -/
def longestScript : CScript := List.replicate MAX_SIZE 0

/-- With such scripts the size of the transaction wraps. -/
theorem wideTx_size_wraps :
    (wideTx longestScript).Fits ∧
      (wideTx longestScript).unsignedSerializeSize ≠
        (wideTx longestScript).serialize.length := by
  have hLength : longestScript.length = MAX_SIZE := List.length_replicate
  refine ⟨wideTx_fits hLength, ?_⟩
  rw [CTransaction.unsignedSerializeSize_eq_mod, ← CTransaction.length_serialize,
    length_serialize_wideTx hLength]
  norm_num

end Sample

end SocietyGold
