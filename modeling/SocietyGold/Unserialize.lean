import SocietyGold.Serialize
import SocietyGold.Support.RoundTrip

/-!
# Reading back what was written

The readers of integers, compact sizes and vectors deliver what the writers wrote.
A vector is read in blocks, so that a bogus size cannot exhaust the memory: bytes
five million at a time, elements as many at a time as fit in five million bytes.
-/

namespace SocietyGold

open Support

/-! ## Integers and compact sizes -/

theorem readsAs_readBytes (bytes : List UInt8) :
    ReadsAs (readBytes bytes.length) bytes bytes := by
  intro rest
  simp [readBytes]

theorem readsAs_readUint
    {width n : ℕ} (h : n < 256 ^ width) : ReadsAs (readUint width) (toBytesLE width n) n := by
  intro rest
  have hRead := readsAs_readBytes (toBytesLE width n) rest
  rw [length_toBytesLE] at hRead
  simp [readUint, hRead, fromBytesLE_toBytesLE, Nat.mod_eq_of_lt h]

/-- The numbers that fit in two's complement of a width, in bytes. -/
def FitsInt (width : ℕ) (z : ℤ) : Prop :=
  -(256 ^ width / 2) ≤ z ∧ z < 256 ^ width / 2

instance (width : ℕ) (z : ℤ) : Decidable (FitsInt width z) :=
  inferInstanceAs (Decidable (_ ∧ _))

theorem bmod_eq_of_fitsInt
    {width : ℕ} {z : ℤ} (h : FitsInt width z) : z.bmod (256 ^ width) = z := by
  have hPow : ((256 ^ width : ℕ) : ℤ) = 256 ^ width := by
    norm_num
  apply Int.bmod_eq_of_le_mul_two
  · rw [hPow]
    have hLower := h.1
    omega
  · rw [hPow]
    have hUpper := h.2
    omega

/-- Any number is read back as the one in range that has the same bytes. -/
theorem readsAs_readInt_bmod (width : ℕ) (z : ℤ) :
    ReadsAs (readInt width) (intToBytesLE width z) (z.bmod (256 ^ width)) := by
  intro rest
  have hPos : (0 : ℤ) < 256 ^ width := by
    positivity
  have hNonneg : 0 ≤ z % 256 ^ width := Int.emod_nonneg _ hPos.ne'
  have hLt : (z % 256 ^ width).toNat < 256 ^ width := by
    have hMod := Int.emod_lt_of_pos z hPos
    zify
    rwa [Int.toNat_of_nonneg hNonneg]
  have hEmod := Int.emod_bmod (x := z) (n := 256 ^ width)
  push_cast at hEmod
  simp [readInt, intToBytesLE, readsAs_readUint hLt rest, Int.toNat_of_nonneg hNonneg, hEmod]

theorem readsAs_readInt
    {width : ℕ} {z : ℤ} (h : FitsInt width z) :
    ReadsAs (readInt width) (intToBytesLE width z) z := by
  have hRead := readsAs_readInt_bmod width z
  rwa [bmod_eq_of_fitsInt h] at hRead

theorem readUint_one_cons (byte : UInt8) (rest : List UInt8) :
    readUint 1 (byte :: rest) = some (byte.toNat, rest) := by
  simp [readUint, readBytes, fromBytesLE]

/-- A compact size is read back as long as readers accept sizes so large. -/
theorem readsAs_readCompactSize
    {nSize : ℕ} (h : nSize ≤ MAX_SIZE) :
    ReadsAs readCompactSize (writeCompactSize nSize) nSize := by
  intro rest
  have hMax : MAX_SIZE = 33554432 := rfl
  by_cases hOne : nSize < 253
  · have hRead := @readsAs_readUint 1 nSize (by omega) rest
    simp [writeCompactSize, readCompactSize, hOne, hRead, h]
  by_cases hTwo : nSize ≤ 0xffff
  · have hRead := @readsAs_readUint 2 nSize (by omega) rest
    simp [writeCompactSize, readCompactSize, hOne, hTwo, readUint_one_cons, hRead, h]
  · have hRead := @readsAs_readUint 4 nSize (by omega) rest
    have hFour : nSize ≤ 0xffffffff := by
      omega
    have hLeast : ¬nSize < 0x10000 := by
      omega
    simp [writeCompactSize, readCompactSize, hOne, hTwo, hFour, readUint_one_cons, hRead,
      hLeast, h]

/-! ## Vectors -/

theorem readsAs_readMany
    {α : Type} {read : Reader α} {serialize : α → List UInt8} {v : List α}
    (h : ∀ a ∈ v, ReadsAs read (serialize a) a) :
    ReadsAs (readMany read v.length) (v.flatMap serialize) v := by
  intro rest
  induction v with
  | nil => rfl
  | cons a v ih =>
      have hHead := h a (by simp) (v.flatMap serialize ++ rest)
      have hTail := ih fun b hb => h b (by simp [hb])
      simp [readMany, List.flatMap_cons, hHead, hTail]

theorem readsAs_unserializeVector
    {α : Type} {read : Reader α} {serialize : α → List UInt8} {v : List α}
    (hLength : v.length ≤ MAX_SIZE) (h : ∀ a ∈ v, ReadsAs read (serialize a) a) :
    ReadsAs (unserializeVector read) (serializeVector serialize v) v := by
  intro rest
  simp [unserializeVector, serializeVector, readsAs_readCompactSize hLength _,
    readsAs_readMany h rest]

theorem readsAs_unserializeBytes
    {v : List UInt8} (hLength : v.length ≤ MAX_SIZE) :
    ReadsAs unserializeBytes (serializeBytes v) v := by
  intro rest
  simp [unserializeBytes, serializeBytes, readsAs_readCompactSize hLength _,
    readsAs_readBytes v rest]

/-! ## Reading in blocks -/

/-- The bytes a block of a vector takes in memory. -/
def BLOCK_BYTES : ℕ := 5000000

/-- The size in memory of an element of a vector, which a block has room for. -/
structure ElementSize where
  sizeof : ℕ
  pos : 0 < sizeof
  le_block : sizeof ≤ BLOCK_BYTES

/-- The elements in a block. -/
def ElementSize.perBlock (size : ElementSize) : ℕ+ :=
  ⟨BLOCK_BYTES / size.sizeof, Nat.div_pos size.le_block size.pos⟩

/-- `Unserialize_impl` for a vector of elements that are read one by one: `nMid` moves
on by a block, but not past the end. -/
def unserializeElements {α : Type} (size : ElementSize) (read : Reader α) :
    Reader (List α) := fun stream => do
  let (nSize, rest) ← readCompactSize stream
  readChunks (readMany read) size.perBlock nSize 0 rest

/-- The bytes that are read at once. -/
def bytesPerBlock : ℕ+ := ⟨1 + 4999999 / 1, by decide⟩

/-- `Unserialize_impl` for a vector of bytes, which are read a block at a time. -/
def unserializeBlocks : Reader (List UInt8) := fun stream => do
  let (nSize, rest) ← readCompactSize stream
  readChunks readBytes bytesPerBlock nSize 0 rest

theorem blockAdditive_readMany
    {α : Type} (read : Reader α) : BlockAdditive (readMany read) where
  zero stream := rfl
  add m n stream := by
    induction m generalizing stream with
    | zero => simp [readMany]
    | succ m ih =>
        rw [Nat.add_right_comm, readMany, readMany]
        cases read stream with
        | none => rfl
        | some first =>
            simp only [Option.bind_eq_bind, Option.bind_some, ih first.2, Option.bind_assoc,
              List.cons_append]

theorem blockAdditive_readBytes : BlockAdditive readBytes where
  zero stream := by
    simp [readBytes]
  add m n stream := by
    by_cases hAll : m + n ≤ stream.length
    · have hFirst : m ≤ stream.length := by
        omega
      have hSecond : n ≤ stream.length - m := by
        omega
      simp [readBytes, hAll, hFirst, hSecond, List.take_add]
    · by_cases hFirst : m ≤ stream.length
      · have hSecond : ¬n ≤ stream.length - m := by
          omega
        simp [readBytes, hAll, hFirst, hSecond]
      · simp [readBytes, hAll, hFirst]

@[simp] theorem unserializeElements_eq
    {α : Type} (size : ElementSize) (read : Reader α) :
    unserializeElements size read = unserializeVector read := by
  funext stream
  simp only [unserializeElements, unserializeVector, readChunks_eq (blockAdditive_readMany read),
    Nat.sub_zero]

@[simp] theorem unserializeBlocks_eq : unserializeBlocks = unserializeBytes := by
  funext stream
  simp only [unserializeBlocks, unserializeBytes, readChunks_eq blockAdditive_readBytes,
    Nat.sub_zero]

end SocietyGold
