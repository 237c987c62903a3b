import Mathlib.Data.Nat.Digits.Defs
import Mathlib.Tactic

/-!
# Byte streams

The little-endian fixed-width integers, compact sizes and vectors of the
serialization layer, as byte lists on the writing side and as partial readers
on the reading side.  A reader that runs out of bytes, or that meets a
non-canonical or oversized compact size, fails; the source throws there.
-/

namespace SocietyGold

/-! ## Integers as bytes -/

/-- The number whose bytes are given least significant first. -/
def fromBytesLE (bytes : List UInt8) : ℕ :=
  Nat.ofDigits 256 (bytes.map UInt8.toNat)

/-- The low `width` bytes of a number, least significant first. -/
def toBytesLE : (width : ℕ) → ℕ → List UInt8
  | 0, _ => []
  | width + 1, n => UInt8.ofNat (n % 256) :: toBytesLE width (n / 256)

@[simp] theorem length_toBytesLE (width n : ℕ) : (toBytesLE width n).length = width := by
  induction width generalizing n with
  | zero => rfl
  | succ width ih => simp [toBytesLE, ih]

theorem fromBytesLE_toBytesLE (width n : ℕ) :
    fromBytesLE (toBytesLE width n) = n % 256 ^ width := by
  unfold fromBytesLE
  induction width generalizing n with
  | zero => simp [toBytesLE, Nat.mod_one]
  | succ width ih =>
      have hByte : (UInt8.ofNat (n % 256)).toNat = n % 256 := by simp
      rw [toBytesLE, List.map_cons, Nat.ofDigits_cons, ih, hByte, pow_succ', Nat.mod_mul]

/-- The low `width` bytes of a signed number in two's complement. -/
def intToBytesLE (width : ℕ) (z : ℤ) : List UInt8 :=
  toBytesLE width (z % 256 ^ width).toNat

@[simp] theorem length_intToBytesLE (width : ℕ) (z : ℤ) :
    (intToBytesLE width z).length = width := by
  simp [intToBytesLE]

/-! ## Writing -/

/-- The largest number of elements a reader accepts. -/
def MAX_SIZE : ℕ := 0x02000000

def getSizeOfCompactSize (nSize : ℕ) : ℕ :=
  if nSize < 253 then 1
  else if nSize ≤ 0xffff then 3
  else if nSize ≤ 0xffffffff then 5
  else 9

def writeCompactSize (nSize : ℕ) : List UInt8 :=
  if nSize < 253 then toBytesLE 1 nSize
  else if nSize ≤ 0xffff then 253 :: toBytesLE 2 nSize
  else if nSize ≤ 0xffffffff then 254 :: toBytesLE 4 nSize
  else 255 :: toBytesLE 8 nSize

def serializeVector {α : Type} (serialize : α → List UInt8) (v : List α) : List UInt8 :=
  writeCompactSize v.length ++ v.flatMap serialize

/-- `GetSerializeSize` of a vector whose elements have the given sizes. -/
def vectorSerializeSize {α : Type} (size : α → ℕ) (v : List α) : ℕ :=
  getSizeOfCompactSize v.length + (v.map size).sum

def serializeBytes (v : List UInt8) : List UInt8 :=
  writeCompactSize v.length ++ v

def bytesSerializeSize (v : List UInt8) : ℕ :=
  getSizeOfCompactSize v.length + v.length

theorem length_writeCompactSize (nSize : ℕ) :
    (writeCompactSize nSize).length = getSizeOfCompactSize nSize := by
  unfold writeCompactSize getSizeOfCompactSize
  split_ifs <;> simp

theorem length_serializeVector
    {α : Type} {serialize : α → List UInt8} {size : α → ℕ}
    (h : ∀ a, (serialize a).length = size a) (v : List α) :
    (serializeVector serialize v).length = vectorSerializeSize size v := by
  have hSizes : v.map (fun a => (serialize a).length) = v.map size :=
    List.map_congr_left fun a _ => h a
  simp [serializeVector, vectorSerializeSize, length_writeCompactSize,
    List.length_flatMap, hSizes]

theorem length_serializeBytes (v : List UInt8) :
    (serializeBytes v).length = bytesSerializeSize v := by
  simp [serializeBytes, bytesSerializeSize, length_writeCompactSize]

/-! ## Reading -/

/-- A reader consumes a prefix of the stream or fails. -/
abbrev Reader (α : Type) := List UInt8 → Option (α × List UInt8)

def readBytes (n : ℕ) : Reader (List UInt8) := fun stream =>
  if n ≤ stream.length then some (stream.take n, stream.drop n) else none

def readUint (width : ℕ) : Reader ℕ := fun stream =>
  (readBytes width stream).map fun (bytes, rest) => (fromBytesLE bytes, rest)

/-- Read a signed integer in two's complement. -/
def readInt (width : ℕ) : Reader ℤ := fun stream =>
  (readUint width stream).map fun (n, rest) => ((n : ℤ).bmod (256 ^ width), rest)

def readCompactSize : Reader ℕ := fun stream => do
  let (chSize, rest) ← readUint 1 stream
  let (nSizeRet, least, rest) ←
    if chSize < 253 then some (chSize, 0, rest)
    else if chSize = 253 then (readUint 2 rest).map fun (n, rest) => (n, 253, rest)
    else if chSize = 254 then (readUint 4 rest).map fun (n, rest) => (n, 0x10000, rest)
    else (readUint 8 rest).map fun (n, rest) => (n, 0x100000000, rest)
  if nSizeRet < least then none
  else if nSizeRet > MAX_SIZE then none
  else some (nSizeRet, rest)

/-- Read `n` elements, one after the other. -/
def readMany {α : Type} (read : Reader α) : (n : ℕ) → Reader (List α)
  | 0, stream => some ([], stream)
  | n + 1, stream => do
      let (a, rest) ← read stream
      let (as, rest) ← readMany read n rest
      some (a :: as, rest)

def unserializeVector {α : Type} (read : Reader α) : Reader (List α) := fun stream => do
  let (nSize, rest) ← readCompactSize stream
  readMany read nSize rest

def unserializeBytes : Reader (List UInt8) := fun stream => do
  let (nSize, rest) ← readCompactSize stream
  readBytes nSize rest

/-! ## Hash functions -/

/-- The cryptographic primitives, as functions of the bytes they are given. -/
structure Primitives where
  hash : List UInt8 → ℕ
  hash160 : List UInt8 → ℕ
  scryptBlockhash : List UInt8 → ℕ
  /-- Does the key verify the signature of the hash? -/
  verifyKey : (vchPubKey : List UInt8) → (hash : ℕ) → (vchSig : List UInt8) → Bool

end SocietyGold
