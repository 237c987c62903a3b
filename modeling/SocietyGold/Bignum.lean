import SocietyGold.Serialize

/-!
# Big numbers

`CBigNum` wraps an arbitrary precision integer.  Its conversions go through the
MPI format: the magnitude, most significant byte first, with the sign in the
top bit of the first byte.
-/

namespace SocietyGold

abbrev CBigNum := ℤ

namespace CBigNum

/-- The bytes of `BN_bn2mpi`, without the four length bytes. -/
def bn2mpi (bn : CBigNum) : List UInt8 :=
  let magnitude := (Nat.digits 256 bn.natAbs).reverse.map UInt8.ofNat
  let padded :=
    match magnitude with
    | [] => []
    | b :: bs => if b < 0x80 then b :: bs else 0 :: b :: bs
  match padded with
  | [] => []
  | b :: bs => if bn < 0 then (b ||| 0x80) :: bs else b :: bs

/-- `BN_mpi2bn`, given the bytes after the four length bytes. -/
def mpi2bn (body : List UInt8) : CBigNum :=
  match body with
  | [] => 0
  | b :: bs =>
      let magnitude := fromBytesLE ((b &&& 0x7f) :: bs).reverse
      if b < 0x80 then (magnitude : ℤ) else -(magnitude : ℤ)

def getvch (bn : CBigNum) : List UInt8 := (bn2mpi bn).reverse

def setvch (vch : List UInt8) : CBigNum := mpi2bn vch.reverse

/-- Decode the compact format: a length byte and up to three leading bytes. -/
def setCompact (nCompact : ℕ) : CBigNum :=
  let nSize := nCompact / 2 ^ 24
  let leading : List UInt8 :=
    [UInt8.ofNat (nCompact / 2 ^ 16), UInt8.ofNat (nCompact / 2 ^ 8), UInt8.ofNat nCompact]
  mpi2bn (leading.take nSize ++ List.replicate (nSize - 3) 0)

/-- Encode in the compact format. -/
def getCompact (bn : CBigNum) : ℕ :=
  let body := bn2mpi bn
  let byte (i : ℕ) : ℕ := ((body[i]?).map UInt8.toNat).getD 0
  (body.length * 2 ^ 24) % 2 ^ 32 ||| byte 0 * 2 ^ 16 ||| byte 1 * 2 ^ 8 ||| byte 2

/-- The low 256 bits of the magnitude. -/
def getuint256 (bn : CBigNum) : ℕ := bn.natAbs % 2 ^ 256

end CBigNum

example : CBigNum.setCompact 0x1d00ffff = 0xffff * 256 ^ 26 := by decide +kernel

example : CBigNum.getCompact (0xffff * 256 ^ 26) = 0x1d00ffff := by decide +kernel

end SocietyGold
