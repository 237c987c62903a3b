import SocietyGold.Serialize

/-!
# Network addresses

`CNetAddr` is an address of sixteen bytes in network order, `CService` adds a port and
`CAddress` what peers tell about it.
-/

namespace SocietyGold

/-- An address; the older protocol is embedded as `::FFFF:0:0/96`. -/
structure CNetAddr where
  ip : Vector UInt8 16
  deriving DecidableEq

inductive Network
  | NET_UNROUTABLE
  | NET_IPV4
  | NET_IPV6
  | NET_TOR
  | NET_I2P
  deriving DecidableEq, Repr

/-- The number of a network in the source's enumeration. -/
def Network.toByte : Network → UInt8
  | NET_UNROUTABLE => 0
  | NET_IPV4 => 1
  | NET_IPV6 => 2
  | NET_TOR => 3
  | NET_I2P => 4

def pchIPv4 : List UInt8 := [0, 0, 0, 0, 0, 0, 0, 0, 0, 0, 0xff, 0xff]

def pchOnionCat : List UInt8 := [0xFD, 0x87, 0xD8, 0x7E, 0xEB, 0x43]

def pchGarliCat : List UInt8 := [0xFD, 0x60, 0xDB, 0x4D, 0xDD, 0xB5]

namespace CNetAddr

variable (addr : CNetAddr)

/-- The bytes of the address, as they lie in memory. -/
def bytes : List UInt8 := addr.ip.toList

/-- `memcmp(ip + pos, pch, sizeof(pch)) == 0`. -/
def hasBytesAt (pos : ℕ) (pch : List UInt8) : Bool :=
  (addr.bytes.drop pos).take pch.length = pch

/-- `GetByte`: the bytes counted from the end. -/
def getByte (n : Fin 16) : UInt8 := addr.ip[15 - n.val]

/-! ## Kinds of addresses -/

def isIPv4 : Bool := addr.hasBytesAt 0 pchIPv4

def isTor : Bool := addr.hasBytesAt 0 pchOnionCat

def isI2P : Bool := addr.hasBytesAt 0 pchGarliCat

def isIPv6 : Bool := !addr.isIPv4 && !addr.isTor && !addr.isI2P

def isRFC1918 : Bool :=
  addr.isIPv4 &&
    (addr.getByte 3 = 10 ||
      (addr.getByte 3 = 192 && addr.getByte 2 = 168) ||
      (addr.getByte 3 = 172 && (addr.getByte 2 ≥ 16 && addr.getByte 2 ≤ 31)))

def isRFC3927 : Bool := addr.isIPv4 && (addr.getByte 3 = 169 && addr.getByte 2 = 254)

def isRFC3849 : Bool :=
  addr.getByte 15 = 0x20 && addr.getByte 14 = 0x01 && addr.getByte 13 = 0x0D &&
    addr.getByte 12 = 0xB8

def isRFC3964 : Bool := addr.getByte 15 = 0x20 && addr.getByte 14 = 0x02

def isRFC6052 : Bool := addr.hasBytesAt 0 [0, 0x64, 0xFF, 0x9B, 0, 0, 0, 0, 0, 0, 0, 0]

def isRFC4380 : Bool :=
  addr.getByte 15 = 0x20 && addr.getByte 14 = 0x01 && addr.getByte 13 = 0 &&
    addr.getByte 12 = 0

def isRFC4862 : Bool := addr.hasBytesAt 0 [0xFE, 0x80, 0, 0, 0, 0, 0, 0]

def isRFC4193 : Bool := addr.getByte 15 &&& 0xFE = 0xFC

def isRFC6145 : Bool := addr.hasBytesAt 0 [0, 0, 0, 0, 0, 0, 0, 0, 0xFF, 0xFF, 0, 0]

def isRFC4843 : Bool :=
  addr.getByte 15 = 0x20 && addr.getByte 14 = 0x01 && addr.getByte 13 = 0x00 &&
    addr.getByte 12 &&& 0xF0 = 0x10

def isLocal : Bool :=
  (addr.isIPv4 && (addr.getByte 3 = 127 || addr.getByte 3 = 0)) ||
    addr.bytes = [0, 0, 0, 0, 0, 0, 0, 0, 0, 0, 0, 0, 0, 0, 0, 1]

def isValid : Bool :=
  !addr.hasBytesAt 0 (pchIPv4.drop 3) &&
    addr.bytes ≠ List.replicate 16 0 &&
    !addr.isRFC3849 &&
    !(addr.isIPv4 && (addr.hasBytesAt 12 [0xff, 0xff, 0xff, 0xff] ||
      addr.hasBytesAt 12 [0, 0, 0, 0]))

def isRoutable : Bool :=
  addr.isValid &&
    !(addr.isRFC1918 || addr.isRFC3927 || addr.isRFC4862 ||
      (addr.isRFC4193 && !addr.isTor && !addr.isI2P) || addr.isRFC4843 || addr.isLocal)

/-! ## Groups -/

/-- The number of the network, the leading byte of the group and the number of its bits. -/
def groupClass : UInt8 × ℕ × ℕ :=
  if !addr.isRoutable then (Network.NET_UNROUTABLE.toByte, 0, 0)
  else if addr.isIPv4 || addr.isRFC6145 || addr.isRFC6052 then (Network.NET_IPV4.toByte, 12, 16)
  else if addr.isRFC3964 then (Network.NET_IPV4.toByte, 2, 16)
  else if addr.isTor then (Network.NET_TOR.toByte, 6, 4)
  else if addr.isI2P then (Network.NET_I2P.toByte, 6, 4)
  else if addr.getByte 15 = 0x20 && addr.getByte 14 = 0x01 && addr.getByte 13 = 0x04 &&
      addr.getByte 12 = 0x70 then (Network.NET_IPV6.toByte, 0, 36)
  else (Network.NET_IPV6.toByte, 0, 32)

/-- `GetGroup`: the identifier of the group an address belongs to.  A local address is not
routable, so the class of its own that the source gives it first is overwritten. -/
def getGroup : List UInt8 :=
  if addr.isRoutable && !(addr.isIPv4 || addr.isRFC6145 || addr.isRFC6052) &&
      !addr.isRFC3964 && addr.isRFC4380 then
    [Network.NET_IPV4.toByte, addr.getByte 3 ^^^ 0xFF, addr.getByte 2 ^^^ 0xFF]
  else
    let (nClass, nStartByte, nBits) := addr.groupClass
    let whole := (addr.bytes.drop nStartByte).take (nBits / 8)
    let last := (addr.bytes.drop (nStartByte + nBits / 8)).take (if nBits % 8 = 0 then 0 else 1)
    nClass :: whole ++ last.map (· ||| UInt8.ofNat (2 ^ (nBits % 8) - 1))

end CNetAddr

/-! ## Services and what is known about them -/

structure CService extends CNetAddr where
  port : UInt16
  deriving DecidableEq

/-- `GetKey`: the address followed by the port. -/
def CService.getKey (addr : CService) : List UInt8 :=
  addr.bytes ++ [UInt8.ofNat (addr.port.toNat / 0x100), UInt8.ofNat (addr.port.toNat % 0x100)]

/-- `CAddress`, with the field that is kept in memory only. -/
structure CAddress extends CService where
  nServices : UInt64
  nTime : UInt32
  nLastTry : Int64
  deriving DecidableEq

def NODE_NETWORK : UInt64 := 1

/-- `CAddress(ipIn)`. -/
def CAddress.ofService (addr : CService) : CAddress where
  toCService := addr
  nServices := NODE_NETWORK
  nTime := 100000000
  nLastTry := 0

end SocietyGold
