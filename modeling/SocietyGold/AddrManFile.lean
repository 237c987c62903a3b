import SocietyGold.AddrMan
import SocietyGold.Unserialize

/-!
# The file of the address manager

The manager is written as its new entries, its tried entries and, for every new bucket,
the numbers of the entries in it.  All else is made again from that by the reader.  The
version byte of the manager, which is zero, also is the version that the addresses are
written with.
-/

namespace SocietyGold

open Support

/-- A read from a stream that is too short throws. -/
def orThrow {α : Type} (read : Option α) : Checked α :=
  match read with
  | some a => .ok a
  | none => .error .uncaughtException

@[simp] theorem orThrow_some {α : Type} (a : α) : orThrow (some a) = .ok a := rfl

/-! ## Addresses -/

def CNetAddr.serialize (addr : CNetAddr) : List UInt8 := addr.bytes

def CNetAddr.unserialize : Reader CNetAddr := fun stream => do
  let (bytes, rest) ← readBytes 16 stream
  some (⟨Vector.ofFn fun i => bytes.getD i 0⟩, rest)

/-- The port is written in network order. -/
def CService.serialize (addr : CService) : List UInt8 :=
  addr.bytes ++ [UInt8.ofNat (addr.port.toNat / 0x100), UInt8.ofNat (addr.port.toNat % 0x100)]

def CService.unserialize : Reader CService := fun stream => do
  let (addr, rest) ← CNetAddr.unserialize stream
  let (high, rest) ← readUint 1 rest
  let (low, rest) ← readUint 1 rest
  some (⟨addr, UInt16.ofNat (0x100 * high + low)⟩, rest)

/-- A `CAddress` on disk. -/
def CAddress.serialize (nVersion : ℤ) (addr : CAddress) : List UInt8 :=
  intToBytesLE 4 nVersion ++ toBytesLE 4 addr.nTime.toNat ++ toBytesLE 8 addr.nServices.toNat ++
    addr.toCService.serialize

/-- The reader initializes the address first, so that the last try is none. -/
def CAddress.unserialize : Reader CAddress := fun stream => do
  let (_, rest) ← readInt 4 stream
  let (nTime, rest) ← readUint 4 rest
  let (nServices, rest) ← readUint 8 rest
  let (addr, rest) ← CService.unserialize rest
  some ({ CAddress.ofService addr with
    nTime := UInt32.ofNat nTime
    nServices := UInt64.ofNat nServices }, rest)

def CAddrInfo.serialize (nVersion : ℤ) (info : CAddrInfo) : List UInt8 :=
  info.toCAddress.serialize nVersion ++ info.source.serialize ++
    intToBytesLE 8 info.nLastSuccess.toInt ++ intToBytesLE 4 info.nAttempts

/-- What is read into an entry that has just been constructed. -/
def CAddrInfo.unserialize : Reader CAddrInfo := fun stream => do
  let (addr, rest) ← CAddress.unserialize stream
  let (source, rest) ← CNetAddr.unserialize rest
  let (nLastSuccess, rest) ← readInt 8 rest
  let (nAttempts, rest) ← readInt 4 rest
  some ({ CAddrInfo.null with
    toCAddress := addr
    source := source
    nLastSuccess := Int64.ofInt nLastSuccess
    nAttempts := nAttempts }, rest)

namespace CAddrMan

/-! ## Writing -/

/-- The first loop of the writer: the new entries, and the number that each gets.  It
stops after `nNew` of them. -/
def writeNew (nNew : ℤ) : List (ℕ × CAddrInfo) → ℤ → Table ℕ ℤ → List UInt8 × Table ℕ ℤ
  | [], _, mapUnkIds => ([], mapUnkIds)
  | (nId, info) :: entries, nIds, mapUnkIds =>
      if nIds = nNew then ([], mapUnkIds)
      else
        let mapUnkIds := mapUnkIds.insert nId nIds
        if info.nRefCount ≠ 0 then
          let (bytes, mapUnkIds) := writeNew nNew entries (nIds + 1) mapUnkIds
          (info.serialize 0 ++ bytes, mapUnkIds)
        else writeNew nNew entries nIds mapUnkIds

/-- The second loop of the writer: the tried entries. -/
def writeTried (nTried : ℤ) : List (ℕ × CAddrInfo) → ℤ → List UInt8
  | [], _ => []
  | (_, info) :: entries, nIds =>
      if nIds = nTried then []
      else if info.fInTried then info.serialize 0 ++ writeTried nTried entries (nIds + 1)
      else writeTried nTried entries nIds

/-- The third loop of the writer, for one bucket. -/
def writeBucket (mapUnkIds : Table ℕ ℤ) (vNew : Finset ℕ) : List UInt8 :=
  intToBytesLE 4 vNew.card ++
    (vNew.sort (· ≤ ·)).flatMap fun nId => intToBytesLE 4 ((mapUnkIds.lookup nId).getD 0)

def serialize (man : CAddrMan) : List UInt8 :=
  let (newBytes, mapUnkIds) := writeNew man.nNew man.mapInfo.inKeyOrder 0 ∅
  toBytesLE 1 0 ++ serializeBytes man.nKey ++ intToBytesLE 4 man.nNew ++
    intToBytesLE 4 man.nTried ++ intToBytesLE 4 ADDRMAN_NEW_BUCKET_COUNT ++ newBytes ++
    writeTried man.nTried man.mapInfo.inKeyOrder 0 ++
    (List.finRange ADDRMAN_NEW_BUCKET_COUNT).flatMap fun b =>
      writeBucket mapUnkIds (man.vvNew b)

/-! ## Reading -/

/-- A new entry that has been read. -/
def loadNew (prims : Primitives) (nUBuckets : ℤ) (man : CAddrMan) (n : ℕ) (info : CAddrInfo) :
    CAddrMan :=
  let man := { man with
    mapInfo := man.mapInfo.insert n { info with nRandomPos := man.vRandom.length }
    mapAddr := man.mapAddr.insert info.toCNetAddr n
    vRandom := man.vRandom ++ [n] }
  if nUBuckets ≠ ADDRMAN_NEW_BUCKET_COUNT then
    (man.insertNew (info.getNewBucket prims man.nKey info.source) n).modifyInfo n
      CAddrInfo.referred
  else man

/-- A tried entry that has been read, and how many were lost before it. -/
def loadTried (prims : Primitives) (loading : CAddrMan × ℤ) (info : CAddrInfo) : CAddrMan × ℤ :=
  let (man, nLost) := loading
  let b := info.getTriedBucket prims man.nKey
  if (man.vvTried b).length < ADDRMAN_TRIED_BUCKET_SIZE then
    ({ man with
      nIdCount := man.nIdCount + 1
      mapInfo := man.mapInfo.insert man.nIdCount { info with
        nRandomPos := man.vRandom.length
        fInTried := true }
      mapAddr := man.mapAddr.insert info.toCNetAddr man.nIdCount
      vRandom := man.vRandom ++ [man.nIdCount]
      vvTried := Function.update man.vvTried b (man.vvTried b ++ [man.nIdCount]) }, nLost)
  else (man, nLost + 1)

/-- The number of an entry in a new bucket that has been read.  It is taken as unsigned,
as all numbers that are written are. -/
def loadReference (nUBuckets : ℤ) (b : NewBucket) (man : CAddrMan) (nIndex : ℕ) : CAddrMan :=
  let (info, man) := man.created nIndex
  if nUBuckets = ADDRMAN_NEW_BUCKET_COUNT && info.nRefCount < ADDRMAN_NEW_BUCKETS_PER_ADDRESS then
    (man.modifyInfo nIndex CAddrInfo.referred).insertNew b nIndex
  else man

/-- A loop of the reader: every round reads a value and takes it in. -/
def readLoop {σ α : Type} (read : Reader α) (take : σ → ℕ → α → σ) (n : ℤ) (s : σ)
    (stream : List UInt8) : Checked (σ × List UInt8) :=
  (List.range n.toNat).foldlM (fun (s, stream) i => do
    let (a, stream) ← orThrow (read stream)
    .ok (take s i a, stream)) (s, stream)

/-- The loop over the new buckets, for one of them. -/
def readBucket (nUBuckets : ℤ) (loading : CAddrMan × List UInt8) (b : ℕ) :
    Checked (CAddrMan × List UInt8) := do
  let (man, stream) := loading
  if hBucket : b < ADDRMAN_NEW_BUCKET_COUNT then do
    let (nSize, stream) ← orThrow (readInt 4 stream)
    readLoop (readUint 4) (fun man _ nIndex => man.loadReference nUBuckets ⟨b, hBucket⟩ nIndex)
      nSize man stream
  else .error .outOfRange

/-- Ids are counted from zero up; only a file with a negative number of new entries, which
is never written, would count from below. -/
def unserialize (prims : Primitives) (man : CAddrMan) (stream : List UInt8) :
    Checked (CAddrMan × List UInt8) := do
  let (_, stream) ← orThrow (readUint 1 stream)
  let (nKey, stream) ← orThrow (unserializeBlocks stream)
  let (nNew, stream) ← orThrow (readInt 4 stream)
  let (nTried, stream) ← orThrow (readInt 4 stream)
  let (nUBuckets, stream) ← orThrow (readInt 4 stream)
  let man := { man with
    nKey := nKey
    nNew := nNew
    nTried := nTried
    nIdCount := 0
    mapInfo := ∅
    mapAddr := ∅
    vRandom := []
    vvTried := fun _ => []
    vvNew := fun _ => ∅ }
  let (man, stream) ← readLoop CAddrInfo.unserialize (loadNew prims nUBuckets) nNew man stream
  let man := { man with nIdCount := nNew.toNat }
  let ((man, nLost), stream) ←
    readLoop CAddrInfo.unserialize (fun loading _ info => loadTried prims loading info) nTried
      (man, 0) stream
  let man := { man with nTried := man.nTried - nLost }
  (List.range nUBuckets.toNat).foldlM (readBucket nUBuckets) (man, stream)

end CAddrMan

/-! ## Records are read back -/

theorem readsAs_netAddr (addr : CNetAddr) :
    ReadsAs CNetAddr.unserialize addr.serialize addr := by
  have hLength : addr.serialize.length = 16 := by
    simp [CNetAddr.serialize, CNetAddr.bytes]
  intro rest
  have hRead := readsAs_readBytes addr.serialize rest
  rw [hLength] at hRead
  have hVector : (Vector.ofFn fun i : Fin 16 => addr.serialize.getD i 0) = addr.ip := by
    ext i hI
    simp [CNetAddr.serialize, CNetAddr.bytes]
  simp only [CNetAddr.unserialize, hRead, Option.bind_eq_bind, Option.bind_some, hVector]

theorem readsAs_service (addr : CService) :
    ReadsAs CService.unserialize addr.serialize addr := by
  intro rest
  have hPort := addr.port.toNat_lt
  have hHigh : (UInt8.ofNat (addr.port.toNat / 0x100)).toNat = addr.port.toNat / 0x100 := by
    simp
    omega
  have hLow : (UInt8.ofNat (addr.port.toNat % 0x100)).toNat = addr.port.toNat % 0x100 := by
    simp
  have hBoth : 0x100 * (addr.port.toNat / 0x100) + addr.port.toNat % 0x100 = addr.port.toNat :=
    Nat.div_add_mod _ _
  have hAddr := readsAs_netAddr addr.toCNetAddr
  simp only [CNetAddr.serialize] at hAddr
  simp only [CService.unserialize, CService.serialize, List.append_assoc, hAddr _,
    Option.bind_eq_bind, Option.bind_some, List.cons_append, List.nil_append, readUint_one_cons,
    hHigh, hLow, hBoth, UInt16.ofNat_toNat]

/-- What is read back of an entry: all but what is kept in memory only. -/
def CAddrInfo.stored (info : CAddrInfo) : CAddrInfo :=
  { info with nLastTry := 0, nRefCount := 0, fInTried := false, nRandomPos := -1 }

theorem readsAs_addrInfo
    {info : CAddrInfo} (hAttempts : FitsInt 4 info.nAttempts) :
    ReadsAs CAddrInfo.unserialize (info.serialize 0) info.stored := by
  intro rest
  have hVersion : FitsInt 4 0 := by
    decide
  have hTime : info.nTime.toNat < 256 ^ 4 := info.nTime.toNat_lt
  have hServices : info.nServices.toNat < 256 ^ 8 := info.nServices.toNat_lt
  have hSuccess : FitsInt 8 info.nLastSuccess.toInt :=
    ⟨Int64.le_toInt _, Int64.toInt_lt _⟩
  simp only [CAddrInfo.unserialize, CAddrInfo.serialize, CAddress.unserialize,
    CAddress.serialize, List.append_assoc, readsAs_readInt hVersion _, readsAs_readUint hTime _,
    readsAs_readUint hServices _, readsAs_service _ _, readsAs_netAddr _ _,
    readsAs_readInt hSuccess _, readsAs_readInt hAttempts _, Option.bind_eq_bind,
    Option.bind_some, UInt32.ofNat_toNat, UInt64.ofNat_toNat, Int64.ofInt_toInt]
  rfl

end SocietyGold
