import SocietyGold.NetAddr
import SocietyGold.Support.Checked
import SocietyGold.Support.ListSwap
import SocietyGold.Support.Occupancy
import SocietyGold.Support.Table

/-!
# The address manager

Known addresses are kept in buckets: new ones in up to four of 256 sets, those of
nodes that were reached in one of 64 lists.  `mapInfo` holds the entries by their ids,
`mapAddr` the ids by their addresses and `vRandom` all ids in random order.

An operation is given the numbers its random draws deliver, by the place of the draw.
-/

namespace SocietyGold

open Support

/-- `GetRandInt`, from the number that the random source delivers. -/
def getRandInt (nRand nMax : ℕ) : ℕ := if nMax = 0 then 0 else nRand % nMax

/-! ## Constants -/

def ADDRMAN_TRIED_BUCKET_COUNT : ℕ := 64
def ADDRMAN_TRIED_BUCKET_SIZE : ℕ := 64
def ADDRMAN_NEW_BUCKET_COUNT : ℕ := 256
def ADDRMAN_NEW_BUCKET_SIZE : ℕ := 64
def ADDRMAN_TRIED_BUCKETS_PER_GROUP : ℕ := 4
def ADDRMAN_NEW_BUCKETS_PER_SOURCE_GROUP : ℕ := 32
def ADDRMAN_NEW_BUCKETS_PER_ADDRESS : ℤ := 4
def ADDRMAN_TRIED_ENTRIES_INSPECT_ON_EVICT : ℕ := 4
def ADDRMAN_HORIZON_DAYS : ℤ := 30
def ADDRMAN_RETRIES : ℤ := 3
def ADDRMAN_MAX_FAILURES : ℤ := 10
def ADDRMAN_MIN_FAIL_DAYS : ℤ := 7
def ADDRMAN_GETADDR_MAX_PCT : ℕ := 23
def ADDRMAN_GETADDR_MAX : ℕ := 2500

abbrev TriedBucket := Fin ADDRMAN_TRIED_BUCKET_COUNT

abbrev NewBucket := Fin ADDRMAN_NEW_BUCKET_COUNT

/-! ## Entries -/

/-- An address with its statistics; the last three fields are kept in memory only. -/
structure CAddrInfo extends CAddress where
  source : CNetAddr
  nLastSuccess : Int64
  nAttempts : ℤ
  nRefCount : ℤ
  fInTried : Bool
  nRandomPos : ℤ
  deriving DecidableEq

namespace CAddrInfo

/-- `CAddrInfo(addrIn, addrSource)`. -/
def ofAddress (addrIn : CAddress) (addrSource : CNetAddr) : CAddrInfo where
  toCAddress := { addrIn with nLastTry := 0 }
  source := addrSource
  nLastSuccess := 0
  nAttempts := 0
  nRefCount := 0
  fInTried := false
  nRandomPos := -1

/-- The entry of the default constructor. -/
def null : CAddrInfo :=
  ofAddress (CAddress.ofService ⟨⟨Vector.replicate 16 0⟩, 0⟩) ⟨Vector.replicate 16 0⟩

variable (prims : Primitives) (nKey : List UInt8)

/-- `Hash(..).Get64()`. -/
def hash64 (stream : List UInt8) : ℕ := prims.hash stream % 2 ^ 64

/-- `GetTriedBucket`, which depends on the address and the port only. -/
def triedBucket (addr : CService) : TriedBucket :=
  let hash1 := hash64 prims (serializeBytes nKey ++ serializeBytes addr.getKey)
  let hash2 := hash64 prims (serializeBytes nKey ++ serializeBytes addr.getGroup ++
    toBytesLE 8 (hash1 % ADDRMAN_TRIED_BUCKETS_PER_GROUP))
  ⟨hash2 % ADDRMAN_TRIED_BUCKET_COUNT, Nat.mod_lt _ (by decide)⟩

def getTriedBucket (info : CAddrInfo) : TriedBucket := triedBucket prims nKey info.toCService

def getNewBucket (info : CAddrInfo) (src : CNetAddr) : NewBucket :=
  let hash1 := hash64 prims (serializeBytes nKey ++ serializeBytes info.getGroup ++
    serializeBytes src.getGroup)
  let hash2 := hash64 prims (serializeBytes nKey ++ serializeBytes src.getGroup ++
    toBytesLE 8 (hash1 % ADDRMAN_NEW_BUCKETS_PER_SOURCE_GROUP))
  ⟨hash2 % ADDRMAN_NEW_BUCKET_COUNT, Nat.mod_lt _ (by decide)⟩

/-- Are the statistics bad enough for the entry to be deleted? -/
def isTerrible (info : CAddrInfo) (nNow : ℤ) : Bool :=
  let nTime : ℤ := info.nTime.toNat
  let nLastTry := info.nLastTry.toInt
  let nLastSuccess := info.nLastSuccess.toInt
  if nLastTry ≠ 0 && nLastTry ≥ nNow - 60 then false
  else if nTime > nNow + 10 * 60 then true
  else if nTime = 0 || nNow - nTime > ADDRMAN_HORIZON_DAYS * 86400 then true
  else if nLastSuccess = 0 && info.nAttempts ≥ ADDRMAN_RETRIES then true
  else nNow - nLastSuccess > ADDRMAN_MIN_FAIL_DAYS * 86400 &&
    info.nAttempts ≥ ADDRMAN_MAX_FAILURES

/-- `--info.nRefCount`. -/
def dropped (info : CAddrInfo) : CAddrInfo := { info with nRefCount := info.nRefCount - 1 }

/-- `info.nRefCount++`. -/
def referred (info : CAddrInfo) : CAddrInfo := { info with nRefCount := info.nRefCount + 1 }

/-- `info.fInTried = true`. -/
def markTried (info : CAddrInfo) : CAddrInfo := { info with fInTried := true }

/-- What `MakeTried` writes to the entry that it evicts. -/
def demoted (info : CAddrInfo) : CAddrInfo := { info with fInTried := false, nRefCount := 1 }

end CAddrInfo

/-! ## The manager -/

structure CAddrMan where
  nKey : List UInt8
  nIdCount : ℕ
  mapInfo : Table ℕ CAddrInfo
  mapAddr : Table CNetAddr ℕ
  vRandom : List ℕ
  nTried : ℤ
  vvTried : TriedBucket → List ℕ
  nNew : ℤ
  vvNew : NewBucket → Finset ℕ

namespace CAddrMan

/-- The manager that is constructed with a random key. -/
def empty (nKey : List UInt8) : CAddrMan where
  nKey := nKey
  nIdCount := 0
  mapInfo := ∅
  mapAddr := ∅
  vRandom := []
  nTried := 0
  vvTried := fun _ => []
  nNew := 0
  vvNew := fun _ => ∅

variable (man : CAddrMan)

/-! ## Access to entries -/

/-- The entry after `assert(mapInfo.count(nId) == 1)`. -/
def counted (nId : ℕ) : Checked CAddrInfo :=
  match man.mapInfo.lookup nId with
  | none => .error .assertionFailed
  | some info => .ok info

/-- `mapInfo[nId]` without an assertion, which creates an entry that is missing. -/
def created (nId : ℕ) : CAddrInfo × CAddrMan :=
  ((man.mapInfo.lookup nId).getD CAddrInfo.null,
    { man with mapInfo := man.mapInfo.touch nId CAddrInfo.null })

/-- Write through a reference to an entry. -/
def modifyInfo (nId : ℕ) (f : CAddrInfo → CAddrInfo) : CAddrMan :=
  match man.mapInfo.lookup nId with
  | none => man
  | some info => { man with mapInfo := man.mapInfo.insert nId (f info) }

/-- `Find`: the id and the entry of an address. -/
def find (addr : CNetAddr) : Option (ℕ × CAddrInfo) := do
  let nId ← man.mapAddr.lookup addr
  let info ← man.mapInfo.lookup nId
  some (nId, info)

/-- `Create`: the id of the entry, and the manager with it. -/
def create (addr : CAddress) (addrSource : CNetAddr) : ℕ × CAddrMan :=
  let nId := man.nIdCount
  let info := { CAddrInfo.ofAddress addr addrSource with nRandomPos := man.vRandom.length }
  (nId, { man with
    nIdCount := man.nIdCount + 1
    mapInfo := man.mapInfo.insert nId info
    mapAddr := man.mapAddr.insert addr.toCNetAddr nId
    vRandom := man.vRandom ++ [nId] })

/-- `SwapRandom`.  The positions are unsigned: a negative one is past the end. -/
def swapRandom (nRndPos1 nRndPos2 : ℤ) : Checked CAddrMan :=
  if nRndPos1 = nRndPos2 then .ok man
  else do
    assertThat (0 ≤ nRndPos1 && nRndPos1 < man.vRandom.length &&
      (0 ≤ nRndPos2 && nRndPos2 < man.vRandom.length))
    let nId1 ← elementAt man.vRandom nRndPos1.toNat
    let nId2 ← elementAt man.vRandom nRndPos2.toNat
    let _ ← man.counted nId1
    let _ ← man.counted nId2
    let man := man.modifyInfo nId1 fun info => { info with nRandomPos := nRndPos2 }
    let man := man.modifyInfo nId2 fun info => { info with nRandomPos := nRndPos1 }
    .ok { man with vRandom := swapAt man.vRandom nRndPos1.toNat nRndPos2.toNat }

/-! ## New buckets -/

/-- Delete an entry that no bucket refers to any more. -/
def deleteEntry (nId : ℕ) (info : CAddrInfo) : Checked CAddrMan := do
  let man ← man.swapRandom info.nRandomPos (man.vRandom.length - 1)
  .ok { man with
    vRandom := man.vRandom.dropLast
    mapAddr := man.mapAddr.erase info.toCNetAddr
    mapInfo := man.mapInfo.erase nId
    nNew := man.nNew - 1 }

/-- Take an entry out of a bucket, and delete it when that was the last bucket that held
it. -/
def dropReference (nUBucket : NewBucket) (nId : ℕ) : Checked CAddrMan := do
  let info ← man.counted nId
  let man := man.modifyInfo nId CAddrInfo.dropped
  let man ← if info.dropped.nRefCount = 0 then man.deleteEntry nId info else .ok man
  .ok { man with vvNew := takeFrom man.vvNew nUBucket nId }

/-- The first loop of `ShrinkNew`: look for an item to delete. -/
def firstTerrible (nNow : ℤ) : List ℕ → Checked (Option ℕ)
  | [] => .ok none
  | it :: rest => do
      let info ← man.counted it
      if info.isTerrible nNow then .ok (some it) else firstTerrible nNow rest

/-- The second loop of `ShrinkNew`: the oldest of the drawn items.  The first loop has
looked all of them up. -/
def oldestDrawn (n : List ℕ) : (nI : ℕ) → List ℕ → (nOldest : Option ℕ) →
    Checked (Option ℕ)
  | _, [], nOldest => .ok nOldest
  | nI, it :: rest, nOldest =>
      if nI ∈ n then
        match nOldest with
        | none => oldestDrawn n (nI + 1) rest (some it)
        | some oldest => do
            let info ← man.counted it
            let infoOldest ← man.counted oldest
            oldestDrawn n (nI + 1) rest
              (if info.nTime < infoOldest.nTime then some it else some oldest)
      else oldestDrawn n (nI + 1) rest nOldest

/-- `ShrinkNew`: remove an element from a bucket.  It returns whether the element was
chosen by chance. -/
def shrinkNew (nNow : ℤ) (rand : ℕ → ℕ) (nUBucket : NewBucket) : Checked (ℤ × CAddrMan) := do
  let vNew := man.vvNew nUBucket
  match ← man.firstTerrible nNow (vNew.sort (· ≤ ·)) with
  | some it => do
      let man ← man.dropReference nUBucket it
      .ok (0, man)
  | none => do
      let n := [0, 1, 2, 3].map fun i => getRandInt (rand i) vNew.card
      match ← man.oldestDrawn n 0 (vNew.sort (· ≤ ·)) none with
      -- the id is -1, which no entry has
      | none => .error .assertionFailed
      | some nOldest => do
          let man ← man.dropReference nUBucket nOldest
          .ok (1, man)

/-! ## Tried buckets -/

/-- What the loop of `SelectTried` carries from round to round. -/
structure Selection where
  man : CAddrMan
  nOldest : Option ℕ
  nOldestPos : ℤ

/-- A round of `SelectTried`: shuffle one more element to the front and compare it.  The
position that is kept is the one the element came from. -/
def selectTriedRound (rand : ℕ → ℕ) (nKBucket : TriedBucket) (sel : Selection) (i : ℕ) :
    Checked Selection := do
  let vTried := sel.man.vvTried nKBucket
  let nPos := getRandInt (rand i) (vTried.length - i) + i
  let nTemp ← elementAt vTried nPos
  let man := { sel.man with
    vvTried := Function.update sel.man.vvTried nKBucket (swapAt vTried i nPos) }
  match sel.nOldest with
  | none => .ok ⟨man, some nTemp, nPos⟩
  | some nOldest => do
      let info ← man.counted nTemp
      let (infoOldest, man) := man.created nOldest
      if info.nLastSuccess < infoOldest.nLastSuccess then .ok ⟨man, some nTemp, nPos⟩
      else .ok { sel with man := man }

/-- `SelectTried`: the position to replace in a bucket. -/
def selectTried (rand : ℕ → ℕ) (nKBucket : TriedBucket) : Checked (ℤ × CAddrMan) := do
  let rounds := min ADDRMAN_TRIED_ENTRIES_INSPECT_ON_EVICT (man.vvTried nKBucket).length
  let sel ← (List.range rounds).foldlM (selectTriedRound rand nKBucket) ⟨man, none, -1⟩
  .ok (sel.nOldestPos, sel.man)

/-- Put an id into a new bucket. -/
def insertNew (nUBucket : NewBucket) (nId : ℕ) : CAddrMan :=
  { man with vvNew := putInto man.vvNew nUBucket nId }

/-- The start of `MakeTried`: remove an entry from all new buckets.  Every bucket that
held it takes one off its reference count. -/
def withdrawNew (nId : ℕ) : CAddrMan :=
  let nErased := (holders man.vvNew nId).card
  { man.modifyInfo nId fun info => { info with nRefCount := info.nRefCount - nErased } with
    vvNew := fun nUBucket => (man.vvNew nUBucket).erase nId
    nNew := man.nNew - 1 }

/-- Move an entry back from a tried bucket to a new one: to its own, or, when that is
full, to the one that the promoted entry came from, with certainly a place left. -/
def evict (prims : Primitives) (nIdOld : ℕ) (infoOld : CAddrInfo) (nOrigin : NewBucket) :
    CAddrMan :=
  let nUBucket := infoOld.getNewBucket prims man.nKey infoOld.source
  let man := man.modifyInfo nIdOld CAddrInfo.demoted
  let nUBucket :=
    if (man.vvNew nUBucket).card < ADDRMAN_NEW_BUCKET_SIZE then nUBucket else nOrigin
  { man.insertNew nUBucket nIdOld with nNew := man.nNew + 1 }

/-- The end of `MakeTried` for a full bucket: the entry takes the place of another one. -/
def replaceTried (prims : Primitives) (rand : ℕ → ℕ) (nId : ℕ) (nOrigin : NewBucket)
    (nKBucket : TriedBucket) : Checked CAddrMan := do
  let (nPos, man) ← man.selectTried rand nKBucket
  let nPos ← if 0 ≤ nPos then .ok nPos.toNat else .error .outOfRange
  let nIdOld ← elementAt (man.vvTried nKBucket) nPos
  let infoOld ← man.counted nIdOld
  let man := man.evict prims nIdOld infoOld nOrigin
  let vTried ← storeAt (man.vvTried nKBucket) nPos nId
  let man := { man with vvTried := Function.update man.vvTried nKBucket vTried }
  .ok (man.modifyInfo nId CAddrInfo.markTried)

/-- `MakeTried`: move an entry from the new buckets to a tried one. -/
def makeTried (prims : Primitives) (rand : ℕ → ℕ) (nId : ℕ) (nOrigin : NewBucket) :
    Checked CAddrMan := do
  assertThat (nId ∈ man.vvNew nOrigin)
  let man := man.withdrawNew nId
  let info ← deref (man.mapInfo.lookup nId)
  assertThat (info.nRefCount = 0)
  let nKBucket := info.getTriedBucket prims man.nKey
  let vTried := man.vvTried nKBucket
  if vTried.length < ADDRMAN_TRIED_BUCKET_SIZE then
    let man := { man with
      vvTried := Function.update man.vvTried nKBucket (vTried ++ [nId])
      nTried := man.nTried + 1 }
    .ok (man.modifyInfo nId CAddrInfo.markTried)
  else man.replaceTried prims rand nId nOrigin nKBucket

/-! ## Operations -/

/-- `Good_`: an address was connected to successfully. -/
def good_ (prims : Primitives) (rand : ℕ → ℕ) (addr : CService) (nTime : Int64) :
    Checked CAddrMan :=
  match man.find addr.toCNetAddr with
  | none => .ok man
  | some (nId, info) =>
      if info.toCService ≠ addr then .ok man
      else
        let man := man.modifyInfo nId fun info => { info with
          nLastSuccess := nTime
          nLastTry := nTime
          nTime := nTime.toUInt64.toUInt32
          nAttempts := 0 }
        if info.fInTried then .ok man
        else
          let nRnd := getRandInt (rand 0) ADDRMAN_NEW_BUCKET_COUNT
          let buckets := (List.range ADDRMAN_NEW_BUCKET_COUNT).map fun n =>
            (⟨(n + nRnd) % ADDRMAN_NEW_BUCKET_COUNT, Nat.mod_lt _ (by decide)⟩ : NewBucket)
          match buckets.find? fun nB => nId ∈ man.vvNew nB with
          | none => .ok man
          | some nUBucket => man.makeTried prims (fun i => rand (i + 1)) nId nUBucket

/-- A time in seconds as it is stored in an address. -/
def asTime (t : ℤ) : UInt32 := UInt32.ofNat (t % 2 ^ 32).toNat

/-- What `Add_` updates in an entry that it finds. -/
def updateFound (adjustedTime : ℤ) (addr : CAddress) (nTimePenalty : Int64)
    (info : CAddrInfo) : CAddrInfo :=
  let nTime : ℤ := addr.nTime.toNat
  let fCurrentlyOnline := adjustedTime - nTime < 24 * 60 * 60
  let nUpdateInterval : ℤ := if fCurrentlyOnline then 60 * 60 else 24 * 60 * 60
  let info :=
    if addr.nTime ≠ 0 && (info.nTime = 0 ||
        (info.nTime.toNat : ℤ) < nTime - nUpdateInterval - nTimePenalty.toInt) then
      { info with nTime := asTime (max 0 (nTime - nTimePenalty.toInt)) }
    else info
  { info with nServices := info.nServices ||| addr.nServices }

/-- Does `Add_` stop at an entry that it has found and updated? -/
def stopsAtFound (rand : ℕ → ℕ) (addr : CAddress) (info : CAddrInfo) : Bool :=
  if addr.nTime = 0 || (info.nTime ≠ 0 && addr.nTime ≤ info.nTime) then true
  else if info.fInTried then true
  else if info.nRefCount = ADDRMAN_NEW_BUCKETS_PER_ADDRESS then true
  else
    -- the more references there are, the harder it is to get one more
    let nFactor := 2 ^ info.nRefCount.toNat
    nFactor > 1 && getRandInt (rand 0) nFactor ≠ 0

/-- The end of `Add_`: put an entry into the bucket its source leads to. -/
def addToBucket (prims : Primitives) (adjustedTime : ℤ) (rand : ℕ → ℕ) (source : CNetAddr)
    (nId : ℕ) : Checked CAddrMan := do
  let info ← deref (man.mapInfo.lookup nId)
  let nUBucket := info.getNewBucket prims man.nKey source
  if nId ∈ man.vvNew nUBucket then .ok man
  else do
    let man := man.modifyInfo nId CAddrInfo.referred
    let man ←
      if (man.vvNew nUBucket).card = ADDRMAN_NEW_BUCKET_SIZE then do
        let (_, man) ← man.shrinkNew adjustedTime (fun i => rand (i + 1)) nUBucket
        .ok man
      else .ok man
    .ok (man.insertNew nUBucket nId)

/-- The start of `Add_` for an address that is not known: a new entry. -/
def addNew (addr : CAddress) (source : CNetAddr) (nTimePenalty : Int64) : ℕ × CAddrMan :=
  let (nId, man) := man.create addr source
  let man := man.modifyInfo nId fun info => { info with
    nTime := asTime (max 0 ((info.nTime.toNat : ℤ) - nTimePenalty.toInt)) }
  (nId, { man with nNew := man.nNew + 1 })

/-- `Add_`: add an address, which a source has told.  It returns whether it is new. -/
def add_ (prims : Primitives) (adjustedTime : ℤ) (rand : ℕ → ℕ) (addr : CAddress)
    (source : CNetAddr) (nTimePenalty : Int64) : Checked (Bool × CAddrMan) :=
  if !addr.isRoutable then .ok (false, man)
  else if addr.port = 0 then .ok (false, man)
  else
    match man.find addr.toCNetAddr with
    | some (nId, info) =>
        let info := updateFound adjustedTime addr nTimePenalty info
        let man := man.modifyInfo nId (updateFound adjustedTime addr nTimePenalty)
        if stopsAtFound rand addr info then .ok (false, man)
        else do
          let man ← man.addToBucket prims adjustedTime rand source nId
          .ok (false, man)
    | none => do
        let (nId, man) := man.addNew addr source nTimePenalty
        let man ← man.addToBucket prims adjustedTime rand source nId
        .ok (true, man)

/-- The updates of `Attempt_` and `Connected_`, for the same service only. -/
def updateService (addr : CService) (f : CAddrInfo → CAddrInfo) : CAddrMan :=
  match man.find addr.toCNetAddr with
  | none => man
  | some (nId, info) => if info.toCService ≠ addr then man else man.modifyInfo nId f

/-- `Attempt_`: a connection was attempted. -/
def attempt_ (addr : CService) (nTime : Int64) : CAddrMan :=
  man.updateService addr fun info => { info with
    nLastTry := nTime
    nAttempts := info.nAttempts + 1 }

/-- `Connected_`: an address is currently connected to. -/
def connected_ (addr : CService) (nTime : Int64) : CAddrMan :=
  man.updateService addr fun info =>
    if nTime.toInt - info.nTime.toNat > 20 * 60 then
      { info with nTime := nTime.toUInt64.toUInt32 }
    else info

/-- A round of `GetAddr_`: draw one more entry. -/
def getAddrRound (rand : ℕ → ℕ) (drawn : List CAddress × CAddrMan) (n : ℕ) :
    Checked (List CAddress × CAddrMan) := do
  let (vAddr, man) := drawn
  let nRndPos := getRandInt (rand n) (man.vRandom.length - n) + n
  let man ← man.swapRandom n nRndPos
  let nId ← elementAt man.vRandom n
  let info ← man.counted nId
  .ok (vAddr ++ [info.toCAddress], man)

/-- `GetAddr_`: several addresses at once, at random. -/
def getAddr_ (rand : ℕ → ℕ) : Checked (List CAddress × CAddrMan) :=
  let nNodes := min (ADDRMAN_GETADDR_MAX_PCT * man.vRandom.length / 100) ADDRMAN_GETADDR_MAX
  (List.range nNodes).foldlM (getAddrRound rand) ([], man)

/-! ## The consistency check -/

/-- What `Check_` collects of the entries: the tried ones, and the reference counts of
the new ones. -/
structure Census where
  setTried : Finset ℕ
  mapNew : Table ℕ ℤ

/-- A round of the first loop of `Check_`; a failing test returns its code. -/
def checkEntry (census : Census) (entry : ℕ × CAddrInfo) : Except ℤ Census := do
  let (n, info) := entry
  let census ←
    if info.fInTried then
      if info.nLastSuccess = 0 then .error (-1)
      else if info.nRefCount ≠ 0 then .error (-2)
      else .ok { census with setTried := insert n census.setTried }
    else if info.nRefCount < 0 || info.nRefCount > ADDRMAN_NEW_BUCKETS_PER_ADDRESS then
      .error (-3)
    else if info.nRefCount = 0 then .error (-4)
    else .ok { census with mapNew := census.mapNew.insert n info.nRefCount }
  if (man.mapAddr.lookup info.toCNetAddr).getD 0 ≠ n then .error (-5)
  else if info.nRandomPos < 0 || info.nRandomPos ≥ man.vRandom.length ||
      man.vRandom[info.nRandomPos.toNat]? ≠ some n then .error (-14)
  else if info.nLastTry < 0 then .error (-6)
  else if info.nLastSuccess < 0 then .error (-8)
  else .ok census

/-- A round of the loop over the tried buckets. -/
def checkTried (setTried : Finset ℕ) (nId : ℕ) : Except ℤ (Finset ℕ) :=
  if nId ∈ setTried then .ok (setTried.erase nId) else .error (-11)

/-- A round of the loop over the new buckets. -/
def checkNew (mapNew : Table ℕ ℤ) (nId : ℕ) : Except ℤ (Table ℕ ℤ) :=
  match mapNew.lookup nId with
  | none => .error (-12)
  | some nRefCount =>
      if nRefCount - 1 = 0 then .ok (mapNew.erase nId)
      else .ok (mapNew.insert nId (nRefCount - 1))

/-- The ids in the tried buckets, bucket after bucket. -/
def triedIds : List ℕ := (List.finRange ADDRMAN_TRIED_BUCKET_COUNT).flatMap man.vvTried

/-- The ids in the new buckets, bucket after bucket. -/
def newIds : List ℕ :=
  (List.finRange ADDRMAN_NEW_BUCKET_COUNT).flatMap fun nUBucket =>
    (man.vvNew nUBucket).sort (· ≤ ·)

/-- The tests of `Check_`. -/
def checks : Except ℤ Unit := do
  if (man.vRandom.length : ℤ) ≠ man.nTried + man.nNew then .error (-7)
  let census ← man.mapInfo.inKeyOrder.foldlM man.checkEntry ⟨∅, ∅⟩
  if (census.setTried.card : ℤ) ≠ man.nTried then .error (-9)
  if (census.mapNew.entries.length : ℤ) ≠ man.nNew then .error (-10)
  let setTried ← man.triedIds.foldlM checkTried census.setTried
  let mapNew ← man.newIds.foldlM checkNew census.mapNew
  if setTried.card ≠ 0 then .error (-13)
  if mapNew.entries.length ≠ 0 then .error (-15)

/-- `Check_`: an error code or zero. -/
def check_ : ℤ :=
  match man.checks with
  | .ok _ => 0
  | .error code => code

end CAddrMan

end SocietyGold
