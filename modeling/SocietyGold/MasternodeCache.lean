import SocietyGold.AddrManFile
import SocietyGold.MasternodeUpkeep
import SocietyGold.RoundTrips

/-!
# The masternode cache file

`DumpMasternodes` first reads the old file into a manager of its own, to see whether it is
one, and then writes the list.  The list and the maps are not members of a manager but
variables of the program, so reading the old file overwrites them.
-/

namespace SocietyGold

open Support

/-! ## Records -/

/-- A public key is written like a vector of bytes. -/
def CPubKey.serialize (pubkey : CPubKey) : List UInt8 := serializeBytes pubkey.vch

/-- The bytes are read over those of the key that is there.  A longer key is skipped. -/
def CPubKey.unserialize (memory : List UInt8) : Reader CPubKey := fun stream => do
  let (bytes, rest) ← unserializeBytes stream
  if bytes.length ≤ 65 then
    let vch := bytes ++ memory.drop bytes.length
    some (CPubKey.ofBytes (vch.take (keyLength vch)), rest)
  else some (CPubKey.ofBytes [], rest)

theorem keyLength_le (vch : Valtype) : keyLength vch ≤ 65 := by
  cases vch with
  | nil => exact Nat.zero_le _
  | cons chHeader rest =>
      show getLen chHeader ≤ 65
      unfold getLen
      split_ifs <;> omega

theorem readsAs_pubKey
    {memory : List UInt8} (hMemory : keyLength memory = 0) (pubkey : CPubKey) :
    ReadsAs (CPubKey.unserialize memory) pubkey.serialize pubkey := by
  obtain ⟨vch, hLength⟩ := pubkey
  intro rest
  have hShort : vch.length ≤ 65 := hLength ▸ keyLength_le vch
  have hMax : vch.length ≤ MAX_SIZE := hShort.trans (by decide)
  have hKey : (vch ++ memory.drop vch.length).take (keyLength (vch ++ memory.drop vch.length)) =
      vch := by
    cases vch with
    | nil =>
        rw [List.nil_append, List.length_nil, List.drop_zero, hMemory, List.take_zero]
    | cons chHeader tail =>
        have hSame : keyLength (chHeader :: tail ++ memory.drop (chHeader :: tail).length) =
            (chHeader :: tail).length := hLength.symm
        rw [hSame, List.take_left]
  simp only [CPubKey.unserialize, CPubKey.serialize, readsAs_unserializeBytes hMax rest,
    Option.bind_eq_bind, Option.bind_some, hShort, if_true, hKey]
  simp [CPubKey.ofBytes, hLength]

/-! ## Masternodes -/

namespace CMasternode

/-- The fields that say which masternode it is, up to `sig`. -/
def serializeIdentity (mn : CMasternode) : List UInt8 :=
  CTransaction.serializeTxIn mn.vin ++ mn.addr.serialize ++ mn.pubkey.serialize ++
    mn.pubkey2.serialize ++ serializeBytes mn.sig

/-- The fields about its state, up to `nLastDsq`. -/
def serializeState (mn : CMasternode) : List UInt8 :=
  intToBytesLE 4 mn.activeState ++ intToBytesLE 8 mn.sigTime ++ intToBytesLE 8 mn.lastDseep ++
    intToBytesLE 8 mn.lastTimeSeen ++ intToBytesLE 4 mn.cacheInputAge ++
    intToBytesLE 4 mn.cacheInputAgeBlock ++ serializeBool mn.unitTest ++
    serializeBool mn.allowFreeTx ++ intToBytesLE 4 mn.protocolVersion ++
    intToBytesLE 8 mn.nLastDsq

/-- The fields about payments and what comes after them. -/
def serializePayment (mn : CMasternode) : List UInt8 :=
  serializeBytes mn.rewardAddress ++ intToBytesLE 4 mn.rewardPercentage ++
    intToBytesLE 4 mn.nVote ++ intToBytesLE 8 mn.lastVote ++
    intToBytesLE 4 mn.nScanningErrorCount ++
    intToBytesLE 4 mn.nLastScanningErrorBlockHeight ++ intToBytesLE 8 mn.nLastPaid ++
    serializeBool mn.isPortOpen ++ serializeBool mn.isOldNode

/-- All fields in order, after a version byte. -/
def serialize (mn : CMasternode) : List UInt8 :=
  toBytesLE 1 0 ++ mn.serializeIdentity ++ mn.serializeState ++ mn.serializePayment

def readIdentity (memory : List UInt8) :
    Reader (CTxIn × CService × CPubKey × CPubKey × List UInt8) := fun stream => do
  let (vin, rest) ← CTransaction.readTxIn stream
  let (addr, rest) ← CService.unserialize rest
  let (pubkey, rest) ← CPubKey.unserialize memory rest
  let (pubkey2, rest) ← CPubKey.unserialize memory rest
  let (sig, rest) ← unserializeBytes rest
  some ((vin, addr, pubkey, pubkey2, sig), rest)

def readState : Reader (ℤ × ℤ × ℤ × ℤ × ℤ × ℤ × Bool × Bool × ℤ × ℤ) := fun stream => do
  let (activeState, rest) ← readInt 4 stream
  let (sigTime, rest) ← readInt 8 rest
  let (lastDseep, rest) ← readInt 8 rest
  let (lastTimeSeen, rest) ← readInt 8 rest
  let (cacheInputAge, rest) ← readInt 4 rest
  let (cacheInputAgeBlock, rest) ← readInt 4 rest
  let (unitTest, rest) ← readBool rest
  let (allowFreeTx, rest) ← readBool rest
  let (protocolVersion, rest) ← readInt 4 rest
  let (nLastDsq, rest) ← readInt 8 rest
  some ((activeState, sigTime, lastDseep, lastTimeSeen, cacheInputAge, cacheInputAgeBlock,
    unitTest, allowFreeTx, protocolVersion, nLastDsq), rest)

def readPayment : Reader (CScript × ℤ × ℤ × ℤ × ℤ × ℤ × ℤ × Bool × Bool) := fun stream => do
  let (rewardAddress, rest) ← unserializeBytes stream
  let (rewardPercentage, rest) ← readInt 4 rest
  let (nVote, rest) ← readInt 4 rest
  let (lastVote, rest) ← readInt 8 rest
  let (nScanningErrorCount, rest) ← readInt 4 rest
  let (nLastScanningErrorBlockHeight, rest) ← readInt 4 rest
  let (nLastPaid, rest) ← readInt 8 rest
  let (isPortOpen, rest) ← readBool rest
  let (isOldNode, rest) ← readBool rest
  some ((rewardAddress, rewardPercentage, nVote, lastVote, nScanningErrorCount,
    nLastScanningErrorBlockHeight, nLastPaid, isPortOpen, isOldNode), rest)

def unserialize (memory : List UInt8) : Reader CMasternode := fun stream => do
  let (_, rest) ← readUint 1 stream
  let ((vin, addr, pubkey, pubkey2, sig), rest) ← readIdentity memory rest
  let ((activeState, sigTime, lastDseep, lastTimeSeen, cacheInputAge, cacheInputAgeBlock,
    unitTest, allowFreeTx, protocolVersion, nLastDsq), rest) ← readState rest
  let ((rewardAddress, rewardPercentage, nVote, lastVote, nScanningErrorCount,
    nLastScanningErrorBlockHeight, nLastPaid, isPortOpen, isOldNode), rest) ← readPayment rest
  some (⟨vin, addr, pubkey, pubkey2, sig, activeState, sigTime, lastDseep, lastTimeSeen,
    cacheInputAge, cacheInputAgeBlock, unitTest, allowFreeTx, protocolVersion, nLastDsq,
    rewardAddress, rewardPercentage, nVote, lastVote, nScanningErrorCount,
    nLastScanningErrorBlockHeight, nLastPaid, isPortOpen, isOldNode⟩, rest)

/-- The values of the fields, with vectors that readers accept. -/
structure Fits (mn : CMasternode) : Prop where
  vin : mn.vin.Fits
  sig : mn.sig.length ≤ MAX_SIZE
  activeState : FitsInt 4 mn.activeState
  sigTime : FitsInt 8 mn.sigTime
  lastDseep : FitsInt 8 mn.lastDseep
  lastTimeSeen : FitsInt 8 mn.lastTimeSeen
  cacheInputAge : FitsInt 4 mn.cacheInputAge
  cacheInputAgeBlock : FitsInt 4 mn.cacheInputAgeBlock
  protocolVersion : FitsInt 4 mn.protocolVersion
  nLastDsq : FitsInt 8 mn.nLastDsq
  rewardAddress : mn.rewardAddress.length ≤ MAX_SIZE
  rewardPercentage : FitsInt 4 mn.rewardPercentage
  nVote : FitsInt 4 mn.nVote
  lastVote : FitsInt 8 mn.lastVote
  nScanningErrorCount : FitsInt 4 mn.nScanningErrorCount
  nLastScanningErrorBlockHeight : FitsInt 4 mn.nLastScanningErrorBlockHeight
  nLastPaid : FitsInt 8 mn.nLastPaid

section Reading

variable {memory : List UInt8} {mn : CMasternode}

theorem readsAs_readIdentity (hMemory : keyLength memory = 0) (h : mn.Fits) :
    ReadsAs (readIdentity memory) mn.serializeIdentity
      (mn.vin, mn.addr, mn.pubkey, mn.pubkey2, mn.sig) := by
  simp only [serializeIdentity, List.append_assoc]
  refine (CTransaction.readsAs_readTxIn h.vin).bind ?_
  refine (readsAs_service mn.addr).bind ?_
  refine (readsAs_pubKey hMemory mn.pubkey).bind ?_
  refine (readsAs_pubKey hMemory mn.pubkey2).bind ?_
  intro rest
  simp only [readsAs_unserializeBytes h.sig _, Option.bind_eq_bind, Option.bind_some]

theorem readsAs_readState (h : mn.Fits) :
    ReadsAs readState mn.serializeState
      (mn.activeState, mn.sigTime, mn.lastDseep, mn.lastTimeSeen, mn.cacheInputAge,
        mn.cacheInputAgeBlock, mn.unitTest, mn.allowFreeTx, mn.protocolVersion, mn.nLastDsq) := by
  simp only [serializeState, List.append_assoc]
  refine (readsAs_readInt h.activeState).bind ?_
  refine (readsAs_readInt h.sigTime).bind ?_
  refine (readsAs_readInt h.lastDseep).bind ?_
  refine (readsAs_readInt h.lastTimeSeen).bind ?_
  refine (readsAs_readInt h.cacheInputAge).bind ?_
  refine (readsAs_readInt h.cacheInputAgeBlock).bind ?_
  refine (readsAs_readBool mn.unitTest).bind ?_
  refine (readsAs_readBool mn.allowFreeTx).bind ?_
  refine (readsAs_readInt h.protocolVersion).bind ?_
  intro rest
  simp only [readsAs_readInt h.nLastDsq _, Option.bind_eq_bind, Option.bind_some]

theorem readsAs_readPayment (h : mn.Fits) :
    ReadsAs readPayment mn.serializePayment
      (mn.rewardAddress, mn.rewardPercentage, mn.nVote, mn.lastVote, mn.nScanningErrorCount,
        mn.nLastScanningErrorBlockHeight, mn.nLastPaid, mn.isPortOpen, mn.isOldNode) := by
  simp only [serializePayment, List.append_assoc]
  refine (readsAs_unserializeBytes h.rewardAddress).bind ?_
  refine (readsAs_readInt h.rewardPercentage).bind ?_
  refine (readsAs_readInt h.nVote).bind ?_
  refine (readsAs_readInt h.lastVote).bind ?_
  refine (readsAs_readInt h.nScanningErrorCount).bind ?_
  refine (readsAs_readInt h.nLastScanningErrorBlockHeight).bind ?_
  refine (readsAs_readInt h.nLastPaid).bind ?_
  refine (readsAs_readBool mn.isPortOpen).bind ?_
  intro rest
  simp only [readsAs_readBool mn.isOldNode _, Option.bind_eq_bind, Option.bind_some]

/-- A masternode is read back from its bytes. -/
theorem readsAs_unserialize (hMemory : keyLength memory = 0) (h : mn.Fits) :
    ReadsAs (unserialize memory) mn.serialize mn := by
  intro rest
  have hVersion : ReadsAs (readUint 1) (toBytesLE 1 0) 0 := readsAs_readUint (by decide)
  simp only [serialize, List.append_assoc, unserialize, hVersion _,
    readsAs_readIdentity hMemory h _, readsAs_readState h _, readsAs_readPayment h _,
    Option.bind_eq_bind, Option.bind_some]

end Reading

end CMasternode

/-! ## Maps in the order of their keys -/

/-- What `operator<` compares of outpoints: the hash, then the index. -/
def COutPoint.sortKey (prevout : COutPoint) : ℕ ×ₗ ℕ := toLex (prevout.hash, prevout.n)

/-- What `operator<` compares of addresses: their bytes in order. -/
def CNetAddr.sortKey (addr : CNetAddr) : List ℕ := addr.bytes.map UInt8.toNat

section Maps

variable {K κ : Type} [DecidableEq K] [LinearOrder κ] {key : K → κ}

/-- The entries of a map in the order in which it is iterated. -/
def mapEntries (key : K → κ) (asked : Table K ℤ) : List (K × ℤ) :=
  (asked.entries.map fun e => (e.1, e.2)).insertionSort fun a b => key a.1 ≤ key b.1

theorem mem_mapEntries
    {asked : Table K ℤ} {k : K} {nTime : ℤ} :
    (k, nTime) ∈ mapEntries key asked ↔ asked.lookup k = some nTime := by
  rw [mapEntries, List.mem_insertionSort, ← Option.mem_def, AList.mem_lookup_iff]
  constructor
  · intro h
    obtain ⟨⟨k', nTime'⟩, hMem, hEq⟩ := List.mem_map.mp h
    cases hEq
    exact hMem
  · intro h
    exact List.mem_map.mpr ⟨⟨k, nTime⟩, h, rfl⟩

def serializeMap (key : K → κ) (serialize : K → List UInt8) (asked : Table K ℤ) : List UInt8 :=
  serializeVector (fun item => serialize item.1 ++ intToBytesLE 8 item.2) (mapEntries key asked)

def readItem (read : Reader K) : Reader (K × ℤ) := fun stream => do
  let (k, rest) ← read stream
  let (nTime, rest) ← readInt 8 rest
  some ((k, nTime), rest)

/-- The map is cleared and filled; a key that comes again is not inserted. -/
def unserializeMap (read : Reader K) : Reader (Table K ℤ) := fun stream => do
  let (items, rest) ← unserializeVector (readItem read) stream
  some (items.foldl (fun asked item => asked.touch item.1 item.2) ∅, rest)

/-- The same keys with the same values. -/
def SameMap (asked asked' : Table K ℤ) : Prop := ∀ k, asked.lookup k = asked'.lookup k

/-- No more entries than readers accept, and values of 64 bits. -/
structure MapFits (asked : Table K ℤ) : Prop where
  length : asked.entries.length ≤ MAX_SIZE
  times : ∀ k nTime, asked.lookup k = some nTime → FitsInt 8 nTime

/-- Equal maps have equally many entries. -/
theorem MapFits.of_sameMap
    {asked asked' : Table K ℤ} (h : MapFits asked) (hSame : SameMap asked asked') :
    MapFits asked' := by
  have hPerm : asked.entries.Perm asked'.entries := by
    refine List.lookup_ext asked.nodupKeys asked'.nodupKeys fun k nTime => ?_
    rw [show List.dlookup k asked.entries = List.dlookup k asked'.entries from hSame k]
  refine ⟨hPerm.length_eq ▸ h.length, fun k nTime hLookup => h.times k nTime ?_⟩
  rw [hSame k]
  exact hLookup

/-- A map is read back as an equal one. -/
theorem readsAs_unserializeMap
    (key : K → κ) {read : Reader K} {serialize : K → List UInt8} {asked : Table K ℤ}
    (h : MapFits asked)
    (hRead : ∀ k ∈ asked, ReadsAs read (serialize k) k) :
    ∃ asked', ReadsAs (unserializeMap read) (serializeMap key serialize asked) asked' ∧
      SameMap asked' asked := by
  refine ⟨(mapEntries key asked).foldl (fun asked item => asked.touch item.1 item.2) ∅, ?_, ?_⟩
  · have hItems : ReadsAs (unserializeVector (readItem read)) (serializeMap key serialize asked)
        (mapEntries key asked) := by
      refine readsAs_unserializeVector ?_ ?_
      · rw [mapEntries, List.length_insertionSort, List.length_map]
        exact h.length
      · rintro ⟨k, nTime⟩ hMem
        have hLookup := mem_mapEntries.mp hMem
        intro rest
        simp only [readItem, List.append_assoc,
          hRead k (Table.mem_iff_lookup.mpr ⟨nTime, hLookup⟩) _,
          readsAs_readInt (h.times k nTime hLookup) _, Option.bind_eq_bind, Option.bind_some]
    intro rest
    simp only [unserializeMap, hItems rest, Option.bind_eq_bind, Option.bind_some]
  · intro k
    rw [Table.lookup_foldl_touch, AList.lookup_empty, Option.none_or]
    cases hFind : (mapEntries key asked).find? fun item => item.1 = k with
    | none =>
        rw [Option.map_none]
        cases hLookup : asked.lookup k with
        | none => rfl
        | some nTime =>
            have hNot := List.find?_eq_none.mp hFind _ (mem_mapEntries.mpr hLookup)
            simp at hNot
    | some item =>
        have hKey : item.1 = k := by simpa using List.find?_some hFind
        have hMem : (item.1, item.2) ∈ (mapEntries key asked) := List.mem_of_find?_eq_some hFind
        rw [Option.map_some, ← hKey, mem_mapEntries.mp hMem]

end Maps

/-! ## The lists -/

/-- What reading and writing the cache takes from outside besides a `MasternodeEnv`. -/
structure CacheEnv extends MasternodeEnv where
  /-- The size of an entry in memory. -/
  sizeof : ElementSize
  /-- Does a vector of the first length have to move its entries to grow to the second? -/
  relocates : ℕ → ℕ → Bool
  /-- What lies in a key that has just been constructed. -/
  keyMemory : List UInt8
  keyMemory_invalid : keyLength keyMemory = 0
  nMasternodeMinProtocol : ℤ
  /-- Can the file be opened for writing? -/
  canWriteCache : Bool

/-- The same masternodes and equal maps. -/
structure SameLists (lists lists' : MasternodeLists) : Prop where
  vMasternodes : lists.vMasternodes = lists'.vMasternodes
  mAskedUsForMasternodeList :
    SameMap lists.mAskedUsForMasternodeList lists'.mAskedUsForMasternodeList
  mWeAskedForMasternodeList :
    SameMap lists.mWeAskedForMasternodeList lists'.mWeAskedForMasternodeList
  mWeAskedForMasternodeListEntry :
    SameMap lists.mWeAskedForMasternodeListEntry lists'.mWeAskedForMasternodeListEntry

theorem SameMap.trans
    {K : Type} [DecidableEq K] {asked asked' asked'' : Table K ℤ} (h : SameMap asked asked')
    (h' : SameMap asked' asked'') : SameMap asked asked'' := fun k => (h k).trans (h' k)

theorem SameMap.symm
    {K : Type} [DecidableEq K] {asked asked' : Table K ℤ} (h : SameMap asked asked') :
    SameMap asked' asked := fun k => (h k).symm

theorem SameLists.trans
    {lists lists' lists'' : MasternodeLists} (h : SameLists lists lists')
    (h' : SameLists lists' lists'') : SameLists lists lists'' :=
  ⟨h.vMasternodes.trans h'.vMasternodes,
    h.mAskedUsForMasternodeList.trans h'.mAskedUsForMasternodeList,
    h.mWeAskedForMasternodeList.trans h'.mWeAskedForMasternodeList,
    h.mWeAskedForMasternodeListEntry.trans h'.mWeAskedForMasternodeListEntry⟩

theorem SameLists.symm
    {lists lists' : MasternodeLists} (h : SameLists lists lists') : SameLists lists' lists :=
  ⟨h.vMasternodes.symm, h.mAskedUsForMasternodeList.symm, h.mWeAskedForMasternodeList.symm,
    h.mWeAskedForMasternodeListEntry.symm⟩

namespace MasternodeLists

/-- What `Clear` leaves. -/
def cleared : MasternodeLists := ⟨[], ∅, ∅, ∅⟩

/-- A manager is written as a version byte, the lists and its own `nDsqCount`. -/
def serialize (lists : MasternodeLists) (nDsqCount : ℤ) : List UInt8 :=
  toBytesLE 1 0 ++ serializeVector CMasternode.serialize lists.vMasternodes ++
    serializeMap CNetAddr.sortKey CNetAddr.serialize lists.mAskedUsForMasternodeList ++
    serializeMap CNetAddr.sortKey CNetAddr.serialize lists.mWeAskedForMasternodeList ++
    serializeMap COutPoint.sortKey CTransaction.serializeOutPoint
      lists.mWeAskedForMasternodeListEntry ++
    intToBytesLE 8 nDsqCount

section Unserialize

variable (cacheEnv : CacheEnv)

/-- One block of the vector of masternodes: it grows, for which it may have to copy the entries
that it has, and a copy counts as paid just now; then the new entries are read. -/
def readBlock (nSize : ℕ) (loading : List CMasternode × List UInt8) (i : ℕ) :
    Option (List CMasternode × List UInt8) := do
  let nMid := min nSize ((i + 1) * cacheEnv.sizeof.perBlock)
  let v :=
    if cacheEnv.relocates loading.1.length nMid then
      loading.1.map fun mn => mn.copy cacheEnv.adjustedTime
    else loading.1
  let (more, rest) ←
    readMany (CMasternode.unserialize cacheEnv.keyMemory) (nMid - v.length) loading.2
  some (v ++ more, rest)

def unserializeMasternodes : Reader (List CMasternode) := fun stream => do
  let (nSize, rest) ← readCompactSize stream
  (List.range ((nSize + cacheEnv.sizeof.perBlock - 1) / cacheEnv.sizeof.perBlock)).foldlM
    (readBlock cacheEnv nSize) ([], rest)

def unserialize : Reader MasternodeLists := fun stream => do
  let (_, rest) ← readUint 1 stream
  let (vMasternodes, rest) ← unserializeMasternodes cacheEnv rest
  let (mAskedUsForMasternodeList, rest) ← unserializeMap CNetAddr.unserialize rest
  let (mWeAskedForMasternodeList, rest) ← unserializeMap CNetAddr.unserialize rest
  let (mWeAskedForMasternodeListEntry, rest) ← unserializeMap CTransaction.readOutPoint rest
  let (_, rest) ← readInt 8 rest
  some (⟨vMasternodes, mAskedUsForMasternodeList, mWeAskedForMasternodeList,
    mWeAskedForMasternodeListEntry⟩, rest)

/-- The values of the fields, and no more masternodes than are read in one block.  Reading a
longer list moves entries, and that resets when they were last paid. -/
structure Fits (lists : MasternodeLists) : Prop where
  masternodes : ∀ mn ∈ lists.vMasternodes, mn.Fits
  length : lists.vMasternodes.length ≤ MAX_SIZE
  oneBlock : lists.vMasternodes.length ≤ cacheEnv.sizeof.perBlock
  mAskedUsForMasternodeList : MapFits lists.mAskedUsForMasternodeList
  mWeAskedForMasternodeList : MapFits lists.mWeAskedForMasternodeList
  mWeAskedForMasternodeListEntry : MapFits lists.mWeAskedForMasternodeListEntry
  outpoints : ∀ prevout ∈ lists.mWeAskedForMasternodeListEntry, prevout.Fits

end Unserialize

section Reading

variable {cacheEnv : CacheEnv} {lists : MasternodeLists}

theorem Fits.of_sameLists
    {lists' : MasternodeLists} (h : lists.Fits cacheEnv) (hSame : SameLists lists lists') :
    lists'.Fits cacheEnv where
  masternodes := hSame.vMasternodes ▸ h.masternodes
  length := hSame.vMasternodes ▸ h.length
  oneBlock := hSame.vMasternodes ▸ h.oneBlock
  mAskedUsForMasternodeList :=
    h.mAskedUsForMasternodeList.of_sameMap hSame.mAskedUsForMasternodeList
  mWeAskedForMasternodeList :=
    h.mWeAskedForMasternodeList.of_sameMap hSame.mWeAskedForMasternodeList
  mWeAskedForMasternodeListEntry :=
    h.mWeAskedForMasternodeListEntry.of_sameMap hSame.mWeAskedForMasternodeListEntry
  outpoints prevout hMem := by
    apply h.outpoints
    rw [Table.mem_iff_lookup, hSame.mWeAskedForMasternodeListEntry prevout]
    exact Table.mem_iff_lookup.mp hMem

/-- A list that fits in one block is read back. -/
theorem readsAs_unserializeMasternodes (h : lists.Fits cacheEnv) :
    ReadsAs (unserializeMasternodes cacheEnv)
      (serializeVector CMasternode.serialize lists.vMasternodes) lists.vMasternodes := by
  intro rest
  have hMany := readsAs_readMany fun mn hMem =>
    CMasternode.readsAs_unserialize cacheEnv.keyMemory_invalid (h.masternodes mn hMem)
  have hPos : 0 < (cacheEnv.sizeof.perBlock : ℕ) := cacheEnv.sizeof.perBlock.pos
  have hBlock := h.oneBlock
  simp only [unserializeMasternodes, serializeVector, List.append_assoc,
    readsAs_readCompactSize h.length _, Option.bind_eq_bind, Option.bind_some]
  cases hNodes : lists.vMasternodes with
  | nil =>
      have hNone : ((cacheEnv.sizeof.perBlock : ℕ) - 1) / cacheEnv.sizeof.perBlock = 0 :=
        Nat.div_eq_of_lt (by omega)
      simp [hNone]
  | cons mn more =>
      rw [← hNodes]
      have hLength : 0 < lists.vMasternodes.length := by simp [hNodes]
      have hOne : (lists.vMasternodes.length + (cacheEnv.sizeof.perBlock : ℕ) - 1) /
          cacheEnv.sizeof.perBlock = 1 := by
        rw [Nat.div_eq_iff hPos]
        omega
      have hMid : min lists.vMasternodes.length ((0 + 1) * (cacheEnv.sizeof.perBlock : ℕ)) =
          lists.vMasternodes.length := by
        omega
      have hCopy : (if cacheEnv.relocates 0 lists.vMasternodes.length then
          ([] : List CMasternode).map fun mn => mn.copy cacheEnv.adjustedTime else []) = [] := by
        split_ifs <;> rfl
      rw [hOne, show List.range 1 = [0] from rfl, List.foldlM_cons]
      simp only [readBlock, List.length_nil, hMid, hCopy, Nat.sub_zero, hMany rest,
        Option.bind_eq_bind, Option.bind_some, List.nil_append, List.foldlM_nil, Option.pure_def]

/-- The lists are read back. -/
theorem readsAs_unserialize
    (h : lists.Fits cacheEnv) (nDsqCount : ℤ) :
    ∃ loaded, ReadsAs (unserialize cacheEnv) (lists.serialize nDsqCount) loaded ∧
      SameLists loaded lists := by
  have hVersion : ReadsAs (readUint 1) (toBytesLE 1 0) 0 := readsAs_readUint (by decide)
  obtain ⟨askedUs, hAskedUs, hSameUs⟩ := readsAs_unserializeMap CNetAddr.sortKey
    h.mAskedUsForMasternodeList fun addr _ => readsAs_netAddr addr
  obtain ⟨weAsked, hWeAsked, hSameWe⟩ := readsAs_unserializeMap CNetAddr.sortKey
    h.mWeAskedForMasternodeList fun addr _ => readsAs_netAddr addr
  obtain ⟨entries, hEntries, hSameEntries⟩ := readsAs_unserializeMap COutPoint.sortKey
    h.mWeAskedForMasternodeListEntry fun prevout hMem =>
      CTransaction.readsAs_readOutPoint (h.outpoints prevout hMem)
  refine ⟨⟨lists.vMasternodes, askedUs, weAsked, entries⟩, ?_,
    ⟨rfl, hSameUs, hSameWe, hSameEntries⟩⟩
  intro rest
  simp only [serialize, List.append_assoc, unserialize, hVersion _,
    readsAs_unserializeMasternodes h _, hAskedUs _, hWeAsked _, hEntries _,
    readsAs_readInt_bmod 8 nDsqCount _, Option.bind_eq_bind, Option.bind_some]

end Reading

end MasternodeLists

/-! ## The file -/

/-- `ReadResult` without `Ok`. -/
inductive ReadError
  | FileError
  | HashReadError
  | IncorrectHash
  | IncorrectMagicMessage
  | IncorrectMagicNumber
  | IncorrectFormat
  deriving DecidableEq, Repr

namespace CMasternodeDB

def strMagicMessage : List UInt8 := "MasternodeCache".toList.map fun c => UInt8.ofNat c.toNat

section File

variable (cacheEnv : CacheEnv)

/-- The checksum of the data before it. -/
def checksum (data : List UInt8) : ℕ := cacheEnv.prims.hash data % 2 ^ 256

/-- What is written before the checksum. -/
def cacheData (lists : MasternodeLists) (nDsqCount : ℤ) : List UInt8 :=
  serializeBytes strMagicMessage ++ cacheEnv.messageStart ++ lists.serialize nDsqCount

/-- The content of the file after `Write`. -/
def fileOf (lists : MasternodeLists) (nDsqCount : ℤ) : List UInt8 :=
  cacheData cacheEnv lists nDsqCount ++
    toBytesLE 32 (checksum cacheEnv (cacheData cacheEnv lists nDsqCount))

/-- What `Read` finds in data with the right checksum. -/
def parseData (data : List UInt8) : Except ReadError MasternodeLists :=
  match unserializeBytes data with
  | none => .error .IncorrectFormat
  | some (strMagicMessageTmp, rest) =>
      if strMagicMessageTmp ≠ strMagicMessage then .error .IncorrectMagicMessage
      else
        match readBytes 4 rest with
        | none => .error .IncorrectFormat
        | some (pchMsgTmp, rest) =>
            if pchMsgTmp ≠ cacheEnv.messageStart then .error .IncorrectMagicNumber
            else
              match MasternodeLists.unserialize cacheEnv rest with
              | none => .error .IncorrectFormat
              | some (lists, _) => .ok lists

/-- What `Read` finds in the file, before anything expires. -/
def parse (file : Option (List UInt8)) : Except ReadError MasternodeLists :=
  match file with
  | none => .error .FileError
  | some content =>
      let dataSize := content.length - 32
      match readUint 32 (content.drop dataSize) with
      | none => .error .HashReadError
      | some (hashIn, _) =>
          if hashIn ≠ checksum cacheEnv (content.take dataSize) then .error .IncorrectHash
          else parseData cacheEnv (content.take dataSize)

variable (st : ChainState)

/-- `Read`: its result and the lists, which the manager it is given shares with all others.
Nothing if the loop of `CheckAndRemove` needs more rounds. -/
def read (fuel : ℕ) (file : Option (List UInt8)) (lists : MasternodeLists) :
    Checked (Option (Except ReadError Unit × MasternodeLists)) :=
  match parse cacheEnv file with
  | .error .IncorrectFormat => .ok (some (.error .IncorrectFormat, MasternodeLists.cleared))
  | .error result => .ok (some (.error result, lists))
  | .ok loaded => do
      let checked ← CMasternodeMan.checkAndRemove cacheEnv.toMasternodeEnv st
        cacheEnv.nMasternodeMinProtocol fuel loaded
      .ok (checked.map fun lists => (.ok (), lists))

end File

end CMasternodeDB

/-- What `DumpMasternodes` leaves. -/
structure MasternodeDump where
  file : Option (List UInt8)
  lists : MasternodeLists
  written : Bool

section Dump

variable (cacheEnv : CacheEnv) (st : ChainState)

/-- `DumpMasternodes`.  The file is left alone when it is not a masternode cache. -/
def dumpMasternodes (fuel : ℕ) (nDsqCount : ℤ) (file : Option (List UInt8))
    (lists : MasternodeLists) : Checked (Option MasternodeDump) := do
  let result ← CMasternodeDB.read cacheEnv st fuel file lists
  .ok (result.map fun (readResult, lists) =>
    if readResult = .error .FileError ∨ readResult = .ok () ∨
        readResult = .error .IncorrectFormat then
      if cacheEnv.canWriteCache then
        ⟨some (CMasternodeDB.fileOf cacheEnv lists nDsqCount), lists, true⟩
      else ⟨file, lists, false⟩
    else ⟨file, lists, false⟩)

/-- The dump returns and leaves the lists as they were, and if it has written the file, the
same lists can be read from it. -/
def DumpKeepsLists (nDsqCount : ℤ) (file : Option (List UInt8)) (lists : MasternodeLists) :
    Prop :=
  ∃ fuel dump, dumpMasternodes cacheEnv st fuel nDsqCount file lists = .ok (some dump) ∧
    SameLists dump.lists lists ∧
    (dump.written = true → ∃ loaded, CMasternodeDB.parse cacheEnv dump.file = .ok loaded ∧
      SameLists loaded lists)

/-- What the upkeep after a read leaves of the time an entry was asked for. -/
def unexpired (nTime : Option ℤ) : Option ℤ := nTime.filter fun nTime => cacheEnv.time ≤ nTime

/-- The file holds the live lists: nothing in it is removable, and after the upkeep it is what
is in memory. -/
structure HoldsLive (loaded lists : MasternodeLists) : Prop where
  checks : ∀ mn ∈ loaded.vMasternodes,
    ∃ checked, mn.check cacheEnv.toMasternodeEnv st = .ok checked
  stays : ∀ mn ∈ loaded.vMasternodes, cacheEnv.nMasternodeMinProtocol ≤ mn.protocolVersion ∧
    (cacheEnv.fRequestShutdown = true →
      mn.activeState ≠ MASTERNODE_REMOVE ∧ mn.activeState ≠ MASTERNODE_VIN_SPENT)
  masternodes : lists.vMasternodes = loaded.vMasternodes.map fun mn =>
    if cacheEnv.fRequestShutdown then mn else { mn with activeState := MASTERNODE_ENABLED }
  mAskedUsForMasternodeList : ∀ k, lists.mAskedUsForMasternodeList.lookup k =
    unexpired cacheEnv (loaded.mAskedUsForMasternodeList.lookup k)
  mWeAskedForMasternodeList : ∀ k, lists.mWeAskedForMasternodeList.lookup k =
    unexpired cacheEnv (loaded.mWeAskedForMasternodeList.lookup k)
  mWeAskedForMasternodeListEntry : ∀ k, lists.mWeAskedForMasternodeListEntry.lookup k =
    unexpired cacheEnv (loaded.mWeAskedForMasternodeListEntry.lookup k)

/-- A file that does no harm to the lists: it is missing or no masternode cache, it is a broken
cache and there is nothing to lose, or it holds the live lists. -/
def HarmlessFile (file : Option (List UInt8)) (lists : MasternodeLists) : Prop :=
  match CMasternodeDB.parse cacheEnv file with
  | .error .IncorrectFormat => SameLists MasternodeLists.cleared lists
  | .error _ => True
  | .ok loaded => HoldsLive cacheEnv st loaded lists

end Dump

/-! ## When the dump leaves the lists alone -/

section Dump

variable {cacheEnv : CacheEnv} {st : ChainState} {lists : MasternodeLists}

/-- A file that was written is read back. -/
theorem parse_fileOf
    (hMessage : cacheEnv.messageStart.length = 4) (h : lists.Fits cacheEnv) (nDsqCount : ℤ) :
    ∃ loaded, CMasternodeDB.parse cacheEnv
        (some (CMasternodeDB.fileOf cacheEnv lists nDsqCount)) = .ok loaded ∧
      SameLists loaded lists := by
  obtain ⟨loaded, hLoaded, hSame⟩ := MasternodeLists.readsAs_unserialize h nDsqCount
  refine ⟨loaded, ?_, hSame⟩
  have hHash : ∀ data, CMasternodeDB.checksum cacheEnv data < 256 ^ 32 := by
    intro data
    exact Nat.mod_lt _ (by norm_num)
  have hMagic := readsAs_unserializeBytes (v := CMasternodeDB.strMagicMessage) (by decide)
  have hStart := readsAs_readBytes cacheEnv.messageStart
  rw [hMessage] at hStart
  unfold CMasternodeDB.parse CMasternodeDB.fileOf
  generalize hData : CMasternodeDB.cacheData cacheEnv lists nDsqCount = data
  have hSize : (data ++ toBytesLE 32 (CMasternodeDB.checksum cacheEnv data)).length - 32 =
      data.length := by simp
  have hRead := readsAs_readUint (hHash data) []
  rw [List.append_nil] at hRead
  dsimp only
  rw [hSize, List.drop_left, List.take_left, hRead]
  dsimp only
  rw [if_neg (not_not.mpr rfl), ← hData]
  unfold CMasternodeDB.parseData CMasternodeDB.cacheData
  have hLast := hLoaded []
  rw [List.append_nil] at hLast
  rw [List.append_assoc, hMagic]
  dsimp only
  rw [if_neg (not_not.mpr rfl), hStart]
  dsimp only
  rw [if_neg (not_not.mpr rfl), hLast]

theorem lookup_removeExpired
    {K : Type} [DecidableEq K] (now : ℤ) (asked : Table K ℤ) (k : K) :
    (removeExpired now asked).lookup k = (asked.lookup k).filter fun nTime => now ≤ nTime := by
  have hErase := Table.lookup_foldl_erase id
    (asked.keys.filter fun k => (asked.lookup k).any (· < now)) asked k
  simp only [id_eq] at hErase
  rw [removeExpired, hErase]
  cases hLookup : asked.lookup k with
  | none => simp
  | some nTime =>
      have hMem : k ∈ asked.keys := AList.mem_keys.mp (Table.mem_iff_lookup.mpr ⟨nTime, hLookup⟩)
      by_cases hOld : nTime < now
      · rw [if_pos (by simp [hMem, hLookup, hOld]), Option.filter_some_neg (by simpa using hOld)]
      · rw [if_neg (by simp [hLookup, hOld]),
          Option.filter_some_pos (by simpa using not_lt.mp hOld)]

/-- What the check leaves of an entry. -/
theorem check_eq_of_ok
    {mn checked : CMasternode} (h : mn.check cacheEnv.toMasternodeEnv st = .ok checked) :
    checked =
      if cacheEnv.fRequestShutdown then mn else { mn with activeState := MASTERNODE_ENABLED } := by
  cases hShutdown : cacheEnv.fRequestShutdown with
  | true =>
      rw [CMasternode.check, if_pos hShutdown] at h
      exact (Except.ok.inj h).symm
  | false => exact CMasternode.check_eq_ok hShutdown h

theorem checkAll_eq_map
    {vMasternodes checked : List CMasternode}
    (h : CMasternodeMan.checkAll cacheEnv.toMasternodeEnv st vMasternodes = .ok checked) :
    checked = vMasternodes.map fun mn =>
      if cacheEnv.fRequestShutdown then mn else { mn with activeState := MASTERNODE_ENABLED } := by
  rw [CMasternodeMan.checkAll_eq_ok] at h
  induction h with
  | nil => rfl
  | cons hCheck _ ih => rw [List.map_cons, ← ih, check_eq_of_ok hCheck]

/-- The upkeep of lists that were read returns the live lists exactly if the file holds them. -/
theorem upkeep_sameLists_iff
    {loaded : MasternodeLists} :
    (∃ fuel after, CMasternodeMan.checkAndRemove cacheEnv.toMasternodeEnv st
        cacheEnv.nMasternodeMinProtocol fuel loaded = .ok (some after) ∧ SameLists after lists) ↔
      HoldsLive cacheEnv st loaded lists := by
  have hAsked : ∀ {K : Type} [DecidableEq K] (asked asked' : Table K ℤ),
      SameMap (removeExpired cacheEnv.time asked) asked' ↔
        ∀ k, asked'.lookup k = unexpired cacheEnv (asked.lookup k) := by
    intro K _ asked asked'
    unfold SameMap unexpired
    simp only [lookup_removeExpired, eq_comm]
  constructor
  · rintro ⟨fuel, after, hRun, hSame⟩
    obtain ⟨checked, hChecked⟩ : ∃ checked, CMasternodeMan.checkAll cacheEnv.toMasternodeEnv st
        loaded.vMasternodes = .ok checked := by
      obtain ⟨checked, hChecked, -⟩ := bind_eq_ok.mp hRun
      exact ⟨checked, hChecked⟩
    obtain ⟨hNone, rfl⟩ :=
      (CMasternodeMan.checkAndRemove_returns_iff hChecked).mp ⟨fuel, hRun⟩
    have hAll : ∀ mn ∈ loaded.vMasternodes, ∃ mn' ∈ checked,
        mn.check cacheEnv.toMasternodeEnv st = .ok mn' := fun mn hMem =>
      exists_right_of_forall₂ (CMasternodeMan.checkAll_eq_ok.mp hChecked) hMem
    constructor
    · intro mn hMem
      obtain ⟨mn', -, hCheck⟩ := hAll mn hMem
      exact ⟨mn', hCheck⟩
    · intro mn hMem
      obtain ⟨mn', hMem', hCheck⟩ := hAll mn hMem
      exact (CMasternodeMan.isRemovable_of_check hCheck).mp (hNone mn' hMem')
    · rw [← checkAll_eq_map hChecked]
      exact hSame.vMasternodes.symm
    · exact (hAsked _ _).mp hSame.mAskedUsForMasternodeList
    · exact (hAsked _ _).mp hSame.mWeAskedForMasternodeList
    · exact (hAsked _ _).mp hSame.mWeAskedForMasternodeListEntry
  · intro hHolds
    obtain ⟨checked, hChecked⟩ := CMasternodeMan.exists_checkAll hHolds.checks
    have hNone : ∀ mn ∈ checked,
        CMasternodeMan.isRemovable cacheEnv.nMasternodeMinProtocol mn = false := by
      intro mn' hMem'
      obtain ⟨mn, hMem, hCheck⟩ :=
        exists_left_of_forall₂ (CMasternodeMan.checkAll_eq_ok.mp hChecked) hMem'
      exact (CMasternodeMan.isRemovable_of_check hCheck).mpr (hHolds.stays mn hMem)
    obtain ⟨fuel, hRun⟩ :=
      (CMasternodeMan.checkAndRemove_returns_iff hChecked).mpr ⟨hNone, rfl⟩
    refine ⟨fuel, _, hRun, ?_, ?_, ?_, ?_⟩
    · rw [hHolds.masternodes]
      exact checkAll_eq_map hChecked
    · exact (hAsked _ _).mpr hHolds.mAskedUsForMasternodeList
    · exact (hAsked _ _).mpr hHolds.mWeAskedForMasternodeList
    · exact (hAsked _ _).mpr hHolds.mWeAskedForMasternodeListEntry

/-- Reading the old file returns and leaves the live lists exactly if the file is harmless. -/
theorem read_sameLists_iff
    {file : Option (List UInt8)} :
    (∃ fuel result after, CMasternodeDB.read cacheEnv st fuel file lists =
        .ok (some (result, after)) ∧ SameLists after lists) ↔
      HarmlessFile cacheEnv st file lists := by
  have hRefl : SameLists lists lists := ⟨rfl, fun _ => rfl, fun _ => rfl, fun _ => rfl⟩
  unfold CMasternodeDB.read HarmlessFile
  cases CMasternodeDB.parse cacheEnv file with
  | ok loaded =>
      dsimp only
      rw [← upkeep_sameLists_iff]
      constructor
      · rintro ⟨fuel, result, after, hRun, hSame⟩
        obtain ⟨checked, hUpkeep, hRun⟩ := bind_eq_ok.mp hRun
        obtain ⟨lists', rfl, hPair⟩ := Option.map_eq_some_iff.mp (Except.ok.inj hRun)
        obtain ⟨-, rfl⟩ := Prod.mk.inj hPair
        exact ⟨fuel, lists', hUpkeep, hSame⟩
      · rintro ⟨fuel, after, hUpkeep, hSame⟩
        exact ⟨fuel, .ok (), after, by rw [hUpkeep]; rfl, hSame⟩
  | error result =>
      cases result with
      | IncorrectFormat =>
          dsimp only
          constructor
          · rintro ⟨fuel, result, after, hRun, hSame⟩
            cases hRun
            exact hSame
          · intro hSame
            exact ⟨0, _, _, rfl, hSame⟩
      | FileError => exact iff_of_true ⟨0, _, _, rfl, hRefl⟩ trivial
      | HashReadError => exact iff_of_true ⟨0, _, _, rfl, hRefl⟩ trivial
      | IncorrectHash => exact iff_of_true ⟨0, _, _, rfl, hRefl⟩ trivial
      | IncorrectMagicMessage => exact iff_of_true ⟨0, _, _, rfl, hRefl⟩ trivial
      | IncorrectMagicNumber => exact iff_of_true ⟨0, _, _, rfl, hRefl⟩ trivial

theorem read_of_dumpKeepsLists
    {nDsqCount : ℤ} {file : Option (List UInt8)}
    (h : DumpKeepsLists cacheEnv st nDsqCount file lists) :
    ∃ fuel result after, CMasternodeDB.read cacheEnv st fuel file lists =
      .ok (some (result, after)) ∧ SameLists after lists := by
  obtain ⟨fuel, dump, hDump, hSame, -⟩ := h
  obtain ⟨result, hRead, hDump⟩ := bind_eq_ok.mp hDump
  obtain ⟨⟨readResult, after⟩, rfl, rfl⟩ := Option.map_eq_some_iff.mp (Except.ok.inj hDump)
  refine ⟨fuel, readResult, after, hRead, ?_⟩
  dsimp only at hSame
  split_ifs at hSame <;> exact hSame

/-- For lists that are read in one block, the dump leaves them as they were, and what it writes
can be read, exactly if the old file is harmless. -/
theorem dumpKeepsLists_iff
    (hMessage : cacheEnv.messageStart.length = 4) (hFits : lists.Fits cacheEnv) (nDsqCount : ℤ)
    (file : Option (List UInt8)) :
    DumpKeepsLists cacheEnv st nDsqCount file lists ↔ HarmlessFile cacheEnv st file lists := by
  rw [← read_sameLists_iff]
  constructor
  · exact read_of_dumpKeepsLists
  · rintro ⟨fuel, readResult, after, hRead, hSame⟩
    have hDump : dumpMasternodes cacheEnv st fuel nDsqCount file lists = .ok (some
        (if readResult = .error .FileError ∨ readResult = .ok () ∨
            readResult = .error .IncorrectFormat then
          if cacheEnv.canWriteCache then
            ⟨some (CMasternodeDB.fileOf cacheEnv after nDsqCount), after, true⟩
          else ⟨file, after, false⟩
        else ⟨file, after, false⟩)) := by
      unfold dumpMasternodes
      rw [hRead]
      rfl
    refine ⟨fuel, _, hDump, ?_, ?_⟩
    · split_ifs <;> exact hSame
    · split_ifs
      · intro _
        obtain ⟨loaded, hParse, hLoaded⟩ :=
          parse_fileOf hMessage (hFits.of_sameLists hSame.symm) nDsqCount
        exact ⟨loaded, hParse, hLoaded.trans hSame⟩
      · intro hWritten
        cases hWritten
      · intro hWritten
        cases hWritten

end Dump

/-! ## A stale file -/

namespace Sample

def cacheEnv : CacheEnv where
  toMasternodeEnv := masternodeEnv 100000
  sizeof := ⟨400, by decide, by decide⟩
  relocates nSize nMid := nSize < nMid
  keyMemory := [0xff]
  keyMemory_invalid := rfl
  nMasternodeMinProtocol := 10007
  canWriteCache := true

/-- One masternode, which was seen just now. -/
def liveLists : MasternodeLists := ⟨[masternodeSeen 100000 true], ∅, ∅, ∅⟩

theorem mapFits_empty {K : Type} [DecidableEq K] : MapFits (∅ : Table K ℤ) :=
  ⟨Nat.zero_le _, fun k nTime h => by simp at h⟩

theorem cleared_fits : MasternodeLists.cleared.Fits cacheEnv where
  masternodes mn hMem := by cases hMem
  length := by decide
  oneBlock := by decide
  mAskedUsForMasternodeList := mapFits_empty
  mWeAskedForMasternodeList := mapFits_empty
  mWeAskedForMasternodeListEntry := mapFits_empty
  outpoints prevout hMem := by simp [MasternodeLists.cleared] at hMem

theorem liveLists_fits : liveLists.Fits cacheEnv where
  masternodes mn hMem := by
    obtain rfl := List.mem_singleton.mp hMem
    constructor
    · exact ⟨⟨by decide, by decide⟩, by decide, by decide⟩
    all_goals decide
  length := by decide
  oneBlock := by decide
  mAskedUsForMasternodeList := mapFits_empty
  mWeAskedForMasternodeList := mapFits_empty
  mWeAskedForMasternodeListEntry := mapFits_empty
  outpoints prevout hMem := by simp [liveLists] at hMem

/-- A file from an earlier dump of an empty list empties the live list. -/
theorem staleFile_clears :
    ¬DumpKeepsLists cacheEnv collateralNode 0
      (some (CMasternodeDB.fileOf cacheEnv MasternodeLists.cleared 0)) liveLists := by
  intro hKeeps
  have hHarmless := read_sameLists_iff.mp (read_of_dumpKeepsLists hKeeps)
  obtain ⟨loaded, hParse, hLoaded⟩ := parse_fileOf rfl cleared_fits 0
  unfold HarmlessFile at hHarmless
  rw [hParse] at hHarmless
  have hNodes := hHarmless.masternodes
  rw [hLoaded.vMasternodes] at hNodes
  cases hNodes

/-- Without a file the list is kept and written. -/
theorem missingFile_kept : DumpKeepsLists cacheEnv collateralNode 0 none liveLists :=
  (dumpKeepsLists_iff rfl liveLists_fits 0 none).mpr trivial

end Sample

end SocietyGold
