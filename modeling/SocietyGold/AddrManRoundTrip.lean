import SocietyGold.AddrManReload

/-!
# The round trip of the address manager

The bytes of a consistent manager are read into any manager, and what comes out is
consistent and says the same about every address.
-/

namespace SocietyGold

open Support

namespace CAddrMan

variable {prims : Primitives} {attempted : Int64 → Prop} {man : CAddrMan}

theorem fitsInt_nNew (h : Consistent prims attempted none man) : FitsInt 4 man.nNew := by
  have hCount := length_newEntries h
  have hBound := length_newEntries_le h
  have hConst : ADDRMAN_NEW_BUCKET_COUNT * ADDRMAN_NEW_BUCKET_SIZE = 16384 := rfl
  constructor
  · norm_num
    omega
  · norm_num
    omega

theorem fitsInt_nTried (h : Consistent prims attempted none man) : FitsInt 4 man.nTried := by
  have hCount := length_triedEntries h
  have hBound := length_triedEntries_le h
  have hConst : ADDRMAN_TRIED_BUCKET_COUNT * ADDRMAN_TRIED_BUCKET_SIZE = 4096 := rfl
  constructor
  · norm_num
    omega
  · norm_num
    omega

/-- What is written before the new buckets, when their number is `nUBuckets`. -/
def headBytes (man : CAddrMan) (nUBuckets : ℕ) : List UInt8 :=
  toBytesLE 1 0 ++ (serializeBytes man.nKey ++ (intToBytesLE 4 man.nNew ++
    (intToBytesLE 4 man.nTried ++ (intToBytesLE 4 nUBuckets ++
    (man.newEntries.flatMap (fun e => e.2.serialize 0) ++
    man.triedEntries.flatMap (fun e => e.2.serialize 0))))))

/-- The loops of the writer stop early at nothing. -/
theorem headBytes_eq (h : Consistent prims attempted none man) (nUBuckets : ℕ) :
    toBytesLE 1 0 ++ serializeBytes man.nKey ++ intToBytesLE 4 man.nNew ++
        intToBytesLE 4 man.nTried ++ intToBytesLE 4 nUBuckets ++
        (writeNew man.nNew man.mapInfo.inKeyOrder 0 ∅).1 ++
        writeTried man.nTried man.mapInfo.inKeyOrder 0 =
      man.headBytes nUBuckets := by
  have hCount := length_triedEntries h
  have hTriedBytes := @writeTried_spec man.nTried 0
    man.mapInfo.inKeyOrder (by rw [zero_add]; exact hCount.symm)
  unfold headBytes
  rw [(writeNew_written h).1, hTriedBytes]
  simp only [List.append_assoc]
  rfl

theorem serialize_eq (h : Consistent prims attempted none man) :
    man.serialize = man.headBytes ADDRMAN_NEW_BUCKET_COUNT ++
      (List.finRange ADDRMAN_NEW_BUCKET_COUNT).flatMap fun b =>
        writeBucket man.numbers (man.vvNew b) := by
  rw [← headBytes_eq h]
  rfl

/-- The manager that the reader starts from. -/
def cleared (target : CAddrMan) (nKey : List UInt8) (nNew nTried : ℤ) : CAddrMan :=
  { target with
    nKey := nKey
    nNew := nNew
    nTried := nTried
    nIdCount := 0
    mapInfo := ∅
    mapAddr := ∅
    vRandom := []
    vvTried := fun _ => []
    vvNew := fun _ => ∅ }

theorem loaded_cleared (target : CAddrMan) (nKey : List UInt8) (nNew nTried : ℤ) :
    Loaded prims [] (target.cleared nKey nNew nTried) where
  entries n := by
    simp [cleared]
  random := rfl
  address addr n := by
    simp [cleared]
  tried b := rfl

/-- What the two loops over the entries leave. -/
theorem loaded_written
    (h : Consistent prims attempted none man) (nUBuckets : ℤ) (target : CAddrMan) :
    ∃ man₁ man₂,
      man.newEntries.zipIdx.foldl
        (fun loading e => loadNew prims nUBuckets loading e.2 e.1.2.stored)
        (target.cleared man.nKey man.nNew man.nTried) = man₁ ∧
      man.triedEntries.foldl (fun loading e => loadTried prims loading e.2.stored)
        ({ man₁ with nIdCount := man.nNew.toNat }, 0) = (man₂, 0) ∧
      Loaded prims (slotsWith (countAtLoad nUBuckets) man.written) man₂ ∧
      man₂ = { target.cleared man.nKey man.nNew man.nTried with
        nIdCount := man.written.length
        mapInfo := man₂.mapInfo
        mapAddr := man₂.mapAddr
        vRandom := man₂.vRandom
        vvTried := man₂.vvTried
        vvNew := man₂.vvNew } ∧
      ∀ b n, n ∈ man₂.vvNew b ↔ nUBuckets ≠ ADDRMAN_NEW_BUCKET_COUNT ∧
        ∃ e, man.newEntries[n]? = some e ∧ e.2.getNewBucket prims man.nKey e.2.source = b := by
  have hAddrs := nodup_addresses h
  have hNewCount := length_newEntries h
  have hNew : ∀ e ∈ man.newEntries, e.2.fInTried = false :=
    fun e he => fInTried_of_mem_newEntries h he
  have hTried : ∀ e ∈ man.triedEntries, e.2.fInTried = true :=
    fun e he => (List.mem_filter.mp he).2
  have hZero : ∀ e ∈ man.triedEntries, countAtLoad nUBuckets e.2 = 0 := by
    intro e he
    rw [countAtLoad, hTried e he, Bool.or_true, if_pos rfl]
  have hNewAddrs : (man.newEntries.map fun e => e.2.toCNetAddr).Nodup := by
    rw [written, List.map_append, List.nodup_append'] at hAddrs
    exact hAddrs.1
  obtain ⟨man₁, hFold₁, hLoaded₁, hFrame₁, hBuckets⟩ := loaded_new
    (show Loaded prims [] _ from loaded_cleared target man.nKey man.nNew man.nTried) hNew hNewAddrs
  have hKey : man₁.nKey = man.nKey := by
    rw [hFrame₁, cleared]
  have hLoaded : Loaded prims (slotsWith (countAtLoad nUBuckets) man.newEntries)
      { man₁ with nIdCount := man.nNew.toNat } :=
    ⟨hLoaded₁.entries, hLoaded₁.random, hLoaded₁.address, hLoaded₁.tried⟩
  have hCount : man.nNew.toNat = man.newEntries.length := by
    omega
  obtain ⟨man₂, hFold₂, hLoaded₂, hCount₂, hFrame₂⟩ := loaded_tried hLoaded hCount hTried hZero
    hAddrs (by
      intro b
      dsimp only
      rw [hKey]
      exact (countP_tried h b).trans_le (h.placed.tried_size b))
  refine ⟨man₁, man₂, hFold₁, hFold₂, hLoaded₂, ?_, ?_⟩
  · rw [hFrame₂, hFrame₁, hCount₂]
    rfl
  · intro b n
    have hSame : man₂.vvNew = man₁.vvNew := by
      rw [hFrame₂]
    rw [hSame, hBuckets]
    exact or_iff_right (Finset.notMem_empty n)

/-- Nothing is counted before the references are read. -/
theorem slotsOf_eq_countAtLoad (entries : List (ℕ × CAddrInfo)) :
    slotsOf entries = slotsWith (countAtLoad ADDRMAN_NEW_BUCKET_COUNT) entries := by
  have hZero : countAtLoad ADDRMAN_NEW_BUCKET_COUNT = fun _ => 0 := by
    funext info
    rw [countAtLoad, decide_eq_true rfl, Bool.true_or, if_pos rfl]
  rw [hZero, slotsOf_eq]

/-- No entry is referred to more than four times. -/
theorem references_le (h : Consistent prims attempted none man) (n : ℕ) :
    (man.references.countP (·.2 = n) : ℤ) ≤ ADDRMAN_NEW_BUCKETS_PER_ADDRESS := by
  cases hAt : man.written[n]? with
  | none =>
      have hZero : man.references.countP (·.2 = n) = 0 := by
        rw [List.countP_eq_zero]
        rintro ⟨b, n'⟩ hMem hSame
        obtain ⟨nId, hSome, -⟩ := (mem_references h b n').mp hMem
        have hN : n' = n := by
          simpa using hSame
        rw [hN, List.getElem?_map, hAt] at hSome
        cases hSome
      rw [hZero]
      decide
  | some e =>
      obtain ⟨nId, info⟩ := e
      have hEntry := lookup_of_written h hAt
      rw [count_references h hAt]
      cases hTable : info.fInTried with
      | true =>
          have hZero := (h.placed.tried_entry (summary_tables hEntry) hTable).2.2
          change info.nRefCount = 0 at hZero
          rw [hZero]
          decide
      | false => exact (h.placed.new_entry (summary_tables hEntry) hTable).2.2.2

/-- Under their numbers the loaded entries have the addresses of the written ones. -/
theorem mapAddr_of_loaded
    (h : Consistent prims attempted none man) {loaded : CAddrMan}
    (hLoaded : Loaded prims (slotsOf man.written) loaded) (addr : CNetAddr) (n : ℕ) :
    loaded.mapAddr.lookup addr = some n ↔
      ∃ nId, (man.written.map Prod.fst)[n]? = some nId ∧ man.mapAddr.lookup addr = some nId := by
  rw [hLoaded.address, getElem?_slotsOf, List.getElem?_map]
  cases hAt : man.written[n]? with
  | none => simp
  | some e =>
      obtain ⟨nId, info⟩ := e
      have hEntry := lookup_of_written h hAt
      simp only [Option.map_some, Option.some.injEq, exists_eq_left']
      rw [h.indexed.address]
      simp only [hEntry, Option.some.injEq, exists_eq_left']
      rfl

/-- The loaded tried buckets hold the numbers of what the written ones hold. -/
theorem mem_vvTried_of_loaded
    (h : Consistent prims attempted none man) {loaded : CAddrMan}
    (hLoaded : Loaded prims (slotsOf man.written) loaded) (hKey : loaded.nKey = man.nKey)
    (b : TriedBucket) (n : ℕ) :
    n ∈ loaded.vvTried b ↔
      ∃ nId, (man.written.map Prod.fst)[n]? = some nId ∧ nId ∈ man.vvTried b := by
  have hSlots : Loaded prims (slotsWith (fun _ => 0) man.written) loaded := hLoaded
  rw [hSlots.mem_vvTried, List.getElem?_map, hKey]
  constructor
  · rintro ⟨⟨nId, info⟩, hAt, hIs⟩
    exact ⟨nId, by rw [hAt]; rfl, (mem_vvTried h b nId).mpr ⟨info, lookup_of_written h hAt, hIs⟩⟩
  · rintro ⟨nId, hAt, hMem⟩
    obtain ⟨info, hEntry, hIs⟩ := (mem_vvTried h b nId).mp hMem
    obtain ⟨⟨nId', info'⟩, hAt', rfl⟩ := Option.map_eq_some_iff.mp hAt
    have hEntry' := lookup_of_written h hAt'
    rw [hEntry, Option.some.injEq] at hEntry'
    subst hEntry'
    exact ⟨_, hAt', hIs⟩

/-- A manager with the written entries under their numbers, and with the references to
them, is the manager that was written with its ids replaced. -/
theorem renumbered_of_loaded
    (h : Consistent prims attempted none man) {loaded man' : CAddrMan}
    (hLoaded : Loaded prims (slotsOf man.written) loaded) (hKey : loaded.nKey = man.nKey)
    (hEntries : ∀ n, man'.mapInfo.lookup n = (slotsOf man.written)[n]?.map fun info =>
      { info with nRefCount := man.references.countP (·.2 = n) })
    (hNew : ∀ b n, n ∈ man'.vvNew b ↔ (b, n) ∈ man.references)
    (hFrame : man' = { loaded with
      nKey := man.nKey
      nNew := man.nNew
      nTried := man.nTried
      nIdCount := man.written.length
      mapInfo := man'.mapInfo
      vvNew := man'.vvNew }) :
    Renumbered (man.written.map Prod.fst) man man' where
  nKey := by
    rw [hFrame]
  nNew := by
    rw [hFrame]
  nTried := by
    rw [hFrame]
  nIdCount := by
    rw [hFrame, List.length_map]
  nodup := nodup_written h
  known := by
    intro nId
    rw [List.mem_map]
    constructor
    · rintro ⟨⟨nId, info⟩, hMem, rfl⟩
      exact ⟨info, (mem_written h nId info).mp hMem⟩
    · rintro ⟨info, hEntry⟩
      exact ⟨(nId, info), (mem_written h nId info).mpr hEntry, rfl⟩
  entries := by
    intro n
    rw [hEntries, getElem?_slotsOf, List.getElem?_map]
    cases hAt : man.written[n]? with
    | none => rfl
    | some e =>
        obtain ⟨nId, info⟩ := e
        have hEntry := lookup_of_written h hAt
        simp only [Option.map_some, Option.bind_some, hEntry, count_references h hAt]
        rfl
  address := by
    intro addr n
    have hAddr : man'.mapAddr = loaded.mapAddr := by
      rw [hFrame]
    rw [hAddr]
    exact mapAddr_of_loaded h hLoaded addr n
  random := by
    rw [hFrame, List.length_map]
    dsimp only
    rw [hLoaded.random, length_slotsOf]
  tried_nodup := by
    intro b
    have hTried : man'.vvTried b = loaded.vvTried b := by
      rw [hFrame]
    rw [hTried]
    exact hLoaded.nodup_vvTried b
  tried := by
    intro b n
    have hTried : man'.vvTried b = loaded.vvTried b := by
      rw [hFrame]
    rw [hTried]
    exact mem_vvTried_of_loaded h hLoaded hKey b n
  new := by
    intro b n
    rw [hNew, mem_references h]

/-- The reader takes in the entries, whatever the number of new buckets is. -/
theorem unserialize_head
    (h : Consistent prims attempted none man) (hFits : FitsFile man) {nUBuckets : ℕ}
    (hBucketsFit : FitsInt 4 nUBuckets) (target : CAddrMan) (stream : List UInt8) :
    ∃ man₂,
      target.unserialize prims (man.headBytes nUBuckets ++ stream) =
        (List.range nUBuckets).foldlM (readBucket nUBuckets) (man₂, stream) ∧
      Loaded prims (slotsWith (countAtLoad nUBuckets) man.written) man₂ ∧
      man₂ = { target.cleared man.nKey man.nNew man.nTried with
        nIdCount := man.written.length
        mapInfo := man₂.mapInfo
        mapAddr := man₂.mapAddr
        vRandom := man₂.vRandom
        vvTried := man₂.vvTried
        vvNew := man₂.vvNew } ∧
      ∀ b n, n ∈ man₂.vvNew b ↔ (nUBuckets : ℤ) ≠ ADDRMAN_NEW_BUCKET_COUNT ∧
        ∃ e, man.newEntries[n]? = some e ∧ e.2.getNewBucket prims man.nKey e.2.source = b := by
  have hRead : ∀ e ∈ man.written, ReadsAs CAddrInfo.unserialize (e.2.serialize 0) e.2.stored :=
    fun e he => readsAs_addrInfo (hFits.nAttempts e.1 e.2 ((mem_written h e.1 e.2).mp he))
  have hNewRead : ∀ e ∈ man.newEntries,
      ReadsAs CAddrInfo.unserialize (e.2.serialize 0) e.2.stored :=
    fun e he => hRead e (List.mem_append_left _ he)
  have hTriedRead : ∀ e ∈ man.triedEntries,
      ReadsAs CAddrInfo.unserialize (e.2.serialize 0) e.2.stored :=
    fun e he => hRead e (List.mem_append_right _ he)
  obtain ⟨man₁, man₂, hFold₁, hFold₂, hLoaded, hFrame, hBuckets⟩ :=
    loaded_written h nUBuckets target
  refine ⟨man₂, ?_, hLoaded, hFrame, hBuckets⟩
  unfold unserialize headBytes
  have hVersion : ReadsAs (readUint 1) (toBytesLE 1 0) 0 := readsAs_readUint (by decide)
  rw [List.append_assoc, hVersion _, orThrow_some, ok_bind]
  dsimp only
  rw [unserializeBlocks_eq, List.append_assoc, readsAs_unserializeBytes hFits.nKey _,
    orThrow_some, ok_bind]
  dsimp only
  rw [List.append_assoc, readsAs_readInt (fitsInt_nNew h) _, orThrow_some, ok_bind]
  dsimp only
  rw [List.append_assoc, readsAs_readInt (fitsInt_nTried h) _, orThrow_some, ok_bind]
  dsimp only
  rw [List.append_assoc, readsAs_readInt hBucketsFit _, orThrow_some, ok_bind]
  dsimp only
  have hLoop₁ := readLoop_eq hNewRead (loadNew prims nUBuckets)
    (target.cleared man.nKey man.nNew man.nTried)
  have hLoop₂ := readLoop_eq hTriedRead (fun loading _ info => loadTried prims loading info)
    ({ man₁ with nIdCount := man.nNew.toNat }, 0)
  rw [length_newEntries h, hFold₁] at hLoop₁
  rw [length_triedEntries h, foldl_zipIdx (fun loading (e : ℕ × CAddrInfo) =>
    loadTried prims loading e.2.stored), hFold₂] at hLoop₂
  change (readLoop CAddrInfo.unserialize (loadNew prims nUBuckets) man.nNew
    (target.cleared man.nKey man.nNew man.nTried) _ >>= _) = _
  rw [List.append_assoc, hLoop₁, ok_bind]
  dsimp only
  rw [hLoop₂, ok_bind]
  dsimp only
  rw [Int.toNat_natCast, sub_zero]

/-- The reader delivers the manager under the numbers that the writer gave. -/
theorem unserialize_serialize
    (h : Consistent prims attempted none man) (hFits : FitsFile man) (target : CAddrMan)
    (rest : List UInt8) :
    ∃ man', target.unserialize prims (man.serialize ++ rest) = .ok (man', rest) ∧
      Renumbered (man.written.map Prod.fst) man man' := by
  have hBucketsFit : FitsInt 4 ADDRMAN_NEW_BUCKET_COUNT := by
    constructor <;> norm_num [ADDRMAN_NEW_BUCKET_COUNT]
  obtain ⟨man₂, hHead, hLoaded, hFrame₂, hBuckets⟩ := unserialize_head h hFits hBucketsFit target
    (((List.finRange ADDRMAN_NEW_BUCKET_COUNT).flatMap fun b =>
      writeBucket man.numbers (man.vvNew b)) ++ rest)
  rw [← slotsOf_eq_countAtLoad] at hLoaded
  have hZero : ∀ info ∈ slotsOf man.written, info.nRefCount = 0 := by
    intro info hMem
    obtain ⟨n, hAt⟩ := List.mem_iff_getElem?.mp hMem
    rw [getElem?_slotsOf, Option.map_eq_some_iff] at hAt
    obtain ⟨e, -, rfl⟩ := hAt
    rfl
  have hKnown : ∀ r ∈ man.references, r.2 < (slotsOf man.written).length := by
    rintro ⟨b, n⟩ hMem
    obtain ⟨nId, hAt, -⟩ := (mem_references h b n).mp hMem
    have hLt := (List.getElem?_eq_some_iff.mp hAt).1
    rwa [List.length_map, ← length_slotsOf] at hLt
  have hCount := references_le h
  obtain ⟨man₃, hFold₃, hEntries, hNew, hFrame₃⟩ := loaded_references hLoaded.entries hZero (by
    intro b
    rw [Finset.eq_empty_iff_forall_notMem]
    intro n hMem
    exact ((hBuckets b n).mp hMem).1 rfl) hKnown hCount
  have hKey : man₂.nKey = man.nKey := by
    rw [hFrame₂]
    rfl
  refine ⟨man₃, ?_, renumbered_of_loaded h hLoaded hKey hEntries hNew ?_⟩
  · rw [serialize_eq h, List.append_assoc, hHead, readBuckets_eq h, hFold₃]
  · rw [hFrame₃, hFrame₂]
    rfl

/-- The bytes of a consistent manager are read into any manager without an error.  What
comes out is consistent, passes the check, and says the same about every address. -/
theorem consistent_roundTrip
    (h : man.Consistent prims attempted none) (hFits : FitsFile man) (target : CAddrMan)
    (rest : List UInt8) :
    ∃ man', target.unserialize prims (man.serialize ++ rest) = .ok (man', rest) ∧
      man'.Consistent prims (· = 0) none ∧ man'.check_ = 0 ∧ SameAddresses man man' := by
  obtain ⟨man', hRead, hRenumbered⟩ := unserialize_serialize h hFits target rest
  have hConsistent := hRenumbered.consistent h
  refine ⟨man', hRead, hConsistent, ?_, hRenumbered.sameAddresses h.indexed⟩
  rw [check_eq hConsistent, if_neg]
  rintro ⟨e, hMem, hNegative⟩
  have hNever := (hConsistent.timed e.1 e.2 (Table.mem_inKeyOrder.mp hMem)).2.2
  rw [hNever] at hNegative
  exact Int64.lt_irrefl hNegative

end CAddrMan

namespace Sample

open CAddrMan

/-- The manager after the calls for one peer is read back into an empty one. -/
theorem peerCalls_roundTrip :
    ∃ man man', (CAddrMan.empty []).performAll prims peerCalls = .ok man ∧
      (CAddrMan.empty []).unserialize prims (man.serialize ++ [1]) = .ok (man', [1]) ∧
      man'.Consistent prims (· = 0) none ∧ man'.check_ = 0 ∧ SameAddresses man man' := by
  obtain ⟨man, hRun, hConsistent⟩ := performAll_spec
    (consistent_empty prims (fun _ => True) []) trivial
    (show ∀ call ∈ peerCalls, call.GoodPositive by simp [peerCalls, AddrManCall.GoodPositive])
    (fun _ _ => trivial) (by
      intro call hCall
      cases call <;> trivial)
  have hFits : ((CAddrMan.empty []).performAll prims peerCalls).toOption.map (fun man =>
      decide (man.nKey.length ≤ MAX_SIZE ∧
        ∀ e ∈ man.mapInfo.inKeyOrder, FitsInt 4 e.2.nAttempts)) = some true := by
    decide +kernel
  rw [hRun] at hFits
  have hBounds := of_decide_eq_true (Option.some.inj hFits)
  obtain ⟨man', hRead⟩ := consistent_roundTrip hConsistent
    ⟨hBounds.1, fun nId info hEntry => hBounds.2 (nId, info) (Table.mem_inKeyOrder.mpr hEntry)⟩
    (CAddrMan.empty []) [1]
  exact ⟨man, man', hRun, hRead⟩

/-- A tried entry. -/
def triedInfo : CAddrInfo :=
  { CAddrInfo.ofAddress (CAddress.ofService peerService) peerService.toCNetAddr with
    nLastSuccess := 1600000000
    fInTried := true
    nRandomPos := 0 }

/-- A manager with a tried entry in a bucket that is not its own. -/
def misplacedEntry : CAddrMan :=
  { CAddrMan.empty [] with
    nIdCount := 1
    mapInfo := AList.insert 0 triedInfo ∅
    mapAddr := AList.insert peerService.toCNetAddr 0 ∅
    vRandom := [0]
    nTried := 1
    vvTried := fun b =>
      if b.val = ((triedInfo.getTriedBucket prims []).val + 1) % 64 then [0] else [] }

/-- `Check_` accepts a tried entry in any bucket, and the reader moves it to its own. -/
theorem misplacedEntry_moves :
    misplacedEntry.check_ = 0 ∧ (∀ b, (misplacedEntry.vvTried b).length ≤ 64) ∧
      (∀ b, (misplacedEntry.vvNew b).card ≤ 64) ∧
      ∃ man', (CAddrMan.empty []).unserialize prims misplacedEntry.serialize = .ok (man', []) ∧
        ¬SameAddresses misplacedEntry man' := by
  have hRead : ((CAddrMan.empty []).unserialize prims misplacedEntry.serialize).toOption.map
      (fun r => (r.2, r.1.mapAddr.lookup peerService.toCNetAddr,
        r.1.vvTried (triedInfo.getTriedBucket prims []))) = some ([], some 0, [0]) := by
    decide +kernel
  refine ⟨by decide +kernel, ?_, ?_, ?_⟩
  · intro b
    unfold misplacedEntry
    dsimp only
    split_ifs <;> decide
  · intro b
    exact Nat.zero_le _
  · obtain ⟨⟨man', rest⟩, hSome, hParts⟩ := Option.map_eq_some_iff.mp hRead
    rw [Prod.mk.injEq, Prod.mk.injEq] at hParts
    obtain ⟨hRest, hAddr, hTried⟩ := hParts
    dsimp only at hRest hAddr hTried
    subst hRest
    refine ⟨man', ?_, ?_⟩
    · cases hResult : (CAddrMan.empty []).unserialize prims misplacedEntry.serialize with
      | error e =>
          rw [hResult] at hSome
          cases hSome
      | ok result =>
          rw [hResult] at hSome
          rw [Option.some.inj hSome]
    · intro hSame
      have hIn : man'.InTried peerService.toCNetAddr (triedInfo.getTriedBucket prims []) :=
        ⟨0, hAddr, by rw [hTried]; exact List.mem_singleton_self 0⟩
      obtain ⟨nId, -, hMem⟩ := (hSame.tried _ _).mp hIn
      have hEmpty : misplacedEntry.vvTried (triedInfo.getTriedBucket prims []) = [] := by
        decide +kernel
      rw [hEmpty] at hMem
      cases hMem

end Sample

end SocietyGold
