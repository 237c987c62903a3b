import SocietyGold.AddrManRoundTrip

/-!
# Files of builds with other numbers of new buckets

A build that has another number of new buckets writes the same file but for that number
and the lists of the buckets.  This build then skips the lists and puts every new entry
into the one bucket that it has here.
-/

namespace SocietyGold

open Support

namespace CAddrMan

variable {prims : Primitives} {attempted : Int64 → Prop} {man : CAddrMan} {nUBuckets : ℕ}

/-! ## References that are skipped -/

/-- For another number of new buckets a number of an entry that is known does nothing. -/
theorem loadReference_skipped
    (hOther : nUBuckets ≠ ADDRMAN_NEW_BUCKET_COUNT) (b : NewBucket) {nIndex : ℕ}
    (hKnown : nIndex ∈ man.mapInfo) : loadReference nUBuckets b man nIndex = man := by
  have hNot : decide ((nUBuckets : ℤ) = ADDRMAN_NEW_BUCKET_COUNT) = false := by
    rw [decide_eq_false_iff_not]
    exact_mod_cast hOther
  unfold loadReference created
  dsimp only
  rw [hNot, Bool.false_and, Table.touch, if_pos hKnown]
  rfl

/-- The lists of the buckets are read, and the manager stays as it is. -/
theorem readBuckets_skipped
    (h : Consistent prims attempted none man) (hLe : nUBuckets ≤ ADDRMAN_NEW_BUCKET_COUNT)
    (hOther : nUBuckets ≠ ADDRMAN_NEW_BUCKET_COUNT) {loaded : CAddrMan}
    (hKnown : ∀ b, ∀ nId ∈ man.vvNew b, man.numberOf nId ∈ loaded.mapInfo) (rest : List UInt8) :
    (List.range nUBuckets).foldlM (readBucket nUBuckets)
        (loaded, ((List.finRange nUBuckets).flatMap fun b =>
          writeBucket man.numbers (man.vvNew (Fin.castLE hLe b))) ++ rest) =
      .ok (loaded, rest) := by
  rw [← List.map_coe_finRange_eq_range, List.foldlM_map]
  generalize List.finRange nUBuckets = buckets
  induction buckets with
  | nil => rfl
  | cons b buckets ih =>
      have hBucket := readBucket_eq h nUBuckets (Fin.castLE hLe b) loaded
        (buckets.flatMap (fun b => writeBucket man.numbers (man.vvNew (Fin.castLE hLe b))) ++ rest)
      have hSkip : ((man.vvNew (Fin.castLE hLe b)).sort (· ≤ ·)).foldl (fun loading nId =>
          loadReference nUBuckets (Fin.castLE hLe b) loading (man.numberOf nId)) loaded =
          loaded := by
        apply List.foldlRecOn (motive := fun loading => loading = loaded) _ _ rfl
        rintro _ rfl nId hMem
        rw [Finset.mem_sort] at hMem
        exact loadReference_skipped hOther _ (hKnown _ nId hMem)
      rw [hSkip] at hBucket
      rw [List.flatMap_cons, List.append_assoc, List.foldlM_cons]
      change (readBucket nUBuckets _ (Fin.castLE hLe b).val >>= _) = _
      rw [hBucket, ok_bind]
      exact ih

/-! ## Entries in the buckets that they have here -/

variable {count : CAddrInfo → ℤ} {entries : List (ℕ × CAddrInfo)}

theorem Loaded.lookup
    (hLoaded : Loaded prims (slotsWith count entries) man) (n : ℕ) :
    man.mapInfo.lookup n = entries[n]?.map fun e => slotWith count n e.2 := by
  rw [hLoaded.entries, getElem?_slotsWith]

theorem Loaded.indexed
    (hLoaded : Loaded prims (slotsWith count entries) man)
    (hCount : man.nIdCount = entries.length) : man.Indexed where
  nodup := by
    rw [hLoaded.random]
    exact List.nodup_range
  known := by
    intro n hMem
    rw [hLoaded.random, List.mem_range, length_slotsWith] at hMem
    exact ⟨_, by rw [hLoaded.lookup, List.getElem?_eq_getElem hMem, Option.map_some]⟩
  position := by
    intro n info hEntry
    rw [hLoaded.lookup, Option.map_eq_some_iff] at hEntry
    obtain ⟨e, hAt, rfl⟩ := hEntry
    have hLt := (List.getElem?_eq_some_iff.mp hAt).1
    refine ⟨n, rfl, ?_⟩
    rw [hLoaded.random, length_slotsWith, List.getElem?_range hLt]
  address := by
    intro addr n
    rw [hLoaded.address, hLoaded.entries]
  fresh := by
    intro n info hEntry
    rw [hLoaded.lookup, Option.map_eq_some_iff] at hEntry
    obtain ⟨e, hAt, -⟩ := hEntry
    rw [hCount]
    exact (List.getElem?_eq_some_iff.mp hAt).1

/-- The new entries come first. -/
theorem getElem?_newEntries
    (h : Consistent prims attempted none man) {n : ℕ} {e : ℕ × CAddrInfo} :
    man.newEntries[n]? = some e ↔ man.written[n]? = some e ∧ e.2.fInTried = false := by
  constructor
  · intro hAt
    have hLt := (List.getElem?_eq_some_iff.mp hAt).1
    rw [written, List.getElem?_append_left hLt]
    exact ⟨hAt, fInTried_of_mem_newEntries h (List.mem_of_getElem? hAt)⟩
  · rintro ⟨hAt, hNew⟩
    rcases Nat.lt_or_ge n man.newEntries.length with hLt | hGe
    · rwa [written, List.getElem?_append_left hLt] at hAt
    · rw [written, List.getElem?_append_right hGe] at hAt
      have hTried := (List.mem_filter.mp (List.mem_of_getElem? hAt)).2
      unfold isTriedEntry at hTried
      rw [hNew] at hTried
      cases hTried

/-- The new entries whose bucket here is `b`. -/
def inNewBucket (prims : Primitives) (man : CAddrMan) (b : NewBucket) (e : ℕ × CAddrInfo) :
    Bool :=
  e.2.getNewBucket prims man.nKey e.2.source = b

/-- What the reader has when it has put every new entry into the bucket that it has here. -/
structure Rebucketed (prims : Primitives) (nUBuckets : ℕ) (man loaded : CAddrMan) : Prop where
  entries : Loaded prims (slotsWith (countAtLoad nUBuckets) man.written) loaded
  nKey : loaded.nKey = man.nKey
  nIdCount : loaded.nIdCount = man.written.length
  nTried : loaded.nTried = man.nTried
  nNew : loaded.nNew = man.nNew
  new : ∀ b n, n ∈ loaded.vvNew b ↔
    ∃ e, man.newEntries[n]? = some e ∧ man.inNewBucket prims b e = true

namespace Rebucketed

variable {loaded : CAddrMan}

theorem card_vvNew (hReb : Rebucketed prims nUBuckets man loaded) (b : NewBucket) :
    (loaded.vvNew b).card = man.newEntries.countP (man.inNewBucket prims b) :=
  card_positions (hReb.new b)

/-- An entry is in the one bucket of its table that it has here. -/
theorem placedAs
    (hReb : Rebucketed prims nUBuckets man loaded) (h : Consistent prims attempted none man)
    (hOther : nUBuckets ≠ ADDRMAN_NEW_BUCKET_COUNT) (n : ℕ) :
    AddrTables.PlacedAs (CAddrInfo.triedBucket prims man.nKey) 0 (holders loaded.vvNew n)
      (loaded.tables.listed n) (loaded.tables.summary n) := by
  have hSummary : loaded.tables.summary n = man.written[n]?.map fun e =>
      (slotWith (countAtLoad nUBuckets) n e.2).summary := by
    change (loaded.mapInfo.lookup n).map CAddrInfo.summary = _
    rw [hReb.entries.lookup, Option.map_map]
    rfl
  have hListed : ∀ b, b ∈ loaded.tables.listed n ↔ ∃ e, man.written[n]? = some e ∧
      e.2.fInTried = true ∧ e.2.getTriedBucket prims man.nKey = b := by
    intro b
    rw [AddrTables.mem_listed, ← hReb.nKey]
    exact hReb.entries.mem_vvTried b n
  have hHeld : ∀ b, b ∈ holders loaded.vvNew n ↔ ∃ e, (man.written[n]? = some e ∧
      e.2.fInTried = false) ∧ e.2.getNewBucket prims man.nKey e.2.source = b := by
    intro b
    simp only [mem_holders, hReb.new, getElem?_newEntries h, inNewBucket, decide_eq_true_iff]
  generalize loaded.tables.listed n = listed at hListed ⊢
  generalize holders loaded.vvNew n = held at hHeld ⊢
  rw [hSummary]
  cases hAt : man.written[n]? with
  | none =>
      simp only [hAt, reduceCtorEq, false_and, exists_false, iff_false] at hListed hHeld
      rw [Finset.eq_empty_of_forall_notMem hListed, Finset.eq_empty_of_forall_notMem hHeld]
      exact AddrTables.PlacedAs.absent
  | some e =>
      simp only [hAt, Option.some.injEq, and_assoc, exists_eq_left'] at hListed hHeld
      cases hTable : e.2.fInTried with
      | false =>
          simp only [hTable, Bool.false_eq_true, false_and, iff_false, true_and] at hListed hHeld
          have hOne : held = {e.2.getNewBucket prims man.nKey e.2.source} := by
            ext b
            rw [hHeld, Finset.mem_singleton, eq_comm]
          have hCount : countAtLoad nUBuckets e.2 = 1 := by
            have hNot : ¬(nUBuckets : ℤ) = ADDRMAN_NEW_BUCKET_COUNT := by
              exact_mod_cast hOther
            simp [countAtLoad, hNot, hTable]
          rw [Finset.eq_empty_of_forall_notMem hListed, hOne]
          refine AddrTables.PlacedAs.new hTable ?_ hCount.ge (hCount.trans_le (by decide))
          rw [Finset.card_singleton, add_zero]
          exact hCount
      | true =>
          simp only [hTable, reduceCtorEq, false_and, iff_false, true_and] at hListed hHeld
          generalize hSlot : (slotWith (countAtLoad nUBuckets) n e.2).summary = s
          have hService : s.service = e.2.toCService := by
            rw [← hSlot]
            rfl
          have hOne : listed = {CAddrInfo.triedBucket prims man.nKey s.service} := by
            ext b
            rw [hListed, Finset.mem_singleton, eq_comm, hService, CAddrInfo.getTriedBucket]
          have hCount : countAtLoad nUBuckets e.2 = 0 := by
            simp [countAtLoad, hTable]
          rw [Finset.eq_empty_of_forall_notMem hHeld, hOne, Option.map_some, hSlot]
          subst hSlot
          exact AddrTables.PlacedAs.tried hTable hCount

/-- The result is consistent if no bucket gets too many of the entries. -/
theorem consistent
    (hReb : Rebucketed prims nUBuckets man loaded) (h : Consistent prims attempted none man)
    (hOther : nUBuckets ≠ ADDRMAN_NEW_BUCKET_COUNT)
    (hRoom : ∀ b, man.newEntries.countP (man.inNewBucket prims b) ≤ ADDRMAN_NEW_BUCKET_SIZE) :
    loaded.Consistent prims (· = 0) none where
  indexed := hReb.entries.indexed hReb.nIdCount
  placed :=
    { entry := by
        intro n
        rw [if_neg (by simp), hReb.nKey]
        exact hReb.placedAs h hOther n
      tried_nodup := hReb.entries.nodup_vvTried
      tried_size := by
        intro b
        change (loaded.vvTried b).length ≤ _
        rw [hReb.entries.length_vvTried, hReb.nKey, countP_tried h]
        exact h.placed.tried_size b
      new_size := fun b => (hReb.card_vvNew b).trans_le (hRoom b) }
  tallied := by
    constructor
    · rw [hReb.nTried, h.tallied.tried]
      refine Finset.sum_congr rfl fun b _ => ?_
      rw [hReb.entries.length_vvTried, hReb.nKey, countP_tried h]
    · have hNew := length_newEntries h
      have hTried := length_triedEntries h
      rw [hReb.entries.random, List.length_range, length_slotsWith, hReb.nTried, hReb.nNew,
        written, List.length_append]
      omega
  timed := by
    intro n info hEntry
    rw [hReb.entries.lookup, Option.map_eq_some_iff] at hEntry
    obtain ⟨e, hAt, rfl⟩ := hEntry
    have hOld := lookup_of_written h hAt
    obtain ⟨hSuccess, hTried, -⟩ := h.timed e.1 e.2 hOld
    exact ⟨hSuccess, hTried, rfl⟩

end Rebucketed

end CAddrMan

/-! ## The other build -/

/-- A manager of a build that differs in the number of new buckets only. -/
structure ForeignAddrMan (nUBuckets : ℕ) where
  nKey : List UInt8
  nIdCount : ℕ
  mapInfo : Table ℕ CAddrInfo
  mapAddr : Table CNetAddr ℕ
  vRandom : List ℕ
  nTried : ℤ
  vvTried : TriedBucket → List ℕ
  nNew : ℤ
  vvNew : Fin nUBuckets → Finset ℕ

namespace ForeignAddrMan

variable {nUBuckets : ℕ} {prims : Primitives} {attempted : Int64 → Prop}

def serialize (f : ForeignAddrMan nUBuckets) : List UInt8 :=
  let (newBytes, mapUnkIds) := CAddrMan.writeNew f.nNew f.mapInfo.inKeyOrder 0 ∅
  toBytesLE 1 0 ++ serializeBytes f.nKey ++ intToBytesLE 4 f.nNew ++
    intToBytesLE 4 f.nTried ++ intToBytesLE 4 nUBuckets ++ newBytes ++
    CAddrMan.writeTried f.nTried f.mapInfo.inKeyOrder 0 ++
    (List.finRange nUBuckets).flatMap fun b => CAddrMan.writeBucket mapUnkIds (f.vvNew b)

/-- The manager in this build, with the buckets that both builds have. -/
def toLocal (f : ForeignAddrMan nUBuckets) : CAddrMan where
  nKey := f.nKey
  nIdCount := f.nIdCount
  mapInfo := f.mapInfo
  mapAddr := f.mapAddr
  vRandom := f.vRandom
  nTried := f.nTried
  vvTried := f.vvTried
  nNew := f.nNew
  vvNew := resized f.vvNew

/-- The representation invariant for the other number of buckets.  What does not depend on
that number is the invariant of this build. -/
structure Consistent (prims : Primitives) (attempted : Int64 → Prop)
    (f : ForeignAddrMan nUBuckets) : Prop where
  indexed : f.toLocal.Indexed
  tallied : f.toLocal.Tallied
  timed : f.toLocal.Timed attempted
  absent : ∀ nId, f.mapInfo.lookup nId = none →
    (∀ b, nId ∉ f.vvNew b) ∧ ∀ b, nId ∉ f.vvTried b
  new : ∀ nId info, f.mapInfo.lookup nId = some info → info.fInTried = false →
    (∀ b, nId ∉ f.vvTried b) ∧ info.nRefCount = (holders f.vvNew nId).card ∧
      1 ≤ info.nRefCount ∧ info.nRefCount ≤ ADDRMAN_NEW_BUCKETS_PER_ADDRESS
  tried : ∀ nId info, f.mapInfo.lookup nId = some info → info.fInTried = true →
    (∀ b, nId ∉ f.vvNew b) ∧ info.nRefCount = 0 ∧
      ∀ b, nId ∈ f.vvTried b ↔ b = info.getTriedBucket prims f.nKey
  tried_nodup : ∀ b, (f.vvTried b).Nodup
  tried_size : ∀ b, (f.vvTried b).length ≤ ADDRMAN_TRIED_BUCKET_SIZE
  new_size : ∀ b, (f.vvNew b).card ≤ ADDRMAN_NEW_BUCKET_SIZE

/-- Bounds that the types of the source give. -/
structure FitsFile (f : ForeignAddrMan nUBuckets) : Prop where
  nUBuckets : FitsInt 4 nUBuckets
  nKey : f.nKey.length ≤ MAX_SIZE
  nAttempts : ∀ nId info, f.mapInfo.lookup nId = some info → FitsInt 4 info.nAttempts

variable {f : ForeignAddrMan nUBuckets}

/-! ## Fewer buckets -/

theorem listed_eq_empty {nId : ℕ} (h : ∀ b, nId ∉ f.vvTried b) :
    f.toLocal.tables.listed nId = ∅ := by
  ext b
  simp [CAddrMan.tables, toLocal, h b]

theorem holders_eq_empty {nId : ℕ} (h : ∀ b, nId ∉ f.vvNew b) :
    holders f.toLocal.vvNew nId = ∅ := by
  apply Support.holders_eq_empty
  intro b hMem
  obtain ⟨hLt, hHeld⟩ := mem_resized.mp hMem
  exact h _ hHeld

/-- With no more buckets than here, the manager is one of this build. -/
theorem Consistent.toLocal
    (h : f.Consistent prims attempted) (hLe : nUBuckets ≤ ADDRMAN_NEW_BUCKET_COUNT) :
    f.toLocal.Consistent prims attempted none where
  indexed := h.indexed
  tallied := h.tallied
  timed := h.timed
  placed :=
    { entry := by
        intro nId
        have hSummary : f.toLocal.tables.summary nId =
            (f.mapInfo.lookup nId).map CAddrInfo.summary := rfl
        change AddrTables.PlacedAs _ _ (holders f.toLocal.vvNew nId) _ _
        rw [hSummary, if_neg (by simp)]
        cases hEntry : f.mapInfo.lookup nId with
        | none =>
            obtain ⟨hNew, hTried⟩ := h.absent nId hEntry
            rw [listed_eq_empty hTried, holders_eq_empty hNew]
            exact AddrTables.PlacedAs.absent
        | some info =>
            cases hTable : info.fInTried with
            | false =>
                obtain ⟨hTried, hCount, hLower, hUpper⟩ := h.new nId info hEntry hTable
                rw [listed_eq_empty hTried]
                refine AddrTables.PlacedAs.new hTable ?_ hLower hUpper
                rw [add_zero]
                exact hCount.trans (by rw [← card_holders_resized hLe]; rfl)
            | true =>
                obtain ⟨hNew, hCount, hTried⟩ := h.tried nId info hEntry hTable
                have hListed : f.toLocal.tables.listed nId =
                    {CAddrInfo.triedBucket prims f.nKey info.summary.service} := by
                  ext b
                  rw [AddrTables.mem_listed, Finset.mem_singleton]
                  exact hTried b
                rw [hListed, holders_eq_empty hNew]
                exact AddrTables.PlacedAs.tried hTable hCount
      tried_nodup := h.tried_nodup
      tried_size := h.tried_size
      new_size := by
        intro b
        change (resized f.vvNew b).card ≤ _
        unfold resized
        split_ifs
        · exact h.new_size _
        · exact Nat.zero_le _ }

theorem serialize_eq
    (h : f.toLocal.Consistent prims attempted none)
    (hLe : nUBuckets ≤ ADDRMAN_NEW_BUCKET_COUNT) :
    f.serialize = f.toLocal.headBytes nUBuckets ++ (List.finRange nUBuckets).flatMap fun b =>
      CAddrMan.writeBucket f.toLocal.numbers (f.toLocal.vvNew (Fin.castLE hLe b)) := by
  have hBuckets : ∀ b, f.toLocal.vvNew (Fin.castLE hLe b) = f.vvNew b :=
    resized_castLE hLe f.vvNew
  simp only [hBuckets]
  rw [← CAddrMan.headBytes_eq h]
  rfl

theorem toLocal_fits (hFits : f.FitsFile) : f.toLocal.FitsFile :=
  ⟨hFits.nKey, hFits.nAttempts⟩

/-- With fewer buckets the file is read, and every new entry is in the bucket it has here. -/
theorem unserialize_rebucketed
    (h : f.toLocal.Consistent prims attempted none) (hFits : f.FitsFile)
    (hLe : nUBuckets ≤ ADDRMAN_NEW_BUCKET_COUNT) (hOther : nUBuckets ≠ ADDRMAN_NEW_BUCKET_COUNT)
    (target : CAddrMan) (rest : List UInt8) :
    ∃ loaded, target.unserialize prims (f.serialize ++ rest) = .ok (loaded, rest) ∧
      CAddrMan.Rebucketed prims nUBuckets f.toLocal loaded := by
  obtain ⟨loaded, hHead, hLoaded, hFrame, hBuckets⟩ :=
    CAddrMan.unserialize_head h (toLocal_fits hFits) hFits.nUBuckets target
      (((List.finRange nUBuckets).flatMap fun b =>
        CAddrMan.writeBucket f.toLocal.numbers (f.toLocal.vvNew (Fin.castLE hLe b))) ++ rest)
  have hKnown : ∀ b, ∀ nId ∈ f.toLocal.vvNew b,
      f.toLocal.numberOf nId ∈ loaded.mapInfo := by
    intro b nId hMem
    obtain ⟨-, -, info, hAt⟩ := CAddrMan.number_of_mem h hMem
    rw [Table.mem_iff_lookup, hLoaded.lookup, hAt]
    exact ⟨_, rfl⟩
  refine ⟨loaded, ?_, hLoaded, ?_, ?_, ?_, ?_, ?_⟩
  · rw [serialize_eq h hLe, List.append_assoc, hHead,
      CAddrMan.readBuckets_skipped h hLe hOther hKnown]
  · rw [hFrame]
    rfl
  · rw [hFrame]
  · rw [hFrame]
    rfl
  · rw [hFrame]
    rfl
  · intro b n
    have hNot : (nUBuckets : ℤ) ≠ ADDRMAN_NEW_BUCKET_COUNT := by
      exact_mod_cast hOther
    simp only [hBuckets, hNot, ne_eq, not_false_eq_true, true_and, CAddrMan.inNewBucket,
      decide_eq_true_iff]

/-! ## More buckets -/

/-- The loop over more buckets than there are runs out of range. -/
theorem readBuckets_ne_ok
    (hMore : ADDRMAN_NEW_BUCKET_COUNT < nUBuckets) (loading : CAddrMan × List UInt8)
    (result : CAddrMan × List UInt8) :
    (List.range nUBuckets).foldlM (CAddrMan.readBucket nUBuckets) loading ≠ .ok result := by
  obtain ⟨later, rfl⟩ := Nat.exists_eq_add_of_lt hMore
  intro hRun
  have hRange : List.range (ADDRMAN_NEW_BUCKET_COUNT + later + 1) =
      List.range ADDRMAN_NEW_BUCKET_COUNT ++
        (List.range (later + 1)).map (ADDRMAN_NEW_BUCKET_COUNT + ·) := by
    rw [Nat.add_assoc, List.range_add]
  rw [hRange, List.foldlM_append, List.range_succ_eq_map] at hRun
  obtain ⟨⟨loaded, stream⟩, -, hRest⟩ := bind_eq_ok.mp hRun
  rw [List.map_cons, List.foldlM_cons] at hRest
  obtain ⟨after, hBucket, -⟩ := bind_eq_ok.mp hRest
  unfold CAddrMan.readBucket at hBucket
  dsimp only at hBucket
  rw [dif_neg (by omega)] at hBucket
  cases hBucket

/-- The file of a build with more new buckets is never read. -/
theorem unserialize_ne_ok
    (hFits : f.FitsFile) (hMore : ADDRMAN_NEW_BUCKET_COUNT < nUBuckets) (target : CAddrMan)
    (rest : List UInt8) (result : CAddrMan × List UInt8) :
    target.unserialize prims (f.serialize ++ rest) ≠ .ok result := by
  intro hRun
  unfold serialize CAddrMan.unserialize at hRun
  have hVersion : ReadsAs (readUint 1) (toBytesLE 1 0) 0 := readsAs_readUint (by decide)
  simp only [List.append_assoc] at hRun
  rw [hVersion _, orThrow_some, ok_bind] at hRun
  dsimp only at hRun
  rw [unserializeBlocks_eq, readsAs_unserializeBytes hFits.nKey _, orThrow_some, ok_bind] at hRun
  dsimp only at hRun
  rw [readsAs_readInt_bmod 4 f.nNew _, orThrow_some, ok_bind] at hRun
  dsimp only at hRun
  rw [readsAs_readInt_bmod 4 f.nTried _, orThrow_some, ok_bind] at hRun
  dsimp only at hRun
  rw [readsAs_readInt hFits.nUBuckets _, orThrow_some, ok_bind] at hRun
  obtain ⟨⟨man₁, stream₁⟩, -, hRun⟩ := bind_eq_ok.mp hRun
  obtain ⟨⟨⟨man₂, nLost⟩, stream₂⟩, -, hRun⟩ := bind_eq_ok.mp hRun
  exact readBuckets_ne_ok hMore _ _ hRun

/-- The file of another build is read into a consistent manager exactly when that build
has no more new buckets than this one, and either as many or so that every new bucket has
room for the entries that have it here. -/
theorem reloads_iff
    (h : f.Consistent prims attempted) (hFits : f.FitsFile) (target : CAddrMan)
    (rest : List UInt8) :
    (∃ man', target.unserialize prims (f.serialize ++ rest) = .ok (man', rest) ∧
      man'.Consistent prims (· = 0) none ∧
      (∀ b, (man'.vvTried b).length ≤ ADDRMAN_TRIED_BUCKET_SIZE) ∧
      ∀ b, (man'.vvNew b).card ≤ ADDRMAN_NEW_BUCKET_SIZE) ↔
    nUBuckets = ADDRMAN_NEW_BUCKET_COUNT ∨
      nUBuckets < ADDRMAN_NEW_BUCKET_COUNT ∧ ∀ b,
        f.toLocal.newEntries.countP (f.toLocal.inNewBucket prims b) ≤ ADDRMAN_NEW_BUCKET_SIZE := by
  rcases lt_trichotomy nUBuckets ADDRMAN_NEW_BUCKET_COUNT with hFewer | rfl | hMore
  · have hLocal := h.toLocal hFewer.le
    obtain ⟨loaded, hRead, hReb⟩ :=
      unserialize_rebucketed hLocal hFits hFewer.le hFewer.ne target rest
    rw [or_iff_right hFewer.ne, and_iff_right hFewer]
    constructor
    · rintro ⟨man', hRead', -, -, hSize⟩ b
      rw [hRead, Except.ok.injEq, Prod.mk.injEq] at hRead'
      rw [← hReb.card_vvNew, hRead'.1]
      exact hSize b
    · intro hRoom
      have hConsistent := hReb.consistent hLocal hFewer.ne hRoom
      exact ⟨loaded, hRead, hConsistent, hConsistent.placed.tried_size,
        hConsistent.placed.new_size⟩
  · have hLocal := h.toLocal le_rfl
    have hBytes : f.serialize = f.toLocal.serialize := by
      rw [serialize_eq hLocal le_rfl, CAddrMan.serialize_eq hLocal]
      rfl
    obtain ⟨man', hRead, hRenumbered⟩ :=
      CAddrMan.unserialize_serialize hLocal (toLocal_fits hFits) target rest
    have hConsistent := hRenumbered.consistent hLocal
    rw [hBytes]
    exact iff_of_true ⟨man', hRead, hConsistent, hConsistent.placed.tried_size,
      hConsistent.placed.new_size⟩ (Or.inl rfl)
  · apply iff_of_false
    · rintro ⟨man', hRead, -⟩
      exact unserialize_ne_ok hFits hMore target rest (man', rest) hRead
    · rintro (hSame | ⟨hFewer, -⟩) <;> omega

end ForeignAddrMan

namespace Sample

/-- An entry that one new bucket refers to. -/
def newPeerInfo : CAddrInfo :=
  { CAddrInfo.ofAddress (CAddress.ofService peerService) peerService.toCNetAddr with
    nRefCount := 1
    nRandomPos := 0 }

/-- The manager of a build with one new bucket, which holds the only entry. -/
def oneBucket : ForeignAddrMan 1 where
  nKey := []
  nIdCount := 1
  mapInfo := AList.insert 0 newPeerInfo ∅
  mapAddr := AList.insert peerService.toCNetAddr 0 ∅
  vRandom := [0]
  nTried := 0
  vvTried := fun _ => []
  nNew := 1
  vvNew := fun _ => {0}

theorem lookup_oneBucket (nId : ℕ) :
    oneBucket.mapInfo.lookup nId = if nId = 0 then some newPeerInfo else none := by
  rw [oneBucket, Table.lookup_insert_ite]
  rfl

theorem entry_oneBucket
    {nId : ℕ} {info : CAddrInfo} (h : oneBucket.mapInfo.lookup nId = some info) :
    nId = 0 ∧ info = newPeerInfo := by
  rw [lookup_oneBucket] at h
  split_ifs at h with hId
  exact ⟨hId, (Option.some.inj h).symm⟩

theorem oneBucket_indexed : oneBucket.toLocal.Indexed where
  nodup := List.nodup_singleton 0
  known := by
    intro nId hMem
    rw [List.mem_singleton.mp hMem]
    exact ⟨newPeerInfo, lookup_oneBucket 0⟩
  position := by
    intro nId info h
    obtain ⟨rfl, rfl⟩ := entry_oneBucket h
    exact ⟨0, rfl, rfl⟩
  address := by
    intro addr nId
    have hAddr : oneBucket.mapAddr.lookup addr =
        if addr = peerService.toCNetAddr then some 0 else none := by
      rw [oneBucket, Table.lookup_insert_ite]
      rfl
    change oneBucket.mapAddr.lookup addr = _ ↔
      ∃ info, oneBucket.mapInfo.lookup nId = some info ∧ info.toCNetAddr = addr
    rw [hAddr]
    constructor
    · intro h
      split_ifs at h with hSame
      obtain rfl := Option.some.inj h
      exact ⟨newPeerInfo, lookup_oneBucket 0, hSame.symm⟩
    · rintro ⟨info, h, rfl⟩
      obtain ⟨rfl, rfl⟩ := entry_oneBucket h
      exact if_pos rfl
  fresh := by
    intro nId info h
    rw [(entry_oneBucket h).1]
    exact Nat.zero_lt_one

theorem oneBucket_consistent : oneBucket.Consistent prims (· = 0) where
  indexed := oneBucket_indexed
  tallied := ⟨by decide, rfl⟩
  timed := by
    intro nId info h
    rw [(entry_oneBucket h).2]
    exact ⟨by decide, by decide, rfl⟩
  absent := by
    intro nId h
    refine ⟨fun b hMem => ?_, fun _ => List.not_mem_nil⟩
    rw [Finset.mem_singleton.mp hMem, lookup_oneBucket, if_pos rfl] at h
    cases h
  new := by
    intro nId info h _
    have hHeld : holders oneBucket.vvNew 0 = {0} := by
      decide
    obtain ⟨rfl, rfl⟩ := entry_oneBucket h
    rw [hHeld]
    exact ⟨fun _ => List.not_mem_nil, by decide, by decide, by decide⟩
  tried := by
    intro nId info h hTried
    rw [(entry_oneBucket h).2] at hTried
    cases hTried
  tried_nodup := fun _ => List.nodup_nil
  tried_size := fun _ => Nat.zero_le _
  new_size := fun _ => Nat.one_le_ofNat

theorem oneBucket_fits : oneBucket.FitsFile where
  nUBuckets := by
    decide
  nKey := Nat.zero_le _
  nAttempts := by
    intro nId info h
    rw [(entry_oneBucket h).2]
    decide

/-- The only entry has room in its new bucket here. -/
theorem oneBucket_reloads :
    oneBucket.Consistent prims (· = 0) ∧ oneBucket.FitsFile ∧
    ∃ man', (CAddrMan.empty []).unserialize prims (oneBucket.serialize ++ [1]) =
        .ok (man', [1]) ∧
      man'.Consistent prims (· = 0) none ∧
      (∀ b, (man'.vvTried b).length ≤ ADDRMAN_TRIED_BUCKET_SIZE) ∧
      ∀ b, (man'.vvNew b).card ≤ ADDRMAN_NEW_BUCKET_SIZE := by
  refine ⟨oneBucket_consistent, oneBucket_fits, ?_⟩
  apply (ForeignAddrMan.reloads_iff oneBucket_consistent oneBucket_fits (CAddrMan.empty [])
    [1]).mpr
  refine Or.inr ⟨by decide, fun b => ?_⟩
  refine List.countP_le_length.trans ?_
  decide +kernel

/-- The empty manager of a build with one new bucket more than there are here. -/
def moreBuckets : ForeignAddrMan 257 where
  nKey := []
  nIdCount := 0
  mapInfo := ∅
  mapAddr := ∅
  vRandom := []
  nTried := 0
  vvTried := fun _ => []
  nNew := 0
  vvNew := fun _ => ∅

/-- Its file is read until the loop over the buckets is out of range. -/
theorem moreBuckets_outOfRange :
    moreBuckets.Consistent prims (· = 0) ∧ moreBuckets.FitsFile ∧
      (CAddrMan.empty []).unserialize prims moreBuckets.serialize = .error .outOfRange := by
  have hLocal : moreBuckets.toLocal = CAddrMan.empty [] := by
    have hBuckets : (resized moreBuckets.vvNew : NewBucket → Finset ℕ) = fun _ => ∅ := by
      funext b
      unfold resized
      split_ifs <;> rfl
    unfold ForeignAddrMan.toLocal
    rw [hBuckets]
    rfl
  have hEmpty := CAddrMan.consistent_empty prims (· = 0) []
  rw [← hLocal] at hEmpty
  refine ⟨?_, ?_, eq_error_of_test (by decide +kernel)⟩
  · exact
      { indexed := hEmpty.indexed
        tallied := hEmpty.tallied
        timed := hEmpty.timed
        absent := fun nId _ => ⟨fun b => Finset.notMem_empty nId, fun b => List.not_mem_nil⟩
        new := fun nId info h => nomatch h
        tried := fun nId info h => nomatch h
        tried_nodup := fun _ => List.nodup_nil
        tried_size := fun _ => Nat.zero_le _
        new_size := fun _ => Nat.zero_le _ }
  · exact ⟨by decide, Nat.zero_le _, fun nId info h => nomatch h⟩

end Sample

end SocietyGold
