import SocietyGold.AddrManPromotion
import SocietyGold.Support.Trace

/-!
# Runs of the address manager

From the empty manager every sequence of operations passes all assertions and leaves the
manager consistent, whatever the random draws deliver.  `Check_` then finds nothing,
except that a time of an attempt may be negative.
-/

namespace SocietyGold

open Support

namespace CAddrMan

variable {prims : Primitives} {attempted : Int64 → Prop} {man : CAddrMan} {nId : ℕ}
  {info : CAddrInfo}

/-- The empty manager is consistent. -/
theorem consistent_empty
    (prims : Primitives) (attempted : Int64 → Prop) (nKey : List UInt8) :
    Consistent prims attempted none (empty nKey) where
  indexed :=
    { nodup := List.nodup_nil
      known := by simp [empty]
      position := by simp [empty]
      address := by simp [empty]
      fresh := by simp [empty] }
  placed :=
    { entry := by
        intro nId
        have hHeld : holders (empty nKey).tables.new nId = ∅ :=
          holders_eq_empty fun b => by simp [tables, empty]
        have hListed : (empty nKey).tables.listed nId = ∅ := by
          ext b
          simp [tables, empty]
        rw [hHeld, hListed]
        exact AddrTables.PlacedAs.absent
      tried_nodup := fun b => List.nodup_nil
      tried_size := fun b => Nat.zero_le _
      new_size := fun b => Nat.zero_le _ }
  tallied := ⟨by simp [empty], by simp [empty]⟩
  timed := by simp [Timed, empty]

/-! ## Good_ -/

theorem good_spec
    (h : Consistent prims attempted none man) (rand : ℕ → ℕ) (addr : CService) {nTime : Int64}
    (hTime : 0 < nTime) (hAttempted : attempted nTime) :
    ∃ man', man.good_ prims rand addr nTime = .ok man' ∧ Consistent prims attempted none man' ∧
      man'.nKey = man.nKey := by
  unfold good_
  cases hFind : man.find addr.toCNetAddr with
  | none => exact ⟨man, rfl, h, rfl⟩
  | some found =>
      obtain ⟨nId, info⟩ := found
      obtain ⟨hEntry, -⟩ := (find_eq_some h.indexed).mp hFind
      dsimp only
      by_cases hService : info.toCService ≠ addr
      · exact ⟨man, by rw [if_pos hService], h, rfl⟩
      rw [if_neg hService]
      generalize hUpdate : (fun info : CAddrInfo => ({ info with
        nLastSuccess := nTime
        nLastTry := nTime
        nTime := nTime.toUInt64.toUInt32
        nAttempts := 0 } : CAddrInfo)) = update
      have hUpdated : Consistent prims attempted none (man.modifyInfo nId update) := by
        subst hUpdate
        exact h.modifyInfo hEntry rfl (fun _ => rfl) (fun _ => rfl)
          ⟨Int64.le_of_lt hTime, fun _ => hTime, hAttempted⟩
      have hEntry' : (man.modifyInfo nId update).mapInfo.lookup nId = some (update info) := by
        rw [lookup_modifyInfo, if_pos rfl, hEntry, Option.map_some]
      by_cases hTried : info.fInTried = true
      · exact ⟨_, by rw [if_pos hTried], hUpdated, modifyInfo_nKey ..⟩
      rw [if_neg hTried]
      split
      · exact ⟨_, rfl, hUpdated, modifyInfo_nKey ..⟩
      · rename_i nUBucket hBucket
        have hMem : nId ∈ (man.modifyInfo nId update).vvNew nUBucket := by
          simpa using List.find?_some hBucket
        have hNew : (update info).fInTried = false := by
          subst hUpdate
          simpa using hTried
        have hSuccess : 0 < (update info).nLastSuccess := by
          subst hUpdate
          exact hTime
        obtain ⟨man', hMake, hConsistent, hKey⟩ := makeTried_spec hUpdated hEntry' hNew hSuccess
          (fun i => rand (i + 1)) hMem
        exact ⟨man', hMake, hConsistent, hKey.trans (modifyInfo_nKey ..)⟩

/-! ## Add_ -/

/-- A new entry that is counted once more is pending. -/
theorem consistent_referred
    (h : Consistent prims attempted none man) (hEntry : man.mapInfo.lookup nId = some info)
    (hNew : info.fInTried = false) (hBound : info.nRefCount < ADDRMAN_NEW_BUCKETS_PER_ADDRESS) :
    Consistent prims attempted (some nId) (man.modifyInfo nId CAddrInfo.referred) where
  indexed := h.indexed.modifyInfo (fun _ => rfl) fun _ => rfl
  placed := by
    rw [modifyInfo_nKey, tables_modifyInfo hEntry]
    exact h.placed.count (summary_tables hEntry) hNew hBound
  tallied := ⟨by simpa using h.tallied.tried, by simpa using h.tallied.all⟩
  timed := timed_modifyInfo h.timed fun info hEntry => h.timed nId info hEntry

/-- The entry that `Add_` makes of an address. -/
def newInfo (man : CAddrMan) (addr : CAddress) (source : CNetAddr) (nTimePenalty : Int64) :
    CAddrInfo :=
  { CAddrInfo.ofAddress addr source with
    nRandomPos := man.vRandom.length
    nTime := asTime (max 0 ((addr.nTime.toNat : ℤ) - nTimePenalty.toInt)) }

theorem lookup_addNew (addr : CAddress) (source : CNetAddr) (nTimePenalty : Int64) (k : ℕ) :
    (man.addNew addr source nTimePenalty).2.mapInfo.lookup k =
      if k = man.nIdCount then some (man.newInfo addr source nTimePenalty)
      else man.mapInfo.lookup k := by
  unfold addNew create
  dsimp only
  rw [lookup_modifyInfo]
  dsimp only
  rw [Table.lookup_insert_ite, Table.lookup_insert_ite, if_pos rfl]
  split_ifs <;> rfl

theorem addNew_frame (addr : CAddress) (source : CNetAddr) (nTimePenalty : Int64) :
    (man.addNew addr source nTimePenalty).2 = { man with
      nIdCount := man.nIdCount + 1
      mapInfo := (man.addNew addr source nTimePenalty).2.mapInfo
      mapAddr := man.mapAddr.insert addr.toCNetAddr man.nIdCount
      vRandom := man.vRandom ++ [man.nIdCount]
      nNew := man.nNew + 1 } := by
  unfold addNew create
  dsimp only
  rw [modifyInfo_frame]

/-- The entry that `Add_` makes has its place in the indexes. -/
theorem indexed_addNew
    (h : man.Indexed) (addr : CAddress) (source : CNetAddr) (nTimePenalty : Int64)
    (hUnknown : man.mapAddr.lookup addr.toCNetAddr = none) :
    (man.addNew addr source nTimePenalty).2.Indexed := by
  have hAddr : (man.newInfo addr source nTimePenalty).toCNetAddr = addr.toCNetAddr := rfl
  refine h.add hUnknown hAddr rfl ?_ ?_ (lookup_addNew addr source nTimePenalty) ?_
  · rw [addNew_frame]
  · rw [addNew_frame]
  · rw [addNew_frame]

theorem timed_addNew
    (h : man.Timed attempted) (hNever : attempted 0) (addr : CAddress) (source : CNetAddr)
    (nTimePenalty : Int64) : (man.addNew addr source nTimePenalty).2.Timed attempted := by
  intro k info hEntry
  rw [lookup_addNew] at hEntry
  split_ifs at hEntry with hK
  · obtain rfl := Option.some.inj hEntry
    refine ⟨?_, fun hTable => absurd hTable (by simp [newInfo, CAddrInfo.ofAddress]), hNever⟩
    change (0 : Int64) ≤ 0
    decide
  · exact h k info hEntry

/-- A new entry is in no bucket yet; when it is counted it is pending. -/
theorem consistent_addNew
    (h : Consistent prims attempted none man) (hNever : attempted 0) (addr : CAddress)
    (source : CNetAddr) (nTimePenalty : Int64)
    (hUnknown : man.mapAddr.lookup addr.toCNetAddr = none) :
    (∀ b, man.nIdCount ∉ (man.addNew addr source nTimePenalty).2.vvNew b) ∧
      Consistent prims attempted (some man.nIdCount)
        ((man.addNew addr source nTimePenalty).2.modifyInfo man.nIdCount
          CAddrInfo.referred) := by
  have hFreshId : man.mapInfo.lookup man.nIdCount = none := by
    cases hEntry : man.mapInfo.lookup man.nIdCount with
    | none => rfl
    | some old => exact absurd (h.indexed.fresh _ old hEntry) (lt_irrefl _)
  have hNoSummary : man.tables.summary man.nIdCount = none := by
    change (man.mapInfo.lookup man.nIdCount).map CAddrInfo.summary = none
    rw [hFreshId, Option.map_none]
  have hIndexed := indexed_addNew h.indexed addr source nTimePenalty hUnknown
  have hTimed := timed_addNew h.timed hNever addr source nTimePenalty
  have hLookup := @lookup_addNew man addr source nTimePenalty
  have hFrame := @addNew_frame man addr source nTimePenalty
  generalize (man.addNew addr source nTimePenalty).2 = added at hIndexed hTimed hLookup hFrame ⊢
  have hSelf : added.mapInfo.lookup man.nIdCount =
      some (man.newInfo addr source nTimePenalty) := by
    rw [hLookup, if_pos rfl]
  have hNew : added.vvNew = man.vvNew := by
    rw [hFrame]
  have hTried : added.vvTried = man.vvTried := by
    rw [hFrame]
  have hKey : added.nKey = man.nKey := by
    rw [hFrame]
  refine ⟨?_, ?_⟩
  · intro b hMem
    rw [hNew] at hMem
    obtain ⟨info, hEntry, -⟩ := entry_of_mem_new h hMem
    rw [hFreshId] at hEntry
    cases hEntry
  constructor
  · exact hIndexed.modifyInfo (fun _ => rfl) fun _ => rfl
  · have hTables : (added.modifyInfo man.nIdCount CAddrInfo.referred).tables =
        man.tables.setSummary man.nIdCount (some ⟨addr.toCService, 1, false⟩) := by
      rw [tables_modifyInfo hSelf]
      ext1
      · funext k
        by_cases hK : k = man.nIdCount
        · subst hK
          simp [AddrTables.setSummary, CAddrInfo.summary, CAddrInfo.referred, newInfo,
            CAddrInfo.ofAddress]
        · simp [AddrTables.setSummary, hK, CAddrMan.tables, hLookup]
      · exact hTried
      · exact hNew
    rw [modifyInfo_nKey, hKey, hTables]
    exact h.placed.create hNoSummary addr.toCService
  · have hTallied := h.tallied.tried
    have hAll := h.tallied.all
    constructor
    · rw [modifyInfo_nTried, modifyInfo_vvTried, hFrame, hTallied]
    · rw [modifyInfo_nTried, modifyInfo_vRandom, modifyInfo_nNew, hFrame]
      dsimp only
      rw [List.length_append, List.length_singleton]
      push_cast
      omega
  · exact timed_modifyInfo hTimed fun info hEntry => hTimed _ info hEntry

/-- Put the entry that is pending into a bucket with room. -/
theorem consistent_insertNew
    (h : Consistent prims attempted (some nId) man) (hEntry : man.mapInfo.lookup nId = some info)
    (hNew : info.fInTried = false) {b : NewBucket} (hFresh : nId ∉ man.vvNew b)
    (hRoom : (man.vvNew b).card < ADDRMAN_NEW_BUCKET_SIZE) :
    Consistent prims attempted none (man.insertNew b nId) where
  indexed := h.indexed.congr rfl rfl rfl rfl
  placed := h.placed.insert (summary_tables hEntry) hNew hFresh hRoom
  tallied := ⟨h.tallied.tried, h.tallied.all⟩
  timed := h.timed

theorem addToBucket_spec
    (adjustedTime : ℤ) (rand : ℕ → ℕ) (source : CNetAddr)
    (hEntry : man.mapInfo.lookup nId = some info) (hNew : info.fInTried = false)
    (hHeld : nId ∈ man.vvNew (info.getNewBucket prims man.nKey source) →
      Consistent prims attempted none man)
    (hPending : Consistent prims attempted (some nId) (man.modifyInfo nId CAddrInfo.referred)) :
    ∃ man', man.addToBucket prims adjustedTime rand source nId = .ok man' ∧
      Consistent prims attempted none man' ∧ man'.nKey = man.nKey := by
  unfold addToBucket
  rw [hEntry, deref_some, ok_bind]
  dsimp only
  generalize info.getNewBucket prims man.nKey source = b at hHeld ⊢
  by_cases hMem : nId ∈ man.vvNew b
  · exact ⟨man, by rw [if_pos hMem], hHeld hMem, rfl⟩
  rw [if_neg hMem, modifyInfo_vvNew]
  have hFresh : nId ∉ (man.modifyInfo nId CAddrInfo.referred).vvNew b := by
    simpa using hMem
  have hReferred : (man.modifyInfo nId CAddrInfo.referred).mapInfo.lookup nId =
      some info.referred := by
    rw [lookup_modifyInfo, if_pos rfl, hEntry, Option.map_some]
  by_cases hFull : (man.vvNew b).card = ADDRMAN_NEW_BUCKET_SIZE
  · have hNonempty : 0 < ((man.modifyInfo nId CAddrInfo.referred).vvNew b).card := by
      rw [modifyInfo_vvNew, hFull]
      decide
    obtain ⟨code, man', k, hShrink, hConsistent, hTouches, hK, hTaken⟩ :=
      shrinkNew_spec hPending adjustedTime (fun i => rand (i + 1)) hNonempty
        (fun other hEq => Option.some.inj hEq ▸ hFresh)
    have hNe : nId ≠ k := by
      rintro rfl
      exact hFresh hK
    obtain ⟨info', hEntry', hSame⟩ := lookup_of_summary
      ((hTouches.others nId hNe).trans (summary_tables hReferred))
    have hNew' : info'.fInTried = false := by
      change info'.summary.fInTried = false
      rw [hSame]
      exact hNew
    have hFresh' : nId ∉ man'.vvNew b := by
      rw [hTaken]
      exact fun hIn => hFresh (mem_takeFrom.mp hIn).1
    have hRoom : (man'.vvNew b).card < ADDRMAN_NEW_BUCKET_SIZE := by
      have hLess := card_takeFrom_self hK
      rw [modifyInfo_vvNew] at hLess hTaken
      rw [hTaken]
      omega
    refine ⟨man'.insertNew b nId, ?_, consistent_insertNew hConsistent hEntry' hNew' hFresh' hRoom,
      hTouches.nKey.trans (modifyInfo_nKey ..)⟩
    rw [if_pos hFull, hShrink]
    rfl
  · have hRoom : ((man.modifyInfo nId CAddrInfo.referred).vvNew b).card <
        ADDRMAN_NEW_BUCKET_SIZE := by
      have hSize : ((man.modifyInfo nId CAddrInfo.referred).vvNew b).card ≤
        ADDRMAN_NEW_BUCKET_SIZE := hPending.placed.new_size b
      rw [modifyInfo_vvNew] at hSize ⊢
      omega
    refine ⟨_, ?_, consistent_insertNew hPending hReferred hNew hFresh hRoom,
      modifyInfo_nKey ..⟩
    rw [if_neg hFull, ok_bind]

/-- What `Add_` keeps of an entry that it updates. -/
theorem updateFound_kept
    (adjustedTime : ℤ) (addr : CAddress) (nTimePenalty : Int64) (info : CAddrInfo) :
    (updateFound adjustedTime addr nTimePenalty info).summary = info.summary ∧
      (updateFound adjustedTime addr nTimePenalty info).nRandomPos = info.nRandomPos ∧
      (updateFound adjustedTime addr nTimePenalty info).nLastSuccess = info.nLastSuccess ∧
      (updateFound adjustedTime addr nTimePenalty info).nLastTry = info.nLastTry := by
  unfold updateFound
  dsimp only
  split_ifs <;> exact ⟨rfl, rfl, rfl, rfl⟩

/-- `Add_` goes on to the buckets for new entries with fewer than four references only. -/
theorem of_not_stopsAtFound {rand : ℕ → ℕ} {addr : CAddress}
    (h : ¬stopsAtFound rand addr info = true) :
    info.fInTried = false ∧ info.nRefCount ≠ ADDRMAN_NEW_BUCKETS_PER_ADDRESS := by
  unfold stopsAtFound at h
  split_ifs at h with hTime hTried hFull
  · exact absurd rfl h
  · exact absurd rfl h
  · exact absurd rfl h
  · exact ⟨Bool.eq_false_iff.mpr hTried, hFull⟩

theorem add_spec
    (h : Consistent prims attempted none man) (hNever : attempted 0) (adjustedTime : ℤ)
    (rand : ℕ → ℕ) (addr : CAddress) (source : CNetAddr) (nTimePenalty : Int64) :
    ∃ fNew man', man.add_ prims adjustedTime rand addr source nTimePenalty = .ok (fNew, man') ∧
      Consistent prims attempted none man' ∧ man'.nKey = man.nKey := by
  unfold add_
  by_cases hRoutable : (!addr.isRoutable) = true
  · exact ⟨false, man, by rw [if_pos hRoutable], h, rfl⟩
  rw [if_neg hRoutable]
  by_cases hPort : addr.port = 0
  · exact ⟨false, man, by rw [if_pos hPort], h, rfl⟩
  rw [if_neg hPort]
  cases hFind : man.find addr.toCNetAddr with
  | none =>
      have hUnknown := (find_eq_none h.indexed).mp hFind
      obtain ⟨hFresh, hPending⟩ := consistent_addNew h hNever addr source nTimePenalty hUnknown
      have hEntry : (man.addNew addr source nTimePenalty).2.mapInfo.lookup man.nIdCount = _ :=
        lookup_addNew addr source nTimePenalty man.nIdCount
      rw [if_pos rfl] at hEntry
      obtain ⟨man', hAdd, hConsistent, hKey⟩ := addToBucket_spec adjustedTime rand source hEntry
        rfl (fun hIn => absurd hIn (hFresh _)) hPending
      refine ⟨true, man', ?_, hConsistent, hKey.trans ?_⟩
      · change ((man.addNew addr source nTimePenalty).2.addToBucket prims adjustedTime rand source
          man.nIdCount >>= fun man' => .ok (true, man')) = _
        rw [hAdd, ok_bind]
      · exact modifyInfo_nKey ..
  | some found =>
      obtain ⟨nId, info⟩ := found
      obtain ⟨hEntry, -⟩ := (find_eq_some h.indexed).mp hFind
      dsimp only
      generalize hUpdate : updateFound adjustedTime addr nTimePenalty = update
      have hKept : ∀ info : CAddrInfo, (update info).summary = info.summary ∧
          (update info).nRandomPos = info.nRandomPos ∧
          (update info).nLastSuccess = info.nLastSuccess ∧
          (update info).nLastTry = info.nLastTry := by
        intro info
        rw [← hUpdate]
        exact updateFound_kept ..
      have hConsistent : Consistent prims attempted none (man.modifyInfo nId update) := by
        apply h.modifyInfo hEntry (hKept info).1 (fun info => (hKept info).2.1)
        · intro info
          exact congrArg (fun s : AddrSummary => s.service.toCNetAddr) (hKept info).1
        · have hTimed := h.timed nId info hEntry
          have hTable : (update info).fInTried = info.fInTried :=
            congrArg AddrSummary.fInTried (hKept info).1
          rw [(hKept info).2.2.1, (hKept info).2.2.2, hTable]
          exact hTimed
      have hUpdated : (man.modifyInfo nId update).mapInfo.lookup nId = some (update info) := by
        rw [lookup_modifyInfo, if_pos rfl, hEntry, Option.map_some]
      by_cases hStop : stopsAtFound rand addr (update info) = true
      · exact ⟨false, _, by rw [if_pos hStop], hConsistent, modifyInfo_nKey ..⟩
      obtain ⟨hNew, hBelow⟩ := of_not_stopsAtFound hStop
      have hBound := (hConsistent.placed.new_entry (summary_tables hUpdated) hNew).2.2.2
      obtain ⟨man', hAdd, hAdded, hKey⟩ := addToBucket_spec adjustedTime rand source hUpdated hNew
        (fun _ => hConsistent)
        (consistent_referred hConsistent hUpdated hNew (lt_of_le_of_ne hBound hBelow))
      refine ⟨false, man', ?_, hAdded, hKey.trans (modifyInfo_nKey ..)⟩
      rw [if_neg hStop, hAdd, ok_bind]

/-! ## Attempt_ and Connected_ -/

theorem updateService_spec
    {f : CAddrInfo → CAddrInfo} (h : Consistent prims attempted none man) (addr : CService)
    (hKept : ∀ info, (f info).summary = info.summary ∧
      (f info).nRandomPos = info.nRandomPos ∧ (f info).nLastSuccess = info.nLastSuccess)
    (hAttempted : ∀ info, attempted info.nLastTry → attempted (f info).nLastTry) :
    Consistent prims attempted none (man.updateService addr f) ∧
      (man.updateService addr f).nKey = man.nKey := by
  unfold updateService
  cases hFind : man.find addr.toCNetAddr with
  | none => exact ⟨h, rfl⟩
  | some found =>
      obtain ⟨nId, info⟩ := found
      obtain ⟨hEntry, -⟩ := (find_eq_some h.indexed).mp hFind
      dsimp only
      by_cases hService : info.toCService ≠ addr
      · rw [if_pos hService]
        exact ⟨h, rfl⟩
      rw [if_neg hService]
      refine ⟨?_, modifyInfo_nKey ..⟩
      apply h.modifyInfo hEntry (hKept info).1 (fun info => (hKept info).2.1)
      · intro info
        exact congrArg (fun s : AddrSummary => s.service.toCNetAddr) (hKept info).1
      · have hTable : (f info).fInTried = info.fInTried :=
          congrArg AddrSummary.fInTried (hKept info).1
        obtain ⟨hSuccess, hTried, hTry⟩ := h.timed nId info hEntry
        rw [(hKept info).2.2, hTable]
        exact ⟨hSuccess, hTried, hAttempted info hTry⟩

/-! ## GetAddr_ -/

/-- A draw of `GetAddr_` moves an entry to the front part of `vRandom`. -/
theorem Consistent.reordered
    {man' : CAddrMan} (h : Consistent prims attempted none man) (hIndexed : man'.Indexed)
    (hSame : Reordered man man') (hLength : man'.vRandom.length = man.vRandom.length) :
    Consistent prims attempted none man' := by
  have hFrame := hSame.frame
  have hKey : man'.nKey = man.nKey := by
    rw [hFrame]
  have hTried : man'.nTried = man.nTried := by
    rw [hFrame]
  have hNew : man'.nNew = man.nNew := by
    rw [hFrame]
  have hBuckets : man'.vvTried = man.vvTried := by
    rw [hFrame]
  refine ⟨hIndexed, ?_, ⟨?_, ?_⟩, hSame.timed h.timed⟩
  · rw [hKey, hSame.tables]
    exact h.placed
  · rw [hTried, hBuckets]
    exact h.tallied.tried
  · rw [hLength, hTried, hNew]
    exact h.tallied.all

theorem getAddr_spec
    (h : Consistent prims attempted none man) (rand : ℕ → ℕ) :
    ∃ vAddr man', man.getAddr_ rand = .ok (vAddr, man') ∧ Consistent prims attempted none man' ∧
      Reordered man man' := by
  unfold getAddr_
  dsimp only
  generalize hNodes : min (ADDRMAN_GETADDR_MAX_PCT * man.vRandom.length / 100)
    ADDRMAN_GETADDR_MAX = nNodes
  have hAtMost : nNodes ≤ man.vRandom.length := by
    have hPct : ADDRMAN_GETADDR_MAX_PCT * man.vRandom.length / 100 ≤ man.vRandom.length := by
      unfold ADDRMAN_GETADDR_MAX_PCT
      omega
    rw [← hNodes]
    exact (Nat.min_le_left _ _).trans hPct
  obtain ⟨⟨vAddr, man'⟩, hRun, hConsistent, hSame, -⟩ := @foldlM_range_ok
    _ _ (getAddrRound rand)
    (fun _ drawn => Consistent prims attempted none drawn.2 ∧ Reordered man drawn.2 ∧
      drawn.2.vRandom.length = man.vRandom.length) nNodes
    (([], man) : List CAddress × CAddrMan)
    (by
      rintro i hI ⟨vAddr, man₁⟩ ⟨hConsistent, hSame, hLength⟩
      dsimp only at hConsistent hSame hLength
      have hRest : 0 < man₁.vRandom.length - i := by
        omega
      have hDrawn := @getRandInt_lt (rand i) _ hRest
      have hFirst : i < man₁.vRandom.length := by
        omega
      have hSecond : getRandInt (rand i) (man₁.vRandom.length - i) + i < man₁.vRandom.length := by
        omega
      obtain ⟨man₂, hSwap, hIndexed, hStep, hRandom⟩ :=
        swapRandom_spec hConsistent.indexed hFirst hSecond
      have hLength₂ : man₂.vRandom.length = man₁.vRandom.length := by
        rw [hRandom, length_swapAt]
      have hIn : i < man₂.vRandom.length := by
        omega
      obtain ⟨info, hEntry⟩ := hIndexed.known _ (List.getElem_mem hIn)
      refine ⟨(vAddr ++ [info.toCAddress], man₂), ?_, hConsistent.reordered hIndexed hStep hLength₂,
        hSame.trans hStep, hLength₂.trans hLength⟩
      simp only [getAddrRound, hSwap, ok_bind, elementAt_of_lt hIn, counted_of_lookup hEntry])
    ⟨h, Reordered.refl man, rfl⟩
  exact ⟨vAddr, man', hRun, hConsistent, hSame⟩

end CAddrMan

/-! ## Runs -/

/-- A call on the address manager, with what it draws at random. -/
inductive AddrManCall
  | add (adjustedTime : ℤ) (rand : ℕ → ℕ) (addr : CAddress) (source : CNetAddr)
      (nTimePenalty : Int64)
  | good (rand : ℕ → ℕ) (addr : CService) (nTime : Int64)
  | attempt (addr : CService) (nTime : Int64)
  | connected (addr : CService) (nTime : Int64)
  | getAddr (rand : ℕ → ℕ)

namespace AddrManCall

/-- A call of `Good_` has a positive time. -/
def GoodPositive : AddrManCall → Prop
  | good _ _ nTime => 0 < nTime
  | _ => True

/-- The time that a call of `Attempt_` writes. -/
def AttemptedAt (attempted : Int64 → Prop) : AddrManCall → Prop
  | attempt _ nTime => attempted nTime
  | _ => True

end AddrManCall

namespace CAddrMan

variable {prims : Primitives} {attempted : Int64 → Prop} {man : CAddrMan}

/-- The manager that a call leaves. -/
def perform (prims : Primitives) (man : CAddrMan) : AddrManCall → Checked CAddrMan
  | .add adjustedTime rand addr source nTimePenalty =>
      Prod.snd <$> man.add_ prims adjustedTime rand addr source nTimePenalty
  | .good rand addr nTime => man.good_ prims rand addr nTime
  | .attempt addr nTime => .ok (man.attempt_ addr nTime)
  | .connected addr nTime => .ok (man.connected_ addr nTime)
  | .getAddr rand => Prod.snd <$> man.getAddr_ rand

def performAll (prims : Primitives) (man : CAddrMan) (calls : List AddrManCall) :
    Checked CAddrMan :=
  calls.foldlM (perform prims) man

/-- A call passes its assertions and leaves a consistent manager consistent. -/
theorem perform_spec
    (h : Consistent prims attempted none man) (hNever : attempted 0) {call : AddrManCall}
    (hGood : call.GoodPositive) (hGoodTime : ∀ nTime, 0 < nTime → attempted nTime)
    (hAttempt : call.AttemptedAt attempted) :
    ∃ man', man.perform prims call = .ok man' ∧ Consistent prims attempted none man' := by
  cases call with
  | add adjustedTime rand addr source nTimePenalty =>
      obtain ⟨fNew, man', hAdd, hConsistent, -⟩ :=
        add_spec h hNever adjustedTime rand addr source nTimePenalty
      refine ⟨man', ?_, hConsistent⟩
      rw [perform, hAdd]
      rfl
  | good rand addr nTime =>
      obtain ⟨man', hRun, hConsistent, -⟩ := good_spec h rand addr hGood (hGoodTime _ hGood)
      exact ⟨man', hRun, hConsistent⟩
  | attempt addr nTime =>
      refine ⟨_, rfl, (updateService_spec h addr ?_ ?_).1⟩
      · intro info
        exact ⟨rfl, rfl, rfl⟩
      · intro info hTry
        exact hAttempt
  | connected addr nTime =>
      refine ⟨_, rfl, (updateService_spec h addr ?_ ?_).1⟩
      · intro info
        split_ifs <;> exact ⟨rfl, rfl, rfl⟩
      · intro info hTry
        split_ifs <;> exact hTry
  | getAddr rand =>
      obtain ⟨vAddr, man', hRun, hConsistent, -⟩ := getAddr_spec h rand
      refine ⟨man', ?_, hConsistent⟩
      rw [perform, hRun]
      rfl

theorem performAll_spec
    (h : Consistent prims attempted none man) (hNever : attempted 0) {calls : List AddrManCall}
    (hGood : ∀ call ∈ calls, call.GoodPositive)
    (hGoodTime : ∀ nTime, 0 < nTime → attempted nTime)
    (hAttempt : ∀ call ∈ calls, call.AttemptedAt attempted) :
    ∃ man', man.performAll prims calls = .ok man' ∧ Consistent prims attempted none man' := by
  induction calls generalizing man with
  | nil => exact ⟨man, rfl, h⟩
  | cons call calls ih =>
      obtain ⟨man₁, hCall, hConsistent⟩ := perform_spec h hNever
        (hGood call List.mem_cons_self) hGoodTime (hAttempt call List.mem_cons_self)
      obtain ⟨man₂, hRest, hFinal⟩ := ih hConsistent
        (fun call hCall => hGood call (List.mem_cons_of_mem _ hCall))
        fun call hCall => hAttempt call (List.mem_cons_of_mem _ hCall)
      refine ⟨man₂, ?_, hFinal⟩
      rw [performAll, List.foldlM_cons, hCall, ok_bind]
      exact hRest

end CAddrMan

end SocietyGold
