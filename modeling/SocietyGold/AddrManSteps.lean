import SocietyGold.AddrManIndex

/-!
# The operations of the address manager

Each operation, called on a consistent manager, passes all of its assertions and leaves
the manager consistent, whatever its random draws deliver.
-/

namespace SocietyGold

open Support

namespace CAddrMan

variable {prims : Primitives} {attempted : Int64 → Prop} {pending : Option ℕ}
  {man : CAddrMan} {nId : ℕ}
  {info : CAddrInfo} {f : CAddrInfo → CAddrInfo}

theorem summary_tables (h : man.mapInfo.lookup nId = some info) :
    man.tables.summary nId = some info.summary := by
  change (man.mapInfo.lookup nId).map CAddrInfo.summary = _
  rw [h, Option.map_some]

theorem lookup_of_summary
    {s : AddrSummary} (h : man.tables.summary nId = some s) :
    ∃ info, man.mapInfo.lookup nId = some info ∧ info.summary = s :=
  Option.map_eq_some_iff.mp h

/-- A new bucket holds entries that are not tried. -/
theorem entry_of_mem_new
    (h : Consistent prims attempted pending man) {b : NewBucket} (hMem : nId ∈ man.vvNew b) :
    ∃ info, man.mapInfo.lookup nId = some info ∧ info.fInTried = false := by
  obtain ⟨s, hSummary, hNew⟩ := h.placed.of_mem_new (t := man.tables) hMem
  obtain ⟨info, hEntry, rfl⟩ := lookup_of_summary hSummary
  exact ⟨info, hEntry, hNew⟩

/-- A tried bucket lists the tried entries of that bucket. -/
theorem mem_vvTried
    (h : Consistent prims attempted pending man) (b : TriedBucket) (nId : ℕ) :
    nId ∈ man.vvTried b ↔ ∃ info, man.mapInfo.lookup nId = some info ∧ info.fInTried = true ∧
      info.getTriedBucket prims man.nKey = b := by
  constructor
  · intro hMem
    obtain ⟨s, hSummary, hTried, hBucket⟩ := h.placed.of_mem_tried (t := man.tables) hMem
    obtain ⟨info, hEntry, rfl⟩ := lookup_of_summary hSummary
    exact ⟨info, hEntry, hTried, hBucket⟩
  · rintro ⟨info, hEntry, hTried, rfl⟩
    have hListed := (h.placed.tried_entry (summary_tables hEntry) hTried).2.1
    have hMem : info.getTriedBucket prims man.nKey ∈ man.tables.listed nId := by
      rw [hListed]
      exact Finset.mem_singleton_self _
    exact AddrTables.mem_listed.mp hMem

theorem counted_of_lookup (h : man.mapInfo.lookup nId = some info) :
    man.counted nId = .ok info := by
  rw [counted, h]

/-! ## Writes to an entry -/

theorem timed_modifyInfo
    (h : man.Timed attempted)
    (hTimed : ∀ info, man.mapInfo.lookup nId = some info →
      0 ≤ (f info).nLastSuccess ∧ ((f info).fInTried = true → 0 < (f info).nLastSuccess) ∧
        attempted (f info).nLastTry) :
    (man.modifyInfo nId f).Timed attempted := by
  intro k info' hEntry'
  obtain ⟨info, hEntry, rfl⟩ := lookup_modifyInfo_eq_some hEntry'
  split_ifs with hK
  · subst hK
    exact hTimed info hEntry
  · exact h k info hEntry

/-- Writes that keep the service, the table and the reference count of an entry keep the
manager consistent. -/
theorem Consistent.modifyInfo
    (h : Consistent prims attempted pending man) (hEntry : man.mapInfo.lookup nId = some info)
    (hSummary : (f info).summary = info.summary)
    (hPos : ∀ info, (f info).nRandomPos = info.nRandomPos)
    (hAddr : ∀ info, (f info).toCNetAddr = info.toCNetAddr)
    (hTimed : 0 ≤ (f info).nLastSuccess ∧
      ((f info).fInTried = true → 0 < (f info).nLastSuccess) ∧ attempted (f info).nLastTry) :
    Consistent prims attempted pending (man.modifyInfo nId f) where
  indexed := h.indexed.modifyInfo hPos hAddr
  placed := by
    have hTables : (man.modifyInfo nId f).tables = man.tables := by
      rw [tables_modifyInfo hEntry, hSummary, ← summary_tables hEntry]
      simp [AddrTables.setSummary]
    rw [modifyInfo_nKey, hTables]
    exact h.placed
  tallied := ⟨by simpa using h.tallied.tried, by simpa using h.tallied.all⟩
  timed := by
    apply timed_modifyInfo h.timed
    intro info' hEntry'
    rw [hEntry, Option.some.injEq] at hEntry'
    exact hEntry' ▸ hTimed

/-! ## Dropping references -/

/-- What a step leaves alone: the key, and the entries of all other ids as far as they
decide where these are placed. -/
structure TouchesOnly (nId : ℕ) (man man' : CAddrMan) : Prop where
  nKey : man'.nKey = man.nKey
  others : ∀ k, k ≠ nId → man'.tables.summary k = man.tables.summary k

theorem Indexed.congr
    {man' : CAddrMan} (h : man.Indexed) (hRandom : man'.vRandom = man.vRandom)
    (hAddr : man'.mapAddr = man.mapAddr) (hInfo : man'.mapInfo = man.mapInfo)
    (hCount : man'.nIdCount = man.nIdCount) : man'.Indexed := by
  constructor
  · rw [hRandom]
    exact h.nodup
  · rw [hRandom, hInfo]
    exact h.known
  · rw [hRandom, hInfo]
    exact h.position
  · rw [hAddr, hInfo]
    exact h.address
  · rw [hInfo, hCount]
    exact h.fresh

section Drop

variable (h : Consistent prims attempted pending man)
  (hEntry : man.mapInfo.lookup nId = some info)
  {b : NewBucket} (hMem : nId ∈ man.vvNew b) (hPending : pending ≠ some nId)
include h hEntry hMem hPending

/-- A reference that is not the last one is dropped. -/
theorem consistent_dropped (hMore : info.nRefCount - 1 ≠ 0) :
    Consistent prims attempted pending
      { man.modifyInfo nId CAddrInfo.dropped with vvNew := takeFrom man.vvNew b nId } where
  indexed := (h.indexed.modifyInfo (f := CAddrInfo.dropped) (fun _ => rfl) fun _ => rfl).congr
    rfl rfl rfl rfl
  placed := by
    have hPlaced := h.placed.drop (summary_tables hEntry) hPending hMem hMore
    have hTables : CAddrMan.tables
        { man.modifyInfo nId CAddrInfo.dropped with vvNew := takeFrom man.vvNew b nId } =
        { man.tables.setSummary nId (some (CAddrInfo.dropped info).summary) with
          new := takeFrom man.vvNew b nId } := by
      rw [← tables_modifyInfo (f := CAddrInfo.dropped) hEntry]
      rfl
    rw [hTables]
    dsimp only
    rw [modifyInfo_nKey]
    exact hPlaced
  tallied := ⟨by simpa using h.tallied.tried, by simpa using h.tallied.all⟩
  timed := timed_modifyInfo (f := CAddrInfo.dropped) h.timed
    fun info' hEntry' => h.timed nId info' hEntry'

omit h hEntry hMem hPending in
/-- What is known of the other entries when one is erased. -/
theorem summary_erase
    {man' : CAddrMan} {t : AddrTables} {s : Option AddrSummary}
    (hTables : man'.tables = t.setSummary nId s) (k : ℕ) :
    ((man'.mapInfo.erase nId).lookup k).map CAddrInfo.summary =
      (t.setSummary nId none).summary k := by
  rw [Table.lookup_erase_ite]
  by_cases hK : k = nId
  · subst hK
    rw [if_pos rfl, AddrTables.setSummary_self, Option.map_none]
  · rw [if_neg hK, AddrTables.setSummary_of_ne _ _ hK]
    have hOther := congrArg (fun t => AddrTables.summary t k) hTables
    rwa [AddrTables.setSummary_of_ne _ _ hK] at hOther

omit h hEntry hMem hPending in
/-- Before an entry is deleted its id is moved to the end. -/
theorem swapRandom_toEnd
    (hIndexed : man.Indexed) (hThere : man.mapInfo.lookup nId = some info) :
    ∃ swapped, man.swapRandom info.nRandomPos (man.vRandom.length - 1) = .ok swapped ∧
      swapped.Indexed ∧ Reordered man swapped ∧ swapped.vRandom.getLast? = some nId ∧
      swapped.vRandom.length = man.vRandom.length ∧
      ∃ info', swapped.mapInfo.lookup nId = some info' ∧ info'.toCNetAddr = info.toCNetAddr := by
  obtain ⟨i, hPos, hGet⟩ := hIndexed.position nId info hThere
  have hLt : i < man.vRandom.length := (List.getElem?_eq_some_iff.mp hGet).1
  have hEnd : ((man.vRandom.length : ℤ) - 1) = ((man.vRandom.length - 1 : ℕ) : ℤ) := by
    omega
  obtain ⟨swapped, hSwap, hSwappedIndexed, hReordered, hSwapped⟩ :=
    swapRandom_spec hIndexed hLt (show man.vRandom.length - 1 < _ by omega)
  refine ⟨swapped, ?_, hSwappedIndexed, hReordered, ?_, ?_, ?_⟩
  · rw [hPos, hEnd, hSwap]
  · rw [hSwapped, List.getLast?_eq_getElem?, length_swapAt, getElem?_swapAt hLt (by omega),
      if_pos rfl, hGet]
  · rw [hSwapped, length_swapAt]
  · have hEntries := hReordered.entries nId
    rw [hThere, Option.map_some, Option.map_eq_some_iff] at hEntries
    obtain ⟨info', hEntry', hSame⟩ := hEntries
    refine ⟨info', hEntry', ?_⟩
    change info'.unplaced.toCNetAddr = info.toCNetAddr
    rw [hSame]
    rfl

/-- With its last reference an entry is deleted. -/
theorem deleteEntry_spec (hLast : info.nRefCount - 1 = 0) :
    ∃ deleted, (man.modifyInfo nId CAddrInfo.dropped).deleteEntry nId info = .ok deleted ∧
      Consistent prims attempted pending { deleted with vvNew := takeFrom man.vvNew b nId } ∧
      TouchesOnly nId man deleted ∧ deleted.vvNew = man.vvNew := by
  generalize hDec : man.modifyInfo nId CAddrInfo.dropped = dec
  have hDecIndexed : dec.Indexed := by
    rw [← hDec]
    exact h.indexed.modifyInfo (fun _ => rfl) fun _ => rfl
  have hDecEntry : dec.mapInfo.lookup nId = some info.dropped := by
    rw [← hDec, lookup_modifyInfo, if_pos rfl, hEntry, Option.map_some]
  have hDecTimed : dec.Timed attempted := by
    rw [← hDec]
    exact timed_modifyInfo h.timed fun info' hEntry' => h.timed nId info' hEntry'
  have hRandom : dec.vRandom = man.vRandom := by
    rw [← hDec, modifyInfo_vRandom]
  have hNonempty : 0 < man.vRandom.length := by
    obtain ⟨i, -, hGet⟩ := h.indexed.position nId info hEntry
    have hLt := (List.getElem?_eq_some_iff.mp hGet).1
    omega
  obtain ⟨swapped, hSwap, hIndexed, hReordered, hLastId, hLength, info', hEntry', hSame⟩ :=
    swapRandom_toEnd hDecIndexed hDecEntry
  have hKept : swapped = { man with
      vRandom := swapped.vRandom
      mapInfo := swapped.mapInfo } := by
    rw [hReordered.frame, ← hDec, modifyInfo_frame]
  have hTables : swapped.tables = man.tables.setSummary nId (some info.dropped.summary) := by
    rw [hReordered.tables, ← hDec, tables_modifyInfo hEntry]
  have hDelete : dec.deleteEntry nId info = .ok { swapped with
      vRandom := swapped.vRandom.dropLast
      mapAddr := swapped.mapAddr.erase info.toCNetAddr
      mapInfo := swapped.mapInfo.erase nId
      nNew := swapped.nNew - 1 } := by
    rw [deleteEntry, show dec.swapRandom info.nRandomPos (dec.vRandom.length - 1) = .ok swapped
      from hSwap, ok_bind]
  have hSummary := summary_erase hTables
  have hKey : swapped.nKey = man.nKey := by
    rw [hKept]
  have hTried : swapped.vvTried = man.vvTried := by
    rw [hKept]
  have hNTried : swapped.nTried = man.nTried := by
    rw [hKept]
  have hNNew : swapped.nNew = man.nNew := by
    rw [hKept]
  refine ⟨_, hDelete, ?_, ⟨hKey, ?_⟩, ?_⟩
  · constructor
    · exact hIndexed.remove hEntry' hLastId rfl
        (by rw [show info'.toCNetAddr = info.toCNetAddr from hSame]) rfl rfl
    · have hPlaced := h.placed.remove (summary_tables hEntry) hPending hMem hLast
      change AddrTables.Placed (CAddrInfo.triedBucket prims swapped.nKey) pending
        ⟨fun k => ((swapped.mapInfo.erase nId).lookup k).map CAddrInfo.summary,
          swapped.vvTried, takeFrom man.vvNew b nId⟩
      rw [hKey, funext hSummary, hTried]
      exact hPlaced
    · have hAll := h.tallied.all
      constructor
      · change swapped.nTried = ∑ b, ((swapped.vvTried b).length : ℤ)
        rw [hTried, hNTried, h.tallied.tried]
      · change ((swapped.vRandom.dropLast.length : ℕ) : ℤ) = swapped.nTried + (swapped.nNew - 1)
        rw [hNTried, hNNew, List.length_dropLast, hLength, hRandom]
        omega
    · intro k info'' hEntry''
      change (swapped.mapInfo.erase nId).lookup k = some info'' at hEntry''
      rw [Table.lookup_erase_ite] at hEntry''
      split_ifs at hEntry''
      exact hReordered.timed hDecTimed k info'' hEntry''
  · intro k hK
    exact (hSummary k).trans (AddrTables.setSummary_of_ne _ _ hK)
  · change swapped.vvNew = man.vvNew
    rw [hKept]

end Drop

theorem dropReference_spec
    (h : Consistent prims attempted pending man) {b : NewBucket} (hMem : nId ∈ man.vvNew b)
    (hPending : pending ≠ some nId) :
    ∃ man', man.dropReference b nId = .ok man' ∧ Consistent prims attempted pending man' ∧
      TouchesOnly nId man man' ∧ man'.vvNew = takeFrom man.vvNew b nId := by
  obtain ⟨info, hEntry, -⟩ := entry_of_mem_new h hMem
  unfold dropReference
  rw [counted_of_lookup hEntry, ok_bind]
  dsimp only
  by_cases hLast : info.dropped.nRefCount = 0
  · obtain ⟨deleted, hDelete, hConsistent, hTouches, hNew⟩ :=
      deleteEntry_spec h hEntry hMem hPending hLast
    rw [if_pos hLast, hDelete, ok_bind, hNew]
    exact ⟨_, rfl, hConsistent, ⟨hTouches.nKey, hTouches.others⟩, rfl⟩
  · rw [if_neg hLast, ok_bind, modifyInfo_vvNew]
    refine ⟨_, rfl, consistent_dropped h hEntry hMem hPending hLast, ⟨by simp, ?_⟩, rfl⟩
    intro k hK
    change (man.modifyInfo nId CAddrInfo.dropped).tables.summary k = _
    rw [tables_modifyInfo hEntry, AddrTables.setSummary_of_ne _ _ hK]

/-! ## Shrinking a new bucket -/

theorem getRandInt_lt {nRand nMax : ℕ} (h : 0 < nMax) : getRandInt nRand nMax < nMax := by
  rw [getRandInt, if_neg h.ne']
  exact Nat.mod_lt _ h

/-- The first loop of `ShrinkNew` passes its assertion for ids that have entries. -/
theorem firstTerrible_spec
    (nNow : ℤ) {its : List ℕ} (hKnown : ∀ it ∈ its, ∃ info, man.mapInfo.lookup it = some info) :
    ∃ found, man.firstTerrible nNow its = .ok found ∧ ∀ it, found = some it → it ∈ its := by
  induction its with
  | nil => exact ⟨none, rfl, by simp⟩
  | cons it rest ih =>
      obtain ⟨info, hEntry⟩ := hKnown it (by simp)
      obtain ⟨found, hFound, hMem⟩ := ih fun other hOther => hKnown other (by simp [hOther])
      rw [firstTerrible, counted_of_lookup hEntry, ok_bind]
      split_ifs
      · exact ⟨some it, rfl, by simp⟩
      · exact ⟨found, hFound, fun other hOther => by simp [hMem other hOther]⟩

/-- An item that was drawn becomes the oldest, or the oldest so far stays. -/
theorem oldestDrawn_of_mem
    {n : List ℕ} {nI it : ℕ} (rest : List ℕ) {nOldest : Option ℕ} {info : CAddrInfo}
    (hDrawn : nI ∈ n) (hEntry : man.mapInfo.lookup it = some info)
    (hOldest : ∀ oldest, nOldest = some oldest →
      ∃ info, man.mapInfo.lookup oldest = some info) :
    ∃ next, man.oldestDrawn n nI (it :: rest) nOldest =
        man.oldestDrawn n (nI + 1) rest (some next) ∧
      (next = it ∨ nOldest = some next) := by
  cases nOldest with
  | none =>
      refine ⟨it, ?_, Or.inl rfl⟩
      rw [oldestDrawn.eq_def]
      dsimp only
      rw [if_pos hDrawn]
  | some oldest =>
      obtain ⟨infoOldest, hEntryOldest⟩ := hOldest oldest rfl
      refine ⟨if info.nTime < infoOldest.nTime then it else oldest, ?_, ?_⟩
      · rw [oldestDrawn.eq_def]
        dsimp only
        rw [if_pos hDrawn, counted_of_lookup hEntry, ok_bind,
          counted_of_lookup hEntryOldest, ok_bind, apply_ite some]
      · split_ifs
        · exact Or.inl rfl
        · exact Or.inr rfl

/-- The second loop of `ShrinkNew` finds an item when a place that was drawn is among
those it goes through. -/
theorem oldestDrawn_spec
    (n : List ℕ) {nI : ℕ} {its : List ℕ} {nOldest : Option ℕ}
    (hKnown : ∀ it ∈ its, ∃ info, man.mapInfo.lookup it = some info)
    (hOldest : ∀ oldest, nOldest = some oldest →
      ∃ info, man.mapInfo.lookup oldest = some info) :
    ∃ found, man.oldestDrawn n nI its nOldest = .ok found ∧
      (∀ it, found = some it → it ∈ its ∨ nOldest = some it) ∧
      (nOldest ≠ none ∨ (∃ i ∈ n, nI ≤ i ∧ i < nI + its.length) → found ≠ none) := by
  induction its generalizing nI nOldest with
  | nil =>
      refine ⟨nOldest, rfl, fun it h => Or.inr h, ?_⟩
      rintro (h | ⟨i, -, hLower, hUpper⟩)
      · exact h
      · rw [List.length_nil] at hUpper
        omega
  | cons it rest ih =>
      obtain ⟨info, hEntry⟩ := hKnown it (by simp)
      have hRest : ∀ other ∈ rest, ∃ info, man.mapInfo.lookup other = some info :=
        fun other hOther => hKnown other (by simp [hOther])
      by_cases hDrawn : nI ∈ n
      · obtain ⟨next, hRound, hNext⟩ := oldestDrawn_of_mem rest hDrawn hEntry hOldest
        have hNextKnown : ∀ oldest, some next = some oldest →
            ∃ info, man.mapInfo.lookup oldest = some info := by
          intro oldest hEq
          obtain rfl : next = oldest := Option.some.inj hEq
          rcases hNext with rfl | hOld
          · exact ⟨info, hEntry⟩
          · exact hOldest next hOld
        rw [hRound]
        obtain ⟨found, hFound, hMem, hNonempty⟩ := ih hRest hNextKnown
        refine ⟨found, hFound, ?_, fun _ => hNonempty (Or.inl (by simp))⟩
        intro other hOther
        rcases hMem other hOther with hIn | hEq
        · exact Or.inl (by simp [hIn])
        · obtain rfl : next = other := Option.some.inj hEq
          rcases hNext with rfl | hOld
          · exact Or.inl (by simp)
          · exact Or.inr hOld
      · rw [oldestDrawn.eq_def]
        dsimp only
        rw [if_neg hDrawn]
        obtain ⟨found, hFound, hMem, hNonempty⟩ := ih hRest hOldest
        refine ⟨found, hFound, ?_, ?_⟩
        · intro other hOther
          rcases hMem other hOther with hIn | hEq
          · exact Or.inl (by simp [hIn])
          · exact Or.inr hEq
        · rintro (hSome | ⟨i, hI, hLower, hUpper⟩)
          · exact hNonempty (Or.inl hSome)
          · refine hNonempty (Or.inr ⟨i, hI, ?_, ?_⟩)
            · rcases Nat.lt_or_ge nI i with hLt | hGe
              · exact hLt
              · obtain rfl : i = nI := by
                  omega
                exact absurd hI hDrawn
            · rw [List.length_cons] at hUpper
              omega

/-- `ShrinkNew` on a bucket that is not empty takes one entry out of it. -/
theorem shrinkNew_spec
    (h : Consistent prims attempted pending man) (nNow : ℤ) (rand : ℕ → ℕ) {b : NewBucket}
    (hNonempty : 0 < (man.vvNew b).card)
    (hPending : ∀ nId, pending = some nId → nId ∉ man.vvNew b) :
    ∃ code man' nId, man.shrinkNew nNow rand b = .ok (code, man') ∧
      Consistent prims attempted pending man' ∧ TouchesOnly nId man man' ∧ nId ∈ man.vvNew b ∧
      man'.vvNew = takeFrom man.vvNew b nId := by
  have hKnown : ∀ it ∈ (man.vvNew b).sort (· ≤ ·), ∃ info, man.mapInfo.lookup it = some info := by
    intro it hIt
    obtain ⟨info, hEntry, -⟩ := entry_of_mem_new h ((Finset.mem_sort _).mp hIt)
    exact ⟨info, hEntry⟩
  have hNotPending : ∀ nId ∈ man.vvNew b, pending ≠ some nId := by
    intro nId hMem hEq
    exact hPending nId hEq hMem
  unfold shrinkNew
  obtain ⟨found, hFound, hIn⟩ := firstTerrible_spec nNow hKnown
  dsimp only
  rw [hFound, ok_bind]
  cases found with
  | some it =>
      have hMem : it ∈ man.vvNew b := (Finset.mem_sort _).mp (hIn it rfl)
      obtain ⟨man', hDrop, hConsistent, hTouches, hNew⟩ :=
        dropReference_spec h hMem (hNotPending it hMem)
      refine ⟨0, man', it, ?_, hConsistent, hTouches, hMem, hNew⟩
      dsimp only
      rw [hDrop, ok_bind]
  | none =>
      obtain ⟨oldest, hOldest, hFrom, hSome⟩ := oldestDrawn_spec
        ([0, 1, 2, 3].map fun i => getRandInt (rand i) (man.vvNew b).card) hKnown
        (fun oldest hNone => absurd hNone (Option.some_ne_none oldest).symm)
      dsimp only
      rw [hOldest, ok_bind]
      cases oldest with
      | none =>
          refine absurd rfl (hSome (Or.inr ⟨getRandInt (rand 0) (man.vvNew b).card, ?_, ?_, ?_⟩))
          · simp
          · exact Nat.zero_le _
          · rw [Nat.zero_add, Finset.length_sort]
            exact getRandInt_lt hNonempty
      | some nOldest =>
          have hMem : nOldest ∈ man.vvNew b := by
            rcases hFrom nOldest rfl with hIt | hNone
            · exact (Finset.mem_sort _).mp hIt
            · cases hNone
          obtain ⟨man', hDrop, hConsistent, hTouches, hNew⟩ :=
            dropReference_spec h hMem (hNotPending nOldest hMem)
          refine ⟨1, man', nOldest, ?_, hConsistent, hTouches, hMem, hNew⟩
          dsimp only
          rw [hDrop, ok_bind]

end CAddrMan

end SocietyGold
