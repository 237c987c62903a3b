import SocietyGold.AddrTables

/-!
# The indexes of the address manager

`vRandom`, `mapAddr` and `mapInfo` index each other, the ids are placed correctly and
the counters count them.  A swap in `vRandom` and the removal or addition of an entry
keep the three indexes exact.
-/

namespace SocietyGold

open Support

def CAddrInfo.summary (info : CAddrInfo) : AddrSummary :=
  ⟨info.toCService, info.nRefCount, info.fInTried⟩

/-- An entry apart from its position in `vRandom`. -/
def CAddrInfo.unplaced (info : CAddrInfo) : CAddrInfo := { info with nRandomPos := 0 }

namespace CAddrMan

/-- What is placed where. -/
def tables (man : CAddrMan) : AddrTables where
  summary := fun nId => (man.mapInfo.lookup nId).map CAddrInfo.summary
  tried := man.vvTried
  new := man.vvNew

/-- `vRandom`, `mapAddr` and `mapInfo` index each other exactly. -/
structure Indexed (man : CAddrMan) : Prop where
  nodup : man.vRandom.Nodup
  known : ∀ nId ∈ man.vRandom, ∃ info, man.mapInfo.lookup nId = some info
  position : ∀ nId info, man.mapInfo.lookup nId = some info →
    ∃ i : ℕ, info.nRandomPos = i ∧ man.vRandom[i]? = some nId
  address : ∀ addr nId, man.mapAddr.lookup addr = some nId ↔
    ∃ info, man.mapInfo.lookup nId = some info ∧ info.toCNetAddr = addr
  fresh : ∀ nId info, man.mapInfo.lookup nId = some info → nId < man.nIdCount

/-- `nTried` and `nNew` count the entries. -/
structure Tallied (man : CAddrMan) : Prop where
  tried : man.nTried = ∑ b, ((man.vvTried b).length : ℤ)
  all : (man.vRandom.length : ℤ) = man.nTried + man.nNew

/-- Successes have positive times, tried entries had one, and attempts have times as
`attempted` says. -/
def Timed (attempted : Int64 → Prop) (man : CAddrMan) : Prop :=
  ∀ nId info, man.mapInfo.lookup nId = some info →
    0 ≤ info.nLastSuccess ∧ (info.fInTried = true → 0 < info.nLastSuccess) ∧
      attempted info.nLastTry

/-- The representation invariant, while one id may be pending. -/
structure Consistent (prims : Primitives) (attempted : Int64 → Prop) (pending : Option ℕ)
    (man : CAddrMan) : Prop where
  indexed : man.Indexed
  placed : man.tables.Placed (CAddrInfo.triedBucket prims man.nKey) pending
  tallied : man.Tallied
  timed : man.Timed attempted

variable {attempted : Int64 → Prop} {man : CAddrMan}

/-! ## Writing entries -/

section Modify

variable (man : CAddrMan) (nId : ℕ) (f : CAddrInfo → CAddrInfo)

theorem lookup_modifyInfo (k : ℕ) :
    (man.modifyInfo nId f).mapInfo.lookup k =
      if k = nId then (man.mapInfo.lookup nId).map f else man.mapInfo.lookup k := by
  unfold modifyInfo
  cases hEntry : man.mapInfo.lookup nId with
  | none =>
      by_cases hK : k = nId
      · subst hK
        simp [hEntry]
      · simp [hK]
  | some info => simp [Table.lookup_insert_ite]

/-- Only the table of entries is written. -/
theorem modifyInfo_frame :
    man.modifyInfo nId f = { man with mapInfo := (man.modifyInfo nId f).mapInfo } := by
  unfold modifyInfo
  split <;> rfl

@[simp] theorem modifyInfo_nKey : (man.modifyInfo nId f).nKey = man.nKey := by
  rw [modifyInfo_frame]

@[simp] theorem modifyInfo_nIdCount : (man.modifyInfo nId f).nIdCount = man.nIdCount := by
  rw [modifyInfo_frame]

@[simp] theorem modifyInfo_mapAddr : (man.modifyInfo nId f).mapAddr = man.mapAddr := by
  rw [modifyInfo_frame]

@[simp] theorem modifyInfo_vRandom : (man.modifyInfo nId f).vRandom = man.vRandom := by
  rw [modifyInfo_frame]

@[simp] theorem modifyInfo_nTried : (man.modifyInfo nId f).nTried = man.nTried := by
  rw [modifyInfo_frame]

@[simp] theorem modifyInfo_vvTried : (man.modifyInfo nId f).vvTried = man.vvTried := by
  rw [modifyInfo_frame]

@[simp] theorem modifyInfo_nNew : (man.modifyInfo nId f).nNew = man.nNew := by
  rw [modifyInfo_frame]

@[simp] theorem modifyInfo_vvNew : (man.modifyInfo nId f).vvNew = man.vvNew := by
  rw [modifyInfo_frame]

end Modify

variable {nId : ℕ} {f : CAddrInfo → CAddrInfo} {info : CAddrInfo}

theorem lookup_modifyInfo_eq_some
    {k : ℕ} {info' : CAddrInfo}
    (h : (man.modifyInfo nId f).mapInfo.lookup k = some info') :
    ∃ info, man.mapInfo.lookup k = some info ∧ info' = if k = nId then f info else info := by
  rw [lookup_modifyInfo] at h
  split_ifs at h with hK
  · obtain ⟨info, hEntry, rfl⟩ := Option.map_eq_some_iff.mp h
    exact ⟨info, hK ▸ hEntry, (if_pos hK).symm⟩
  · exact ⟨info', h, (if_neg hK).symm⟩

/-- Writing an entry is writing its summary. -/
theorem tables_modifyInfo (hEntry : man.mapInfo.lookup nId = some info) :
    (man.modifyInfo nId f).tables = man.tables.setSummary nId (some (f info).summary) := by
  have hSummary : (fun k => ((man.modifyInfo nId f).mapInfo.lookup k).map CAddrInfo.summary) =
      Function.update (fun k => (man.mapInfo.lookup k).map CAddrInfo.summary) nId
        (some (f info).summary) := by
    funext k
    rw [lookup_modifyInfo]
    by_cases hK : k = nId
    · subst hK
      simp [hEntry]
    · simp [hK]
  simp only [tables, AddrTables.setSummary, hSummary, modifyInfo_vvTried, modifyInfo_vvNew]

/-- Writes that keep the position and the address keep the indexes. -/
theorem Indexed.modifyInfo
    (h : man.Indexed) (hPos : ∀ info, (f info).nRandomPos = info.nRandomPos)
    (hAddr : ∀ info, (f info).toCNetAddr = info.toCNetAddr) :
    (man.modifyInfo nId f).Indexed where
  nodup := by simpa using h.nodup
  known k hMem := by
    obtain ⟨info, hEntry⟩ := h.known k (by simpa using hMem)
    rw [lookup_modifyInfo]
    split_ifs with hK
    · exact ⟨f info, by rw [← hK, hEntry, Option.map_some]⟩
    · exact ⟨info, hEntry⟩
  position k info' hEntry' := by
    obtain ⟨info, hEntry, rfl⟩ := lookup_modifyInfo_eq_some hEntry'
    obtain ⟨i, hI, hGet⟩ := h.position k info hEntry
    refine ⟨i, ?_, by simpa using hGet⟩
    split_ifs
    · rw [hPos, hI]
    · exact hI
  address addr k := by
    rw [modifyInfo_mapAddr, h.address addr k, lookup_modifyInfo]
    by_cases hK : k = nId
    · subst hK
      cases man.mapInfo.lookup k with
      | none => simp
      | some info => simp [hAddr]
    · simp [hK]
  fresh k info' hEntry' := by
    obtain ⟨info, hEntry, -⟩ := lookup_modifyInfo_eq_some hEntry'
    simpa using h.fresh k info hEntry

/-! ## Swapping ids in `vRandom` -/

/-- Two managers differ only in the order of `vRandom` and the positions in it. -/
structure Reordered (man man' : CAddrMan) : Prop where
  frame : man' = { man with vRandom := man'.vRandom, mapInfo := man'.mapInfo }
  entries : ∀ nId, (man'.mapInfo.lookup nId).map CAddrInfo.unplaced =
    (man.mapInfo.lookup nId).map CAddrInfo.unplaced

theorem Reordered.refl (man : CAddrMan) : Reordered man man := ⟨rfl, fun _ => rfl⟩

theorem Reordered.trans
    {man' man'' : CAddrMan} (h : Reordered man man') (h' : Reordered man' man'') :
    Reordered man man'' where
  frame := by
    rw [h'.frame, h.frame]
  entries := fun nId => (h'.entries nId).trans (h.entries nId)

theorem Reordered.lookup
    {man' : CAddrMan} (h : Reordered man man') {nId : ℕ} {info' : CAddrInfo}
    (hEntry : man'.mapInfo.lookup nId = some info') :
    ∃ info, man.mapInfo.lookup nId = some info ∧ info'.unplaced = info.unplaced := by
  have hEntries := h.entries nId
  rw [hEntry, Option.map_some, eq_comm, Option.map_eq_some_iff] at hEntries
  obtain ⟨info, hOld, hEq⟩ := hEntries
  exact ⟨info, hOld, hEq.symm⟩

theorem Reordered.tables {man' : CAddrMan} (h : Reordered man man') :
    man'.tables = man.tables := by
  have hSummary : ∀ nId, (man'.mapInfo.lookup nId).map CAddrInfo.summary =
      (man.mapInfo.lookup nId).map CAddrInfo.summary := by
    intro nId
    have hEntries := congrArg (Option.map CAddrInfo.summary) (h.entries nId)
    rwa [Option.map_map, Option.map_map] at hEntries
  have hFrame := h.frame
  unfold CAddrMan.tables
  rw [funext hSummary]
  rw [hFrame]

theorem Reordered.timed
    {man' : CAddrMan} (h : Reordered man man') (hTimed : man.Timed attempted) :
    man'.Timed attempted := by
  intro nId info' hEntry
  obtain ⟨info, hOld, hEq⟩ := h.lookup hEntry
  have hOldTimed := hTimed nId info hOld
  change 0 ≤ info'.unplaced.nLastSuccess ∧
    (info'.unplaced.fInTried = true → 0 < info'.unplaced.nLastSuccess) ∧
      attempted info'.unplaced.nLastTry
  rw [hEq]
  exact hOldTimed

theorem Reordered.symm {man' : CAddrMan} (h : Reordered man man') : Reordered man' man where
  frame := by
    rw [h.frame]
  entries := fun nId => (h.entries nId).symm

/-- The indexes stay exact if the ids and their positions do. -/
theorem Reordered.indexed
    {man' : CAddrMan} (h : Reordered man man') (hMan : man.Indexed)
    (hPerm : man'.vRandom.Perm man.vRandom)
    (hPosition : ∀ nId info, man'.mapInfo.lookup nId = some info →
      ∃ i : ℕ, info.nRandomPos = i ∧ man'.vRandom[i]? = some nId) : man'.Indexed where
  nodup := hPerm.nodup_iff.mpr hMan.nodup
  known := by
    intro nId hMem
    obtain ⟨info, hEntry⟩ := hMan.known nId (hPerm.mem_iff.mp hMem)
    obtain ⟨info', hEntry', -⟩ := h.symm.lookup hEntry
    exact ⟨info', hEntry'⟩
  position := hPosition
  address := by
    intro addr nId
    have hAddr : man'.mapAddr = man.mapAddr := by
      rw [h.frame]
    have hSame {info info' : CAddrInfo} (hEq : info'.unplaced = info.unplaced) :
        info'.toCNetAddr = info.toCNetAddr :=
      congrArg (fun info => info.toCNetAddr) hEq
    rw [hAddr, hMan.address addr nId]
    constructor
    · rintro ⟨info, hEntry, rfl⟩
      obtain ⟨info', hEntry', hEq⟩ := h.symm.lookup hEntry
      exact ⟨info', hEntry', (hSame hEq).symm⟩
    · rintro ⟨info', hEntry', rfl⟩
      obtain ⟨info, hEntry, hEq⟩ := h.lookup hEntry'
      exact ⟨info, hEntry, (hSame hEq).symm⟩
  fresh := by
    intro nId info' hEntry'
    obtain ⟨info, hEntry, -⟩ := h.lookup hEntry'
    have hCount : man'.nIdCount = man.nIdCount := by
      rw [h.frame]
    rw [hCount]
    exact hMan.fresh nId info hEntry

/-- The positions of two ids have been exchanged. -/
theorem Indexed.swap
    (h : man.Indexed) {i j nId1 nId2 : ℕ} (hI : man.vRandom[i]? = some nId1)
    (hJ : man.vRandom[j]? = some nId2) (hNe : i ≠ j) {man' : CAddrMan}
    (hMan : man' = { (man.modifyInfo nId1 fun info => { info with nRandomPos := j }).modifyInfo
      nId2 fun info => { info with nRandomPos := i } with
        vRandom := swapAt man.vRandom i j }) :
    man'.Indexed ∧ Reordered man man' := by
  have hLtI : i < man.vRandom.length := (List.getElem?_eq_some_iff.mp hI).1
  have hLtJ : j < man.vRandom.length := (List.getElem?_eq_some_iff.mp hJ).1
  have hIds : nId1 ≠ nId2 := by
    rintro rfl
    exact hNe ((List.getElem?_inj hLtI h.nodup).mp (hI.trans hJ.symm))
  have hLookup : ∀ k, man'.mapInfo.lookup k =
      if k = nId2 then (man.mapInfo.lookup k).map fun info => { info with nRandomPos := i }
      else if k = nId1 then (man.mapInfo.lookup k).map fun info => { info with nRandomPos := j }
      else man.mapInfo.lookup k := by
    intro k
    rw [hMan]
    dsimp only
    rw [lookup_modifyInfo, lookup_modifyInfo, lookup_modifyInfo, if_neg hIds.symm]
    by_cases hK2 : k = nId2
    · subst hK2
      simp
    · by_cases hK1 : k = nId1
      · subst hK1
        simp [hIds]
      · simp [hK1, hK2]
  have hFrame : Reordered man man' := by
    constructor
    · rw [hMan, modifyInfo_frame, modifyInfo_frame]
    · intro k
      rw [hLookup]
      split_ifs <;> cases man.mapInfo.lookup k <;> rfl
  have hRandom : man'.vRandom = swapAt man.vRandom i j := by
    rw [hMan]
  refine ⟨hFrame.indexed h (hRandom ▸ swapAt_perm _ _ _) ?_, hFrame⟩
  intro k info' hEntry'
  rw [hLookup] at hEntry'
  rw [hRandom]
  by_cases hK2 : k = nId2
  · subst hK2
    rw [if_pos rfl, Option.map_eq_some_iff] at hEntry'
    obtain ⟨info, -, rfl⟩ := hEntry'
    refine ⟨i, rfl, ?_⟩
    rw [getElem?_swapAt hLtI hLtJ, if_neg hNe, if_pos rfl, hJ]
  rw [if_neg hK2] at hEntry'
  by_cases hK1 : k = nId1
  · subst hK1
    rw [if_pos rfl, Option.map_eq_some_iff] at hEntry'
    obtain ⟨info, -, rfl⟩ := hEntry'
    refine ⟨j, rfl, ?_⟩
    rw [getElem?_swapAt hLtI hLtJ, if_pos rfl, hI]
  rw [if_neg hK1] at hEntry'
  obtain ⟨p, hPos, hGet⟩ := h.position k info' hEntry'
  refine ⟨p, hPos, ?_⟩
  have hPJ : p ≠ j := by
    rintro rfl
    exact hK2 (Option.some.inj (hGet.symm.trans hJ))
  have hPI : p ≠ i := by
    rintro rfl
    exact hK1 (Option.some.inj (hGet.symm.trans hI))
  rw [getElem?_swapAt hLtI hLtJ, if_neg hPJ, if_neg hPI, hGet]

/-- `SwapRandom` with positions in range passes its assertions. -/
theorem swapRandom_spec
    (h : man.Indexed) {i j : ℕ} (hI : i < man.vRandom.length) (hJ : j < man.vRandom.length) :
    ∃ man', man.swapRandom i j = .ok man' ∧ man'.Indexed ∧ Reordered man man' ∧
      man'.vRandom = swapAt man.vRandom i j := by
  unfold swapRandom
  by_cases hEq : i = j
  · subst hEq
    exact ⟨man, by rw [if_pos rfl], h, Reordered.refl man, (swapAt_self _ _).symm⟩
  have hInt : (i : ℤ) ≠ j := by
    exact_mod_cast hEq
  have hRange : (decide ((0 : ℤ) ≤ i) && decide ((i : ℤ) < man.vRandom.length) &&
      (decide ((0 : ℤ) ≤ j) && decide ((j : ℤ) < man.vRandom.length))) = true := by
    simp [hI, hJ]
  obtain ⟨info1, hEntry1⟩ := h.known _ (List.getElem_mem hI)
  obtain ⟨info2, hEntry2⟩ := h.known _ (List.getElem_mem hJ)
  have hSwap := h.swap (List.getElem?_eq_getElem hI) (List.getElem?_eq_getElem hJ) hEq rfl
  refine ⟨_, ?_, hSwap.1, hSwap.2, rfl⟩
  rw [if_neg hInt, hRange]
  simp only [assertThat, if_true, ok_bind, Int.toNat_natCast, elementAt_of_lt hI,
    elementAt_of_lt hJ, counted, hEntry1, hEntry2, modifyInfo_vRandom]

/-! ## Removing and adding entries -/

/-- The entry whose id is last in `vRandom` has been removed. -/
theorem Indexed.remove
    (h : man.Indexed) (hEntry : man.mapInfo.lookup nId = some info)
    (hLast : man.vRandom.getLast? = some nId) {man' : CAddrMan}
    (hRandom : man'.vRandom = man.vRandom.dropLast)
    (hAddr : man'.mapAddr = man.mapAddr.erase info.toCNetAddr)
    (hInfo : man'.mapInfo = man.mapInfo.erase nId) (hCount : man'.nIdCount = man.nIdCount) :
    man'.Indexed := by
  have hLookup : ∀ {k info'}, man'.mapInfo.lookup k = some info' ↔
      k ≠ nId ∧ man.mapInfo.lookup k = some info' := by
    intro k info'
    rw [hInfo, Table.lookup_erase_ite]
    by_cases hK : k = nId
    · simp [hK]
    · simp [hK]
  constructor
  · rw [hRandom]
    exact h.nodup.sublist (List.dropLast_sublist _)
  · intro k hMem
    rw [hRandom, mem_dropLast_iff h.nodup hLast] at hMem
    obtain ⟨info', hEntry'⟩ := h.known k hMem.1
    exact ⟨info', hLookup.mpr ⟨hMem.2, hEntry'⟩⟩
  · intro k info' hEntry'
    obtain ⟨hK, hOld⟩ := hLookup.mp hEntry'
    obtain ⟨i, hI, hGet⟩ := h.position k info' hOld
    refine ⟨i, hI, ?_⟩
    rw [hRandom, getElem?_dropLast_eq_some]
    refine ⟨hGet, ?_⟩
    by_contra hEnd
    have hLt := (List.getElem?_eq_some_iff.mp hGet).1
    have hAt : i = man.vRandom.length - 1 := by
      omega
    rw [List.getLast?_eq_getElem?, ← hAt, hGet] at hLast
    exact hK (Option.some.inj hLast)
  · intro addr k
    rw [hAddr, Table.lookup_erase_ite]
    constructor
    · intro hFound
      split_ifs at hFound with hEq
      obtain ⟨info', hEntry', hAddr'⟩ := (h.address addr k).mp hFound
      refine ⟨info', hLookup.mpr ⟨?_, hEntry'⟩, hAddr'⟩
      rintro rfl
      rw [hEntry, Option.some.injEq] at hEntry'
      exact hEq (by rw [hEntry', hAddr'])
    · rintro ⟨info', hEntry', hAddr'⟩
      obtain ⟨hK, hOld⟩ := hLookup.mp hEntry'
      have hFound := (h.address addr k).mpr ⟨info', hOld, hAddr'⟩
      rw [if_neg, hFound]
      rintro rfl
      have hSelf := (h.address info.toCNetAddr nId).mpr ⟨info, hEntry, rfl⟩
      exact hK (Option.some.inj (hFound.symm.trans hSelf))
  · intro k info' hEntry'
    rw [hCount]
    exact h.fresh k info' (hLookup.mp hEntry').2

/-- An entry for an address that was not known has been added under a new id. -/
theorem Indexed.add
    (h : man.Indexed) {addr : CNetAddr} (hNew : man.mapAddr.lookup addr = none)
    (hInfoAddr : info.toCNetAddr = addr) (hInfoPos : info.nRandomPos = man.vRandom.length)
    {man' : CAddrMan} (hRandom : man'.vRandom = man.vRandom ++ [man.nIdCount])
    (hAddr : man'.mapAddr = man.mapAddr.insert addr man.nIdCount)
    (hInfo : ∀ k, man'.mapInfo.lookup k =
      if k = man.nIdCount then some info else man.mapInfo.lookup k)
    (hCount : man'.nIdCount = man.nIdCount + 1) : man'.Indexed := by
  have hFreshId : man.mapInfo.lookup man.nIdCount = none := by
    cases hEntry : man.mapInfo.lookup man.nIdCount with
    | none => rfl
    | some old => exact absurd (h.fresh _ old hEntry) (lt_irrefl _)
  have hNotIn : man.nIdCount ∉ man.vRandom := by
    intro hMem
    obtain ⟨old, hEntry⟩ := h.known _ hMem
    rw [hFreshId] at hEntry
    cases hEntry
  constructor
  · rw [hRandom, ← List.concat_eq_append]
    exact h.nodup.concat hNotIn
  · intro k hMem
    rw [hRandom, List.mem_append, List.mem_singleton] at hMem
    rw [hInfo]
    split_ifs with hK
    · exact ⟨info, rfl⟩
    · exact h.known k (hMem.resolve_right hK)
  · intro k info' hEntry'
    rw [hInfo] at hEntry'
    rw [hRandom]
    split_ifs at hEntry' with hK
    · obtain rfl : info = info' := Option.some.inj hEntry'
      refine ⟨man.vRandom.length, hInfoPos, ?_⟩
      rw [hK, List.getElem?_concat_length]
    · obtain ⟨i, hI, hGet⟩ := h.position k info' hEntry'
      refine ⟨i, hI, ?_⟩
      rw [List.getElem?_append_left (List.getElem?_eq_some_iff.mp hGet).1, hGet]
  · intro a k
    rw [hAddr, Table.lookup_insert_ite, hInfo]
    by_cases hA : a = addr
    · subst hA
      rw [if_pos rfl, Option.some.injEq]
      constructor
      · rintro rfl
        exact ⟨info, if_pos rfl, hInfoAddr⟩
      · rintro ⟨info', hEntry', hAddr'⟩
        by_contra hK
        rw [if_neg (Ne.symm hK)] at hEntry'
        have hFound := (h.address a k).mpr ⟨info', hEntry', hAddr'⟩
        rw [hNew] at hFound
        cases hFound
    · rw [if_neg hA, h.address a k]
      constructor
      · rintro ⟨info', hEntry', hAddr'⟩
        refine ⟨info', ?_, hAddr'⟩
        have hK : k ≠ man.nIdCount := (h.fresh k info' hEntry').ne
        rw [if_neg hK, hEntry']
      · rintro ⟨info', hEntry', hAddr'⟩
        split_ifs at hEntry' with hK
        · obtain rfl : info = info' := Option.some.inj hEntry'
          exact absurd (hAddr'.symm.trans hInfoAddr) hA
        · exact ⟨info', hEntry', hAddr'⟩
  · intro k info' hEntry'
    rw [hInfo] at hEntry'
    rw [hCount]
    split_ifs at hEntry' with hK
    · omega
    · exact Nat.lt_succ_of_lt (h.fresh k info' hEntry')

/-! ## Finding entries -/

theorem find_eq_some
    (h : man.Indexed) {addr : CNetAddr} :
    man.find addr = some (nId, info) ↔
      man.mapInfo.lookup nId = some info ∧ info.toCNetAddr = addr := by
  unfold find
  constructor
  · intro hFind
    cases hAddr : man.mapAddr.lookup addr with
    | none => simp [hAddr] at hFind
    | some k =>
        obtain ⟨info', hEntry, hInfoAddr⟩ := (h.address addr k).mp hAddr
        simp only [hAddr, hEntry, Option.bind_eq_bind, Option.bind_some, Option.some.injEq,
          Prod.mk.injEq] at hFind
        obtain ⟨rfl, rfl⟩ := hFind
        exact ⟨hEntry, hInfoAddr⟩
  · rintro ⟨hEntry, hInfoAddr⟩
    have hAddr := (h.address addr nId).mpr ⟨info, hEntry, hInfoAddr⟩
    simp [hAddr, hEntry]

theorem find_eq_none
    (h : man.Indexed) {addr : CNetAddr} :
    man.find addr = none ↔ man.mapAddr.lookup addr = none := by
  unfold find
  cases hAddr : man.mapAddr.lookup addr with
  | none => simp
  | some k =>
      obtain ⟨info', hEntry, -⟩ := (h.address addr k).mp hAddr
      simp [hEntry]

end CAddrMan

end SocietyGold
