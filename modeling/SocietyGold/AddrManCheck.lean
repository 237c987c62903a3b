import SocietyGold.AddrManRuns
import SocietyGold.State

/-!
# What `Check_` finds

On a consistent manager `Check_` passes all its tests but one: it finds the entries whose
last attempt has a negative time.  With the calls of `AddrManRuns` this is what `Check_`
finds after any run.
-/

namespace SocietyGold

open Support

namespace CAddrMan

variable {prims : Primitives} {attempted : Int64 → Prop} {man : CAddrMan}

/-! ## Counting down -/

/-- The bucket loops of `Check_` end with nothing left when every id occurs as often as
it was counted. -/
theorem foldlM_checkTried {ids : List ℕ} (hNodup : ids.Nodup) :
    ids.foldlM checkTried ids.toFinset = .ok ∅ := by
  induction ids with
  | nil => rfl
  | cons nId ids ih =>
      obtain ⟨hFresh, hRest⟩ := List.nodup_cons.mp hNodup
      have hErase : (nId :: ids).toFinset.erase nId = ids.toFinset := by
        rw [List.toFinset_cons, Finset.erase_insert (by simpa using hFresh)]
      rw [List.foldlM_cons, checkTried, if_pos (by simp), hErase]
      exact ih hRest

theorem foldlM_checkNew
    {ids : List ℕ} {mapNew : Table ℕ ℤ}
    (hCount : ∀ k, mapNew.lookup k = if ids.count k = 0 then none else some (ids.count k : ℤ)) :
    ∃ left : Table ℕ ℤ, ids.foldlM checkNew mapNew = .ok left ∧ ∀ k, left.lookup k = none := by
  induction ids generalizing mapNew with
  | nil => exact ⟨mapNew, rfl, fun k => by simpa using hCount k⟩
  | cons nId ids ih =>
      have hHead : mapNew.lookup nId = some ((ids.count nId : ℤ) + 1) := by
        rw [hCount, List.count_cons_self, if_neg (Nat.succ_ne_zero _)]
        push_cast
        rfl
      have hOther : ∀ k, k ≠ nId → mapNew.lookup k =
          if ids.count k = 0 then none else some (ids.count k : ℤ) := by
        intro k hK
        rw [hCount, List.count_cons_of_ne (Ne.symm hK)]
      by_cases hLast : ids.count nId = 0
      · have hStep : checkNew mapNew nId = .ok (mapNew.erase nId) := by
          simp [checkNew, hHead, hLast]
        rw [List.foldlM_cons, hStep]
        refine ih fun k => ?_
        rw [Table.lookup_erase_ite]
        by_cases hK : k = nId
        · rw [if_pos hK, hK, if_pos hLast]
        · rw [if_neg hK, hOther k hK]
      · have hStep : checkNew mapNew nId = .ok (mapNew.insert nId (ids.count nId)) := by
          simp [checkNew, hHead, hLast]
        rw [List.foldlM_cons, hStep]
        refine ih fun k => ?_
        rw [Table.lookup_insert_ite]
        by_cases hK : k = nId
        · rw [if_pos hK, hK, if_neg hLast]
        · rw [if_neg hK, hOther k hK]

/-! ## The entries -/

/-- What a round of the first loop of `Check_` collects. -/
def countEntry (census : Census) (entry : ℕ × CAddrInfo) : Census :=
  if entry.2.fInTried then { census with setTried := insert entry.1 census.setTried }
  else { census with mapNew := census.mapNew.insert entry.1 entry.2.nRefCount }

/-- Of an entry of a consistent manager `Check_` only tests the time of the last attempt. -/
theorem checkEntry_eq
    (h : Consistent prims attempted none man) (census : Census) {nId : ℕ} {info : CAddrInfo}
    (hEntry : man.mapInfo.lookup nId = some info) :
    man.checkEntry census (nId, info) =
      if info.nLastTry < 0 then .error (-6) else .ok (countEntry census (nId, info)) := by
  obtain ⟨i, hPos, hAt⟩ := h.indexed.position nId info hEntry
  have hAddr := (h.indexed.address info.toCNetAddr nId).mpr ⟨info, hEntry, rfl⟩
  have hRange : i < man.vRandom.length := (List.getElem?_eq_some_iff.mp hAt).1
  obtain ⟨hSuccess, hTried, -⟩ := h.timed nId info hEntry
  have hNoSuccess : ¬info.nLastSuccess < 0 := by
    intro hNeg
    exact absurd (Int64.lt_of_lt_of_le hNeg hSuccess) (Int64.lt_irrefl)
  have hPlace : ¬(info.nRandomPos < 0 || info.nRandomPos ≥ man.vRandom.length ||
      man.vRandom[info.nRandomPos.toNat]? ≠ some nId) = true := by
    rw [hPos, Int.toNat_natCast, hAt]
    simp [hRange]
  have hIndex : ¬(man.mapAddr.lookup info.toCNetAddr).getD 0 ≠ nId := by
    rw [hAddr, Option.getD_some]
    exact not_not_intro rfl
  unfold checkEntry countEntry
  dsimp only
  cases hTable : info.fInTried with
  | true =>
      have hCount := (h.placed.tried_entry (summary_tables hEntry) hTable).2.2
      have hZero : info.nLastSuccess ≠ 0 := by
        intro hZero
        have hPositive := hTried hTable
        rw [hZero] at hPositive
        exact absurd hPositive Int64.lt_irrefl
      have hReferences : ¬info.nRefCount ≠ 0 := not_not_intro hCount
      simp only [if_true, if_neg hZero, if_neg hReferences, ok_bind, if_neg hIndex,
        if_neg hPlace, if_neg hNoSuccess]
  | false =>
      obtain ⟨-, -, hLower, hUpper⟩ := h.placed.new_entry (summary_tables hEntry) hTable
      have hBounds : ¬(info.nRefCount < 0 ||
          info.nRefCount > ADDRMAN_NEW_BUCKETS_PER_ADDRESS) = true := by
        have hNonneg : ¬info.nRefCount < 0 := by
          change 1 ≤ info.nRefCount at hLower
          omega
        have hAtMost : ¬info.nRefCount > ADDRMAN_NEW_BUCKETS_PER_ADDRESS := not_lt.mpr hUpper
        simp [hNonneg, hAtMost]
      have hReferences : info.nRefCount ≠ 0 := by
        change 1 ≤ info.nRefCount at hLower
        omega
      simp only [Bool.false_eq_true, if_false, if_neg hBounds, if_neg hReferences, ok_bind,
        if_neg hIndex, if_neg hPlace, if_neg hNoSuccess]

/-- The first loop of `Check_` stops at a negative time of an attempt, and otherwise
collects every entry. -/
theorem foldlM_checkEntry
    (h : Consistent prims attempted none man) (census : Census) {entries : List (ℕ × CAddrInfo)}
    (hEntries : ∀ e ∈ entries, man.mapInfo.lookup e.1 = some e.2) :
    entries.foldlM man.checkEntry census =
      if ∃ e ∈ entries, e.2.nLastTry < 0 then .error (-6)
      else .ok (entries.foldl countEntry census) := by
  induction entries generalizing census with
  | nil => simp [pure, Except.pure]
  | cons e entries ih =>
      have hHead := checkEntry_eq h census (hEntries e List.mem_cons_self)
      have hRest := ih (countEntry census e) fun e' he' => hEntries e' (List.mem_cons_of_mem _ he')
      rw [List.foldlM_cons, hHead]
      by_cases hNegative : e.2.nLastTry < 0
      · rw [if_pos hNegative, if_pos ⟨e, List.mem_cons_self, hNegative⟩]
        rfl
      · have hSame : (∃ e' ∈ e :: entries, e'.2.nLastTry < 0) ↔
            ∃ e' ∈ entries, e'.2.nLastTry < 0 := by
          simp [hNegative]
        rw [if_neg hNegative, ok_bind, hRest, List.foldl_cons]
        exact if_congr hSame.symm rfl rfl

/-- The tried ids that the first loop collects. -/
theorem mem_setTried (entries : List (ℕ × CAddrInfo)) (nId : ℕ) :
    nId ∈ (entries.foldl countEntry ⟨∅, ∅⟩).setTried ↔
      ∃ info, (nId, info) ∈ entries ∧ info.fInTried = true := by
  induction entries using List.reverseRecOn with
  | nil => simp
  | append_singleton entries e ih =>
      obtain ⟨k, info⟩ := e
      rw [List.foldl_append, List.foldl_cons, List.foldl_nil, countEntry]
      cases hTable : info.fInTried with
      | true =>
          simp only [if_true, Finset.mem_insert, ih, List.mem_append, List.mem_singleton]
          constructor
          · rintro (rfl | ⟨info', hMem, hTried⟩)
            · exact ⟨info, Or.inr rfl, hTable⟩
            · exact ⟨info', Or.inl hMem, hTried⟩
          · rintro ⟨info', hMem | hEq, hTried⟩
            · exact Or.inr ⟨info', hMem, hTried⟩
            · exact Or.inl (congrArg Prod.fst hEq)
      | false =>
          simp only [Bool.false_eq_true, if_false, ih, List.mem_append, List.mem_singleton]
          constructor
          · rintro ⟨info', hMem, hTried⟩
            exact ⟨info', Or.inl hMem, hTried⟩
          · rintro ⟨info', hMem | hEq, hTried⟩
            · exact ⟨info', hMem, hTried⟩
            · rw [Prod.mk.injEq] at hEq
              rw [hEq.2, hTable] at hTried
              cases hTried

/-- The reference counts that the first loop collects. -/
theorem lookup_mapNew
    {entries : List (ℕ × CAddrInfo)}
    (hEntries : ∀ e ∈ entries, man.mapInfo.lookup e.1 = some e.2) (nId : ℕ) (nRefCount : ℤ) :
    (entries.foldl countEntry ⟨∅, ∅⟩).mapNew.lookup nId = some nRefCount ↔
      ∃ info, (nId, info) ∈ entries ∧ info.fInTried = false ∧ info.nRefCount = nRefCount := by
  induction entries using List.reverseRecOn with
  | nil => simp
  | append_singleton entries e ih =>
      obtain ⟨k, info⟩ := e
      have hBefore := ih fun e he => hEntries e (List.mem_append_left _ he)
      have hLast : man.mapInfo.lookup k = some info :=
        hEntries (k, info) (List.mem_append_right _ List.mem_cons_self)
      rw [List.foldl_append, List.foldl_cons, List.foldl_nil, countEntry]
      cases hTable : info.fInTried with
      | true =>
          simp only [if_true, hBefore, List.mem_append, List.mem_singleton]
          constructor
          · rintro ⟨info', hMem, hNew⟩
            exact ⟨info', Or.inl hMem, hNew⟩
          · rintro ⟨info', hMem | hEq, hNew⟩
            · exact ⟨info', hMem, hNew⟩
            · rw [Prod.mk.injEq] at hEq
              rw [hEq.2, hTable] at hNew
              cases hNew.1
      | false =>
          simp only [Bool.false_eq_true, if_false, Table.lookup_insert_ite]
          by_cases hK : nId = k
          · subst hK
            rw [if_pos rfl, Option.some.injEq]
            constructor
            · intro hCount
              exact ⟨info, List.mem_append_right _ List.mem_cons_self, hTable, hCount⟩
            · rintro ⟨info', hMem, -, hCount⟩
              have hSame : man.mapInfo.lookup nId = some info' := hEntries (nId, info') hMem
              rw [hLast, Option.some.injEq] at hSame
              rw [hSame, hCount]
          · rw [if_neg hK, hBefore]
            have hOnly : ∀ info', (nId, info') ∈ entries ++ [(k, info)] ↔
                (nId, info') ∈ entries := by
              intro info'
              simp [hK]
            simp only [hOnly]

/-! ## The counters -/

theorem mem_triedIds
    (h : Consistent prims attempted none man) (nId : ℕ) :
    nId ∈ man.triedIds ↔
      ∃ info, man.mapInfo.lookup nId = some info ∧ info.fInTried = true := by
  unfold triedIds
  rw [List.mem_flatMap]
  constructor
  · rintro ⟨b, -, hMem⟩
    obtain ⟨info, hEntry, hTried, -⟩ := (mem_vvTried h b nId).mp hMem
    exact ⟨info, hEntry, hTried⟩
  · rintro ⟨info, hEntry, hTried⟩
    exact ⟨_, List.mem_finRange _, (mem_vvTried h _ nId).mpr ⟨info, hEntry, hTried, rfl⟩⟩

theorem nodup_triedIds (h : Consistent prims attempted none man) : man.triedIds.Nodup := by
  unfold triedIds
  rw [List.nodup_flatMap]
  refine ⟨fun b _ => h.placed.tried_nodup b, ?_⟩
  refine (List.nodup_finRange _).imp fun {b b'} hNe nId hMem hMem' => hNe ?_
  obtain ⟨info, hEntry, -, hBucket⟩ := (mem_vvTried h b nId).mp hMem
  obtain ⟨info', hEntry', -, hBucket'⟩ := (mem_vvTried h b' nId).mp hMem'
  rw [hEntry, Option.some.injEq] at hEntry'
  rw [← hBucket, ← hBucket', hEntry']

theorem length_triedIds (h : Consistent prims attempted none man) :
    (man.triedIds.length : ℤ) = man.nTried := by
  rw [h.tallied.tried, triedIds, List.length_flatMap, Fin.sum_univ_def]
  push_cast
  rw [List.map_map]
  rfl

theorem lookup_entries (man : CAddrMan) :
    ∀ e ∈ man.mapInfo.inKeyOrder, man.mapInfo.lookup e.1 = some e.2 :=
  fun _ he => Table.mem_inKeyOrder.mp he

/-- What the first loop of `Check_` collects of all entries. -/
def census (man : CAddrMan) : Census := man.mapInfo.inKeyOrder.foldl countEntry ⟨∅, ∅⟩

theorem setTried_census (h : Consistent prims attempted none man) :
    man.census.setTried = man.triedIds.toFinset := by
  ext nId
  rw [census, mem_setTried, List.mem_toFinset, mem_triedIds h]
  simp only [Table.mem_inKeyOrder]

theorem mapNew_census (nId : ℕ) (nRefCount : ℤ) :
    man.census.mapNew.lookup nId = some nRefCount ↔
      ∃ info, man.mapInfo.lookup nId = some info ∧ info.fInTried = false ∧
        info.nRefCount = nRefCount := by
  rw [census, lookup_mapNew man.lookup_entries]
  simp only [Table.mem_inKeyOrder]

theorem card_setTried (h : Consistent prims attempted none man) :
    (man.census.setTried.card : ℤ) = man.nTried := by
  rw [setTried_census h, List.toFinset_card_of_nodup (nodup_triedIds h), length_triedIds h]

/-- Every id in `vRandom` is that of a tried entry or of a new one. -/
theorem vRandom_perm (h : Consistent prims attempted none man) :
    man.vRandom.Perm (man.triedIds ++ man.census.mapNew.keys) := by
  have hKeys : ∀ nId, nId ∈ man.census.mapNew.keys ↔
      ∃ info, man.mapInfo.lookup nId = some info ∧ info.fInTried = false := by
    intro nId
    rw [← AList.mem_keys, Table.mem_iff_lookup]
    simp only [mapNew_census]
    constructor
    · rintro ⟨_, info, hEntry, hNew, -⟩
      exact ⟨info, hEntry, hNew⟩
    · rintro ⟨info, hEntry, hNew⟩
      exact ⟨_, info, hEntry, hNew, rfl⟩
  have hDisjoint : List.Disjoint man.triedIds man.census.mapNew.keys := by
    intro nId hTried hNew
    obtain ⟨info, hEntry, hInTried⟩ := (mem_triedIds h nId).mp hTried
    obtain ⟨info', hEntry', hInNew⟩ := (hKeys nId).mp hNew
    rw [hEntry, Option.some.injEq] at hEntry'
    rw [hEntry', hInNew] at hInTried
    cases hInTried
  have hNodup := (nodup_triedIds h).append man.census.mapNew.keys_nodup hDisjoint
  rw [List.perm_ext_iff_of_nodup h.indexed.nodup hNodup]
  intro nId
  rw [List.mem_append, mem_triedIds h, hKeys]
  constructor
  · intro hMem
    obtain ⟨info, hEntry⟩ := h.indexed.known nId hMem
    cases hTable : info.fInTried with
    | true => exact Or.inl ⟨info, hEntry, hTable⟩
    | false => exact Or.inr ⟨info, hEntry, hTable⟩
  · rintro (⟨info, hEntry, -⟩ | ⟨info, hEntry, -⟩) <;>
      obtain ⟨i, -, hAt⟩ := h.indexed.position nId info hEntry <;>
      exact List.mem_of_getElem? hAt

theorem length_mapNew (h : Consistent prims attempted none man) :
    (man.census.mapNew.entries.length : ℤ) = man.nNew := by
  have hLength := (vRandom_perm h).length_eq
  have hKeys : man.census.mapNew.keys.length = man.census.mapNew.entries.length := by
    simp [AList.keys, List.keys]
  have hTried := length_triedIds h
  have hAll := h.tallied.all
  rw [List.length_append, hKeys] at hLength
  omega

/-- The new buckets hold every new entry as often as it is counted, and nothing else. -/
theorem mapNew_counts (h : Consistent prims attempted none man) (nId : ℕ) :
    man.census.mapNew.lookup nId =
      if man.newIds.count nId = 0 then none else some (man.newIds.count nId : ℤ) := by
  have hCount : man.newIds.count nId = (holders man.vvNew nId).card := count_walk man.vvNew nId
  have hNone : (∀ info, man.mapInfo.lookup nId = some info → info.fInTried = true) →
      man.census.mapNew.lookup nId = none := by
    intro hTried
    rw [Option.eq_none_iff_forall_ne_some]
    intro nRefCount hSome
    obtain ⟨info, hEntry, hNew, -⟩ := (mapNew_census nId nRefCount).mp hSome
    rw [hTried info hEntry] at hNew
    cases hNew
  rw [hCount]
  cases hEntry : man.mapInfo.lookup nId with
  | none =>
      have hHeld : holders man.vvNew nId = ∅ := (h.placed.absent_entry (by
        change (man.mapInfo.lookup nId).map CAddrInfo.summary = none
        rw [hEntry, Option.map_none])).1
      rw [hHeld, Finset.card_empty, if_pos rfl]
      exact hNone fun info hSome => by simp [hEntry] at hSome
  | some info =>
      cases hTable : info.fInTried with
      | true =>
          have hHeld : holders man.vvNew nId = ∅ :=
            (h.placed.tried_entry (summary_tables hEntry) hTable).1
          rw [hHeld, Finset.card_empty, if_pos rfl]
          refine hNone fun info' hSome => ?_
          rw [hEntry, Option.some.injEq] at hSome
          exact hSome ▸ hTable
      | false =>
          obtain ⟨-, hHeld, hLower, -⟩ := h.placed.new_entry (summary_tables hEntry) hTable
          rw [if_neg (by simp), add_zero] at hHeld
          change info.nRefCount = ((holders man.vvNew nId).card : ℤ) at hHeld
          change 1 ≤ info.nRefCount at hLower
          have hSome := (mapNew_census nId info.nRefCount).mpr ⟨info, hEntry, hTable, rfl⟩
          rw [hSome, if_neg (by omega), hHeld]

/-! ## The whole check -/

theorem check_eq (h : Consistent prims attempted none man) :
    man.check_ = if ∃ e ∈ man.mapInfo.inKeyOrder, e.2.nLastTry < 0 then -6 else 0 := by
  have hAll := h.tallied.all
  have hEntries := foldlM_checkEntry h ⟨∅, ∅⟩ man.lookup_entries
  by_cases hNegative : ∃ e ∈ man.mapInfo.inKeyOrder, e.2.nLastTry < 0
  · rw [if_pos hNegative] at hEntries
    have hChecks : man.checks = .error (-6) := by
      unfold checks
      rw [hEntries]
      simp [hAll]
    rw [if_pos hNegative, check_, hChecks]
  · rw [if_neg hNegative] at hEntries
    obtain ⟨left, hNew, hLeft⟩ := foldlM_checkNew (mapNew_counts h)
    have hTried := foldlM_checkTried (nodup_triedIds h)
    rw [← setTried_census h] at hTried
    have hEmpty : left.entries = [] := by
      rw [List.eq_nil_iff_forall_not_mem]
      rintro ⟨nId, nRefCount⟩ hMem
      have hSome := AList.mem_lookup_iff.mpr hMem
      rw [hLeft nId] at hSome
      cases hSome
    have hChecks : man.checks = .ok () := by
      unfold checks
      rw [hEntries, ← census]
      simp [hAll, card_setTried h, length_mapNew h, hTried, hNew, hEmpty]
    rw [if_neg hNegative, check_, hChecks]

/-! ## Runs -/

/-- Every run from the empty manager in which successes have positive times passes all
assertions and leaves a consistent manager with no bucket above its size.  `Check_` finds
nothing in it, unless an attempt had a negative time, and then at most that. -/
theorem calls_keep_consistent
    (prims : Primitives) (nKey : List UInt8) (calls : List AddrManCall)
    (hGood : ∀ call ∈ calls, call.GoodPositive) :
    ∃ man, (empty nKey).performAll prims calls = .ok man ∧
      man.Consistent prims (fun _ => True) none ∧
      (∀ b, (man.vvTried b).length ≤ 64) ∧ (∀ b, (man.vvNew b).card ≤ 64) ∧
      (man.check_ = 0 ∨ man.check_ = -6) ∧
      ((∀ call ∈ calls, call.AttemptedAt (0 ≤ ·)) → man.check_ = 0) := by
  obtain ⟨man, hRun, hConsistent⟩ := performAll_spec
    (consistent_empty prims (fun _ => True) nKey) trivial hGood (fun _ _ => trivial) (by
      intro call hCall
      cases call <;> trivial)
  refine ⟨man, hRun, hConsistent, hConsistent.placed.tried_size, hConsistent.placed.new_size,
    ?_, ?_⟩
  · rw [check_eq hConsistent]
    split_ifs
    · exact Or.inr rfl
    · exact Or.inl rfl
  · intro hAttempt
    obtain ⟨man', hRun', hTimed⟩ := performAll_spec
      (consistent_empty prims (0 ≤ ·) nKey) (by decide) hGood
      (fun nTime hTime => Int64.le_of_lt hTime) hAttempt
    rw [hRun, Except.ok.injEq] at hRun'
    subst hRun'
    rw [check_eq hTimed, if_neg]
    rintro ⟨e, hMem, hNegative⟩
    have hNonneg := (hTimed.timed e.1 e.2 (Table.mem_inKeyOrder.mp hMem)).2.2
    exact Int64.lt_irrefl (Int64.lt_of_lt_of_le hNegative hNonneg)

end CAddrMan

namespace Sample

/-- A routable service. -/
def peerService : CService := ⟨⟨#v[0, 0, 0, 0, 0, 0, 0, 0, 0, 0, 0xff, 0xff, 8, 8, 8, 8]⟩, 23980⟩

/-- A peer is added, connected to, added again and drawn. -/
def peerCalls : List AddrManCall :=
  [.add 1600000000 (fun _ => 0) { CAddress.ofService peerService with nTime := 1599999000 }
      peerService.toCNetAddr 0,
    .attempt peerService 1600000000,
    .good (fun _ => 0) peerService 1600000010,
    .getAddr (fun _ => 0)]

theorem peerCalls_keep_consistent :
    ∃ man, (CAddrMan.empty []).performAll prims peerCalls = .ok man ∧
      man.Consistent prims (fun _ => True) none ∧
      (∀ b, (man.vvTried b).length ≤ 64) ∧ (∀ b, (man.vvNew b).card ≤ 64) ∧
      (man.check_ = 0 ∨ man.check_ = -6) ∧
      ((∀ call ∈ peerCalls, call.AttemptedAt (0 ≤ ·)) → man.check_ = 0) :=
  CAddrMan.calls_keep_consistent prims [] peerCalls (by
    simp [peerCalls, AddrManCall.GoodPositive])

/-- A peer is added, and an attempt gets a negative time. -/
def negativeAttempt : List AddrManCall :=
  [.add 1600000000 (fun _ => 0) { CAddress.ofService peerService with nTime := 1599999000 }
      peerService.toCNetAddr 0,
    .attempt peerService (-1)]

/-- An attempt with a negative time is written down, and `Check_` finds it. -/
theorem negativeAttempt_found :
    ∃ man, (CAddrMan.empty []).performAll prims negativeAttempt = .ok man ∧
      man.check_ = -6 ∧ ∀ call ∈ negativeAttempt, call.GoodPositive := by
  have hCode : ((CAddrMan.empty []).performAll prims negativeAttempt).toOption.map
      CAddrMan.check_ = some (-6) := by
    decide +kernel
  obtain ⟨man, hRun, hCheck⟩ := Option.map_eq_some_iff.mp hCode
  refine ⟨man, ?_, hCheck, ?_⟩
  · cases hResult : (CAddrMan.empty []).performAll prims negativeAttempt with
    | error e =>
        rw [hResult] at hRun
        cases hRun
    | ok man' =>
        rw [hResult] at hRun
        cases hRun
        rfl
  · simp [negativeAttempt, AddrManCall.GoodPositive]

end Sample

end SocietyGold
