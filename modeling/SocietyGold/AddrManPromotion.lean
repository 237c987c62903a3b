import SocietyGold.AddrManSteps

/-!
# Promotion to the tried buckets

`SelectTried` delivers a position inside the bucket it is given and only reorders this
bucket.  `MakeTried` moves a new entry to its tried bucket; when the bucket is full an
entry goes back to the new buckets, where there is room for it.
-/

namespace SocietyGold

open Support

namespace CAddrMan

variable {prims : Primitives} {attempted : Int64 → Prop} {man : CAddrMan} {nId : ℕ}
  {info : CAddrInfo}

/-! ## SelectTried -/

/-- What holds before a round of `SelectTried`: the bucket is reordered and the rest is
as it was; the oldest item so far is known and its position inside the bucket. -/
structure Selecting (man : CAddrMan) (b : TriedBucket) (i : ℕ) (sel : Selection) : Prop where
  reordered : ∃ vTried, vTried.Perm (man.vvTried b) ∧
    sel.man = { man with vvTried := Function.update man.vvTried b vTried }
  oldest : ∀ nOldest, sel.nOldest = some nOldest →
    ∃ info, man.mapInfo.lookup nOldest = some info
  position : sel.nOldest ≠ none → ∃ nPos : ℕ, sel.nOldestPos = nPos ∧ nPos < (man.vvTried b).length
  started : 0 < i → sel.nOldest ≠ none

theorem selectTriedRound_spec
    (rand : ℕ → ℕ) {b : TriedBucket} {i : ℕ} {sel : Selection}
    (hKnown : ∀ nId ∈ man.vvTried b, ∃ info, man.mapInfo.lookup nId = some info)
    (hLt : i < (man.vvTried b).length) (h : Selecting man b i sel) :
    ∃ sel', selectTriedRound rand b sel i = .ok sel' ∧ Selecting man b (i + 1) sel' := by
  obtain ⟨vTried, hPerm, hMan⟩ := h.reordered
  have hBucket : sel.man.vvTried b = vTried := by
    rw [hMan]
    exact Function.update_self ..
  have hInfo : sel.man.mapInfo = man.mapInfo := by
    rw [hMan]
  have hLength : vTried.length = (man.vvTried b).length := hPerm.length_eq
  have hPos : getRandInt (rand i) (vTried.length - i) + i < vTried.length := by
    have hDraw := @getRandInt_lt (rand i) (vTried.length - i) (by omega)
    omega
  generalize hPosEq : getRandInt (rand i) (vTried.length - i) + i = nPos at hPos
  obtain ⟨info, hEntry⟩ := hKnown vTried[nPos] (hPerm.mem_iff.mp (List.getElem_mem hPos))
  have hSwapped : ∃ vTried', vTried'.Perm (man.vvTried b) ∧
      { sel.man with vvTried := Function.update sel.man.vvTried b (swapAt vTried i nPos) } =
        { man with vvTried := Function.update man.vvTried b vTried' } := by
    refine ⟨swapAt vTried i nPos, (swapAt_perm _ _ _).trans hPerm, ?_⟩
    rw [hMan]
    dsimp only
    rw [Function.update_idem]
  have hChosen : ∀ {man'}, (∃ vTried', vTried'.Perm (man.vvTried b) ∧
      man' = { man with vvTried := Function.update man.vvTried b vTried' }) →
      Selecting man b (i + 1) ⟨man', some vTried[nPos], nPos⟩ := by
    intro man' hMan'
    refine ⟨hMan', ?_, fun _ => ⟨nPos, rfl, hLength ▸ hPos⟩, fun _ => by simp⟩
    intro nOldest hEq
    obtain rfl : vTried[nPos] = nOldest := Option.some.inj hEq
    exact ⟨info, hEntry⟩
  unfold selectTriedRound
  dsimp only
  rw [hBucket, hPosEq, elementAt_of_lt hPos, ok_bind]
  cases hOldest : sel.nOldest with
  | none => exact ⟨_, rfl, hChosen hSwapped⟩
  | some nOldest =>
      obtain ⟨infoOldest, hEntryOldest⟩ := h.oldest nOldest hOldest
      have hIn : nOldest ∈ man.mapInfo := Table.mem_iff_lookup.mpr ⟨infoOldest, hEntryOldest⟩
      have hSame : ∀ {man' : CAddrMan}, man'.mapInfo = man.mapInfo →
          man'.created nOldest = (infoOldest, man') := by
        intro man' hInfo'
        rw [created, hInfo', hEntryOldest, Option.getD_some, Table.touch, if_pos hIn, ← hInfo']
      dsimp only
      have hCounted : ({ sel.man with
          vvTried := Function.update sel.man.vvTried b (swapAt vTried i nPos) } :
          CAddrMan).counted vTried[nPos] = .ok info :=
        counted_of_lookup (by rw [hInfo]; exact hEntry)
      rw [hCounted, ok_bind, hSame (by exact hInfo)]
      dsimp only
      split_ifs
      · exact ⟨_, rfl, hChosen hSwapped⟩
      · refine ⟨_, rfl, hSwapped, ?_, ?_, fun _ => by simp⟩
        · exact fun other hEq => h.oldest other (hOldest.trans hEq)
        · exact fun _ => h.position (by simp [hOldest])

theorem selectTried_spec
    (rand : ℕ → ℕ) {b : TriedBucket}
    (hKnown : ∀ nId ∈ man.vvTried b, ∃ info, man.mapInfo.lookup nId = some info)
    (hNonempty : 0 < (man.vvTried b).length) :
    ∃ nPos vTried, man.selectTried rand b = .ok (((nPos : ℕ) : ℤ),
        { man with vvTried := Function.update man.vvTried b vTried }) ∧
      nPos < vTried.length ∧ vTried.Perm (man.vvTried b) := by
  have hStart : Selecting man b 0 ⟨man, none, -1⟩ := by
    refine ⟨⟨man.vvTried b, List.Perm.refl _, ?_⟩, by simp, by simp, by simp⟩
    rw [Function.update_eq_self]
  have hRounds : 0 < min ADDRMAN_TRIED_ENTRIES_INSPECT_ON_EVICT (man.vvTried b).length :=
    lt_min (by decide) hNonempty
  obtain ⟨sel, hRun, hSel⟩ := @foldlM_range_ok _ _ (selectTriedRound rand b)
    (fun i sel => Selecting man b i sel)
    (min ADDRMAN_TRIED_ENTRIES_INSPECT_ON_EVICT (man.vvTried b).length) _
    (fun i hI sel hSel => selectTriedRound_spec rand hKnown (lt_of_lt_of_le hI (min_le_right _ _))
      hSel) hStart
  obtain ⟨vTried, hPerm, hMan⟩ := hSel.reordered
  obtain ⟨nPos, hPos, hLt⟩ := hSel.position (hSel.started hRounds)
  refine ⟨nPos, vTried, ?_, by rw [hPerm.length_eq]; exact hLt, hPerm⟩
  unfold selectTried
  dsimp only
  rw [hRun, ok_bind, hPos, hMan]

/-! ## MakeTried -/

theorem sum_length_update (tried : TriedBucket → List ℕ) (b : TriedBucket) (vTried : List ℕ) :
    ∑ b', ((Function.update tried b vTried b').length : ℤ) =
      ∑ b', ((tried b').length : ℤ) + vTried.length - (tried b).length := by
  have hUpdate : (fun b' => ((Function.update tried b vTried b').length : ℤ)) =
      Function.update (fun b' => ((tried b').length : ℤ)) b vTried.length := by
    funext b'
    by_cases hB : b' = b
    · subst hB
      simp
    · simp [hB]
  rw [hUpdate, Finset.sum_update_of_mem (Finset.mem_univ b),
    ← Finset.add_sum_erase _ _ (Finset.mem_univ b), Finset.sdiff_singleton_eq_erase]
  omega

theorem timed_markTried
    (hTimed : man.Timed attempted) {nRefCount : ℤ}
    (hSelf : man.mapInfo.lookup nId = some { info with nRefCount := nRefCount })
    (hSuccess : 0 < info.nLastSuccess) (hTry : attempted info.nLastTry) :
    (man.modifyInfo nId CAddrInfo.markTried).Timed attempted := by
  apply timed_modifyInfo hTimed
  intro info' hEntry'
  rw [hSelf] at hEntry'
  obtain rfl := Option.some.inj hEntry'
  exact ⟨Int64.le_of_lt hSuccess, fun _ => hSuccess, hTry⟩

/-- Marking the entry keeps the manager consistent where its new place is right. -/
theorem consistent_marked
    (hIndexed : man.Indexed) (hTallied : man.Tallied) (hTimed : man.Timed attempted)
    {nRefCount : ℤ} (hSelf : man.mapInfo.lookup nId = some { info with nRefCount := nRefCount })
    (hSuccess : 0 < info.nLastSuccess) (hTry : attempted info.nLastTry)
    (hPlaced : (man.modifyInfo nId CAddrInfo.markTried).tables.Placed
      (CAddrInfo.triedBucket prims man.nKey) none) :
    Consistent prims attempted none (man.modifyInfo nId CAddrInfo.markTried) where
  indexed := hIndexed.modifyInfo (fun _ => rfl) fun _ => rfl
  placed := by
    rw [modifyInfo_nKey]
    exact hPlaced
  tallied := ⟨by simpa using hTallied.tried, by simpa using hTallied.all⟩
  timed := timed_markTried hTimed hSelf hSuccess hTry

theorem timed_demoted
    (hTimed : man.Timed attempted) :
    (man.modifyInfo nId CAddrInfo.demoted).Timed attempted := by
  apply timed_modifyInfo hTimed
  intro info hEntry
  have hBefore := hTimed nId info hEntry
  exact ⟨hBefore.1, fun hTried => absurd hTried Bool.false_ne_true, hBefore.2.2⟩

section MakeTried

theorem withdrawNew_frame :
    man.withdrawNew nId = { man with
      mapInfo := (man.withdrawNew nId).mapInfo
      nNew := man.nNew - 1
      vvNew := fun b => (man.vvNew b).erase nId } := by
  unfold withdrawNew
  dsimp only
  rw [modifyInfo_frame]

variable (h : Consistent prims attempted none man)
  (hEntry : man.mapInfo.lookup nId = some info)
  (hNew : info.fInTried = false)
include h

theorem indexed_withdrawNew : (man.withdrawNew nId).Indexed :=
  (show (man.modifyInfo nId fun info =>
      { info with nRefCount := info.nRefCount - (holders man.vvNew nId).card }).Indexed from
    h.indexed.modifyInfo (fun _ => rfl) fun _ => rfl).congr rfl rfl rfl rfl

theorem timed_withdrawNew : (man.withdrawNew nId).Timed attempted :=
  show (man.modifyInfo nId fun info =>
      { info with nRefCount := info.nRefCount - (holders man.vvNew nId).card }).Timed attempted from
    timed_modifyInfo h.timed fun info hEntry => h.timed nId info hEntry

include hEntry hNew

/-- What a tried bucket holds is tried, so it is not the entry that is made tried. -/
theorem ne_of_mem_tried
    {b : TriedBucket} {k : ℕ} (hMem : k ∈ man.vvTried b) :
    k ≠ nId := by
  rintro rfl
  obtain ⟨info', hEntry', hTried, -⟩ := (mem_vvTried h b k).mp hMem
  rw [hEntry, Option.some.injEq] at hEntry'
  rw [← hEntry', hNew] at hTried
  cases hTried

/-- Out of all new buckets an entry is referred to no more. -/
theorem lookup_withdrawNew (k : ℕ) :
    (man.withdrawNew nId).mapInfo.lookup k =
      if k = nId then some { info with nRefCount := 0 } else man.mapInfo.lookup k := by
  have hPlaced := (h.placed.new_entry (summary_tables hEntry) hNew).2.1
  simp only [reduceCtorEq, if_false, add_zero] at hPlaced
  have hCount : info.nRefCount = (holders man.vvNew nId).card := hPlaced
  unfold withdrawNew
  dsimp only
  rw [lookup_modifyInfo, hEntry, Option.map_some, hCount, sub_self]

/-- The entry gets a place at the end of a tried bucket with room. -/
theorem consistent_appended
    (hSuccess : 0 < info.nLastSuccess) {b : TriedBucket}
    (hBucket : info.getTriedBucket prims man.nKey = b)
    (hRoom : (man.vvTried b).length < ADDRMAN_TRIED_BUCKET_SIZE) :
    Consistent prims attempted none
      (({ man.withdrawNew nId with
        vvTried := Function.update man.vvTried b (man.vvTried b ++ [nId])
        nTried := man.nTried + 1 } : CAddrMan).modifyInfo nId CAddrInfo.markTried) := by
  generalize hMan : ({ man.withdrawNew nId with
    vvTried := Function.update man.vvTried b (man.vvTried b ++ [nId])
    nTried := man.nTried + 1 } : CAddrMan) = listed
  have hLookup : ∀ k, listed.mapInfo.lookup k =
      if k = nId then some { info with nRefCount := 0 } else man.mapInfo.lookup k := by
    rw [← hMan]
    exact lookup_withdrawNew h hEntry hNew
  have hKey : listed.nKey = man.nKey := by
    rw [← hMan]
    exact modifyInfo_nKey ..
  have hSelf : listed.mapInfo.lookup nId = some { info with nRefCount := 0 } := by
    rw [hLookup, if_pos rfl]
  have hIndexed : listed.Indexed := by
    rw [← hMan]
    exact (indexed_withdrawNew h).congr rfl rfl rfl rfl
  have hTimed : listed.Timed attempted := by
    rw [← hMan]
    exact timed_withdrawNew h
  have hTallied : listed.Tallied := by
    have hTried := h.tallied.tried
    have hAll := h.tallied.all
    rw [← hMan]
    constructor
    · dsimp only
      rw [sum_length_update, hTried, List.length_append, List.length_singleton]
      push_cast
      omega
    · have hRandom : (man.withdrawNew nId).vRandom = man.vRandom := modifyInfo_vRandom ..
      change (((man.withdrawNew nId).vRandom.length : ℕ) : ℤ) = man.nTried + 1 + (man.nNew - 1)
      rw [hRandom]
      omega
  apply consistent_marked hIndexed hTallied hTimed hSelf hSuccess (h.timed nId info hEntry).2.2
  have hPlaced := h.placed.promote (summary_tables hEntry) hNew (by
    change (man.vvTried (info.getTriedBucket prims man.nKey)).length < _
    rw [hBucket]
    exact hRoom)
  have hTables : (listed.modifyInfo nId CAddrInfo.markTried).tables =
      ((man.tables.setSummary nId (some info.summary.promoted)).withdraw nId).setTried b
        (man.vvTried b ++ [nId]) := by
    rw [tables_modifyInfo hSelf]
    ext1
    · funext k
      by_cases hK : k = nId
      · subst hK
        simp [AddrTables.setSummary, AddrTables.setTried, AddrTables.withdraw,
          AddrSummary.promoted, CAddrInfo.summary, CAddrInfo.markTried]
      · simp [AddrTables.setSummary, AddrTables.setTried, AddrTables.withdraw, hK,
          CAddrMan.tables, hLookup]
    · rw [← hMan]
      rfl
    · rw [← hMan]
      rfl
  rw [hKey, hTables, ← hBucket]
  exact hPlaced

omit h hEntry hNew in
/-- What is placed where after one entry has taken the place of another one. -/
theorem tables_replaced
    {replaced : CAddrMan} {nIdOld : ℕ} {infoOld : CAddrInfo} (hIds : nIdOld ≠ nId)
    (hLookup : ∀ k, replaced.mapInfo.lookup k =
      if k = nIdOld then some infoOld.demoted
      else if k = nId then some { info with nRefCount := 0 } else man.mapInfo.lookup k)
    {b : TriedBucket} {vTried : List ℕ}
    (hTried : replaced.vvTried = Function.update man.vvTried b vTried) {b' : NewBucket}
    (hHeld : replaced.vvNew = putInto (fun b => (man.vvNew b).erase nId) b' nIdOld) :
    (replaced.modifyInfo nId CAddrInfo.markTried).tables =
      { ((man.tables.setSummary nIdOld (some infoOld.summary.demoted)).setSummary nId
          (some info.summary.promoted)).setTried b vTried with
        new := putInto (man.tables.withdraw nId).new b' nIdOld } := by
  have hSelf : replaced.mapInfo.lookup nId = some { info with nRefCount := 0 } := by
    rw [hLookup, if_neg hIds.symm, if_pos rfl]
  rw [tables_modifyInfo hSelf]
  ext1
  · funext k
    by_cases hK : k = nId
    · subst hK
      simp [AddrTables.setSummary, AddrTables.setTried, AddrSummary.promoted,
        CAddrInfo.summary, CAddrInfo.markTried]
    · by_cases hKOld : k = nIdOld
      · subst hKOld
        simp [AddrTables.setSummary, AddrTables.setTried, hK, CAddrMan.tables, hLookup,
          AddrSummary.demoted, CAddrInfo.summary, CAddrInfo.demoted]
      · simp [AddrTables.setSummary, AddrTables.setTried, hK, hKOld, CAddrMan.tables, hLookup]
  · exact hTried
  · exact hHeld

/-- The entry takes the place of another one, which goes back to a new bucket. -/
theorem consistent_replaced
    (hSuccess : 0 < info.nLastSuccess) {b : TriedBucket}
    (hBucket : info.getTriedBucket prims man.nKey = b) {vTried : List ℕ}
    (hPerm : vTried.Perm (man.vvTried b)) {nPos nIdOld : ℕ} {infoOld : CAddrInfo}
    (hOld : vTried[nPos]? = some nIdOld) (hEntryOld : man.mapInfo.lookup nIdOld = some infoOld)
    {b' : NewBucket} (hRoom : ((man.vvNew b').erase nId).card < ADDRMAN_NEW_BUCKET_SIZE) :
    Consistent prims attempted none
      (({ ((({ man.withdrawNew nId with
            vvTried := Function.update man.vvTried b vTried } : CAddrMan).modifyInfo nIdOld
              CAddrInfo.demoted).insertNew b' nIdOld) with
        nNew := man.nNew - 1 + 1
        vvTried := Function.update man.vvTried b (vTried.set nPos nId) } : CAddrMan).modifyInfo
          nId CAddrInfo.markTried) := by
  have hIds : nIdOld ≠ nId :=
    ne_of_mem_tried h hEntry hNew (hPerm.mem_iff.mp (List.mem_of_getElem? hOld))
  have hSelIndexed : ({ man.withdrawNew nId with
      vvTried := Function.update man.vvTried b vTried } : CAddrMan).Indexed :=
    (indexed_withdrawNew h).congr rfl rfl rfl rfl
  have hSelTimed : ({ man.withdrawNew nId with
      vvTried := Function.update man.vvTried b vTried } : CAddrMan).Timed attempted :=
    timed_withdrawNew h
  have hSelLookup := lookup_withdrawNew h hEntry hNew
  rw [withdrawNew_frame] at hSelIndexed hSelTimed ⊢
  generalize (man.withdrawNew nId).mapInfo = mapInfo at hSelIndexed hSelTimed hSelLookup ⊢
  dsimp only at hSelIndexed hSelTimed ⊢
  generalize hSel : ({ man with
    mapInfo := mapInfo
    nNew := man.nNew - 1
    vvTried := Function.update man.vvTried b vTried
    vvNew := fun b => (man.vvNew b).erase nId } : CAddrMan) = sel at hSelIndexed hSelTimed ⊢
  generalize hMan : ({ (sel.modifyInfo nIdOld CAddrInfo.demoted).insertNew b' nIdOld with
    nNew := man.nNew - 1 + 1
    vvTried := Function.update man.vvTried b (vTried.set nPos nId) } : CAddrMan) = replaced
  have hInfo : replaced.mapInfo = (sel.modifyInfo nIdOld CAddrInfo.demoted).mapInfo := by
    rw [← hMan]
    rfl
  have hFrame : replaced = { man with
      mapInfo := replaced.mapInfo
      nNew := man.nNew - 1 + 1
      vvTried := Function.update man.vvTried b (vTried.set nPos nId)
      vvNew := putInto (fun b => (man.vvNew b).erase nId) b' nIdOld } := by
    rw [hInfo, ← hMan, insertNew, modifyInfo_frame, ← hSel]
  have hLookup : ∀ k, replaced.mapInfo.lookup k =
      if k = nIdOld then some infoOld.demoted
      else if k = nId then some { info with nRefCount := 0 } else man.mapInfo.lookup k := by
    intro k
    have hSelInfo : sel.mapInfo = mapInfo := by
      rw [← hSel]
    rw [hInfo, lookup_modifyInfo, hSelInfo, hSelLookup, hSelLookup, if_neg hIds, hEntryOld,
      Option.map_some]
  have hSelf : replaced.mapInfo.lookup nId = some { info with nRefCount := 0 } := by
    rw [hLookup, if_neg hIds.symm, if_pos rfl]
  have hKey : replaced.nKey = man.nKey := by
    rw [hFrame]
  have hIndexed : replaced.Indexed := by
    have hDemoted : (sel.modifyInfo nIdOld CAddrInfo.demoted).Indexed :=
      hSelIndexed.modifyInfo (fun _ => rfl) fun _ => rfl
    rw [← hMan]
    exact hDemoted.congr rfl rfl rfl rfl
  have hTimed : replaced.Timed attempted := by
    rw [← hMan]
    exact (timed_demoted hSelTimed : (sel.modifyInfo nIdOld CAddrInfo.demoted).Timed attempted)
  have hTallied : replaced.Tallied := by
    have hTried := h.tallied.tried
    have hAll := h.tallied.all
    rw [hFrame]
    constructor
    · dsimp only
      rw [sum_length_update, hTried, List.length_set, hPerm.length_eq]
      omega
    · dsimp only
      omega
  apply consistent_marked hIndexed hTallied hTimed hSelf hSuccess (h.timed nId info hEntry).2.2
  have hPlaced := h.placed.replace (b := b') (summary_tables hEntry) hNew
    (show vTried.Perm (man.vvTried (info.getTriedBucket prims man.nKey)) by
      rw [hBucket]
      exact hPerm)
    hOld (summary_tables hEntryOld) hRoom
  rw [hKey, tables_replaced hIds hLookup (by rw [hFrame]) (by rw [hFrame]), ← hBucket]
  exact hPlaced

omit hEntry hNew in
/-- Where the evicted entry goes there is place for it. -/
theorem room_for_evicted
    {nOrigin : NewBucket} (hMem : nId ∈ man.vvNew nOrigin) (b : NewBucket) :
    ((man.vvNew (if ((man.vvNew b).erase nId).card < ADDRMAN_NEW_BUCKET_SIZE then b
      else nOrigin)).erase nId).card < ADDRMAN_NEW_BUCKET_SIZE := by
  split_ifs with hRoom
  · exact hRoom
  · have hSize : (man.vvNew nOrigin).card ≤ ADDRMAN_NEW_BUCKET_SIZE := h.placed.new_size nOrigin
    have hErase := Finset.card_erase_add_one hMem
    omega

theorem replaceTried_spec
    (hSuccess : 0 < info.nLastSuccess) (rand : ℕ → ℕ) {nOrigin : NewBucket}
    (hMem : nId ∈ man.vvNew nOrigin) {b : TriedBucket}
    (hBucket : info.getTriedBucket prims man.nKey = b)
    (hFull : ADDRMAN_TRIED_BUCKET_SIZE ≤ (man.vvTried b).length) :
    ∃ man', (man.withdrawNew nId).replaceTried prims rand nId nOrigin b = .ok man' ∧
      Consistent prims attempted none man' ∧ man'.nKey = man.nKey := by
  have hTriedSame : (man.withdrawNew nId).vvTried = man.vvTried := modifyInfo_vvTried ..
  have hKnown : ∀ k ∈ (man.withdrawNew nId).vvTried b,
      ∃ info, (man.withdrawNew nId).mapInfo.lookup k = some info := by
    intro k hK
    rw [hTriedSame] at hK
    obtain ⟨infoK, hEntryK, -⟩ := (mem_vvTried h b k).mp hK
    rw [lookup_withdrawNew h hEntry hNew]
    split_ifs
    · exact ⟨_, rfl⟩
    · exact ⟨infoK, hEntryK⟩
  have hNonempty : 0 < ((man.withdrawNew nId).vvTried b).length := by
    rw [hTriedSame]
    exact lt_of_lt_of_le (by decide) hFull
  obtain ⟨nPos, vTried, hSelect, hPos, hPerm⟩ := selectTried_spec rand hKnown hNonempty
  rw [hTriedSame] at hSelect hPerm
  generalize hSel : ({ man.withdrawNew nId with
    vvTried := Function.update man.vvTried b vTried } : CAddrMan) = sel at hSelect
  obtain ⟨infoOld, hEntryOld, -⟩ :=
    (mem_vvTried h b _).mp (hPerm.mem_iff.mp (List.getElem_mem hPos))
  have hIds : vTried[nPos] ≠ nId :=
    ne_of_mem_tried h hEntry hNew (hPerm.mem_iff.mp (List.getElem_mem hPos))
  have hOldKept : sel.counted vTried[nPos] = .ok infoOld := by
    rw [← hSel]
    apply counted_of_lookup
    change (man.withdrawNew nId).mapInfo.lookup vTried[nPos] = some infoOld
    rw [lookup_withdrawNew h hEntry hNew, if_neg hIds, hEntryOld]
  have hRoom := room_for_evicted h hMem (infoOld.getNewBucket prims sel.nKey infoOld.source)
  generalize hTarget : (if ((man.vvNew
    (infoOld.getNewBucket prims sel.nKey infoOld.source)).erase nId).card <
      ADDRMAN_NEW_BUCKET_SIZE then infoOld.getNewBucket prims sel.nKey infoOld.source
    else nOrigin) = target at hRoom
  have hEvict : sel.evict prims vTried[nPos] infoOld nOrigin =
      { (sel.modifyInfo vTried[nPos] CAddrInfo.demoted).insertNew target vTried[nPos] with
        nNew := man.nNew - 1 + 1 } := by
    have hSelNew : sel.vvNew = fun b => (man.vvNew b).erase nId := by
      rw [← hSel]
      rfl
    have hSelNNew : sel.nNew = man.nNew - 1 := by
      rw [← hSel]
      rfl
    unfold evict
    dsimp only
    rw [modifyInfo_vvNew, hSelNew, hTarget, modifyInfo_nNew, hSelNNew]
  have hSelTried : (sel.evict prims vTried[nPos] infoOld nOrigin).vvTried =
      Function.update man.vvTried b vTried := by
    rw [hEvict, ← hSel]
    exact modifyInfo_vvTried ..
  have hConsistent := consistent_replaced h hEntry hNew hSuccess hBucket hPerm
    (List.getElem?_eq_getElem hPos) hEntryOld hRoom
  rw [hSel] at hConsistent
  refine ⟨_, ?_, hConsistent, ?_⟩
  · have hBucketSel : sel.vvTried b = vTried := by
      rw [← hSel]
      exact Function.update_self ..
    unfold replaceTried
    rw [hSelect, ok_bind]
    dsimp only
    rw [if_pos (Int.natCast_nonneg nPos), ok_bind, Int.toNat_natCast, hBucketSel,
      elementAt_of_lt hPos, ok_bind, hOldKept, ok_bind, hSelTried, Function.update_self, storeAt,
      if_pos hPos, ok_bind, Function.update_idem, hEvict]
  · rw [modifyInfo_nKey]
    change (sel.modifyInfo vTried[nPos] CAddrInfo.demoted).nKey = man.nKey
    rw [modifyInfo_nKey, ← hSel]
    exact modifyInfo_nKey ..

/-- `MakeTried` of an entry in a new bucket passes its assertions. -/
theorem makeTried_spec
    (hSuccess : 0 < info.nLastSuccess) (rand : ℕ → ℕ) {nOrigin : NewBucket}
    (hMem : nId ∈ man.vvNew nOrigin) :
    ∃ man', man.makeTried prims rand nId nOrigin = .ok man' ∧ Consistent prims attempted none man' ∧
      man'.nKey = man.nKey := by
  have hKey : (man.withdrawNew nId).nKey = man.nKey := modifyInfo_nKey ..
  have hTriedSame : (man.withdrawNew nId).vvTried = man.vvTried := modifyInfo_vvTried ..
  have hNTried : (man.withdrawNew nId).nTried = man.nTried := modifyInfo_nTried ..
  have hSelf := lookup_withdrawNew h hEntry hNew nId
  rw [if_pos rfl] at hSelf
  generalize hBucket : info.getTriedBucket prims man.nKey = b
  have hBucketSelf : CAddrInfo.getTriedBucket prims man.nKey { info with nRefCount := 0 } = b :=
    hBucket
  unfold makeTried
  simp only [assertThat, hMem, decide_true, if_true, ok_bind, hSelf, deref_some, hKey,
    hBucketSelf, hTriedSame, hNTried]
  split_ifs with hRoom
  · have hConsistent := consistent_appended h hEntry hNew hSuccess hBucket hRoom
    dsimp only at hConsistent
    rw [hKey] at hConsistent
    exact ⟨_, rfl, hConsistent, modifyInfo_nKey ..⟩
  · exact replaceTried_spec h hEntry hNew hSuccess rand hMem hBucket (not_lt.mp hRoom)

end MakeTried

end CAddrMan

end SocietyGold
