import SocietyGold.AddrManCheck

/-!
# Managers with other ids

A manager whose entries got new numbers, and are otherwise in the same buckets, is as
consistent as before, and what it says about addresses is the same.
-/

namespace SocietyGold

open Support

namespace CAddrMan

/-- An entry as it is under its new number. -/
def renumberedInfo (n : ℕ) (info : CAddrInfo) : CAddrInfo :=
  { info with nLastTry := 0, nRandomPos := n }

/-- `man'` is `man` with the ids replaced by their positions in a list. -/
structure Renumbered (ids : List ℕ) (man man' : CAddrMan) : Prop where
  nKey : man'.nKey = man.nKey
  nNew : man'.nNew = man.nNew
  nTried : man'.nTried = man.nTried
  nIdCount : man'.nIdCount = ids.length
  nodup : ids.Nodup
  known : ∀ nId, nId ∈ ids ↔ ∃ info, man.mapInfo.lookup nId = some info
  entries : ∀ n, man'.mapInfo.lookup n =
    ids[n]?.bind fun nId => (man.mapInfo.lookup nId).map (renumberedInfo n)
  address : ∀ addr n, man'.mapAddr.lookup addr = some n ↔
    ∃ nId, ids[n]? = some nId ∧ man.mapAddr.lookup addr = some nId
  random : man'.vRandom = List.range ids.length
  tried_nodup : ∀ b, (man'.vvTried b).Nodup
  tried : ∀ b n, n ∈ man'.vvTried b ↔ ∃ nId, ids[n]? = some nId ∧ nId ∈ man.vvTried b
  new : ∀ b n, n ∈ man'.vvNew b ↔ ∃ nId, ids[n]? = some nId ∧ nId ∈ man.vvNew b

variable {prims : Primitives} {attempted : Int64 → Prop} {man man' : CAddrMan} {ids : List ℕ}

namespace Renumbered

theorem entry
    (h : Renumbered ids man man') {n nId : ℕ} (hId : ids[n]? = some nId) {info : CAddrInfo}
    (hEntry : man.mapInfo.lookup nId = some info) :
    man'.mapInfo.lookup n = some (renumberedInfo n info) := by
  rw [h.entries, hId, Option.bind_some, hEntry, Option.map_some]

theorem of_entry
    (h : Renumbered ids man man') {n : ℕ} {info' : CAddrInfo}
    (hEntry : man'.mapInfo.lookup n = some info') :
    ∃ nId info, ids[n]? = some nId ∧ man.mapInfo.lookup nId = some info ∧
      info' = renumberedInfo n info := by
  rw [h.entries, Option.bind_eq_some_iff] at hEntry
  obtain ⟨nId, hId, hInfo⟩ := hEntry
  obtain ⟨info, hOld, hEq⟩ := Option.map_eq_some_iff.mp hInfo
  exact ⟨nId, info, hId, hOld, hEq.symm⟩

/-- An id is at one position only. -/
theorem position_unique
    (h : Renumbered ids man man') {n n' nId : ℕ} (hId : ids[n]? = some nId)
    (hId' : ids[n']? = some nId) : n = n' := by
  obtain ⟨hLt, hGet⟩ := List.getElem?_eq_some_iff.mp hId
  obtain ⟨hLt', hGet'⟩ := List.getElem?_eq_some_iff.mp hId'
  exact (h.nodup.getElem_inj_iff).mp (hGet.trans hGet'.symm)

/-- The ids of a new bucket. -/
theorem new_iff
    (h : Renumbered ids man man') {n nId : ℕ} (hId : ids[n]? = some nId) (b : NewBucket) :
    n ∈ man'.vvNew b ↔ nId ∈ man.vvNew b := by
  rw [h.new]
  constructor
  · rintro ⟨nId', hId', hMem⟩
    rw [hId, Option.some.injEq] at hId'
    exact hId' ▸ hMem
  · intro hMem
    exact ⟨nId, hId, hMem⟩

theorem tried_iff
    (h : Renumbered ids man man') {n nId : ℕ} (hId : ids[n]? = some nId) (b : TriedBucket) :
    n ∈ man'.vvTried b ↔ nId ∈ man.vvTried b := by
  rw [h.tried]
  constructor
  · rintro ⟨nId', hId', hMem⟩
    rw [hId, Option.some.injEq] at hId'
    exact hId' ▸ hMem
  · intro hMem
    exact ⟨nId, hId, hMem⟩

/-- Every id in a tried bucket has a number. -/
theorem getElem?_of_entry
    (h : Renumbered ids man man') {nId : ℕ} {s : AddrSummary}
    (hEntry : man.tables.summary nId = some s) : ∃ n : ℕ, ids[n]? = some nId := by
  obtain ⟨info, hInfo, -⟩ := lookup_of_summary hEntry
  exact List.mem_iff_getElem?.mp ((h.known nId).mpr ⟨info, hInfo⟩)

/-- A tried bucket holds the same ids, in some order. -/
theorem tried_perm
    (h : Renumbered ids man man') (hMan : Consistent prims attempted none man)
    (b : TriedBucket) :
    ((man'.vvTried b).map fun n => ids.getD n 0).Perm (man.vvTried b) := by
  have hNumber : ∀ n nId, ids[n]? = some nId → ids.getD n 0 = nId := by
    intro n nId hId
    rw [List.getD_eq_getElem?_getD, hId, Option.getD_some]
  have hOld : (man.vvTried b).Nodup := hMan.placed.tried_nodup b
  rw [List.perm_ext_iff_of_nodup ?_ hOld]
  · intro nId
    rw [List.mem_map]
    constructor
    · rintro ⟨n, hMem, hEq⟩
      obtain ⟨nId', hId, hTried⟩ := (h.tried b n).mp hMem
      rw [hNumber n nId' hId] at hEq
      exact hEq ▸ hTried
    · intro hMem
      obtain ⟨s, hSummary, -⟩ := hMan.placed.of_mem_tried (t := man.tables) hMem
      obtain ⟨n, hId⟩ := h.getElem?_of_entry hSummary
      exact ⟨n, (h.tried_iff hId b).mpr hMem, hNumber n nId hId⟩
  · refine (List.nodup_map_iff_inj_on (h.tried_nodup b)).mpr ?_
    intro n hMem n' hMem' hEq
    obtain ⟨nId, hId, -⟩ := (h.tried b n).mp hMem
    obtain ⟨nId', hId', -⟩ := (h.tried b n').mp hMem'
    rw [hNumber n nId hId, hNumber n' nId' hId'] at hEq
    subst hEq
    exact h.position_unique hId hId'

theorem card_new_le
    (h : Renumbered ids man man') (b : NewBucket) : (man'.vvNew b).card ≤ (man.vvNew b).card := by
  apply Finset.card_le_card_of_injOn fun n => ids.getD n 0
  · intro n hMem
    obtain ⟨nId, hId, hNew⟩ := (h.new b n).mp hMem
    simpa [List.getD_eq_getElem?_getD, hId] using hNew
  · intro n hMem n' hMem' hEq
    obtain ⟨nId, hId, -⟩ := (h.new b n).mp hMem
    obtain ⟨nId', hId', -⟩ := (h.new b n').mp hMem'
    simp only [List.getD_eq_getElem?_getD, hId, hId', Option.getD_some] at hEq
    subst hEq
    exact h.position_unique hId hId'

theorem indexed
    (h : Renumbered ids man man') (hMan : man.Indexed) : man'.Indexed where
  nodup := by
    rw [h.random]
    exact List.nodup_range
  known := by
    intro n hMem
    rw [h.random, List.mem_range] at hMem
    obtain ⟨info, hEntry⟩ := (h.known ids[n]).mp (List.getElem_mem hMem)
    exact ⟨_, h.entry (List.getElem?_eq_getElem hMem) hEntry⟩
  position := by
    intro n info' hEntry'
    obtain ⟨nId, info, hId, -, rfl⟩ := h.of_entry hEntry'
    have hLt := (List.getElem?_eq_some_iff.mp hId).1
    refine ⟨n, rfl, ?_⟩
    rw [h.random, List.getElem?_range hLt]
  address := by
    intro addr n
    rw [h.address]
    constructor
    · rintro ⟨nId, hId, hAddr⟩
      obtain ⟨info, hEntry, hInfo⟩ := (hMan.address addr nId).mp hAddr
      exact ⟨_, h.entry hId hEntry, hInfo⟩
    · rintro ⟨info', hEntry', hInfo⟩
      obtain ⟨nId, info, hId, hEntry, rfl⟩ := h.of_entry hEntry'
      exact ⟨nId, hId, (hMan.address addr nId).mpr ⟨info, hEntry, hInfo⟩⟩
  fresh := by
    intro n info' hEntry'
    obtain ⟨nId, info, hId, -⟩ := h.of_entry hEntry'
    rw [h.nIdCount]
    exact (List.getElem?_eq_some_iff.mp hId).1

theorem placed
    (h : Renumbered ids man man') (hMan : Consistent prims attempted none man) :
    man'.tables.Placed (CAddrInfo.triedBucket prims man.nKey) none where
  entry := by
    intro n
    have hSummary : man'.tables.summary n =
        ids[n]?.bind fun nId => man.tables.summary nId := by
      change (man'.mapInfo.lookup n).map CAddrInfo.summary = _
      rw [h.entries]
      cases ids[n]? with
      | none => rfl
      | some nId =>
          rw [Option.bind_some, Option.bind_some, Option.map_map]
          rfl
    cases hId : ids[n]? with
    | none =>
        have hHeld : holders man'.tables.new n = ∅ := by
          apply holders_eq_empty
          intro b hMem
          obtain ⟨nId, hSome, -⟩ := (h.new b n).mp hMem
          rw [hId] at hSome
          cases hSome
        have hListed : man'.tables.listed n = ∅ := by
          rw [Finset.eq_empty_iff_forall_notMem]
          intro b hMem
          obtain ⟨nId, hSome, -⟩ := (h.tried b n).mp (AddrTables.mem_listed.mp hMem)
          rw [hId] at hSome
          cases hSome
        rw [hSummary, hId, hHeld, hListed]
        exact AddrTables.PlacedAs.absent
    | some nId =>
        have hHeld : holders man'.tables.new n = holders man.tables.new nId := by
          ext b
          rw [mem_holders, mem_holders]
          exact h.new_iff hId b
        have hListed : man'.tables.listed n = man.tables.listed nId := by
          ext b
          rw [AddrTables.mem_listed, AddrTables.mem_listed]
          exact h.tried_iff hId b
        rw [hSummary, hId, hHeld, hListed]
        exact hMan.placed.entry nId
  tried_nodup := h.tried_nodup
  tried_size := by
    intro b
    have hLength := (h.tried_perm hMan b).length_eq
    rw [List.length_map] at hLength
    change (man'.vvTried b).length ≤ _
    rw [hLength]
    exact hMan.placed.tried_size b
  new_size := fun b => (h.card_new_le b).trans (hMan.placed.new_size b)

/-- A consistent manager stays consistent under new ids, and no attempt is known. -/
theorem consistent
    (h : Renumbered ids man man') (hMan : Consistent prims attempted none man) :
    Consistent prims (· = 0) none man' where
  indexed := h.indexed hMan.indexed
  placed := by
    rw [h.nKey]
    exact h.placed hMan
  tallied := by
    have hTried := hMan.tallied.tried
    have hAll := hMan.tallied.all
    have hIds : ids.Perm man.vRandom := by
      rw [List.perm_ext_iff_of_nodup h.nodup hMan.indexed.nodup]
      intro nId
      rw [h.known]
      constructor
      · rintro ⟨info, hEntry⟩
        obtain ⟨i, -, hAt⟩ := hMan.indexed.position nId info hEntry
        exact List.mem_of_getElem? hAt
      · exact hMan.indexed.known nId
    constructor
    · rw [h.nTried, hTried]
      refine Finset.sum_congr rfl fun b _ => ?_
      rw [← (h.tried_perm hMan b).length_eq, List.length_map]
    · rw [h.random, List.length_range, hIds.length_eq, h.nTried, h.nNew, hAll]
  timed := by
    intro n info' hEntry'
    obtain ⟨nId, info, -, hEntry, rfl⟩ := h.of_entry hEntry'
    obtain ⟨hSuccess, hTried, -⟩ := hMan.timed nId info hEntry
    exact ⟨hSuccess, hTried, rfl⟩

end Renumbered

/-! ## What a manager says about addresses -/

/-- The entry of an address, apart from the fields that depend on the run. -/
def entryOf (man : CAddrMan) (addr : CNetAddr) : Option CAddrInfo :=
  (man.find addr).map fun found => renumberedInfo 0 found.2

/-- The address is in a new bucket. -/
def InNew (man : CAddrMan) (addr : CNetAddr) (b : NewBucket) : Prop :=
  ∃ nId, man.mapAddr.lookup addr = some nId ∧ nId ∈ man.vvNew b

/-- The address is in a tried bucket. -/
def InTried (man : CAddrMan) (addr : CNetAddr) (b : TriedBucket) : Prop :=
  ∃ nId, man.mapAddr.lookup addr = some nId ∧ nId ∈ man.vvTried b

/-- Two managers say the same about every address: the serialized fields of its entry,
its table and its reference count, and the buckets it is in. -/
structure SameAddresses (man man' : CAddrMan) : Prop where
  nKey : man'.nKey = man.nKey
  nNew : man'.nNew = man.nNew
  nTried : man'.nTried = man.nTried
  entry : ∀ addr, man'.entryOf addr = man.entryOf addr
  new : ∀ addr b, man'.InNew addr b ↔ man.InNew addr b
  tried : ∀ addr b, man'.InTried addr b ↔ man.InTried addr b

/-- New ids do not change what a manager says about addresses. -/
theorem Renumbered.sameAddresses
    (h : Renumbered ids man man') (hMan : man.Indexed) : SameAddresses man man' where
  nKey := h.nKey
  nNew := h.nNew
  nTried := h.nTried
  entry := by
    intro addr
    have hMan' := h.indexed hMan
    unfold entryOf
    cases hFind : man'.find addr with
    | none =>
        have hNone := (find_eq_none hMan').mp hFind
        cases hFind' : man.find addr with
        | none => rfl
        | some found =>
            obtain ⟨nId, info⟩ := found
            obtain ⟨hEntry, hAddr⟩ := (find_eq_some hMan).mp hFind'
            obtain ⟨n, hId⟩ := List.mem_iff_getElem?.mp ((h.known nId).mpr ⟨info, hEntry⟩)
            have hSome := (h.address addr n).mpr
              ⟨nId, hId, (hMan.address addr nId).mpr ⟨info, hEntry, hAddr⟩⟩
            rw [hNone] at hSome
            cases hSome
    | some found =>
        obtain ⟨n, info'⟩ := found
        obtain ⟨hEntry', hAddr⟩ := (find_eq_some hMan').mp hFind
        obtain ⟨nId, info, -, hEntry, rfl⟩ := h.of_entry hEntry'
        have hFind' := (find_eq_some hMan).mpr ⟨hEntry, hAddr⟩
        rw [hFind']
        rfl
  new := by
    intro addr b
    constructor
    · rintro ⟨n, hAddr, hMem⟩
      obtain ⟨nId, hId, hOld⟩ := (h.address addr n).mp hAddr
      exact ⟨nId, hOld, (h.new_iff hId b).mp hMem⟩
    · rintro ⟨nId, hAddr, hMem⟩
      obtain ⟨info, hEntry, -⟩ := (hMan.address addr nId).mp hAddr
      obtain ⟨n, hId⟩ := List.mem_iff_getElem?.mp ((h.known nId).mpr ⟨info, hEntry⟩)
      exact ⟨n, (h.address addr n).mpr ⟨nId, hId, hAddr⟩, (h.new_iff hId b).mpr hMem⟩
  tried := by
    intro addr b
    constructor
    · rintro ⟨n, hAddr, hMem⟩
      obtain ⟨nId, hId, hOld⟩ := (h.address addr n).mp hAddr
      exact ⟨nId, hOld, (h.tried_iff hId b).mp hMem⟩
    · rintro ⟨nId, hAddr, hMem⟩
      obtain ⟨info, hEntry, -⟩ := (hMan.address addr nId).mp hAddr
      obtain ⟨n, hId⟩ := List.mem_iff_getElem?.mp ((h.known nId).mpr ⟨info, hEntry⟩)
      exact ⟨n, (h.address addr n).mpr ⟨nId, hId, hAddr⟩, (h.tried_iff hId b).mpr hMem⟩

end CAddrMan

end SocietyGold
