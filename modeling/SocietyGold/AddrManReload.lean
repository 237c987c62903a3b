import SocietyGold.AddrManFile
import SocietyGold.AddrManRenumbered

/-!
# Reading the address manager back

The writer numbers the new entries in the order of their ids, and the tried ones after
them.  The reader makes a manager with these numbers as ids, in which every entry is in
the buckets it was in.
-/

namespace SocietyGold

open Support

namespace CAddrMan

variable {prims : Primitives} {attempted : Int64 → Prop} {man : CAddrMan}

/-! ## What is written -/

/-- Is it an entry of the table of new addresses, as the writer tells? -/
def isNewEntry (e : ℕ × CAddrInfo) : Bool := e.2.nRefCount ≠ 0

def isTriedEntry (e : ℕ × CAddrInfo) : Bool := e.2.fInTried

theorem writeNew_spec
    {nNew nIds : ℤ} {entries : List (ℕ × CAddrInfo)} (mapUnkIds : Table ℕ ℤ)
    (hNodup : (entries.map Prod.fst).Nodup)
    (hCount : nNew = nIds + (entries.filter isNewEntry).length) :
    (writeNew nNew entries nIds mapUnkIds).1 =
        (entries.filter isNewEntry).flatMap (fun e => e.2.serialize 0) ∧
      (∀ k, k ∉ entries.map Prod.fst →
        (writeNew nNew entries nIds mapUnkIds).2.lookup k = mapUnkIds.lookup k) ∧
      ∀ (i : ℕ) (e : ℕ × CAddrInfo), (entries.filter isNewEntry)[i]? = some e →
        (writeNew nNew entries nIds mapUnkIds).2.lookup e.1 = some (nIds + i) := by
  induction entries generalizing nIds mapUnkIds with
  | nil => exact ⟨rfl, fun k _ => rfl, fun i e h => by simp at h⟩
  | cons e entries ih =>
      obtain ⟨nId, info⟩ := e
      rw [List.map_cons, List.nodup_cons] at hNodup
      obtain ⟨hFresh, hRest⟩ := hNodup
      by_cases hStop : nIds = nNew
      · have hNone : ((nId, info) :: entries).filter isNewEntry = [] := by
          rw [← List.length_eq_zero_iff]
          omega
        rw [writeNew, if_pos hStop, hNone]
        exact ⟨rfl, fun k _ => rfl, fun i e h => by simp at h⟩
      rw [writeNew, if_neg hStop]
      by_cases hNew : info.nRefCount ≠ 0
      · have hFilter : ((nId, info) :: entries).filter isNewEntry =
            (nId, info) :: entries.filter isNewEntry :=
          List.filter_cons_of_pos (by simpa [isNewEntry] using hNew)
        rw [hFilter, List.length_cons] at hCount
        obtain ⟨hBytes, hOther, hIndex⟩ := @ih (nIds + 1) (mapUnkIds.insert nId nIds) hRest
          (by push_cast at hCount; omega)
        dsimp only
        rw [if_pos hNew, hFilter]
        refine ⟨by rw [hBytes, List.flatMap_cons], ?_, ?_⟩
        · intro k hK
          rw [List.map_cons, List.mem_cons, not_or] at hK
          rw [hOther k hK.2, Table.lookup_insert_ite, if_neg hK.1]
        · intro i e hAt
          cases i with
          | zero =>
              rw [List.getElem?_cons_zero, Option.some.injEq] at hAt
              subst hAt
              rw [hOther nId hFresh, Table.lookup_insert_ite, if_pos rfl]
              simp
          | succ i =>
              rw [List.getElem?_cons_succ] at hAt
              rw [hIndex i e hAt]
              push_cast
              congr 1
              omega
      · have hFilter : ((nId, info) :: entries).filter isNewEntry = entries.filter isNewEntry :=
          List.filter_cons_of_neg (by simpa [isNewEntry] using hNew)
        rw [hFilter] at hCount
        obtain ⟨hBytes, hOther, hIndex⟩ := ih (mapUnkIds.insert nId nIds) hRest hCount
        dsimp only
        rw [if_neg hNew, hFilter]
        refine ⟨hBytes, ?_, hIndex⟩
        intro k hK
        rw [List.map_cons, List.mem_cons, not_or] at hK
        rw [hOther k hK.2, Table.lookup_insert_ite, if_neg hK.1]

theorem writeTried_spec
    {nTried nIds : ℤ} {entries : List (ℕ × CAddrInfo)}
    (hCount : nTried = nIds + (entries.filter isTriedEntry).length) :
    writeTried nTried entries nIds =
      (entries.filter isTriedEntry).flatMap (fun e => e.2.serialize 0) := by
  induction entries generalizing nIds with
  | nil => rfl
  | cons e entries ih =>
      obtain ⟨nId, info⟩ := e
      by_cases hStop : nIds = nTried
      · have hNone : ((nId, info) :: entries).filter isTriedEntry = [] := by
          rw [← List.length_eq_zero_iff]
          omega
        rw [writeTried, if_pos hStop, hNone]
        rfl
      rw [writeTried, if_neg hStop]
      by_cases hTried : info.fInTried = true
      · have hFilter : ((nId, info) :: entries).filter isTriedEntry =
            (nId, info) :: entries.filter isTriedEntry :=
          List.filter_cons_of_pos hTried
        rw [hFilter, List.length_cons] at hCount
        rw [if_pos hTried, hFilter, List.flatMap_cons,
          @ih (nIds + 1) (by push_cast at hCount; omega)]
      · have hFilter : ((nId, info) :: entries).filter isTriedEntry =
            entries.filter isTriedEntry :=
          List.filter_cons_of_neg hTried
        rw [hFilter] at hCount
        rw [if_neg hTried, hFilter, ih hCount]

/-! ## The entries and their numbers -/

def newEntries (man : CAddrMan) : List (ℕ × CAddrInfo) := man.mapInfo.inKeyOrder.filter isNewEntry

def triedEntries (man : CAddrMan) : List (ℕ × CAddrInfo) :=
  man.mapInfo.inKeyOrder.filter isTriedEntry

/-- The entries in the order in which they are written. -/
def written (man : CAddrMan) : List (ℕ × CAddrInfo) := man.newEntries ++ man.triedEntries

theorem isNewEntry_eq
    (h : Consistent prims attempted none man) {nId : ℕ} {info : CAddrInfo}
    (hEntry : man.mapInfo.lookup nId = some info) :
    isNewEntry (nId, info) = !isTriedEntry (nId, info) := by
  unfold isNewEntry isTriedEntry
  dsimp only
  cases hTable : info.fInTried with
  | true =>
      have hCount := (h.placed.tried_entry (summary_tables hEntry) hTable).2.2
      change info.nRefCount = 0 at hCount
      simp [hCount]
  | false =>
      have hLower := (h.placed.new_entry (summary_tables hEntry) hTable).2.2.1
      change 1 ≤ info.nRefCount at hLower
      have hNe : info.nRefCount ≠ 0 := by
        omega
      simp [hNe]

theorem fInTried_of_mem_newEntries
    (h : Consistent prims attempted none man) {e : ℕ × CAddrInfo} (hMem : e ∈ man.newEntries) :
    e.2.fInTried = false := by
  obtain ⟨hIn, hIs⟩ := List.mem_filter.mp hMem
  rw [isNewEntry_eq h (Table.mem_inKeyOrder.mp hIn)] at hIs
  simpa [isTriedEntry] using hIs

theorem mem_written
    (h : Consistent prims attempted none man) (nId : ℕ) (info : CAddrInfo) :
    (nId, info) ∈ man.written ↔ man.mapInfo.lookup nId = some info := by
  unfold written newEntries triedEntries
  rw [List.mem_append, List.mem_filter, List.mem_filter, Table.mem_inKeyOrder]
  constructor
  · rintro (⟨hEntry, -⟩ | ⟨hEntry, -⟩) <;> exact hEntry
  · intro hEntry
    cases hTried : isTriedEntry (nId, info) with
    | true => exact Or.inr ⟨hEntry, rfl⟩
    | false => exact Or.inl ⟨hEntry, by rw [isNewEntry_eq h hEntry, hTried]; rfl⟩

/-- The entry written at a place is known under its id. -/
theorem lookup_of_written
    (h : Consistent prims attempted none man) {n nId : ℕ} {info : CAddrInfo}
    (hAt : man.written[n]? = some (nId, info)) : man.mapInfo.lookup nId = some info :=
  (mem_written h nId info).mp (List.mem_of_getElem? hAt)

theorem nodup_written (h : Consistent prims attempted none man) :
    (man.written.map Prod.fst).Nodup := by
  have hKeys := Table.nodup_keys_inKeyOrder man.mapInfo
  unfold written
  rw [List.map_append]
  refine List.Nodup.append ?_ ?_ ?_
  · exact hKeys.sublist (List.filter_sublist.map _)
  · exact hKeys.sublist (List.filter_sublist.map _)
  · intro nId hNew hTried
    obtain ⟨⟨nId, info⟩, hMem, rfl⟩ := List.mem_map.mp hNew
    obtain ⟨⟨nId', info'⟩, hMem', hEq⟩ := List.mem_map.mp hTried
    dsimp only at hEq
    subst hEq
    obtain ⟨hIn, hIsNew⟩ := List.mem_filter.mp hMem
    obtain ⟨hIn', hIsTried⟩ := List.mem_filter.mp hMem'
    rw [Table.mem_inKeyOrder] at hIn hIn'
    rw [hIn, Option.some.injEq] at hIn'
    subst hIn'
    rw [isNewEntry_eq h hIn, hIsTried] at hIsNew
    cases hIsNew

theorem length_triedEntries (h : Consistent prims attempted none man) :
    (man.triedEntries.length : ℤ) = man.nTried := by
  have hPerm : (man.triedEntries.map Prod.fst).Perm man.triedIds := by
    have hNodup : (man.triedEntries.map Prod.fst).Nodup :=
      (Table.nodup_keys_inKeyOrder man.mapInfo).sublist (List.filter_sublist.map _)
    rw [List.perm_ext_iff_of_nodup hNodup (nodup_triedIds h)]
    intro nId
    rw [mem_triedIds h, List.mem_map]
    constructor
    · rintro ⟨⟨nId, info⟩, hMem, rfl⟩
      obtain ⟨hIn, hTried⟩ := List.mem_filter.mp hMem
      exact ⟨info, Table.mem_inKeyOrder.mp hIn, hTried⟩
    · rintro ⟨info, hEntry, hTried⟩
      exact ⟨(nId, info), List.mem_filter.mpr ⟨Table.mem_inKeyOrder.mpr hEntry, hTried⟩, rfl⟩
  have hLength := hPerm.length_eq
  rw [List.length_map] at hLength
  rw [hLength, length_triedIds h]

theorem length_newEntries (h : Consistent prims attempted none man) :
    (man.newEntries.length : ℤ) = man.nNew := by
  have hPerm : (man.written.map Prod.fst).Perm man.vRandom := by
    rw [List.perm_ext_iff_of_nodup (nodup_written h) h.indexed.nodup]
    intro nId
    rw [List.mem_map]
    constructor
    · rintro ⟨⟨nId, info⟩, hMem, rfl⟩
      obtain ⟨i, -, hAt⟩ := h.indexed.position nId info ((mem_written h nId info).mp hMem)
      exact List.mem_of_getElem? hAt
    · intro hMem
      obtain ⟨info, hEntry⟩ := h.indexed.known nId hMem
      exact ⟨(nId, info), (mem_written h nId info).mpr hEntry, rfl⟩
  have hLength := hPerm.length_eq
  rw [List.length_map, written, List.length_append] at hLength
  have hTried := length_triedEntries h
  have hAll := h.tallied.all
  omega

/-! ## The entries that are read -/

/-- An entry as it is read under a number, before it is referred to. -/
def slotOf (n : ℕ) (info : CAddrInfo) : CAddrInfo :=
  { renumberedInfo n info with nRefCount := 0 }

/-- The entries in the order in which they are read. -/
def slotsOf (entries : List (ℕ × CAddrInfo)) : List CAddrInfo :=
  entries.zipIdx.map fun e => slotOf e.2 e.1.2

/-- The same with the references that the reader has counted for an entry. -/
def slotWith (count : CAddrInfo → ℤ) (n : ℕ) (info : CAddrInfo) : CAddrInfo :=
  { renumberedInfo n info with nRefCount := count info }

def slotsWith (count : CAddrInfo → ℤ) (entries : List (ℕ × CAddrInfo)) : List CAddrInfo :=
  entries.zipIdx.map fun e => slotWith count e.2 e.1.2

@[simp] theorem length_slotsWith (count : CAddrInfo → ℤ) (entries : List (ℕ × CAddrInfo)) :
    (slotsWith count entries).length = entries.length := by
  simp [slotsWith]

theorem slotsWith_append
    (count : CAddrInfo → ℤ) (entries : List (ℕ × CAddrInfo)) (e : ℕ × CAddrInfo) :
    slotsWith count (entries ++ [e]) =
      slotsWith count entries ++ [slotWith count entries.length e.2] := by
  simp [slotsWith, List.zipIdx_append]

theorem getElem?_slotsWith (count : CAddrInfo → ℤ) (entries : List (ℕ × CAddrInfo)) (n : ℕ) :
    (slotsWith count entries)[n]? = entries[n]?.map fun e => slotWith count n e.2 := by
  rw [slotsWith, List.getElem?_map, List.getElem?_zipIdx, Option.map_map, Nat.zero_add]
  rfl

theorem slotsOf_eq (entries : List (ℕ × CAddrInfo)) :
    slotsOf entries = slotsWith (fun _ => 0) entries := rfl

@[simp] theorem length_slotsOf (entries : List (ℕ × CAddrInfo)) :
    (slotsOf entries).length = entries.length := length_slotsWith (fun _ => 0) entries

theorem getElem?_slotsOf (entries : List (ℕ × CAddrInfo)) (n : ℕ) :
    (slotsOf entries)[n]? = entries[n]?.map fun e => slotOf n e.2 :=
  getElem?_slotsWith (fun _ => 0) entries n

/-- A manager that has read some entries. -/
structure Loaded (prims : Primitives) (slots : List CAddrInfo) (man : CAddrMan) : Prop where
  entries : ∀ n, man.mapInfo.lookup n = slots[n]?
  random : man.vRandom = List.range slots.length
  address : ∀ addr n, man.mapAddr.lookup addr = some n ↔
    ∃ info, slots[n]? = some info ∧ info.toCNetAddr = addr
  tried : ∀ b, man.vvTried b = (slots.zipIdx.filter fun e =>
    e.1.fInTried && e.1.getTriedBucket prims man.nKey = b).map Prod.snd

/-- One more entry has been read, whose address is not known yet. -/
theorem Loaded.push
    {slots : List CAddrInfo} {man' : CAddrMan} {info : CAddrInfo} (h : Loaded prims slots man)
    (hFresh : ∀ old ∈ slots, old.toCNetAddr ≠ info.toCNetAddr) (hKey : man'.nKey = man.nKey)
    (hInfo : man'.mapInfo = man.mapInfo.insert slots.length info)
    (hAddr : man'.mapAddr = man.mapAddr.insert info.toCNetAddr slots.length)
    (hRandom : man'.vRandom = man.vRandom ++ [slots.length])
    (hTried : ∀ b, man'.vvTried b = man.vvTried b ++
      if info.fInTried && info.getTriedBucket prims man.nKey = b then [slots.length] else []) :
    Loaded prims (slots ++ [info]) man' where
  entries := by
    intro n
    rw [hInfo, Table.lookup_insert_ite, h.entries]
    by_cases hN : n = slots.length
    · rw [if_pos hN, hN, List.getElem?_concat_length]
    · rw [if_neg hN]
      rcases Nat.lt_or_ge n slots.length with hLt | hGe
      · rw [List.getElem?_append_left hLt]
      · have hBeyond : (slots ++ [info]).length ≤ n := by
          rw [List.length_append, List.length_singleton]
          omega
        rw [List.getElem?_eq_none hGe, List.getElem?_eq_none hBeyond]
  random := by
    rw [hRandom, h.random, List.length_append, List.length_singleton, List.range_succ]
  address := by
    intro addr n
    rw [hAddr, Table.lookup_insert_ite]
    by_cases hSame : addr = info.toCNetAddr
    · subst hSame
      rw [if_pos rfl, Option.some.injEq]
      constructor
      · rintro rfl
        exact ⟨info, List.getElem?_concat_length .., rfl⟩
      · rintro ⟨old, hAt, hOld⟩
        rcases Nat.lt_or_ge n slots.length with hLt | hGe
        · rw [List.getElem?_append_left hLt] at hAt
          exact absurd hOld (hFresh old (List.mem_of_getElem? hAt))
        · have hLt := (List.getElem?_eq_some_iff.mp hAt).1
          rw [List.length_append, List.length_singleton] at hLt
          omega
    · rw [if_neg hSame, h.address]
      constructor
      · rintro ⟨old, hAt, hOld⟩
        have hLt := (List.getElem?_eq_some_iff.mp hAt).1
        exact ⟨old, by rw [List.getElem?_append_left hLt, hAt], hOld⟩
      · rintro ⟨old, hAt, hOld⟩
        rcases Nat.lt_or_ge n slots.length with hLt | hGe
        · rw [List.getElem?_append_left hLt] at hAt
          exact ⟨old, hAt, hOld⟩
        · have hLt := (List.getElem?_eq_some_iff.mp hAt).1
          rw [List.length_append, List.length_singleton] at hLt
          have hN : n = slots.length := by
            omega
          rw [hN, List.getElem?_concat_length, Option.some.injEq] at hAt
          exact absurd (hOld.symm.trans (by rw [hAt])) hSame
  tried := by
    intro b
    rw [hTried, h.tried, hKey, List.zipIdx_append, List.filter_append, List.map_append,
      List.zipIdx_singleton, List.filter_singleton]
    dsimp only
    generalize (info.fInTried && decide (info.getTriedBucket prims man.nKey = b)) = fListed
    cases fListed <;> simp

/-! ## The loops of the reader -/

theorem readLoop_eq
    {σ α γ : Type} {read : Reader α} {word : γ → List UInt8} {value : γ → α} {elements : List γ}
    (h : ∀ c ∈ elements, ReadsAs read (word c) (value c)) (take : σ → ℕ → α → σ) (s : σ)
    (rest : List UInt8) :
    readLoop read take elements.length s (elements.flatMap word ++ rest) =
      .ok (elements.zipIdx.foldl (fun s e => take s e.2 (value e.1)) s, rest) := by
  have hRange : List.range elements.length = elements.zipIdx.map Prod.snd := by
    rw [List.zipIdx_map_snd, List.range_eq_range']
  have hWords : elements.flatMap word = elements.zipIdx.flatMap fun e => word e.1 := by
    conv_lhs => rw [← List.zipIdx_map_fst 0 elements, List.flatMap_map]
  rw [readLoop, Int.toNat_natCast, hRange, List.foldlM_map, hWords]
  apply foldlM_words
  intro e hMem s rest
  have hElement : e.1 ∈ elements := (List.mem_zipIdx' hMem).2 ▸ List.getElem_mem _
  simp only [h e.1 hElement rest, orThrow_some, ok_bind]

/-- An entry that `loadNew` has put under its number. -/
theorem slotWith_of_new
    {count : CAddrInfo → ℤ} {info : CAddrInfo} (hNew : info.fInTried = false) (n : ℕ) :
    slotWith count n info = { info.stored with nRandomPos := n, nRefCount := count info } := by
  cases info
  subst hNew
  rfl

theorem slotWith_of_tried
    {count : CAddrInfo → ℤ} {info : CAddrInfo} (hTried : info.fInTried = true)
    (hZero : count info = 0) (n : ℕ) :
    slotWith count n info = { info.stored with nRandomPos := n, fInTried := true } := by
  unfold slotWith
  rw [hZero]
  cases info
  subst hTried
  rfl

/-- An address that comes once only is not among the slots before it. -/
theorem ne_of_mem_slotsWith
    {count : CAddrInfo → ℤ} {entries : List (ℕ × CAddrInfo)} {e : ℕ × CAddrInfo}
    (hAddrs : ((entries ++ [e]).map fun e => e.2.toCNetAddr).Nodup) (n : ℕ) :
    ∀ old ∈ slotsWith count entries, old.toCNetAddr ≠ (slotWith count n e.2).toCNetAddr := by
  intro old hMem hSame
  rw [List.map_append, List.nodup_append'] at hAddrs
  obtain ⟨i, hAt⟩ := List.mem_iff_getElem?.mp hMem
  rw [getElem?_slotsWith, Option.map_eq_some_iff] at hAt
  obtain ⟨e', hEntry, rfl⟩ := hAt
  have hOld : e'.2.toCNetAddr ∈ entries.map fun e => e.2.toCNetAddr :=
    List.mem_map_of_mem (List.mem_of_getElem? hEntry)
  exact hAddrs.2.2 hOld (List.mem_map.mpr ⟨e, List.mem_cons_self, hSame.symm⟩)

/-- How often a new entry is referred to after the first loop. -/
def countAtLoad (nUBuckets : ℤ) (info : CAddrInfo) : ℤ :=
  if nUBuckets = ADDRMAN_NEW_BUCKET_COUNT || info.fInTried then 0 else 1

theorem exists_getElem?_concat
    {α : Type} {xs : List α} {x : α} {p : α → Prop} {n : ℕ} :
    (∃ y, (xs ++ [x])[n]? = some y ∧ p y) ↔
      (∃ y, xs[n]? = some y ∧ p y) ∨ p x ∧ n = xs.length := by
  rcases lt_trichotomy n xs.length with hBefore | rfl | hBeyond
  · rw [List.getElem?_append_left hBefore]
    simp [hBefore.ne]
  · rw [List.getElem?_concat_length]
    simp
  · have hLength : (xs ++ [x]).length ≤ n := by
      rw [List.length_append, List.length_singleton]
      omega
    rw [List.getElem?_eq_none hLength, List.getElem?_eq_none hBeyond.le]
    simp [hBeyond.ne']

/-- A new entry is read under its number. -/
theorem loadNew_eq
    {nUBuckets : ℤ} {n : ℕ} {info : CAddrInfo} (hNew : info.fInTried = false)
    (hNext : man.vRandom.length = n) :
    loadNew prims nUBuckets man n info.stored =
      { man with
        mapInfo := man.mapInfo.insert n (slotWith (countAtLoad nUBuckets) n info)
        mapAddr := man.mapAddr.insert info.toCNetAddr n
        vRandom := man.vRandom ++ [n]
        vvNew :=
          if nUBuckets = ADDRMAN_NEW_BUCKET_COUNT then man.vvNew
          else putInto man.vvNew (info.getNewBucket prims man.nKey info.source) n } := by
  rw [slotWith_of_new hNew]
  unfold loadNew countAtLoad
  dsimp only
  rw [hNew, Bool.or_false]
  by_cases hHere : nUBuckets = ADDRMAN_NEW_BUCKET_COUNT
  · rw [if_neg (not_not_intro hHere), if_pos hHere, if_pos (decide_eq_true hHere), hNext]
    rfl
  · have hOther : ¬decide (nUBuckets = ADDRMAN_NEW_BUCKET_COUNT) = true := by
      simpa using hHere
    rw [if_pos hHere, if_neg hHere, if_neg hOther, hNext]
    unfold insertNew modifyInfo
    dsimp only
    rw [AList.lookup_insert]
    dsimp only
    rw [AList.insert_insert]
    rfl

/-- The first loop reads the new entries.  For another number of new buckets it also puts
them into the buckets that they have here. -/
theorem loaded_new
    {nUBuckets : ℤ} {base : CAddrMan} (hBase : Loaded prims [] base)
    {entries : List (ℕ × CAddrInfo)} (hNew : ∀ e ∈ entries, e.2.fInTried = false)
    (hAddrs : (entries.map fun e => e.2.toCNetAddr).Nodup) :
    ∃ man, entries.zipIdx.foldl
        (fun man e => loadNew prims nUBuckets man e.2 e.1.2.stored) base = man ∧
      Loaded prims (slotsWith (countAtLoad nUBuckets) entries) man ∧
      man = { base with
        mapInfo := man.mapInfo
        mapAddr := man.mapAddr
        vRandom := man.vRandom
        vvNew := man.vvNew } ∧
      (∀ b n, n ∈ man.vvNew b ↔ n ∈ base.vvNew b ∨ nUBuckets ≠ ADDRMAN_NEW_BUCKET_COUNT ∧
        ∃ e, entries[n]? = some e ∧ e.2.getNewBucket prims base.nKey e.2.source = b) := by
  induction entries using List.reverseRecOn with
  | nil => exact ⟨base, rfl, hBase, rfl, by simp⟩
  | append_singleton entries e ih =>
      have hBefore : (entries.map fun e => e.2.toCNetAddr).Nodup := by
        rw [List.map_append, List.nodup_append'] at hAddrs
        exact hAddrs.1
      obtain ⟨man, hFold, hLoaded, hFrame, hBuckets⟩ := ih
        (fun e he => hNew e (List.mem_append_left _ he)) hBefore
      have hTable : e.2.fInTried = false :=
        hNew e (List.mem_append_right _ List.mem_cons_self)
      have hLength : man.vRandom.length = (slotsWith (countAtLoad nUBuckets) entries).length := by
        rw [hLoaded.random, List.length_range]
      have hKey : man.nKey = base.nKey := by
        rw [hFrame]
      have hNumber : (slotsWith (countAtLoad nUBuckets) entries).length = entries.length :=
        length_slotsWith _ _
      refine ⟨_, rfl, ?_⟩
      rw [List.zipIdx_append, List.foldl_append, hFold, slotsWith_append]
      simp only [List.zipIdx_singleton, List.foldl_cons, List.foldl_nil, Nat.zero_add]
      rw [loadNew_eq hTable (hLength.trans hNumber)]
      refine ⟨hLoaded.push (ne_of_mem_slotsWith hAddrs _) rfl ?_ ?_ ?_ ?_, ?_, ?_⟩
      · rw [hNumber]
      · rw [hNumber]
        rfl
      · rw [hNumber]
      · intro b
        have hUnlisted : (slotWith (countAtLoad nUBuckets) entries.length e.2).fInTried = false :=
          hTable
        rw [hUnlisted, Bool.false_and, if_neg Bool.false_ne_true, List.append_nil]
      · rw [hFrame]
      · intro b n
        rw [exists_getElem?_concat]
        dsimp only
        split_ifs with hHere
        · rw [hBuckets]
          simp [hHere]
        · rw [mem_putInto, hBuckets, hKey]
          simp only [ne_eq, hHere, not_false_eq_true, true_and, or_assoc, eq_comm (a := b)]

theorem countP_zipIdx {α : Type} (p : α → Bool) (xs : List α) :
    xs.zipIdx.countP (fun e => p e.1) = xs.countP p := by
  conv_rhs => rw [← List.zipIdx_map_fst 0 xs, List.countP_map]
  rfl

theorem Loaded.nodup_vvTried
    {slots : List CAddrInfo} (h : Loaded prims slots man) (b : TriedBucket) :
    (man.vvTried b).Nodup := by
  rw [h.tried]
  refine List.Nodup.sublist (List.filter_sublist.map _) ?_
  rw [List.zipIdx_map_snd]
  exact List.nodup_range'

/-- A tried bucket lists the tried entries of that bucket. -/
theorem Loaded.mem_vvTried
    {count : CAddrInfo → ℤ} {entries : List (ℕ × CAddrInfo)}
    (h : Loaded prims (slotsWith count entries) man) (b : TriedBucket) (n : ℕ) :
    n ∈ man.vvTried b ↔ ∃ e, entries[n]? = some e ∧ e.2.fInTried = true ∧
      e.2.getTriedBucket prims man.nKey = b := by
  rw [h.tried, List.mem_map]
  constructor
  · rintro ⟨⟨slot, n⟩, hMem, rfl⟩
    obtain ⟨hIn, hIs⟩ := List.mem_filter.mp hMem
    rw [List.mem_zipIdx_iff_getElem?, getElem?_slotsWith, Option.map_eq_some_iff] at hIn
    obtain ⟨e, hAt, hSlot⟩ := hIn
    dsimp only at hSlot hIs
    rw [← hSlot, Bool.and_eq_true, decide_eq_true_iff] at hIs
    exact ⟨e, hAt, hIs⟩
  · rintro ⟨e, hAt, hIs⟩
    refine ⟨(slotWith count n e.2, n), List.mem_filter.mpr ⟨?_, ?_⟩, rfl⟩
    · rw [List.mem_zipIdx_iff_getElem?, getElem?_slotsWith, hAt]
      rfl
    · rw [Bool.and_eq_true, decide_eq_true_iff]
      exact hIs

/-- The ids that a tried bucket lists so far. -/
theorem Loaded.length_vvTried
    {count : CAddrInfo → ℤ} {entries : List (ℕ × CAddrInfo)}
    (h : Loaded prims (slotsWith count entries) man) (b : TriedBucket) :
    (man.vvTried b).length =
      entries.countP fun e => e.2.fInTried && e.2.getTriedBucket prims man.nKey = b := by
  rw [h.tried, List.length_map, ← List.countP_eq_length_filter]
  refine (countP_zipIdx (fun info : CAddrInfo =>
    info.fInTried && info.getTriedBucket prims man.nKey = b) _).trans ?_
  rw [slotsWith, List.countP_map]
  exact countP_zipIdx (fun e : ℕ × CAddrInfo =>
    e.2.fInTried && e.2.getTriedBucket prims man.nKey = b) entries

/-- A tried entry is read under the next number if its bucket has room. -/
theorem loadTried_eq
    {count : CAddrInfo → ℤ} {n : ℕ} {info : CAddrInfo} (hTried : info.fInTried = true)
    (hZero : count info = 0) (hNumber : man.nIdCount = n) (hNext : man.vRandom.length = n)
    {b : TriedBucket} (hBucket : info.getTriedBucket prims man.nKey = b)
    (hRoom : (man.vvTried b).length < ADDRMAN_TRIED_BUCKET_SIZE) :
    loadTried prims (man, 0) info.stored =
      ({ man with
        nIdCount := n + 1
        mapInfo := man.mapInfo.insert n (slotWith count n info)
        mapAddr := man.mapAddr.insert info.toCNetAddr n
        vRandom := man.vRandom ++ [n]
        vvTried := Function.update man.vvTried b (man.vvTried b ++ [n]) }, 0) := by
  have hStored : info.stored.getTriedBucket prims man.nKey = b := hBucket
  unfold loadTried
  dsimp only
  rw [hStored, if_pos hRoom, hNumber, hNext, slotWith_of_tried hTried hZero]
  rfl

/-- Where the ids that are listed so far leave room for one more entry. -/
theorem Loaded.room
    {count : CAddrInfo → ℤ} {entries : List (ℕ × CAddrInfo)} {e : ℕ × CAddrInfo}
    (h : Loaded prims (slotsWith count entries) man) (hTried : e.2.fInTried = true)
    {b : TriedBucket} (hBucket : e.2.getTriedBucket prims man.nKey = b) {n : ℕ}
    (hBound : (entries ++ [e]).countP
      (fun e => e.2.fInTried && e.2.getTriedBucket prims man.nKey = b) ≤ n) :
    (man.vvTried b).length < n := by
  have hIs : (e.2.fInTried && decide (e.2.getTriedBucket prims man.nKey = b)) = true := by
    rw [hTried, hBucket]
    simp
  rw [List.countP_append, List.countP_singleton, if_pos hIs] at hBound
  rw [h.length_vvTried]
  omega

/-- The second loop reads the tried entries, and there is room for all of them. -/
theorem loaded_tried
    {count : CAddrInfo → ℤ} {base : CAddrMan} {before entries : List (ℕ × CAddrInfo)}
    (hBase : Loaded prims (slotsWith count before) base) (hCount : base.nIdCount = before.length)
    (hTried : ∀ e ∈ entries, e.2.fInTried = true) (hZero : ∀ e ∈ entries, count e.2 = 0)
    (hAddrs : ((before ++ entries).map fun e => e.2.toCNetAddr).Nodup)
    (hRoom : ∀ b, (before ++ entries).countP
      (fun e => e.2.fInTried && e.2.getTriedBucket prims base.nKey = b) ≤
        ADDRMAN_TRIED_BUCKET_SIZE) :
    ∃ man, entries.foldl (fun loading e => loadTried prims loading e.2.stored) (base, 0) =
        (man, 0) ∧
      Loaded prims (slotsWith count (before ++ entries)) man ∧
      man.nIdCount = (before ++ entries).length ∧
      man = { base with
        nIdCount := man.nIdCount
        mapInfo := man.mapInfo
        mapAddr := man.mapAddr
        vRandom := man.vRandom
        vvTried := man.vvTried } := by
  induction entries using List.reverseRecOn with
  | nil =>
      rw [List.append_nil]
      exact ⟨base, rfl, hBase, hCount, rfl⟩
  | append_singleton entries e ih =>
      rw [← List.append_assoc] at hAddrs hRoom ⊢
      generalize hAll : before ++ entries = all at *
      have hBefore : (all.map fun e => e.2.toCNetAddr).Nodup := by
        rw [List.map_append, List.nodup_append'] at hAddrs
        exact hAddrs.1
      obtain ⟨man, hFold, hLoaded, hNext, hFrame⟩ := ih
        (fun e he => hTried e (List.mem_append_left _ he))
        (fun e he => hZero e (List.mem_append_left _ he)) hBefore fun b =>
          (List.countP_append ▸ Nat.le_add_right _ _).trans (hRoom b)
      have hTable : e.2.fInTried = true :=
        hTried e (List.mem_append_right _ List.mem_cons_self)
      have hKey : man.nKey = base.nKey := by
        rw [hFrame]
      have hNumber : (slotsWith count all).length = all.length := length_slotsWith count all
      have hLength : man.vRandom.length = all.length := by
        rw [hLoaded.random, List.length_range, hNumber]
      generalize hBucket : e.2.getTriedBucket prims man.nKey = bucket
      rw [← hKey] at hRoom
      rw [List.foldl_append, hFold, List.foldl_cons, List.foldl_nil, slotsWith_append,
        loadTried_eq hTable (hZero e (List.mem_append_right _ List.mem_cons_self)) hNext hLength
          hBucket (hLoaded.room hTable hBucket (hRoom bucket))]
      refine ⟨_, rfl, hLoaded.push (ne_of_mem_slotsWith hAddrs _) rfl ?_ ?_ ?_ ?_, ?_, ?_⟩
      · rw [hNumber]
      · rw [hNumber]
        rfl
      · rw [hNumber]
      · intro b
        have hIn : (slotWith count all.length e.2).fInTried = true := hTable
        have hSlot : (slotWith count all.length e.2).getTriedBucket prims man.nKey = bucket :=
          hBucket
        rw [hIn, Bool.true_and, hSlot, hNumber]
        by_cases hB : bucket = b
        · subst hB
          simp
        · have hNe : b ≠ bucket := Ne.symm hB
          simp [hB, hNe]
      · dsimp only
        rw [List.length_append, List.length_singleton]
      · rw [hFrame]

/-! ## References -/

/-- A reference to a known entry with room for one more is counted and entered. -/
theorem loadReference_of_lookup
    {man : CAddrMan} {n : ℕ} {info : CAddrInfo} (hEntry : man.mapInfo.lookup n = some info)
    (hBelow : info.nRefCount < ADDRMAN_NEW_BUCKETS_PER_ADDRESS) (b : NewBucket) :
    loadReference ADDRMAN_NEW_BUCKET_COUNT b man n =
      (man.modifyInfo n CAddrInfo.referred).insertNew b n := by
  have hCreated : man.created n = (info, man) := by
    have hMem : n ∈ man.mapInfo := Table.mem_iff_lookup.mpr ⟨_, hEntry⟩
    rw [created, hEntry, Option.getD_some, Table.touch, if_pos hMem]
  unfold loadReference
  rw [hCreated]
  simp [hBelow]

/-- Reading numbers in new buckets counts the entries and fills the buckets. -/
theorem loaded_references
    {base : CAddrMan} {slots : List CAddrInfo} (hBase : ∀ n, base.mapInfo.lookup n = slots[n]?)
    (hZero : ∀ info ∈ slots, info.nRefCount = 0) (hEmpty : ∀ b, base.vvNew b = ∅)
    {references : List (NewBucket × ℕ)} (hKnown : ∀ r ∈ references, r.2 < slots.length)
    (hCount : ∀ n, (references.countP (·.2 = n) : ℤ) ≤ ADDRMAN_NEW_BUCKETS_PER_ADDRESS) :
    ∃ man, references.foldl
        (fun man r => loadReference ADDRMAN_NEW_BUCKET_COUNT r.1 man r.2) base = man ∧
      (∀ n, man.mapInfo.lookup n = slots[n]?.map fun info =>
        { info with nRefCount := references.countP (·.2 = n) }) ∧
      (∀ b n, n ∈ man.vvNew b ↔ (b, n) ∈ references) ∧
      man = { base with
        mapInfo := man.mapInfo
        vvNew := man.vvNew } := by
  induction references using List.reverseRecOn with
  | nil =>
      refine ⟨base, rfl, ?_, ?_, rfl⟩
      · intro n
        rw [hBase]
        cases hAt : slots[n]? with
        | none => rfl
        | some info =>
            have hInfo := hZero info (List.mem_of_getElem? hAt)
            rw [Option.map_some, List.countP_nil]
            congr 1
            cases info
            subst hInfo
            rfl
      · intro b n
        simp [hEmpty b]
  | append_singleton references r ih =>
      obtain ⟨man, hFold, hEntries, hNew, hFrame⟩ := ih
        (fun r hr => hKnown r (List.mem_append_left _ hr)) fun n => by
          have hLater := hCount n
          rw [List.countP_append] at hLater
          push_cast at hLater
          omega
      have hLt := hKnown r (List.mem_append_right _ List.mem_cons_self)
      have hEntry := hEntries r.2
      rw [List.getElem?_eq_getElem hLt, Option.map_some] at hEntry
      have hBelow : (references.countP (·.2 = r.2) : ℤ) < ADDRMAN_NEW_BUCKETS_PER_ADDRESS := by
        have hLater := hCount r.2
        rw [List.countP_append, List.countP_singleton, if_pos (by simp)] at hLater
        push_cast at hLater
        omega
      refine ⟨_, rfl, ?_⟩
      rw [List.foldl_append, hFold, List.foldl_cons, List.foldl_nil,
        loadReference_of_lookup hEntry hBelow]
      refine ⟨?_, ?_, ?_⟩
      · intro n
        change (man.modifyInfo r.2 CAddrInfo.referred).mapInfo.lookup n = _
        rw [lookup_modifyInfo]
        by_cases hN : n = r.2
        · rw [if_pos hN, hEntry, hN, List.getElem?_eq_getElem hLt, Option.map_some,
            Option.map_some, List.countP_append, List.countP_singleton, if_pos (by simp)]
          push_cast
          rfl
        · have hOther : ¬decide (r.2 = n) = true := by
            simpa using Ne.symm hN
          rw [if_neg hN, hEntries, List.countP_append, List.countP_singleton, if_neg hOther,
            Nat.add_zero]
      · intro b n
        change n ∈ putInto (man.modifyInfo r.2 CAddrInfo.referred).vvNew r.1 r.2 b ↔ _
        rw [mem_putInto, modifyInfo_vvNew, hNew, List.mem_append, List.mem_singleton,
          Prod.ext_iff]
      · rw [insertNew, modifyInfo_frame, hFrame]

/-! ## The numbers of the entries -/

/-- The numbers that the writer gives to the new entries. -/
def numbers (man : CAddrMan) : Table ℕ ℤ := (writeNew man.nNew man.mapInfo.inKeyOrder 0 ∅).2

def numberOf (man : CAddrMan) (nId : ℕ) : ℕ := ((man.numbers.lookup nId).getD 0).toNat

/-- The numbers in the new buckets, in the order in which they are written. -/
def references (man : CAddrMan) : List (NewBucket × ℕ) :=
  (List.finRange ADDRMAN_NEW_BUCKET_COUNT).flatMap fun b =>
    ((man.vvNew b).sort (· ≤ ·)).map fun nId => (b, man.numberOf nId)

theorem writeNew_written (h : Consistent prims attempted none man) :
    (writeNew man.nNew man.mapInfo.inKeyOrder 0 ∅).1 =
        man.newEntries.flatMap (fun e => e.2.serialize 0) ∧
      ∀ (i : ℕ) (e : ℕ × CAddrInfo), man.newEntries[i]? = some e →
        man.numbers.lookup e.1 = some (i : ℤ) := by
  have hCount := length_newEntries h
  obtain ⟨hBytes, -, hIndex⟩ := @writeNew_spec man.nNew 0 _ ∅
    (Table.nodup_keys_inKeyOrder man.mapInfo) (by rw [zero_add]; exact hCount.symm)
  refine ⟨hBytes, fun i e hAt => ?_⟩
  rw [numbers, hIndex i e hAt, zero_add]

/-- What a new bucket holds has a number, which is its position among the written
entries. -/
theorem number_of_mem
    (h : Consistent prims attempted none man) {b : NewBucket} {nId : ℕ}
    (hMem : nId ∈ man.vvNew b) :
    man.numbers.lookup nId = some (man.numberOf nId : ℤ) ∧
      man.numberOf nId < man.newEntries.length ∧
      ∃ info, man.written[man.numberOf nId]? = some (nId, info) := by
  obtain ⟨info, hEntry, hNew⟩ := entry_of_mem_new h hMem
  have hIn : (nId, info) ∈ man.newEntries := by
    refine List.mem_filter.mpr ⟨Table.mem_inKeyOrder.mpr hEntry, ?_⟩
    have hUntried : isTriedEntry (nId, info) = false := hNew
    rw [isNewEntry_eq h hEntry, hUntried]
    rfl
  obtain ⟨i, hAt⟩ := List.mem_iff_getElem?.mp hIn
  have hLookup := (writeNew_written h).2 i (nId, info) hAt
  have hNumber : man.numberOf nId = i := by
    rw [numberOf, hLookup, Option.getD_some, Int.toNat_natCast]
  have hLt := (List.getElem?_eq_some_iff.mp hAt).1
  rw [hNumber]
  exact ⟨hLookup, hLt, info, by rw [written, List.getElem?_append_left hLt, hAt]⟩

theorem mem_references
    (h : Consistent prims attempted none man) (b : NewBucket) (n : ℕ) :
    (b, n) ∈ man.references ↔
      ∃ nId, (man.written.map Prod.fst)[n]? = some nId ∧ nId ∈ man.vvNew b := by
  unfold references
  rw [List.mem_flatMap]
  constructor
  · rintro ⟨b', -, hMem⟩
    obtain ⟨nId, hIn, hEq⟩ := List.mem_map.mp hMem
    rw [Prod.mk.injEq] at hEq
    obtain ⟨rfl, rfl⟩ := hEq
    rw [Finset.mem_sort] at hIn
    obtain ⟨-, -, info, hAt⟩ := number_of_mem h hIn
    exact ⟨nId, by rw [List.getElem?_map, hAt]; rfl, hIn⟩
  · rintro ⟨nId, hAt, hIn⟩
    obtain ⟨-, -, info, hAt'⟩ := number_of_mem h hIn
    have hAt'' : (man.written.map Prod.fst)[man.numberOf nId]? = some nId := by
      rw [List.getElem?_map, hAt']
      rfl
    have hSame : n = man.numberOf nId :=
      (List.getElem?_inj (List.getElem?_eq_some_iff.mp hAt).1 (nodup_written h)).mp
        (hAt.trans hAt''.symm)
    refine ⟨b, List.mem_finRange b, List.mem_map.mpr ⟨nId, ?_, by rw [hSame]⟩⟩
    rw [Finset.mem_sort]
    exact hIn

/-- An entry is referred to as often as it is counted. -/
theorem count_references
    (h : Consistent prims attempted none man) {n nId : ℕ} {info : CAddrInfo}
    (hAt : man.written[n]? = some (nId, info)) :
    (man.references.countP (·.2 = n) : ℤ) = info.nRefCount := by
  have hEntry := lookup_of_written h hAt
  have hMap : man.references.map Prod.snd = man.newIds.map man.numberOf := by
    unfold references newIds
    rw [List.map_flatMap, List.map_flatMap]
    simp only [List.map_map]
    rfl
  have hCount : man.references.countP (·.2 = n) = man.newIds.count nId := by
    have hSnd : man.references.countP (·.2 = n) =
        (man.references.map Prod.snd).countP (· = n) := by
      rw [List.countP_map]
      rfl
    rw [hSnd, hMap, List.countP_map, List.count_eq_countP]
    apply List.countP_congr
    intro k hK
    obtain ⟨b, -, hMem⟩ := List.mem_flatMap.mp hK
    rw [Finset.mem_sort] at hMem
    obtain ⟨-, -, info', hAt'⟩ := number_of_mem h hMem
    simp only [Function.comp_apply, decide_eq_true_eq, beq_iff_eq]
    constructor
    · intro hNumber
      rw [hNumber, hAt, Option.some.injEq, Prod.mk.injEq] at hAt'
      exact hAt'.1.symm
    · rintro rfl
      have hFst : (man.written.map Prod.fst)[n]? = some k := by
        rw [List.getElem?_map, hAt]
        rfl
      have hFst' : (man.written.map Prod.fst)[man.numberOf k]? = some k := by
        rw [List.getElem?_map, hAt']
        rfl
      exact (List.getElem?_inj (List.getElem?_eq_some_iff.mp hFst').1 (nodup_written h)).mp
        (hFst'.trans hFst.symm)
  have hWalk : man.newIds.count nId = (holders man.vvNew nId).card := count_walk man.vvNew nId
  rw [hCount, hWalk]
  cases hTable : info.fInTried with
  | true =>
      obtain ⟨hHeld, -, hZero⟩ := h.placed.tried_entry (summary_tables hEntry) hTable
      change holders man.vvNew nId = ∅ at hHeld
      rw [hHeld]
      exact hZero.symm
  | false =>
      have hHeld := (h.placed.new_entry (summary_tables hEntry) hTable).2.1
      rw [if_neg (by simp), add_zero] at hHeld
      exact hHeld.symm

/-! ## The counters fit -/

theorem length_flatMap_le
    {n k : ℕ} {α : Type} (f : Fin n → List α) (h : ∀ b, (f b).length ≤ k) :
    ((List.finRange n).flatMap f).length ≤ n * k := by
  rw [List.length_flatMap]
  have hSum := List.sum_le_card_nsmul ((List.finRange n).map fun b => (f b).length) k (by
    intro m hMem
    obtain ⟨b, -, rfl⟩ := List.mem_map.mp hMem
    exact h b)
  simpa using hSum

theorem length_newEntries_le (h : Consistent prims attempted none man) :
    man.newEntries.length ≤ ADDRMAN_NEW_BUCKET_COUNT * ADDRMAN_NEW_BUCKET_SIZE := by
  have hNodup : (man.newEntries.map Prod.fst).Nodup :=
    (Table.nodup_keys_inKeyOrder man.mapInfo).sublist (List.filter_sublist.map _)
  have hSubset : man.newEntries.map Prod.fst ⊆ man.newIds := by
    intro nId hMem
    obtain ⟨⟨nId, info⟩, hIn, rfl⟩ := List.mem_map.mp hMem
    obtain ⟨hIn, hNew⟩ := List.mem_filter.mp hIn
    have hEntry := Table.mem_inKeyOrder.mp hIn
    obtain ⟨i, hAt⟩ := List.mem_iff_getElem?.mp ((mem_written h nId info).mpr hEntry)
    have hCount := count_references h hAt
    have hPositive : 0 < man.references.countP (·.2 = i) := by
      have hNe : info.nRefCount ≠ 0 := by
        simpa [isNewEntry] using hNew
      omega
    obtain ⟨⟨b, n⟩, hRef, hN⟩ := List.countP_pos_iff.mp hPositive
    have hEq : n = i := by
      simpa using hN
    subst hEq
    obtain ⟨nId', hAt', hHeld⟩ := (mem_references h b n).mp hRef
    rw [List.getElem?_map, hAt, Option.map_some, Option.some.injEq] at hAt'
    subst hAt'
    exact List.mem_flatMap.mpr ⟨b, List.mem_finRange b, (Finset.mem_sort _).mpr hHeld⟩
  have hLength := (hNodup.subperm hSubset).length_le
  rw [List.length_map] at hLength
  refine hLength.trans (length_flatMap_le _ fun b => ?_)
  rw [Finset.length_sort]
  exact h.placed.new_size b

theorem length_triedEntries_le (h : Consistent prims attempted none man) :
    man.triedEntries.length ≤ ADDRMAN_TRIED_BUCKET_COUNT * ADDRMAN_TRIED_BUCKET_SIZE := by
  have hEntries := length_triedEntries h
  have hIds := length_triedIds h
  have hLength : man.triedEntries.length = man.triedIds.length := by
    omega
  rw [hLength]
  exact length_flatMap_le _ h.placed.tried_size

/-! ## The round trip -/

/-- Bounds that the types of the source give: what the key is read with, and the attempts. -/
structure FitsFile (man : CAddrMan) : Prop where
  nKey : man.nKey.length ≤ MAX_SIZE
  nAttempts : ∀ nId info, man.mapInfo.lookup nId = some info → FitsInt 4 info.nAttempts

theorem foldl_zipIdx {σ α : Type} (take : σ → α → σ) (xs : List α) (s : σ) :
    xs.zipIdx.foldl (fun s e => take s e.1) s = xs.foldl take s := by
  conv_rhs => rw [← List.zipIdx_map_fst 0 xs, List.foldl_map]

/-- A new bucket is read back. -/
theorem readBucket_eq
    (h : Consistent prims attempted none man) (nUBuckets : ℤ) (b : NewBucket)
    (loading : CAddrMan) (rest : List UInt8) :
    readBucket nUBuckets (loading, writeBucket man.numbers (man.vvNew b) ++ rest) b =
      .ok (((man.vvNew b).sort (· ≤ ·)).foldl
        (fun loading nId => loadReference nUBuckets b loading (man.numberOf nId))
        loading, rest) := by
  have hSize : FitsInt 4 (man.vvNew b).card := by
    have hBound : (man.vvNew b).card ≤ ADDRMAN_NEW_BUCKET_SIZE := h.placed.new_size b
    have hConst : ADDRMAN_NEW_BUCKET_SIZE = 64 := rfl
    constructor
    · norm_num
    · norm_num
      omega
  have hNumber : ∀ nId ∈ (man.vvNew b).sort (· ≤ ·), ReadsAs (readUint 4)
      (intToBytesLE 4 ((man.numbers.lookup nId).getD 0)) (man.numberOf nId) := by
    intro nId hMem
    rw [Finset.mem_sort] at hMem
    obtain ⟨hLookup, hLt, -⟩ := number_of_mem h hMem
    have hBound := length_newEntries_le h
    have hConst : ADDRMAN_NEW_BUCKET_COUNT * ADDRMAN_NEW_BUCKET_SIZE = 16384 := rfl
    have hFits : man.numberOf nId < 256 ^ 4 := by
      norm_num
      omega
    have hMod : (((man.numberOf nId : ℕ) : ℤ) % 256 ^ 4).toNat = man.numberOf nId := by
      norm_num at hFits ⊢
      omega
    rw [hLookup, Option.getD_some, intToBytesLE, hMod]
    exact readsAs_readUint hFits
  have hLength : ((man.vvNew b).card : ℤ) = ((man.vvNew b).sort (· ≤ ·)).length := by
    rw [Finset.length_sort]
  unfold readBucket writeBucket
  dsimp only
  rw [dif_pos b.isLt, List.append_assoc, readsAs_readInt hSize _, orThrow_some, ok_bind]
  dsimp only
  rw [hLength, readLoop_eq hNumber]
  congr 2
  exact foldl_zipIdx (fun loading nId =>
    loadReference nUBuckets b loading (man.numberOf nId)) _ _

theorem readBuckets_eq
    (h : Consistent prims attempted none man) (loading : CAddrMan) (rest : List UInt8) :
    (List.range ADDRMAN_NEW_BUCKET_COUNT).foldlM (readBucket ADDRMAN_NEW_BUCKET_COUNT)
        (loading, ((List.finRange ADDRMAN_NEW_BUCKET_COUNT).flatMap fun b =>
          writeBucket man.numbers (man.vvNew b)) ++ rest) =
      .ok (man.references.foldl
        (fun loading r => loadReference ADDRMAN_NEW_BUCKET_COUNT r.1 loading r.2) loading,
          rest) := by
  rw [← List.map_coe_finRange_eq_range, List.foldlM_map]
  have hLoop := @foldlM_words _ _ _
    (fun s (b : NewBucket) => readBucket ADDRMAN_NEW_BUCKET_COUNT s b) _ _
    (List.finRange ADDRMAN_NEW_BUCKET_COUNT)
    (fun b _ loading rest => readBucket_eq h _ b loading rest) loading rest
  refine hLoop.trans ?_
  unfold references
  rw [List.foldl_flatMap]
  simp only [List.foldl_map]

/-- The addresses of the entries are distinct. -/
theorem nodup_addresses (h : Consistent prims attempted none man) :
    (man.written.map fun e => e.2.toCNetAddr).Nodup := by
  have hIds := nodup_written h
  have hEntries := List.Nodup.of_map _ hIds
  refine (List.nodup_map_iff_inj_on hEntries).mpr ?_
  rintro ⟨nId, info⟩ hMem ⟨nId', info'⟩ hMem' hSame
  rw [mem_written h] at hMem hMem'
  have hAddr := (h.indexed.address info.toCNetAddr nId).mpr ⟨info, hMem, rfl⟩
  have hAddr' := (h.indexed.address info.toCNetAddr nId').mpr ⟨info', hMem', hSame.symm⟩
  rw [hAddr, Option.some.injEq] at hAddr'
  subst hAddr'
  rw [hMem, Option.some.injEq] at hMem'
  rw [hMem']

/-- The tried entries of a bucket are as many as it lists. -/
theorem countP_tried
    (h : Consistent prims attempted none man) (b : TriedBucket) :
    man.written.countP (fun e => e.2.fInTried && e.2.getTriedBucket prims man.nKey = b) =
      (man.vvTried b).length := by
  rw [List.countP_eq_length_filter]
  generalize hIn : man.written.filter
    (fun e => e.2.fInTried && e.2.getTriedBucket prims man.nKey = b) = inBucket
  have hNodup : (inBucket.map Prod.fst).Nodup := by
    rw [← hIn]
    exact (nodup_written h).sublist (List.filter_sublist.map _)
  have hListed : (man.vvTried b).Nodup := h.placed.tried_nodup b
  have hPerm : (inBucket.map Prod.fst).Perm (man.vvTried b) := by
    rw [List.perm_ext_iff_of_nodup hNodup hListed]
    intro nId
    rw [mem_vvTried h, List.mem_map]
    constructor
    · rintro ⟨⟨nId, info⟩, hEntry, rfl⟩
      rw [← hIn, List.mem_filter, mem_written h] at hEntry
      exact ⟨info, hEntry.1, by simpa using hEntry.2⟩
    · rintro ⟨info, hEntry, hIs⟩
      refine ⟨(nId, info), ?_, rfl⟩
      rw [← hIn, List.mem_filter, mem_written h]
      exact ⟨hEntry, by simpa using hIs⟩
  have hLength := hPerm.length_eq
  rwa [List.length_map] at hLength

end CAddrMan

end SocietyGold
