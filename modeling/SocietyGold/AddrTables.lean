import SocietyGold.AddrMan

/-!
# What is placed where in the address manager

An abstract view of the address manager: for each id the service, the reference count
and the table of its entry, and what the buckets hold.  Every operation of the manager
places ids by a few steps: an entry is counted for a bucket and then put into it, one
reference to it is dropped, or it is promoted to a tried bucket, where it may replace
another one that goes back to a new bucket.  Each step leaves all ids placed correctly.
-/

namespace SocietyGold

open Support

/-- An entry as far as it decides where its id is placed. -/
structure AddrSummary where
  service : CService
  nRefCount : ℤ
  fInTried : Bool

/-- The entry when its id has moved to a tried bucket. -/
def AddrSummary.promoted (s : AddrSummary) : AddrSummary :=
  { s with nRefCount := 0, fInTried := true }

/-- The entry when its id has moved back to a new bucket. -/
def AddrSummary.demoted (s : AddrSummary) : AddrSummary :=
  { s with nRefCount := 1, fInTried := false }

/-- Entries and buckets, by id. -/
@[ext] structure AddrTables where
  summary : ℕ → Option AddrSummary
  tried : TriedBucket → List ℕ
  new : NewBucket → Finset ℕ

namespace AddrTables

/-- The tried buckets that list an id. -/
def listed (t : AddrTables) (nId : ℕ) : Finset TriedBucket :=
  Finset.univ.filter fun b => nId ∈ t.tried b

@[simp] theorem mem_listed {t : AddrTables} {nId : ℕ} {b : TriedBucket} :
    b ∈ t.listed nId ↔ nId ∈ t.tried b := by
  simp [listed]

/-- An id that is held by some new buckets and listed by some tried ones is placed as
its entry says, where `nCounted` is how much more often it has been counted than it is
held. -/
inductive PlacedAs (bucketOf : CService → TriedBucket) (nCounted : ℤ) :
    Finset NewBucket → Finset TriedBucket → Option AddrSummary → Prop
  | absent : PlacedAs bucketOf nCounted ∅ ∅ none
  | new {held : Finset NewBucket} {s : AddrSummary} (hTable : s.fInTried = false)
      (hCount : s.nRefCount = held.card + nCounted) (hLower : 1 ≤ s.nRefCount)
      (hUpper : s.nRefCount ≤ ADDRMAN_NEW_BUCKETS_PER_ADDRESS) :
      PlacedAs bucketOf nCounted held ∅ (some s)
  | tried {s : AddrSummary} (hTable : s.fInTried = true) (hCount : s.nRefCount = 0) :
      PlacedAs bucketOf nCounted ∅ {bucketOf s.service} (some s)

/-- All ids are placed correctly and no bucket is overfull.  The id that is pending has
been counted but not been put into its bucket yet. -/
structure Placed (bucketOf : CService → TriedBucket) (pending : Option ℕ) (t : AddrTables) :
    Prop where
  entry : ∀ nId, PlacedAs bucketOf (if pending = some nId then 1 else 0)
    (holders t.new nId) (t.listed nId) (t.summary nId)
  tried_nodup : ∀ b, (t.tried b).Nodup
  tried_size : ∀ b, (t.tried b).length ≤ ADDRMAN_TRIED_BUCKET_SIZE
  new_size : ∀ b, (t.new b).card ≤ ADDRMAN_NEW_BUCKET_SIZE

variable {bucketOf : CService → TriedBucket} {pending : Option ℕ} {t : AddrTables}
  {nId : ℕ} {s : AddrSummary}

/-! ## Reading off where an id is -/

namespace Placed

theorem new_entry
    (h : Placed bucketOf pending t) (hEntry : t.summary nId = some s)
    (hNew : s.fInTried = false) :
    t.listed nId = ∅ ∧
      s.nRefCount = (holders t.new nId).card + (if pending = some nId then 1 else 0) ∧
      1 ≤ s.nRefCount ∧ s.nRefCount ≤ ADDRMAN_NEW_BUCKETS_PER_ADDRESS := by
  have hPlaced := h.entry nId
  rw [hEntry] at hPlaced
  generalize hHeld : holders t.new nId = held at hPlaced ⊢
  generalize hListed : t.listed nId = listed at hPlaced ⊢
  cases hPlaced with
  | new hTable hCount hLower hUpper => exact ⟨rfl, hCount, hLower, hUpper⟩
  | tried hTable hCount => simp [hNew] at hTable

theorem tried_entry
    (h : Placed bucketOf pending t) (hEntry : t.summary nId = some s)
    (hTried : s.fInTried = true) :
    holders t.new nId = ∅ ∧ t.listed nId = {bucketOf s.service} ∧ s.nRefCount = 0 := by
  have hPlaced := h.entry nId
  rw [hEntry] at hPlaced
  generalize hHeld : holders t.new nId = held at hPlaced ⊢
  generalize hListed : t.listed nId = listed at hPlaced ⊢
  cases hPlaced with
  | new hTable hCount hLower hUpper => simp [hTried] at hTable
  | tried hTable hCount => exact ⟨rfl, rfl, hCount⟩

theorem absent_entry
    (h : Placed bucketOf pending t) (hNone : t.summary nId = none) :
    holders t.new nId = ∅ ∧ t.listed nId = ∅ := by
  have hPlaced := h.entry nId
  rw [hNone] at hPlaced
  generalize hHeld : holders t.new nId = held at hPlaced ⊢
  generalize hListed : t.listed nId = listed at hPlaced ⊢
  cases hPlaced
  exact ⟨rfl, rfl⟩

/-- What a new bucket holds is a new entry. -/
theorem of_mem_new
    (h : Placed bucketOf pending t) {b : NewBucket} (hMem : nId ∈ t.new b) :
    ∃ s, t.summary nId = some s ∧ s.fInTried = false := by
  have hHolds : b ∈ holders t.new nId := mem_holders.mpr hMem
  cases hEntry : t.summary nId with
  | none => simp [(h.absent_entry hEntry).1] at hHolds
  | some s =>
      cases hTable : s.fInTried with
      | false => exact ⟨s, rfl, hTable⟩
      | true => simp [(h.tried_entry hEntry hTable).1] at hHolds

/-- What a tried bucket lists is a tried entry of that bucket. -/
theorem of_mem_tried
    (h : Placed bucketOf pending t) {b : TriedBucket} (hMem : nId ∈ t.tried b) :
    ∃ s, t.summary nId = some s ∧ s.fInTried = true ∧ bucketOf s.service = b := by
  have hListed : b ∈ t.listed nId := mem_listed.mpr hMem
  cases hEntry : t.summary nId with
  | none => simp [(h.absent_entry hEntry).2] at hListed
  | some s =>
      cases hTable : s.fInTried with
      | false => simp [(h.new_entry hEntry hTable).1] at hListed
      | true =>
          rw [(h.tried_entry hEntry hTable).2.1, Finset.mem_singleton] at hListed
          exact ⟨s, rfl, hTable, hListed.symm⟩

/-- Ids that a step does not touch stay placed. -/
theorem entry_of_same
    (h : Placed bucketOf pending t) {t' : AddrTables} {pending' : Option ℕ}
    (hPending : pending' = some nId ↔ pending = some nId)
    (hNew : holders t'.new nId = holders t.new nId) (hTried : t'.listed nId = t.listed nId)
    (hEntry : t'.summary nId = t.summary nId) :
    PlacedAs bucketOf (if pending' = some nId then 1 else 0)
      (holders t'.new nId) (t'.listed nId) (t'.summary nId) := by
  have hPlaced := h.entry nId
  rw [hNew, hTried, hEntry]
  simpa only [hPending] using hPlaced

end Placed

/-! ## New buckets -/

/-- Write the entry of an id. -/
def setSummary (t : AddrTables) (nId : ℕ) (s : Option AddrSummary) : AddrTables :=
  { t with summary := Function.update t.summary nId s }

@[simp] theorem setSummary_self (t : AddrTables) (nId : ℕ) (s : Option AddrSummary) :
    (t.setSummary nId s).summary nId = s := Function.update_self ..

@[simp] theorem setSummary_of_ne
    (t : AddrTables) {nId k : ℕ} (s : Option AddrSummary) (h : k ≠ nId) :
    (t.setSummary nId s).summary k = t.summary k := Function.update_of_ne h ..

@[simp] theorem setSummary_new (t : AddrTables) (nId : ℕ) (s : Option AddrSummary) :
    (t.setSummary nId s).new = t.new := rfl

@[simp] theorem setSummary_tried (t : AddrTables) (nId : ℕ) (s : Option AddrSummary) :
    (t.setSummary nId s).tried = t.tried := rfl

@[simp] theorem setSummary_listed (t : AddrTables) (nId k : ℕ) (s : Option AddrSummary) :
    (t.setSummary nId s).listed k = t.listed k := rfl

/-- Count an entry once more than it is held. -/
theorem Placed.count
    (h : Placed bucketOf none t) (hEntry : t.summary nId = some s) (hNew : s.fInTried = false)
    (hBound : s.nRefCount < ADDRMAN_NEW_BUCKETS_PER_ADDRESS) :
    Placed bucketOf (some nId)
      (t.setSummary nId (some { s with nRefCount := s.nRefCount + 1 })) where
  entry k := by
    by_cases hK : k = nId
    · subst hK
      obtain ⟨hListed, hCount, hLower, -⟩ := h.new_entry hEntry hNew
      simp only [reduceCtorEq, if_false, add_zero] at hCount
      rw [setSummary_self, setSummary_new, setSummary_listed, hListed, if_pos rfl]
      exact PlacedAs.new hNew (by simp [hCount]) (le_trans hLower (by simp)) hBound
    · exact h.entry_of_same (by simp [Ne.symm hK]) rfl rfl (t.setSummary_of_ne _ hK)
  tried_nodup := h.tried_nodup
  tried_size := h.tried_size
  new_size := h.new_size

/-- Count a fresh entry, which is not held yet. -/
theorem Placed.create
    (h : Placed bucketOf none t) (hNone : t.summary nId = none) (service : CService) :
    Placed bucketOf (some nId) (t.setSummary nId (some ⟨service, 1, false⟩)) where
  entry k := by
    by_cases hK : k = nId
    · subst hK
      obtain ⟨hHeld, hListed⟩ := h.absent_entry hNone
      rw [setSummary_self, setSummary_new, setSummary_listed, hListed, hHeld, if_pos rfl]
      exact PlacedAs.new rfl (by simp) le_rfl (by simp [ADDRMAN_NEW_BUCKETS_PER_ADDRESS])
    · exact h.entry_of_same (by simp [Ne.symm hK]) rfl rfl (t.setSummary_of_ne _ hK)
  tried_nodup := h.tried_nodup
  tried_size := h.tried_size
  new_size := h.new_size

/-- Put the id that is pending into a bucket that has room. -/
theorem Placed.insert
    (h : Placed bucketOf (some nId) t) (hEntry : t.summary nId = some s)
    (hNew : s.fInTried = false) {b : NewBucket} (hFresh : nId ∉ t.new b)
    (hRoom : (t.new b).card < ADDRMAN_NEW_BUCKET_SIZE) :
    Placed bucketOf none { t with new := putInto t.new b nId } where
  entry k := by
    by_cases hK : k = nId
    · subst hK
      obtain ⟨hListed, hCount, hLower, hUpper⟩ := h.new_entry hEntry hNew
      have hHeld := card_holders_putInto_self hFresh
      change PlacedAs bucketOf _ _ (t.listed k) (t.summary k)
      rw [hEntry, hListed]
      refine PlacedAs.new hNew ?_ hLower hUpper
      simp only [reduceCtorEq, if_false, if_true, add_zero] at hCount ⊢
      rw [hHeld, hCount]
      push_cast
      rfl
    · exact h.entry_of_same (by simp [Ne.symm hK]) (holders_putInto_of_ne hK) rfl rfl
  tried_nodup := h.tried_nodup
  tried_size := h.tried_size
  new_size b' := by
    by_cases hB : b' = b
    · subst hB
      exact le_trans (card_putInto_self_le _ _ _) hRoom
    · exact (card_putInto_of_ne hB).trans_le (h.new_size b')

/-- Drop a reference that is not the last one. -/
theorem Placed.drop
    (h : Placed bucketOf pending t) (hEntry : t.summary nId = some s)
    (hPending : pending ≠ some nId) {b : NewBucket} (hMem : nId ∈ t.new b)
    (hMore : s.nRefCount - 1 ≠ 0) :
    Placed bucketOf pending
      { t.setSummary nId (some { s with nRefCount := s.nRefCount - 1 }) with
        new := takeFrom t.new b nId } where
  entry k := by
    by_cases hK : k = nId
    · subst hK
      obtain ⟨s', hEntry', hNew⟩ := h.of_mem_new hMem
      obtain rfl : s = s' := by
        rw [hEntry] at hEntry'
        exact Option.some.inj hEntry'
      obtain ⟨hListed, hCount, hLower, hUpper⟩ := h.new_entry hEntry hNew
      have hHeld := card_holders_takeFrom_self hMem
      change PlacedAs bucketOf _ _ (t.listed k) ((t.setSummary k _).summary k)
      rw [setSummary_self, hListed]
      refine PlacedAs.new hNew ?_ ?_ ?_
      · rw [if_neg hPending] at hCount ⊢
        dsimp only
        omega
      · dsimp only
        omega
      · dsimp only
        omega
    · exact h.entry_of_same Iff.rfl (holders_takeFrom_of_ne hK) rfl
        (t.setSummary_of_ne _ hK)
  tried_nodup := h.tried_nodup
  tried_size := h.tried_size
  new_size b' := (card_takeFrom_le _ _ _ _).trans (h.new_size b')

/-- Drop the last reference, and with it the entry. -/
theorem Placed.remove
    (h : Placed bucketOf pending t) (hEntry : t.summary nId = some s)
    (hPending : pending ≠ some nId) {b : NewBucket} (hMem : nId ∈ t.new b)
    (hLast : s.nRefCount - 1 = 0) :
    Placed bucketOf pending
      { t.setSummary nId none with new := takeFrom t.new b nId } where
  entry k := by
    by_cases hK : k = nId
    · subst hK
      obtain ⟨s', hEntry', hNew⟩ := h.of_mem_new hMem
      obtain rfl : s = s' := by
        rw [hEntry] at hEntry'
        exact Option.some.inj hEntry'
      obtain ⟨hListed, hCount, -, -⟩ := h.new_entry hEntry hNew
      have hHeld := card_holders_takeFrom_self hMem
      have hEmpty : holders (takeFrom t.new b k) k = ∅ := by
        rw [if_neg hPending] at hCount
        apply Finset.card_eq_zero.mp
        omega
      change PlacedAs bucketOf _ (holders (takeFrom t.new b k) k) (t.listed k)
        ((t.setSummary k none).summary k)
      rw [setSummary_self, hListed, hEmpty]
      exact PlacedAs.absent
    · exact h.entry_of_same Iff.rfl (holders_takeFrom_of_ne hK) rfl
        (t.setSummary_of_ne _ hK)
  tried_nodup := h.tried_nodup
  tried_size := h.tried_size
  new_size b' := (card_takeFrom_le _ _ _ _).trans (h.new_size b')

/-! ## Tried buckets -/

/-- Write a tried bucket. -/
def setTried (t : AddrTables) (b : TriedBucket) (vTried : List ℕ) : AddrTables :=
  { t with tried := Function.update t.tried b vTried }

theorem mem_setTried {t : AddrTables} {b b' : TriedBucket} {vTried : List ℕ} {k : ℕ} :
    k ∈ (t.setTried b vTried).tried b' ↔
      if b' = b then k ∈ vTried else k ∈ t.tried b' := by
  by_cases hB : b' = b
  · subst hB
    simp [setTried]
  · simp [setTried, hB]

theorem listed_setTried_of_iff
    {b : TriedBucket} {vTried : List ℕ} {k : ℕ} (h : k ∈ vTried ↔ k ∈ t.tried b) :
    (t.setTried b vTried).listed k = t.listed k := by
  ext b'
  rw [mem_listed, mem_listed, mem_setTried]
  split_ifs with hB
  · rw [hB, h]
  · exact Iff.rfl

/-- An id that is listed nowhere else is listed by the bucket it is written to. -/
theorem listed_setTried_of_mem
    {b : TriedBucket} {vTried : List ℕ} {k : ℕ} (hMem : k ∈ vTried) (hFresh : t.listed k = ∅) :
    (t.setTried b vTried).listed k = {b} := by
  ext b'
  rw [mem_listed, mem_setTried, Finset.mem_singleton]
  split_ifs with hB
  · simp [hB, hMem]
  · simp only [hB, iff_false]
    intro hListed
    have hEmpty := mem_listed.mpr hListed
    rw [hFresh] at hEmpty
    exact absurd hEmpty (Finset.notMem_empty _)

theorem listed_setTried_of_not_mem
    {b : TriedBucket} {vTried : List ℕ} {k : ℕ} (hMem : k ∉ vTried) (hListed : t.listed k ⊆ {b}) :
    (t.setTried b vTried).listed k = ∅ := by
  ext b'
  rw [mem_listed, mem_setTried]
  split_ifs with hB
  · simp [hMem]
  · simp only [Finset.notMem_empty, iff_false]
    intro hOther
    exact hB (Finset.mem_singleton.mp (hListed (mem_listed.mpr hOther)))

/-- What all tried buckets and a list have, the buckets have when the list is written. -/
theorem forall_setTried
    {P : List ℕ → Prop} (h : ∀ b, P (t.tried b)) {b : TriedBucket} {vTried : List ℕ}
    (hTried : P vTried) (b' : TriedBucket) : P ((t.setTried b vTried).tried b') := by
  by_cases hB : b' = b
  · subst hB
    simpa only [setTried, Function.update_self] using hTried
  · simpa only [setTried, Function.update_of_ne hB] using h b'

/-- Take an id out of all new buckets. -/
def withdraw (t : AddrTables) (nId : ℕ) : AddrTables :=
  { t with new := fun b => (t.new b).erase nId }

theorem holders_withdraw_of_ne {k : ℕ} (h : k ≠ nId) :
    holders (t.withdraw nId).new k = holders t.new k :=
  holders_congr fun b => by simp [withdraw, h]

theorem holders_withdraw_self : holders (t.withdraw nId).new nId = ∅ :=
  holders_eq_empty fun b => by simp [withdraw]

/-- An id that no new bucket holds, put into one of them. -/
theorem card_holders_evicted
    {k : ℕ} {b : NewBucket} (hHeld : holders t.new k = ∅) (hK : k ≠ nId) :
    (holders (putInto (t.withdraw nId).new b k) k).card = 1 := by
  have hOut : k ∉ (t.withdraw nId).new b := by
    intro hMem
    have hIn := mem_holders.mpr (Finset.mem_of_mem_erase hMem)
    rw [hHeld] at hIn
    exact absurd hIn (Finset.notMem_empty _)
  rw [card_holders_putInto_self hOut, holders_withdraw_of_ne hK, hHeld, Finset.card_empty]

theorem Placed.not_mem_tried
    (h : Placed bucketOf pending t) (hEntry : t.summary nId = some s) (hNew : s.fInTried = false)
    (b : TriedBucket) : nId ∉ t.tried b := by
  intro hMem
  have hIn := mem_listed.mpr hMem
  rw [(h.new_entry hEntry hNew).1] at hIn
  exact absurd hIn (Finset.notMem_empty _)

/-- Move an entry to a tried bucket with room for it. -/
theorem Placed.promote
    (h : Placed bucketOf none t) (hEntry : t.summary nId = some s) (hNew : s.fInTried = false)
    (hRoom : (t.tried (bucketOf s.service)).length < ADDRMAN_TRIED_BUCKET_SIZE) :
    Placed bucketOf none
      (((t.setSummary nId (some s.promoted)).withdraw nId).setTried
        (bucketOf s.service) (t.tried (bucketOf s.service) ++ [nId])) where
  entry k := by
    have hListed := (h.new_entry hEntry hNew).1
    by_cases hK : k = nId
    · subst hK
      rw [listed_setTried_of_mem (t := (t.setSummary k _).withdraw k) (by simp) hListed]
      change PlacedAs bucketOf _ (holders (t.withdraw k).new k) _ ((t.setSummary k _).summary k)
      rw [setSummary_self, holders_withdraw_self]
      exact PlacedAs.tried (s := s.promoted) rfl rfl
    · refine h.entry_of_same Iff.rfl (holders_withdraw_of_ne hK) ?_ (t.setSummary_of_ne _ hK)
      apply listed_setTried_of_iff
      change k ∈ t.tried _ ++ [nId] ↔ k ∈ t.tried _
      simp [hK]
  tried_nodup := by
    apply forall_setTried (P := List.Nodup) h.tried_nodup
    rw [← List.concat_eq_append]
    exact (h.tried_nodup _).concat (h.not_mem_tried hEntry hNew _)
  tried_size := by
    apply forall_setTried (P := fun vTried => vTried.length ≤ ADDRMAN_TRIED_BUCKET_SIZE)
      h.tried_size
    rw [List.length_append, List.length_singleton]
    exact hRoom
  new_size b := (Finset.card_erase_le).trans (h.new_size b)

/-- Move an entry to a tried bucket in the place of another one, which goes back to a
new bucket with room for it. -/
theorem Placed.replace
    (h : Placed bucketOf none t) (hEntry : t.summary nId = some s) (hNew : s.fInTried = false)
    {vTried : List ℕ} (hPerm : vTried.Perm (t.tried (bucketOf s.service)))
    {nPos nIdOld : ℕ} (hOld : vTried[nPos]? = some nIdOld)
    {sOld : AddrSummary} (hEntryOld : t.summary nIdOld = some sOld)
    {b : NewBucket} (hRoom : ((t.withdraw nId).new b).card < ADDRMAN_NEW_BUCKET_SIZE) :
    Placed bucketOf none
      { ((t.setSummary nIdOld (some sOld.demoted)).setSummary nId (some s.promoted)).setTried
          (bucketOf s.service) (vTried.set nPos nId) with
        new := putInto (t.withdraw nId).new b nIdOld } := by
  have hListed : t.listed nId = ∅ := (h.new_entry hEntry hNew).1
  have hNodup : vTried.Nodup := hPerm.nodup_iff.mpr (h.tried_nodup _)
  have hMemOld : nIdOld ∈ t.tried (bucketOf s.service) :=
    hPerm.mem_iff.mp (List.mem_of_getElem? hOld)
  have hFresh : nId ∉ vTried :=
    fun hMem => h.not_mem_tried hEntry hNew _ (hPerm.mem_iff.mp hMem)
  have hNe : nIdOld ≠ nId := by
    rintro rfl
    exact hFresh (List.mem_of_getElem? hOld)
  obtain ⟨hHeldOld, hListedOld, -⟩ : holders t.new nIdOld = ∅ ∧
      t.listed nIdOld = {bucketOf s.service} ∧ True := by
    obtain ⟨s', hEntry', hTried', hBucket⟩ := h.of_mem_tried hMemOld
    obtain ⟨hHeld, hList, -⟩ := h.tried_entry hEntry' hTried'
    exact ⟨hHeld, by rw [hList, hBucket], trivial⟩
  constructor
  · intro k
    by_cases hK : k = nId
    · subst hK
      have hHolders : holders (putInto (t.withdraw k).new b nIdOld) k = ∅ := by
        rw [holders_putInto_of_ne hNe.symm, holders_withdraw_self]
      have hLists : (t.setTried (bucketOf s.service) (vTried.set nPos k)).listed k =
          {bucketOf s.service} :=
        listed_setTried_of_mem ((mem_set_iff hNodup hOld).mpr (Or.inl rfl)) hListed
      change PlacedAs bucketOf _ (holders (putInto (t.withdraw k).new b nIdOld) k)
        ((t.setTried (bucketOf s.service) (vTried.set nPos k)).listed k)
        (((t.setSummary nIdOld _).setSummary k _).summary k)
      rw [hHolders, hLists, setSummary_self]
      exact PlacedAs.tried (s := s.promoted) rfl rfl
    by_cases hKOld : k = nIdOld
    · subst hKOld
      have hHolders : (holders (putInto (t.withdraw nId).new b k) k).card = 1 :=
        card_holders_evicted hHeldOld hK
      have hLists : (t.setTried (bucketOf s.service) (vTried.set nPos nId)).listed k = ∅ := by
        apply listed_setTried_of_not_mem
        · rw [mem_set_iff hNodup hOld]
          rintro (hEq | ⟨-, hNeq⟩)
          · exact hK hEq
          · exact hNeq rfl
        · rw [hListedOld]
      change PlacedAs bucketOf _ (holders (putInto (t.withdraw nId).new b k) k)
        ((t.setTried (bucketOf s.service) (vTried.set nPos nId)).listed k)
        (((t.setSummary k _).setSummary nId _).summary k)
      rw [hLists, setSummary_of_ne _ _ hK, setSummary_self]
      exact PlacedAs.new rfl (by simp [AddrSummary.demoted, hHolders]) le_rfl
        (by simp [AddrSummary.demoted, ADDRMAN_NEW_BUCKETS_PER_ADDRESS])
    · refine h.entry_of_same Iff.rfl ?_ ?_ ?_
      · exact (holders_putInto_of_ne hKOld).trans (holders_withdraw_of_ne hK)
      · apply listed_setTried_of_iff
        rw [mem_set_iff hNodup hOld]
        simp [hK, hKOld, hPerm.mem_iff]
      · exact (setSummary_of_ne _ _ hK).trans (setSummary_of_ne _ _ hKOld)
  · exact forall_setTried (P := List.Nodup) h.tried_nodup (hNodup.set hFresh)
  · apply forall_setTried (P := fun vTried => vTried.length ≤ ADDRMAN_TRIED_BUCKET_SIZE)
      h.tried_size
    rw [List.length_set, hPerm.length_eq]
    exact h.tried_size _
  · intro b'
    by_cases hB : b' = b
    · subst hB
      exact le_trans (card_putInto_self_le _ _ _) hRoom
    · exact (card_putInto_of_ne hB).trans_le (Finset.card_erase_le.trans (h.new_size b'))

end AddrTables

end SocietyGold
