import SocietyGold.Support.Multimap
import SocietyGold.Support.Table
import SocietyGold.Support.Trace

/-!
# Limited maps

`limitedmap` keeps its entries in a map, and iterators to them, in the order of their values, in
a multimap.  It tests for the limit after the new entry is in the map, with `==`, and evicts
before that entry is in the multimap.
-/

namespace SocietyGold

open Support

/-- A `limitedmap`.  An iterator to an entry of `map` is the key of that entry. -/
structure LimitedMap (K V : Type) [DecidableEq K] where
  map : Table K V
  rmap : Multimap V K
  nMaxSize : ℕ

/-- The calls that change a `limitedmap`. -/
inductive LimitedMapCall (K V : Type)
  | insert (k : K) (v : V)
  | erase (k : K)
  | update (itIn : K) (v : V)
  | maxSize (s : ℕ)

/-- `std::map::insert`: an entry that is there is left as it is. -/
def mapInsert {K V : Type} [DecidableEq K] (map : Table K V) (k : K) (v : V) : Table K V :=
  if k ∈ map then map else map.insert k v

namespace LimitedMap

variable {K V : Type} [DecidableEq K] [LinearOrder V]

/-- `limitedmap(nMaxSizeIn)`. -/
def initial (nMaxSizeIn : ℕ) : LimitedMap K V := ⟨∅, [], nMaxSizeIn⟩

def size (m : LimitedMap K V) : ℕ := m.map.keys.length

/-- `map.erase(rmap.begin()->second); rmap.erase(rmap.begin())`. -/
def eraseBegin (m : LimitedMap K V) : Checked (LimitedMap K V) :=
  match m.rmap with
  | [] => .error .outOfRange
  | (_, it) :: rmap =>
      if it ∈ m.map then .ok { m with map := m.map.erase it, rmap := rmap }
      else .error .danglingReference

/-- The loop of `erase` and `update` over the equal range: the multimap without the iterator. -/
def unlink (rmap : Multimap V K) (v : V) (itTarget : K) : Checked (Multimap V K) :=
  if (rmap.equalRange v).any (fun it => decide (it.2 = itTarget)) then
    .ok (List.erase rmap (v, itTarget))
  else .error .assertionFailed

def insert (m : LimitedMap K V) (k : K) (v : V) : Checked (LimitedMap K V) :=
  if k ∈ m.map then .ok m
  else do
    let m := { m with map := m.map.insert k v }
    let m ← if m.nMaxSize ≠ 0 ∧ m.size = m.nMaxSize then m.eraseBegin else .ok m
    return { m with rmap := m.rmap.insert v k }

def erase (m : LimitedMap K V) (k : K) : Checked (LimitedMap K V) :=
  match m.map.lookup k with
  | none => .ok m
  | some v => do
      let rmap ← unlink m.rmap v k
      return { m with map := m.map.erase k, rmap := rmap }

def update (m : LimitedMap K V) (itIn : K) (v : V) : Checked (LimitedMap K V) :=
  match m.map.lookup itIn with
  | none => .ok m
  | some old => do
      let rmap ← unlink m.rmap old itIn
      return { m with map := m.map.insert itIn v, rmap := rmap.insert v itIn }

/-- The loop of `max_size`; each round takes an entry out of the map. -/
def shrink (s : ℕ) : (rounds : ℕ) → LimitedMap K V → Checked (LimitedMap K V)
  | 0, m => .ok m
  | rounds + 1, m =>
      if s < m.size then do
        let m ← m.eraseBegin
        shrink s rounds m
      else .ok m

def maxSize (m : LimitedMap K V) (s : ℕ) : Checked (LimitedMap K V) := do
  let m ← if s ≠ 0 then shrink s m.size m else .ok m
  return { m with nMaxSize := s }

def call : LimitedMapCall K V → LimitedMap K V → Checked (LimitedMap K V)
  | .insert k v, m => m.insert k v
  | .erase k, m => m.erase k
  | .update itIn v, m => m.update itIn v
  | .maxSize s, m => m.maxSize s

/-! ## What is promised -/

/-- The multimap has an iterator to each entry once, under its value. -/
structure Mirrored (m : LimitedMap K V) : Prop where
  ordered : m.rmap.Ordered
  nodup : (m.rmap.map Prod.snd).Nodup
  mem_iff : ∀ v k, (v, k) ∈ m.rmap ↔ m.map.lookup k = some v

end LimitedMap

/-- A map that keeps of all entries as many as the limit, where zero is no limit, and no
entry that is dropped has a higher value than one that is kept. -/
structure KeepsHighest {K V : Type} [DecidableEq K] [LinearOrder V]
    (nMaxSize : ℕ) (all kept : Table K V) : Prop where
  sub : ∀ k v, kept.lookup k = some v → all.lookup k = some v
  highest : ∀ k v k' v', kept.lookup k = some v → all.lookup k' = some v' → k' ∉ kept → v' ≤ v
  unlimited : nMaxSize = 0 → kept.keys.length = all.keys.length
  limited : nMaxSize ≠ 0 → kept.keys.length = min nMaxSize all.keys.length

namespace LimitedMap

variable {K V : Type} [DecidableEq K] [LinearOrder V]

/-- What the calls of a run promise: no fault, the two containers with the same entries, and
the highest values after an insertion. -/
def KeepsPromises (nMaxSize : ℕ) (calls : List (LimitedMapCall K V)) : Prop :=
  ∀ past c rest, calls = past ++ c :: rest →
    ∃ m m', runEvents call past (initial nMaxSize) = .ok m ∧ call c m = .ok m' ∧ m'.Mirrored ∧
      ∀ k v, c = .insert k v → KeepsHighest m.nMaxSize (mapInsert m.map k v) m'.map

/-- An insertion finds the container without a limit, with the key and not beyond the limit,
or with room for two more entries. -/
def HasRoom (m : LimitedMap K V) (k : K) : Prop :=
  m.nMaxSize = 0 ∨ (k ∈ m.map ∧ m.size ≤ m.nMaxSize) ∨ (k ∉ m.map ∧ m.size + 1 < m.nMaxSize)

/-- Each insertion of the run finds room. -/
def InsertsHaveRoom (nMaxSize : ℕ) (calls : List (LimitedMapCall K V)) : Prop :=
  ∀ past k v rest m, calls = past ++ .insert k v :: rest →
    runEvents call past (initial nMaxSize) = .ok m → m.HasRoom k

/-! ## The two containers -/

section Mirrored

variable {m m' : LimitedMap K V} {k : K} {v : V}

theorem Mirrored.initial (nMaxSizeIn : ℕ) :
    (LimitedMap.initial nMaxSizeIn : LimitedMap K V).Mirrored := by
  refine ⟨List.Pairwise.nil, List.nodup_nil, ?_⟩
  intro v k
  simp [LimitedMap.initial]

/-- Only the values of the keys matter. -/
theorem Mirrored.congr (h : m.Mirrored) (hRmap : m'.rmap = m.rmap)
    (hSame : ∀ k, m'.map.lookup k = m.map.lookup k) : m'.Mirrored := by
  refine ⟨hRmap ▸ h.ordered, hRmap ▸ h.nodup, ?_⟩
  intro v k
  rw [hRmap, hSame, h.mem_iff]

theorem Mirrored.mem_map (h : m.Mirrored) {e : V × K} (hMem : e ∈ m.rmap) : e.2 ∈ m.map :=
  Table.mem_iff_lookup.mpr ⟨e.1, (h.mem_iff e.1 e.2).mp hMem⟩

theorem Mirrored.length (h : m.Mirrored) : m.rmap.length = m.size := by
  have hPerm : (m.rmap.map Prod.snd).Perm m.map.keys := by
    refine (List.perm_ext_iff_of_nodup h.nodup m.map.keys_nodup).mpr ?_
    intro k
    rw [← AList.mem_keys, Table.mem_iff_lookup, List.mem_map]
    constructor
    · rintro ⟨e, hMem, rfl⟩
      exact ⟨e.1, (h.mem_iff e.1 e.2).mp hMem⟩
    · rintro ⟨v, hLookup⟩
      exact ⟨(v, k), (h.mem_iff v k).mpr hLookup, rfl⟩
  rw [size, ← hPerm.length_eq, List.length_map]

theorem Mirrored.add (h : m.Mirrored) (hNew : k ∉ m.map) (v : V) (n : ℕ) :
    (LimitedMap.mk (m.map.insert k v) (m.rmap.insert v k) n).Mirrored := by
  refine ⟨h.ordered.insert v k, ?_, ?_⟩
  · have hPerm := (Multimap.perm_insert m.rmap v k).map Prod.snd
    refine hPerm.nodup_iff.mpr (List.nodup_cons.mpr ⟨?_, h.nodup⟩)
    intro hMem
    obtain ⟨e, he, hKey⟩ := List.mem_map.mp hMem
    have hOld := h.mem_map he
    rw [hKey] at hOld
    exact hNew hOld
  · intro v' k'
    rw [Multimap.mem_insert, h.mem_iff, Table.lookup_insert_ite, Prod.mk.injEq]
    split_ifs with hKey
    · subst hKey
      simp [Table.not_mem_iff_lookup.mp hNew, eq_comm]
    · simp [hKey]

theorem Mirrored.remove (h : m.Mirrored) (hLookup : m.map.lookup k = some v) (n : ℕ) :
    (LimitedMap.mk (m.map.erase k) (List.erase m.rmap (v, k)) n).Mirrored := by
  have hMem := (h.mem_iff v k).mpr hLookup
  refine ⟨h.ordered.erase _, h.nodup.sublist (List.erase_sublist.map Prod.snd), ?_⟩
  intro v' k'
  rw [(List.Nodup.of_map _ h.nodup).mem_erase_iff, h.mem_iff, Table.lookup_erase_ite]
  split_ifs with hKey
  · subst hKey
    simp [hLookup, eq_comm]
  · simp [hKey]

theorem Mirrored.unlink (h : m.Mirrored) (hLookup : m.map.lookup k = some v) :
    LimitedMap.unlink m.rmap v k = .ok (List.erase m.rmap (v, k)) := by
  apply if_pos
  rw [List.any_eq_true]
  exact ⟨(v, k), h.ordered.mem_equalRange.mpr ⟨(h.mem_iff v k).mpr hLookup, rfl⟩, by simp⟩

/-- The first iterator of the multimap leads to an entry with the least value. -/
theorem Mirrored.begin (h : m.Mirrored) (hSome : m.size ≠ 0) :
    ∃ v k rmap, m.rmap = (v, k) :: rmap ∧ m.map.lookup k = some v ∧
      ∀ k' v', m.map.lookup k' = some v' → v ≤ v' := by
  cases hRmap : m.rmap with
  | nil =>
      have hLength := h.length
      rw [hRmap] at hLength
      exact absurd hLength.symm hSome
  | cons e rmap =>
      refine ⟨e.1, e.2, rmap, rfl, (h.mem_iff _ _).mp (hRmap ▸ List.mem_cons_self), ?_⟩
      intro k' v' hLookup
      have hMem : (v', k') ∈ e :: rmap := hRmap ▸ (h.mem_iff v' k').mpr hLookup
      rcases List.mem_cons.mp hMem with rfl | hMem
      · exact le_rfl
      · exact Multimap.Ordered.head_le (hRmap ▸ h.ordered) hMem

omit [LinearOrder V] in
theorem size_insert_of_not_mem (hNew : k ∉ m.map) :
    (m.map.insert k v).keys.length = m.size + 1 := by
  rw [AList.keys_insert, List.length_cons, List.erase_of_not_mem (AList.mem_keys.not.mp hNew),
    size]

omit [LinearOrder V] in
theorem size_erase_of_mem (hMem : k ∈ m.map) : (m.map.erase k).keys.length + 1 = m.size := by
  have hPos := List.length_pos_of_mem (AList.mem_keys.mp hMem)
  rw [AList.keys_erase, List.length_erase_of_mem (AList.mem_keys.mp hMem), size]
  omega

end Mirrored

/-! ## The calls -/

section Calls

variable {m m' : LimitedMap K V} {k : K} {v : V}

theorem Mirrored.eraseBegin (h : m.Mirrored) (hSome : m.size ≠ 0) :
    ∃ m', m.eraseBegin = .ok m' ∧ m'.Mirrored ∧ m'.size + 1 = m.size ∧
      m'.nMaxSize = m.nMaxSize := by
  obtain ⟨v, k, rmap, hRmap, hLookup, -⟩ := h.begin hSome
  have hMem : k ∈ m.map := Table.mem_iff_lookup.mpr ⟨v, hLookup⟩
  refine ⟨⟨m.map.erase k, rmap, m.nMaxSize⟩, ?_, ?_, size_erase_of_mem hMem, rfl⟩
  · unfold LimitedMap.eraseBegin
    rw [hRmap]
    exact if_pos hMem
  · have hRemoved := h.remove hLookup m.nMaxSize
    rwa [hRmap, List.erase_cons_head] at hRemoved

theorem insert_of_mem (hMem : k ∈ m.map) (v : V) : m.insert k v = .ok m :=
  if_pos hMem

theorem insert_of_room (hNew : k ∉ m.map) (hRoom : m.nMaxSize = 0 ∨ m.size + 1 ≠ m.nMaxSize)
    (v : V) :
    m.insert k v = .ok ⟨m.map.insert k v, m.rmap.insert v k, m.nMaxSize⟩ := by
  have hSize : (LimitedMap.mk (m.map.insert k v) m.rmap m.nMaxSize).size = m.size + 1 :=
    size_insert_of_not_mem hNew
  unfold insert
  rw [if_neg hNew]
  dsimp only
  rw [if_neg (by omega)]
  rfl

/-- At one entry below the limit an insertion evicts an old entry, which an empty container
does not have. -/
theorem Mirrored.insert_of_full
    (h : m.Mirrored) (hNew : k ∉ m.map) (hFull : m.size + 1 = m.nMaxSize) (v : V) :
    (m.size = 0 ∧ m.insert k v = .error .outOfRange) ∨
      ∃ m', m.insert k v = .ok m' ∧ m'.Mirrored ∧ m'.size + 1 = m.nMaxSize := by
  have hSize : (LimitedMap.mk (m.map.insert k v) m.rmap m.nMaxSize).size = m.size + 1 :=
    size_insert_of_not_mem hNew
  unfold LimitedMap.insert
  rw [if_neg hNew]
  dsimp only
  rw [if_pos (by omega)]
  by_cases hSome : m.size = 0
  · have hEmpty : m.rmap = [] := List.length_eq_zero_iff.mp (h.length.trans hSome)
    refine Or.inl ⟨hSome, ?_⟩
    unfold LimitedMap.eraseBegin
    rw [hEmpty]
    rfl
  · obtain ⟨v₀, k₀, rmap, hRmap, hLookup, -⟩ := h.begin hSome
    have hMem : k₀ ∈ m.map := Table.mem_iff_lookup.mpr ⟨v₀, hLookup⟩
    have hNe : k₀ ≠ k := fun hSame => hNew (hSame ▸ hMem)
    have hRemoved := h.remove hLookup m.nMaxSize
    rw [hRmap, List.erase_cons_head] at hRemoved
    have hStill : k ∉ m.map.erase k₀ := by
      rw [AList.mem_erase]
      exact fun hErased => hNew hErased.2
    refine Or.inr ⟨⟨(m.map.insert k v).erase k₀, Multimap.insert rmap v k, m.nMaxSize⟩, ?_, ?_, ?_⟩
    · unfold LimitedMap.eraseBegin
      rw [hRmap]
      dsimp only
      rw [if_pos ((AList.mem_insert m.map).mpr (Or.inr hMem))]
      rfl
    · refine (hRemoved.add hStill v m.nMaxSize).congr rfl ?_
      intro k'
      simp only [Table.lookup_insert_ite, Table.lookup_erase_ite]
      split_ifs with hOld hKey
      · exact absurd (hOld.symm.trans hKey) hNe
      · rfl
      · rfl
      · rfl
    · have hBoth : k₀ ∈ (LimitedMap.mk (m.map.insert k v) m.rmap m.nMaxSize).map :=
        (AList.mem_insert m.map).mpr (Or.inr hMem)
      exact (size_erase_of_mem hBoth).trans (hSize.trans hFull)

theorem Mirrored.erase (h : m.Mirrored) (k : K) : ∃ m', m.erase k = .ok m' ∧ m'.Mirrored := by
  unfold LimitedMap.erase
  cases hLookup : m.map.lookup k with
  | none => exact ⟨m, rfl, h⟩
  | some v =>
      dsimp only
      rw [h.unlink hLookup]
      exact ⟨_, rfl, h.remove hLookup m.nMaxSize⟩

theorem Mirrored.update (h : m.Mirrored) (itIn : K) (v : V) :
    ∃ m', m.update itIn v = .ok m' ∧ m'.Mirrored := by
  unfold LimitedMap.update
  cases hLookup : m.map.lookup itIn with
  | none => exact ⟨m, rfl, h⟩
  | some old =>
      have hGone : itIn ∉ m.map.erase itIn := by simp [AList.mem_erase]
      dsimp only
      rw [h.unlink hLookup]
      refine ⟨_, rfl, ((h.remove hLookup m.nMaxSize).add hGone v m.nMaxSize).congr rfl ?_⟩
      intro k
      simp only [Table.lookup_insert_ite, Table.lookup_erase_ite]
      split_ifs with hKey
      · rfl
      · rfl

theorem Mirrored.shrink (h : m.Mirrored) (s rounds : ℕ) :
    ∃ m', LimitedMap.shrink s rounds m = .ok m' ∧ m'.Mirrored := by
  induction rounds generalizing m with
  | zero => exact ⟨m, rfl, h⟩
  | succ rounds ih =>
      unfold LimitedMap.shrink
      split_ifs with hMore
      · obtain ⟨m', hErase, hMirrored, -, -⟩ := h.eraseBegin (by omega)
        rw [hErase, ok_bind]
        exact ih hMirrored
      · exact ⟨m, rfl, h⟩

theorem Mirrored.maxSize (h : m.Mirrored) (s : ℕ) :
    ∃ m', m.maxSize s = .ok m' ∧ m'.Mirrored := by
  unfold LimitedMap.maxSize
  split_ifs with hLimit
  · obtain ⟨m', hShrink, hMirrored⟩ := h.shrink s m.size
    rw [hShrink, ok_bind]
    exact ⟨_, rfl, hMirrored.congr rfl fun _ => rfl⟩
  · exact ⟨_, rfl, h.congr rfl fun _ => rfl⟩

/-- Only an insertion into an empty container with limit one fails. -/
theorem Mirrored.call (h : m.Mirrored) (c : LimitedMapCall K V)
    (hRoom : ∀ k v, c = .insert k v → ¬(m.size = 0 ∧ m.nMaxSize = 1)) :
    ∃ m', LimitedMap.call c m = .ok m' ∧ m'.Mirrored := by
  cases c with
  | insert k v =>
      by_cases hMem : k ∈ m.map
      · exact ⟨m, insert_of_mem hMem v, h⟩
      · by_cases hFull : m.size + 1 = m.nMaxSize
        · rcases h.insert_of_full hMem hFull v with ⟨hEmpty, -⟩ | ⟨m', hInsert, hMirrored, -⟩
          · exact absurd ⟨hEmpty, by omega⟩ (hRoom k v rfl)
          · exact ⟨m', hInsert, hMirrored⟩
        · exact ⟨_, insert_of_room hMem (Or.inr hFull) v, h.add hMem v m.nMaxSize⟩
  | erase k => exact h.erase k
  | update itIn v => exact h.update itIn v
  | maxSize s => exact h.maxSize s

end Calls

/-! ## Insertions -/

theorem keepsHighest_self_iff {n : ℕ} {t : Table K V} :
    KeepsHighest n t t ↔ n = 0 ∨ t.keys.length ≤ n := by
  constructor
  · intro h
    by_cases hLimit : n = 0
    · exact Or.inl hLimit
    · have hLength := h.limited hLimit
      exact Or.inr (by omega)
  · intro h
    refine ⟨fun _ _ hLookup => hLookup, ?_, fun _ => rfl, ?_⟩
    · intro k v k' v' _ hLookup hNot
      exact absurd (Table.mem_iff_lookup.mpr ⟨v', hLookup⟩) hNot
    · intro hLimit
      have hLength := h.resolve_left hLimit
      omega

theorem Mirrored.insert_iff {m : LimitedMap K V} (h : m.Mirrored) (k : K) (v : V) :
    (∃ m', m.insert k v = .ok m' ∧ m'.Mirrored ∧
      KeepsHighest m.nMaxSize (mapInsert m.map k v) m'.map) ↔ m.HasRoom k := by
  unfold HasRoom mapInsert
  by_cases hMem : k ∈ m.map
  · rw [if_pos hMem, insert_of_mem hMem]
    constructor
    · rintro ⟨m', hSame, -, hKeeps⟩
      cases hSame
      have hSize := keepsHighest_self_iff.mp hKeeps
      unfold size
      tauto
    · intro hRoom
      refine ⟨m, rfl, h, keepsHighest_self_iff.mpr ?_⟩
      unfold size at hRoom
      tauto
  · rw [if_neg hMem]
    by_cases hFull : m.nMaxSize = 0 ∨ m.size + 1 ≠ m.nMaxSize
    · rw [insert_of_room hMem hFull]
      constructor
      · rintro ⟨m', hSame, -, hKeeps⟩
        cases hSame
        have hSize := keepsHighest_self_iff.mp hKeeps
        rw [size_insert_of_not_mem hMem] at hSize
        have hLess : m.nMaxSize = 0 ∨ m.size + 1 < m.nMaxSize := by omega
        tauto
      · intro hRoom
        refine ⟨_, rfl, h.add hMem v m.nMaxSize, keepsHighest_self_iff.mpr ?_⟩
        rw [size_insert_of_not_mem hMem]
        have hLess : m.nMaxSize = 0 ∨ m.size + 1 < m.nMaxSize := by tauto
        omega
    · rw [not_or, not_not] at hFull
      have hNone : ¬(m.nMaxSize = 0 ∨ (k ∈ m.map ∧ m.size ≤ m.nMaxSize) ∨
          (k ∉ m.map ∧ m.size + 1 < m.nMaxSize)) := by
        rintro (hZero | ⟨hOld, -⟩ | ⟨-, hLess⟩)
        · exact hFull.1 hZero
        · exact hMem hOld
        · omega
      refine iff_of_false ?_ hNone
      rintro ⟨m', hInsert, -, hKeeps⟩
      rcases h.insert_of_full hMem hFull.2 v with ⟨-, hError⟩ | ⟨m'', hOk, -, hSize⟩
      · rw [hInsert] at hError
        cases hError
      · rw [hInsert] at hOk
        cases hOk
        -- all the entries fit, but one is gone
        have hKept := hKeeps.limited hFull.1
        rw [size_insert_of_not_mem hMem] at hKept
        unfold size at hSize hFull hKept
        omega

/-! ## Runs -/

theorem Mirrored.of_promises {nMaxSize : ℕ} {past : List (LimitedMapCall K V)} {m : LimitedMap K V}
    (h : KeepsPromises nMaxSize past)
    (hRun : runEvents LimitedMap.call past (LimitedMap.initial nMaxSize) = .ok m) : m.Mirrored := by
  rcases List.eq_nil_or_concat past with rfl | ⟨past, c, rfl⟩
  · cases hRun
    exact Mirrored.initial nMaxSize
  · obtain ⟨u, hPast, hLast⟩ := runEvents_concat_eq_ok.mp (List.concat_eq_append ▸ hRun)
    obtain ⟨m₀, m', hPast', hLast', hMirrored, -⟩ := h past c [] (List.concat_eq_append)
    rw [hPast] at hPast'
    cases hPast'
    rw [hLast] at hLast'
    cases hLast'
    exact hMirrored

/-- A run whose insertions find room reaches a state with the same entries in both containers. -/
theorem InsertsHaveRoom.run {nMaxSize : ℕ} {calls : List (LimitedMapCall K V)}
    (h : InsertsHaveRoom nMaxSize calls) :
    ∃ m, runEvents call calls (initial nMaxSize) = .ok m ∧ m.Mirrored := by
  induction calls using List.reverseRecOn with
  | nil => exact ⟨_, rfl, Mirrored.initial nMaxSize⟩
  | append_singleton calls c ih =>
      obtain ⟨m, hRun, hMirrored⟩ := ih (by
        intro past k v rest m hSplit
        exact h past k v (rest ++ [c]) m (by simp [hSplit]))
      obtain ⟨m', hCall, hMirrored'⟩ := hMirrored.call c (by
        rintro k v rfl ⟨hEmpty, hOne⟩
        rcases h calls k v [] m rfl hRun with hZero | ⟨hMem, -⟩ | ⟨-, hLess⟩
        · omega
        · have hPos := List.length_pos_of_mem (AList.mem_keys.mp hMem)
          exact absurd hEmpty hPos.ne'
        · omega)
      exact ⟨m', runEvents_concat_eq_ok.mpr ⟨m, hRun, hCall⟩, hMirrored'⟩

theorem limitedmap_keeps_promises_iff_room
    (nMaxSize : ℕ) (calls : List (LimitedMapCall K V)) :
    KeepsPromises nMaxSize calls ↔ InsertsHaveRoom nMaxSize calls := by
  constructor
  · intro h past k v rest m hSplit hRun
    have hPast : KeepsPromises nMaxSize past := by
      intro first c later hFirst
      exact h first c (later ++ .insert k v :: rest) (by simp [hSplit, hFirst])
    obtain ⟨m₀, m', hRun', hCall, hMirrored, hKeeps⟩ := h past (.insert k v) rest hSplit
    rw [hRun] at hRun'
    cases hRun'
    exact ((Mirrored.of_promises hPast hRun).insert_iff k v).mp
      ⟨m', hCall, hMirrored, hKeeps k v rfl⟩
  · intro h past c rest hSplit
    have hPast : InsertsHaveRoom nMaxSize past := by
      intro first k v later m hFirst
      exact h first k v (later ++ c :: rest) m (by simp [hSplit, hFirst])
    obtain ⟨m, hRun, hMirrored⟩ := hPast.run
    cases c with
    | insert k v =>
        obtain ⟨m', hInsert, hMirrored', hKeeps⟩ :=
          (hMirrored.insert_iff k v).mpr (h past k v rest m hSplit hRun)
        refine ⟨m, m', hRun, hInsert, hMirrored', ?_⟩
        rintro k' v' ⟨⟩
        exact hKeeps
    | erase k =>
        obtain ⟨m', hErase, hMirrored'⟩ := hMirrored.erase k
        exact ⟨m, m', hRun, hErase, hMirrored', fun _ _ hOther => nomatch hOther⟩
    | update itIn v =>
        obtain ⟨m', hUpdate, hMirrored'⟩ := hMirrored.update itIn v
        exact ⟨m, m', hRun, hUpdate, hMirrored', fun _ _ hOther => nomatch hOther⟩
    | maxSize s =>
        obtain ⟨m', hMax, hMirrored'⟩ := hMirrored.maxSize s
        exact ⟨m, m', hRun, hMax, hMirrored', fun _ _ hOther => nomatch hOther⟩

/-- With limit one the first insertion reads `rmap.begin()` of an empty multimap, with limit two
the second one evicts though both entries fit, and after `max_size` has cut the container down
to its limit an insertion goes beyond it. -/
theorem limitedmap_breaks_promises :
    ¬KeepsPromises 1 [LimitedMapCall.insert 0 10] ∧
      ¬KeepsPromises 2 [LimitedMapCall.insert 0 10, .insert 1 20] ∧
      ¬KeepsPromises 3 [LimitedMapCall.insert 0 10, .maxSize 1, .insert 1 20] := by
  refine ⟨?_, ?_, ?_⟩
  · intro h
    obtain ⟨m, m', hRun, hCall, -⟩ := h [] (.insert 0 10) [] rfl
    cases hRun
    cases hCall
  · intro h
    obtain ⟨m, m', hRun, hCall, -, hKeeps⟩ := h [.insert 0 10] (.insert 1 20) [] rfl
    cases hRun
    cases hCall
    have hKept := (hKeeps 1 20 rfl).limited (by decide)
    exact absurd hKept (by decide)
  · intro h
    obtain ⟨m, m', hRun, hCall, -, hKeeps⟩ :=
      h [.insert 0 10, .maxSize 1] (.insert 1 20) [] rfl
    cases hRun
    cases hCall
    have hKept := (hKeeps 1 20 rfl).limited (by decide)
    exact absurd hKept (by decide)

end LimitedMap

end SocietyGold
