import Mathlib.Data.List.AList
import Mathlib.Data.List.Sort
import Mathlib.Tactic

/-!
# Finite tables

A table holds at most one value for each key.  Mathlib's `AList` supplies the
carrier and most of its lookup lemmas; this file adds lookups after an update
as a single case distinction, the access that creates a default entry, and the
list of all entries in ascending key order.
-/

namespace Support

universe u v

/-- A finite map from keys to values. -/
abbrev Table (K : Type u) (V : Type v) := AList (fun _ : K => V)

namespace Table

variable {K : Type u} {V : Type v} [DecidableEq K]

theorem lookup_insert_ite (t : Table K V) (k k' : K) (v : V) :
    (t.insert k v).lookup k' = if k' = k then some v else t.lookup k' := by
  by_cases h : k' = k
  · subst h
    simp
  · simp [h, AList.lookup_insert_ne]

theorem lookup_erase_ite (t : Table K V) (k k' : K) :
    (t.erase k).lookup k' = if k' = k then none else t.lookup k' := by
  by_cases h : k' = k
  · subst h
    simp
  · simp [h, AList.lookup_erase_ne]

theorem mem_iff_lookup {t : Table K V} {k : K} :
    k ∈ t ↔ ∃ v, t.lookup k = some v := by
  rw [← AList.lookup_isSome, Option.isSome_iff_exists]

theorem not_mem_iff_lookup {t : Table K V} {k : K} :
    k ∉ t ↔ t.lookup k = none :=
  AList.lookup_eq_none.symm

omit [DecidableEq K] in
/-- Distinct keys of a table are no more than its entries. -/
theorem length_le_of_nodup
    {t : Table K V} {keys : List K} (hNodup : keys.Nodup) (hMem : ∀ k ∈ keys, k ∈ t) :
    keys.length ≤ t.entries.length := by
  have hKeys : keys ⊆ t.keys := fun k hk => AList.mem_keys.mp (hMem k hk)
  have hLength := (hNodup.subperm hKeys).length_le
  rwa [AList.keys, List.keys, List.length_map] at hLength

/-- The access that creates a default entry when the key is absent. -/
def touch (t : Table K V) (k : K) (default : V) : Table K V :=
  if k ∈ t then t else t.insert k default

theorem lookup_touch (t : Table K V) (k k' : K) (default : V) :
    (t.touch k default).lookup k' =
      (t.lookup k').or (if k = k' then some default else none) := by
  unfold touch
  by_cases hMem : k ∈ t
  · obtain ⟨v, hFound⟩ := mem_iff_lookup.mp hMem
    rw [if_pos hMem]
    split_ifs with hKey
    · rw [← hKey, hFound, Option.some_or]
    · rw [Option.or_none]
  · rw [if_neg hMem, lookup_insert_ite]
    by_cases hKey : k = k'
    · rw [if_pos hKey.symm, if_pos hKey, ← hKey, not_mem_iff_lookup.mp hMem, Option.none_or]
    · rw [if_neg (Ne.symm hKey), if_neg hKey, Option.or_none]

theorem mem_touch {t : Table K V} {k k' : K} {default : V} :
    k' ∈ t.touch k default ↔ k' = k ∨ k' ∈ t := by
  unfold touch
  split_ifs with hMem
  · constructor
    · exact Or.inr
    · rintro (rfl | hOther)
      · exact hMem
      · exact hOther
  · exact AList.mem_insert t

/-- What is left of the table without some keys. -/
def Without (t : Table K V) (gone : K → Prop) (t' : Table K V) : Prop :=
  ∀ k v, t'.lookup k = some v ↔ t.lookup k = some v ∧ ¬gone k

namespace Without

variable {t t' t'' : Table K V} {gone later : K → Prop}

theorem refl (t : Table K V) : t.Without (fun _ => False) t := by
  intro k v
  simp

theorem erase (t : Table K V) (k : K) : t.Without (· = k) (t.erase k) := by
  intro k' v
  rw [lookup_erase_ite]
  split_ifs with hKey
  · simp [hKey]
  · simp [hKey]

/-- Only the keys of the table matter. -/
theorem congr (h : t.Without gone t') (hSame : ∀ k ∈ t, gone k ↔ later k) :
    t.Without later t' := by
  intro k v
  rw [h k v]
  apply and_congr_right
  intro hLookup
  rw [hSame k (mem_iff_lookup.mpr ⟨v, hLookup⟩)]

theorem trans (h : t.Without gone t') (h' : t'.Without later t'') :
    t.Without (fun k => gone k ∨ later k) t'' := by
  intro k v
  rw [h' k v, h k v, not_or, and_assoc]

/-- A key that stays keeps its value. -/
theorem lookup_of_not_gone {k : K} (h : t.Without gone t') (hStays : ¬gone k) :
    t'.lookup k = t.lookup k := by
  apply Option.ext
  intro v
  rw [h k v, and_iff_left hStays]

theorem not_mem_of_gone {k : K} (h : t.Without gone t') (hGone : gone k) : k ∉ t' := by
  intro hMem
  obtain ⟨v, hLookup⟩ := mem_iff_lookup.mp hMem
  exact ((h k v).mp hLookup).2 hGone

theorem mem_iff {k : K} (h : t.Without gone t') : k ∈ t' ↔ k ∈ t ∧ ¬gone k := by
  simp only [mem_iff_lookup, h k, exists_and_right]

end Without

/-! ## Several updates in a row -/

section Folds

variable {α : Type*} (key : α → K) (value : α → V)

theorem lookup_foldl_erase (xs : List α) (t : Table K V) (k : K) :
    (xs.foldl (fun t x => t.erase (key x)) t).lookup k =
      if k ∈ xs.map key then none else t.lookup k := by
  induction xs generalizing t with
  | nil => simp
  | cons x xs ih =>
      rw [List.foldl_cons, ih, lookup_erase_ite]
      by_cases hMem : k ∈ xs.map key
      · simp [hMem]
      · by_cases hHead : k = key x
        · simp [hHead]
        · simp [hMem, hHead]

theorem without_foldl_erase (xs : List α) (t : Table K V) :
    t.Without (· ∈ xs.map key) (xs.foldl (fun t x => t.erase (key x)) t) := by
  intro k v
  rw [lookup_foldl_erase]
  split_ifs with hMem
  · simp [hMem]
  · simp [hMem]

/-- A key keeps its value, or gets that of the first element with it. -/
theorem lookup_foldl_touch (xs : List α) (t : Table K V) (k : K) :
    (xs.foldl (fun t x => t.touch (key x) (value x)) t).lookup k =
      (t.lookup k).or ((xs.find? fun x => key x = k).map value) := by
  induction xs generalizing t with
  | nil => simp
  | cons x xs ih =>
      rw [List.foldl_cons, ih, lookup_touch]
      by_cases hKey : key x = k
      · rw [if_pos hKey, List.find?_cons_of_pos (by simpa using hKey)]
        cases t.lookup k <;> simp
      · rw [if_neg hKey, List.find?_cons_of_neg (by simpa using hKey), Option.or_none]

theorem lookup_foldl_insert_of_not_mem
    {xs : List α} (t : Table K V) {k : K} (h : k ∉ xs.map key) :
    (xs.foldl (fun t x => t.insert (key x) (value x)) t).lookup k = t.lookup k := by
  induction xs generalizing t with
  | nil => rfl
  | cons x xs ih =>
      rw [List.map_cons, List.mem_cons, not_or] at h
      rw [List.foldl_cons, ih _ h.2, lookup_insert_ite, if_neg h.1]

/-- With distinct keys each key gets its value. -/
theorem lookup_foldl_insert_of_mem
    {xs : List α} (t : Table K V) (hNodup : (xs.map key).Nodup) {x : α} (h : x ∈ xs) :
    (xs.foldl (fun t x => t.insert (key x) (value x)) t).lookup (key x) = some (value x) := by
  induction xs generalizing t with
  | nil => cases h
  | cons y xs ih =>
      rw [List.map_cons, List.nodup_cons] at hNodup
      rw [List.foldl_cons]
      rcases List.mem_cons.mp h with rfl | h
      · rw [lookup_foldl_insert_of_not_mem key value _ hNodup.1, lookup_insert_ite, if_pos rfl]
      · exact ih _ hNodup.2 h

/-- New keys are inserted, whether or not there is a test for them. -/
theorem foldl_insertNew
    {xs : List α} (t : Table K V) (hNodup : (xs.map key).Nodup) (hNew : ∀ x ∈ xs, key x ∉ t) :
    xs.foldl (fun t x => if key x ∈ t then t else t.insert (key x) (value x)) t =
      xs.foldl (fun t x => t.insert (key x) (value x)) t := by
  induction xs generalizing t with
  | nil => rfl
  | cons x xs ih =>
      rw [List.map_cons, List.nodup_cons] at hNodup
      rw [List.foldl_cons, List.foldl_cons, if_neg (hNew x List.mem_cons_self)]
      apply ih _ hNodup.2
      intro x' hx'
      rw [AList.mem_insert, not_or]
      refine ⟨?_, hNew x' (List.mem_cons_of_mem x hx')⟩
      intro hSame
      exact hNodup.1 (hSame ▸ List.mem_map_of_mem hx')

variable {key} {f : Table K V → α → Table K V}

/-- Updates of other keys leave a value as it is. -/
theorem lookup_foldl_of_not_mem
    (hLocal : ∀ t x k, k ≠ key x → (f t x).lookup k = t.lookup k)
    {xs : List α} (t : Table K V) {k : K} (h : k ∉ xs.map key) :
    (xs.foldl f t).lookup k = t.lookup k := by
  induction xs generalizing t with
  | nil => rfl
  | cons x xs ih =>
      rw [List.map_cons, List.mem_cons, not_or] at h
      rw [List.foldl_cons, ih _ h.2, hLocal t x k h.1]

/-- With distinct keys a key is updated once, and has its old value before that. -/
theorem lookup_foldl_of_mem
    (hLocal : ∀ t x k, k ≠ key x → (f t x).lookup k = t.lookup k)
    {xs : List α} (t : Table K V) (hNodup : (xs.map key).Nodup) {x : α} (h : x ∈ xs) :
    ∃ t', t'.lookup (key x) = t.lookup (key x) ∧
      (xs.foldl f t).lookup (key x) = (f t' x).lookup (key x) := by
  induction xs generalizing t with
  | nil => cases h
  | cons y xs ih =>
      rw [List.map_cons, List.nodup_cons] at hNodup
      rw [List.foldl_cons]
      rcases List.mem_cons.mp h with rfl | h
      · exact ⟨t, rfl, lookup_foldl_of_not_mem hLocal _ hNodup.1⟩
      · obtain ⟨t', hBefore, hAfter⟩ := ih (f t y) hNodup.2 h
        refine ⟨t', hBefore.trans (hLocal t y _ ?_), hAfter⟩
        intro hSame
        exact hNodup.1 (hSame ▸ List.mem_map_of_mem h)

end Folds

/-! ## Entries in key order -/

section Ordered

variable {L : Type u} [LinearOrder L] {W : Type v}

/-- All entries, in ascending order of their keys. -/
def inKeyOrder (t : Table L W) : List (L × W) :=
  (t.entries.map fun e => (e.1, e.2)).insertionSort fun a b => a.1 ≤ b.1

theorem mem_inKeyOrder {t : Table L W} {k : L} {v : W} :
    (k, v) ∈ t.inKeyOrder ↔ t.lookup k = some v := by
  rw [inKeyOrder, List.mem_insertionSort, ← Option.mem_def, AList.mem_lookup_iff]
  constructor
  · intro h
    obtain ⟨⟨k', v'⟩, hMem, hEq⟩ := List.mem_map.mp h
    cases hEq
    exact hMem
  · intro h
    exact List.mem_map.mpr ⟨⟨k, v⟩, h, rfl⟩

theorem nodup_keys_inKeyOrder (t : Table L W) :
    (t.inKeyOrder.map Prod.fst).Nodup := by
  have hPerm : (t.inKeyOrder.map Prod.fst).Perm t.keys := by
    have hSort := List.perm_insertionSort (fun a b : L × W => a.1 ≤ b.1)
      (t.entries.map fun e => (e.1, e.2))
    have hMap := hSort.map Prod.fst
    simpa [inKeyOrder, AList.keys, List.keys, Function.comp_def] using hMap
  exact hPerm.nodup_iff.mpr t.keys_nodup

/-- The least key comes first. -/
theorem head_inKeyOrder
    {t : Table L W} {k : L} {v : W} (hLookup : t.lookup k = some v)
    (hLeast : ∀ other ∈ t, k ≤ other) :
    ∃ rest, t.inKeyOrder = (k, v) :: rest := by
  have hMem := mem_inKeyOrder.mpr hLookup
  have hSorted : t.inKeyOrder.Pairwise fun a b => a.1 ≤ b.1 :=
    List.pairwise_insertionSort (fun a b : L × W => a.1 ≤ b.1) _
  cases hOrder : t.inKeyOrder with
  | nil =>
      rw [hOrder] at hMem
      cases hMem
  | cons first rest =>
      obtain ⟨k', v'⟩ := first
      rw [hOrder] at hMem hSorted
      have hFirst : t.lookup k' = some v' := by
        rw [← mem_inKeyOrder, hOrder]
        exact List.mem_cons_self
      have hSame : k' = k := by
        refine le_antisymm ?_ (hLeast k' (mem_iff_lookup.mpr ⟨v', hFirst⟩))
        rcases List.mem_cons.mp hMem with hHead | hTail
        · exact (congrArg Prod.fst hHead).ge
        · exact (List.pairwise_cons.mp hSorted).1 _ hTail
      rw [hSame] at hFirst ⊢
      obtain rfl := Option.some.inj (hLookup.symm.trans hFirst)
      exact ⟨rest, rfl⟩

end Ordered

end Table

end Support
