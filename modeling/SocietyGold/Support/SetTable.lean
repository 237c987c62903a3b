import SocietyGold.Support.Table
import Mathlib.Data.Finset.Basic

/-!
# Tables of sets

A table from keys to finite sets of values, in which no empty set is kept: a value is
inserted under a key, which makes an entry if there is none, and erased under a key, which
drops the entry with its last value.
-/

namespace Support

universe u v

namespace SetTable

variable {K : Type u} {V : Type v} [DecidableEq K]

/-- The values under a key. -/
def valuesAt (t : Table K (Finset V)) (k : K) : Finset V := (t.lookup k).getD ∅

/-- No key has the empty set. -/
def NoEmpty (t : Table K (Finset V)) : Prop :=
  ∀ k values, t.lookup k = some values → values.Nonempty

theorem noEmpty_empty : NoEmpty (∅ : Table K (Finset V)) := by
  intro k values hLookup
  simp at hLookup

@[simp] theorem valuesAt_empty (k : K) : valuesAt (∅ : Table K (Finset V)) k = ∅ := by
  simp [valuesAt]

theorem mem_valuesAt {t : Table K (Finset V)} {k : K} {v : V} :
    v ∈ valuesAt t k ↔ ∃ values, t.lookup k = some values ∧ v ∈ values := by
  unfold valuesAt
  cases t.lookup k with
  | none => simp
  | some values => simp

section Updates

variable [DecidableEq V]

def insertAt (t : Table K (Finset V)) (k : K) (v : V) : Table K (Finset V) :=
  t.insert k (insert v (valuesAt t k))

def eraseAt (t : Table K (Finset V)) (k : K) (v : V) : Table K (Finset V) :=
  match t.lookup k with
  | none => t
  | some values =>
      if values.erase v = ∅ then t.erase k else t.insert k (values.erase v)

variable (t : Table K (Finset V)) (k k' : K) (v v' : V)

theorem valuesAt_insertAt :
    valuesAt (insertAt t k v) k' = if k' = k then insert v (valuesAt t k) else valuesAt t k' := by
  have hLookup := Table.lookup_insert_ite t k k' (insert v (valuesAt t k))
  unfold insertAt
  rw [valuesAt, hLookup]
  by_cases hKey : k' = k
  · rw [if_pos hKey, if_pos hKey]
    rfl
  · rw [if_neg hKey, if_neg hKey]
    rfl

theorem valuesAt_eraseAt :
    valuesAt (eraseAt t k v) k' = if k' = k then (valuesAt t k).erase v else valuesAt t k' := by
  unfold eraseAt
  cases hLookup : t.lookup k with
  | none =>
      by_cases hKey : k' = k
      · subst hKey
        simp [valuesAt, hLookup]
      · rw [if_neg hKey]
  | some values =>
      have hValues : valuesAt t k = values := by simp [valuesAt, hLookup]
      rw [hValues]
      by_cases hLast : values.erase v = ∅
      · simp only [hLast, if_true]
        rw [valuesAt, Table.lookup_erase_ite]
        by_cases hKey : k' = k
        · rw [if_pos hKey, if_pos hKey]
          rfl
        · rw [if_neg hKey, if_neg hKey]
          rfl
      · simp only [hLast, if_false]
        rw [valuesAt, Table.lookup_insert_ite]
        by_cases hKey : k' = k
        · rw [if_pos hKey, if_pos hKey]
          rfl
        · rw [if_neg hKey, if_neg hKey]
          rfl

theorem mem_valuesAt_insertAt :
    v' ∈ valuesAt (insertAt t k v) k' ↔ v' ∈ valuesAt t k' ∨ (k' = k ∧ v' = v) := by
  rw [valuesAt_insertAt]
  by_cases hKey : k' = k
  · rw [if_pos hKey, Finset.mem_insert, hKey]
    tauto
  · simp [hKey]

theorem mem_valuesAt_eraseAt :
    v' ∈ valuesAt (eraseAt t k v) k' ↔ v' ∈ valuesAt t k' ∧ ¬(k' = k ∧ v' = v) := by
  rw [valuesAt_eraseAt]
  by_cases hKey : k' = k
  · rw [if_pos hKey, Finset.mem_erase, hKey]
    tauto
  · simp [hKey]

theorem NoEmpty.insertAt
    {t : Table K (Finset V)} (h : NoEmpty t) (k : K) (v : V) : NoEmpty (insertAt t k v) := by
  intro k' values hLookup
  unfold SetTable.insertAt at hLookup
  rw [Table.lookup_insert_ite] at hLookup
  split_ifs at hLookup with hKey
  · rw [← Option.some.inj hLookup]
    exact Finset.insert_nonempty v _
  · exact h k' values hLookup

theorem NoEmpty.eraseAt
    {t : Table K (Finset V)} (h : NoEmpty t) (k : K) (v : V) : NoEmpty (eraseAt t k v) := by
  intro k' values hLookup
  unfold SetTable.eraseAt at hLookup
  cases hOld : t.lookup k with
  | none =>
      rw [hOld] at hLookup
      exact h k' values hLookup
  | some old =>
      rw [hOld] at hLookup
      by_cases hLast : old.erase v = ∅
      · simp only [hLast, if_true, Table.lookup_erase_ite] at hLookup
        split_ifs at hLookup
        exact h k' values hLookup
      · simp only [hLast, if_false, Table.lookup_insert_ite] at hLookup
        split_ifs at hLookup
        · rw [← Option.some.inj hLookup]
          exact Finset.nonempty_iff_ne_empty.mpr hLast
        · exact h k' values hLookup

end Updates

/-! ## Several keys in a row -/

section Folds

variable [DecidableEq V] {α : Type*} (key : α → K) (v v' : V)

theorem mem_valuesAt_foldl_insertAt (xs : List α) (t : Table K (Finset V)) (k : K) :
    v' ∈ valuesAt (xs.foldl (fun t x => insertAt t (key x) v) t) k ↔
      v' ∈ valuesAt t k ∨ (k ∈ xs.map key ∧ v' = v) := by
  induction xs generalizing t with
  | nil => simp
  | cons x xs ih =>
      rw [List.foldl_cons, ih, mem_valuesAt_insertAt, List.map_cons, List.mem_cons]
      tauto

theorem mem_valuesAt_foldl_eraseAt (xs : List α) (t : Table K (Finset V)) (k : K) :
    v' ∈ valuesAt (xs.foldl (fun t x => eraseAt t (key x) v) t) k ↔
      v' ∈ valuesAt t k ∧ ¬(k ∈ xs.map key ∧ v' = v) := by
  induction xs generalizing t with
  | nil => simp
  | cons x xs ih =>
      rw [List.foldl_cons, ih, mem_valuesAt_eraseAt, List.map_cons, List.mem_cons]
      tauto

theorem NoEmpty.foldl_insertAt
    {t : Table K (Finset V)} (h : NoEmpty t) (xs : List α) :
    NoEmpty (xs.foldl (fun t x => SetTable.insertAt t (key x) v) t) := by
  induction xs generalizing t with
  | nil => exact h
  | cons x xs ih => exact ih (h.insertAt (key x) v)

theorem NoEmpty.foldl_eraseAt
    {t : Table K (Finset V)} (h : NoEmpty t) (xs : List α) :
    NoEmpty (xs.foldl (fun t x => SetTable.eraseAt t (key x) v) t) := by
  induction xs generalizing t with
  | nil => exact h
  | cons x xs ih => exact ih (h.eraseAt (key x) v)

end Folds

end SetTable

end Support
