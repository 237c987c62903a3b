import Mathlib.Tactic

/-!
# Multimaps

A multimap lists its entries in the order of their keys, and entries with one key in the order
in which they came.
-/

namespace Support

universe u v

/-- Entries in the order of their keys. -/
abbrev Multimap (V : Type u) (ι : Type v) := List (V × ι)

namespace Multimap

variable {V : Type u} {ι : Type v} [LinearOrder V]

/-- A new entry goes behind those whose key is not greater. -/
def insert (m : Multimap V ι) (key : V) (i : ι) : Multimap V ι :=
  List.orderedInsert (fun e e' : V × ι => e.1 < e'.1) (key, i) m

/-- The entries with the key. -/
def equalRange (m : Multimap V ι) (key : V) : Multimap V ι :=
  (m.dropWhile fun e => e.1 < key).takeWhile fun e => e.1 ≤ key

/-- The entries are in the order of their keys. -/
def Ordered (m : Multimap V ι) : Prop :=
  List.Pairwise (fun e e' : V × ι => e.1 ≤ e'.1) m

theorem perm_insert (m : Multimap V ι) (key : V) (i : ι) : (m.insert key i).Perm ((key, i) :: m) :=
  List.perm_orderedInsert _ _ m

@[simp] theorem mem_insert {m : Multimap V ι} {key : V} {i : ι} {e : V × ι} :
    e ∈ m.insert key i ↔ e = (key, i) ∨ e ∈ m := by
  rw [(perm_insert m key i).mem_iff, List.mem_cons]

theorem Ordered.insert {m : Multimap V ι} (h : m.Ordered) (key : V) (i : ι) :
    (m.insert key i).Ordered := by
  induction m with
  | nil => exact List.pairwise_singleton _ _
  | cons e m ih =>
      obtain ⟨hFirst, hRest⟩ := List.pairwise_cons.mp h
      unfold Multimap.insert
      rw [List.orderedInsert_cons]
      split_ifs with hLess
      · refine List.pairwise_cons.mpr ⟨?_, h⟩
        intro e' he'
        rcases List.mem_cons.mp he' with rfl | he'
        · exact hLess.le
        · exact hLess.le.trans (hFirst e' he')
      · refine List.pairwise_cons.mpr ⟨?_, ih hRest⟩
        intro e' he'
        rcases (mem_insert (m := m)).mp he' with rfl | he'
        · exact not_lt.mp hLess
        · exact hFirst e' he'

/-- In order, the entries with a key are found in its range. -/
theorem Ordered.mem_equalRange {m : Multimap V ι} (h : m.Ordered) {key : V} {e : V × ι} :
    e ∈ m.equalRange key ↔ e ∈ m ∧ e.1 = key := by
  induction m with
  | nil => simp [equalRange]
  | cons e' m ih =>
      obtain ⟨hFirst, hRest⟩ := List.pairwise_cons.mp h
      have ih := ih hRest
      unfold equalRange at ih ⊢
      rcases lt_trichotomy e'.1 key with hBelow | hSame | hAbove
      · rw [List.dropWhile_cons_of_pos (by simpa using hBelow), ih, List.mem_cons]
        constructor
        · exact fun ⟨hMem, hKey⟩ => ⟨Or.inr hMem, hKey⟩
        · rintro ⟨rfl | hMem, hKey⟩
          · exact absurd hKey hBelow.ne
          · exact ⟨hMem, hKey⟩
      · have hDrop : m.dropWhile (fun e => decide (e.1 < key)) = m := by
          cases m with
          | nil => rfl
          | cons e'' m =>
              have hLe := hFirst e'' List.mem_cons_self
              exact List.dropWhile_cons_of_neg (by simpa [hSame] using hLe)
        rw [hDrop] at ih
        rw [List.dropWhile_cons_of_neg (by simp [hSame]),
          List.takeWhile_cons_of_pos (by simp [hSame]), List.mem_cons, List.mem_cons, ih]
        constructor
        · rintro (rfl | ⟨hMem, hKey⟩)
          · exact ⟨Or.inl rfl, hSame⟩
          · exact ⟨Or.inr hMem, hKey⟩
        · rintro ⟨rfl | hMem, hKey⟩
          · exact Or.inl rfl
          · exact Or.inr ⟨hMem, hKey⟩
      · rw [List.dropWhile_cons_of_neg (by simpa using hAbove.le),
          List.takeWhile_cons_of_neg (by simpa using hAbove)]
        refine iff_of_false (List.not_mem_nil) ?_
        rintro ⟨hMem, hKey⟩
        rcases List.mem_cons.mp hMem with rfl | hMem
        · exact hAbove.ne' hKey
        · exact (lt_of_lt_of_le hAbove (hFirst e hMem)).ne' hKey

/-- The first entry has the least key. -/
theorem Ordered.head_le {m : Multimap V ι} {e e' : V × ι} (h : Ordered (e :: m)) (he' : e' ∈ m) :
    e.1 ≤ e'.1 :=
  (List.pairwise_cons.mp h).1 e' he'

theorem Ordered.erase [DecidableEq ι] {m : Multimap V ι} (h : m.Ordered) (e : V × ι) :
    Ordered (List.erase m e) :=
  h.sublist List.erase_sublist

end Multimap

end Support
