import SocietyGold.Support.Table
import SocietyGold.Support.WhileLoop

/-!
# Logs of records and their indices

Records are appended to a log one after the other.  An index has an entry for each record, with
the offset at which it begins.  The rules say what lies at an offset of the index, how both
change when a record is appended, and that a scan of the log finds all of its records.
-/

namespace Support

universe u v w x y

variable {α : Type u} {ρ : Type v}

/-! ## Layout -/

section Layout

variable (bytes : ρ → List α)

/-- The bytes of the log. -/
def layout (records : List ρ) : List α := records.flatMap bytes

/-- The records with their offsets. -/
def placed : (start : ℕ) → List ρ → List (ρ × ℕ)
  | _, [] => []
  | start, r :: records => (r, start) :: placed (start + (bytes r).length) records

variable {bytes}

@[simp] theorem layout_nil : layout bytes [] = [] := rfl

theorem layout_cons (r : ρ) (records : List ρ) :
    layout bytes (r :: records) = bytes r ++ layout bytes records := by
  rw [layout, List.flatMap_cons, ← layout]

theorem layout_concat (records : List ρ) (r : ρ) :
    layout bytes (records ++ [r]) = layout bytes records ++ bytes r := by
  rw [layout, List.flatMap_append, List.flatMap_singleton, ← layout]

theorem map_fst_placed (bytes : ρ → List α) (start : ℕ) (records : List ρ) :
    (placed bytes start records).map Prod.fst = records := by
  induction records generalizing start with
  | nil => rfl
  | cons r records ih => rw [placed, List.map_cons, ih]

theorem placed_concat (start : ℕ) (records : List ρ) (r : ρ) :
    placed bytes start (records ++ [r]) =
      placed bytes start records ++ [(r, start + (layout bytes records).length)] := by
  induction records generalizing start with
  | nil => rfl
  | cons r' records ih =>
      rw [List.cons_append, placed, placed, ih, layout_cons, List.length_append, List.cons_append,
        Nat.add_assoc]

/-- A log has no fewer bytes than records, if these are not empty. -/
theorem length_le_layout {records : List ρ} (h : ∀ r ∈ records, 0 < (bytes r).length) :
    records.length ≤ (layout bytes records).length := by
  induction records with
  | nil => exact le_rfl
  | cons r records ih =>
      have hFirst := h r List.mem_cons_self
      have hRest := ih fun r' hr' => h r' (List.mem_cons_of_mem r hr')
      rw [layout_cons, List.length_append, List.length_cons]
      omega

/-- At the offset of a record the log goes on with its bytes. -/
theorem drop_of_placed
    {start offset : ℕ} {records : List ρ} {r : ρ} (h : (r, offset) ∈ placed bytes start records) :
    start ≤ offset ∧ ∃ rest, (layout bytes records).drop (offset - start) = bytes r ++ rest := by
  induction records generalizing start with
  | nil => cases h
  | cons r' records ih =>
      rcases List.mem_cons.mp h with hHead | hTail
      · obtain ⟨rfl, rfl⟩ := Prod.ext_iff.mp hHead
        refine ⟨le_rfl, layout bytes records, ?_⟩
        rw [Nat.sub_self, List.drop_zero, layout_cons]
      · obtain ⟨hLe, rest, hRest⟩ := ih hTail
        refine ⟨by omega, rest, ?_⟩
        have hSplit : offset - start =
            (bytes r').length + (offset - (start + (bytes r').length)) := by omega
        rw [layout_cons, hSplit, List.drop_length_add_append, hRest]

end Layout

/-! ## Scans -/

section Scan

variable {σ : Type w} {bytes : ρ → List α} {file : List α} {visit : σ → ρ → ℕ → σ}
  {step : ℕ × σ → Option (ℕ × σ)}

/-- A scan that goes from record to record visits all of them. -/
theorem runLoop_layout
    {records : List ρ} {offset fuel : ℕ} {s : σ}
    (hRecord : ∀ r ∈ records, ∀ offset rest s, file.drop offset = bytes r ++ rest →
      step (offset, s) = some (offset + (bytes r).length, visit s r offset))
    (hEnd : ∀ offset s, file.drop offset = [] → step (offset, s) = none)
    (hFile : file.drop offset = layout bytes records) (hFuel : records.length < fuel) :
    (runLoop step fuel (offset, s)).map Prod.snd =
      some ((placed bytes offset records).foldl (fun s p => visit s p.1 p.2) s) := by
  induction records generalizing offset fuel s with
  | nil =>
      obtain ⟨fuel, rfl⟩ := Nat.exists_eq_add_one.mpr hFuel
      rw [runLoop, hEnd offset s hFile]
      rfl
  | cons r records ih =>
      obtain ⟨fuel, rfl⟩ := Nat.exists_eq_add_one.mpr (Nat.zero_lt_of_lt hFuel)
      rw [layout_cons] at hFile
      rw [runLoop, hRecord r List.mem_cons_self offset _ s hFile]
      dsimp only
      have hRest : file.drop (offset + (bytes r).length) = layout bytes records := by
        rw [← List.drop_drop, hFile, List.drop_left]
      rw [ih (fun r' hr' => hRecord r' (List.mem_cons_of_mem _ hr')) hRest
        (Nat.lt_of_succ_lt_succ hFuel)]
      rfl

end Scan

/-! ## Indices -/

section Index

variable {κ : Type w} {τ : Type x} [DecidableEq κ] (bytes : ρ → List α) (key : ρ → κ)
  (entry : ρ → ℕ → τ)

/-- The entries of the records, the later ones inserted after the earlier ones. -/
def indexed (records : List ρ) : Table κ τ :=
  (placed bytes 0 records).foldl (fun t p => t.insert (key p.1) (entry p.1 p.2)) ∅

variable {bytes key entry} {records : List ρ}

theorem indexed_concat (r : ρ) :
    indexed bytes key entry (records ++ [r]) =
      (indexed bytes key entry records).insert (key r)
        (entry r (layout bytes records).length) := by
  rw [indexed, placed_concat, List.foldl_append, Nat.zero_add]
  rfl

theorem lookup_indexed_of_placed
    (hNodup : (records.map key).Nodup) {r : ρ} {offset : ℕ}
    (h : (r, offset) ∈ placed bytes 0 records) :
    (indexed bytes key entry records).lookup (key r) = some (entry r offset) := by
  have hKeys : ((placed bytes 0 records).map fun p => key p.1).Nodup := by
    rw [← map_fst_placed bytes 0 records, List.map_map] at hNodup
    exact hNodup
  exact Table.lookup_foldl_insert_of_mem _ _ (∅ : Table κ τ) hKeys h

theorem mem_indexed {k : κ} : k ∈ indexed bytes key entry records ↔ k ∈ records.map key := by
  induction records using List.reverseRecOn with
  | nil =>
      rw [List.map_nil]
      exact iff_of_false (AList.notMem_empty k) List.not_mem_nil
  | append_singleton records r ih =>
      rw [indexed_concat, AList.mem_insert, ih, List.map_append, List.mem_append, or_comm]
      simp

/-- What the index has is the entry of a record. -/
theorem placed_of_lookup_indexed
    (hNodup : (records.map key).Nodup) {k : κ} {t : τ}
    (h : (indexed bytes key entry records).lookup k = some t) :
    ∃ r offset, (r, offset) ∈ placed bytes 0 records ∧ key r = k ∧ entry r offset = t := by
  have hMem : k ∈ records.map key := mem_indexed.mp (Table.mem_iff_lookup.mpr ⟨t, h⟩)
  rw [← map_fst_placed bytes 0 records, List.map_map] at hMem
  obtain ⟨⟨r, offset⟩, hPlaced, rfl⟩ := List.mem_map.mp hMem
  have hFound : (indexed bytes key entry records).lookup (key r) = some (entry r offset) :=
    lookup_indexed_of_placed hNodup hPlaced
  exact ⟨r, offset, hPlaced, rfl, Option.some.inj (hFound.symm.trans h)⟩

end Index

end Support
