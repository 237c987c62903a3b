import Mathlib.Data.Fintype.Basic
import Mathlib.Data.Finset.Card
import Mathlib.Data.Finset.Sort
import Mathlib.Data.List.FinRange
import Mathlib.Tactic

/-!
# Occupancy of buckets

A family of finite sets, the buckets, and for each element the set of the buckets that
hold it.  Putting an element into a bucket, or taking it out, changes the holders of
this element by that bucket and nothing else.  In a walk through all buckets an element
is met once for each of its holders.
-/

namespace Support

universe u v

variable {ι : Type u} {κ : Type v} [DecidableEq ι] [DecidableEq κ]

/-- Take an element out of one bucket. -/
def takeFrom (buckets : ι → Finset κ) (i : ι) (k : κ) : ι → Finset κ :=
  Function.update buckets i ((buckets i).erase k)

/-- Put an element into one bucket. -/
def putInto (buckets : ι → Finset κ) (i : ι) (k : κ) : ι → Finset κ :=
  Function.update buckets i (insert k (buckets i))

@[simp] theorem mem_takeFrom {buckets : ι → Finset κ} {i j : ι} {k x : κ} :
    x ∈ takeFrom buckets i k j ↔ x ∈ buckets j ∧ ¬(j = i ∧ x = k) := by
  by_cases h : j = i
  · subst h
    simp [takeFrom, and_comm]
  · simp [takeFrom, h]

@[simp] theorem mem_putInto {buckets : ι → Finset κ} {i j : ι} {k x : κ} :
    x ∈ putInto buckets i k j ↔ x ∈ buckets j ∨ j = i ∧ x = k := by
  by_cases h : j = i
  · subst h
    simp [putInto, or_comm]
  · simp [putInto, h]

theorem card_takeFrom_le (buckets : ι → Finset κ) (i j : ι) (k : κ) :
    (takeFrom buckets i k j).card ≤ (buckets j).card :=
  Finset.card_le_card fun _ hx => (mem_takeFrom.mp hx).1

theorem card_putInto_of_ne
    {buckets : ι → Finset κ} {i j : ι} {k : κ} (h : j ≠ i) :
    (putInto buckets i k j).card = (buckets j).card := by
  simp [putInto, h]

theorem card_putInto_self_le (buckets : ι → Finset κ) (i : ι) (k : κ) :
    (putInto buckets i k i).card ≤ (buckets i).card + 1 := by
  simp only [putInto, Function.update_self]
  exact Finset.card_insert_le k (buckets i)

theorem card_takeFrom_self
    {buckets : ι → Finset κ} {i : ι} {k : κ} (h : k ∈ buckets i) :
    (takeFrom buckets i k i).card + 1 = (buckets i).card := by
  simp only [takeFrom, Function.update_self]
  exact Finset.card_erase_add_one h

/-! ## Holders -/

variable [Fintype ι]

/-- The buckets that hold an element. -/
def holders (buckets : ι → Finset κ) (k : κ) : Finset ι :=
  Finset.univ.filter fun i => k ∈ buckets i

omit [DecidableEq ι] in
@[simp] theorem mem_holders {buckets : ι → Finset κ} {k : κ} {i : ι} :
    i ∈ holders buckets k ↔ k ∈ buckets i := by
  simp [holders]

omit [DecidableEq ι] in
theorem holders_congr
    {buckets buckets' : ι → Finset κ} {k : κ} (h : ∀ i, k ∈ buckets i ↔ k ∈ buckets' i) :
    holders buckets k = holders buckets' k := by
  ext i
  rw [mem_holders, mem_holders, h i]

theorem holders_takeFrom_of_ne
    {buckets : ι → Finset κ} {i : ι} {k x : κ} (h : x ≠ k) :
    holders (takeFrom buckets i k) x = holders buckets x :=
  holders_congr fun j => by simp [h]

theorem holders_putInto_of_ne
    {buckets : ι → Finset κ} {i : ι} {k x : κ} (h : x ≠ k) :
    holders (putInto buckets i k) x = holders buckets x :=
  holders_congr fun j => by simp [h]

theorem card_holders_takeFrom_self
    {buckets : ι → Finset κ} {i : ι} {k : κ} (h : k ∈ buckets i) :
    (holders (takeFrom buckets i k) k).card + 1 = (holders buckets k).card := by
  have hErase : holders (takeFrom buckets i k) k = (holders buckets k).erase i := by
    ext j
    simp [and_comm]
  rw [hErase, Finset.card_erase_add_one (mem_holders.mpr h)]

theorem card_holders_putInto_self
    {buckets : ι → Finset κ} {i : ι} {k : κ} (h : k ∉ buckets i) :
    (holders (putInto buckets i k) k).card = (holders buckets k).card + 1 := by
  have hInsert : holders (putInto buckets i k) k = insert i (holders buckets k) := by
    ext j
    simp [or_comm]
  rw [hInsert, Finset.card_insert_of_notMem (by simpa using h)]

omit [DecidableEq ι] in
theorem holders_eq_empty
    {buckets : ι → Finset κ} {k : κ} (h : ∀ i, k ∉ buckets i) : holders buckets k = ∅ := by
  ext i
  simp [h i]

/-! ## Other numbers of buckets -/

/-- A family with another number of buckets: those that both have, and empty ones. -/
def resized {n m : ℕ} (buckets : Fin n → Finset κ) (j : Fin m) : Finset κ :=
  if h : j.val < n then buckets ⟨j.val, h⟩ else ∅

omit [DecidableEq κ] in
theorem resized_castLE {n m : ℕ} (h : n ≤ m) (buckets : Fin n → Finset κ) (i : Fin n) :
    resized buckets (Fin.castLE h i) = buckets i := dif_pos i.isLt

omit [DecidableEq κ] in
theorem mem_resized {n m : ℕ} {buckets : Fin n → Finset κ} {j : Fin m} {k : κ} :
    k ∈ resized buckets j ↔ ∃ h : j.val < n, k ∈ buckets ⟨j.val, h⟩ := by
  unfold resized
  split_ifs with h
  · exact ⟨fun hMem => ⟨h, hMem⟩, fun ⟨_, hMem⟩ => hMem⟩
  · exact ⟨fun hMem => absurd hMem (Finset.notMem_empty k), fun ⟨h', _⟩ => absurd h' h⟩

/-- More buckets do not change how many hold an element. -/
theorem card_holders_resized
    {n m : ℕ} (h : n ≤ m) (buckets : Fin n → Finset κ) (k : κ) :
    (holders (resized buckets : Fin m → Finset κ) k).card = (holders buckets k).card := by
  have hMap : holders (resized buckets : Fin m → Finset κ) k =
      (holders buckets k).map (Fin.castLEEmb h) := by
    ext j
    rw [mem_holders, mem_resized, Finset.mem_map]
    constructor
    · rintro ⟨hLt, hMem⟩
      exact ⟨⟨j.val, hLt⟩, mem_holders.mpr hMem, rfl⟩
    · rintro ⟨i, hMem, rfl⟩
      exact ⟨i.isLt, mem_holders.mp hMem⟩
  rw [hMap, Finset.card_map]

/-- A bucket that holds the positions of some elements of a list. -/
theorem card_positions
    {α : Type*} {xs : List α} {p : α → Bool} {bucket : Finset ℕ}
    (h : ∀ n, n ∈ bucket ↔ ∃ x, xs[n]? = some x ∧ p x = true) : bucket.card = xs.countP p := by
  have hBucket : bucket = ((xs.zipIdx.filter fun e => p e.1).map Prod.snd).toFinset := by
    ext n
    rw [h, List.mem_toFinset, List.mem_map]
    constructor
    · rintro ⟨x, hAt, hIs⟩
      exact ⟨(x, n), List.mem_filter.mpr ⟨List.mem_zipIdx_iff_getElem?.mpr hAt, hIs⟩, rfl⟩
    · rintro ⟨⟨x, n⟩, hMem, rfl⟩
      obtain ⟨hIn, hIs⟩ := List.mem_filter.mp hMem
      exact ⟨x, List.mem_zipIdx_iff_getElem?.mp hIn, hIs⟩
  have hNodup : ((xs.zipIdx.filter fun e => p e.1).map Prod.snd).Nodup := by
    refine List.Nodup.sublist (List.filter_sublist.map _) ?_
    rw [List.zipIdx_map_snd]
    exact List.nodup_range'
  rw [hBucket, List.toFinset_card_of_nodup hNodup, List.length_map, ← List.countP_eq_length_filter]
  conv_rhs => rw [← List.zipIdx_map_fst 0 xs, List.countP_map]
  rfl

/-! ## Walking through the buckets -/

omit [DecidableEq ι] [Fintype ι] in
/-- In a walk through all buckets an element is met once for each holder. -/
theorem count_walk
    {n : ℕ} {κ : Type v} [LinearOrder κ] (buckets : Fin n → Finset κ) (k : κ) :
    ((List.finRange n).flatMap fun i => (buckets i).sort (· ≤ ·)).count k =
      (holders buckets k).card := by
  have hCount : ∀ i, ((buckets i).sort (· ≤ ·)).count k = if k ∈ buckets i then 1 else 0 := by
    intro i
    by_cases h : k ∈ buckets i
    · rw [if_pos h]
      exact List.count_eq_one_of_mem (Finset.sort_nodup _ _) ((Finset.mem_sort _).mpr h)
    · rw [if_neg h]
      exact List.count_eq_zero_of_not_mem fun hMem => h ((Finset.mem_sort _).mp hMem)
  rw [List.count_flatMap, holders, Finset.card_filter, Fin.sum_univ_def]
  congr 1
  exact List.map_congr_left fun i _ => hCount i

end Support
