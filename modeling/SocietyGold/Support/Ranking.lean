import Mathlib.Data.List.Basic
import Mathlib.Order.Defs.LinearOrder
import Mathlib.Tactic

/-!
# Ranks

The elements of a list in the order of their keys, the greatest first.  Where no two keys are
equal, the position of an element is the number of elements with a greater key, so it does
not depend on the order that the list had before it was sorted.
-/

namespace Support

section Ranking

variable {α : Type*} {β : Type*} [LinearOrder β] {key : α → β} {l sorted : List α}

/-- Sorted keys that differ are strictly sorted. -/
theorem pairwise_lt_of_sorted
    (hSorted : l.Pairwise fun first second => key second ≤ key first)
    (hNodup : (l.map key).Nodup) : l.Pairwise fun first second => key second < key first := by
  have hNe : l.Pairwise fun first second => key first ≠ key second :=
    List.pairwise_map.mp hNodup
  exact hSorted.imp₂ (fun first second hLe hNe => lt_of_le_of_ne hLe hNe.symm) hNe

/-- In a sorted list the greater keys are those in front. -/
theorem countP_eq_of_sorted
    (hSorted : l.Pairwise fun first second => key second < key first) {i : ℕ} {x : α}
    (h : l[i]? = some x) : l.countP (fun y => key x < key y) = i := by
  obtain ⟨hLt, hAt⟩ := List.getElem?_eq_some_iff.mp h
  have hSplit : l = l.take i ++ x :: l.drop (i + 1) := by
    rw [← hAt, List.cons_getElem_drop_succ, List.take_append_drop]
  rw [hSplit, List.pairwise_append, List.pairwise_cons] at hSorted
  obtain ⟨-, ⟨hBehind, -⟩, hFront⟩ := hSorted
  have hAll : (l.take i).countP (fun y => key x < key y) = (l.take i).length := by
    rw [List.countP_eq_length]
    intro y hMem
    exact decide_eq_true (hFront y hMem x List.mem_cons_self)
  have hNone : (x :: l.drop (i + 1)).countP (fun y => key x < key y) = 0 := by
    rw [List.countP_eq_zero]
    intro y hMem
    rw [decide_eq_true_eq, not_lt]
    rcases List.mem_cons.mp hMem with rfl | hMem
    · exact le_rfl
    · exact (hBehind y hMem).le
  rw [hSplit, List.countP_append, hAll, hNone, List.length_take, Nat.min_eq_left hLt.le,
    Nat.add_zero]

/-- An element of a list stands in the sorted one at the position that the number of greater
keys says. -/
theorem getElem?_sorted
    (hPerm : sorted.Perm l) (hSorted : sorted.Pairwise fun first second => key second ≤ key first)
    (hNodup : (l.map key).Nodup) {x : α} (hMem : x ∈ l) :
    sorted[l.countP fun y => key x < key y]? = some x := by
  have hStrict := pairwise_lt_of_sorted hSorted ((hPerm.map key).nodup_iff.mpr hNodup)
  obtain ⟨i, hAt⟩ := List.mem_iff_getElem?.mp (hPerm.mem_iff.mpr hMem)
  rw [← hPerm.countP_eq, countP_eq_of_sorted hStrict hAt, hAt]

/-- A search that only the element at a position passes finds the position. -/
theorem findIdx?_eq_some_of_unique
    {p : α → Bool} {i : ℕ} {x : α} (h : l[i]? = some x) (hPasses : p x = true)
    (hUnique : ∀ j y, l[j]? = some y → p y = true → j = i) : l.findIdx? p = some i := by
  obtain ⟨hLt, hAt⟩ := List.getElem?_eq_some_iff.mp h
  rw [List.findIdx?_eq_some_iff_getElem]
  refine ⟨hLt, by rw [hAt, hPasses], ?_⟩
  intro j hj hPass
  have hSame := hUnique j _ (List.getElem?_eq_getElem (hj.trans hLt)) hPass
  omega

end Ranking

end Support
