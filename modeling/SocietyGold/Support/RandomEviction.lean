import Mathlib.Data.Finset.Sort
import SocietyGold.Support.WhileLoop

/-!
# Making room in an ordered set

A bounded set makes room by dropping, as long as it has too many elements, the first
element from a random key on, or the first one of all when there is none.  Whatever the
keys, every round drops an element, and the loop ends within as many rounds.
-/

namespace Support

universe u

variable {α : Type u} [LinearOrder α]

/-- The first element that is not below the key, or else the first one. -/
def elementFrom (s : Finset α) (k : α) : Option α :=
  (s.sort.find? fun x => ¬x < k).or s.sort.head?

/-- A round of the loop that makes room; the keys come one after the other. -/
def evictRound (keys : ℕ → α) (limit : ℤ) (state : Finset α × ℕ) : Option (Finset α × ℕ) :=
  if state.1.card > limit then
    (elementFrom state.1 (keys state.2)).map fun x => (state.1.erase x, state.2 + 1)
  else none

theorem mem_of_elementFrom
    {s : Finset α} {k x : α} (h : elementFrom s k = some x) : x ∈ s := by
  apply (Finset.mem_sort (· ≤ ·)).mp
  unfold elementFrom at h
  rcases Option.or_eq_some_iff.mp h with hFound | ⟨-, hFirst⟩
  · exact List.mem_of_find?_eq_some hFound
  · exact List.mem_of_mem_head? hFirst

theorem exists_elementFrom
    {s : Finset α} (h : s.Nonempty) (k : α) : ∃ x, elementFrom s k = some x := by
  have hSort : s.sort ≠ [] := by
    intro hNone
    obtain ⟨x, hMem⟩ := h
    rw [← Finset.mem_sort (· ≤ ·), hNone] at hMem
    cases hMem
  have hFirst : s.sort.head? = some (s.sort.head hSort) := List.head?_eq_some_head hSort
  unfold elementFrom
  rw [hFirst]
  cases (s.sort.find? fun x => ¬x < k) with
  | none => exact ⟨_, rfl⟩
  | some x => exact ⟨x, rfl⟩

/-- A round drops one element. -/
theorem evictRound_cases
    {keys : ℕ → α} {limit : ℤ} {s s' : Finset α} {i i' : ℕ}
    (h : evictRound keys limit (s, i) = some (s', i')) :
    s' ⊆ s ∧ s'.card + 1 = s.card := by
  unfold evictRound at h
  split_ifs at h
  obtain ⟨x, hFound, hNext⟩ := Option.map_eq_some_iff.mp h
  obtain ⟨rfl, rfl⟩ := Prod.mk.inj hNext
  exact ⟨Finset.erase_subset _ _, Finset.card_erase_add_one (mem_of_elementFrom hFound)⟩

/-- The loop stops only when there is room. -/
theorem card_le_of_evictRound_eq_none
    {keys : ℕ → α} {limit : ℤ} {s : Finset α} {i : ℕ} (hLimit : 0 ≤ limit)
    (h : evictRound keys limit (s, i) = none) : s.card ≤ limit := by
  by_contra hFull
  have hNonempty : s.Nonempty := by
    rw [← Finset.card_pos]
    omega
  obtain ⟨x, hFound⟩ := exists_elementFrom hNonempty (keys i)
  rw [evictRound, if_pos (by dsimp only; omega), hFound] at h
  cases h

/-- Whatever the keys, the loop ends; what it leaves are some of the elements, no more
than the limit. -/
theorem runLoop_evictRound
    (keys : ℕ → α) {limit : ℤ} (hLimit : 0 ≤ limit) (s : Finset α) (i : ℕ) {fuel : ℕ}
    (hFuel : s.card < fuel) :
    ∃ s' i', runLoop (evictRound keys limit) fuel (s, i) = some (s', i') ∧ s' ⊆ s ∧
      s'.card ≤ limit := by
  induction fuel generalizing s i with
  | zero => exact absurd hFuel (Nat.not_lt_zero _)
  | succ fuel ih =>
      rw [runLoop]
      cases hRound : evictRound keys limit (s, i) with
      | none =>
          exact ⟨s, i, rfl, Finset.Subset.refl s, card_le_of_evictRound_eq_none hLimit hRound⟩
      | some next =>
          obtain ⟨t, j⟩ := next
          obtain ⟨hSubset, hCard⟩ := evictRound_cases hRound
          obtain ⟨s', i', hRun, hLeft, hRoom⟩ := ih t j (by omega)
          exact ⟨s', i', hRun, hLeft.trans hSubset, hRoom⟩

end Support
