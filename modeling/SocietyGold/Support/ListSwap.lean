import Mathlib.Data.List.Basic
import Mathlib.Data.List.Nodup
import Mathlib.Data.List.Perm.Basic
import Mathlib.GroupTheory.Perm.Basic
import Mathlib.Tactic

/-!
# Exchanging two elements of a list

What a swap of two positions leaves at each position, and that it only permutes the
list.  A list without duplicates keeps that, and so does the list without its last
element after some position has been swapped to the end.
-/

namespace Support

universe u

variable {α : Type u}

/-- Exchange the elements at two positions; out of range nothing happens. -/
def swapAt (l : List α) (i j : ℕ) : List α :=
  match l[i]?, l[j]? with
  | some a, some b => (l.set i b).set j a
  | _, _ => l

theorem swapAt_eq {l : List α} {i j : ℕ} {a b : α} (hI : l[i]? = some a) (hJ : l[j]? = some b) :
    swapAt l i j = (l.set i b).set j a := by
  rw [swapAt, hI, hJ]

@[simp] theorem length_swapAt (l : List α) (i j : ℕ) : (swapAt l i j).length = l.length := by
  unfold swapAt
  split <;> simp

theorem swapAt_perm (l : List α) (i j : ℕ) : (swapAt l i j).Perm l := by
  unfold swapAt
  split
  · rename_i a b hI hJ
    obtain ⟨hLtI, rfl⟩ := List.getElem?_eq_some_iff.mp hI
    obtain ⟨hLtJ, rfl⟩ := List.getElem?_eq_some_iff.mp hJ
    exact List.set_set_perm hLtI hLtJ
  · exact List.Perm.refl l

@[simp] theorem swapAt_self (l : List α) (i : ℕ) : swapAt l i i = l := by
  unfold swapAt
  split
  · rename_i a b hI hJ
    obtain ⟨hLt, rfl⟩ := List.getElem?_eq_some_iff.mp hI
    obtain rfl : l[i] = b := Option.some.inj (hI.symm.trans hJ)
    simp
  · rfl

theorem getElem?_swapAt
    {l : List α} {i j : ℕ} (hI : i < l.length) (hJ : j < l.length) (k : ℕ) :
    (swapAt l i j)[k]? = if k = j then l[i]? else if k = i then l[j]? else l[k]? := by
  rw [swapAt_eq (List.getElem?_eq_getElem hI) (List.getElem?_eq_getElem hJ)]
  by_cases hKJ : k = j
  · subst hKJ
    rw [if_pos rfl, List.getElem?_set_self (by simpa using hJ), List.getElem?_eq_getElem hI]
  · rw [if_neg hKJ, List.getElem?_set_ne (Ne.symm hKJ)]
    by_cases hKI : k = i
    · subst hKI
      rw [if_pos rfl, List.getElem?_set_self hI, List.getElem?_eq_getElem hJ]
    · rw [if_neg hKI, List.getElem?_set_ne (Ne.symm hKI)]

/-- What is left when the last element is taken off. -/
theorem getElem?_dropLast_eq_some
    {l : List α} {k : ℕ} {a : α} :
    l.dropLast[k]? = some a ↔ l[k]? = some a ∧ k + 1 < l.length := by
  rw [List.getElem?_dropLast]
  split_ifs with h
  · constructor
    · intro hGet
      exact ⟨hGet, by omega⟩
    · exact fun hGet => hGet.1
  · constructor
    · intro hGet
      cases hGet
    · rintro ⟨-, hLt⟩
      omega

/-- Without its last element a list without duplicates has all others. -/
theorem mem_dropLast_iff
    {l : List α} {last : α} (hNodup : l.Nodup) (hLast : l.getLast? = some last) {a : α} :
    a ∈ l.dropLast ↔ a ∈ l ∧ a ≠ last := by
  obtain ⟨before, rfl⟩ := List.getLast?_eq_some_iff.mp hLast
  rw [List.dropLast_concat, List.mem_append, List.mem_singleton]
  rw [List.nodup_append] at hNodup
  constructor
  · intro hMem
    exact ⟨Or.inl hMem, hNodup.2.2 a hMem last (by simp)⟩
  · rintro ⟨hMem | hEq, hNe⟩
    · exact hMem
    · exact absurd hEq hNe

/-- Overwriting an element of a list without duplicates replaces this element only. -/
theorem mem_set_iff
    {l : List α} {i : ℕ} {old new a : α} (hNodup : l.Nodup) (hOld : l[i]? = some old) :
    a ∈ l.set i new ↔ a = new ∨ a ∈ l ∧ a ≠ old := by
  obtain ⟨hLt, hGet⟩ := List.getElem?_eq_some_iff.mp hOld
  have hPerm : (old :: l.eraseIdx i).Perm l := by
    rw [← hGet]
    exact List.getElem_cons_eraseIdx_perm hLt
  have hFresh : old ∉ l.eraseIdx i := (List.nodup_cons.mp (hPerm.nodup_iff.mpr hNodup)).1
  rw [(List.set_perm_cons_eraseIdx hLt new).mem_iff, ← hPerm.mem_iff, List.mem_cons,
    List.mem_cons]
  constructor
  · rintro (hNew | hMem)
    · exact Or.inl hNew
    · refine Or.inr ⟨Or.inr hMem, ?_⟩
      rintro rfl
      exact hFresh hMem
  · rintro (hNew | ⟨hOld | hMem, hNe⟩)
    · exact Or.inl hNew
    · exact absurd hOld hNe
    · exact Or.inr hMem

end Support

/-!
# Drawing elements to the front of a list

The start of a shuffle: round `i` draws a position that is not before `i` and exchanges the
element there with the one at position `i`.  What stands where after some rounds depends on
the drawn positions only: a permutation of the positions says from where in the first list an
element comes.  The elements that were drawn stay at the front, in the order of their rounds.

The second part is about a loop that keeps the first index with the least value.
-/

namespace Support

universe u v

section Rounds

variable {α : Type u} (pos : ℕ → ℕ)

/-- The list after so many rounds. -/
def drawFront : ℕ → List α → List α
  | 0, l => l
  | i + 1, l => swapAt (drawFront i l) i (pos i)

/-- The position in the first list of what stands at a position after so many rounds. -/
def drawOrder : ℕ → Equiv.Perm ℕ
  | 0 => 1
  | i + 1 => drawOrder i * Equiv.swap i (pos i)

theorem drawFront_perm (rounds : ℕ) (l : List α) : (drawFront pos rounds l).Perm l := by
  induction rounds with
  | zero => exact List.Perm.refl l
  | succ i ih => exact (swapAt_perm _ _ _).trans ih

@[simp] theorem length_drawFront (rounds : ℕ) (l : List α) :
    (drawFront pos rounds l).length = l.length :=
  (drawFront_perm pos rounds l).length_eq

variable {pos}

theorem drawOrder_succ (i x : ℕ) :
    drawOrder pos (i + 1) x =
      if x = pos i then drawOrder pos i i
      else if x = i then drawOrder pos i (pos i) else drawOrder pos i x := by
  rw [drawOrder, Equiv.Perm.mul_apply, Equiv.swap_apply_def]
  by_cases hPos : x = pos i
  · rw [if_pos hPos]
    by_cases hSelf : x = i
    · rw [if_pos hSelf, ← hPos, hSelf, if_pos rfl]
    · rw [if_neg hSelf, if_pos hPos]
  · rw [if_neg hPos]
    by_cases hSelf : x = i
    · rw [if_pos hSelf, if_neg hPos, if_pos hSelf]
    · rw [if_neg hSelf, if_neg hPos, if_neg hSelf]

theorem drawOrder_succ_self (i : ℕ) : drawOrder pos (i + 1) i = drawOrder pos i (pos i) := by
  rw [drawOrder, Equiv.Perm.mul_apply, Equiv.swap_apply_left]

theorem getElem?_drawFront
    {rounds : ℕ} {l : List α} (hPos : ∀ i < rounds, pos i < l.length) (hRounds : rounds ≤ l.length)
    (x : ℕ) : (drawFront pos rounds l)[x]? = l[drawOrder pos rounds x]? := by
  induction rounds generalizing x with
  | zero => rfl
  | succ i ih =>
      have hBefore := ih (fun j hJ => hPos j (Nat.lt_succ_of_lt hJ)) (Nat.le_of_succ_le hRounds)
      rw [drawFront, getElem?_swapAt (by rw [length_drawFront]; omega)
        (by rw [length_drawFront]; exact hPos i (Nat.lt_succ_self i)), drawOrder_succ, hBefore,
        hBefore, hBefore]
      split_ifs with hDrawn hSelf
      · rfl
      · rfl
      · rfl

/-- What was drawn stays where it is. -/
theorem drawOrder_of_drawn
    (hLe : ∀ i, i ≤ pos i) {i rounds : ℕ} (h : i < rounds) :
    drawOrder pos rounds i = drawOrder pos (i + 1) i := by
  induction rounds with
  | zero => omega
  | succ j ih =>
      by_cases hLast : i = j
      · rw [hLast]
      · have hLater := hLe j
        rw [drawOrder_succ, if_neg (by omega), if_neg hLast]
        exact ih (by omega)

end Rounds

/-! ## The first index with the least value -/

section FirstLeast

variable {β : Type v} [LinearOrder β]

structure IsFirstLeast (f : ℕ → β) (k m : ℕ) : Prop where
  lt : m < k
  least : ∀ j < k, f m ≤ f j
  first : ∀ j < m, f m < f j

variable {f : ℕ → β} {k m m' : ℕ}

theorem isFirstLeast_one : IsFirstLeast f 1 0 where
  lt := Nat.one_pos
  least := fun j hJ => by rw [Nat.lt_one_iff.mp hJ]
  first := fun j hJ => absurd hJ (Nat.not_lt_zero j)

theorem IsFirstLeast.succ_of_lt (h : IsFirstLeast f k m) (hLess : f k < f m) :
    IsFirstLeast f (k + 1) k where
  lt := Nat.lt_succ_self k
  least := by
    intro j hJ
    rcases Nat.lt_succ_iff_lt_or_eq.mp hJ with hBefore | rfl
    · exact (hLess.trans_le (h.least j hBefore)).le
    · exact le_rfl
  first := fun j hJ => hLess.trans_le (h.least j hJ)

theorem IsFirstLeast.succ_of_not_lt (h : IsFirstLeast f k m) (hNot : ¬f k < f m) :
    IsFirstLeast f (k + 1) m where
  lt := Nat.lt_succ_of_lt h.lt
  least := by
    intro j hJ
    rcases Nat.lt_succ_iff_lt_or_eq.mp hJ with hBefore | rfl
    · exact h.least j hBefore
    · exact not_lt.mp hNot
  first := h.first

theorem IsFirstLeast.unique (h : IsFirstLeast f k m) (h' : IsFirstLeast f k m') : m = m' := by
  rcases lt_trichotomy m m' with hBefore | hSame | hAfter
  · exact absurd (h.least m' h'.lt) (not_le.mpr (h'.first m hBefore))
  · exact hSame
  · exact absurd (h'.least m h.lt) (not_le.mpr (h.first m' hAfter))

end FirstLeast

end Support
