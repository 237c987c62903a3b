import Mathlib.Data.List.Forall2
import Mathlib.Data.List.NodupEquivFin
import Mathlib.Tactic.Common
import Mathlib.Algebra.Order.BigOperators.Group.List
import Mathlib.Data.List.Count
import Mathlib.Data.List.Perm.Subperm

/-!
# Matching one list into another, in order

`List.SublistForall₂ R l₁ l₂` says that the elements of `l₁` can be matched, in
order, with elements of `l₂` they are related to.  Matching greedily loses
nothing: the first element may take the first partner it meets.
-/

namespace Support

open List

variable {α β : Type} {R : α → β → Prop}

theorem sublistForall₂_length_le
    {l₁ : List α} {l₂ : List β} (h : SublistForall₂ R l₁ l₂) : l₁.length ≤ l₂.length := by
  obtain ⟨l, hRel, hSub⟩ := sublistForall₂_iff.mp h
  calc l₁.length = l.length := hRel.length_eq
    _ ≤ l₂.length := hSub.length_le

theorem sublistForall₂_of_cons
    {a : α} {l₁ : List α} {l₂ : List β} (h : SublistForall₂ R (a :: l₁) l₂) :
    SublistForall₂ R l₁ l₂ := by
  generalize hWhole : a :: l₁ = l at h
  induction h with
  | nil => exact absurd hWhole (cons_ne_nil a l₁)
  | cons _ hRest _ =>
      obtain ⟨-, rfl⟩ := List.cons.inj hWhole
      exact SublistForall₂.cons_right hRest
  | cons_right _ ih => exact SublistForall₂.cons_right (ih hWhole)

/-- A partner met first may be taken. -/
theorem sublistForall₂_cons_of_rel
    {a : α} {b : β} {l₁ : List α} {l₂ : List β} (hR : R a b) :
    SublistForall₂ R (a :: l₁) (b :: l₂) ↔ SublistForall₂ R l₁ l₂ := by
  constructor
  · intro h
    cases h with
    | cons _ hRest => exact hRest
    | cons_right hRest => exact sublistForall₂_of_cons hRest
  · exact SublistForall₂.cons hR

/-- One that is no partner has to be passed over. -/
theorem sublistForall₂_cons_of_not_rel
    {a : α} {b : β} {l₁ : List α} {l₂ : List β} (hR : ¬ R a b) :
    SublistForall₂ R (a :: l₁) (b :: l₂) ↔ SublistForall₂ R (a :: l₁) l₂ := by
  constructor
  · intro h
    cases h with
    | cons hRel _ => exact absurd hRel hR
    | cons_right hRest => exact hRest
  · exact SublistForall₂.cons_right

theorem not_sublistForall₂_cons_nil
    {a : α} {l₁ : List α} : ¬ SublistForall₂ R (a :: l₁) ([] : List β) := by
  intro h
  cases h

theorem sublistForall₂_reverse
    {l₁ : List α} {l₂ : List β} (h : SublistForall₂ R l₁ l₂) :
    SublistForall₂ R l₁.reverse l₂.reverse := by
  obtain ⟨l, hRel, hSub⟩ := sublistForall₂_iff.mp h
  exact sublistForall₂_iff.mpr ⟨l.reverse, forall₂_reverse_iff.mpr hRel, hSub.reverse⟩

/-- What a partial function selects from a list matches the list. -/
theorem sublistForall₂_take_filterMap
    {f : β → Option α} (n : ℕ) (l : List β) (hR : ∀ b ∈ l, ∀ a, f b = some a → R a b) :
    SublistForall₂ R ((l.filterMap f).take n) l := by
  induction l generalizing n with
  | nil =>
      rw [filterMap_nil, take_nil]
      exact SublistForall₂.nil
  | cons b l ih =>
      have hTail : ∀ b ∈ l, ∀ a, f b = some a → R a b := fun b hb => hR b (mem_cons_of_mem _ hb)
      cases hf : f b with
      | none =>
          rw [filterMap_cons_none hf]
          exact SublistForall₂.cons_right (ih n hTail)
      | some a =>
          rw [filterMap_cons_some hf]
          cases n with
          | zero =>
              rw [take_zero]
              exact SublistForall₂.nil
          | succ n =>
              rw [take_succ_cons]
              exact SublistForall₂.cons (hR b mem_cons_self a hf) (ih n hTail)

/-- By positions, a matching in order is a strictly increasing map. -/
theorem sublistForall₂_iff_exists_strictMono
    {l₁ : List α} {l₂ : List β} :
    SublistForall₂ R l₁ l₂ ↔
      ∃ f : Fin l₁.length → Fin l₂.length, StrictMono f ∧
        ∀ i, R (l₁.get i) (l₂.get (f i)) := by
  rw [sublistForall₂_iff]
  constructor
  · rintro ⟨l, hRel, hSub⟩
    obtain ⟨f, hf⟩ := sublist_iff_exists_fin_orderEmbedding_get_eq.mp hSub
    refine ⟨fun i => f (i.cast hRel.length_eq), ?_, ?_⟩
    · intro i j hij
      exact f.strictMono (by simpa using hij)
    · intro i
      rw [← hf]
      exact hRel.get i.isLt (hRel.length_eq ▸ i.isLt)
  · rintro ⟨f, hMono, hf⟩
    refine ⟨ofFn fun i => l₂.get (f i), ?_, ?_⟩
    · rw [forall₂_iff_get]
      refine ⟨(length_ofFn).symm, ?_⟩
      intro i h₁ h₂
      simpa using hf ⟨i, h₁⟩
    · rw [sublist_iff_exists_fin_orderEmbedding_get_eq]
      refine ⟨OrderEmbedding.ofStrictMono (fun i => f (i.cast length_ofFn)) ?_, ?_⟩
      · intro i j hij
        exact hMono (by simpa using hij)
      · intro i
        rw [get_ofFn]
        rfl

/-! ## Matching two lists of one length -/

theorem exists_right_of_forall₂
    {l₁ : List α} {l₂ : List β} (h : Forall₂ R l₁ l₂) {a : α} (hMem : a ∈ l₁) :
    ∃ b ∈ l₂, R a b := by
  induction h with
  | nil => cases hMem
  | cons hHead _ ih =>
      rcases mem_cons.mp hMem with rfl | hTail
      · exact ⟨_, mem_cons_self, hHead⟩
      · obtain ⟨b, hb, hR⟩ := ih hTail
        exact ⟨b, mem_cons_of_mem _ hb, hR⟩

theorem exists_right_of_sublistForall₂
    {l₁ : List α} {l₂ : List β} (h : SublistForall₂ R l₁ l₂) {a : α} (hMem : a ∈ l₁) :
    ∃ b ∈ l₂, R a b := by
  obtain ⟨l, hRel, hSub⟩ := sublistForall₂_iff.mp h
  obtain ⟨b, hb, hR⟩ := exists_right_of_forall₂ hRel hMem
  exact ⟨b, hSub.subset hb, hR⟩

theorem exists_left_of_forall₂
    {l₁ : List α} {l₂ : List β} (h : Forall₂ R l₁ l₂) {b : β} (hMem : b ∈ l₂) :
    ∃ a ∈ l₁, R a b :=
  exists_right_of_forall₂ h.flip hMem

end Support

/-!
# Coincidences of two lists

A check that compares each element of one list with each of another meets an element of the
first once for every partner it has.  Distinct elements that have a partner are all among these
coincidences, and elements that dominate others with the same total are the same.
-/

namespace Support

open List

variable {α β : Type*}

/-- Each element of the pool, once for every partner it has. -/
def coincidences (R : β → α → Bool) (pool : List β) (owed : List α) : List β :=
  pool.flatMap fun b => (owed.filter (R b)).map fun _ => b

section Count

variable [DecidableEq β] {R : β → α → Bool} {pool paid : List β} {owed : List α}

theorem count_coincidences (x : β) :
    (coincidences R pool owed).count x = pool.count x * owed.countP (R x) := by
  unfold coincidences
  induction pool with
  | nil => simp
  | cons b pool ih =>
      rw [flatMap_cons, count_append, ih, count_cons]
      by_cases hSame : b = x
      · rw [hSame, map_const', count_replicate_self, countP_eq_length_filter]
        simp [Nat.add_mul, Nat.add_comm]
      · have hNone : ((owed.filter (R b)).map fun _ => b).count x = 0 := by
          rw [map_const', count_replicate, if_neg (by simpa using hSame)]
        rw [hNone]
        simp [hSame]

/-- Elements of the pool that have partners are among the coincidences. -/
theorem subperm_coincidences
    (hPaid : paid <+~ pool) (hPartner : ∀ b ∈ paid, ∃ a ∈ owed, R b a = true) :
    paid <+~ coincidences R pool owed := by
  rw [subperm_ext_iff]
  intro b hMem
  rw [count_coincidences]
  have hCount := hPaid.count_le b
  obtain ⟨a, hOwed, hR⟩ := hPartner b hMem
  have hPos : 0 < owed.countP (R b) := countP_pos_iff.mpr ⟨a, hOwed, hR⟩
  calc paid.count b ≤ pool.count b := hCount
    _ = pool.count b * 1 := (Nat.mul_one _).symm
    _ ≤ pool.count b * owed.countP (R b) := Nat.mul_le_mul_left _ hPos

end Count

/-- Lists of amounts with the same total, one of which dominates the other, are equal. -/
theorem eq_of_forall₂_le_of_sum_le
    {M : Type*} [AddCommMonoid M] [PartialOrder M] [IsOrderedCancelAddMonoid M] {xs ys : List M}
    (h : Forall₂ (· ≤ ·) xs ys) (hSum : ys.sum ≤ xs.sum) : xs = ys := by
  induction h with
  | nil => rfl
  | @cons x y xs ys hHead hRest ih =>
      rw [sum_cons, sum_cons] at hSum
      have hTail : ys.sum ≤ xs.sum := by
        apply le_of_add_le_add_left (a := x)
        calc x + ys.sum ≤ y + ys.sum := by gcongr
          _ ≤ x + xs.sum := hSum
      obtain rfl := ih hTail
      obtain rfl : x = y := le_antisymm hHead (le_of_add_le_add_right hSum)
      rfl

end Support
