import Mathlib.Data.Finset.Card
import Mathlib.Data.Set.Insert
import Mathlib.Logic.Relation
import Mathlib.Tactic
import Mathlib.Data.List.Sort

/-!
# Taking descendants away

A relation leads from an element to its children.  A removal takes elements out of a
set together with everything that is reached from them, some at a time.  It has taken
exactly these when the roots are gone, nothing else was taken, and what is left still
has its parents.
-/

namespace Support

universe u

section Rank

variable {α : Type u} {r : α → α → Prop}

/-- A relation on finitely many elements that does not go round in a circle has a rank
that grows along it: the number of ancestors. -/
theorem exists_rank_of_acyclic
    (s : Finset α) (hSource : ∀ a b, r a b → a ∈ s)
    (hAcyclic : ∀ a, ¬Relation.TransGen r a a) :
    ∃ rank : α → ℕ, ∀ a b, r a b → rank a < rank b := by
  classical
  refine ⟨fun b => (s.filter fun a => Relation.TransGen r a b).card, ?_⟩
  intro a b hChild
  apply Finset.card_lt_card
  rw [Finset.ssubset_iff_of_subset]
  · refine ⟨a, ?_, ?_⟩
    · exact Finset.mem_filter.mpr ⟨hSource a b hChild, .single hChild⟩
    · intro hSelf
      exact hAcyclic a (Finset.mem_filter.mp hSelf).2
  · intro c hAncestor
    obtain ⟨hMem, hReach⟩ := Finset.mem_filter.mp hAncestor
    exact Finset.mem_filter.mpr ⟨hMem, hReach.tail hChild⟩

end Rank

/-- What is left of a set still has its parents, and what is gone was reached from the
roots. -/
structure TakesAway {α : Type u} (r : α → α → Prop) (roots before after : Set α) : Prop where
  within : after ⊆ before
  parents : ∀ a b, r a b → b ∈ after → a ∈ after
  reached : ∀ b ∈ before, b ∉ after → ∃ a ∈ roots, Relation.ReflTransGen r a b

namespace TakesAway

variable {α : Type u} {r r' : α → α → Prop} {roots roots' before middle after : Set α} {a b : α}

theorem refl (hParents : ∀ a b, r a b → b ∈ before → a ∈ before) :
    TakesAway r roots before before := by
  refine ⟨Set.Subset.rfl, hParents, ?_⟩
  intro b hMem hGone
  exact absurd hMem hGone

/-- Two removals, the second among what the first has left. -/
theorem trans
    (h : TakesAway r roots before middle) (h' : TakesAway r' roots' middle after)
    (hRestrict : ∀ a b, r' a b ↔ r a b ∧ a ∈ middle ∧ b ∈ middle) :
    TakesAway r (roots ∪ roots') before after := by
  constructor
  · exact h'.within.trans h.within
  · intro a b hChild hb
    have hMiddle := h'.within hb
    have hParent := h.parents a b hChild hMiddle
    exact h'.parents a b ((hRestrict a b).mpr ⟨hChild, hParent, hMiddle⟩) hb
  · intro b hMem hGone
    by_cases hMiddle : b ∈ middle
    · obtain ⟨a, hRoot, hReach⟩ := h'.reached b hMiddle hGone
      have hWider : ∀ a b, r' a b → r a b := fun a b hChild => ((hRestrict a b).mp hChild).1
      exact ⟨a, Or.inr hRoot, Relation.ReflTransGen.mono hWider a b hReach⟩
    · obtain ⟨a, hRoot, hReach⟩ := h.reached b hMem hMiddle
      exact ⟨a, Or.inl hRoot, hReach⟩

/-- Roots that are reached from others may be replaced by these. -/
theorem of_roots
    (h : TakesAway r roots before after)
    (hRoots : ∀ a ∈ roots, ∃ c ∈ roots', Relation.ReflTransGen r c a) :
    TakesAway r roots' before after := by
  refine ⟨h.within, h.parents, ?_⟩
  intro b hMem hGone
  obtain ⟨a, hRoot, hReach⟩ := h.reached b hMem hGone
  obtain ⟨c, hRoot', hReach'⟩ := hRoots a hRoot
  exact ⟨c, hRoot', hReach'.trans hReach⟩

/-- An element without children among what is left goes last. -/
theorem erase
    (h : TakesAway r roots before middle) (hRoot : a ∈ roots)
    (hChildless : ∀ b ∈ middle, ¬r a b) : TakesAway r roots before (middle \ {a}) := by
  constructor
  · exact Set.sdiff_subset.trans h.within
  · intro c b hChild hb
    refine ⟨h.parents c b hChild hb.1, ?_⟩
    rintro rfl
    exact hChildless b hb.1 hChild
  · intro b hMem hGone
    by_cases hMiddle : b ∈ middle
    · obtain rfl : b = a := by
        by_contra hNe
        exact hGone ⟨hMiddle, hNe⟩
      exact ⟨b, hRoot, .refl⟩
    · exact h.reached b hMem hMiddle

/-- No descendant of an element that is gone is left. -/
theorem not_mem_of_reached
    (h : TakesAway r roots before after) (hGone : a ∉ after)
    (hReach : Relation.ReflTransGen r a b) : b ∉ after := by
  induction hReach with
  | refl => exact hGone
  | tail _ hChild ih => exact fun hb => ih (h.parents _ _ hChild hb)

/-- When the roots are gone, exactly they and their descendants are. -/
theorem mem_iff
    (h : TakesAway r roots before after) (hGone : ∀ a ∈ roots, a ∉ after) :
    b ∈ after ↔ b ∈ before ∧ ¬∃ a ∈ roots, Relation.ReflTransGen r a b := by
  constructor
  · intro hb
    refine ⟨h.within hb, ?_⟩
    rintro ⟨a, hRoot, hReach⟩
    exact h.not_mem_of_reached (hGone a hRoot) hReach hb
  · rintro ⟨hMem, hNot⟩
    by_contra hOut
    exact hNot (h.reached b hMem hOut)

end TakesAway

end Support

/-!
# Passes over a forest, parents first

A forest is given by the parent of each node, if it has one.  A pass visits the
nodes of a list one after the other; when each parent comes before its children,
a step may rely on what the pass has done for the parent.  Sorting by a height
that grows from parent to child gives such an order.
-/

namespace Support

universe u v w

section ParentOrder

variable {K : Type u} {H : Type v} {σ : Type w} [LinearOrder H] {parent : K → Option K}

/-- The parent of every listed node is done already or comes earlier in the list. -/
def ParentsFirst (parent : K → Option K) : Set K → List K → Prop
  | _, [] => True
  | done, k :: rest =>
      (∀ p, parent k = some p → p ∈ done) ∧ ParentsFirst parent (insert k done) rest

/-- In ascending order of a height that grows from parent to child, parents come first. -/
theorem parentsFirst_of_sorted
    (height : K → H) {done : Set K} {order : List K}
    (hSorted : order.Pairwise fun a b => height a ≤ height b)
    (hHeight : ∀ k ∈ order, ∀ p, parent k = some p → height p < height k)
    (hListed : ∀ k ∈ order, ∀ p, parent k = some p → p ∈ done ∨ p ∈ order) :
    ParentsFirst parent done order := by
  induction order generalizing done with
  | nil => trivial
  | cons k rest ih =>
      obtain ⟨hFirst, hRest⟩ := List.pairwise_cons.mp hSorted
      constructor
      · intro p hParent
        have hLower := hHeight k List.mem_cons_self p hParent
        rcases hListed k List.mem_cons_self p hParent with hDone | hMem
        · exact hDone
        · rcases List.mem_cons.mp hMem with rfl | hLater
          · exact absurd hLower (lt_irrefl _)
          · exact absurd hLower (not_lt.mpr (hFirst p hLater))
      · apply ih hRest
        · intro k' hk'
          exact hHeight k' (List.mem_cons_of_mem k hk')
        · intro k' hk' p hParent
          rcases hListed k' (List.mem_cons_of_mem k hk') p hParent with hDone | hMem
          · exact Or.inl (Set.mem_insert_of_mem k hDone)
          · rcases List.mem_cons.mp hMem with rfl | hLater
            · exact Or.inl (Set.mem_insert p done)
            · exact Or.inr hLater

/-- What a step establishes for a node whose parent is done, a pass establishes for the
whole list. -/
theorem ParentsFirst.foldl_invariant
    {I : Set K → σ → Prop} {step : σ → K → σ} {done : Set K} {order : List K} {s : σ}
    (hStep : ∀ done s, ∀ k ∈ order, (∀ p, parent k = some p → p ∈ done) → I done s →
      I (insert k done) (step s k))
    (h : ParentsFirst parent done order) (hStart : I done s) :
    I (done ∪ {k | k ∈ order}) (order.foldl step s) := by
  induction order generalizing done s with
  | nil => simpa using hStart
  | cons k rest ih =>
      obtain ⟨hParent, hRest⟩ := h
      have hNext : I (insert k done) (step s k) :=
        hStep done s k List.mem_cons_self hParent hStart
      have hAll := ih (fun done s k' hk' => hStep done s k' (List.mem_cons_of_mem k hk')) hRest
        hNext
      have hSame : insert k done ∪ {k' | k' ∈ rest} = done ∪ {k' | k' ∈ k :: rest} := by
        ext k'
        simp only [Set.mem_union, Set.mem_insert_iff, Set.mem_ofPred_eq, List.mem_cons]
        tauto
      rw [hSame] at hAll
      exact hAll

end ParentOrder

end Support
