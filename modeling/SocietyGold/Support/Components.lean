import Mathlib.Data.Set.Lattice
import Mathlib.Data.Set.Pairwise.Basic
import Mathlib.Logic.Relation
import Mathlib.Order.CompletePartialOrder

/-!
# Connected components of a family of sets

Elements are linked when a chain of sets leads from one to the other, each set of the chain
sharing an element with the next.  A labelling tells the components apart.  When one more set
comes, its elements and all that have a label in common with one of them get a new label.
-/

namespace Support

universe u v

variable {α : Type u} {ι : Type v}

/-- Some set of the family has both elements. -/
def Shares (family : Set (Set α)) (a b : α) : Prop :=
  ∃ group ∈ family, a ∈ group ∧ b ∈ group

/-- A chain of sets leads from one element to the other. -/
def Linked (family : Set (Set α)) : α → α → Prop := Relation.TransGen (Shares family)

/-- The sets are disjoint, cover what the family covers, and each consists of elements that are
linked with each other and with no others. -/
structure AreComponents (family components : Set (Set α)) : Prop where
  nonempty : ∀ s ∈ components, s.Nonempty
  disjoint : components.PairwiseDisjoint id
  union : ⋃₀ components = ⋃₀ family
  same_iff : ∀ a b, (∃ s ∈ components, a ∈ s ∧ b ∈ s) ↔ Linked family a b

section Links

variable {family family' : Set (Set α)} {a b c : α}

theorem Shares.symm (h : Shares family a b) : Shares family b a := by
  obtain ⟨group, hGroup, ha, hb⟩ := h
  exact ⟨group, hGroup, hb, ha⟩

theorem Shares.mono (h : Shares family a b) (hSub : family ⊆ family') : Shares family' a b := by
  obtain ⟨group, hGroup, hMem⟩ := h
  exact ⟨group, hSub hGroup, hMem⟩

theorem Linked.of_shares (h : Shares family a b) : Linked family a b := Relation.TransGen.single h

theorem Linked.trans (h : Linked family a b) (h' : Linked family b c) : Linked family a c :=
  Relation.TransGen.trans h h'

theorem Linked.symm (h : Linked family a b) : Linked family b a := by
  induction h with
  | single h => exact Linked.of_shares h.symm
  | tail _ h ih => exact (Linked.of_shares h.symm).trans ih

theorem Linked.mono (h : Linked family a b) (hSub : family ⊆ family') : Linked family' a b :=
  Relation.TransGen.mono (fun _ _ hShares => Shares.mono hShares hSub) _ _ h

/-- What is linked at all is in some set of the family. -/
theorem Linked.covered (h : Linked family a b) : ∃ group ∈ family, a ∈ group := by
  induction h with
  | single h =>
      obtain ⟨group, hGroup, ha, _⟩ := h
      exact ⟨group, hGroup, ha⟩
  | tail _ _ ih => exact ih

end Links

/-! ## Labels -/

/-- The elements of the family have labels, and those with one label are linked. -/
structure Labels (family : Set (Set α)) (label : α → Option ι) : Prop where
  covered : ∀ a, (∃ p, label a = some p) ↔ ∃ group ∈ family, a ∈ group
  same : ∀ a b p, label a = some p → (label b = some p ↔ Linked family a b)

theorem labels_empty : Labels (∅ : Set (Set α)) (fun _ => none : α → Option ι) := by
  refine ⟨?_, ?_⟩
  · intro a
    constructor
    · rintro ⟨p, h⟩
      cases h
    · rintro ⟨group, hGroup, _⟩
      exact absurd hGroup (Set.notMem_empty group)
  · intro a b p h
    cases h

/-- The element is in the set, or it has the label of an element that is. -/
def Hit (label : α → Option ι) (group : Set α) (a : α) : Prop :=
  a ∈ group ∨ ∃ x ∈ group, ∃ p, label x = some p ∧ label a = some p

namespace Labels

variable {family : Set (Set α)} {label label' : α → Option ι} {group : Set α} {a b : α}

theorem linked_of_hit (h : Labels family label) (hHit : Hit label group a) :
    ∃ x ∈ group, Linked (insert group family) a x := by
  rcases hHit with ha | ⟨x, hx, p, hLabel, hLabel'⟩
  · exact ⟨a, ha, Linked.of_shares ⟨group, Set.mem_insert _ _, ha, ha⟩⟩
  · refine ⟨x, hx, Linked.mono ?_ (Set.subset_insert group family)⟩
    exact (h.same a x p hLabel').mp hLabel

/-- Elements of a set of the family have the same label. -/
theorem eq_of_shares (h : Labels family label) (hShares : Shares family a b) :
    ∃ p, label a = some p ∧ label b = some p := by
  obtain ⟨group, hGroup, ha, hb⟩ := hShares
  obtain ⟨p, hp⟩ := (h.covered a).mpr ⟨group, hGroup, ha⟩
  exact ⟨p, hp, (h.same a b p hp).mpr (Linked.of_shares ⟨group, hGroup, ha, hb⟩)⟩

theorem hit_of_shares
    (h : Labels family label) (hHit : Hit label group a)
    (hShares : Shares (insert group family) a b) : Hit label group b := by
  obtain ⟨group', hGroup', ha, hb⟩ := hShares
  rcases Set.mem_insert_iff.mp hGroup' with rfl | hOld
  · exact Or.inl hb
  · obtain ⟨p, hp, hb'⟩ := h.eq_of_shares ⟨group', hOld, ha, hb⟩
    rcases hHit with hIn | ⟨x, hx, p', hx', ha'⟩
    · exact Or.inr ⟨a, hIn, p, hp, hb'⟩
    · rw [hp] at ha'
      obtain rfl := Option.some.inj ha'
      exact Or.inr ⟨x, hx, p, hx', hb'⟩

section Merge

variable {q : ι}

theorem covered_merge
    (h : Labels family label) (hNew : ∀ a, Hit label group a → label' a = some q)
    (hKeep : ∀ a, ¬Hit label group a → label' a = label a) :
    (∃ p, label' a = some p) ↔ ∃ group' ∈ insert group family, a ∈ group' := by
  by_cases hHit : Hit label group a
  · refine iff_of_true ⟨q, hNew a hHit⟩ ?_
    rcases hHit with ha | ⟨_, _, p, _, ha⟩
    · exact ⟨group, Set.mem_insert _ _, ha⟩
    · obtain ⟨group', hGroup', ha'⟩ := (h.covered a).mp ⟨p, ha⟩
      exact ⟨group', Set.mem_insert_of_mem _ hGroup', ha'⟩
  · rw [hKeep a hHit, h.covered a]
    constructor
    · rintro ⟨group', hGroup', ha⟩
      exact ⟨group', Set.mem_insert_of_mem _ hGroup', ha⟩
    · rintro ⟨group', hGroup', ha⟩
      rcases Set.mem_insert_iff.mp hGroup' with rfl | hOld
      · exact absurd (Or.inl ha) hHit
      · exact ⟨group', hOld, ha⟩

/-- A link to the next element keeps the label. -/
theorem label_of_shares
    {p : ι} (h : Labels family label) (hNew : ∀ a, Hit label group a → label' a = some q)
    (hKeep : ∀ a, ¬Hit label group a → label' a = label a) (ha : label' a = some p)
    (hShares : Shares (insert group family) a b) : label' b = some p := by
  by_cases hHit : Hit label group a
  · rw [hNew a hHit] at ha
    rw [hNew b (h.hit_of_shares hHit hShares), ha]
  · have hMiss : ¬Hit label group b := fun hHit' => hHit (h.hit_of_shares hHit' hShares.symm)
    rw [hKeep a hHit] at ha
    rw [hKeep b hMiss]
    obtain ⟨group', hGroup', ha', hb'⟩ := hShares
    rcases Set.mem_insert_iff.mp hGroup' with rfl | hOld
    · exact absurd (Or.inl ha') hHit
    · exact (h.same a b p ha).mpr (Linked.of_shares ⟨group', hOld, ha', hb'⟩)

/-- What is hit by a new set gets a label of its own. -/
theorem merge
    (h : Labels family label) (hFresh : ∀ a, label a ≠ some q)
    (hNew : ∀ a, Hit label group a → label' a = some q)
    (hKeep : ∀ a, ¬Hit label group a → label' a = label a) :
    Labels (insert group family) label' := by
  have hHit_of : ∀ a, label' a = some q → Hit label group a := by
    intro a hLabel
    by_contra hMiss
    rw [hKeep a hMiss] at hLabel
    exact hFresh a hLabel
  refine ⟨fun a => h.covered_merge hNew hKeep, ?_⟩
  intro a b p ha
  constructor
  · intro hb
    by_cases hHit : Hit label group a
    · -- both are linked to the new set
      obtain rfl := Option.some.inj ((hNew a hHit).symm.trans ha)
      obtain ⟨x, hx, hax⟩ := h.linked_of_hit hHit
      obtain ⟨y, hy, hby⟩ := h.linked_of_hit (hHit_of b hb)
      have hxy : Linked (insert group family) x y :=
        Linked.of_shares ⟨group, Set.mem_insert _ _, hx, hy⟩
      exact (hax.trans hxy).trans hby.symm
    · rw [hKeep a hHit] at ha
      have hMiss : ¬Hit label group b := by
        intro hHit'
        rw [hNew b hHit'] at hb
        exact hFresh a (hb ▸ ha)
      rw [hKeep b hMiss] at hb
      exact ((h.same a b p ha).mp hb).mono (Set.subset_insert group family)
  · intro hLinked
    induction hLinked with
    | single hShares => exact h.label_of_shares hNew hKeep ha hShares
    | tail _ hShares ih => exact h.label_of_shares hNew hKeep ih hShares

end Merge

/-- The sets of the elements with one label are the components. -/
theorem areComponents
    {sets : ι → Set α} {used : ι → Prop} (h : Labels family label)
    (hSets : ∀ a p, label a = some p ↔ used p ∧ a ∈ sets p)
    (hNonempty : ∀ p, used p → (sets p).Nonempty) :
    AreComponents family {s | ∃ p, used p ∧ s = sets p} := by
  refine ⟨?_, ?_, ?_, ?_⟩
  · rintro s ⟨p, hUsed, rfl⟩
    exact hNonempty p hUsed
  · rintro s ⟨p, hUsed, rfl⟩ t ⟨p', hUsed', rfl⟩ hNe
    refine Set.disjoint_left.mpr fun a ha ha' => hNe ?_
    have hp := (hSets a p).mpr ⟨hUsed, ha⟩
    rw [(hSets a p').mpr ⟨hUsed', ha'⟩] at hp
    rw [Option.some.inj hp]
  · ext a
    rw [Set.mem_sUnion, Set.mem_sUnion, ← h.covered a]
    constructor
    · rintro ⟨s, ⟨p, hUsed, rfl⟩, ha⟩
      exact ⟨p, (hSets a p).mpr ⟨hUsed, ha⟩⟩
    · rintro ⟨p, hp⟩
      obtain ⟨hUsed, ha⟩ := (hSets a p).mp hp
      exact ⟨sets p, ⟨p, hUsed, rfl⟩, ha⟩
  · intro a b
    constructor
    · rintro ⟨s, ⟨p, hUsed, rfl⟩, ha, hb⟩
      exact (h.same a b p ((hSets a p).mpr ⟨hUsed, ha⟩)).mp ((hSets b p).mpr ⟨hUsed, hb⟩)
    · intro hLinked
      obtain ⟨p, hp⟩ := (h.covered a).mpr hLinked.covered
      obtain ⟨hUsed, ha⟩ := (hSets a p).mp hp
      exact ⟨sets p, ⟨p, hUsed, rfl⟩, ha, ((hSets b p).mp ((h.same a b p hp).mpr hLinked)).2⟩

end Labels

end Support
