import Mathlib.Data.List.Nodup
import Mathlib.Tactic

/-!
# Posting lists

An inverted index lists for each key the values posted under it, in the order in which they
were first posted.  Posting a value again changes nothing, so the lists stay without
duplicates, and no list ever loses a value.

A staged index has a committed and a staged copy.  Values are posted to the staged copy, which
is committed as a whole or dropped.
-/

namespace Support

universe u v

/-- The values posted under each key. -/
abbrev Postings (K : Type u) (V : Type v) := K → List V

namespace Postings

variable {K : Type u} {V : Type v}

/-- No value is listed twice under a key. -/
def Distinct (index : Postings K V) : Prop := ∀ k, (index k).Nodup

/-- Every list of the first index starts the list of the second. -/
def Extends (index index' : Postings K V) : Prop := ∀ k, index k <+: index' k

theorem Extends.refl (index : Postings K V) : Extends index index :=
  fun _ => List.prefix_rfl

theorem Extends.trans
    {index₁ index₂ index₃ : Postings K V}
    (h : Extends index₁ index₂) (h' : Extends index₂ index₃) : Extends index₁ index₃ :=
  fun k => (h k).trans (h' k)

theorem Extends.mem
    {index index' : Postings K V} (h : Extends index index') {k : K} {v : V}
    (hMem : v ∈ index k) : v ∈ index' k :=
  (h k).subset hMem

variable [DecidableEq K] [DecidableEq V]

/-- Post one value, unless it is listed already. -/
def post (index : Postings K V) (k : K) (v : V) : Postings K V := fun k' =>
  if k' = k ∧ v ∉ index k then index k' ++ [v] else index k'

/-- Post values one after the other. -/
def postAll (index : Postings K V) (entries : List (K × V)) : Postings K V :=
  entries.foldl (fun index entry => index.post entry.1 entry.2) index

section Post

variable {index : Postings K V}

theorem mem_post {k k' : K} {v v' : V} :
    v' ∈ index.post k v k' ↔ v' ∈ index k' ∨ (k', v') = (k, v) := by
  unfold post
  rw [Prod.mk.injEq]
  by_cases hk : k' = k
  · subst hk
    by_cases hv : v ∈ index k'
    · rw [if_neg (by simp [hv])]
      constructor
      · exact Or.inl
      · rintro (hMem | ⟨-, rfl⟩)
        · exact hMem
        · exact hv
    · simp [hv]
  · simp [hk]

theorem Distinct.post (h : Distinct index) (k : K) (v : V) : Distinct (index.post k v) := by
  intro k'
  unfold Postings.post
  split_ifs with hNew
  · obtain ⟨rfl, hv⟩ := hNew
    rw [← List.concat_eq_append]
    exact List.Nodup.concat hv (h k')
  · exact h k'

theorem extends_post (index : Postings K V) (k : K) (v : V) :
    Extends index (index.post k v) := by
  intro k'
  unfold post
  split_ifs
  · exact List.prefix_append _ _
  · exact List.prefix_rfl

end Post

section PostAll

variable {index : Postings K V} {entries : List (K × V)}

@[simp] theorem postAll_nil : index.postAll [] = index := rfl

@[simp] theorem postAll_cons (entry : K × V) :
    index.postAll (entry :: entries) = (index.post entry.1 entry.2).postAll entries := rfl

theorem postAll_append (entries' : List (K × V)) :
    index.postAll (entries ++ entries') = (index.postAll entries).postAll entries' :=
  List.foldl_append

/-- Exactly what was listed before or is posted is listed afterwards. -/
theorem mem_postAll {k : K} {v : V} :
    v ∈ index.postAll entries k ↔ v ∈ index k ∨ (k, v) ∈ entries := by
  induction entries generalizing index with
  | nil => simp
  | cons entry rest ih =>
      rw [postAll_cons, ih, mem_post, List.mem_cons, or_assoc]

theorem Distinct.postAll (h : Distinct index) : Distinct (index.postAll entries) := by
  induction entries generalizing index with
  | nil => exact h
  | cons entry rest ih => exact ih (h.post entry.1 entry.2)

theorem extends_postAll (index : Postings K V) (entries : List (K × V)) :
    Extends index (index.postAll entries) := by
  induction entries generalizing index with
  | nil => exact Extends.refl index
  | cons entry rest ih => exact (extends_post index entry.1 entry.2).trans (ih _)

end PostAll

/-! ## Staged indexes -/

/-- A committed index with a copy that collects what is not yet committed. -/
structure Staged (K : Type u) (V : Type v) where
  committed : Postings K V
  staged : Postings K V

namespace Staged

inductive Step : Staged K V → Staged K V → Prop
  | post (index : Staged K V) (entries : List (K × V)) :
      Step index ⟨index.committed, index.staged.postAll entries⟩
  | commit (index : Staged K V) : Step index ⟨index.staged, index.staged⟩
  | drop (index : Staged K V) : Step index ⟨index.committed, index.committed⟩

/-- The staged copy extends the committed one, and both are without duplicates. -/
structure Ordered (index : Staged K V) : Prop where
  grows : Extends index.committed index.staged
  committed : Distinct index.committed
  staged : Distinct index.staged

/-- A step keeps the order of the copies and takes nothing from the committed one. -/
theorem Step.ordered
    {index index' : Staged K V} (h : Step index index') (hOrdered : Ordered index) :
    Ordered index' ∧ Extends index.committed index'.committed := by
  cases h with
  | post entries =>
      refine ⟨⟨?_, hOrdered.committed, hOrdered.staged.postAll⟩, Extends.refl _⟩
      exact hOrdered.grows.trans (extends_postAll _ entries)
  | commit => exact ⟨⟨Extends.refl _, hOrdered.staged, hOrdered.staged⟩, hOrdered.grows⟩
  | drop => exact ⟨⟨Extends.refl _, hOrdered.committed, hOrdered.committed⟩, Extends.refl _⟩

end Staged

end Postings

end Support
