import Mathlib.Data.Set.Function
import Mathlib.Tactic

/-!
# Last-writer-wins registers

A register is written with values that carry stamps.  It follows the rule if a write either
replaces a value with no larger stamp or leaves a value with no smaller one.  Then it always
shows a value whose stamp is the largest of those written, so the order and the number of the
writes of each value do not matter where stamps tell values apart.
-/

namespace Support

universe u v

variable {α : Type u} {τ : Type v} [LinearOrder τ] (stamp : α → τ)

/-- The register shows one of the written values, with the largest stamp of them all. -/
structure IsLatest (written : Set α) (register : Option α) : Prop where
  mem : ∀ a, register = some a → a ∈ written
  max : ∀ a ∈ written, ∃ c, register = some c ∧ stamp a ≤ stamp c

/-- What a write that follows the rule may make of a register. -/
inductive LastWriterStep (register : Option α) (a : α) : Option α → Prop
  | replaced (h : ∀ c, register = some c → stamp c ≤ stamp a) :
      LastWriterStep register a (some a)
  | kept (c : α) (hRegister : register = some c) (h : stamp a ≤ stamp c) :
      LastWriterStep register a register

variable {stamp} {written : Set α} {register register' : Option α} {a : α}

theorem isLatest_empty : IsLatest stamp (∅ : Set α) none :=
  ⟨by simp, by simp⟩

/-- Where stamps tell the written values apart, there is only one latest value. -/
theorem IsLatest.unique
    (hInj : Set.InjOn stamp written) (h : IsLatest stamp written register)
    (h' : IsLatest stamp written register') : register = register' := by
  cases register with
  | none =>
      cases register' with
      | none => rfl
      | some c' =>
          obtain ⟨c, hNone, -⟩ := h.max c' (h'.mem c' rfl)
          cases hNone
  | some c =>
      obtain ⟨c', rfl, hLe⟩ := h'.max c (h.mem c rfl)
      obtain ⟨d, hd, hLe'⟩ := h.max c' (h'.mem c' rfl)
      cases hd
      rw [hInj (h.mem c rfl) (h'.mem c' rfl) (le_antisymm hLe hLe')]

theorem IsLatest.write
    (h : IsLatest stamp written register)
    (hStep : LastWriterStep stamp register a register') :
    IsLatest stamp (insert a written) register' := by
  cases hStep with
  | replaced hNewer =>
      constructor
      · intro c hc
        cases hc
        exact Set.mem_insert a written
      · intro b hb
        rcases Set.mem_insert_iff.mp hb with rfl | hb
        · exact ⟨b, rfl, le_rfl⟩
        · obtain ⟨c, hRegister, hLe⟩ := h.max b hb
          exact ⟨a, rfl, hLe.trans (hNewer c hRegister)⟩
  | kept c hRegister hOlder =>
      constructor
      · intro d hd
        exact Set.mem_insert_of_mem a (h.mem d hd)
      · intro b hb
        rcases Set.mem_insert_iff.mp hb with rfl | hb
        · exact ⟨c, hRegister, hOlder⟩
        · exact h.max b hb

end Support
