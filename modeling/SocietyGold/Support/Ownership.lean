import Mathlib.Tactic.Common

/-!
# Exclusive ownership

Owners hold keys, and no key is to be held by two of them.  The rules say which changes keep it
so: owners may let go of keys, one owner may hand its keys to another, and an owner may get a
key that nobody has.
-/

namespace Support

universe u v

variable {ω : Type u} {κ : Type v}

/-- No key belongs to two owners. -/
def Unshared (owns : ω → κ → Prop) : Prop :=
  ∀ ⦃o o' k⦄, owns o k → owns o' k → o = o'

namespace Unshared

variable {owns owns' : ω → κ → Prop}

/-- Keys are let go of. -/
theorem mono (h : Unshared owns) (hSub : ∀ o k, owns' o k → owns o k) : Unshared owns' := by
  intro o o' k hk hk'
  exact h (hSub o k hk) (hSub o' k hk')

/-- One owner hands what it has to another. -/
theorem transfer
    {giver taker : ω} (h : Unshared owns)
    (hMoved : ∀ o k, owns' o k → (owns o k ∧ o ≠ giver) ∨ (o = taker ∧ owns giver k)) :
    Unshared owns' := by
  intro o o' k hk hk'
  rcases hMoved o k hk with ⟨hOld, hOther⟩ | ⟨rfl, hGiven⟩
  · rcases hMoved o' k hk' with ⟨hOld', _⟩ | ⟨_, hGiven⟩
    · exact h hOld hOld'
    · exact absurd (h hOld hGiven) hOther
  · rcases hMoved o' k hk' with ⟨hOld', hOther⟩ | ⟨rfl, _⟩
    · exact absurd (h hOld' hGiven) hOther
    · rfl

/-- An owner gets keys that nobody had. -/
theorem acquire
    {taker : ω} (h : Unshared owns)
    (hNew : ∀ o k, owns' o k → owns o k ∨ (o = taker ∧ ∀ o', ¬owns o' k)) :
    Unshared owns' := by
  intro o o' k hk hk'
  rcases hNew o k hk with hOld | ⟨rfl, hFree⟩
  · rcases hNew o' k hk' with hOld' | ⟨_, hFree⟩
    · exact h hOld hOld'
    · exact absurd hOld (hFree o)
  · rcases hNew o' k hk' with hOld' | ⟨rfl, _⟩
    · exact absurd hOld' (hFree o')
    · rfl

end Unshared

end Support
