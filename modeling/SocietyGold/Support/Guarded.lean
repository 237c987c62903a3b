import SocietyGold.Support.Checked
import Mathlib.Data.Option.Basic
import Mathlib.Tactic.Common

/-!
# Guarded computations

A function that tests its arguments and returns false where a test fails ends in
one of three ways: with a value, with false, or in a fault, where a test was
missing.  A partial function has only the first two.  A guarded computation
that follows a partial function has no fault: its tests are enough.

The rules compose: what follows does so through sequencing, branching and
folding.  Where the two agree only under a condition, as when a counter of the
guarded one may wrap, the condition is carried along.
-/

namespace Support

variable {α β σ ι : Type}

/-- The ways in which a guarded computation ends without a value. -/
inductive Halt
  | returnsFalse
  | fault (f : Fault)
  deriving DecidableEq, Repr

abbrev Guarded (α : Type) := Except Halt α

def returnFalseIf (p : Prop) [Decidable p] : Guarded Unit :=
  if p then .error .returnsFalse else .ok ()

/-- An access that the tests before it should have made safe. -/
def access : Checked α → Guarded α
  | .ok a => .ok a
  | .error f => .error (.fault f)

/-- No result is the answer false. -/
def answer : Option α → Guarded α
  | none => .error .returnsFalse
  | some a => .ok a

theorem answer_ne_fault (o : Option α) (f : Fault) : answer o ≠ .error (.fault f) := by
  cases o with
  | none => exact fun h => nomatch h
  | some a => exact fun h => nomatch h

theorem answer_eq_ok {o : Option α} {a : α} : answer o = .ok a ↔ o = some a := by
  cases o with
  | none => simp [answer]
  | some b => simp [answer]

theorem answer_bind (o : Option α) (g : α → Option β) :
    answer (o.bind g) = answer o >>= fun a => answer (g a) := by
  cases o <;> rfl

theorem answer_map (o : Option α) (g : α → β) :
    answer (o.map g) = answer o >>= fun a => .ok (g a) := by
  cases o <;> rfl

/-- The guarded computation has no fault, and where `p` holds it returns what
the partial one does. -/
def Mirrors (p : Prop) (x : Guarded α) (o : Option α) : Prop :=
  ∃ o', x = answer o' ∧ (p → o' = o)

section Rules

variable {p : Prop}

theorem Mirrors.ne_fault {x : Guarded α} {o : Option α} (h : Mirrors p x o) (f : Fault) :
    x ≠ .error (.fault f) := by
  obtain ⟨o', rfl, -⟩ := h
  exact answer_ne_fault o' f

theorem Mirrors.eq_answer {x : Guarded α} {o : Option α} (h : Mirrors p x o) (hp : p) :
    x = answer o := by
  obtain ⟨o', rfl, hAgree⟩ := h
  rw [hAgree hp]

theorem mirrors_of_eq {x : Guarded α} {o : Option α} (h : x = answer o) : Mirrors p x o :=
  ⟨o, h, fun _ => rfl⟩

theorem mirrors_answer (o : Option α) : Mirrors p (answer o) o := mirrors_of_eq rfl

/-- The condition of the rest is what the first part leaves of it. -/
theorem Mirrors.bind
    {q : α → Prop} {x : Guarded α} {o : Option α} {f : α → Guarded β} {g : α → Option β}
    (hx : Mirrors p x o) (hf : ∀ a, Mirrors (q a) (f a) (g a))
    (hKeep : p → ∀ a, o = some a → q a) : Mirrors p (x >>= f) (o.bind g) := by
  obtain ⟨o', rfl, hAgree⟩ := hx
  cases o' with
  | none =>
      refine ⟨none, rfl, ?_⟩
      intro hp
      rw [← hAgree hp]
      rfl
  | some a =>
      obtain ⟨o'', hRest, hAgree'⟩ := hf a
      refine ⟨o'', hRest, ?_⟩
      intro hp
      rw [← hAgree hp, Option.bind_some]
      exact hAgree' (hKeep hp a (hAgree hp).symm)

theorem Mirrors.ite
    {c : Prop} [Decidable c] {x x' : Guarded α} {o o' : Option α}
    (hThen : c → Mirrors p x o) (hElse : ¬ c → Mirrors p x' o') :
    Mirrors p (if c then x else x') (if c then o else o') := by
  by_cases h : c
  · rw [if_pos h, if_pos h]
    exact hThen h
  · rw [if_neg h, if_neg h]
    exact hElse h

/-- A test that the partial function makes too, here or further on. -/
theorem Mirrors.test
    {c : Prop} [Decidable c] {f : Unit → Guarded α} {o : Option α}
    (hFails : c → p → o = none) (hPasses : ¬ c → Mirrors p (f ()) o) :
    Mirrors p (returnFalseIf c >>= f) o := by
  by_cases hc : c
  · rw [returnFalseIf, if_pos hc]
    exact ⟨none, rfl, fun hp => (hFails hc hp).symm⟩
  · rw [returnFalseIf, if_neg hc]
    exact hPasses hc

theorem Mirrors.guard
    {c : Prop} [Decidable c] {f : Unit → Guarded α} {o : Option α}
    (h : ¬ c → Mirrors p (f ()) o) : Mirrors p (returnFalseIf c >>= f) (if c then none else o) := by
  apply Mirrors.test
  · intro hc _
    rw [if_pos hc]
  · intro hc
    rw [if_neg hc]
    exact h hc

/-- A partial computation that the partial function makes too. -/
theorem Mirrors.answer_bind
    {o' : Option β} {f : β → Guarded α} {o : Option α}
    (hNone : o' = none → p → o = none) (hSome : ∀ b, o' = some b → Mirrors p (f b) o) :
    Mirrors p (answer o' >>= f) o := by
  cases o' with
  | none => exact ⟨none, rfl, fun hp => (hNone rfl hp).symm⟩
  | some b => exact hSome b rfl

/-- One step at a time, a guarded loop follows a partial one. -/
theorem Mirrors.foldlM
    {q : σ → Prop} {f : σ → ι → Guarded σ} {g : σ → ι → Option σ}
    (hStep : ∀ s i, Mirrors (q s) (f s i) (g s i))
    (hKeep : ∀ s i s', g s i = some s' → q s') (l : List ι) (s : σ) :
    Mirrors (q s) (l.foldlM f s) (l.foldlM g s) := by
  induction l generalizing s with
  | nil => exact mirrors_answer (some s)
  | cons i l ih =>
      rw [List.foldlM_cons, List.foldlM_cons]
      exact (hStep s i).bind ih fun _ s' h => hKeep s i s' h

end Rules

/-! ## What safe computations deliver -/

/-- The computation has no fault, and what it delivers has the property. -/
def Safely (x : Guarded α) (Q : α → Prop) : Prop :=
  (∀ f, x ≠ .error (.fault f)) ∧ ∀ a, x = .ok a → Q a

theorem safely_ok {Q : α → Prop} {a : α} (h : Q a) : Safely (.ok a) Q := by
  constructor
  · intro f hFault
    cases hFault
  · intro a' hOk
    exact Except.ok.inj hOk ▸ h

theorem safely_returnsFalse (Q : α → Prop) : Safely (.error .returnsFalse) Q := by
  constructor
  · intro f hFault
    cases hFault
  · intro a hOk
    cases hOk

theorem Safely.bind
    {R : α → Prop} {Q : β → Prop} {x : Guarded α} {f : α → Guarded β}
    (hx : Safely x R) (hf : ∀ a, R a → Safely (f a) Q) : Safely (x >>= f) Q := by
  cases x with
  | error halt =>
      cases halt with
      | returnsFalse => exact safely_returnsFalse Q
      | fault f => exact absurd rfl (hx.1 f)
  | ok a => exact hf a (hx.2 a rfl)

/-- After a test its negation holds. -/
theorem Safely.test
    {c : Prop} [Decidable c] {Q : α → Prop} {f : Unit → Guarded α}
    (h : ¬ c → Safely (f ()) Q) : Safely (returnFalseIf c >>= f) Q := by
  by_cases hc : c
  · rw [returnFalseIf, if_pos hc]
    exact safely_returnsFalse Q
  · rw [returnFalseIf, if_neg hc]
    exact h hc

/-- An access that succeeds. -/
theorem Safely.access
    {Q : α → Prop} {x : Checked β} {b : β} {f : β → Guarded α} (hx : x = .ok b)
    (hf : Safely (f b) Q) : Safely (access x >>= f) Q := by
  rw [hx]
  exact hf

theorem returnFalseIf_of_not
    {c : Prop} [Decidable c] (h : ¬ c) (f : Unit → Guarded α) :
    (returnFalseIf c >>= f) = f () := by
  rw [returnFalseIf, if_neg h]
  rfl

theorem access_ok (b : β) (f : β → Guarded α) : (access (.ok b) >>= f) = f b := rfl

end Support

/-!
# Partial computations ordered by definedness

One partial computation is less defined than another when the other delivers
every result the first one delivers.  Two runs of a loop are compared by
comparing their bodies: sequencing, branching and folding are monotone in this
order.
-/

namespace Support

variable {α β σ ι : Type}

/-- Every result of the first computation is the result of the second. -/
def LessDefined (x y : Option α) : Prop :=
  ∀ a, x = some a → y = some a

theorem LessDefined.refl (x : Option α) : LessDefined x x := fun _ h => h

/-- A failed computation is less defined than any other. -/
theorem LessDefined.none (y : Option α) : LessDefined none y :=
  fun _ h => nomatch h

theorem LessDefined.bind
    {x y : Option α} {f g : α → Option β}
    (hxy : LessDefined x y) (hfg : ∀ a, LessDefined (f a) (g a)) :
    LessDefined (x.bind f) (y.bind g) := by
  intro b h
  obtain ⟨a, hx, hf⟩ := Option.bind_eq_some_iff.mp h
  exact Option.bind_eq_some_iff.mpr ⟨a, hxy a hx, hfg a b hf⟩

theorem LessDefined.map
    {x y : Option α} (hxy : LessDefined x y) (f : α → β) :
    LessDefined (x.map f) (y.map f) := by
  intro b h
  obtain ⟨a, hx, hf⟩ := Option.map_eq_some_iff.mp h
  exact Option.map_eq_some_iff.mpr ⟨a, hxy a hx, hf⟩

/-- A branch on a condition that both computations share. -/
theorem LessDefined.ite
    {p : Prop} [Decidable p] {x x' y y' : Option α}
    (hThen : p → LessDefined x y) (hElse : ¬ p → LessDefined x' y') :
    LessDefined (if p then x else x') (if p then y else y') := by
  by_cases h : p
  · rw [if_pos h, if_pos h]
    exact hThen h
  · rw [if_neg h, if_neg h]
    exact hElse h

/-- A guard that only gets weaker. -/
theorem LessDefined.guard
    {p q : Prop} [Decidable p] [Decidable q] {x y : Option α}
    (hpq : p → q) (hxy : LessDefined x y) :
    LessDefined (if p then x else Option.none) (if q then y else Option.none) := by
  by_cases h : p
  · rw [if_pos h, if_pos (hpq h)]
    exact hxy
  · rw [if_neg h]
    exact LessDefined.none _

/-- One step at a time, a fold over the same list is monotone. -/
theorem LessDefined.foldlM
    {f g : σ → ι → Option σ} (hStep : ∀ s i, LessDefined (f s i) (g s i))
    (l : List ι) (s : σ) : LessDefined (l.foldlM f s) (l.foldlM g s) := by
  induction l generalizing s with
  | nil => exact LessDefined.refl _
  | cons i l ih =>
      rw [List.foldlM_cons, List.foldlM_cons]
      exact LessDefined.bind (hStep s i) ih

end Support
