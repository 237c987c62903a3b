import SocietyGold.Support.Checked

/-!
# Runs that refine an abstract run

A state has an abstract view, and operations act on both.  A run refines the abstract one
if after each operation that the abstract side allows the concrete side has given the same
answer and reached a state with the same view.  When one operation does so exactly under a
condition on the state, a run does so exactly when the condition holds along it.
-/

namespace Support

universe u v

variable {ι : Type u} {ρ : Type u} {σ : Type u} {τ : Type v}

section Refinement

variable (step : ι → σ → Checked (ρ × σ)) (spec : ι → τ → Option (ρ × τ)) (view : σ → τ)

/-- The answers and views of a run are those of the abstract run, as long as that one goes
on. -/
def Refines : List ι → σ → τ → Prop
  | [], s, t => view s = t
  | op :: ops, s, t => view s = t ∧ ∀ r t', spec op t = some (r, t') →
      ∃ s', step op s = .ok (r, s') ∧ Refines ops s' t'

/-- The condition holds at every state in which an operation is performed. -/
def HoldsAlong (condition : ι → σ → Prop) : List ι → σ → Prop
  | [], _ => True
  | op :: ops, s => ∀ r t', spec op (view s) = some (r, t') →
      condition op s ∧ ∀ s', step op s = .ok (r, s') → HoldsAlong condition ops s'

end Refinement

variable {step : ι → σ → Checked (ρ × σ)} {spec : ι → τ → Option (ρ × τ)} {view : σ → τ}
  {condition : ι → σ → Prop}

theorem view_eq_of_refines {ops : List ι} {s : σ} {t : τ} (h : Refines step spec view ops s t) :
    view s = t := by
  cases ops with
  | nil => exact h
  | cons op ops => exact h.1

/-- What characterises one step characterises runs. -/
theorem refines_iff_holdsAlong
    (hStep : ∀ op s r t', spec op (view s) = some (r, t') →
      ((∃ s', step op s = .ok (r, s') ∧ view s' = t') ↔ condition op s))
    (ops : List ι) (s : σ) :
    Refines step spec view ops s (view s) ↔ HoldsAlong step spec view condition ops s := by
  induction ops generalizing s with
  | nil => exact iff_of_true rfl trivial
  | cons op ops ih =>
      constructor
      · rintro ⟨-, hRefines⟩ r t' hSpec
        obtain ⟨s', hRun, hLater⟩ := hRefines r t' hSpec
        refine ⟨(hStep op s r t' hSpec).mp ⟨s', hRun, view_eq_of_refines hLater⟩, ?_⟩
        intro s'' hRun'
        have hSame : s' = s'' := by
          rw [hRun] at hRun'
          exact (Prod.mk.inj (Except.ok.inj hRun')).2
        rw [← view_eq_of_refines hLater, hSame] at hLater
        exact (ih s'').mp hLater
      · intro hAlong
        refine ⟨rfl, ?_⟩
        intro r t' hSpec
        obtain ⟨hCondition, hLater⟩ := hAlong r t' hSpec
        obtain ⟨s', hRun, hView⟩ := (hStep op s r t' hSpec).mpr hCondition
        exact ⟨s', hRun, hView ▸ (ih s').mpr (hLater s' hRun)⟩

/-! ## A queue with two ends

An abstract state: elements are appended at the end and taken from the front, and some may be put
back in front.  No more are taken than there are. -/

inductive QueueOp (α : Type u)
  | pushBack (xs : List α)
  | pushFront (xs : List α)
  | pop (n : ℕ)
  | discard (n : ℤ)
  | keep

/-- What an operation delivers and leaves, if the queue allows it. -/
def QueueOp.apply {α : Type u} : QueueOp α → List α → Option (List α × List α)
  | pushBack xs, queue => some ([], queue ++ xs)
  | pushFront xs, queue => some ([], xs ++ queue)
  | pop n, queue => if n ≤ queue.length then some (queue.take n, queue.drop n) else none
  | discard n, queue =>
      if 0 ≤ n ∧ n ≤ queue.length then some ([], queue.drop n.toNat) else none
  | keep, queue => some ([], queue)

end Support
