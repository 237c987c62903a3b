import Mathlib.Tactic

/-!
# Loops that may not return

A loop is given by its round, which yields the next state or ends the loop.  It returns if
some number of rounds ends it.  A round that changes nothing is repeated for ever.
-/

namespace Support

universe u

variable {σ : Type u}

/-- At most `fuel` rounds of a loop: the state in which it ended, if it did. -/
def runLoop (step : σ → Option σ) : (fuel : ℕ) → σ → Option σ
  | 0, _ => none
  | fuel + 1, s =>
      match step s with
      | none => some s
      | some s' => runLoop step fuel s'

/-- The loop returns, and this is the state in which it does. -/
def LoopReturns (step : σ → Option σ) (s final : σ) : Prop :=
  ∃ fuel, runLoop step fuel s = some final

section LoopReturns

variable {step : σ → Option σ} {s s' final : σ}

theorem loopReturns_of_none (h : step s = none) : LoopReturns step s final ↔ final = s := by
  constructor
  · rintro ⟨fuel, hRun⟩
    cases fuel with
    | zero => cases hRun
    | succ fuel =>
        rw [runLoop, h] at hRun
        exact (Option.some.inj hRun).symm
  · rintro rfl
    exact ⟨1, by rw [runLoop, h]⟩

theorem loopReturns_of_some (h : step s = some s') :
    LoopReturns step s final ↔ LoopReturns step s' final := by
  constructor
  · rintro ⟨fuel, hRun⟩
    cases fuel with
    | zero => cases hRun
    | succ fuel =>
        rw [runLoop, h] at hRun
        exact ⟨fuel, hRun⟩
  · rintro ⟨fuel, hRun⟩
    exact ⟨fuel + 1, by rw [runLoop, h]; exact hRun⟩

/-- A loop whose round leaves the state as it is does not return. -/
theorem not_loopReturns_of_stuck (h : step s = some s) : ¬LoopReturns step s final := by
  rintro ⟨fuel, hRun⟩
  induction fuel with
  | zero => cases hRun
  | succ fuel ih =>
      rw [runLoop, h] at hRun
      exact ih hRun

/-- A loop whose rounds decrease a measure ends within as many rounds. -/
theorem runLoop_isSome_of_measure
    (measure : σ → ℕ) (hLess : ∀ s s', step s = some s' → measure s' < measure s)
    {fuel : ℕ} (hFuel : measure s < fuel) : (runLoop step fuel s).isSome = true := by
  induction fuel generalizing s with
  | zero => exact absurd hFuel (Nat.not_lt_zero _)
  | succ fuel ih =>
      rw [runLoop]
      cases hStep : step s with
      | none => rfl
      | some s' =>
          have hDown := hLess s s' hStep
          exact ih (by omega)

end LoopReturns

/-! ## Walks through a list -/

/-- A walk through a list that goes on from the elements without a property and stays at
those with it. -/
def walkRound {α : Type u} (stays : α → Bool) (walk : List α × ℕ) : Option (List α × ℕ) :=
  match walk.1[walk.2]? with
  | none => none
  | some x => if stays x then some walk else some (walk.1, walk.2 + 1)

/-- The walk returns exactly if it does not meet an element at which it stays, and then it
has passed the whole list. -/
theorem loopReturns_walkRound_iff
    {α : Type u} {stays : α → Bool} {xs : List α} {pos : ℕ} (hPos : pos ≤ xs.length)
    {final : List α × ℕ} :
    LoopReturns (walkRound stays) (xs, pos) final ↔
      (∀ x ∈ xs.drop pos, stays x = false) ∧ final = (xs, xs.length) := by
  induction hLeft : xs.length - pos generalizing pos with
  | zero =>
      have hEnd : pos = xs.length := by omega
      subst hEnd
      rw [loopReturns_of_none (by simp [walkRound])]
      simp
  | succ left ih =>
      have hLt : pos < xs.length := by omega
      rw [List.drop_eq_getElem_cons hLt]
      have hGet : xs[pos]? = some xs[pos] := List.getElem?_eq_getElem hLt
      cases hStays : stays xs[pos] with
      | true =>
          have hStuck : walkRound stays (xs, pos) = some (xs, pos) := by
            simp [walkRound, hGet, hStays]
          refine iff_of_false (not_loopReturns_of_stuck hStuck) ?_
          rintro ⟨hAll, -⟩
          have hNot := hAll xs[pos] List.mem_cons_self
          rw [hStays] at hNot
          cases hNot
      | false =>
          have hNext : walkRound stays (xs, pos) = some (xs, pos + 1) := by
            simp [walkRound, hGet, hStays]
          rw [loopReturns_of_some hNext, ih (by omega) (by omega), List.forall_mem_cons, hStays]
          simp only [true_and]

end Support
