import Mathlib.Tactic

/-!
# Checked computations and loops with early return

An imperative function that indexes vectors, dereferences pointers and asserts
is modelled by a computation that either delivers a value or stops with a
`Fault`.  A loop whose body may leave the enclosing function early is modelled
by `forEach`: each round either goes on with a new loop state or returns.

The rules at the end of the file reason about whole loops from one round: an
invariant rule, a simulation rule against a pure fold, a progress rule, and an
inversion of an early return.
-/

namespace Support

universe u v w

/-- The ways in which an imperative computation stops without a value. -/
inductive Fault
  | outOfRange
  | assertionFailed
  | nullDereference
  | danglingReference
  | uncaughtException
  | diverges
  deriving DecidableEq, Repr

/-- A computation that delivers a value or stops with a fault. -/
abbrev Checked (α : Type u) := Except Fault α

section Bind

variable {ε : Type w} {α : Type u} {β : Type u}

theorem bind_eq_ok
    {x : Except ε α} {f : α → Except ε β} {b : β} :
    x >>= f = .ok b ↔ ∃ a, x = .ok a ∧ f a = .ok b := by
  cases x with
  | error e => simp [bind, Except.bind]
  | ok a => simp [bind, Except.bind]

@[simp] theorem ok_bind (a : α) (f : α → Except ε β) :
    ((.ok a : Except ε α) >>= f) = f a := rfl

@[simp] theorem error_bind (e : ε) (f : α → Except ε β) :
    ((.error e : Except ε α) >>= f) = .error e := rfl

@[simp] theorem pure_eq_ok (a : α) : (pure a : Except ε α) = .ok a := rfl

/-- A test of the outcome tells what a computation delivers. -/
theorem exists_ok_of_test
    {x : Except ε α} {Q : α → Prop} [DecidablePred Q]
    (h : x.toOption.map (fun a => decide (Q a)) = some true) : ∃ a, x = .ok a ∧ Q a := by
  cases x with
  | error e => cases h
  | ok a => exact ⟨a, rfl, of_decide_eq_true (Option.some.inj h)⟩

/-- For the error alone the values need not be compared. -/
theorem eq_error_of_test
    {x : Except ε α} {e : ε} (h : x.map (fun _ => ()) = .error e) : x = .error e := by
  cases x with
  | error e' => exact congrArg _ (Except.error.inj h)
  | ok a => cases h

end Bind

/-! ## Vector accesses and assertions -/

section Access

variable {α : Type u}

/-- Read one element of a vector. -/
def elementAt (xs : List α) (i : ℕ) : Checked α :=
  match xs[i]? with
  | some a => .ok a
  | none => .error .outOfRange

/-- Overwrite one element of a vector. -/
def storeAt (xs : List α) (i : ℕ) (a : α) : Checked (List α) :=
  if i < xs.length then .ok (xs.set i a) else .error .outOfRange

/-- Dereference a pointer. -/
def deref (p : Option α) : Checked α :=
  match p with
  | some a => .ok a
  | none => .error .nullDereference

/-- Check an assertion. -/
def assertThat (b : Bool) : Checked Unit :=
  if b then .ok () else .error .assertionFailed

theorem elementAt_eq_ok {xs : List α} {i : ℕ} {a : α} :
    elementAt xs i = .ok a ↔ xs[i]? = some a := by
  unfold elementAt
  cases xs[i]? with
  | none => simp
  | some b => simp

theorem elementAt_of_lt {xs : List α} {i : ℕ} (h : i < xs.length) :
    elementAt xs i = .ok xs[i] := by
  simp [elementAt, h]

theorem elementAt_of_le {xs : List α} {i : ℕ} (h : xs.length ≤ i) :
    elementAt xs i = .error .outOfRange := by
  simp [elementAt, h]

theorem elementAt_isOk_iff {xs : List α} {i : ℕ} :
    (∃ a, elementAt xs i = .ok a) ↔ i < xs.length := by
  constructor
  · rintro ⟨a, h⟩
    rw [elementAt_eq_ok] at h
    exact (List.getElem?_eq_some_iff.mp h).1
  · intro h
    exact ⟨xs[i], elementAt_of_lt h⟩

@[simp] theorem deref_some (a : α) : deref (some a) = .ok a := rfl

theorem deref_eq_ok {p : Option α} {a : α} : deref p = .ok a ↔ p = some a := by
  cases p <;> simp [deref]

end Access

/-! ## Computations that stay in range under a condition -/

section InRange

variable {α : Type u} {β : Type u}

/-- The computation delivers a value when `P` holds, and runs out of range
otherwise. -/
def InRangeIff (P : Prop) (x : Checked α) : Prop :=
  (P ∧ ∃ a, x = .ok a) ∨ (¬P ∧ x = .error .outOfRange)

theorem inRangeIff_ok (a : α) : InRangeIff True (.ok a : Checked α) :=
  Or.inl ⟨trivial, a, rfl⟩

theorem InRangeIff.ne_outOfRange_iff {P : Prop} {x : Checked α} (h : InRangeIff P x) :
    x ≠ .error .outOfRange ↔ P := by
  rcases h with ⟨hP, a, rfl⟩ | ⟨hP, hError⟩
  · simp [hP]
  · simp [hP, hError]

theorem InRangeIff.congr {P Q : Prop} {x : Checked α} (h : InRangeIff P x) (hPQ : P ↔ Q) :
    InRangeIff Q x := by
  unfold InRangeIff
  rw [← hPQ]
  exact h

theorem inRangeIff_elementAt (xs : List α) (i : ℕ) :
    InRangeIff (i < xs.length) (elementAt xs i) := by
  by_cases h : i < xs.length
  · exact Or.inl ⟨h, _, elementAt_of_lt h⟩
  · exact Or.inr ⟨h, elementAt_of_le (not_lt.mp h)⟩

/-- The rule for sequencing. -/
theorem InRangeIff.bind
    {P Q : Prop} {x : Checked α} {f : α → Checked β} (hx : InRangeIff P x)
    (hf : ∀ a, x = .ok a → InRangeIff Q (f a)) :
    InRangeIff (P ∧ Q) (x >>= f) := by
  rcases hx with ⟨hP, a, rfl⟩ | ⟨hP, rfl⟩
  · exact (hf a rfl).congr (by simp [hP])
  · exact Or.inr ⟨fun h => hP h.1, rfl⟩

end InRange

/-! ## Loops with early return -/

/-- The outcome of one loop round, or of a whole loop. -/
inductive Flow (ρ : Type u) (σ : Type v)
  | returned (value : ρ)
  | next (state : σ)
  deriving DecidableEq, Repr

section Loop

variable {ρ : Type u} {σ : Type u} {α : Type v} {τ : Type w}

/-- Run `body` over a list, front to back, until a round returns. -/
def forEach (body : σ → α → Checked (Flow ρ σ)) :
    List α → σ → Checked (Flow ρ σ)
  | [], s => .ok (.next s)
  | a :: as, s =>
      match body s a with
      | .error e => .error e
      | .ok (.returned r) => .ok (.returned r)
      | .ok (.next s') => forEach body as s'

variable {body : σ → α → Checked (Flow ρ σ)}

@[simp] theorem forEach_nil (s : σ) : forEach body [] s = .ok (.next s) := rfl

theorem forEach_cons_of_next
    {a : α} {as : List α} {s s' : σ} (h : body s a = .ok (.next s')) :
    forEach body (a :: as) s = forEach body as s' := by
  simp [forEach, h]

theorem forEach_cons_of_returned
    {a : α} {as : List α} {s : σ} {r : ρ} (h : body s a = .ok (.returned r)) :
    forEach body (a :: as) s = .ok (.returned r) := by
  simp [forEach, h]

theorem forEach_cons_eq_ok
    {a : α} {as : List α} {s : σ} {out : Flow ρ σ} :
    forEach body (a :: as) s = .ok out ↔
      (∃ r, body s a = .ok (.returned r) ∧ out = .returned r) ∨
      (∃ s', body s a = .ok (.next s') ∧ forEach body as s' = .ok out) := by
  cases hBody : body s a with
  | error e => simp [forEach, hBody]
  | ok flow =>
      cases flow with
      | returned r => simp [forEach, hBody, eq_comm]
      | next s' => simp [forEach, hBody]

theorem forEach_cons_eq_next
    {a : α} {as : List α} {s t : σ} :
    forEach body (a :: as) s = .ok (.next t) ↔
      ∃ s', body s a = .ok (.next s') ∧ forEach body as s' = .ok (.next t) := by
  simp [forEach_cons_eq_ok]

/-- A loop that runs to its end simulates the fold of any pure step its rounds
simulate. -/
theorem forEach_simulates
    {R : σ → τ → Prop} {g : τ → α → τ} {xs : List α} {s s' : σ} {t : τ}
    (hStep : ∀ s t a s', a ∈ xs → R s t → body s a = .ok (.next s') → R s' (g t a))
    (hStart : R s t)
    (hRun : forEach body xs s = .ok (.next s')) :
    R s' (xs.foldl g t) := by
  induction xs generalizing s t with
  | nil =>
      simp only [forEach_nil, Except.ok.injEq, Flow.next.injEq] at hRun
      subst hRun
      simpa using hStart
  | cons a as ih =>
      obtain ⟨s₁, hBody, hRest⟩ := forEach_cons_eq_next.mp hRun
      have hNext : R s₁ (g t a) := hStep s t a s₁ (by simp) hStart hBody
      exact ih (fun s t b s' hb => hStep s t b s' (by simp [hb])) hNext hRest

/-- What every round preserves, a loop that runs to its end preserves. -/
theorem forEach_invariant
    {I : σ → Prop} {xs : List α} {s s' : σ}
    (hStep : ∀ s a s', a ∈ xs → I s → body s a = .ok (.next s') → I s')
    (hStart : I s)
    (hRun : forEach body xs s = .ok (.next s')) :
    I s' :=
  forEach_simulates (R := fun s (_ : Unit) => I s) (g := fun t _ => t) (t := ())
    (fun s _ a s' ha hI hBody => hStep s a s' ha hI hBody) hStart hRun

/-- If an early return implies `P` in each round, it implies `P` for the loop. -/
theorem forEach_returned
    {P : ρ → Prop} {xs : List α} {s : σ} {r : ρ}
    (hStep : ∀ s a r, a ∈ xs → body s a = .ok (.returned r) → P r)
    (hRun : forEach body xs s = .ok (.returned r)) :
    P r := by
  induction xs generalizing s with
  | nil => simp at hRun
  | cons a as ih =>
      rcases forEach_cons_eq_ok.mp hRun with ⟨r', hBody, hr⟩ | ⟨s', -, hRest⟩
      · cases hr
        exact hStep s a r (by simp) hBody
      · exact ih (fun s b r hb => hStep s b r (by simp [hb])) hRest

end Loop

/-! ## Loops that may fail -/

section FoldLoop

variable {ε : Type w} {σ : Type u} {α : Type v}

/-- A loop over a list delivers a value when every round does that finds what the rounds
before it leave. -/
theorem foldlM_ok
    {body : σ → α → Except ε σ} {I : List α → σ → Prop} {xs : List α} {s : σ}
    (hStep : ∀ pre, ∀ x ∈ xs, ∀ s, I pre s → ∃ s', body s x = .ok s' ∧ I (pre ++ [x]) s')
    (hStart : I [] s) :
    ∃ s', xs.foldlM body s = .ok s' ∧ I xs s' := by
  induction xs using List.reverseRecOn with
  | nil => exact ⟨s, rfl, hStart⟩
  | append_singleton xs x ih =>
      obtain ⟨s₁, hRun, hInv⟩ := ih fun pre y hy => hStep pre y (List.mem_append_left [x] hy)
      obtain ⟨s₂, hRound, hNext⟩ := hStep xs x (by simp) s₁ hInv
      refine ⟨s₂, ?_, hNext⟩
      rw [List.foldlM_append, hRun, ok_bind, List.foldlM_cons, hRound, ok_bind]
      rfl

end FoldLoop

/-! ## Loops over a range -/

section RangeLoop

variable {ε : Type w} {σ : Type u} {body : σ → ℕ → Except ε σ}

/-- A loop over a range delivers a value when every round does that finds what the
rounds before it leave. -/
theorem foldlM_range_ok
    {I : ℕ → σ → Prop} {n : ℕ} {s : σ}
    (hStep : ∀ i < n, ∀ s, I i s → ∃ s', body s i = .ok s' ∧ I (i + 1) s')
    (hStart : I 0 s) :
    ∃ s', (List.range n).foldlM body s = .ok s' ∧ I n s' := by
  induction n with
  | zero => exact ⟨s, rfl, hStart⟩
  | succ n ih =>
      obtain ⟨s₁, hRun, hInv⟩ := ih fun i hi => hStep i (Nat.lt_succ_of_lt hi)
      obtain ⟨s₂, hRound, hNext⟩ := hStep n (Nat.lt_succ_self n) s₁ hInv
      refine ⟨s₂, ?_, hNext⟩
      rw [List.range_succ, List.foldlM_append, hRun, ok_bind, List.foldlM_cons, hRound, ok_bind]
      rfl

end RangeLoop

end Support
