import Mathlib.Data.List.Nodup
import Mathlib.Tactic
import SocietyGold.Support.Checked

/-!
# Traces of labelled steps

A trace is a finite run of a transition relation whose steps carry lists of
labels; the labels of the run are those of its steps, in order.  An invariant may
speak about the state and the labels so far.  One such invariant is the rule for
resources that are used at most once: if each step uses only resources that are
not marked as used and marks what it uses, no resource is used twice in a run.
-/

namespace Support

universe u v

/-- A run from `s₀`, with the labels of its steps. -/
inductive Trace {σ : Type u} {κ : Type v} (step : σ → List κ → σ → Prop) (s₀ : σ) :
    List κ → σ → Prop
  | start : Trace step s₀ [] s₀
  | next {labels new : List κ} {s s' : σ} (hRun : Trace step s₀ labels s)
      (hStep : step s new s') : Trace step s₀ (labels ++ new) s'

namespace Trace

variable {σ : Type u} {κ : Type v} {step : σ → List κ → σ → Prop} {s₀ s : σ}
  {labels : List κ}

/-- What holds at the start and is preserved by every step holds after every run. -/
theorem invariant
    {I : List κ → σ → Prop} (hStart : I [] s₀)
    (hStep : ∀ labels s new s', I labels s → step s new s' → I (labels ++ new) s')
    (hRun : Trace step s₀ labels s) : I labels s := by
  induction hRun with
  | start => exact hStart
  | next hRun hNext ih => exact hStep _ _ _ _ ih hNext

/-- Resources that each step finds unused and marks as used are used at most once,
and all of them are marked in the end. -/
theorem used_once
    {used : σ → κ → Prop}
    (hNodup : ∀ s new s', step s new s' → new.Nodup)
    (hFresh : ∀ s new s', step s new s' → ∀ k ∈ new, ¬used s k)
    (hMarked : ∀ s new s', step s new s' → ∀ k, used s k ∨ k ∈ new → used s' k)
    (hRun : Trace step s₀ labels s) : labels.Nodup ∧ ∀ k ∈ labels, used s k := by
  refine invariant (I := fun labels s => labels.Nodup ∧ ∀ k ∈ labels, used s k) ?_ ?_ hRun
  · exact ⟨List.nodup_nil, by simp⟩
  · intro labels s new s' hInv hStep
    obtain ⟨hOld, hUsed⟩ := hInv
    constructor
    · refine List.nodup_append.mpr ⟨hOld, hNodup s new s' hStep, ?_⟩
      rintro k hk k' hk' rfl
      exact hFresh s new s' hStep k hk' (hUsed k hk)
    · intro k hk
      rcases List.mem_append.mp hk with hOldMem | hNewMem
      · exact hMarked s new s' hStep k (Or.inl (hUsed k hOldMem))
      · exact hMarked s new s' hStep k (Or.inr hNewMem)

end Trace

end Support

/-!
# Runs over lists of events

A machine takes events one after the other and stops at a fault.  The rules carry an invariant
along a run, and compare a run with the one from which some of its events are removed.
-/

namespace Support

universe u v

section EventRun

variable {σ : Type u} {ε : Type v} (step : ε → σ → Checked σ)

/-- Take the events in order. -/
def runEvents : List ε → σ → Checked σ
  | [], s => .ok s
  | e :: events, s => do
      let s ← step e s
      runEvents events s

variable {step}

@[simp] theorem runEvents_nil (s : σ) : runEvents step [] s = .ok s := rfl

theorem runEvents_cons_eq_ok {e : ε} {events : List ε} {s t : σ} :
    runEvents step (e :: events) s = .ok t ↔
      ∃ u, step e s = .ok u ∧ runEvents step events u = .ok t := by
  rw [runEvents, bind_eq_ok]

theorem runEvents_append_eq_ok {first second : List ε} {s t : σ} :
    runEvents step (first ++ second) s = .ok t ↔
      ∃ u, runEvents step first s = .ok u ∧ runEvents step second u = .ok t := by
  induction first generalizing s with
  | nil => simp
  | cons e first ih =>
      rw [List.cons_append, runEvents_cons_eq_ok]
      constructor
      · rintro ⟨v, hStep, hRest⟩
        obtain ⟨u, hFirst, hSecond⟩ := ih.mp hRest
        exact ⟨u, runEvents_cons_eq_ok.mpr ⟨v, hStep, hFirst⟩, hSecond⟩
      · rintro ⟨u, hFirst, hSecond⟩
        obtain ⟨v, hStep, hFirst⟩ := runEvents_cons_eq_ok.mp hFirst
        exact ⟨v, hStep, ih.mpr ⟨u, hFirst, hSecond⟩⟩

theorem runEvents_concat_eq_ok {events : List ε} {e : ε} {s t : σ} :
    runEvents step (events ++ [e]) s = .ok t ↔
      ∃ u, runEvents step events s = .ok u ∧ step e u = .ok t := by
  rw [runEvents_append_eq_ok]
  constructor
  · rintro ⟨u, hRun, hLast⟩
    obtain ⟨v, hStep, hNil⟩ := runEvents_cons_eq_ok.mp hLast
    rw [runEvents_nil, Except.ok.injEq] at hNil
    exact ⟨u, hRun, hNil ▸ hStep⟩
  · rintro ⟨u, hRun, hStep⟩
    exact ⟨u, hRun, runEvents_cons_eq_ok.mpr ⟨t, hStep, rfl⟩⟩

/-- An invariant of the state, kept by the steps that the run takes. -/
theorem runEvents_invariant
    {I : σ → Prop} {events : List ε} {s t : σ}
    (hStart : I s)
    (hStep : ∀ past e rest u v, events = past ++ e :: rest → runEvents step past s = .ok u →
      I u → step e u = .ok v → I v)
    (hRun : runEvents step events s = .ok t) : I t := by
  induction events using List.reverseRecOn generalizing t with
  | nil =>
      rw [runEvents_nil, Except.ok.injEq] at hRun
      exact hRun ▸ hStart
  | append_singleton events e ih =>
      obtain ⟨u, hPast, hLast⟩ := runEvents_concat_eq_ok.mp hRun
      have hBefore : I u :=
        ih (fun past e' rest u' v hSplit =>
          hStep past e' (rest ++ [e]) u' v (by simp [hSplit])) hPast
      exact hStep events e [] u t rfl hPast hBefore hLast

/-- A run and the one without the events that fail the test end in related states.  The
relation may speak about the events that are still to come: a kept event carries it along both
runs, a removed one along the first run only. -/
theorem runEvents_filter
    {R : List ε → σ → σ → Prop} {keep : ε → Bool} {events : List ε} {s s' t : σ}
    (hKept : ∀ e rest u u' v, keep e = true → R (e :: rest) u u' → step e u = .ok v →
      ∃ v', step e u' = .ok v' ∧ R rest v v')
    (hRemoved : ∀ e rest u u' v, keep e = false → R (e :: rest) u u' → step e u = .ok v →
      R rest v u')
    (hStart : R events s s') (hRun : runEvents step events s = .ok t) :
    ∃ t', runEvents step (events.filter keep) s' = .ok t' ∧ R [] t t' := by
  induction events generalizing s s' with
  | nil =>
      rw [runEvents_nil, Except.ok.injEq] at hRun
      exact ⟨s', rfl, hRun ▸ hStart⟩
  | cons e events ih =>
      obtain ⟨u, hStep, hRest⟩ := runEvents_cons_eq_ok.mp hRun
      cases hKeep : keep e with
      | true =>
          obtain ⟨u', hStep', hNext⟩ := hKept e events s s' u hKeep hStart hStep
          obtain ⟨t', hRest', hEnd⟩ := ih hNext hRest
          rw [List.filter_cons_of_pos hKeep]
          exact ⟨t', runEvents_cons_eq_ok.mpr ⟨u', hStep', hRest'⟩, hEnd⟩
      | false =>
          rw [List.filter_cons_of_neg (by simp [hKeep])]
          exact ih (hRemoved e events s s' u hKeep hStart hStep) hRest

end EventRun

end Support
