import Mathlib.Data.List.Basic
import Mathlib.Tactic

/-!
# Splitting a string into tokens

A tokenizer splits the first token off a string or fails.  What it splits off is
decided by the token alone, whatever follows it.  A token that starts a string is
then the first token of that string, so a token can only be found as a whole.
-/

namespace Support

universe u

variable {β : Type u}

/-- A partial function that splits off the first token, which is decided by its own bytes. -/
structure Tokenizer (β : Type u) where
  next : List β → Option (List β × List β)
  split : ∀ {s t r}, next s = some (t, r) → s = t ++ r ∧ t ≠ []
  decided : ∀ {s t r}, next s = some (t, r) → ∀ s', next (t ++ s') = some (t, s')

namespace Tokenizer

variable (T : Tokenizer β)

/-- The string is one token. -/
def IsToken (t : List β) : Prop := T.next t = some (t, [])

/-- The tokens of a string from its start, and the tail at which the tokenizer fails. -/
def tokensWith : (fuel : ℕ) → List β → List (List β) × List β
  | 0, s => ([], s)
  | fuel + 1, s =>
      match T.next s with
      | none => ([], s)
      | some (t, r) => (t :: (tokensWith fuel r).1, (tokensWith fuel r).2)

/-- A string has no more tokens than elements. -/
def tokens (s : List β) : List (List β) × List β := T.tokensWith s.length s

variable {T}

theorem length_lt {s t r : List β} (h : T.next s = some (t, r)) : r.length < s.length := by
  obtain ⟨rfl, hNe⟩ := T.split h
  have := List.length_pos_of_ne_nil hNe
  rw [List.length_append]
  omega

theorem tokensWith_eq_of_le {fuel : ℕ} {s : List β} (h : s.length ≤ fuel) :
    T.tokensWith fuel s = T.tokens s := by
  suffices hAll : ∀ n fuel s, s.length ≤ n → n ≤ fuel →
      T.tokensWith fuel s = T.tokensWith n s by
    exact hAll s.length fuel s le_rfl h
  intro n
  induction n with
  | zero =>
      intro fuel s hLength _
      cases fuel with
      | zero => rfl
      | succ fuel =>
          cases hNext : T.next s with
          | none => simp [tokensWith, hNext]
          | some pair => exact absurd (length_lt hNext) (by omega)
  | succ n ih =>
      intro fuel s hLength hFuel
      obtain ⟨fuel, rfl⟩ : ∃ k, fuel = k + 1 := ⟨fuel - 1, by omega⟩
      cases hNext : T.next s with
      | none => simp [tokensWith, hNext]
      | some pair =>
          have hShorter := length_lt hNext
          have hRest := ih fuel pair.2 (by omega) (by omega)
          simp only [tokensWith, hNext, hRest]

theorem tokens_of_none {s : List β} (h : T.next s = none) : T.tokens s = ([], s) := by
  rw [← tokensWith_eq_of_le (Nat.le_succ s.length), tokensWith, h]

theorem tokens_of_some {s t r : List β} (h : T.next s = some (t, r)) :
    T.tokens s = (t :: (T.tokens r).1, (T.tokens r).2) := by
  have hShorter := length_lt h
  rw [← tokensWith_eq_of_le (Nat.le_succ s.length), tokensWith, h]
  dsimp only
  rw [tokensWith_eq_of_le hShorter.le]

/-- A token is found at the start of a string only as its first token. -/
theorem next_of_startsWith {b s : List β} (hToken : T.IsToken b) (h : b <+: s) :
    T.next s = some (b, s.drop b.length) := by
  obtain ⟨rest, rfl⟩ := h
  rw [T.decided hToken, List.drop_left]

theorem prefix_iff {b s t r : List β} (hToken : T.IsToken b) (h : T.next s = some (t, r)) :
    b <+: s ↔ t = b := by
  constructor
  · intro hPrefix
    have hFirst := next_of_startsWith hToken hPrefix
    rw [h] at hFirst
    exact congrArg Prod.fst (Option.some.inj hFirst)
  · rintro rfl
    rw [(T.split h).1]
    exact List.prefix_append t r

theorem not_prefix_of_none {b s : List β} (hToken : T.IsToken b) (h : T.next s = none) :
    ¬b <+: s := by
  intro hPrefix
  rw [next_of_startsWith hToken hPrefix] at h
  cases h

end Tokenizer

end Support

/-!
# Parts of a list by position

A list is taken apart from a position on: into the element there and the rest, or into so
many elements and the rest.
-/

namespace Support

universe u

variable {α : Type u} {xs : List α}

theorem drop_eq_cons
    {i : ℕ} {a : α} (h : xs[i]? = some a) : xs.drop i = a :: xs.drop (i + 1) := by
  rw [List.drop_eq_getElem?_toList_append, h]
  rfl

/-- The elements at the positions from `i` on, `n` of them. -/
def slice (xs : List α) (i n : ℕ) : List α := (xs.drop i).take n

theorem drop_eq_append (xs : List α) (i n : ℕ) :
    xs.drop i = slice xs i n ++ xs.drop (i + n) := by
  rw [slice, ← List.drop_drop, List.take_append_drop]

theorem length_slice {i n : ℕ} (h : i + n ≤ xs.length) : (slice xs i n).length = n := by
  rw [slice, List.length_take, List.length_drop]
  omega

theorem slice_append_left
    {pre ys post : List α} {i n : ℕ} (hPre : pre.length = i) (hLength : ys.length = n) :
    slice (pre ++ (ys ++ post)) i n = ys := by
  rw [slice, List.drop_left' hPre, List.take_left' hLength]

end Support
