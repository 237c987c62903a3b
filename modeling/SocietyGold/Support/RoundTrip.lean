import Mathlib.Data.PNat.Defs
import Mathlib.Tactic
import SocietyGold.Support.Checked
import Mathlib.Data.List.Basic
import Mathlib.Data.Set.Basic

/-!
# Readers and the words they read

A reader takes a value off the front of a stream and leaves the rest, or fails.  It
reads a word as a value when it delivers that value from every stream that starts
with the word, and leaves exactly what follows.  No word that is read starts another
one that is read differently.  What a reader delivers at all is a predicate that its
parts pass on.
-/

namespace Support

universe v w

variable {β : Type v} {γ : Type w}

/-- The reader delivers the value from every stream that starts with the word, and
leaves what follows. -/
def ReadsAs (read : List β → Option (γ × List β)) (word : List β) (c : γ) : Prop :=
  ∀ rest, read (word ++ rest) = some (c, rest)

namespace ReadsAs

variable {read : List β → Option (γ × List β)}

/-- Of two words that are read, one starts the other only when they are read alike. -/
theorem eq_of_startsWith
    {word word' : List β} {c c' : γ}
    (h : ReadsAs read word c) (h' : ReadsAs read word' c') (hPrefix : word <+: word') :
    c = c' := by
  obtain ⟨tail, rfl⟩ := hPrefix
  have hLong := h' []
  rw [List.append_nil, h tail] at hLong
  exact (Prod.ext_iff.mp (Option.some.inj hLong)).1

/-- One reader after the other reads the two words in turn. -/
theorem bind
    {δ : Type w} {β : Type w} {read : List β → Option (γ × List β)}
    {next : γ × List β → Option (δ × List β)} {word tail : List β} {c : γ} {d : δ}
    (h : ReadsAs read word c) (hNext : ReadsAs (fun stream => next (c, stream)) tail d) :
    ReadsAs (fun stream => read stream >>= next) (word ++ tail) d := by
  intro rest
  simp only [List.append_assoc, h _, Option.bind_eq_bind, Option.bind_some]
  exact hNext rest

end ReadsAs

/-! ## What a reader delivers -/

/-- Whatever the stream, the reader delivers only such values. -/
def DeliversOnly (read : List β → Option (γ × List β)) (P : γ → Prop) : Prop :=
  ∀ stream c rest, read stream = some (c, rest) → P c

namespace DeliversOnly

/-- One reader after the other delivers what the second one does, given what the first
one delivers. -/
theorem bind
    {δ : Type w} {β : Type w} {read : List β → Option (γ × List β)}
    {next : γ × List β → Option (δ × List β)} {P : γ → Prop} {Q : δ → Prop}
    (h : DeliversOnly read P)
    (hNext : ∀ c, P c → DeliversOnly (fun stream => next (c, stream)) Q) :
    DeliversOnly (fun stream => read stream >>= next) Q := by
  intro stream d rest hRead
  obtain ⟨⟨c, between⟩, hFirst, hSecond⟩ := Option.bind_eq_some_iff.mp hRead
  exact hNext c (h stream c between hFirst) between d rest hSecond

/-- The end of a reader, which leaves the stream alone. -/
theorem pure {c : γ} {P : γ → Prop} (h : P c) :
    DeliversOnly (fun stream : List β => some (c, stream)) P := by
  intro stream d rest hRead
  obtain ⟨rfl, rfl⟩ := Prod.mk.inj (Option.some.inj hRead)
  exact h

end DeliversOnly

/-! ## Reading in a loop -/

/-- A loop whose rounds each read the word of an element and take it in reads all the
words in turn. -/
theorem foldlM_words
    {σ : Type v} {body : σ × List β → γ → Checked (σ × List β)} {word : γ → List β}
    {take : σ → γ → σ} {elements : List γ}
    (h : ∀ c ∈ elements, ∀ s rest, body (s, word c ++ rest) c = .ok (take s c, rest))
    (s : σ) (rest : List β) :
    elements.foldlM body (s, elements.flatMap word ++ rest) =
      .ok (elements.foldl take s, rest) := by
  induction elements generalizing s with
  | nil => rfl
  | cons c elements ih =>
      rw [List.foldlM_cons, List.flatMap_cons, List.append_assoc, h c List.mem_cons_self, ok_bind,
        ih fun c hc => h c (List.mem_cons_of_mem _ hc)]
      rfl

/-! ## Reading in blocks -/

/-- Read `nSize` elements in blocks of at most `chunk`, from element `i` on. -/
def readChunks
    (readBlock : ℕ → List β → Option (List γ × List β)) (chunk : ℕ+) (nSize i : ℕ)
    (stream : List β) : Option (List γ × List β) :=
  if i < nSize then do
    let (block, rest) ← readBlock (min (nSize - i) chunk) stream
    let (later, rest) ← readChunks readBlock chunk nSize (i + min (nSize - i) chunk) rest
    some (block ++ later, rest)
  else some ([], stream)
termination_by nSize - i
decreasing_by
  have hChunk := chunk.pos
  omega

/-- Reading some elements is reading a first part of them and then the others. -/
structure BlockAdditive (readBlock : ℕ → List β → Option (List γ × List β)) : Prop where
  zero : ∀ stream, readBlock 0 stream = some ([], stream)
  add : ∀ m n stream, readBlock (m + n) stream = do
    let (block, rest) ← readBlock m stream
    let (later, rest) ← readBlock n rest
    some (block ++ later, rest)

/-- How a vector is cut into blocks does not matter. -/
theorem readChunks_eq
    {readBlock : ℕ → List β → Option (List γ × List β)} (h : BlockAdditive readBlock)
    (chunk : ℕ+) (nSize i : ℕ) (stream : List β) :
    readChunks readBlock chunk nSize i stream = readBlock (nSize - i) stream := by
  induction i, stream using readChunks.induct chunk nSize with
  | case1 i stream hMore ih =>
      have hSplit : nSize - i = min (nSize - i) chunk + (nSize - (i + min (nSize - i) chunk)) := by
        omega
      rw [readChunks, if_pos hMore]
      conv_rhs => rw [hSplit, h.add]
      cases readBlock (min (nSize - i) chunk) stream with
      | none => rfl
      | some first => simp [ih first.2]
  | case2 i stream hDone =>
      have hZero : nSize - i = 0 := by
        omega
      rw [readChunks, if_neg hDone, hZero, h.zero]

end Support

/-!
# Prefix codes

A code is prefix-free on a set of values when no code word of one value starts the
code word of another.  Then a string starts with the code word of at most one value.
-/

namespace Support

universe u v

variable {α : Type u} {β : Type v}

/-- No code word of a value of the set is a prefix of that of another one. -/
def PrefixFreeOn (code : α → List β) (values : Set α) : Prop :=
  ∀ a ∈ values, ∀ b ∈ values, code a <+: code b → a = b

namespace PrefixFreeOn

variable {code : α → List β} {values : Set α}

theorem mono {smaller : Set α} (h : PrefixFreeOn code values) (hSub : smaller ⊆ values) :
    PrefixFreeOn code smaller :=
  fun a ha b hb hPrefix => h a (hSub ha) b (hSub hb) hPrefix

/-- Two code words that start the same string belong to the same value. -/
theorem eq_of_prefixes
    (h : PrefixFreeOn code values) {a b : α} (ha : a ∈ values) (hb : b ∈ values)
    {word : List β} (hStartA : code a <+: word) (hStartB : code b <+: word) : a = b := by
  rcases List.prefix_or_prefix_of_prefix hStartA hStartB with hPrefix | hPrefix
  · exact h a ha b hb hPrefix
  · exact (h b hb a ha hPrefix).symm

/-- A code whose first symbol tells how many symbols follow is prefix-free as soon as
it is injective. -/
theorem of_header
    {header : α → β} {body : α → List β}
    (hCode : ∀ a ∈ values, code a = header a :: body a)
    (hLength : ∀ a ∈ values, ∀ b ∈ values, header a = header b →
      (body a).length = (body b).length)
    (hInjective : ∀ a ∈ values, ∀ b ∈ values, header a = header b → body a = body b → a = b) :
    PrefixFreeOn code values := by
  intro a ha b hb hPrefix
  rw [hCode a ha, hCode b hb, List.cons_prefix_cons] at hPrefix
  obtain ⟨hHeader, hBody⟩ := hPrefix
  exact hInjective a ha b hb hHeader (hBody.eq_of_length (hLength a ha b hb hHeader))

end PrefixFreeOn

end Support
