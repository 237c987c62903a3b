import SocietyGold.ScriptNum
import SocietyGold.Unserialize

/-!
# Compact sizes are canonical

`ReadCompactSize` accepts one form of each size, the one that `WriteCompactSize`
writes: a longer form is refused by the test after its marker, a shorter one does not
exist.  A size is therefore read exactly when the stream starts with its written form.
-/

namespace SocietyGold

open Support

/-! ## Words of a fixed width -/

theorem toBytesLE_fromBytesLE (bytes : List UInt8) :
    toBytesLE bytes.length (fromBytesLE bytes) = bytes := by
  induction bytes with
  | nil => rfl
  | cons b bytes ih =>
      have hNumber : fromBytesLE (b :: bytes) = b.toNat + 256 * fromBytesLE bytes := by
        simp [fromBytesLE, Nat.ofDigits_cons]
      have hByte := b.toNat_lt
      have hLow : (b.toNat + 256 * fromBytesLE bytes) % 256 = b.toNat := by
        omega
      have hHigh : (b.toNat + 256 * fromBytesLE bytes) / 256 = fromBytesLE bytes := by
        omega
      rw [List.length_cons, toBytesLE, hNumber, hLow, hHigh, ih, UInt8.ofNat_toNat]

/-- A word is read exactly when the stream starts with its bytes. -/
theorem readUint_eq_some_iff
    {width n : ℕ} {stream rest : List UInt8} :
    readUint width stream = some (n, rest) ↔
      n < 256 ^ width ∧ stream = toBytesLE width n ++ rest := by
  constructor
  · intro h
    unfold readUint readBytes at h
    split_ifs at h with hLength
    · obtain ⟨hNumber, hRest⟩ := Prod.mk.inj (Option.some.inj h)
      have hTake : (stream.take width).length = width := List.length_take_of_le hLength
      have hLt := fromBytesLE_lt (stream.take width)
      have hBytes := toBytesLE_fromBytesLE (stream.take width)
      rw [hTake, hNumber] at hLt hBytes
      exact ⟨hLt, by rw [hBytes, ← hRest, List.take_append_drop]⟩
    · cases h
  · rintro ⟨hLt, rfl⟩
    exact readsAs_readUint hLt rest

/-! ## Sizes -/

/-- The markers of the longer forms: the marker, the bytes after it, and the least size
that is written so. -/
def compactForms : List (UInt8 × ℕ × ℕ) := [(253, 2, 253), (254, 4, 0x10000), (255, 8, 0x100000000)]

theorem readCompactSize_small
    {chSize : UInt8} (h : chSize.toNat < 253) (rest : List UInt8) :
    readCompactSize (chSize :: rest) = some (chSize.toNat, rest) := by
  have hMax : ¬chSize.toNat > MAX_SIZE := by
    unfold MAX_SIZE
    omega
  simp [readCompactSize, readUint_one_cons, h, hMax]

theorem readCompactSize_marked
    {marker : UInt8} {width least : ℕ} (h : (marker, width, least) ∈ compactForms)
    (tail : List UInt8) :
    readCompactSize (marker :: tail) = (readUint width tail).bind fun word =>
      if word.1 < least ∨ MAX_SIZE < word.1 then none else some word := by
  have hWord (least : ℕ) (word : Option (ℕ × List UInt8)) :
      ((word.map fun word => (word.1, least, word.2)).bind fun found =>
        if found.1 < found.2.1 then none
        else if found.1 > MAX_SIZE then none else some (found.1, found.2.2)) =
      word.bind fun word => if word.1 < least ∨ MAX_SIZE < word.1 then none else some word := by
    cases word with
    | none => rfl
    | some word =>
        by_cases hLeast : word.1 < least
        · simp [hLeast]
        · simp [hLeast]
  simp only [compactForms, List.mem_cons, List.not_mem_nil, or_false, Prod.mk.injEq] at h
  rcases h with ⟨rfl, rfl, rfl⟩ | ⟨rfl, rfl, rfl⟩ | ⟨rfl, rfl, rfl⟩
  · rw [← hWord]
    simp [readCompactSize, readUint_one_cons]
  · rw [← hWord]
    simp [readCompactSize, readUint_one_cons]
  · rw [← hWord]
    simp [readCompactSize, readUint_one_cons]

/-- From its least size on, a form is the one that is written, as far as its word goes. -/
theorem writeCompactSize_marked
    {marker : UInt8} {width least n : ℕ} (h : (marker, width, least) ∈ compactForms)
    (hLeast : least ≤ n) (hFits : n < 256 ^ width) :
    writeCompactSize n = marker :: toBytesLE width n := by
  simp only [compactForms, List.mem_cons, List.not_mem_nil, or_false, Prod.mk.injEq] at h
  rcases h with ⟨rfl, rfl, rfl⟩ | ⟨rfl, rfl, rfl⟩ | ⟨rfl, rfl, rfl⟩
  · rw [writeCompactSize, if_neg (by omega), if_pos (by omega)]
  · rw [writeCompactSize, if_neg (by omega), if_neg (by omega), if_pos (by omega)]
  · rw [writeCompactSize, if_neg (by omega), if_neg (by omega), if_neg (by omega)]

/-- What is read as a size is its written form. -/
theorem eq_writeCompactSize_of_read
    {n : ℕ} {stream rest : List UInt8} (h : readCompactSize stream = some (n, rest)) :
    stream = writeCompactSize n ++ rest ∧ n ≤ MAX_SIZE := by
  cases stream with
  | nil => cases h
  | cons chSize tail =>
      by_cases hSmall : chSize.toNat < 253
      · rw [readCompactSize_small hSmall] at h
        obtain ⟨rfl, rfl⟩ := Prod.mk.inj (Option.some.inj h)
        have hByte : toBytesLE 1 chSize.toNat = [chSize] := by
          have hBytes := toBytesLE_fromBytesLE [chSize]
          simpa [fromBytesLE] using hBytes
        refine ⟨by rw [writeCompactSize, if_pos hSmall, hByte, List.singleton_append], ?_⟩
        unfold MAX_SIZE
        omega
      · obtain ⟨width, least, hForm⟩ : ∃ width least, (chSize, width, least) ∈ compactForms := by
          have hByte := chSize.toNat_lt
          have hMarker : chSize.toNat = 253 ∨ chSize.toNat = 254 ∨ chSize.toNat = 255 := by
            omega
          rcases hMarker with hEq | hEq | hEq
          · exact ⟨2, 253, by simp [compactForms, ← UInt8.toNat_inj, hEq]⟩
          · exact ⟨4, 0x10000, by simp [compactForms, ← UInt8.toNat_inj, hEq]⟩
          · exact ⟨8, 0x100000000, by simp [compactForms, ← UInt8.toNat_inj, hEq]⟩
        rw [readCompactSize_marked hForm, Option.bind_eq_some_iff] at h
        obtain ⟨⟨m, rest'⟩, hRead, hTest⟩ := h
        obtain ⟨hFits, hTail⟩ := readUint_eq_some_iff.mp hRead
        split_ifs at hTest with hRefused
        obtain ⟨rfl, rfl⟩ := Prod.mk.inj (Option.some.inj hTest)
        obtain ⟨hLeast, hMax⟩ := not_or.mp hRefused
        rw [writeCompactSize_marked hForm (not_lt.mp hLeast) hFits, hTail, List.cons_append]
        exact ⟨rfl, not_lt.mp hMax⟩

theorem readCompactSize_eq_some_iff
    {n : ℕ} {stream rest : List UInt8} :
    readCompactSize stream = some (n, rest) ↔
      stream = writeCompactSize n ++ rest ∧ n ≤ MAX_SIZE := by
  constructor
  · exact eq_writeCompactSize_of_read
  · rintro ⟨rfl, hMax⟩
    exact readsAs_readCompactSize hMax rest

/-- `ReadCompactSize` returns the number after it has consumed so many bytes. -/
def ReadsSizeIn (stream : List UInt8) (n k : ℕ) : Prop :=
  k ≤ stream.length ∧ readCompactSize stream = some (n, stream.drop k)

theorem readsSizeIn_iff
    {stream : List UInt8} {n k : ℕ} :
    ReadsSizeIn stream n k ↔
      k ≤ stream.length ∧ stream.take k = writeCompactSize n ∧ n ≤ MAX_SIZE := by
  unfold ReadsSizeIn
  rw [readCompactSize_eq_some_iff]
  constructor
  · rintro ⟨hLength, hStream, hMax⟩
    refine ⟨hLength, ?_, hMax⟩
    have hSplit := (List.take_append_drop k stream).trans hStream
    exact List.append_cancel_right hSplit
  · rintro ⟨hLength, hTake, hMax⟩
    exact ⟨hLength, by rw [← hTake, List.take_append_drop], hMax⟩

theorem ReadsSizeIn.eq_size
    {stream : List UInt8} {n k : ℕ} (h : ReadsSizeIn stream n k) :
    k = getSizeOfCompactSize n := by
  obtain ⟨hLength, hTake, -⟩ := readsSizeIn_iff.mp h
  rw [← length_writeCompactSize, ← hTake, List.length_take_of_le hLength]

/-- The reader fails when no number is read. -/
theorem readCompactSize_eq_none_iff
    {stream : List UInt8} :
    readCompactSize stream = none ↔ ∀ n k, ¬ReadsSizeIn stream n k := by
  constructor
  · rintro hNone n k ⟨-, hRead⟩
    rw [hNone] at hRead
    cases hRead
  · intro hNever
    cases hRead : readCompactSize stream with
    | none => rfl
    | some found =>
        have hStream := (eq_writeCompactSize_of_read hRead).1
        refine absurd ⟨?_, ?_⟩ (hNever found.1 (writeCompactSize found.1).length)
        · rw [hStream, List.length_append]
          exact Nat.le_add_right _ _
        · have hDrop : stream.drop (writeCompactSize found.1).length = found.2 := by
            conv_lhs => rw [hStream]
            exact List.drop_left
          rw [hDrop]
          exact hRead

/-- A size is read from a stream exactly when the bytes that are consumed are the ones
written for it and it is not too large; they are as many as `GetSizeOfCompactSize` says.
Any other stream makes the reader throw. -/
theorem compactSize_canonical (stream : List UInt8) :
    (∀ n k, ReadsSizeIn stream n k ↔
      k ≤ stream.length ∧ stream.take k = writeCompactSize n ∧ n ≤ MAX_SIZE) ∧
    (∀ n k, ReadsSizeIn stream n k → k = getSizeOfCompactSize n) ∧
    (readCompactSize stream = none ↔ ∀ n k, ¬ReadsSizeIn stream n k) :=
  ⟨fun _ _ => readsSizeIn_iff, fun _ _ => ReadsSizeIn.eq_size, readCompactSize_eq_none_iff⟩

end SocietyGold
