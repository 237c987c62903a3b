import SocietyGold.VarInt
import Mathlib.Data.Nat.ModEq

/-!
# The numbers that byte sequences stand for

The comment above `ReadVarInt` says which number a byte sequence encodes, and that every
number has exactly one encoding.  This is so for numbers of any size.  The reader returns
the number in the width of its type, where the numbers of different sequences may coincide.
-/

namespace SocietyGold

open Support

/-! ## Codes -/

/-- The sequences the comment is about: all bytes but the last one say that another digit
follows. -/
def IsVarIntCode : List UInt8 → Prop
  | [] => False
  | [chData] => ¬(chData &&& 0x80 ≠ 0)
  | chData :: rest => chData &&& 0x80 ≠ 0 ∧ IsVarIntCode rest

/-- The number that a sequence encodes: one is added to all digits but the last. -/
def encodedNumber : List UInt8 → ℕ
  | [] => 0
  | [chData] => (chData &&& 0x7F).toNat
  | chData :: rest => 128 ^ rest.length * ((chData &&& 0x7F).toNat + 1) + encodedNumber rest

/-- The digits of a sequence, least significant first. -/
def codeDigits (bytes : List UInt8) : List ℕ :=
  (bytes.map fun chData => (chData &&& 0x7F).toNat).reverse

theorem low_lt (chData : UInt8) : (chData &&& 0x7F).toNat < 128 := by
  rw [UInt8.toNat_and]
  exact lt_of_le_of_lt Nat.and_le_right (by decide)

/-- A byte is made of its digit and its flag. -/
theorem byte_of_low (chData : UInt8) :
    chData = UInt8.ofNat ((chData &&& 0x7F).toNat |||
      if chData &&& 0x80 ≠ 0 then 0x80 else 0x00) := by
  have hAll : ∀ c : Fin 256, UInt8.ofNat c.val = UInt8.ofNat ((UInt8.ofNat c.val &&& 0x7F).toNat |||
      if UInt8.ofNat c.val &&& 0x80 ≠ 0 then 0x80 else 0x00) := by decide +kernel
  have hByte := hAll ⟨chData.toNat, chData.toNat_lt⟩
  simpa using hByte

theorem codeDigits_cons (chData : UInt8) (rest : List UInt8) :
    codeDigits (chData :: rest) = codeDigits rest ++ [(chData &&& 0x7F).toNat] := by
  simp [codeDigits]

theorem length_codeDigits (bytes : List UInt8) : (codeDigits bytes).length = bytes.length := by
  simp [codeDigits]

theorem lt_of_mem_codeDigits {bytes : List UInt8} {d : ℕ} (h : d ∈ codeDigits bytes) : d < 128 := by
  rw [codeDigits, List.mem_reverse] at h
  obtain ⟨chData, -, rfl⟩ := List.mem_map.mp h
  exact low_lt chData

theorem IsVarIntCode.ne_nil {bytes : List UInt8} (h : IsVarIntCode bytes) : bytes ≠ [] := by
  rintro rfl
  exact h

theorem isVarIntCode_cons
    {chData : UInt8} {rest : List UInt8} (h : rest ≠ []) :
    IsVarIntCode (chData :: rest) ↔ chData &&& 0x80 ≠ 0 ∧ IsVarIntCode rest := by
  cases rest with
  | nil => exact absurd rfl h
  | cons next rest => rfl

theorem encodedNumber_cons
    {rest : List UInt8} (h : rest ≠ []) (chData : UInt8) :
    encodedNumber (chData :: rest) =
      128 ^ rest.length * ((chData &&& 0x7F).toNat + 1) + encodedNumber rest := by
  cases rest with
  | nil => exact absurd rfl h
  | cons next rest => rfl

/-- The formula of the comment adds up the digits. -/
theorem encodedNumber_eq (bytes : List UInt8) :
    encodedNumber bytes = bijectiveNumber 128 (codeDigits bytes) := by
  induction bytes with
  | nil => rfl
  | cons chData rest ih =>
      by_cases hNil : rest = []
      · subst hNil
        rfl
      · have hDigits : codeDigits rest ≠ [] := by simpa [codeDigits] using hNil
        rw [encodedNumber_cons hNil, ih, codeDigits_cons, bijectiveNumber_concat hDigits,
          length_codeDigits]
        rfl

/-- Two codes with the same digits are the same. -/
theorem IsVarIntCode.eq_of_digits
    {a b : List UInt8} (ha : IsVarIntCode a) (hb : IsVarIntCode b)
    (hDigits : codeDigits a = codeDigits b) : a = b := by
  induction a generalizing b with
  | nil => exact absurd rfl ha.ne_nil
  | cons chData rest ih =>
      obtain ⟨other, rest', rfl⟩ := List.exists_cons_of_ne_nil hb.ne_nil
      rw [codeDigits_cons, codeDigits_cons] at hDigits
      obtain ⟨hRest, hLow⟩ := List.append_inj' hDigits rfl
      have hLow := List.singleton_inj.mp hLow
      have hLength := congrArg List.length hRest
      rw [length_codeDigits, length_codeDigits] at hLength
      by_cases hNil : rest = []
      · subst hNil
        obtain rfl : rest' = [] := List.eq_nil_of_length_eq_zero hLength.symm
        rw [byte_of_low chData, byte_of_low other, hLow, if_neg ha, if_neg hb]
      · have hNil' : rest' ≠ [] := by
          rintro rfl
          exact hNil (List.eq_nil_of_length_eq_zero hLength)
        obtain ⟨hFlag, ha⟩ := (isVarIntCode_cons hNil).mp ha
        obtain ⟨hFlag', hb⟩ := (isVarIntCode_cons hNil').mp hb
        rw [byte_of_low chData, byte_of_low other, hLow, if_pos hFlag, if_pos hFlag',
          ih ha hb hRest]

/-- Every number has at most one code, as the comment says. -/
theorem IsVarIntCode.eq_of_number
    {a b : List UInt8} (ha : IsVarIntCode a) (hb : IsVarIntCode b)
    (hNumber : encodedNumber a = encodedNumber b) : a = b := by
  have hBack : ∀ {bytes : List UInt8}, IsVarIntCode bytes →
      bijectiveDigits 128 (encodedNumber bytes) = codeDigits bytes := by
    intro bytes hCode
    rw [encodedNumber_eq]
    apply bijectiveDigits_bijectiveNumber
    · simpa [codeDigits] using hCode.ne_nil
    · intro d hMem
      exact lt_of_mem_codeDigits hMem
  apply ha.eq_of_digits hb
  rw [← hBack ha, ← hBack hb, hNumber]

/-! ## Reading -/

section Reading

variable {I : VarIntType}

theorem readVarIntFrom_cons
    (acc : ℕ) (chData : UInt8) (rest : List UInt8) :
    readVarIntFrom (BitVec.ofNat (8 * I.sizeof) acc) (chData :: rest) =
      if chData &&& 0x80 ≠ 0 then
        readVarIntFrom (BitVec.ofNat (8 * I.sizeof)
          (acc * 128 + (chData &&& 0x7F).toNat + 1)) rest
      else some (BitVec.ofNat (8 * I.sizeof) (acc * 128 + (chData &&& 0x7F).toNat), rest) := by
  rw [readVarIntFrom, shift_or_digit acc (low_lt chData)]
  rw [BitVec.ofNat_add _ 1]
  rfl

/-- What the reader consumes completely is a code. -/
theorem isVarIntCode_of_read
    {bytes : List UInt8} {n m : I.Value} (h : readVarIntFrom n bytes = some (m, [])) :
    IsVarIntCode bytes := by
  induction bytes generalizing n with
  | nil => cases h
  | cons chData rest ih =>
      rw [readVarIntFrom] at h
      by_cases hFlag : chData &&& 0x80 ≠ 0
      · rw [if_pos hFlag] at h
        have hRest := ih h
        exact (isVarIntCode_cons hRest.ne_nil).mpr ⟨hFlag, hRest⟩
      · rw [if_neg hFlag, Option.some.injEq, Prod.mk.injEq] at h
        rw [h.2]
        exact hFlag

/-- The reader returns the number of a code in the width of its type. -/
theorem readVarIntFrom_code
    {bytes : List UInt8} (h : IsVarIntCode bytes) (acc : ℕ) :
    readVarIntFrom (BitVec.ofNat (8 * I.sizeof) acc) bytes =
      some (BitVec.ofNat (8 * I.sizeof) (acc * 128 ^ bytes.length + encodedNumber bytes), []) := by
  induction bytes generalizing acc with
  | nil => exact absurd rfl h.ne_nil
  | cons chData rest ih =>
      rw [readVarIntFrom_cons]
      by_cases hNil : rest = []
      · subst hNil
        rw [if_neg h]
        simp [encodedNumber]
      · obtain ⟨hFlag, hRest⟩ := (isVarIntCode_cons hNil).mp h
        rw [if_pos hFlag, ih hRest, encodedNumber_cons hNil, List.length_cons, pow_succ]
        congr 3
        ring

theorem readVarInt_eq_some
    {bytes : List UInt8} {n : I.Value} (h : readVarInt bytes = some (n, [])) :
    IsVarIntCode bytes ∧ n.toNat = encodedNumber bytes % 2 ^ (8 * I.sizeof) := by
  have hCode := isVarIntCode_of_read h
  have hRead := readVarIntFrom_code (I := I) hCode 0
  rw [Nat.zero_mul, Nat.zero_add] at hRead
  have hSame : n = BitVec.ofNat (8 * I.sizeof) (encodedNumber bytes) := by
    have hBoth : some (n, ([] : List UInt8)) =
        some (BitVec.ofNat (8 * I.sizeof) (encodedNumber bytes), []) := h.symm.trans hRead
    exact (Prod.mk.inj (Option.some.inj hBoth)).1
  refine ⟨hCode, ?_⟩
  rw [hSame, BitVec.toNat_ofNat]

/-- Two byte sequences that the reader consumes completely are told apart by the values it
returns exactly if the numbers they encode do not differ by a multiple of 2^32 or 2^64, the
number of values of the type.  In particular, they are if the numbers fit the type. -/
theorem readVarInt_injective_iff
    (I : VarIntType) (a b : List UInt8) (x y : I.Value)
    (ha : readVarInt a = some (x, [])) (hb : readVarInt b = some (y, [])) :
    ((x = y → a = b) ↔
      (encodedNumber a ≡ encodedNumber b [MOD 2 ^ (8 * I.sizeof)] →
        encodedNumber a = encodedNumber b)) ∧
      (encodedNumber a < 2 ^ (8 * I.sizeof) → encodedNumber b < 2 ^ (8 * I.sizeof) →
        x = y → a = b) := by
  obtain ⟨hCode, hValue⟩ := readVarInt_eq_some ha
  obtain ⟨hCode', hValue'⟩ := readVarInt_eq_some hb
  have hSame : x = y ↔ encodedNumber a ≡ encodedNumber b [MOD 2 ^ (8 * I.sizeof)] := by
    rw [← BitVec.toNat_inj, hValue, hValue']
    rfl
  have hCodes : a = b ↔ encodedNumber a = encodedNumber b :=
    ⟨fun h => h ▸ rfl, hCode.eq_of_number hCode'⟩
  have hExact : (x = y → a = b) ↔
      (encodedNumber a ≡ encodedNumber b [MOD 2 ^ (8 * I.sizeof)] →
        encodedNumber a = encodedNumber b) := by
    rw [hSame, hCodes]
  refine ⟨hExact, ?_⟩
  intro hFits hFits'
  apply hExact.mpr
  intro hMod
  rw [Nat.ModEq, Nat.mod_eq_of_lt hFits, Nat.mod_eq_of_lt hFits'] at hMod
  exact hMod

end Reading

/-! ## Two sequences for zero -/

/-- The comment's own sequence for 2^32 is read as zero into 32 bits. -/
theorem varInt_collision :
    ¬∀ (I : VarIntType) (a b : List UInt8) (n : I.Value),
      readVarInt a = some (n, []) → readVarInt b = some (n, []) → a = b := by
  intro h
  have hZero : readVarInt [0x00] = some ((0 : VarIntType.unsignedInt.Value), []) := by
    decide +kernel
  have hOverflow : readVarInt [0x8E, 0xFE, 0xFE, 0xFF, 0x00] =
      some ((0 : VarIntType.unsignedInt.Value), []) := by decide +kernel
  have hEq := h _ _ _ _ hZero hOverflow
  exact absurd hEq (by decide)

/-- The sequences of the comment for 127 and 128 are told apart. -/
theorem varInt_told_apart :
    readVarInt [0x7F] = some ((127 : VarIntType.unsignedInt.Value), []) ∧
      readVarInt [0x80, 0x00] = some ((128 : VarIntType.unsignedInt.Value), []) ∧
      (((127 : VarIntType.unsignedInt.Value) = 128 → [0x7F] = [(0x80 : UInt8), 0x00]) ↔
        (encodedNumber [0x7F] ≡ encodedNumber [0x80, 0x00] [MOD 2 ^ 32] →
          encodedNumber [0x7F] = encodedNumber [0x80, 0x00])) := by
  have hOne : readVarInt [0x7F] = some ((127 : VarIntType.unsignedInt.Value), []) := by
    decide +kernel
  have hTwo : readVarInt [0x80, 0x00] = some ((128 : VarIntType.unsignedInt.Value), []) := by
    decide +kernel
  exact ⟨hOne, hTwo, (readVarInt_injective_iff .unsignedInt _ _ _ _ hOne hTwo).1⟩

end SocietyGold
