import Mathlib.Data.Nat.Bitwise
import SocietyGold.Opcodes
import SocietyGold.Support.Guarded

/-!
# Numbers in scripts

The two representations of the operands of the numeric opcodes: `CBigNum`,
through the MPI format, and `CScriptNum`, a 64-bit integer with its own
serialization.  On operands of at most four bytes they give the same results,
byte for byte.
-/

namespace SocietyGold

def INT_MAX : ℤ := 2 ^ 31 - 1

def INT_MIN : ℤ := -2 ^ 31

/-! ## Big numbers -/

namespace CBigNum

/-- `CastToBigNum`, which throws on long operands. -/
def castToBigNum (vch : Valtype) : Option CBigNum :=
  if vch.length > nDefaultMaxNumSize then none else some (setvch (getvch (setvch vch)))

def getint (bn : CBigNum) : ℤ :=
  let n : ℤ := bn.natAbs
  if 0 ≤ bn then (if n > INT_MAX then INT_MAX else n)
  else (if n > INT_MAX then INT_MIN else -n)

/-- The inner switch of the numeric opcodes with one operand. -/
def unary (opcode : Opcodetype) (bn : CBigNum) : Option CBigNum :=
  if opcode = OP_1ADD then some (bn + 1)
  else if opcode = OP_1SUB then some (bn - 1)
  else if opcode = OP_NEGATE then some (-bn)
  else if opcode = OP_ABS then some (if bn < 0 then -bn else bn)
  else if opcode = OP_NOT then some (if bn = 0 then 1 else 0)
  else if opcode = OP_0NOTEQUAL then some (if bn ≠ 0 then 1 else 0)
  else none

/-- The inner switch of the numeric opcodes with two operands. -/
def binary (opcode : Opcodetype) (bn1 bn2 : CBigNum) : Option CBigNum :=
  if opcode = OP_ADD then some (bn1 + bn2)
  else if opcode = OP_SUB then some (bn1 - bn2)
  else if opcode = OP_BOOLAND then some (if bn1 ≠ 0 ∧ bn2 ≠ 0 then 1 else 0)
  else if opcode = OP_BOOLOR then some (if bn1 ≠ 0 ∨ bn2 ≠ 0 then 1 else 0)
  else if opcode = OP_NUMEQUAL then some (if bn1 = bn2 then 1 else 0)
  else if opcode = OP_NUMEQUALVERIFY then some (if bn1 = bn2 then 1 else 0)
  else if opcode = OP_NUMNOTEQUAL then some (if bn1 ≠ bn2 then 1 else 0)
  else if opcode = OP_LESSTHAN then some (if bn1 < bn2 then 1 else 0)
  else if opcode = OP_GREATERTHAN then some (if bn1 > bn2 then 1 else 0)
  else if opcode = OP_LESSTHANOREQUAL then some (if bn1 ≤ bn2 then 1 else 0)
  else if opcode = OP_GREATERTHANOREQUAL then some (if bn1 ≥ bn2 then 1 else 0)
  else if opcode = OP_MIN then some (if bn1 < bn2 then bn1 else bn2)
  else if opcode = OP_MAX then some (if bn1 > bn2 then bn1 else bn2)
  else none

/-! ## Operands -/

/-- An operand as an `int`. -/
def intOperand (vch : Valtype) : Option ℤ := (castToBigNum vch).map getint

def unaryOperand (opcode : Opcodetype) (vch : Valtype) : Option Valtype :=
  (castToBigNum vch).bind fun bn => (unary opcode bn).map getvch

def binaryOperands (opcode : Opcodetype) (vch1 vch2 : Valtype) : Option Valtype :=
  (castToBigNum vch1).bind fun bn1 => (castToBigNum vch2).bind fun bn2 =>
    (binary opcode bn1 bn2).map getvch

/-- Is the first operand at least the second and less than the third? -/
def withinOperands (vch1 vch2 vch3 : Valtype) : Option Bool :=
  (castToBigNum vch1).bind fun bn1 => (castToBigNum vch2).bind fun bn2 =>
    (castToBigNum vch3).map fun bn3 => bn2 ≤ bn1 && bn1 < bn3

end CBigNum

/-! ## Script numbers -/

/-- A script number, whose value is an `int64_t`. -/
structure CScriptNum where
  m_value : ℤ
  deriving DecidableEq, Repr

/-- The value an `int64_t` holds after an operation. -/
def int64 (z : ℤ) : ℤ := z.bmod (2 ^ 64)

namespace CScriptNum

/-- Is the number encoded with as few bytes as possible? -/
def isMinimal (vch : Valtype) : Bool :=
  match vch.reverse with
  | [] => true
  | [b] => b &&& 0x7f ≠ 0
  | b :: second :: _ => b &&& 0x7f ≠ 0 || second &&& 0x80 ≠ 0

/-- Gather the bytes with shifts, then take the sign bit of the last one off. -/
def set_vch (vch : Valtype) : ℤ :=
  let result := (vch.zipIdx.map fun (b, i) => b.toNat <<< (8 * i)).foldl (· ||| ·) 0
  match vch.getLast? with
  | none => 0
  | some b =>
      if b &&& 0x80 ≠ 0 then -(Nat.ldiff result (0x80 <<< (8 * (vch.length - 1))) : ℤ)
      else (result : ℤ)

/-- The constructor from bytes, which throws on long operands and, when asked
to, on operands that are not minimal. -/
def ofVch (vch : Valtype) (fRequireMinimal : Bool) : Option CScriptNum :=
  if vch.length > nDefaultMaxNumSize then none
  else if fRequireMinimal && !isMinimal vch then none
  else some ⟨set_vch vch⟩

/-- The loop of `serialize` delivers the digits of the absolute value in base
256; the last byte then takes the sign, or one more byte does. -/
def serialize (value : ℤ) : Valtype :=
  let result := (Nat.digits 256 value.natAbs).map UInt8.ofNat
  match result.getLast? with
  | none => []
  | some b =>
      if b &&& 0x80 ≠ 0 then result ++ [if value < 0 then 0x80 else 0]
      else if value < 0 then result.dropLast ++ [b ||| 0x80]
      else result

def getvch (bn : CScriptNum) : Valtype := serialize bn.m_value

def getint (bn : CScriptNum) : ℤ :=
  if bn.m_value > INT_MAX then INT_MAX
  else if bn.m_value < INT_MIN then INT_MIN
  else bn.m_value

def add (bn1 bn2 : CScriptNum) : CScriptNum := ⟨int64 (bn1.m_value + bn2.m_value)⟩

def sub (bn1 bn2 : CScriptNum) : CScriptNum := ⟨int64 (bn1.m_value - bn2.m_value)⟩

def neg (bn : CScriptNum) : CScriptNum := ⟨int64 (-bn.m_value)⟩

/-- The inner switch of the numeric opcodes with one operand. -/
def unary (opcode : Opcodetype) (bn : CScriptNum) : Option CScriptNum :=
  if opcode = OP_1ADD then some (bn.add ⟨1⟩)
  else if opcode = OP_1SUB then some (bn.sub ⟨1⟩)
  else if opcode = OP_NEGATE then some bn.neg
  else if opcode = OP_ABS then some (if bn.m_value < 0 then bn.neg else bn)
  else if opcode = OP_NOT then some ⟨if bn.m_value = 0 then 1 else 0⟩
  else if opcode = OP_0NOTEQUAL then some ⟨if bn.m_value ≠ 0 then 1 else 0⟩
  else none

/-- The inner switch of the numeric opcodes with two operands. -/
def binary (opcode : Opcodetype) (bn1 bn2 : CScriptNum) : Option CScriptNum :=
  if opcode = OP_ADD then some (bn1.add bn2)
  else if opcode = OP_SUB then some (bn1.sub bn2)
  else if opcode = OP_BOOLAND then some ⟨if bn1.m_value ≠ 0 ∧ bn2.m_value ≠ 0 then 1 else 0⟩
  else if opcode = OP_BOOLOR then some ⟨if bn1.m_value ≠ 0 ∨ bn2.m_value ≠ 0 then 1 else 0⟩
  else if opcode = OP_NUMEQUAL then some ⟨if bn1.m_value = bn2.m_value then 1 else 0⟩
  else if opcode = OP_NUMEQUALVERIFY then some ⟨if bn1.m_value = bn2.m_value then 1 else 0⟩
  else if opcode = OP_NUMNOTEQUAL then some ⟨if bn1.m_value ≠ bn2.m_value then 1 else 0⟩
  else if opcode = OP_LESSTHAN then some ⟨if bn1.m_value < bn2.m_value then 1 else 0⟩
  else if opcode = OP_GREATERTHAN then some ⟨if bn1.m_value > bn2.m_value then 1 else 0⟩
  else if opcode = OP_LESSTHANOREQUAL then some ⟨if bn1.m_value ≤ bn2.m_value then 1 else 0⟩
  else if opcode = OP_GREATERTHANOREQUAL then some ⟨if bn1.m_value ≥ bn2.m_value then 1 else 0⟩
  else if opcode = OP_MIN then some (if bn1.m_value < bn2.m_value then bn1 else bn2)
  else if opcode = OP_MAX then some (if bn1.m_value > bn2.m_value then bn1 else bn2)
  else none

/-! ## Operands -/

def intOperand (fRequireMinimal : Bool) (vch : Valtype) : Option ℤ :=
  (ofVch vch fRequireMinimal).map getint

def unaryOperand (fRequireMinimal : Bool) (opcode : Opcodetype) (vch : Valtype) : Option Valtype :=
  (ofVch vch fRequireMinimal).bind fun bn => (unary opcode bn).map getvch

def binaryOperands
    (fRequireMinimal : Bool) (opcode : Opcodetype) (vch1 vch2 : Valtype) : Option Valtype :=
  (ofVch vch1 fRequireMinimal).bind fun bn1 => (ofVch vch2 fRequireMinimal).bind fun bn2 =>
    (binary opcode bn1 bn2).map getvch

def withinOperands (fRequireMinimal : Bool) (vch1 vch2 vch3 : Valtype) : Option Bool :=
  (ofVch vch1 fRequireMinimal).bind fun bn1 => (ofVch vch2 fRequireMinimal).bind fun bn2 =>
    (ofVch vch3 fRequireMinimal).map fun bn3 =>
      bn2.m_value ≤ bn1.m_value && bn1.m_value < bn3.m_value

end CScriptNum

/-! ## Bytes -/

/-- What the sign bit and the seven bits under it say about a byte. -/
theorem signBit_table : ∀ i : Fin 256,
    ((UInt8.ofNat i.val &&& 0x80 ≠ 0) ↔ 128 ≤ i.val) ∧
      (UInt8.ofNat i.val < 0x80 ↔ i.val < 128) ∧
      (UInt8.ofNat i.val &&& 0x7f).toNat = i.val % 128 ∧
      (UInt8.ofNat i.val ||| 0x80).toNat = 128 + i.val % 128 := by
  decide +kernel

theorem signBit_facts (b : UInt8) :
    ((b &&& 0x80 ≠ 0) ↔ 128 ≤ b.toNat) ∧ (b < 0x80 ↔ b.toNat < 128) ∧
      (b &&& 0x7f).toNat = b.toNat % 128 ∧ (b ||| 0x80).toNat = 128 + b.toNat % 128 := by
  have h := signBit_table ⟨b.toNat, b.toNat_lt⟩
  simpa using h

/-- The digits of the absolute value, as bytes. -/
theorem fromBytesLE_digits (n : ℕ) :
    fromBytesLE ((Nat.digits 256 n).map UInt8.ofNat) = n := by
  have hBytes : (Nat.digits 256 n).map (UInt8.toNat ∘ UInt8.ofNat) = Nat.digits 256 n := by
    have hId : ∀ d ∈ Nat.digits 256 n, (UInt8.toNat ∘ UInt8.ofNat) d = d := by
      intro d hd
      have hLt : d < 256 := Nat.digits_lt_base (by norm_num) hd
      simp [Nat.mod_eq_of_lt hLt]
    calc (Nat.digits 256 n).map (UInt8.toNat ∘ UInt8.ofNat)
        = (Nat.digits 256 n).map id := List.map_congr_left hId
      _ = Nat.digits 256 n := List.map_id _
  rw [fromBytesLE, List.map_map, hBytes, Nat.ofDigits_digits]

theorem fromBytesLE_append (bytes : List UInt8) (b : UInt8) :
    fromBytesLE (bytes ++ [b]) = fromBytesLE bytes + 256 ^ bytes.length * b.toNat := by
  simp [fromBytesLE, Nat.ofDigits_append]

theorem fromBytesLE_lt (bytes : List UInt8) : fromBytesLE bytes < 256 ^ bytes.length := by
  have h : Nat.ofDigits 256 (bytes.map UInt8.toNat) < 256 ^ (bytes.map UInt8.toNat).length := by
    apply Nat.ofDigits_lt_base_pow_length (by norm_num)
    intro d hd
    obtain ⟨b, -, rfl⟩ := List.mem_map.mp hd
    exact b.toNat_lt
  simpa [fromBytesLE] using h

/-! ## The two serializations -/

/-- Both representations write a number with the same bytes. -/
theorem getvch_eq_serialize (z : ℤ) : CBigNum.getvch z = CScriptNum.serialize z := by
  unfold CBigNum.getvch CBigNum.bn2mpi CScriptNum.serialize
  simp only [List.map_reverse]
  rcases List.eq_nil_or_concat ((Nat.digits 256 z.natAbs).map UInt8.ofNat) with
    hNil | ⟨init, b, hResult⟩
  · simp only [hNil]
    rfl
  · obtain ⟨hSign, hLt, -, -⟩ := signBit_facts b
    simp only [hResult, List.concat_eq_append, List.reverse_append,
      List.reverse_cons, List.reverse_nil, List.nil_append, List.cons_append,
      List.getLast?_append, List.getLast?_singleton, Option.some_or]
    by_cases hTop : b &&& 0x80 ≠ 0
    · have hNot : ¬ b < 0x80 := by
        rw [hLt]
        have := hSign.mp hTop
        omega
      rw [if_pos hTop, if_neg hNot]
      by_cases hNeg : z < 0
      · simp [hNeg]
      · simp [hNeg]
    · have hPos : b < 0x80 := by
        rw [hLt]
        have := mt hSign.mpr hTop
        omega
      rw [if_neg hTop, if_pos hPos]
      by_cases hNeg : z < 0
      · simp [hNeg]
      · simp [hNeg]

/-! ## Reading the bytes back -/

/-- Shifted into place, the bytes do not overlap. -/
theorem shifted_or (vch : Valtype) :
    (vch.zipIdx.map fun (b, i) => b.toNat <<< (8 * i)).foldl (· ||| ·) 0 = fromBytesLE vch := by
  induction vch using List.reverseRecOn with
  | nil => rfl
  | append_singleton init b ih =>
      have hLt : fromBytesLE init < 2 ^ (8 * init.length) := by
        have h := fromBytesLE_lt init
        rwa [show (256 : ℕ) = 2 ^ 8 by norm_num, ← pow_mul] at h
      rw [List.zipIdx_append, List.map_append, List.foldl_append, ih, fromBytesLE_append]
      calc fromBytesLE init ||| b.toNat <<< (8 * (0 + init.length))
          = b.toNat <<< (8 * init.length) ||| fromBytesLE init := by
            rw [zero_add, Nat.or_comm]
        _ = b.toNat <<< (8 * init.length) + fromBytesLE init :=
            (Nat.shiftLeft_add_eq_or_of_lt hLt _).symm
        _ = fromBytesLE init + 256 ^ init.length * b.toNat := by
            rw [Nat.shiftLeft_eq, pow_mul]
            ring

/-- Taking the highest bit off. -/
theorem ldiff_two_pow {n c : ℕ} (hc : c < 2 ^ n) : Nat.ldiff (2 ^ n + c) (2 ^ n) = c := by
  apply Nat.eq_of_testBit_eq
  intro i
  rw [Nat.testBit_ldiff, Nat.testBit_two_pow]
  rcases lt_trichotomy n i with hi | hi | hi
  · have hBig : 2 ^ n + c < 2 ^ i := by
      have hPow : 2 ^ (n + 1) ≤ 2 ^ i := Nat.pow_le_pow_right (by norm_num) hi
      rw [pow_succ] at hPow
      omega
    have hc' : c < 2 ^ i := lt_of_le_of_lt (Nat.le_add_left _ _) hBig
    rw [Nat.testBit_lt_two_pow hBig, Nat.testBit_lt_two_pow hc', Bool.false_and]
  · subst hi
    simp [Nat.testBit_lt_two_pow hc]
  · rw [Nat.testBit_two_pow_add_gt hi]
    simp [show n ≠ i from by omega]

/-- Both representations read the same number. -/
theorem setvch_eq_set_vch (vch : Valtype) : CBigNum.setvch vch = CScriptNum.set_vch vch := by
  unfold CBigNum.setvch CBigNum.mpi2bn CScriptNum.set_vch
  simp only [shifted_or]
  rcases List.eq_nil_or_concat vch with rfl | ⟨init, b, rfl⟩
  · rfl
  · obtain ⟨hSign, hLt, hMask, -⟩ := signBit_facts b
    have hInit := fromBytesLE_lt init
    simp only [List.concat_eq_append, List.reverse_append, List.reverse_cons, List.reverse_nil,
      List.nil_append, List.cons_append, List.reverse_reverse, List.getLast?_append,
      List.getLast?_singleton, Option.some_or, fromBytesLE_append, hMask, List.length_append,
      List.length_cons, List.length_nil, zero_add, Nat.add_sub_cancel]
    by_cases hTop : b &&& 0x80 ≠ 0
    · have hByte := hSign.mp hTop
      have hByteLt := b.toNat_lt
      have hNot : ¬ b < 0x80 := by
        rw [hLt]
        omega
      have hBase : (256 : ℕ) ^ init.length = 2 ^ (8 * init.length) := by
        rw [pow_mul]
        norm_num
      have hBit : 0x80 <<< (8 * init.length) = 2 ^ (8 * init.length + 7) := by
        rw [Nat.shiftLeft_eq, pow_add]
        ring
      have hSplit : fromBytesLE init + 256 ^ init.length * b.toNat =
          2 ^ (8 * init.length + 7) +
            (fromBytesLE init + 256 ^ init.length * (b.toNat % 128)) := by
        have hMod : b.toNat = 128 + b.toNat % 128 := by omega
        rw [pow_add, ← hBase]
        conv_lhs => rw [hMod]
        ring
      have hSmall : fromBytesLE init + 256 ^ init.length * (b.toNat % 128) <
          2 ^ (8 * init.length + 7) := by
        have hMod : b.toNat % 128 + 1 ≤ 128 := Nat.mod_lt _ (by norm_num)
        calc fromBytesLE init + 256 ^ init.length * (b.toNat % 128)
            < 256 ^ init.length * (b.toNat % 128 + 1) := by
              rw [mul_add, mul_one]
              omega
          _ ≤ 256 ^ init.length * 128 := Nat.mul_le_mul_left _ hMod
          _ = 2 ^ (8 * init.length + 7) := by
              rw [pow_add, ← hBase]
              norm_num
      rw [if_pos hTop, if_neg hNot, hBit, hSplit, ldiff_two_pow hSmall]
    · have hByte := mt hSign.mpr hTop
      have hPos : b < 0x80 := by
        rw [hLt]
        omega
      rw [if_neg hTop, if_pos hPos, Nat.mod_eq_of_lt (by omega)]

theorem setvch_concat (init : List UInt8) (b : UInt8) :
    CBigNum.setvch (init ++ [b]) =
      if b.toNat < 128 then
        ((fromBytesLE init + 256 ^ init.length * (b.toNat % 128) : ℕ) : ℤ)
      else -((fromBytesLE init + 256 ^ init.length * (b.toNat % 128) : ℕ) : ℤ) := by
  obtain ⟨-, hLt, hMask, -⟩ := signBit_facts b
  unfold CBigNum.setvch CBigNum.mpi2bn
  simp only [List.reverse_append, List.reverse_cons, List.reverse_nil, List.nil_append,
    List.cons_append, List.reverse_reverse, fromBytesLE_append, hMask]
  by_cases hPos : b < 0x80
  · rw [if_pos hPos, if_pos (hLt.mp hPos)]
  · rw [if_neg hPos, if_neg (mt hLt.mpr hPos)]

/-- Writing a number and reading it back. -/
theorem setvch_getvch (z : ℤ) : CBigNum.setvch (CBigNum.getvch z) = z := by
  rw [getvch_eq_serialize]
  unfold CScriptNum.serialize
  have hAbs := fromBytesLE_digits z.natAbs
  have hMinus (hNeg : z < 0) : -(z.natAbs : ℤ) = z := by omega
  have hPlus (hNeg : ¬ z < 0) : (z.natAbs : ℤ) = z := by omega
  rcases List.eq_nil_or_concat ((Nat.digits 256 z.natAbs).map UInt8.ofNat) with
    hNil | ⟨init, b, hResult⟩
  · rw [hNil] at hAbs ⊢
    have hZero : z = 0 := Int.natAbs_eq_zero.mp hAbs.symm
    rw [hZero]
    rfl
  · obtain ⟨hSign, -, -, hOr⟩ := signBit_facts b
    rw [hResult, List.concat_eq_append, fromBytesLE_append] at hAbs
    simp only [hResult, List.concat_eq_append, List.getLast?_append, List.getLast?_singleton,
      Option.some_or, List.dropLast_concat]
    by_cases hTop : b &&& 0x80 ≠ 0
    · rw [if_pos hTop, setvch_concat]
      rw [← fromBytesLE_append] at hAbs
      by_cases hNeg : z < 0
      · simp only [hNeg, if_true, hAbs]
        rw [if_neg (by decide), show ((0x80 : UInt8).toNat % 128) = 0 by decide, mul_zero,
          add_zero]
        exact hMinus hNeg
      · simp only [hNeg, if_false, hAbs]
        rw [if_pos (by decide), show ((0 : UInt8).toNat % 128) = 0 by decide, mul_zero, add_zero]
        exact hPlus hNeg
    · have hByte : b.toNat < 128 := by
        have := mt hSign.mpr hTop
        omega
      rw [if_neg hTop]
      by_cases hNeg : z < 0
      · rw [if_pos hNeg, setvch_concat]
        rw [hOr, if_neg (by omega), Nat.add_mod_left, Nat.mod_mod, Nat.mod_eq_of_lt hByte, hAbs]
        exact hMinus hNeg
      · rw [if_neg hNeg, setvch_concat]
        rw [if_pos hByte, Nat.mod_eq_of_lt hByte, hAbs]
        exact hPlus hNeg

/-! ## Operands of both representations -/

/-- Operands of at most four bytes stay well inside an `int64_t`. -/
theorem natAbs_setvch_lt {vch : Valtype} (h : ¬ vch.length > nDefaultMaxNumSize) :
    (CBigNum.setvch vch).natAbs < 2 ^ 31 := by
  rcases List.eq_nil_or_concat vch with rfl | ⟨init, b, rfl⟩
  · decide
  · have hLength : init.length ≤ 3 := by
      simp only [nDefaultMaxNumSize, List.concat_eq_append, List.length_append,
        List.length_cons, List.length_nil] at h
      omega
    have hInit := fromBytesLE_lt init
    have hMod : b.toNat % 128 + 1 ≤ 128 := Nat.mod_lt _ (by norm_num)
    have hMagnitude : fromBytesLE init + 256 ^ init.length * (b.toNat % 128) < 2 ^ 31 := by
      calc fromBytesLE init + 256 ^ init.length * (b.toNat % 128)
          < 256 ^ init.length * (b.toNat % 128 + 1) := by
            rw [mul_add, mul_one]
            omega
        _ ≤ 256 ^ 3 * 128 :=
            Nat.mul_le_mul (Nat.pow_le_pow_right (by norm_num) hLength) hMod
        _ = 2 ^ 31 := by norm_num
    rw [List.concat_eq_append, setvch_concat]
    by_cases hPos : b.toNat < 128
    · rw [if_pos hPos, Int.natAbs_natCast]
      exact hMagnitude
    · rw [if_neg hPos, Int.natAbs_neg, Int.natAbs_natCast]
      exact hMagnitude

theorem castToBigNum_lt {vch : Valtype} {bn : CBigNum} (h : CBigNum.castToBigNum vch = some bn) :
    bn.natAbs < 2 ^ 31 := by
  unfold CBigNum.castToBigNum at h
  by_cases hLong : vch.length > nDefaultMaxNumSize
  · rw [if_pos hLong] at h
    exact absurd h (by simp)
  · rw [if_neg hLong, setvch_getvch, Option.some.injEq] at h
    rw [← h]
    exact natAbs_setvch_lt hLong

/-- Without the minimality rule the two constructors accept the same operands
and read the same numbers. -/
theorem ofVch_eq_castToBigNum (vch : Valtype) :
    CScriptNum.ofVch vch false = (CBigNum.castToBigNum vch).map CScriptNum.mk := by
  unfold CScriptNum.ofVch CBigNum.castToBigNum
  by_cases hLong : vch.length > nDefaultMaxNumSize
  · rw [if_pos hLong, if_pos hLong]
    rfl
  · rw [if_neg hLong, if_neg hLong, setvch_getvch, setvch_eq_set_vch]
    rfl

theorem int64_eq {z : ℤ} (h : z.natAbs < 2 ^ 33) : int64 z = z := by
  unfold int64
  rw [Int.bmod_def]
  norm_num
  split_ifs <;> omega

theorem getint_eq {z : ℤ} (h : z.natAbs < 2 ^ 31) :
    CScriptNum.getint ⟨z⟩ = CBigNum.getint z := by
  have hMax : ¬ (z.natAbs : ℤ) > INT_MAX := by
    unfold INT_MAX
    omega
  have hAbove : ¬ z > INT_MAX := by
    unfold INT_MAX
    omega
  have hBelow : ¬ z < INT_MIN := by
    unfold INT_MIN
    omega
  unfold CScriptNum.getint CBigNum.getint
  dsimp only
  rw [if_neg hAbove, if_neg hBelow, if_neg hMax, if_neg hMax]
  by_cases hSign : 0 ≤ z
  · rw [if_pos hSign]
    exact (Int.natAbs_of_nonneg hSign).symm
  · have hAbs : z = -(z.natAbs : ℤ) := by omega
    rw [if_neg hSign]
    exact hAbs

theorem unary_eq (opcode : Opcodetype) {z : ℤ} (h : z.natAbs < 2 ^ 31) :
    CScriptNum.unary opcode ⟨z⟩ = (CBigNum.unary opcode z).map CScriptNum.mk := by
  have hAdd : int64 (z + 1) = z + 1 := int64_eq (by omega)
  have hSub : int64 (z - 1) = z - 1 := int64_eq (by omega)
  have hNeg : int64 (-z) = -z := int64_eq (by omega)
  unfold CScriptNum.unary CBigNum.unary CScriptNum.add CScriptNum.sub CScriptNum.neg
  simp only [hAdd, hSub, hNeg, apply_ite (Option.map CScriptNum.mk), Option.map_some,
    Option.map_none, apply_ite CScriptNum.mk]

theorem binary_eq
    (opcode : Opcodetype) {z₁ z₂ : ℤ} (h₁ : z₁.natAbs < 2 ^ 31) (h₂ : z₂.natAbs < 2 ^ 31) :
    CScriptNum.binary opcode ⟨z₁⟩ ⟨z₂⟩ = (CBigNum.binary opcode z₁ z₂).map CScriptNum.mk := by
  have hAdd : int64 (z₁ + z₂) = z₁ + z₂ := int64_eq (by omega)
  have hSub : int64 (z₁ - z₂) = z₁ - z₂ := int64_eq (by omega)
  unfold CScriptNum.binary CBigNum.binary CScriptNum.add CScriptNum.sub
  simp only [hAdd, hSub, apply_ite (Option.map CScriptNum.mk), Option.map_some,
    Option.map_none, apply_ite CScriptNum.mk]

theorem intOperand_eq (vch : Valtype) :
    CScriptNum.intOperand false vch = CBigNum.intOperand vch := by
  unfold CScriptNum.intOperand CBigNum.intOperand
  rw [ofVch_eq_castToBigNum]
  cases hCast : CBigNum.castToBigNum vch with
  | none => rfl
  | some bn =>
      simp only [Option.map_some, Option.some.injEq]
      exact getint_eq (castToBigNum_lt hCast)

theorem unaryOperand_eq (opcode : Opcodetype) (vch : Valtype) :
    CScriptNum.unaryOperand false opcode vch = CBigNum.unaryOperand opcode vch := by
  unfold CScriptNum.unaryOperand CBigNum.unaryOperand
  rw [ofVch_eq_castToBigNum]
  cases hCast : CBigNum.castToBigNum vch with
  | none => rfl
  | some bn =>
      simp only [Option.map_some, Option.bind_some, unary_eq opcode (castToBigNum_lt hCast),
        Option.map_map]
      congr 1
      funext z
      exact (getvch_eq_serialize z).symm

theorem binaryOperands_eq (opcode : Opcodetype) (vch1 vch2 : Valtype) :
    CScriptNum.binaryOperands false opcode vch1 vch2 =
      CBigNum.binaryOperands opcode vch1 vch2 := by
  unfold CScriptNum.binaryOperands CBigNum.binaryOperands
  rw [ofVch_eq_castToBigNum, ofVch_eq_castToBigNum]
  cases hCast₁ : CBigNum.castToBigNum vch1 with
  | none => rfl
  | some bn1 =>
      cases hCast₂ : CBigNum.castToBigNum vch2 with
      | none => rfl
      | some bn2 =>
          simp only [Option.map_some, Option.bind_some, Option.map_map,
            binary_eq opcode (castToBigNum_lt hCast₁) (castToBigNum_lt hCast₂)]
          congr 1
          funext z
          exact (getvch_eq_serialize z).symm

theorem withinOperands_eq (vch1 vch2 vch3 : Valtype) :
    CScriptNum.withinOperands false vch1 vch2 vch3 =
      CBigNum.withinOperands vch1 vch2 vch3 := by
  unfold CScriptNum.withinOperands CBigNum.withinOperands
  rw [ofVch_eq_castToBigNum, ofVch_eq_castToBigNum, ofVch_eq_castToBigNum]
  cases CBigNum.castToBigNum vch1 with
  | none => rfl
  | some bn1 =>
      cases CBigNum.castToBigNum vch2 with
      | none => rfl
      | some bn2 =>
          cases CBigNum.castToBigNum vch3 with
          | none => rfl
          | some bn3 => rfl

/-! ## Dropping the minimality rule -/

open Support

/-- Fewer operands are rejected when minimality is not asked for. -/
theorem ofVch_lessDefined
    {fRequireMinimal fRequireMinimal' : Bool}
    (h : fRequireMinimal' = true → fRequireMinimal = true) (vch : Valtype) :
    LessDefined (CScriptNum.ofVch vch fRequireMinimal)
      (CScriptNum.ofVch vch fRequireMinimal') := by
  unfold CScriptNum.ofVch
  apply LessDefined.ite
  · intro _
    exact LessDefined.none _
  · intro _ bn hBn
    cases fRequireMinimal' with
    | false =>
        cases hMinimal : fRequireMinimal && !CScriptNum.isMinimal vch with
        | true =>
            rw [hMinimal] at hBn
            exact absurd hBn (by simp)
        | false =>
            rw [hMinimal] at hBn
            simpa using hBn
    | true =>
        rw [h rfl] at hBn
        exact hBn

end SocietyGold
