import SocietyGold.Serialize
import SocietyGold.Support.BijectiveDigits
import SocietyGold.Support.Checked
import SocietyGold.Support.RoundTrip

/-!
# Variable-length integers

`WriteVarInt` fills a buffer on the stack from the least significant digit on and then
writes it backwards; `ReadVarInt` shifts and adds.  The digits are the ones of bijective
base 128.  They fit into the buffer, and reading them gives the number back.
-/

namespace SocietyGold

open Support

/-- The unsigned integer types that are written as variable-length integers. -/
inductive VarIntType
  | unsignedInt
  | uint64
  deriving DecidableEq, Repr

namespace VarIntType

def sizeof : VarIntType → ℕ
  | unsignedInt => 4
  | uint64 => 8

/-- The bytes of the buffer that `WriteVarInt` has for a number of the type. -/
def bufferSize (I : VarIntType) : ℕ := (8 * I.sizeof + 6) / 7

/-- The numbers of the type. -/
abbrev Value (I : VarIntType) : Type := BitVec (8 * I.sizeof)

end VarIntType

section Code

variable {I : VarIntType}

/-! ## The code -/

theorem varInt_decreases
    {n : I.Value} (h : ¬n ≤ 0x7F) : ((n >>> 7) - 1).toNat = n.toNat / 128 - 1 ∧ 128 ≤ n.toNat := by
  cases I
  · have hLarge : 128 ≤ n.toNat := by
      rw [BitVec.le_def] at h
      exact not_le.mp h
    refine ⟨?_, hLarge⟩
    have hLt : n.toNat < 2 ^ 32 := n.isLt
    have hSub : ((n >>> 7) - 1).toNat = (2 ^ 32 - 1 + n.toNat / 128) % 2 ^ 32 := by
      rw [BitVec.toNat_sub, BitVec.toNat_ushiftRight, Nat.shiftRight_eq_div_pow]
      rfl
    rw [hSub]
    omega
  · have hLarge : 128 ≤ n.toNat := by
      rw [BitVec.le_def] at h
      exact not_le.mp h
    refine ⟨?_, hLarge⟩
    have hLt : n.toNat < 2 ^ 64 := n.isLt
    have hSub : ((n >>> 7) - 1).toNat = (2 ^ 64 - 1 + n.toNat / 128) % 2 ^ 64 := by
      rw [BitVec.toNat_sub, BitVec.toNat_ushiftRight, Nat.shiftRight_eq_div_pow]
      rfl
    rw [hSub]
    omega

def getSizeOfVarInt (n : I.Value) : ℕ :=
  if n ≤ 0x7F then 1 else 1 + getSizeOfVarInt ((n >>> 7) - 1)
termination_by n.toNat
decreasing_by
  have h := varInt_decreases ‹_›
  omega

/-- The loop of `WriteVarInt` that fills the buffer, and the position it ends at. -/
def fillVarInt (tmp : List UInt8) (len : ℕ) (n : I.Value) : Checked (List UInt8 × ℕ) :=
  storeAt tmp len (UInt8.ofNat ((n &&& 0x7F).toNat ||| if len = 0 then 0x00 else 0x80)) >>=
    fun tmp => if n ≤ 0x7F then .ok (tmp, len) else fillVarInt tmp (len + 1) ((n >>> 7) - 1)
termination_by n.toNat
decreasing_by
  have h := varInt_decreases ‹_›
  omega

/-- The loop that writes the buffer backwards. -/
def writeBackwards (tmp : List UInt8) : (len : ℕ) → Checked (List UInt8)
  | 0 => do
      let byte ← elementAt tmp 0
      .ok [byte]
  | len + 1 => do
      let byte ← elementAt tmp (len + 1)
      let bytes ← writeBackwards tmp len
      .ok (byte :: bytes)

/-- `WriteVarInt`: what it writes, unless it leaves its buffer. -/
def writeVarInt (n : I.Value) : Checked (List UInt8) := do
  let (tmp, len) ← fillVarInt (List.replicate I.bufferSize 0) 0 n
  writeBackwards tmp len

/-- The loop of `ReadVarInt`, from the number read so far. -/
def readVarIntFrom (n : I.Value) : Reader I.Value
  | [] => none
  | chData :: rest =>
      let n := (n <<< 7) ||| BitVec.ofNat _ (chData &&& 0x7F).toNat
      if chData &&& 0x80 ≠ 0 then readVarIntFrom (n + 1) rest else some (n, rest)

def readVarInt : Reader I.Value := readVarIntFrom 0

/-! ## Digits -/

/-- The digits of a number of the type. -/
def varIntDigits (n : I.Value) : List ℕ := bijectiveDigits 128 n.toNat

/-- The bytes of digits from a position of the buffer on: all but the one at the start of
the buffer say that another digit follows. -/
def digitBytes : (len : ℕ) → List ℕ → List UInt8
  | _, [] => []
  | len, d :: ds => UInt8.ofNat (d ||| if len = 0 then 0x00 else 0x80) :: digitBytes (len + 1) ds

@[simp] theorem length_digitBytes (len : ℕ) (ds : List ℕ) :
    (digitBytes len ds).length = ds.length := by
  induction ds generalizing len with
  | nil => rfl
  | cons d ds ih => rw [digitBytes, List.length_cons, ih, List.length_cons]

theorem le_iff_toNat_lt {n : I.Value} : n ≤ 0x7F ↔ n.toNat < 128 := by
  rw [BitVec.le_def]
  cases I
  · exact Nat.lt_succ_iff.symm
  · exact Nat.lt_succ_iff.symm

theorem varIntDigits_of_le {n : I.Value} (h : n ≤ 0x7F) : varIntDigits n = [n.toNat] :=
  bijectiveDigits_of_lt (le_iff_toNat_lt.mp h)

theorem varIntDigits_of_not_le
    {n : I.Value} (h : ¬n ≤ 0x7F) :
    varIntDigits n = n.toNat % 128 :: varIntDigits ((n >>> 7) - 1) := by
  obtain ⟨hNext, hLarge⟩ := varInt_decreases h
  unfold varIntDigits
  rw [hNext]
  exact bijectiveDigits_of_le hLarge

theorem toNat_and_low (n : I.Value) : (n &&& 0x7F).toNat = n.toNat % 128 := by
  rw [BitVec.toNat_and]
  cases I
  · exact Nat.and_two_pow_sub_one_eq_mod n.toNat 7
  · exact Nat.and_two_pow_sub_one_eq_mod n.toNat 7

/-- The size function counts the digits. -/
theorem getSizeOfVarInt_eq (n : I.Value) : getSizeOfVarInt n = (varIntDigits n).length := by
  induction n using getSizeOfVarInt.induct with
  | case1 n hSmall =>
      rw [getSizeOfVarInt, if_pos hSmall, varIntDigits_of_le hSmall]
      rfl
  | case2 n hLarge ih =>
      rw [getSizeOfVarInt, if_neg hLarge, ih, varIntDigits_of_not_le hLarge, List.length_cons,
        Nat.add_comm]

/-- Every number of the type has so few digits that they fit into the buffer. -/
theorem getSizeOfVarInt_le (n : I.Value) : getSizeOfVarInt n ≤ I.bufferSize := by
  rw [getSizeOfVarInt_eq]
  have hLt := n.isLt
  cases I
  · apply length_bijectiveDigits_le (by decide)
    calc n.toNat < 2 ^ 32 := hLt
      _ ≤ 128 ^ 5 := by norm_num
  · apply length_bijectiveDigits_le (by decide)
    calc n.toNat < 2 ^ 64 := hLt
      _ ≤ 128 ^ 10 := by norm_num

/-! ## Writing -/

/-- The buffer is filled with the bytes of the digits, if they fit. -/
theorem fillVarInt_eq
    {tmp : List UInt8} {len : ℕ} {n : I.Value}
    (hRoom : len + (varIntDigits n).length ≤ tmp.length) :
    ∃ tmp' last, fillVarInt tmp len n = .ok (tmp', last) ∧
      last + 1 = len + (varIntDigits n).length ∧
      tmp'.take (last + 1) = tmp.take len ++ digitBytes len (varIntDigits n) := by
  induction tmp, len, n using fillVarInt.induct with
  | case1 tmp len n ih =>
      have hLength := List.length_pos_of_ne_nil (bijectiveDigits_ne_nil 128 n.toNat)
      have hLen : len < tmp.length := by
        unfold varIntDigits at hRoom
        omega
      rw [fillVarInt, storeAt, if_pos hLen, ok_bind, toNat_and_low]
      have hTake (byte : UInt8) :
          (tmp.set len byte).take (len + 1) = tmp.take len ++ [byte] := by
        rw [List.take_succ_eq_append_getElem (by simpa using hLen), List.take_set,
          List.set_eq_of_length_le (by simp)]
        simp
      by_cases hSmall : n ≤ 0x7F
      · have hMod : n.toNat % 128 = n.toNat := Nat.mod_eq_of_lt (le_iff_toNat_lt.mp hSmall)
        rw [if_pos hSmall, varIntDigits_of_le hSmall]
        refine ⟨_, len, rfl, rfl, ?_⟩
        rw [hTake, hMod]
        rfl
      · have hDigits := varIntDigits_of_not_le hSmall
        rw [hDigits, List.length_cons] at hRoom
        obtain ⟨tmp', last, hFill, hLast, hBytes⟩ := ih
          (tmp.set len (UInt8.ofNat (n.toNat % 128 ||| if len = 0 then 0x00 else 0x80)))
          hSmall (by rw [List.length_set]; omega)
        rw [if_neg hSmall, hDigits]
        refine ⟨tmp', last, hFill, by rw [hLast, List.length_cons]; omega, ?_⟩
        rw [hBytes, hTake, digitBytes, List.append_assoc]
        rfl

theorem writeBackwards_eq
    {tmp : List UInt8} {len : ℕ} (h : len < tmp.length) :
    writeBackwards tmp len = .ok (tmp.take (len + 1)).reverse := by
  induction len with
  | zero =>
      rw [writeBackwards, elementAt_of_lt h, ok_bind, List.take_succ_eq_append_getElem h]
      rfl
  | succ len ih =>
      rw [writeBackwards, elementAt_of_lt h, ok_bind, ih (by omega), ok_bind,
        List.take_succ_eq_append_getElem h, List.reverse_append]
      rfl

/-- The writer stays in its buffer and writes the digits, the most significant first. -/
theorem writeVarInt_eq (n : I.Value) :
    writeVarInt n = .ok (digitBytes 0 (varIntDigits n)).reverse := by
  have hSize := getSizeOfVarInt_le n
  rw [getSizeOfVarInt_eq] at hSize
  obtain ⟨tmp, last, hFill, hLast, hBytes⟩ := @fillVarInt_eq I (List.replicate I.bufferSize 0) 0 n
    (by rw [List.length_replicate]; omega)
  rw [List.take_zero, List.nil_append] at hBytes
  have hLength := congrArg List.length hBytes
  rw [length_digitBytes, List.length_take] at hLength
  rw [writeVarInt, hFill, ok_bind]
  dsimp only
  rw [writeBackwards_eq (by omega), hBytes]

/-! ## Reading -/

/-- What the two flags of a byte say, for all digits. -/
theorem digitByte_table : ∀ d : Fin 128,
    (UInt8.ofNat (d.val ||| 0x80) &&& 0x80 ≠ 0) ∧
      (UInt8.ofNat (d.val ||| 0x80) &&& 0x7F).toNat = d.val ∧
      ¬(UInt8.ofNat (d.val ||| 0x00) &&& 0x80 ≠ 0) ∧
      (UInt8.ofNat (d.val ||| 0x00) &&& 0x7F).toNat = d.val := by
  decide +kernel

/-- Shifting a number and adding a digit, within the width of the type. -/
theorem shift_or_digit
    (acc : ℕ) {d : ℕ} (h : d < 128) :
    ((BitVec.ofNat (8 * I.sizeof) acc) <<< 7) ||| BitVec.ofNat _ d =
      BitVec.ofNat (8 * I.sizeof) (acc * 128 + d) := by
  obtain ⟨w, hWidth⟩ : ∃ w, 8 * I.sizeof = w + 7 := by
    cases I
    · exact ⟨25, rfl⟩
    · exact ⟨57, rfl⟩
  apply BitVec.eq_of_toNat_eq
  rw [BitVec.toNat_or, BitVec.toNat_shiftLeft, BitVec.toNat_ofNat, BitVec.toNat_ofNat,
    BitVec.toNat_ofNat, Nat.shiftLeft_eq, Nat.mod_mul_mod, hWidth, pow_add]
  have hDigit : d % (2 ^ w * 2 ^ 7) = d := by
    apply Nat.mod_eq_of_lt
    calc d < 2 ^ 7 := h
      _ ≤ 2 ^ w * 2 ^ 7 := Nat.le_mul_of_pos_left _ (by positivity)
  have hSum : (acc * 128 + d) % (2 ^ w * 2 ^ 7) = 2 ^ 7 * (acc % 2 ^ w) + d := by
    have hPow : 2 ^ w * 2 ^ 7 = 2 ^ 7 * 2 ^ w := mul_comm _ _
    have hDiv : (acc * 128 + d) / 2 ^ 7 = acc := by omega
    have hMod : (acc * 128 + d) % 2 ^ 7 = d := by omega
    rw [hPow, Nat.mod_mul, hDiv, hMod, Nat.add_comm]
  rw [hDigit, hSum, Nat.mul_mod_mul_right, mul_comm (acc % 2 ^ w), Nat.two_pow_add_eq_or_of_lt h]

theorem readVarIntFrom_more
    (acc : ℕ) {d : ℕ} (h : d < 128) (rest : List UInt8) :
    readVarIntFrom (BitVec.ofNat (8 * I.sizeof) acc) (UInt8.ofNat (d ||| 0x80) :: rest) =
      readVarIntFrom (BitVec.ofNat (8 * I.sizeof) (acc * 128 + d + 1)) rest := by
  obtain ⟨hFlag, hDigit, -, -⟩ := digitByte_table ⟨d, h⟩
  rw [readVarIntFrom, hDigit, if_pos hFlag, shift_or_digit acc h, BitVec.ofNat_add _ 1]
  rfl

theorem readVarIntFrom_last
    (acc : ℕ) {d : ℕ} (h : d < 128) (rest : List UInt8) :
    readVarIntFrom (BitVec.ofNat (8 * I.sizeof) acc) (UInt8.ofNat (d ||| 0x00) :: rest) =
      some (BitVec.ofNat (8 * I.sizeof) (acc * 128 + d), rest) := by
  obtain ⟨-, -, hFlag, hDigit⟩ := digitByte_table ⟨d, h⟩
  rw [readVarIntFrom, hDigit, if_neg hFlag, shift_or_digit acc h]

/-- Digits that others follow are read one after the other, the most significant first. -/
theorem readVarIntFrom_digits
    {len : ℕ} (hLen : 0 < len) {ds : List ℕ} (hDigits : ∀ d ∈ ds, d < 128) (acc : ℕ)
    (rest : List UInt8) :
    readVarIntFrom (BitVec.ofNat (8 * I.sizeof) acc) ((digitBytes len ds).reverse ++ rest) =
      readVarIntFrom (BitVec.ofNat (8 * I.sizeof)
        (ds.foldr (fun d acc => acc * 128 + d + 1) acc)) rest := by
  induction ds generalizing len rest with
  | nil => rfl
  | cons d ds ih =>
      have hHead := hDigits d List.mem_cons_self
      have hRest := @ih (len + 1) (Nat.succ_pos len)
        (fun d hMem => hDigits d (List.mem_cons_of_mem _ hMem))
        (UInt8.ofNat (d ||| 0x80) :: rest)
      rw [digitBytes, if_neg hLen.ne', List.reverse_cons, List.append_assoc,
        List.singleton_append, hRest, readVarIntFrom_more _ hHead, List.foldr_cons]

/-- The number is read back from its digits. -/
theorem readsAs_readVarInt (n : I.Value) :
    ReadsAs readVarInt (digitBytes 0 (varIntDigits n)).reverse n := by
  intro rest
  have hStart : (0 : I.Value) = BitVec.ofNat (8 * I.sizeof) 0 := rfl
  have hNumber : BitVec.ofNat (8 * I.sizeof) n.toNat = n := by
    rw [BitVec.ofNat_toNat, BitVec.setWidth_eq]
  rw [readVarInt, hStart]
  by_cases hSmall : n ≤ 0x7F
  · have hLast := readVarIntFrom_last (I := I) 0 (le_iff_toNat_lt.mp hSmall) rest
    rw [varIntDigits_of_le hSmall]
    rw [Nat.zero_mul, Nat.zero_add, hNumber] at hLast
    exact hLast
  · obtain ⟨hNext, hLarge⟩ := varInt_decreases hSmall
    have hMod : n.toNat % 128 < 128 := Nat.mod_lt _ (by norm_num)
    have hFold := foldr_bijectiveDigits 128 ((n >>> 7) - 1).toNat
    have hBelow : ∀ d ∈ varIntDigits ((n >>> 7) - 1), d < 128 := fun d hMem =>
      lt_of_mem_bijectiveDigits hMem
    rw [varIntDigits_of_not_le hSmall, digitBytes, List.reverse_cons, List.append_assoc,
      List.singleton_append, readVarIntFrom_digits Nat.one_pos hBelow]
    have hAcc : (varIntDigits ((n >>> 7) - 1)).foldr (fun d acc => acc * 128 + d + 1) 0 =
        n.toNat / 128 := by
      refine hFold.trans ?_
      omega
    have hLast := readVarIntFrom_last (I := I) (n.toNat / 128) hMod rest
    rw [Nat.div_add_mod', hNumber] at hLast
    rw [hAcc]
    exact hLast

/-- For every number of an unsigned type the writer stays in its buffer and writes as many
bytes as `GetSizeOfVarInt` says, and the reader takes exactly these bytes off any stream
that starts with them and returns the number. -/
theorem varInt_roundTrip (I : VarIntType) (n : I.Value) :
    ∃ bytes, writeVarInt n = .ok bytes ∧ bytes.length = getSizeOfVarInt n ∧
      getSizeOfVarInt n ≤ (8 * I.sizeof + 6) / 7 ∧
      ∀ rest, readVarInt (bytes ++ rest) = some (n, rest) := by
  refine ⟨_, writeVarInt_eq n, ?_, getSizeOfVarInt_le n, readsAs_readVarInt n⟩
  rw [List.length_reverse, length_digitBytes, getSizeOfVarInt_eq]

end Code

end SocietyGold
