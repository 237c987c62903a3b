import SocietyGold.Compact

/-!
# The bytes of script numbers

`CScriptNum` refuses operands that are not as short as possible, which are those that
`serialize` does not write.  `CBigNum` comes from a 64-bit integer byte by byte through the
MPI format, and its bytes are the same.
-/

namespace SocietyGold

namespace CBigNum

/-! ## Big numbers from 64-bit integers -/

/-- What `setint64` has after some rounds: the number, shifted, and the bytes after the
length. -/
structure Int64Rounds where
  n : ℕ
  fLeadingZeroes : Bool
  p : List UInt8
  deriving DecidableEq, Repr

/-- One round of `setint64`: take the top byte of the number. -/
def setint64Round (fNegative : Bool) (s : Int64Rounds) : Int64Rounds :=
  let c := UInt8.ofNat (s.n / 2 ^ 56 % 256)
  let n := s.n * 2 ^ 8 % 2 ^ 64
  if s.fLeadingZeroes then
    if c = 0 then ⟨n, true, s.p⟩
    else if c &&& 0x80 ≠ 0 then ⟨n, false, s.p ++ [if fNegative then 0x80 else 0, c]⟩
    else ⟨n, false, s.p ++ [if fNegative then c ||| 0x80 else c]⟩
  else ⟨n, false, s.p ++ [c]⟩

/-- The absolute value, which does not overflow for the least integer either. -/
def absInt64 (sn : ℤ) : ℕ := if sn < 0 then (-(sn + 1)).toNat + 1 else sn.toNat

def setint64 (sn : ℤ) : CBigNum :=
  mpi2bn ((setint64Round (decide (sn < 0)))^[8] ⟨absInt64 sn, true, []⟩).p

/-- `BN_set_word`. -/
def setulong (n : ℕ) : CBigNum := n

/-- The constructor from a `long`. -/
def ofLong (n : ℤ) : CBigNum := if 0 ≤ n then setulong n.toNat else setint64 n

/-- The constructor from a `long long`. -/
def ofLongLong (n : ℤ) : CBigNum := setint64 n

/-- The bytes hold the magnitude, most significant first, with the sign in the top bit. -/
def HoldsMagnitude (fNegative : Bool) (p : List UInt8) (m : ℕ) : Prop :=
  ∃ b bs, p = b :: bs ∧ fromBytesBE ((b &&& 0x7f) :: bs) = m ∧
    (b.toNat < 128 ↔ fNegative = false)

theorem HoldsMagnitude.append
    {fNegative : Bool} {p : List UInt8} {m : ℕ} (h : HoldsMagnitude fNegative p m) (c : UInt8) :
    HoldsMagnitude fNegative (p ++ [c]) (m * 256 + c.toNat) := by
  obtain ⟨b, bs, rfl, hValue, hSign⟩ := h
  refine ⟨b, bs ++ [c], rfl, ?_, hSign⟩
  have hAppend := fromBytesBE_append ((b &&& 0x7f) :: bs) [c]
  rw [List.cons_append] at hAppend
  rw [hAppend, hValue]
  simp [fromBytesBE, fromBytesLE]

theorem HoldsMagnitude.mpi2bn_eq
    {fNegative : Bool} {p : List UInt8} {m : ℕ} (h : HoldsMagnitude fNegative p m) :
    mpi2bn p = if fNegative then -(m : ℤ) else (m : ℤ) := by
  obtain ⟨b, bs, rfl, hValue, hSign⟩ := h
  rw [mpi2bn_cons, hValue]
  cases fNegative with
  | false => rw [if_pos (hSign.mpr rfl), if_neg Bool.false_ne_true]
  | true =>
      have hNot : ¬b.toNat < 128 := fun hLt => Bool.noConfusion (hSign.mp hLt)
      rw [if_neg hNot, if_pos rfl]

/-- The first byte that is not zero starts the form, behind a byte for the sign if it needs
its own top bit. -/
theorem holdsMagnitude_first (fNegative : Bool) (c : UInt8) :
    HoldsMagnitude fNegative
      (if c &&& 0x80 ≠ 0 then [if fNegative then 0x80 else 0, c]
        else [if fNegative then c ||| 0x80 else c]) c.toNat := by
  obtain ⟨hTop, -, hMask, hOr⟩ := signBit_facts c
  obtain ⟨-, -, hMask', -⟩ := signBit_facts (c ||| 0x80)
  by_cases hHigh : c &&& 0x80 ≠ 0
  · rw [if_pos hHigh]
    cases fNegative with
    | false => exact ⟨0, [c], rfl, by simp [fromBytesBE, fromBytesLE, Nat.ofDigits_cons], by decide⟩
    | true =>
        exact ⟨0x80, [c], rfl, by simp [fromBytesBE, fromBytesLE, Nat.ofDigits_cons],
          by decide⟩
  · have hLow : c.toNat < 128 := not_le.mp (mt hTop.mpr hHigh)
    rw [if_neg hHigh]
    cases fNegative with
    | false =>
        refine ⟨c, [], rfl, ?_, by simpa using hLow⟩
        simp only [fromBytesBE, fromBytesLE, List.reverse_singleton, List.map_cons, List.map_nil,
          Nat.ofDigits_singleton, hMask]
        omega
    | true =>
        refine ⟨c ||| 0x80, [], rfl, ?_, ?_⟩
        · simp only [fromBytesBE, fromBytesLE, List.reverse_singleton, List.map_cons,
            List.map_nil, Nat.ofDigits_singleton, hMask', hOr]
          omega
        · simp only [hOr, Bool.true_eq_false, iff_false, not_lt]
          omega

/-- After some rounds the high bytes of the number stand in the form, without leading
zeros, and the others are left. -/
def RoundsDone (fNegative : Bool) (n k : ℕ) (s : Int64Rounds) : Prop :=
  s.n = n * 256 ^ k % 256 ^ 8 ∧
    (s.fLeadingZeroes = true → s.p = [] ∧ n / 256 ^ (8 - k) = 0) ∧
    (s.fLeadingZeroes = false → HoldsMagnitude fNegative s.p (n / 256 ^ (8 - k)))

/-- The byte that a round takes. -/
theorem topByte_eq (n : ℕ) {k : ℕ} (hk : k < 8) :
    n * 256 ^ k % 256 ^ 8 / 2 ^ 56 % 256 = n / 256 ^ (8 - (k + 1)) % 256 := by
  obtain ⟨j, hj⟩ : ∃ j, 8 - (k + 1) = j ∧ 8 = k + (j + 1) ∧ 7 = k + j := ⟨7 - k, by omega⟩
  obtain ⟨hj, hEight, hSeven⟩ := hj
  have hPow : (2 : ℕ) ^ 56 = 256 ^ k * 256 ^ j := by
    rw [← pow_add, ← hSeven]
    norm_num
  have hPos : 0 < 256 ^ k := by positivity
  rw [hj, hPow, hEight, pow_add, mul_comm n, Nat.mul_mod_mul_left, Nat.mul_div_mul_left _ _ hPos,
    pow_succ, Nat.mod_mul_right_div_self, Nat.mod_mod]

theorem roundsDone_round
    {fNegative : Bool} {n k : ℕ} (hk : k < 8) {s : Int64Rounds}
    (h : RoundsDone fNegative n k s) :
    RoundsDone fNegative n (k + 1) (setint64Round fNegative s) := by
  obtain ⟨hN, hLeading, hStarted⟩ := h
  set c := UInt8.ofNat (s.n / 2 ^ 56 % 256) with hC
  have hByte : c.toNat = n / 256 ^ (8 - (k + 1)) % 256 := by
    rw [hC, UInt8.toNat_ofNat', Nat.mod_mod, hN, topByte_eq n hk]
  have hRest : s.n * 2 ^ 8 % 2 ^ 64 = n * 256 ^ (k + 1) % 256 ^ 8 := by
    rw [hN, pow_succ 256 k, ← mul_assoc]
    exact Nat.mod_mul_mod _ _ _
  -- the number down to the byte of this round
  have hSplit : n / 256 ^ (8 - (k + 1)) = n / 256 ^ (8 - k) * 256 + c.toNat := by
    have hPow : 256 ^ (8 - k) = 256 ^ (8 - (k + 1)) * 256 := by
      rw [← pow_succ]
      congr 1
      omega
    rw [hByte, hPow, ← Nat.div_div_eq_div_mul]
    omega
  unfold setint64Round
  dsimp only
  rw [← hC]
  cases hZeroes : s.fLeadingZeroes with
  | false =>
      rw [if_neg Bool.false_ne_true]
      refine ⟨hRest, fun hTrue => Bool.noConfusion hTrue, fun _ => ?_⟩
      rw [hSplit]
      exact (hStarted hZeroes).append c
  | true =>
      obtain ⟨hEmpty, hHigh⟩ := hLeading hZeroes
      rw [hHigh, Nat.zero_mul, Nat.zero_add] at hSplit
      rw [if_pos rfl, hEmpty]
      by_cases hZero : c = 0
      · rw [if_pos hZero]
        refine ⟨hRest, fun _ => ⟨rfl, ?_⟩, fun hFalse => Bool.noConfusion hFalse⟩
        rw [hSplit, hZero]
        rfl
      · have hFirst := holdsMagnitude_first fNegative c
        rw [← hSplit] at hFirst
        rw [if_neg hZero]
        by_cases hTop : c &&& 0x80 ≠ 0
        · rw [if_pos hTop] at hFirst ⊢
          exact ⟨hRest, fun hTrue => Bool.noConfusion hTrue, fun _ => hFirst⟩
        · rw [if_neg hTop] at hFirst ⊢
          exact ⟨hRest, fun hTrue => Bool.noConfusion hTrue, fun _ => hFirst⟩

theorem roundsDone_iterate
    (fNegative : Bool) {n : ℕ} (hn : n < 256 ^ 8) {k : ℕ} (hk : k ≤ 8) :
    RoundsDone fNegative n k ((setint64Round fNegative)^[k] ⟨n, true, []⟩) := by
  induction k with
  | zero =>
      refine ⟨?_, fun _ => ⟨rfl, Nat.div_eq_of_lt hn⟩, fun hFalse => Bool.noConfusion hFalse⟩
      rw [pow_zero, mul_one]
      exact (Nat.mod_eq_of_lt hn).symm
  | succ k ih =>
      rw [Function.iterate_succ_apply']
      exact roundsDone_round hk (ih (Nat.le_of_succ_le hk))

theorem absInt64_eq (sn : ℤ) : absInt64 sn = sn.natAbs := by
  unfold absInt64
  split_ifs
  · omega
  · omega

/-- The conversion is exact for all 64-bit integers. -/
theorem setint64_eq {sn : ℤ} (hLow : -2 ^ 63 ≤ sn) (hHigh : sn < 2 ^ 63) : setint64 sn = sn := by
  have hAbs : sn.natAbs < 256 ^ 8 := by
    norm_num
    omega
  have hDone := roundsDone_iterate (decide (sn < 0)) hAbs le_rfl
  obtain ⟨-, hLeading, hStarted⟩ := hDone
  rw [setint64, absInt64_eq]
  rw [Nat.sub_self, pow_zero, Nat.div_one] at hLeading hStarted
  cases hZeroes : ((setint64Round (decide (sn < 0)))^[8] ⟨sn.natAbs, true, []⟩).fLeadingZeroes with
  | true =>
      obtain ⟨hEmpty, hZero⟩ := hLeading hZeroes
      rw [hEmpty, Int.natAbs_eq_zero.mp hZero]
      rfl
  | false =>
      rw [(hStarted hZeroes).mpi2bn_eq]
      by_cases hNeg : sn < 0
      · have hMinus : -(sn.natAbs : ℤ) = sn := by omega
        rw [decide_eq_true hNeg, if_pos rfl]
        exact hMinus
      · have hPlus : (sn.natAbs : ℤ) = sn := by omega
        rw [decide_eq_false hNeg, if_neg Bool.false_ne_true]
        exact hPlus

/-- Both constructors that take a 64-bit integer are exact. -/
theorem ofLong_eq {n : ℤ} (hLow : -2 ^ 63 ≤ n) (hHigh : n < 2 ^ 63) : ofLong n = n := by
  unfold ofLong setulong
  split_ifs with hPos
  · exact Int.toNat_of_nonneg hPos
  · exact setint64_eq hLow hHigh

end CBigNum

namespace CScriptNum

open CBigNum

/-! ## Minimal operands -/

/-- The bytes of a number are its MPI form, least significant first. -/
theorem serialize_eq_reverse (z : ℤ) : serialize z = (bn2mpi z).reverse :=
  (getvch_eq_serialize z).symm

theorem set_vch_eq_mpi2bn (vch : Valtype) : set_vch vch = mpi2bn vch.reverse :=
  (setvch_eq_set_vch vch).symm

theorem isMinimal_iff (vch : Valtype) : isMinimal vch = true ↔ MinimalMpi vch.reverse := by
  unfold isMinimal
  rcases hReverse : vch.reverse with _ | ⟨b, _ | ⟨second, rest⟩⟩
  · exact iff_of_true rfl trivial
  · obtain ⟨-, -, hMask, -⟩ := signBit_facts b
    simp [MinimalMpi, ← UInt8.toNat_inj, hMask]
  · obtain ⟨-, -, hMask, -⟩ := signBit_facts b
    obtain ⟨hTop, -, -, -⟩ := signBit_facts second
    have hFirst : b &&& 0x7f ≠ 0 ↔ b.toNat % 128 ≠ 0 := by
      rw [← hMask]
      exact (UInt8.toNat_inj (b := 0)).not.symm
    rw [Bool.or_eq_true, decide_eq_true_eq, decide_eq_true_eq, hFirst, hTop]
    constructor
    · rintro (hByte | hByte)
      · exact Or.inl hByte
      · exact Or.inr ⟨second, rest, rfl, hByte⟩
    · rintro (hByte | ⟨c, rest', hEq, hByte⟩)
      · exact Or.inl hByte
      · rw [(List.cons.inj hEq).1]
        exact Or.inr hByte

/-- An operand is as short as possible exactly when writing its value gives it back. -/
theorem isMinimal_iff_serialize (vch : Valtype) :
    isMinimal vch = true ↔ serialize (set_vch vch) = vch := by
  rw [isMinimal_iff, serialize_eq_reverse, set_vch_eq_mpi2bn]
  constructor
  · intro h
    rw [bn2mpi_mpi2bn h, List.reverse_reverse]
  · intro h
    have hForm := minimalMpi_bn2mpi (mpi2bn vch.reverse)
    rwa [← List.reverse_reverse (bn2mpi (mpi2bn vch.reverse)), h] at hForm

/-- The sign takes no byte of its own. -/
theorem length_bn2mpi_natAbs (z : ℤ) : (bn2mpi z).length = mpiLength z.natAbs := by
  unfold mpiLength bn2mpi
  rw [Int.natAbs_natCast]
  rcases (Nat.digits 256 z.natAbs).reverse.map UInt8.ofNat with _ | ⟨b, bs⟩
  · rfl
  · dsimp only
    by_cases hTop : b < 0x80
    · rw [if_pos hTop]
      split_ifs <;> rfl
    · rw [if_neg hTop]
      split_ifs <;> rfl

theorem length_serialize_le {z : ℤ} (h : z.natAbs < 2 ^ 31) : (serialize z).length ≤ 4 := by
  rw [serialize_eq_reverse, List.length_reverse, length_bn2mpi_natAbs]
  by_cases hZero : z.natAbs = 0
  · rw [hZero]
    decide
  · have hSize := le_of_mpiLength hZero
    by_contra hLong
    have hPow : 256 ^ 4 ≤ 256 ^ (mpiLength z.natAbs - 1) :=
      Nat.pow_le_pow_right (by norm_num) (by omega)
    omega

/-- Operands with at most four bytes are accepted exactly when they are minimal. -/
theorem ofVch_eq_some_iff
    {vch : Valtype} (hLength : vch.length ≤ 4) {bn : CScriptNum} :
    ofVch vch true = some bn ↔ isMinimal vch = true ∧ bn = ⟨set_vch vch⟩ := by
  have hShort : ¬vch.length > nDefaultMaxNumSize := not_lt.mpr hLength
  rw [ofVch, if_neg hShort, Bool.true_and]
  cases hMinimal : isMinimal vch with
  | false => simp
  | true => simp [eq_comm]

theorem set_vch_serialize (z : ℤ) : set_vch (serialize z) = z := by
  rw [set_vch_eq_mpi2bn, serialize_eq_reverse, List.reverse_reverse, mpi2bn_bn2mpi]

/-- The numbers that operands can have are read back; an operand is accepted exactly when
it is what is written for its value; and both representations have the same bytes. -/
theorem scriptNum_forms :
    (∀ n : ℤ, n.natAbs < 2 ^ 31 → ofVch (serialize n) true = some ⟨n⟩) ∧
    (∀ vch : Valtype, vch.length ≤ 4 →
      ((ofVch vch true).isSome = true ↔ serialize (set_vch vch) = vch)) ∧
    ∀ n : ℤ, -2 ^ 63 < n → n < 2 ^ 63 →
      CBigNum.getvch (ofLong n) = serialize n ∧ CBigNum.getvch (ofLongLong n) = serialize n := by
  refine ⟨fun n hn => ?_, fun vch hLength => ?_, fun n hLow hHigh => ?_⟩
  · rw [ofVch_eq_some_iff (length_serialize_le hn), isMinimal_iff_serialize, set_vch_serialize]
    exact ⟨rfl, rfl⟩
  · rw [← isMinimal_iff_serialize, Option.isSome_iff_exists]
    constructor
    · rintro ⟨bn, hSome⟩
      exact ((ofVch_eq_some_iff hLength).mp hSome).1
    · intro hMinimal
      exact ⟨_, (ofVch_eq_some_iff hLength).mpr ⟨hMinimal, rfl⟩⟩
  · rw [ofLong_eq hLow.le hHigh, ofLongLong, setint64_eq hLow.le hHigh]
    exact ⟨getvch_eq_serialize n, getvch_eq_serialize n⟩

/-- An integer that needs a byte for its sign, a negative zero, and the largest 64-bit
integer. -/
theorem scriptNum_forms_samples :
    ofVch (serialize (-255)) true = some ⟨-255⟩ ∧
      ((ofVch [0x80] true).isSome = true ↔ serialize (set_vch [0x80]) = [0x80]) ∧
      CBigNum.getvch (ofLong (2 ^ 63 - 1)) = serialize (2 ^ 63 - 1) ∧
      CBigNum.getvch (ofLongLong (2 ^ 63 - 1)) = serialize (2 ^ 63 - 1) :=
  ⟨scriptNum_forms.1 (-255) (by norm_num), scriptNum_forms.2.1 [0x80] (by decide),
    scriptNum_forms.2.2 (2 ^ 63 - 1) (by norm_num) (by norm_num)⟩

end CScriptNum

end SocietyGold
