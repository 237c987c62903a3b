import Mathlib.Data.Nat.Digits.Lemmas
import SocietyGold.ScriptNum

/-!
# The compact encoding

`GetCompact` keeps the length of the MPI form of a number and its three leading
bytes.  `SetCompact` puts zero bytes in the place of the others.  Decoding an
encoded number is therefore the number cut off after three bytes of its MPI
form, as long as the length of that form fits into one byte.
-/

namespace SocietyGold

namespace CBigNum

/-! ## Bytes, most significant first -/

/-- The number whose bytes are given most significant first. -/
def fromBytesBE (bytes : List UInt8) : ℕ := fromBytesLE bytes.reverse

theorem fromBytesBE_append (xs ys : List UInt8) :
    fromBytesBE (xs ++ ys) = fromBytesBE xs * 256 ^ ys.length + fromBytesBE ys := by
  simp only [fromBytesBE, fromBytesLE, List.reverse_append, List.map_append, Nat.ofDigits_append,
    List.length_map, List.length_reverse]
  ring

theorem fromBytesBE_cons (b : UInt8) (bs : List UInt8) :
    fromBytesBE (b :: bs) = b.toNat * 256 ^ bs.length + fromBytesBE bs := by
  have h := fromBytesBE_append [b] bs
  simpa [fromBytesBE, fromBytesLE] using h

theorem fromBytesBE_lt (bytes : List UInt8) : fromBytesBE bytes < 256 ^ bytes.length := by
  simpa [fromBytesBE] using fromBytesLE_lt bytes.reverse

theorem fromBytesBE_replicate_zero (n : ℕ) : fromBytesBE (List.replicate n 0) = 0 := by
  simp [fromBytesBE, fromBytesLE, Nat.ofDigits_replicate_zero]

/-- Cutting the tail off divides. -/
theorem fromBytesBE_take (bytes : List UInt8) (n : ℕ) :
    fromBytesBE (bytes.take n) = fromBytesBE bytes / 256 ^ (bytes.length - n) := by
  have hSplit := fromBytesBE_append (bytes.take n) (bytes.drop n)
  rw [List.take_append_drop, List.length_drop] at hSplit
  have hTail := fromBytesBE_lt (bytes.drop n)
  rw [List.length_drop] at hTail
  have hPos : 0 < 256 ^ (bytes.length - n) := by positivity
  rw [hSplit, mul_comm, Nat.mul_add_div hPos, Nat.div_eq_of_lt hTail, add_zero]

/-- The bytes of a magnitude. -/
theorem magnitude_fromBytesBE
    {b : UInt8} (hFirst : b.toNat ≠ 0) (bs : List UInt8) :
    (Nat.digits 256 (fromBytesBE (b :: bs))).reverse.map UInt8.ofNat = b :: bs := by
  have hDigits : Nat.digits 256 (fromBytesBE (b :: bs)) = (b :: bs).reverse.map UInt8.toNat := by
    apply Nat.digits_ofDigits 256 (by norm_num)
    · intro d hd
      obtain ⟨b', -, rfl⟩ := List.mem_map.mp hd
      exact b'.toNat_lt
    · intro hNil
      simpa using hFirst
  rw [hDigits, ← List.map_reverse, List.reverse_reverse, List.map_map]
  have hId : (UInt8.ofNat ∘ UInt8.toNat) = id := by
    funext b'
    simp
  rw [hId, List.map_id]

/-! ## The shape of the MPI form -/

/-- The MPI form has no byte too many: the first byte holds more than the sign, or the byte
below needs its top bit. -/
def MinimalMpi : List UInt8 → Prop
  | [] => True
  | b :: bs => b.toNat % 128 ≠ 0 ∨ ∃ c rest, bs = c :: rest ∧ 128 ≤ c.toNat

theorem mpi2bn_cons (b : UInt8) (bs : List UInt8) :
    mpi2bn (b :: bs) =
      if b.toNat < 128 then (fromBytesBE ((b &&& 0x7f) :: bs) : ℤ)
      else -(fromBytesBE ((b &&& 0x7f) :: bs) : ℤ) := by
  obtain ⟨-, hLt, -, -⟩ := signBit_facts b
  unfold mpi2bn fromBytesBE
  by_cases hPos : b < 0x80
  · simp only [if_pos hPos, if_pos (hLt.mp hPos)]
  · simp only [if_neg hPos, if_neg (mt hLt.mpr hPos)]

theorem mpi2bn_bn2mpi (bn : CBigNum) : mpi2bn (bn2mpi bn) = bn := by
  have h := setvch_getvch bn
  rwa [setvch, getvch, List.reverse_reverse] at h

theorem magnitude_ne_zero
    {n : ℕ} {b : UInt8} {bs : List UInt8}
    (h : (Nat.digits 256 n).reverse.map UInt8.ofNat = b :: bs) : b.toNat ≠ 0 := by
  obtain ⟨d, ds, hDigits, hHead, -⟩ := List.map_eq_cons_iff.mp h
  have hNil : Nat.digits 256 n ≠ [] := by
    intro hNil
    simp [hNil] at hDigits
  have hLast := Nat.getLast_digit_ne_zero 256 (Nat.digits_ne_nil_iff_ne_zero.mp hNil)
  have hSame : (Nat.digits 256 n).getLast hNil = d := by
    have hHead? : (Nat.digits 256 n).reverse.head? = some d := by rw [hDigits]; rfl
    rw [List.head?_reverse, List.getLast?_eq_some_getLast hNil] at hHead?
    exact Option.some.inj hHead?
  have hMem : d ∈ Nat.digits 256 n := hSame ▸ List.getLast_mem hNil
  have hSmall : d < 256 := Nat.digits_lt_base (by norm_num) hMem
  rw [← hHead, UInt8.toNat_ofNat', Nat.mod_eq_of_lt hSmall, ← hSame]
  exact hLast

theorem minimalMpi_bn2mpi (bn : CBigNum) : MinimalMpi (bn2mpi bn) := by
  unfold bn2mpi
  cases hMagnitude : (Nat.digits 256 bn.natAbs).reverse.map UInt8.ofNat with
  | nil => trivial
  | cons b bs =>
      have hFirst := magnitude_ne_zero hMagnitude
      obtain ⟨-, hLt, -, hOr⟩ := signBit_facts b
      dsimp only
      by_cases hTop : b < 0x80
      · have hByte := hLt.mp hTop
        rw [if_pos hTop]
        by_cases hNeg : bn < 0
        · simp only [if_pos hNeg, MinimalMpi, hOr]
          left
          omega
        · simp only [if_neg hNeg, MinimalMpi]
          left
          omega
      · have hByte : 128 ≤ b.toNat := not_lt.mp (mt hLt.mpr hTop)
        rw [if_neg hTop]
        by_cases hNeg : bn < 0
        · simp only [if_pos hNeg]
          exact Or.inr ⟨b, bs, rfl, hByte⟩
        · simp only [if_neg hNeg]
          exact Or.inr ⟨b, bs, rfl, hByte⟩

/-- The form of a number that is not negative: a zero byte keeps the top bit free. -/
theorem bn2mpi_natCast
    {n : ℕ} {b : UInt8} {bs : List UInt8}
    (h : (Nat.digits 256 n).reverse.map UInt8.ofNat = b :: bs) :
    bn2mpi (n : ℤ) = if b < 0x80 then b :: bs else 0 :: b :: bs := by
  have hNeg : ¬(n : ℤ) < 0 := by omega
  unfold bn2mpi
  rw [Int.natAbs_natCast, h]
  by_cases hTop : b < 0x80
  · simp only [if_pos hTop, if_neg hNeg]
  · simp only [if_neg hTop, if_neg hNeg]

/-- The form of a negative number has the top bit set. -/
theorem bn2mpi_neg
    {n : ℕ} {b : UInt8} {bs : List UInt8}
    (h : (Nat.digits 256 n).reverse.map UInt8.ofNat = b :: bs) :
    bn2mpi (-(n : ℤ)) = if b < 0x80 then (b ||| 0x80) :: bs else 0x80 :: b :: bs := by
  have hPos : n ≠ 0 := by
    rintro rfl
    simp at h
  have hNeg : -(n : ℤ) < 0 := by omega
  unfold bn2mpi
  rw [Int.natAbs_neg, Int.natAbs_natCast, h]
  by_cases hTop : b < 0x80
  · simp only [if_pos hTop, if_pos hNeg]
  · simp only [if_neg hTop, if_pos hNeg]
    rfl

/-- Reading a minimal form and writing the number again. -/
theorem bn2mpi_mpi2bn {body : List UInt8} (h : MinimalMpi body) : bn2mpi (mpi2bn body) = body := by
  cases body with
  | nil => rfl
  | cons b bs =>
      obtain ⟨-, -, hMask, -⟩ := signBit_facts b
      have hByte := b.toNat_lt
      rw [mpi2bn_cons]
      by_cases hFull : b.toNat % 128 ≠ 0
      · -- the magnitude starts with the first byte, without its sign
        have hFirst : (b &&& 0x7f).toNat ≠ 0 := by rwa [hMask]
        have hMagnitude := magnitude_fromBytesBE hFirst bs
        obtain ⟨-, hLt, -, hOr⟩ := signBit_facts (b &&& 0x7f)
        have hTop : (b &&& 0x7f) < 0x80 := hLt.mpr (by omega)
        by_cases hSign : b.toNat < 128
        · rw [if_pos hSign, bn2mpi_natCast hMagnitude, if_pos hTop]
          congr 1
          apply UInt8.toNat_inj.mp
          omega
        · rw [if_neg hSign, bn2mpi_neg hMagnitude, if_pos hTop]
          congr 1
          apply UInt8.toNat_inj.mp
          omega
      · -- the first byte is the sign alone
        rw [not_not] at hFull
        obtain ⟨c, rest, rfl, hTopBit⟩ := h.resolve_left (not_not.mpr hFull)
        have hZero : b &&& 0x7f = 0 := by
          apply UInt8.toNat_inj.mp
          rw [hMask, hFull]
          rfl
        have hValue : fromBytesBE ((b &&& 0x7f) :: c :: rest) = fromBytesBE (c :: rest) := by
          rw [hZero, fromBytesBE_cons]
          simp
        have hMagnitude := magnitude_fromBytesBE (show c.toNat ≠ 0 by omega) rest
        obtain ⟨-, hLt, -, -⟩ := signBit_facts c
        have hTop : ¬c < 0x80 := mt hLt.mp (not_lt.mpr hTopBit)
        rw [hValue]
        by_cases hSign : b.toNat < 128
        · rw [if_pos hSign, bn2mpi_natCast hMagnitude, if_neg hTop]
          congr 1
          apply UInt8.toNat_inj.mp
          change 0 = b.toNat
          omega
        · rw [if_neg hSign, bn2mpi_neg hMagnitude, if_neg hTop]
          congr 1
          apply UInt8.toNat_inj.mp
          change 128 = b.toNat
          omega

/-! ## Nonnegative numbers -/

theorem head_lt_of_nonneg
    {bn : CBigNum} (hNonneg : 0 ≤ bn) {b : UInt8} {bs : List UInt8}
    (h : bn2mpi bn = b :: bs) : b.toNat < 128 := by
  have hNumber := mpi2bn_bn2mpi bn
  have hMinimal := minimalMpi_bn2mpi bn
  rw [h] at hMinimal hNumber
  by_contra hTop
  rw [mpi2bn_cons, if_neg hTop] at hNumber
  have hZero : fromBytesBE ((b &&& 0x7f) :: bs) = 0 := by
    rw [← hNumber, Left.nonneg_neg_iff] at hNonneg
    exact_mod_cast le_antisymm hNonneg (Int.natCast_nonneg _)
  obtain ⟨-, -, hMask, -⟩ := signBit_facts b
  rw [fromBytesBE_cons, hMask] at hZero
  obtain ⟨hFirst, hRest⟩ := Nat.add_eq_zero_iff.mp hZero
  rcases hMinimal with hFull | ⟨c, rest, rfl, hByte⟩
  · have hPow : 0 < 256 ^ bs.length := by positivity
    rcases Nat.mul_eq_zero.mp hFirst with hMod | hPow'
    · exact hFull hMod
    · omega
  · rw [fromBytesBE_cons] at hRest
    have hPow : 0 < 256 ^ rest.length := by positivity
    have hProduct : 0 < c.toNat * 256 ^ rest.length := Nat.mul_pos (by omega) hPow
    omega

theorem mpi2bn_of_head_lt
    {b : UInt8} (h : b.toNat < 128) (bs : List UInt8) :
    mpi2bn (b :: bs) = fromBytesBE (b :: bs) := by
  obtain ⟨-, -, hMask, -⟩ := signBit_facts b
  have hSame : b &&& 0x7f = b := by
    apply UInt8.toNat_inj.mp
    omega
  rw [mpi2bn_cons, if_pos h, hSame]

theorem fromBytesBE_bn2mpi (n : ℕ) : fromBytesBE (bn2mpi n) = n := by
  have hNumber := mpi2bn_bn2mpi n
  cases hBody : bn2mpi n with
  | nil =>
      rw [hBody] at hNumber
      exact Int.ofNat.inj hNumber
  | cons b bs =>
      have hHead := head_lt_of_nonneg (Int.natCast_nonneg n) hBody
      rw [hBody, mpi2bn_of_head_lt hHead] at hNumber
      exact Int.ofNat.inj hNumber

/-- The length of the MPI form of a natural number, which leaves room for a sign bit. -/
def mpiLength (n : ℕ) : ℕ := (bn2mpi n).length

theorem lt_of_mpiLength (n : ℕ) : 2 * n < 256 ^ mpiLength n := by
  unfold mpiLength
  have hValue := fromBytesBE_bn2mpi n
  cases hBody : bn2mpi n with
  | nil =>
      rw [hBody] at hValue
      rw [← hValue]
      decide
  | cons b bs =>
      have hHead := head_lt_of_nonneg (Int.natCast_nonneg n) hBody
      have hTail := fromBytesBE_lt bs
      rw [hBody, fromBytesBE_cons] at hValue
      have hBytes : (b.toNat + 1) * 256 ^ bs.length ≤ 128 * 256 ^ bs.length :=
        Nat.mul_le_mul_right _ hHead
      rw [List.length_cons, pow_succ]
      rw [add_mul] at hBytes
      omega

theorem le_of_mpiLength {n : ℕ} (h : n ≠ 0) : 256 ^ (mpiLength n - 1) ≤ 2 * n := by
  unfold mpiLength
  have hValue := fromBytesBE_bn2mpi n
  have hMinimal := minimalMpi_bn2mpi n
  cases hBody : bn2mpi n with
  | nil =>
      rw [hBody] at hValue
      exact absurd hValue.symm h
  | cons b bs =>
      rw [hBody] at hMinimal
      rw [hBody, fromBytesBE_cons] at hValue
      rw [List.length_cons, Nat.add_sub_cancel]
      rcases hMinimal with hFull | ⟨c, rest, rfl, hByte⟩
      · have hFirst : 1 * 256 ^ bs.length ≤ b.toNat * 256 ^ bs.length :=
          Nat.mul_le_mul_right _ (by omega)
        omega
      · rw [fromBytesBE_cons] at hValue
        have hSecond : 128 * 256 ^ rest.length ≤ c.toNat * 256 ^ rest.length :=
          Nat.mul_le_mul_right _ hByte
        rw [List.length_cons, pow_succ]
        omega

theorem mpiLength_lt_of_bits {n k : ℕ} (hk : k ≤ 8 * 254) (h : n < 2 ^ k) :
    mpiLength n < 256 := by
  by_cases hZero : n = 0
  · rw [hZero]
    decide
  · have hLower := le_of_mpiLength hZero
    have hUpper : 256 ^ (mpiLength n - 1) < 2 ^ (k + 1) := by
      rw [pow_succ]
      omega
    rw [show (256 : ℕ) = 2 ^ 8 by norm_num, ← pow_mul] at hUpper
    have hBits := (Nat.pow_lt_pow_iff_right (by norm_num)).mp hUpper
    omega

theorem mpiLength_lt {n : ℕ} (h : n < 2 ^ (8 * 254)) : mpiLength n < 256 :=
  mpiLength_lt_of_bits (le_refl _) h

theorem mpiLength_mono {m n : ℕ} (h : m ≤ n) : mpiLength m ≤ mpiLength n := by
  by_cases hZero : m = 0
  · rw [hZero]
    exact Nat.zero_le _
  · have hLower := le_of_mpiLength hZero
    have hUpper := lt_of_mpiLength n
    have hPow : (256 : ℕ) ^ (mpiLength m - 1) < 256 ^ mpiLength n := by omega
    have := (Nat.pow_lt_pow_iff_right (by norm_num)).mp hPow
    omega

/-! ## Encoding and decoding -/

/-- The fields of the compact form do not overlap. -/
theorem compact_or
    {size b₀ b₁ b₂ : ℕ} (h₀ : b₀ < 256) (h₁ : b₁ < 256) (h₂ : b₂ < 256) :
    size * 2 ^ 24 ||| b₀ * 2 ^ 16 ||| b₁ * 2 ^ 8 ||| b₂ =
      size * 2 ^ 24 + b₀ * 2 ^ 16 + b₁ * 2 ^ 8 + b₂ := by
  have hFirst : size * 2 ^ 24 ||| b₀ * 2 ^ 16 = 2 ^ 16 * (size * 2 ^ 8 + b₀) := by
    rw [mul_comm size, ← Nat.two_pow_add_eq_or_of_lt (by omega)]
    ring
  have hSecond : 2 ^ 16 * (size * 2 ^ 8 + b₀) ||| b₁ * 2 ^ 8 =
      2 ^ 8 * ((size * 2 ^ 8 + b₀) * 2 ^ 8 + b₁) := by
    rw [← Nat.two_pow_add_eq_or_of_lt (by omega)]
    ring
  rw [hFirst, hSecond, ← Nat.two_pow_add_eq_or_of_lt (by omega)]
  ring

/-- The byte of the MPI form at a position, or zero past its end. -/
def byteAt (body : List UInt8) (i : ℕ) : UInt8 := (body[i]?).getD 0

theorem getCompact_eq (bn : CBigNum) :
    getCompact bn = (bn2mpi bn).length % 256 * 2 ^ 24 + (byteAt (bn2mpi bn) 0).toNat * 2 ^ 16 +
      (byteAt (bn2mpi bn) 1).toNat * 2 ^ 8 + (byteAt (bn2mpi bn) 2).toNat := by
  have hByte (i : ℕ) : (((bn2mpi bn)[i]?).map UInt8.toNat).getD 0 =
      (byteAt (bn2mpi bn) i).toNat := by
    unfold byteAt
    cases (bn2mpi bn)[i]? <;> rfl
  have hSize : (bn2mpi bn).length * 2 ^ 24 % 2 ^ 32 = (bn2mpi bn).length % 256 * 2 ^ 24 := by
    omega
  unfold getCompact
  simp only [hByte, hSize]
  exact compact_or (UInt8.toNat_lt _) (UInt8.toNat_lt _) (UInt8.toNat_lt _)

/-- The bytes that `SetCompact` makes from the encoding of a number: the leading three, and
zeros in the place of the others. -/
def cutBody (body : List UInt8) : List UInt8 :=
  body.take 3 ++ List.replicate (body.length - 3) 0

theorem length_cutBody (body : List UInt8) : (cutBody body).length = body.length := by
  simp only [cutBody, List.length_append, List.length_take, List.length_replicate]
  omega

theorem byteAt_cutBody (body : List UInt8) {i : ℕ} (hi : i < 3) :
    byteAt (cutBody body) i = byteAt body i := by
  unfold byteAt cutBody
  by_cases hShort : i < body.length
  · rw [List.getElem?_append_left (by simp; omega), List.getElem?_take_of_lt hi]
  · rw [List.getElem?_eq_none (by simp; omega), List.getElem?_eq_none (by omega)]

theorem setCompact_getCompact {bn : CBigNum} (h : (bn2mpi bn).length < 256) :
    setCompact (getCompact bn) = mpi2bn (cutBody (bn2mpi bn)) := by
  have hFields := getCompact_eq bn
  generalize bn2mpi bn = body at *
  have h₀ := (byteAt body 0).toNat_lt
  have h₁ := (byteAt body 1).toNat_lt
  have h₂ := (byteAt body 2).toNat_lt
  have hSize : getCompact bn / 2 ^ 24 = body.length := by omega
  have hByte₀ : UInt8.ofNat (getCompact bn / 2 ^ 16) = byteAt body 0 := by
    apply UInt8.toNat_inj.mp
    rw [UInt8.toNat_ofNat']
    omega
  have hByte₁ : UInt8.ofNat (getCompact bn / 2 ^ 8) = byteAt body 1 := by
    apply UInt8.toNat_inj.mp
    rw [UInt8.toNat_ofNat']
    omega
  have hByte₂ : UInt8.ofNat (getCompact bn) = byteAt body 2 := by
    apply UInt8.toNat_inj.mp
    rw [UInt8.toNat_ofNat']
    omega
  have hLeading : [byteAt body 0, byteAt body 1, byteAt body 2].take body.length =
      body.take 3 := by
    rcases body with _ | ⟨a, _ | ⟨b, _ | ⟨c, rest⟩⟩⟩
    · rfl
    · rfl
    · rfl
    · simp [byteAt]
  unfold setCompact cutBody
  simp only [hSize, hByte₀, hByte₁, hByte₂, hLeading]

theorem minimalMpi_cutBody {body : List UInt8} (h : MinimalMpi body) :
    MinimalMpi (cutBody body) := by
  rcases body with _ | ⟨a, _ | ⟨b, rest⟩⟩
  · trivial
  · exact h
  · rcases h with hFull | ⟨c, rest', hEq, hByte⟩
    · exact Or.inl hFull
    · cases hEq
      exact Or.inr ⟨b, _, rfl, hByte⟩

/-- The MPI form after encoding and decoding. -/
theorem bn2mpi_setCompact {bn : CBigNum} (h : (bn2mpi bn).length < 256) :
    bn2mpi (setCompact (getCompact bn)) = cutBody (bn2mpi bn) := by
  rw [setCompact_getCompact h]
  exact bn2mpi_mpi2bn (minimalMpi_cutBody (minimalMpi_bn2mpi bn))

/-- What has been decoded from an encoding is encoded the same way. -/
theorem getCompact_setCompact {bn : CBigNum} (h : (bn2mpi bn).length < 256) :
    getCompact (setCompact (getCompact bn)) = getCompact bn := by
  rw [getCompact_eq (setCompact (getCompact bn)), bn2mpi_setCompact h, length_cutBody,
    byteAt_cutBody _ (by norm_num), byteAt_cutBody _ (by norm_num),
    byteAt_cutBody _ (by norm_num), getCompact_eq bn]

/-- For natural numbers, cutting off is rounding down to a multiple of a power of 256. -/
theorem setCompact_getCompact_nat {n : ℕ} (h : mpiLength n < 256) :
    setCompact (getCompact n) =
      (n / 256 ^ (mpiLength n - 3) * 256 ^ (mpiLength n - 3) : ℕ) := by
  rw [setCompact_getCompact h]
  have hValue := fromBytesBE_bn2mpi n
  have hCut : fromBytesBE (cutBody (bn2mpi n)) =
      n / 256 ^ (mpiLength n - 3) * 256 ^ (mpiLength n - 3) := by
    rw [cutBody, fromBytesBE_append, fromBytesBE_replicate_zero, fromBytesBE_take, hValue,
      List.length_replicate, add_zero, mpiLength]
  rw [← hCut]
  cases hBody : bn2mpi n with
  | nil => rfl
  | cons b bs =>
      have hHead := head_lt_of_nonneg (Int.natCast_nonneg n) hBody
      exact mpi2bn_of_head_lt hHead _

/-- Rounding down by the own length is monotone. -/
theorem roundDown_mono {m n : ℕ} (h : m ≤ n) :
    m / 256 ^ (mpiLength m - 3) * 256 ^ (mpiLength m - 3) ≤
      n / 256 ^ (mpiLength n - 3) * 256 ^ (mpiLength n - 3) := by
  rcases (mpiLength_mono h).eq_or_lt with hSame | hLonger
  · rw [hSame]
    exact Nat.mul_le_mul_right _ (Nat.div_le_div_right h)
  · by_cases hShort : mpiLength n ≤ 3
    · have hExact : mpiLength n - 3 = 0 := by omega
      rw [hExact, pow_zero, Nat.div_one, mul_one]
      exact (Nat.div_mul_le_self _ _).trans h
    · -- a shorter number is below the first number of the greater length
      have hNonzero : n ≠ 0 := by
        rintro rfl
        exact hShort (by decide)
      have hUpper := lt_of_mpiLength m
      have hLower := le_of_mpiLength hNonzero
      have hPow : (256 : ℕ) ^ mpiLength m ≤ 256 ^ (mpiLength n - 1) :=
        Nat.pow_le_pow_right (by norm_num) (by omega)
      have hSplit : (256 : ℕ) ^ (mpiLength n - 1) = 2 * (128 * 256 * 256 ^ (mpiLength n - 3)) := by
        rw [show mpiLength n - 1 = mpiLength n - 3 + 2 by omega, pow_add]
        ring
      have hPos : 0 < 256 ^ (mpiLength n - 3) := by positivity
      have hLeading : 128 * 256 ≤ n / 256 ^ (mpiLength n - 3) := by
        rw [Nat.le_div_iff_mul_le hPos]
        omega
      calc m / 256 ^ (mpiLength m - 3) * 256 ^ (mpiLength m - 3) ≤ m := Nat.div_mul_le_self _ _
        _ ≤ 128 * 256 * 256 ^ (mpiLength n - 3) := by omega
        _ ≤ n / 256 ^ (mpiLength n - 3) * 256 ^ (mpiLength n - 3) :=
            Nat.mul_le_mul_right _ hLeading

/-! ## The compact encoding as a rounding -/

/-- Decoding an encoded natural number cuts its MPI form off after three bytes, which rounds
it down and keeps the order; and an encoding survives decoding and encoding again, if the
length of the MPI form fits into a byte. -/
theorem compact_rounds :
    (∀ n : ℕ, n < 2 ^ (8 * 254) →
      setCompact (getCompact n) ≤ n ∧
        bn2mpi (setCompact (getCompact n)) =
          (bn2mpi n).take 3 ++ List.replicate ((bn2mpi n).length - 3) 0) ∧
    (∀ nCompact : ℕ, (∃ bn : CBigNum, (bn2mpi bn).length < 256 ∧ getCompact bn = nCompact) →
      getCompact (setCompact nCompact) = nCompact) ∧
    ∀ m n : ℕ, m ≤ n → n < 2 ^ (8 * 254) →
      setCompact (getCompact m) ≤ setCompact (getCompact n) := by
  refine ⟨?_, ?_, ?_⟩
  · intro n hn
    have hLength := mpiLength_lt hn
    constructor
    · rw [setCompact_getCompact_nat hLength]
      exact_mod_cast Nat.div_mul_le_self _ _
    · exact bn2mpi_setCompact hLength
  · rintro nCompact ⟨bn, hLength, rfl⟩
    exact getCompact_setCompact hLength
  · intro m n hmn hn
    rw [setCompact_getCompact_nat (mpiLength_lt (lt_of_le_of_lt hmn hn)),
      setCompact_getCompact_nat (mpiLength_lt hn)]
    exact_mod_cast roundDown_mono hmn

/-- At 256 bytes the length byte is zero, and the encoding does not survive. -/
theorem compact_overflows :
    ∃ bn : CBigNum, getCompact bn = 0x10000 ∧
      getCompact (setCompact (getCompact bn)) ≠ getCompact bn := by
  have hMinimal : MinimalMpi (1 :: List.replicate 255 0) := Or.inl (by decide)
  have hCompact : getCompact (mpi2bn (1 :: List.replicate 255 0)) = 0x10000 := by
    rw [getCompact_eq, bn2mpi_mpi2bn hMinimal, List.length_cons, List.length_replicate]
    rfl
  refine ⟨_, hCompact, ?_⟩
  rw [hCompact]
  decide

/-- The encoding of a number of five bytes rounds it down. -/
theorem compact_rounds_fiveBytes :
    setCompact (getCompact (0x123456789a : ℕ)) = 0x1234560000 ∧
      setCompact (getCompact (0x123456789a : ℕ)) ≤ (0x123456789a : ℕ) ∧
      getCompact (setCompact 0x05123456) = 0x05123456 := by
  obtain ⟨hBelow, hStable, -⟩ := compact_rounds
  have hPow (k : ℕ) (hk : 64 ≤ k) : 2 ^ 64 ≤ 2 ^ k := Nat.pow_le_pow_right two_pos hk
  have hBase : 0x123456789a < 2 ^ 64 := by norm_num
  refine ⟨by decide +kernel, (hBelow 0x123456789a (hBase.trans_le (hPow _ (by norm_num)))).1, ?_⟩
  apply hStable
  exact ⟨(0x123456789a : ℕ), by decide +kernel, by decide +kernel⟩

end CBigNum

end SocietyGold
