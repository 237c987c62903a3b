import SocietyGold.CheckSig
import SocietyGold.Compact
import SocietyGold.Support.Tokens

/-!
# Signatures in DER

`IsDERSignature` reads the lengths of the two integers from the signature and uses them as
offsets before it knows that they fit.  It never reads past the end, and it accepts exactly
the strict encodings.
-/

namespace SocietyGold

open Support CBigNum

/-! ## Strict encodings -/

/-- Bytes that are not taken for a negative integer. -/
def NonNegativeBytes (bytes : List UInt8) : Prop := ∃ b bs, bytes = b :: bs ∧ b.toNat < 128

/-- The shortest form of an integer that is not negative. -/
def IsDERInteger (bytes : List UInt8) : Prop :=
  NonNegativeBytes bytes ∧
    ∀ bytes', NonNegativeBytes bytes' → fromBytesBE bytes' = fromBytesBE bytes →
      bytes.length ≤ bytes'.length

/-- Two integers, each behind its length, in a sequence with its length; then the hash type
if there is one. -/
def StrictDER (vchSig : Valtype) (haveHashType : Bool) : Prop :=
  9 ≤ vchSig.length ∧ vchSig.length ≤ 73 ∧
    ∃ (total lenR lenS : UInt8) (R S hashType : List UInt8),
      vchSig = 0x30 :: total :: 0x02 :: lenR :: (R ++ 0x02 :: lenS :: (S ++ hashType)) ∧
      total.toNat = (0x02 :: lenR :: (R ++ 0x02 :: lenS :: S)).length ∧
      lenR.toNat = R.length ∧ lenS.toNat = S.length ∧
      hashType.length = (if haveHashType then 1 else 0) ∧
      IsDERInteger R ∧ IsDERInteger S

theorem NonNegativeBytes.value_lt
    {bytes : List UInt8} (h : NonNegativeBytes bytes) :
    fromBytesBE bytes < 128 * 256 ^ (bytes.length - 1) := by
  obtain ⟨b, bs, rfl, hTop⟩ := h
  have hTail := fromBytesBE_lt bs
  rw [fromBytesBE_cons, List.length_cons, Nat.add_sub_cancel]
  calc b.toNat * 256 ^ bs.length + fromBytesBE bs
      < b.toNat * 256 ^ bs.length + 256 ^ bs.length := by omega
    _ = (b.toNat + 1) * 256 ^ bs.length := by ring
    _ ≤ 128 * 256 ^ bs.length := Nat.mul_le_mul_right _ hTop

/-- The form is too long exactly when it starts with a zero that the top bit after it does
not need. -/
theorem isDERInteger_iff {b : UInt8} {bs : List UInt8} :
    IsDERInteger (b :: bs) ↔
      b.toNat < 128 ∧ ∀ c cs, bs = c :: cs → b = 0 → 128 ≤ c.toNat := by
  constructor
  · rintro ⟨⟨b', bs', hEq, hTop⟩, hShortest⟩
    obtain ⟨rfl, rfl⟩ := List.cons.inj hEq
    refine ⟨hTop, ?_⟩
    rintro c cs rfl rfl
    by_contra hLow
    have hSame : fromBytesBE (c :: cs) = fromBytesBE (0 :: c :: cs) := by
      rw [fromBytesBE_cons 0, UInt8.toNat_zero, Nat.zero_mul, Nat.zero_add]
    have hLength := hShortest (c :: cs) ⟨c, cs, rfl, not_le.mp hLow⟩ hSame
    rw [List.length_cons (a := 0)] at hLength
    omega
  · rintro ⟨hTop, hZero⟩
    refine ⟨⟨b, bs, rfl, hTop⟩, fun bytes' hNonneg hSame => ?_⟩
    by_contra hShorter
    have hValue := hNonneg.value_lt
    obtain ⟨b', bs', rfl, -⟩ := hNonneg
    rw [hSame] at hValue
    simp only [List.length_cons, not_le, add_lt_add_iff_right,
      Nat.add_sub_cancel] at hShorter hValue
    -- the shorter form is below half of what the second byte counts
    cases bs with
    | nil => exact Nat.not_lt_zero _ hShorter
    | cons c cs =>
        rw [List.length_cons] at hShorter
        have hPow : 128 * 256 ^ bs'.length ≤ 128 * 256 ^ cs.length :=
          Nat.mul_le_mul_left _ (Nat.pow_le_pow_right (by norm_num) (by omega))
        rw [fromBytesBE_cons, fromBytesBE_cons, List.length_cons, pow_succ] at hValue
        have hPos : 0 < 256 ^ cs.length := by positivity
        by_cases hFirst : b = 0
        · have hSecond : 128 * 256 ^ cs.length ≤ c.toNat * 256 ^ cs.length :=
            Nat.mul_le_mul_right _ (hZero c cs rfl hFirst)
          omega
        · have hByte : 1 ≤ b.toNat := by
            by_contra hNone
            apply hFirst
            rw [← UInt8.toNat_inj, UInt8.toNat_zero]
            omega
          have hLarge : 1 * (256 ^ cs.length * 256) ≤ b.toNat * (256 ^ cs.length * 256) :=
            Nat.mul_le_mul_right _ hByte
          omega

/-! ## The code -/

/-- The tests of one of the two integers, which starts at a position; the byte for its type
stands two before it. -/
def checkInteger (vchSig : Valtype) (pos nLen : ℕ) : Checked Bool := do
  let type ← elementAt vchSig (pos - 2)
  if type ≠ 0x02 then .ok false
  else if nLen = 0 then .ok false
  else do
    let first ← elementAt vchSig pos
    if first &&& 0x80 ≠ 0 then .ok false
    else if nLen > 1 ∧ first = 0x00 then do
      let second ← elementAt vchSig (pos + 1)
      .ok (decide (second &&& 0x80 ≠ 0))
    else .ok true

/-- `IsDERSignature`, with its reads. -/
def checkedDERSignature (vchSig : Valtype) (haveHashType : Bool) : Checked Bool :=
  if vchSig.length < 9 then .ok false
  else if vchSig.length > 73 then .ok false
  else do
    let type ← elementAt vchSig 0
    if type ≠ 0x30 then .ok false
    else do
      let total ← elementAt vchSig 1
      if total.toNat ≠ vchSig.length - (if haveHashType then 3 else 2) then .ok false
      else do
        let nLenR ← elementAt vchSig 3
        if 5 + nLenR.toNat ≥ vchSig.length then .ok false
        else do
          let nLenS ← elementAt vchSig (5 + nLenR.toNat)
          if nLenR.toNat + nLenS.toNat + (if haveHashType then 7 else 6) ≠ vchSig.length then
            .ok false
          else do
            let fOkR ← checkInteger vchSig 4 nLenR.toNat
            if !fOkR then .ok false
            else checkInteger vchSig (6 + nLenR.toNat) nLenS.toNat

/-- The tests of an integer within the signature. -/
theorem checkInteger_spec
    {vchSig : Valtype} {pos nLen : ℕ} (hType : pos - 2 < vchSig.length)
    (hEnd : pos + nLen ≤ vchSig.length) :
    ∃ fOk, checkInteger vchSig pos nLen = .ok fOk ∧
      (fOk = true ↔ vchSig[pos - 2]? = some 0x02 ∧ IsDERInteger (slice vchSig pos nLen)) := by
  have hGet := List.getElem?_eq_getElem hType
  unfold checkInteger
  rw [elementAt_of_lt hType, ok_bind]
  by_cases hTwo : vchSig[pos - 2] = 0x02
  swap
  · rw [if_pos hTwo]
    refine ⟨false, rfl, ?_⟩
    simp [hGet, hTwo]
  rw [if_neg (not_not.mpr hTwo)]
  by_cases hLen : nLen = 0
  · rw [if_pos hLen]
    refine ⟨false, rfl, ?_⟩
    simp only [Bool.false_eq_true, false_iff, not_and]
    rintro - ⟨⟨b, bs, hEq, -⟩, -⟩
    have hNil := length_slice hEnd
    rw [hEq, hLen] at hNil
    cases hNil
  have hPos : pos < vchSig.length := by omega
  have hSlice : slice vchSig pos nLen = vchSig[pos] :: slice vchSig (pos + 1) (nLen - 1) := by
    obtain ⟨n, rfl⟩ : ∃ n, nLen = n + 1 := ⟨nLen - 1, by omega⟩
    rw [slice, drop_eq_cons (List.getElem?_eq_getElem hPos), List.take_succ_cons]
    rfl
  obtain ⟨hTop, -, -, -⟩ := signBit_facts vchSig[pos]
  rw [if_neg hLen, elementAt_of_lt hPos, ok_bind, hSlice, isDERInteger_iff, hGet, hTwo]
  by_cases hNegative : vchSig[pos] &&& 0x80 ≠ 0
  · rw [if_pos hNegative]
    refine ⟨false, rfl, ?_⟩
    have hHigh := hTop.mp hNegative
    simp only [Bool.false_eq_true, false_iff, not_and]
    intro _ hLow
    omega
  have hLow : vchSig[pos].toNat < 128 := not_le.mp (mt hTop.mpr hNegative)
  rw [if_neg hNegative]
  by_cases hPadded : nLen > 1 ∧ vchSig[pos] = 0x00
  · have hNext : pos + 1 < vchSig.length := by omega
    obtain ⟨hTop', -, -, -⟩ := signBit_facts vchSig[pos + 1]
    have hSecond : slice vchSig (pos + 1) (nLen - 1) =
        vchSig[pos + 1] :: slice vchSig (pos + 2) (nLen - 2) := by
      obtain ⟨n, rfl⟩ : ∃ n, nLen = n + 2 := ⟨nLen - 2, by omega⟩
      rw [slice, drop_eq_cons (List.getElem?_eq_getElem hNext)]
      rfl
    rw [if_pos hPadded, elementAt_of_lt hNext, ok_bind, hSecond]
    refine ⟨_, rfl, ?_⟩
    rw [decide_eq_true_eq, hTop']
    constructor
    · intro hHigh
      refine ⟨rfl, hLow, ?_⟩
      intro c cs hEq _
      rw [← (List.cons.inj hEq).1]
      exact hHigh
    · rintro ⟨-, -, hZero⟩
      exact hZero _ _ rfl hPadded.2
  · rw [if_neg hPadded]
    refine ⟨true, rfl, iff_of_true rfl ⟨rfl, hLow, ?_⟩⟩
    intro c cs hEq hZero
    have hOne : nLen - 1 = 0 := by
      by_contra hMore
      exact hPadded ⟨by omega, hZero⟩
    rw [hOne] at hEq
    cases hEq

/-! ## Exactness -/

/-- The parts of a strict encoding, by position. -/
structure DERParts (vchSig : Valtype) (haveHashType : Bool) (total lenR lenS : UInt8) : Prop where
  type : vchSig[0]? = some 0x30
  totalAt : vchSig[1]? = some total
  total_eq : total.toNat = vchSig.length - (if haveHashType then 3 else 2)
  lenRAt : vchSig[3]? = some lenR
  lenSAt : vchSig[5 + lenR.toNat]? = some lenS
  length : lenR.toNat + lenS.toNat + (if haveHashType then 7 else 6) = vchSig.length
  typeR : vchSig[2]? = some 0x02
  R : IsDERInteger (slice vchSig 4 lenR.toNat)
  typeS : vchSig[4 + lenR.toNat]? = some 0x02
  S : IsDERInteger (slice vchSig (6 + lenR.toNat) lenS.toNat)

theorem strictDER_of_parts
    {vchSig : Valtype} {haveHashType : Bool} {total lenR lenS : UInt8}
    (hShort : 9 ≤ vchSig.length) (hLong : vchSig.length ≤ 73)
    (h : DERParts vchSig haveHashType total lenR lenS) : StrictDER vchSig haveHashType := by
  have hSum := h.length
  have hEndR : 4 + lenR.toNat ≤ vchSig.length := by
    split_ifs at hSum <;> omega
  have hEndS : 6 + lenR.toNat + lenS.toNat ≤ vchSig.length := by
    split_ifs at hSum <;> omega
  have hR := length_slice hEndR
  have hS := length_slice hEndS
  have hScript : vchSig = vchSig.drop 0 := rfl
  have hNext : 4 + lenR.toNat + 1 = 5 + lenR.toNat := by omega
  have hNext' : 5 + lenR.toNat + 1 = 6 + lenR.toNat := by omega
  refine ⟨hShort, hLong, total, lenR, lenS, slice vchSig 4 lenR.toNat,
    slice vchSig (6 + lenR.toNat) lenS.toNat, vchSig.drop (6 + lenR.toNat + lenS.toNat), ?_, ?_,
    hR.symm, hS.symm, ?_, h.R, h.S⟩
  · conv_lhs => rw [hScript, drop_eq_cons h.type, drop_eq_cons h.totalAt, drop_eq_cons h.typeR,
      drop_eq_cons h.lenRAt, drop_eq_append vchSig 4 lenR.toNat, drop_eq_cons h.typeS, hNext,
      drop_eq_cons h.lenSAt, hNext', drop_eq_append vchSig (6 + lenR.toNat) lenS.toNat]
  · rw [h.total_eq, List.length_cons, List.length_cons, List.length_append, List.length_cons,
      List.length_cons, hR, hS]
    split_ifs at hSum ⊢ <;> omega
  · rw [List.length_drop]
    split_ifs at hSum ⊢ <;> omega

theorem parts_of_strictDER
    {vchSig : Valtype} {haveHashType : Bool} (h : StrictDER vchSig haveHashType) :
    9 ≤ vchSig.length ∧ vchSig.length ≤ 73 ∧
      ∃ total lenR lenS, DERParts vchSig haveHashType total lenR lenS := by
  obtain ⟨hShort, hLong, total, lenR, lenS, R, S, hashType, hSig, hTotal, hLenR, hLenS, hHash,
    hR, hS⟩ := h
  refine ⟨hShort, hLong, total, lenR, lenS, ?_⟩
  have hLength : lenR.toNat + lenS.toNat + (if haveHashType then 7 else 6) = vchSig.length := by
    rw [hSig, hLenR, hLenS]
    simp only [List.length_cons, List.length_append, hHash]
    split_ifs <;> omega
  -- the bytes behind the first integer
  have hBehind (k : ℕ) : vchSig[4 + lenR.toNat + k]? = (0x02 :: lenS :: (S ++ hashType))[k]? := by
    have hPre : vchSig =
        (0x30 :: total :: 0x02 :: lenR :: R) ++ 0x02 :: lenS :: (S ++ hashType) := by
      rw [hSig]
      rfl
    have hPreLength : (0x30 :: total :: 0x02 :: lenR :: R).length = 4 + lenR.toNat := by
      simp only [List.length_cons, hLenR]
      omega
    rw [hPre, List.getElem?_append_right (by omega), hPreLength, Nat.add_sub_cancel_left]
  have hSliceR : slice vchSig 4 lenR.toNat = R := by
    have hPre : vchSig = [0x30, total, 0x02, lenR] ++ (R ++ 0x02 :: lenS :: (S ++ hashType)) := hSig
    rw [hPre]
    exact slice_append_left rfl hLenR.symm
  have hSliceS : slice vchSig (6 + lenR.toNat) lenS.toNat = S := by
    have hPre : vchSig =
        (0x30 :: total :: 0x02 :: lenR :: (R ++ [0x02, lenS])) ++ (S ++ hashType) := by
      rw [hSig]
      simp
    rw [hPre]
    apply slice_append_left
    · simp only [List.length_cons, List.length_append, List.length_nil, hLenR]
      omega
    · exact hLenS.symm
  constructor
  · rw [hSig]
    rfl
  · rw [hSig]
    rfl
  · rw [hTotal, ← hLength, hLenR, hLenS]
    simp only [List.length_cons, List.length_append]
    split_ifs <;> omega
  · rw [hSig]
    rfl
  · have hByte := hBehind 1
    rwa [Nat.add_right_comm] at hByte
  · exact hLength
  · rw [hSig]
    rfl
  · rwa [hSliceR]
  · exact hBehind 0
  · rwa [hSliceS]

theorem exists_elementAt
    {vchSig : Valtype} {i : ℕ} (h : i < vchSig.length) :
    ∃ b, vchSig[i]? = some b ∧ elementAt vchSig i = .ok b :=
  ⟨vchSig[i], List.getElem?_eq_getElem h, elementAt_of_lt h⟩

theorem DERParts.lenR_eq
    {vchSig : Valtype} {haveHashType : Bool} {total lenR lenS nLenR : UInt8}
    (h : DERParts vchSig haveHashType total lenR lenS) (hLenR : vchSig[3]? = some nLenR) :
    lenR = nLenR :=
  Option.some.inj (h.lenRAt.symm.trans hLenR)

theorem DERParts.lenS_eq
    {vchSig : Valtype} {haveHashType : Bool} {total lenR lenS nLenR nLenS : UInt8}
    (h : DERParts vchSig haveHashType total lenR lenS) (hLenR : vchSig[3]? = some nLenR)
    (hLenS : vchSig[5 + nLenR.toNat]? = some nLenS) : lenS = nLenS := by
  have hAt := h.lenSAt
  rw [h.lenR_eq hLenR] at hAt
  exact Option.some.inj (hAt.symm.trans hLenS)

/-- Once the lengths fit together, the tests of the two integers decide. -/
theorem checkIntegers_spec
    {vchSig : Valtype} {haveHashType : Bool} {total nLenR nLenS : UInt8}
    (hShort : 9 ≤ vchSig.length) (hLong : vchSig.length ≤ 73) (hType : vchSig[0]? = some 0x30)
    (hTotal : vchSig[1]? = some total)
    (hMarker : total.toNat = vchSig.length - (if haveHashType then 3 else 2))
    (hLenR : vchSig[3]? = some nLenR) (hLenS : vchSig[5 + nLenR.toNat]? = some nLenS)
    (hSum : nLenR.toNat + nLenS.toNat + (if haveHashType then 7 else 6) = vchSig.length) :
    ∃ fOk, (do
        let fOkR ← checkInteger vchSig 4 nLenR.toNat
        if !fOkR then .ok false
        else checkInteger vchSig (6 + nLenR.toNat) nLenS.toNat) = .ok fOk ∧
      (fOk = true ↔ StrictDER vchSig haveHashType) := by
  have hEnd : 6 + nLenR.toNat + nLenS.toNat ≤ vchSig.length := by
    split_ifs at hSum <;> omega
  have hPos : 6 + nLenR.toNat - 2 = 4 + nLenR.toNat := by omega
  obtain ⟨fOkR, hCheckR, hIffR⟩ := @checkInteger_spec vchSig 4 nLenR.toNat (by omega) (by omega)
  obtain ⟨fOkS, hCheckS, hIffS⟩ := @checkInteger_spec vchSig (6 + nLenR.toNat) nLenS.toNat
    (by omega) hEnd
  rw [hPos] at hIffS
  have hParts (h : StrictDER vchSig haveHashType) :
      ∃ total, DERParts vchSig haveHashType total nLenR nLenS := by
    obtain ⟨-, -, total, lenR, lenS, hParts⟩ := parts_of_strictDER h
    obtain rfl := hParts.lenR_eq hLenR
    obtain rfl := hParts.lenS_eq hLenR hLenS
    exact ⟨total, hParts⟩
  rw [hCheckR, ok_bind]
  cases fOkR with
  | false =>
      refine ⟨false, rfl, iff_of_false Bool.false_ne_true fun hStrict => ?_⟩
      obtain ⟨_, hStrict⟩ := hParts hStrict
      exact Bool.false_ne_true (hIffR.mpr ⟨hStrict.typeR, hStrict.R⟩)
  | true =>
      obtain ⟨hTypeR, hR⟩ := hIffR.mp rfl
      refine ⟨fOkS, hCheckS, hIffS.trans ⟨?_, ?_⟩⟩
      · rintro ⟨hTypeS, hS⟩
        exact strictDER_of_parts hShort hLong
          ⟨hType, hTotal, hMarker, hLenR, hLenS, hSum, hTypeR, hR, hTypeS, hS⟩
      · intro hStrict
        obtain ⟨_, hStrict⟩ := hParts hStrict
        exact ⟨hStrict.typeS, hStrict.S⟩

/-- `IsDERSignature` accepts exactly the strict encodings, and no read is out of range. -/
theorem derSignature_exact (vchSig : Valtype) (haveHashType : Bool) :
    ∃ fOk, checkedDERSignature vchSig haveHashType = .ok fOk ∧
      (fOk = true ↔ StrictDER vchSig haveHashType) := by
  -- a test that fails refutes a part that every strict encoding has
  have hRefuse (hNot : 9 ≤ vchSig.length → vchSig.length ≤ 73 → ∀ total lenR lenS,
      ¬DERParts vchSig haveHashType total lenR lenS) :
      ∃ fOk, (.ok false : Checked Bool) = .ok fOk ∧
        (fOk = true ↔ StrictDER vchSig haveHashType) := by
    refine ⟨false, rfl, iff_of_false Bool.false_ne_true fun hStrict => ?_⟩
    obtain ⟨hShort, hLong, total, lenR, lenS, hParts⟩ := parts_of_strictDER hStrict
    exact hNot hShort hLong total lenR lenS hParts
  unfold checkedDERSignature
  by_cases hShort : vchSig.length < 9
  · rw [if_pos hShort]
    exact hRefuse fun hGood => absurd hShort (not_lt.mpr hGood)
  by_cases hLong : vchSig.length > 73
  · rw [if_neg hShort, if_pos hLong]
    exact hRefuse fun _ hGood => absurd hLong (not_lt.mpr hGood)
  obtain ⟨type, hType, hRead⟩ := @exists_elementAt vchSig 0 (by omega)
  rw [if_neg hShort, if_neg hLong, hRead, ok_bind]
  by_cases hSequence : type ≠ 0x30
  · rw [if_pos hSequence]
    refine hRefuse fun _ _ _ _ _ hParts => hSequence ?_
    exact Option.some.inj (hType.symm.trans hParts.type)
  obtain ⟨total, hTotal, hRead⟩ := @exists_elementAt vchSig 1 (by omega)
  rw [if_neg hSequence, hRead, ok_bind]
  by_cases hMarker : total.toNat ≠ vchSig.length - (if haveHashType then 3 else 2)
  · rw [if_pos hMarker]
    refine hRefuse fun _ _ total' _ _ hParts => hMarker ?_
    obtain rfl : total = total' := Option.some.inj (hTotal.symm.trans hParts.totalAt)
    exact hParts.total_eq
  obtain ⟨nLenR, hLenR, hRead⟩ := @exists_elementAt vchSig 3 (by omega)
  rw [if_neg hMarker, hRead, ok_bind]
  by_cases hMisplaced : 5 + nLenR.toNat ≥ vchSig.length
  · rw [if_pos hMisplaced]
    refine hRefuse fun _ _ _ _ _ hParts => ?_
    obtain ⟨hInside, -⟩ := List.getElem?_eq_some_iff.mp hParts.lenSAt
    rw [hParts.lenR_eq hLenR] at hInside
    omega
  obtain ⟨nLenS, hLenS, hRead⟩ := exists_elementAt (not_le.mp hMisplaced)
  rw [if_neg hMisplaced, hRead, ok_bind]
  by_cases hSum : nLenR.toNat + nLenS.toNat + (if haveHashType then 7 else 6) ≠ vchSig.length
  · rw [if_pos hSum]
    refine hRefuse fun _ _ _ _ _ hParts => hSum ?_
    rw [← hParts.lenR_eq hLenR, ← hParts.lenS_eq hLenR hLenS]
    exact hParts.length
  rw [if_neg hSum]
  rw [not_not.mp hSequence] at hType
  exact checkIntegers_spec (not_lt.mp hShort) (not_lt.mp hLong) hType hTotal (not_not.mp hMarker)
    hLenR hLenS (not_not.mp hSum)

end SocietyGold
