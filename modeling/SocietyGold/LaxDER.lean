import SocietyGold.DERSignatures
import SocietyGold.Support.Guarded

/-!
# The tolerant parser of signatures

`CPubKey::Verify` does not parse a signature strictly: it takes long forms of lengths,
negative and padded integers, and anything behind the second integer.  The parser stays inside
its input all the same.  On a strict encoding it delivers the two integers that the encoding
stands for, so that the strict check before it decides what is verified.
-/

namespace SocietyGold

open Support CBigNum

/-! ## The parser -/

/-- The order of the group. -/
def SECP256K1_N : ℕ := 0xFFFFFFFFFFFFFFFFFFFFFFFFFFFFFFFEBAAEDCE6AF48A03BBFD25E8CD0364141

def sizeofSizeT : ℕ := 8

/-- `while (left > 0 && input[pos] == 0)`, with both counters after it. -/
def skipZeros (input : List UInt8) : (left : ℕ) → (pos : ℕ) → Checked (ℕ × ℕ)
  | 0, pos => .ok (0, pos)
  | left + 1, pos => do
      let b ← elementAt input pos
      if b = 0 then skipZeros input left (pos + 1) else .ok (left + 1, pos)

/-- The bytes of a long length. -/
def readLength (input : List UInt8) : (lenbyte : ℕ) → (rlen : ℕ) → (pos : ℕ) → Checked ℕ
  | 0, rlen, _ => .ok rlen
  | lenbyte + 1, rlen, pos => do
      let b ← elementAt input pos
      readLength input lenbyte (rlen <<< 8 + b.toNat) (pos + 1)

/-- The length of an integer, and the position behind it. -/
def integerLength (input : List UInt8) (pos : ℕ) : Guarded (ℕ × ℕ) := do
  returnFalseIf (pos = input.length)
  let lenbyte ← access (elementAt input pos)
  let pos := pos + 1
  if lenbyte &&& 0x80 = 0 then .ok (lenbyte.toNat, pos)
  else do
    let lenbyte := lenbyte.toNat - 0x80
    returnFalseIf (pos + lenbyte > input.length)
    let skipped ← access (skipZeros input lenbyte pos)
    returnFalseIf (skipped.1 ≥ sizeofSizeT)
    let rlen ← access (readLength input skipped.1 0 skipped.2)
    .ok (rlen, skipped.2 + skipped.1)

/-- One of the two integers: its length and its position. -/
def locateInteger (input : List UInt8) (pos : ℕ) : Guarded (ℕ × ℕ) := do
  returnFalseIf (pos = input.length)
  let tag ← access (elementAt input pos)
  returnFalseIf (tag ≠ 0x02)
  let located ← integerLength input (pos + 1)
  returnFalseIf (located.1 > input.length - located.2)
  .ok located

/-- The position behind the head of the sequence, whose length is not looked at. -/
def sequenceHead (input : List UInt8) : Guarded ℕ := do
  returnFalseIf (input.length = 0)
  let tag ← access (elementAt input 0)
  returnFalseIf (tag ≠ 0x30)
  returnFalseIf (1 = input.length)
  let lenbyte ← access (elementAt input 1)
  if lenbyte &&& 0x80 = 0 then .ok 2
  else do
    let lenbyte := lenbyte.toNat - 0x80
    returnFalseIf (2 + lenbyte > input.length)
    .ok (2 + lenbyte)

/-- The value of an integer, unless it has more than 32 bytes without leading zeros. -/
def copyInteger (input : List UInt8) (located : ℕ × ℕ) : Guarded (Option ℕ) := do
  let skipped ← access (skipZeros input located.1 located.2)
  if skipped.1 > 32 then .ok none
  else if skipped.2 + skipped.1 ≤ input.length then
    .ok (some (fromBytesBE (slice input skipped.2 skipped.1)))
  else .error (.fault .outOfRange)

/-- A signature, as the library holds it. -/
structure Secp256k1Signature where
  r : ℕ
  s : ℕ
  deriving DecidableEq

/-- What `secp256k1_ecdsa_signature_parse_compact` makes of two numbers; in the place of one
that is not below the order stands an invalid signature. -/
def parseCompact (r s : ℕ) : Secp256k1Signature :=
  if r < SECP256K1_N ∧ s < SECP256K1_N then ⟨r, s⟩ else ⟨0, 0⟩

/-- The signature of the two copied integers, unless one of them did not fit. -/
def copiedSignature : (r s : Option ℕ) → Secp256k1Signature
  | some r, some s => parseCompact r s
  | _, _ => ⟨0, 0⟩

/-- `ecdsa_signature_parse_der_lax`. -/
def ecdsaSignatureParseDerLax (input : List UInt8) : Guarded Secp256k1Signature := do
  let pos ← sequenceHead input
  let locatedR ← locateInteger input pos
  let locatedS ← locateInteger input (locatedR.2 + locatedR.1)
  let r ← copyInteger input locatedR
  let s ← copyInteger input locatedS
  .ok (copiedSignature r s)

/-- `secp256k1_ecdsa_signature_normalize`: the signature with the lower of `s` and `-s`. -/
def Secp256k1Signature.isHigh (sig : Secp256k1Signature) : Bool := sig.s > SECP256K1_N / 2

def Secp256k1Signature.normalize (sig : Secp256k1Signature) : Secp256k1Signature :=
  if sig.isHigh then { sig with s := SECP256K1_N - sig.s } else sig

/-- What the checks of signatures take from the library. -/
structure EcdsaVerify where
  /-- Is this the text of a point? -/
  parsesPubKey : List UInt8 → Bool
  /-- `secp256k1_ecdsa_verify`, for a signature with a low `s`. -/
  verify : (vchPubKey : List UInt8) → (hash : ℕ) → Secp256k1Signature → Bool

/-- `CPubKey::Verify`. -/
def CPubKey.verify (tools : EcdsaVerify) (pubkey : CPubKey) (hash : ℕ) (vchSig : Valtype) :
    Guarded Bool := do
  returnFalseIf (!pubkey.isValid)
  returnFalseIf (!tools.parsesPubKey pubkey.vch)
  returnFalseIf (vchSig.length = 0)
  let sig ← ecdsaSignatureParseDerLax vchSig
  .ok (tools.verify pubkey.vch hash sig.normalize)

/-- `CPubKey::CheckLowS`. -/
def CPubKey.checkLowS (vchSig : Valtype) : Guarded Bool := do
  let sig ← ecdsaSignatureParseDerLax vchSig
  .ok (!sig.isHigh)

/-! ## The loops -/

/-- The zeros that are skipped do not count. -/
theorem skipZeros_spec
    {input : List UInt8} {left pos : ℕ} (h : pos + left ≤ input.length) :
    ∃ left' pos', skipZeros input left pos = .ok (left', pos') ∧ pos' + left' = pos + left ∧
      left' ≤ left ∧
      fromBytesBE (slice input pos' left') = fromBytesBE (slice input pos left) ∧
      ∀ b, left' ≠ 0 → input[pos']? = some b → b ≠ 0 := by
  induction left generalizing pos with
  | zero => exact ⟨0, pos, rfl, rfl, le_rfl, rfl, fun _ hNone => absurd rfl hNone⟩
  | succ left ih =>
      have hPos : pos < input.length := by omega
      have hGet := List.getElem?_eq_getElem hPos
      have hSlice : slice input pos (left + 1) = input[pos] :: slice input (pos + 1) left := by
        rw [slice, drop_eq_cons hGet, List.take_succ_cons]
        rfl
      rw [skipZeros, elementAt_of_lt hPos, ok_bind]
      by_cases hZero : input[pos] = 0
      · obtain ⟨left', pos', hLoop, hEnd, hLe, hValue, hFirst⟩ := @ih (pos + 1) (by omega)
        refine ⟨left', pos', ?_, by omega, by omega, ?_, hFirst⟩
        · rw [if_pos hZero, hLoop]
        · rw [hValue, hSlice, hZero, fromBytesBE_cons, UInt8.toNat_zero, Nat.zero_mul,
            Nat.zero_add]
      · refine ⟨left + 1, pos, if_neg hZero, rfl, le_rfl, rfl, ?_⟩
        intro b _ hAt
        rw [hGet, Option.some.injEq] at hAt
        exact hAt ▸ hZero

theorem exists_readLength
    {input : List UInt8} {lenbyte pos : ℕ} (h : pos + lenbyte ≤ input.length) (rlen : ℕ) :
    ∃ rlen', readLength input lenbyte rlen pos = .ok rlen' := by
  induction lenbyte generalizing pos rlen with
  | zero => exact ⟨rlen, rfl⟩
  | succ lenbyte ih =>
      have hPos : pos < input.length := by omega
      rw [readLength, elementAt_of_lt hPos, ok_bind]
      exact ih (by omega) _

/-! ## No access outside the input -/

theorem sequenceHead_safe (input : List UInt8) :
    Safely (sequenceHead input) fun pos => pos ≤ input.length := by
  unfold sequenceHead
  apply Safely.test
  intro hNonempty
  apply Safely.access (elementAt_of_lt (Nat.pos_of_ne_zero hNonempty))
  apply Safely.test
  intro _
  apply Safely.test
  intro hMore
  have hTwo : 2 ≤ input.length := by omega
  apply Safely.access (elementAt_of_lt hTwo)
  by_cases hShort : input[1] &&& 0x80 = 0
  · rw [if_pos hShort]
    exact safely_ok hTwo
  · rw [if_neg hShort]
    apply Safely.test
    intro hFits
    exact safely_ok (not_lt.mp hFits)

theorem integerLength_safe {input : List UInt8} {pos : ℕ} (h : pos ≤ input.length) :
    Safely (integerLength input pos) fun located => located.2 ≤ input.length := by
  unfold integerLength
  apply Safely.test
  intro hMore
  have hPos : pos < input.length := by omega
  apply Safely.access (elementAt_of_lt hPos)
  dsimp only
  by_cases hShort : input[pos] &&& 0x80 = 0
  · rw [if_pos hShort]
    exact safely_ok hPos
  · rw [if_neg hShort]
    apply Safely.test
    intro hFits
    obtain ⟨left, pos', hSkip, hEnd, -, -, -⟩ := skipZeros_spec (not_lt.mp hFits)
    apply Safely.access hSkip
    apply Safely.test
    intro _
    have hInside : pos' + left ≤ input.length := by omega
    obtain ⟨rlen, hRead⟩ := exists_readLength hInside 0
    apply Safely.access hRead
    exact safely_ok hInside

theorem locateInteger_safe {input : List UInt8} {pos : ℕ} (h : pos ≤ input.length) :
    Safely (locateInteger input pos) fun located => located.2 + located.1 ≤ input.length := by
  unfold locateInteger
  apply Safely.test
  intro hMore
  have hPos : pos < input.length := by omega
  apply Safely.access (elementAt_of_lt hPos)
  apply Safely.test
  intro _
  apply Safely.bind (integerLength_safe hPos)
  intro located hLocated
  apply Safely.test
  intro hFits
  exact safely_ok (by omega)

theorem copyInteger_safe
    {input : List UInt8} {located : ℕ × ℕ} (h : located.2 + located.1 ≤ input.length) :
    Safely (copyInteger input located) fun _ => True := by
  obtain ⟨left, pos, hSkip, hEnd, -, -, -⟩ := skipZeros_spec h
  unfold copyInteger
  apply Safely.access hSkip
  by_cases hLong : left > 32
  · rw [if_pos hLong]
    exact safely_ok trivial
  · have hInside : pos + left ≤ input.length := by omega
    rw [if_neg hLong, if_pos hInside]
    exact safely_ok trivial

theorem parseDerLax_safe (input : List UInt8) :
    Safely (ecdsaSignatureParseDerLax input) fun _ => True := by
  unfold ecdsaSignatureParseDerLax
  apply Safely.bind (sequenceHead_safe input)
  intro pos hPos
  apply Safely.bind (locateInteger_safe hPos)
  intro locatedR hR
  rw [Nat.add_comm] at hR
  apply Safely.bind (locateInteger_safe (by omega))
  intro locatedS hS
  apply Safely.bind (copyInteger_safe (by omega))
  intro r _
  apply Safely.bind (copyInteger_safe hS)
  intro s _
  exact safely_ok trivial

/-! ## Strict encodings -/

/-- A strict encoding of two numbers, without a hash type. -/
def EncodesDER (vchSig : Valtype) (r s : ℕ) : Prop :=
  vchSig.length ≤ 72 ∧
    ∃ (total lenR lenS : UInt8) (R S : List UInt8),
      vchSig = 0x30 :: total :: 0x02 :: lenR :: (R ++ 0x02 :: lenS :: S) ∧
      total.toNat = (0x02 :: lenR :: (R ++ 0x02 :: lenS :: S)).length ∧
      lenR.toNat = R.length ∧ lenS.toNat = S.length ∧
      IsDERInteger R ∧ IsDERInteger S ∧ fromBytesBE R = r ∧ fromBytesBE S = s

/-- What the strict check accepts encodes two numbers, in front of the hash type. -/
theorem StrictDER.exists_encodes
    {vchSig : Valtype} (h : StrictDER vchSig true) : ∃ r s, EncodesDER vchSig.dropLast r s := by
  obtain ⟨-, hLong, total, lenR, lenS, R, S, hashType, hSig, hTotal, hLenR, hLenS, hHash,
    hR, hS⟩ := h
  obtain ⟨b, rfl⟩ := List.length_eq_one_iff.mp hHash
  have hDrop : vchSig.dropLast = 0x30 :: total :: 0x02 :: lenR :: (R ++ 0x02 :: lenS :: S) := by
    have hEnd : vchSig = (0x30 :: total :: 0x02 :: lenR :: (R ++ 0x02 :: lenS :: S)) ++ [b] := by
      rw [hSig]
      simp
    rw [hEnd, List.dropLast_concat]
  refine ⟨fromBytesBE R, fromBytesBE S, ?_, total, lenR, lenS, R, S, hDrop, hTotal, hLenR, hLenS,
    hR, hS, rfl, rfl⟩
  rw [List.length_dropLast]
  omega

/-- An integer in its place, behind its tag and its length. -/
theorem locateInteger_eq
    {pre R post : List UInt8} {pos : ℕ} {len : UInt8} (hPre : pre.length = pos)
    (hLen : len.toNat = R.length) (hShort : len.toNat < 128) :
    locateInteger (pre ++ 0x02 :: len :: (R ++ post)) pos = .ok (R.length, pos + 2) := by
  subst hPre
  have hInput : (pre ++ 0x02 :: len :: (R ++ post)).length =
      pre.length + 2 + R.length + post.length := by
    simp only [List.length_append, List.length_cons]
    omega
  have hTag : elementAt (pre ++ 0x02 :: len :: (R ++ post)) pre.length = .ok 0x02 := by
    rw [elementAt_eq_ok]
    simp
  have hLength : elementAt (pre ++ 0x02 :: len :: (R ++ post)) (pre.length + 1) = .ok len := by
    rw [elementAt_eq_ok]
    simp
  have hLow : len &&& 0x80 = 0 := by
    obtain ⟨hTop, -, -, -⟩ := signBit_facts len
    by_contra hHigh
    have := hTop.mp hHigh
    omega
  have hLocated : integerLength (pre ++ 0x02 :: len :: (R ++ post)) (pre.length + 1) =
      .ok (R.length, pre.length + 2) := by
    unfold integerLength
    rw [returnFalseIf_of_not (by omega), hLength, access_ok, if_pos hLow, hLen]
  unfold locateInteger
  rw [returnFalseIf_of_not (by omega), hTag, access_ok, returnFalseIf_of_not (not_not.mpr rfl),
    hLocated, ok_bind, returnFalseIf_of_not (by omega)]

/-- An integer is copied with its value, unless that needs more than 32 bytes. -/
theorem copyInteger_eq
    {input : List UInt8} {located : ℕ × ℕ} (h : located.2 + located.1 ≤ input.length) :
    copyInteger input located =
      .ok (if fromBytesBE (slice input located.2 located.1) < 256 ^ 32 then
        some (fromBytesBE (slice input located.2 located.1)) else none) := by
  obtain ⟨left, pos, hSkip, hEnd, hLe, hValue, hFirst⟩ := skipZeros_spec h
  have hInside : pos + left ≤ input.length := by omega
  have hLength := length_slice hInside
  unfold copyInteger
  rw [hSkip, access_ok, ← hValue]
  dsimp only
  by_cases hLong : left > 32
  · have hPos : pos < input.length := by omega
    have hGet := List.getElem?_eq_getElem hPos
    have hNonzero := hFirst _ (by omega) hGet
    obtain ⟨n, rfl⟩ : ∃ n, left = n + 1 := ⟨left - 1, by omega⟩
    have hSlice : slice input pos (n + 1) = input[pos] :: slice input (pos + 1) n := by
      rw [slice, drop_eq_cons hGet, List.take_succ_cons]
      rfl
    have hTail : (slice input (pos + 1) n).length = n := length_slice (by omega)
    have hByte : 1 ≤ input[pos].toNat := by
      by_contra hNone
      apply hNonzero
      rw [← UInt8.toNat_inj, UInt8.toNat_zero]
      omega
    have hLarge : 256 ^ 32 ≤ fromBytesBE (slice input pos (n + 1)) := by
      rw [hSlice, fromBytesBE_cons, hTail]
      calc 256 ^ 32 ≤ 256 ^ n := Nat.pow_le_pow_right (by norm_num) (by omega)
        _ = 1 * 256 ^ n := (one_mul _).symm
        _ ≤ input[pos].toNat * 256 ^ n := Nat.mul_le_mul_right _ hByte
        _ ≤ _ := Nat.le_add_right _ _
    rw [if_pos hLong, if_neg (not_lt.mpr hLarge)]
  · have hSmall : fromBytesBE (slice input pos left) < 256 ^ 32 := by
      calc fromBytesBE (slice input pos left)
          < 256 ^ (slice input pos left).length := fromBytesBE_lt _
        _ ≤ 256 ^ 32 := Nat.pow_le_pow_right (by norm_num) (by omega)
    rw [if_neg hLong, if_pos hInside, if_pos hSmall]

/-- A number that does not fit is not below the order either. -/
theorem copiedSignature_eq (r s : ℕ) :
    copiedSignature (if r < 256 ^ 32 then some r else none)
      (if s < 256 ^ 32 then some s else none) = parseCompact r s := by
  have hOrder : SECP256K1_N < 256 ^ 32 := by norm_num [SECP256K1_N]
  unfold parseCompact
  by_cases hr : r < 256 ^ 32
  · by_cases hs : s < 256 ^ 32
    · rw [if_pos hr, if_pos hs]
      rfl
    · rw [if_pos hr, if_neg hs, if_neg (by omega)]
      rfl
  · have hFails : ¬(r < SECP256K1_N ∧ s < SECP256K1_N) := by omega
    rw [if_neg hr, if_neg hFails]
    split_ifs <;> rfl

/-- A strict encoding is read as what it encodes, whatever follows it. -/
theorem parseDerLax_strict
    {vchSig : Valtype} {r s : ℕ} (h : EncodesDER vchSig r s) (garbage : List UInt8) :
    ecdsaSignatureParseDerLax (vchSig ++ garbage) = .ok (parseCompact r s) := by
  obtain ⟨hLong, total, lenR, lenS, R, S, rfl, hTotal, hLenR, hLenS, -, -, rfl, rfl⟩ := h
  simp only [List.length_cons, List.length_append] at hLong hTotal
  have hLow : total &&& 0x80 = 0 := by
    obtain ⟨hTop, -, -, -⟩ := signBit_facts total
    by_contra hHigh
    have := hTop.mp hHigh
    omega
  generalize hInput : 0x30 :: total :: 0x02 :: lenR :: (R ++ 0x02 :: lenS :: S) ++ garbage = input
  have hFront : input =
      [0x30, total] ++ 0x02 :: lenR :: (R ++ (0x02 :: lenS :: (S ++ garbage))) := by simp [← hInput]
  have hBack : input = (0x30 :: total :: 0x02 :: lenR :: R) ++ 0x02 :: lenS :: (S ++ garbage) := by
    simp [hFront]
  have hLength : input.length = 4 + R.length + 2 + S.length + garbage.length := by
    rw [hBack]
    simp only [List.length_cons, List.length_append]
    omega
  have hHead : sequenceHead input = .ok 2 := by
    have hTag : elementAt input 0 = .ok 0x30 := by rw [hFront]; rfl
    have hTotalAt : elementAt input 1 = .ok total := by rw [hFront]; rfl
    unfold sequenceHead
    rw [returnFalseIf_of_not (by omega), hTag, access_ok, returnFalseIf_of_not (not_not.mpr rfl),
      returnFalseIf_of_not (by omega), hTotalAt, access_ok, if_pos hLow]
  have hLocateR : locateInteger input 2 = .ok (R.length, 4) := by
    rw [hFront]
    exact locateInteger_eq rfl hLenR (by omega)
  have hLocateS : locateInteger input (4 + R.length) = .ok (S.length, 4 + R.length + 2) := by
    rw [hBack]
    apply locateInteger_eq _ hLenS (by omega)
    simp only [List.length_cons]
    omega
  have hSliceR : slice input 4 R.length = R := by
    have hParts : input = [0x30, total, 0x02, lenR] ++ (R ++ (0x02 :: lenS :: S ++ garbage)) := by
      simp [hFront]
    rw [hParts]
    exact slice_append_left rfl rfl
  have hSliceS : slice input (4 + R.length + 2) S.length = S := by
    have hParts : input =
        (0x30 :: total :: 0x02 :: lenR :: R ++ [0x02, lenS]) ++ (S ++ garbage) := by simp [hBack]
    rw [hParts]
    apply slice_append_left _ rfl
    simp only [List.length_append, List.length_cons, List.length_nil]
    omega
  unfold ecdsaSignatureParseDerLax
  rw [hHead, ok_bind, hLocateR, ok_bind, hLocateS, ok_bind, copyInteger_eq (by omega), ok_bind,
    copyInteger_eq (by omega), ok_bind]
  dsimp only
  rw [hSliceR, hSliceS, copiedSignature_eq]

/-! ## The two forms of a signature -/

/-- A number has bytes of a given length if the top bit stays free. -/
theorem exists_nonNegativeBytes {n k : ℕ} (h : n < 128 * 256 ^ k) :
    ∃ bytes, NonNegativeBytes bytes ∧ bytes.length = k + 1 ∧ fromBytesBE bytes = n := by
  have hTop : n / 256 ^ k < 128 := Nat.div_lt_of_lt_mul (by rwa [Nat.mul_comm])
  have hByte : (UInt8.ofNat (n / 256 ^ k)).toNat = n / 256 ^ k := by
    rw [UInt8.toNat_ofNat']
    exact Nat.mod_eq_of_lt (by omega)
  refine ⟨UInt8.ofNat (n / 256 ^ k) :: (toBytesLE k n).reverse, ⟨_, _, rfl, ?_⟩, ?_, ?_⟩
  · rwa [hByte]
  · rw [List.length_cons, List.length_reverse, length_toBytesLE]
  · rw [fromBytesBE_cons, hByte, List.length_reverse, length_toBytesLE, fromBytesBE,
      List.reverse_reverse, fromBytesLE_toBytesLE]
    exact Nat.div_add_mod' n (256 ^ k)

/-- Every number has a shortest form. -/
theorem exists_derInteger (n : ℕ) : ∃ bytes, IsDERInteger bytes ∧ fromBytesBE bytes = n := by
  classical
  have hSome : ∃ length bytes, NonNegativeBytes bytes ∧ fromBytesBE bytes = n ∧
      bytes.length = length := by
    have hLarge : n < 128 * 256 ^ n := by
      have := Nat.lt_pow_self (n := n) (show 1 < 256 by norm_num)
      omega
    obtain ⟨bytes, hNonneg, -, hValue⟩ := exists_nonNegativeBytes hLarge
    exact ⟨_, bytes, hNonneg, hValue, rfl⟩
  obtain ⟨bytes, hNonneg, hValue, hLength⟩ := Nat.find_spec hSome
  refine ⟨bytes, ⟨hNonneg, ?_⟩, hValue⟩
  intro bytes' hNonneg' hSame
  rw [hLength]
  exact Nat.find_le ⟨bytes', hNonneg', hSame.trans hValue, rfl⟩

theorem isDERInteger_one : IsDERInteger [1] := by
  rw [isDERInteger_iff]
  exact ⟨by decide, fun _ _ hNil => absurd hNil (List.cons_ne_nil _ _).symm⟩

theorem IsDERInteger.length_le
    {bytes : List UInt8} {k : ℕ} (h : IsDERInteger bytes)
    (hValue : fromBytesBE bytes < 128 * 256 ^ k) : bytes.length ≤ k + 1 := by
  obtain ⟨bytes', hNonneg, hLength, hSame⟩ := exists_nonNegativeBytes hValue
  rw [← hLength]
  exact h.2 bytes' hNonneg hSame

/-- Two numbers below the order have a strict encoding. -/
theorem exists_encodesDER {r s : ℕ} (hr : r < SECP256K1_N) (hs : s < SECP256K1_N) :
    ∃ vchSig, EncodesDER vchSig r s := by
  have hOrder : SECP256K1_N < 128 * 256 ^ 32 := by norm_num [SECP256K1_N]
  obtain ⟨R, hR, rfl⟩ := exists_derInteger r
  obtain ⟨S, hS, rfl⟩ := exists_derInteger s
  have hLengthR : R.length ≤ 33 := hR.length_le (hr.trans hOrder)
  have hLengthS : S.length ≤ 33 := hS.length_le (hs.trans hOrder)
  have hByte {n : ℕ} (h : n < 256) : (UInt8.ofNat n).toNat = n := by
    rw [UInt8.toNat_ofNat']
    exact Nat.mod_eq_of_lt h
  have hBody : (0x02 :: UInt8.ofNat R.length ::
      (R ++ 0x02 :: UInt8.ofNat S.length :: S)).length = R.length + S.length + 4 := by
    simp only [List.length_cons, List.length_append]
    omega
  refine ⟨0x30 :: UInt8.ofNat (R.length + S.length + 4) :: 0x02 :: UInt8.ofNat R.length ::
    (R ++ 0x02 :: UInt8.ofNat S.length :: S), ?_, _, _, _, R, S, rfl, ?_, hByte (by omega),
    hByte (by omega), hR, hS, rfl, rfl⟩
  · rw [List.length_cons, List.length_cons, hBody]
    omega
  · rw [hBody]
    exact hByte (by omega)

/-- What `Verify` sees of a strict encoding: the numbers, with the lower of `s` and `-s`. -/
theorem verify_strict
    (tools : EcdsaVerify) (pubkey : CPubKey) (hash : ℕ) {vchSig : Valtype} {r s : ℕ}
    (h : EncodesDER vchSig r s) :
    pubkey.verify tools hash vchSig =
      if pubkey.isValid && tools.parsesPubKey pubkey.vch then
        .ok (tools.verify pubkey.vch hash (parseCompact r s).normalize)
      else .error .returnsFalse := by
  have hParse := parseDerLax_strict h []
  rw [List.append_nil] at hParse
  have hLength : vchSig.length ≠ 0 := by
    obtain ⟨-, total, lenR, lenS, R, S, rfl, -⟩ := h
    exact Nat.succ_ne_zero _
  unfold CPubKey.verify
  by_cases hValid : pubkey.isValid = true
  · by_cases hParses : tools.parsesPubKey pubkey.vch = true
    · rw [returnFalseIf_of_not (by simp [hValid]), returnFalseIf_of_not (by simp [hParses]),
        returnFalseIf_of_not hLength, hParse, ok_bind, if_pos (by simp [hValid, hParses])]
    · rw [returnFalseIf_of_not (by simp [hValid]), if_neg (by simp [hParses]), returnFalseIf,
        if_pos (by simp [hParses])]
      rfl
  · rw [if_neg (by simp [hValid]), returnFalseIf, if_pos (by simp [hValid])]
    rfl

theorem checkLowS_strict {vchSig : Valtype} {r s : ℕ} (h : EncodesDER vchSig r s) :
    CPubKey.checkLowS vchSig = .ok (!(parseCompact r s).isHigh) := by
  have hParse := parseDerLax_strict h []
  rw [List.append_nil] at hParse
  rw [CPubKey.checkLowS, hParse, ok_bind]

/-- The two forms of a signature in range normalize to one, and one of them is low. -/
theorem parseCompact_negated
    {r s : ℕ} (hr : r < SECP256K1_N) (hPos : 0 < s) (hs : s < SECP256K1_N) :
    (parseCompact r (SECP256K1_N - s)).normalize = (parseCompact r s).normalize ∧
      (parseCompact r (SECP256K1_N - s)).isHigh = !(parseCompact r s).isHigh := by
  have hOdd : SECP256K1_N % 2 = 1 := by norm_num [SECP256K1_N]
  have hNegated : SECP256K1_N - s < SECP256K1_N := by omega
  unfold parseCompact
  rw [if_pos ⟨hr, hNegated⟩, if_pos ⟨hr, hs⟩]
  by_cases hHigh : s > SECP256K1_N / 2
  · have hLow : ¬SECP256K1_N - s > SECP256K1_N / 2 := by omega
    simp [Secp256k1Signature.normalize, Secp256k1Signature.isHigh, hHigh, hLow]
  · have hOther : SECP256K1_N - s > SECP256K1_N / 2 := by omega
    have hBack : SECP256K1_N - (SECP256K1_N - s) = s := by omega
    simp [Secp256k1Signature.normalize, Secp256k1Signature.isHigh, hHigh, hOther, hBack]

/-! ## Main results -/

/-- Whatever the bytes of a signature, checking it reads nothing outside of them. -/
theorem verify_in_bounds
    (tools : EcdsaVerify) (pubkey : CPubKey) (hash : ℕ) (vchSig : Valtype) (f : Fault) :
    pubkey.verify tools hash vchSig ≠ .error (.fault f) ∧
      CPubKey.checkLowS vchSig ≠ .error (.fault f) := by
  have hVerify : Safely (pubkey.verify tools hash vchSig) fun _ => True := by
    apply Safely.test
    intro _
    apply Safely.test
    intro _
    apply Safely.test
    intro _
    apply Safely.bind (parseDerLax_safe vchSig)
    intro sig _
    exact safely_ok trivial
  have hLowS : Safely (CPubKey.checkLowS vchSig) fun _ => True := by
    apply Safely.bind (parseDerLax_safe vchSig)
    intro sig _
    exact safely_ok trivial
  exact ⟨hVerify.1 f, hLowS.1 f⟩

/-- The tolerance does not show on signatures that pass the strict check: they are read as the
two numbers that they encode, and so is every text that starts with one of them. -/
theorem strict_signature_read
    {vchSig : Valtype} (h : StrictDER vchSig true) :
    ∃ r s, EncodesDER vchSig.dropLast r s ∧
      ∀ garbage, ecdsaSignatureParseDerLax (vchSig.dropLast ++ garbage) =
        .ok (parseCompact r s) := by
  obtain ⟨r, s, hEncodes⟩ := h.exists_encodes
  exact ⟨r, s, hEncodes, parseDerLax_strict hEncodes⟩

theorem strict_signature_read_derSig :
    ∃ r s, EncodesDER (Sample.derSig ++ [1]).dropLast r s ∧
      ∀ garbage, ecdsaSignatureParseDerLax ((Sample.derSig ++ [1]).dropLast ++ garbage) =
        .ok (parseCompact r s) :=
  strict_signature_read ⟨by decide, by decide, 6, 1, 1, [1], [1], [1], rfl, rfl, rfl, rfl, rfl,
    isDERInteger_one, isDERInteger_one⟩

/-- Every signature in range has a second strict form: no key and no hash tell the two apart,
and exactly one of them passes the test for a low `s`. -/
theorem signature_has_second_form
    {vchSig : Valtype} {r s : ℕ} (h : EncodesDER vchSig r s) (hr : r < SECP256K1_N)
    (hPos : 0 < s) (hs : s < SECP256K1_N) :
    ∃ vchSig', EncodesDER vchSig' r (SECP256K1_N - s) ∧
      (∀ tools pubkey hash,
        CPubKey.verify tools pubkey hash vchSig' = CPubKey.verify tools pubkey hash vchSig) ∧
      ∃ fLow, CPubKey.checkLowS vchSig = .ok fLow ∧ CPubKey.checkLowS vchSig' = .ok (!fLow) := by
  have hNegated : SECP256K1_N - s < SECP256K1_N := by omega
  obtain ⟨vchSig', h'⟩ := exists_encodesDER hr hNegated
  obtain ⟨hSame, hOther⟩ := parseCompact_negated hr hPos hs
  refine ⟨vchSig', h', ?_, _, checkLowS_strict h, ?_⟩
  · intro tools pubkey hash
    rw [verify_strict tools pubkey hash h, verify_strict tools pubkey hash h', hSame]
  · rw [checkLowS_strict h', hOther]

theorem signature_has_second_form_derSig :
    ∃ vchSig', EncodesDER vchSig' 1 (SECP256K1_N - 1) ∧
      (∀ tools pubkey hash,
        CPubKey.verify tools pubkey hash vchSig' = CPubKey.verify tools pubkey hash Sample.derSig) ∧
      ∃ fLow, CPubKey.checkLowS Sample.derSig = .ok fLow ∧
        CPubKey.checkLowS vchSig' = .ok (!fLow) :=
  signature_has_second_form ⟨by decide, 6, 1, 1, [1], [1], rfl, rfl, rfl, rfl,
    isDERInteger_one, isDERInteger_one, rfl, rfl⟩
    (by decide) Nat.one_pos (by decide)

end SocietyGold
