import SocietyGold.CheckSig
import SocietyGold.Support.Tokens
import SocietyGold.VarInt

/-!
# Compressed scripts

`CScriptCompressor` writes payments to a key, to the hash of a key and to the hash of a
script in special forms, whose first byte is below six; any other script follows its size,
which six is added to.  A script is read back as it was, as long as its size with the six
is an `unsigned int`.
-/

namespace SocietyGold

open Support

/-! ## Public keys on the curve -/

/-- `secp256k1_ec_pubkey_parse`, with the point as `secp256k1_ec_pubkey_serialize` writes it
uncompressed. -/
abbrev PubKeyParser := Valtype → Option Valtype

namespace CPubKey

/-- A byte of a key; the first byte of an invalid one is 0xFF. -/
def byte (pubkey : CPubKey) (pos : ℕ) : UInt8 := (pubkey.vch[pos]?).getD 0xFF

def isFullyValid (parse : PubKeyParser) (pubkey : CPubKey) : Bool :=
  pubkey.isValid && (parse pubkey.vch).isSome

/-- `Decompress`: the uncompressed key, if it returns true. -/
def decompress (parse : PubKeyParser) (pubkey : CPubKey) : Option CPubKey :=
  if pubkey.isValid then (parse pubkey.vch).map CPubKey.ofBytes else none

/-- `Decompress` finds a fully valid key from its first coordinate and the parity of the
second one. -/
def DecompressInverts (parse : PubKeyParser) : Prop :=
  ∀ x y : List UInt8, x.length = 32 → y.length = 32 →
    (ofBytes (0x04 :: (x ++ y))).isFullyValid parse = true →
      (ofBytes ((0x02 ||| (y.getLast?.getD 0 &&& 0x01)) :: x)).decompress parse =
        some (ofBytes (0x04 :: (x ++ y)))

end CPubKey

namespace CScriptCompressor

/-! ## The code -/

def nSpecialScripts : ℕ := 6

def isToKeyID (script : CScript) : Option (List UInt8) :=
  if script.length = 25 ∧ script[0]? = some OP_DUP ∧ script[1]? = some OP_HASH160 ∧
      script[2]? = some 20 ∧ script[23]? = some OP_EQUALVERIFY ∧
      script[24]? = some OP_CHECKSIG then
    some ((script.drop 3).take 20)
  else none

def isToScriptID (script : CScript) : Option (List UInt8) :=
  if script.length = 23 ∧ script[0]? = some OP_HASH160 ∧ script[1]? = some 20 ∧
      script[22]? = some OP_EQUAL then
    some ((script.drop 2).take 20)
  else none

def isToPubKey (parse : PubKeyParser) (script : CScript) : Option CPubKey :=
  if script.length = 35 ∧ script[0]? = some 33 ∧ script[34]? = some OP_CHECKSIG ∧
      (script[1]? = some 0x02 ∨ script[1]? = some 0x03) then
    some (CPubKey.ofBytes ((script.drop 1).take 33))
  else if script.length = 67 ∧ script[0]? = some 65 ∧ script[66]? = some OP_CHECKSIG ∧
      script[1]? = some 0x04 then
    let pubkey := CPubKey.ofBytes ((script.drop 1).take 65)
    if pubkey.isFullyValid parse then some pubkey else none
  else none

/-- `Compress`: the special form of a script that has one. -/
def compress (parse : PubKeyParser) (script : CScript) : Option (List UInt8) :=
  match isToKeyID script with
  | some keyID => some (0x00 :: keyID)
  | none =>
      match isToScriptID script with
      | some scriptID => some (0x01 :: scriptID)
      | none =>
          match isToPubKey parse script with
          | some pubkey =>
              let x := (pubkey.vch.drop 1).take 32
              if pubkey.byte 0 = 0x02 ∨ pubkey.byte 0 = 0x03 then some (pubkey.byte 0 :: x)
              else if pubkey.byte 0 = 0x04 then
                some ((0x04 ||| (pubkey.byte 64 &&& 0x01)) :: x)
              else none
          | none => none

def getSpecialSize (nSize : ℕ) : ℕ :=
  if nSize = 0 ∨ nSize = 1 then 20
  else if nSize = 2 ∨ nSize = 3 ∨ nSize = 4 ∨ nSize = 5 then 32
  else 0

/-- `Decompress`: what it returns, and the script that it leaves. -/
def decompress (parse : PubKeyParser) (nSize : ℕ) (special : List UInt8) (script : CScript) :
    Checked (Bool × CScript) :=
  if nSize = 0 then
    .ok (true, OP_DUP :: OP_HASH160 :: 20 :: (special ++ [OP_EQUALVERIFY, OP_CHECKSIG]))
  else if nSize = 1 then .ok (true, OP_HASH160 :: 20 :: (special ++ [OP_EQUAL]))
  else if nSize = 2 ∨ nSize = 3 then
    .ok (true, 33 :: UInt8.ofNat nSize :: (special ++ [OP_CHECKSIG]))
  else if nSize = 4 ∨ nSize = 5 then
    match (CPubKey.ofBytes (UInt8.ofNat (nSize - 2) :: special)).decompress parse with
    | none => .ok (false, script)
    | some pubkey =>
        assertThat (pubkey.vch.length = 65) >>= fun _ =>
          .ok (true, 65 :: (pubkey.vch ++ [OP_CHECKSIG]))
  else .ok (false, script)

/-- The size in front of a script, an `unsigned int`. -/
def sizeField (script : CScript) : VarIntType.unsignedInt.Value :=
  BitVec.ofNat _ (script.length + nSpecialScripts)

def getSerializeSize (parse : PubKeyParser) (script : CScript) : ℕ :=
  match compress parse script with
  | some compr => compr.length % 2 ^ 32
  | none => (script.length + getSizeOfVarInt (sizeField script)) % 2 ^ 32

def serialize (parse : PubKeyParser) (script : CScript) : Checked (List UInt8) :=
  match compress parse script with
  | some compr => .ok compr
  | none => do
      let header ← writeVarInt (sizeField script)
      .ok (header ++ script)

/-- Take bytes off a stream, which throws when it has too few. -/
def takeBytes (n : ℕ) (stream : List UInt8) : Checked (List UInt8 × List UInt8) :=
  match readBytes n stream with
  | some read => .ok read
  | none => .error .uncaughtException

/-- `Unserialize` into a script, with the stream after it. -/
def unserialize (parse : PubKeyParser) (script : CScript) (stream : List UInt8) :
    Checked (CScript × List UInt8) :=
  match (readVarInt stream : Option (VarIntType.unsignedInt.Value × List UInt8)) with
  | none => .error .uncaughtException
  | some (nSize, rest) =>
      if nSize.toNat < nSpecialScripts then do
        let (vch, rest) ← takeBytes (getSpecialSize nSize.toNat) rest
        let (_, script) ← decompress parse nSize.toNat vch script
        .ok (script, rest)
      else takeBytes (nSize.toNat - nSpecialScripts) rest

/-! ## The special forms -/

theorem isToKeyID_eq_some
    {script : CScript} {keyID : List UInt8} (h : isToKeyID script = some keyID) :
    keyID.length = 20 ∧
      script = OP_DUP :: OP_HASH160 :: 20 :: (keyID ++ [OP_EQUALVERIFY, OP_CHECKSIG]) := by
  unfold isToKeyID at h
  split_ifs at h with hForm
  obtain ⟨hLength, h0, h1, h2, h23, h24⟩ := hForm
  obtain rfl := Option.some.inj h
  have hEnd : script.drop 25 = [] := List.drop_of_length_le hLength.le
  have hScript : script = script.drop 0 := rfl
  refine ⟨by rw [List.length_take, List.length_drop]; omega, ?_⟩
  conv_lhs => rw [hScript, drop_eq_cons h0, drop_eq_cons h1, drop_eq_cons h2,
    drop_eq_append script 3 20, drop_eq_cons h23, drop_eq_cons h24, hEnd]
  rfl

theorem isToScriptID_eq_some
    {script : CScript} {scriptID : List UInt8} (h : isToScriptID script = some scriptID) :
    scriptID.length = 20 ∧ script = OP_HASH160 :: 20 :: (scriptID ++ [OP_EQUAL]) := by
  unfold isToScriptID at h
  split_ifs at h with hForm
  obtain ⟨hLength, h0, h1, h22⟩ := hForm
  obtain rfl := Option.some.inj h
  have hEnd : script.drop 23 = [] := List.drop_of_length_le hLength.le
  have hScript : script = script.drop 0 := rfl
  refine ⟨by rw [List.length_take, List.length_drop]; omega, ?_⟩
  conv_lhs => rw [hScript, drop_eq_cons h0, drop_eq_cons h1, drop_eq_append script 2 20,
    drop_eq_cons h22, hEnd]
  rfl

theorem vch_ofBytes
    {b : UInt8} {x : List UInt8} (h : x.length + 1 = getLen b) :
    (CPubKey.ofBytes (b :: x)).vch = b :: x := by
  have hLength : (b :: x).length = keyLength (b :: x) := h
  rw [CPubKey.ofBytes, dif_pos hLength]

/-- A payment to a key in one of the two forms that are recognized. -/
inductive KeyScript (parse : PubKeyParser) (script : CScript) (pubkey : CPubKey) : Prop
  | compressed (b : UInt8) (x : List UInt8) (first : b = 0x02 ∨ b = 0x03)
      (length : x.length = 32) (key : pubkey.vch = b :: x)
      (form : script = 33 :: b :: (x ++ [OP_CHECKSIG]))
  | uncompressed (x y : List UInt8) (length : x.length = 32) (length' : y.length = 32)
      (key : pubkey = CPubKey.ofBytes (0x04 :: (x ++ y)))
      (valid : pubkey.isFullyValid parse = true)
      (form : script = 65 :: 0x04 :: (x ++ (y ++ [OP_CHECKSIG])))

theorem isToPubKey_eq_some
    {parse : PubKeyParser} {script : CScript} {pubkey : CPubKey}
    (h : isToPubKey parse script = some pubkey) : KeyScript parse script pubkey := by
  have hScript : script = script.drop 0 := rfl
  unfold isToPubKey at h
  split_ifs at h with hForm hForm'
  · obtain ⟨hLength, h0, h34, h1⟩ := hForm
    obtain rfl := Option.some.inj h
    have hEnd : script.drop 35 = [] := List.drop_of_length_le hLength.le
    have hSize : ((script.drop 2).take 32).length = 32 := by
      rw [List.length_take, List.length_drop]
      omega
    obtain ⟨b, hFirst, hByte⟩ : ∃ b : UInt8, (b = 0x02 ∨ b = 0x03) ∧ script[1]? = some b := by
      rcases h1 with h1 | h1
      · exact ⟨0x02, Or.inl rfl, h1⟩
      · exact ⟨0x03, Or.inr rfl, h1⟩
    have hKey : (script.drop 1).take 33 = b :: (script.drop 2).take 32 := by
      rw [drop_eq_cons hByte, List.take_succ_cons]
    have hLen : getLen b = 33 := by
      rcases hFirst with rfl | rfl <;> rfl
    refine .compressed b ((script.drop 2).take 32) hFirst hSize ?_ ?_
    · rw [hKey]
      exact vch_ofBytes (by rw [hSize, hLen])
    · conv_lhs => rw [hScript, drop_eq_cons h0, drop_eq_cons hByte, drop_eq_append script 2 32,
        drop_eq_cons h34, hEnd]
      rfl
  · obtain ⟨hLength, h0, h66, h1⟩ := hForm'
    dsimp only at h
    split_ifs at h with hValid
    obtain rfl := Option.some.inj h
    have hEnd : script.drop 67 = [] := List.drop_of_length_le hLength.le
    have hKey : (script.drop 1).take 65 =
        0x04 :: ((script.drop 2).take 32 ++ (script.drop 34).take 32) := by
      rw [drop_eq_cons h1, List.take_succ_cons, ← List.drop_drop (i := 32) (j := 2),
        ← List.take_add]
    refine .uncompressed ((script.drop 2).take 32) ((script.drop 34).take 32) ?_ ?_ ?_ hValid ?_
    · rw [List.length_take, List.length_drop]
      omega
    · rw [List.length_take, List.length_drop]
      omega
    · rw [hKey]
    · conv_lhs => rw [hScript, drop_eq_cons h0, drop_eq_cons h1, drop_eq_append script 2 32,
        drop_eq_append script 34 32, drop_eq_cons h66, hEnd]
      rfl

/-! ## Special forms are read back -/

/-- The special form has its number first, then as many bytes as the reader takes for it,
from which the script is rebuilt. -/
def IsSpecial (parse : PubKeyParser) (script : CScript) (compr : List UInt8) : Prop :=
  ∃ b special, compr = b :: special ∧ b.toNat < nSpecialScripts ∧
    special.length = getSpecialSize b.toNat ∧
    ∀ script', decompress parse b.toNat special script' = .ok (true, script)

/-- A key with its second coordinate, of which one bit is kept. -/
theorem parity_cases (b : UInt8) : b &&& 0x01 = 0 ∨ b &&& 0x01 = 1 := by
  have hAll : ∀ i : Fin 256, UInt8.ofNat i.val &&& 0x01 = 0 ∨ UInt8.ofNat i.val &&& 0x01 = 1 := by
    decide +kernel
  have h := hAll ⟨b.toNat, b.toNat_lt⟩
  rwa [UInt8.ofNat_toNat] at h

theorem isSpecial_compressed
    (parse : PubKeyParser) {b : UInt8} (hFirst : b = 0x02 ∨ b = 0x03) {x : List UInt8}
    (hLength : x.length = 32) : IsSpecial parse (33 :: b :: (x ++ [OP_CHECKSIG])) (b :: x) := by
  rcases hFirst with rfl | rfl
  · exact ⟨0x02, x, rfl, by decide, hLength, fun script' => rfl⟩
  · exact ⟨0x03, x, rfl, by decide, hLength, fun script' => rfl⟩

theorem isSpecial_uncompressed
    {parse : PubKeyParser} (hCurve : CPubKey.DecompressInverts parse) {x y : List UInt8}
    (hLength : x.length = 32) (hLength' : y.length = 32)
    (hValid : (CPubKey.ofBytes (0x04 :: (x ++ y))).isFullyValid parse = true) :
    IsSpecial parse (65 :: 0x04 :: (x ++ (y ++ [OP_CHECKSIG])))
      ((0x04 ||| (y.getLast?.getD 0 &&& 0x01)) :: x) := by
  have hFound := hCurve x y hLength hLength' hValid
  have hKey : (CPubKey.ofBytes (0x04 :: (x ++ y))).vch = 0x04 :: (x ++ y) :=
    vch_ofBytes (by rw [List.length_append, hLength, hLength']; rfl)
  have hSize : (CPubKey.ofBytes (0x04 :: (x ++ y))).vch.length = 65 := by
    rw [hKey, List.length_cons, List.length_append, hLength, hLength']
  have hRebuilt : (65 : UInt8) :: ((CPubKey.ofBytes (0x04 :: (x ++ y))).vch ++ [OP_CHECKSIG]) =
      65 :: 0x04 :: (x ++ (y ++ [OP_CHECKSIG])) := by
    rw [hKey, List.cons_append, List.append_assoc]
  rcases parity_cases (y.getLast?.getD 0) with hParity | hParity
  · rw [hParity] at hFound ⊢
    refine ⟨0x04, x, rfl, by decide, hLength, fun script' => ?_⟩
    have hKey : (CPubKey.ofBytes (UInt8.ofNat ((0x04 : UInt8).toNat - 2) :: x)).decompress parse =
        some (CPubKey.ofBytes (0x04 :: (x ++ y))) := hFound
    rw [← hRebuilt]
    simp only [decompress, hKey, assertThat, hSize]
    rfl
  · rw [hParity] at hFound ⊢
    refine ⟨0x05, x, rfl, by decide, hLength, fun script' => ?_⟩
    have hKey : (CPubKey.ofBytes (UInt8.ofNat ((0x05 : UInt8).toNat - 2) :: x)).decompress parse =
        some (CPubKey.ofBytes (0x04 :: (x ++ y))) := hFound
    rw [← hRebuilt]
    simp only [decompress, hKey, assertThat, hSize]
    rfl

theorem byte_of_vch
    {pubkey : CPubKey} {vch : Valtype} (h : pubkey.vch = vch) (pos : ℕ) :
    pubkey.byte pos = (vch[pos]?).getD 0xFF := by
  rw [CPubKey.byte, h]

theorem isSpecial_compress
    {parse : PubKeyParser} (hCurve : CPubKey.DecompressInverts parse) {script : CScript}
    {compr : List UInt8} (h : compress parse script = some compr) :
    IsSpecial parse script compr := by
  unfold compress at h
  cases hKeyID : isToKeyID script with
  | some keyID =>
      rw [hKeyID] at h
      obtain rfl := Option.some.inj h
      obtain ⟨hLength, hScript⟩ := isToKeyID_eq_some hKeyID
      rw [hScript]
      exact ⟨0x00, keyID, rfl, by decide, hLength, fun script' => rfl⟩
  | none =>
      rw [hKeyID] at h
      dsimp only at h
      cases hScriptID : isToScriptID script with
      | some scriptID =>
          rw [hScriptID] at h
          obtain rfl := Option.some.inj h
          obtain ⟨hLength, hScript⟩ := isToScriptID_eq_some hScriptID
          rw [hScript]
          exact ⟨0x01, scriptID, rfl, by decide, hLength, fun script' => rfl⟩
      | none =>
          rw [hScriptID] at h
          dsimp only at h
          cases hPubKey : isToPubKey parse script with
          | none =>
              rw [hPubKey] at h
              cases h
          | some pubkey =>
              rw [hPubKey] at h
              dsimp only at h
              cases isToPubKey_eq_some hPubKey with
              | compressed b x hFirst hLength hKey hForm =>
                  have hByte : pubkey.byte 0 = b := by rw [byte_of_vch hKey]; rfl
                  rw [hByte, if_pos hFirst, hKey, List.drop_one, List.tail_cons,
                    List.take_of_length_le hLength.le] at h
                  obtain rfl := Option.some.inj h
                  rw [hForm]
                  exact isSpecial_compressed parse hFirst hLength
              | uncompressed x y hLength hLength' hKey hValid hForm =>
                  have hVch : pubkey.vch = 0x04 :: (x ++ y) := by
                    rw [hKey]
                    exact vch_ofBytes (by rw [List.length_append, hLength, hLength']; rfl)
                  have hByte : pubkey.byte 0 = 0x04 := by rw [byte_of_vch hVch]; rfl
                  have hLast : pubkey.byte 64 = y.getLast?.getD 0 := by
                    have hNe : y ≠ [] := by
                      rintro rfl
                      cases hLength'
                    rw [byte_of_vch hVch, List.getLast?_eq_getElem?, hLength',
                      List.getElem?_cons_succ, List.getElem?_append_right (by omega), hLength,
                      List.getElem?_eq_getElem (by omega)]
                    rfl
                  rw [hByte, if_neg (by decide), if_pos rfl, hLast, hVch, List.drop_one,
                    List.tail_cons, List.take_left' hLength] at h
                  obtain rfl := Option.some.inj h
                  rw [hForm]
                  rw [hKey] at hValid
                  exact isSpecial_uncompressed hCurve hLength hLength' hValid

/-! ## Round trips -/

/-- The special forms are for short scripts. -/
theorem length_of_compress
    {parse : PubKeyParser} {script : CScript} {compr : List UInt8}
    (h : compress parse script = some compr) : script.length ≤ 67 := by
  unfold compress at h
  cases hKeyID : isToKeyID script with
  | some keyID =>
      obtain ⟨hLength, hScript⟩ := isToKeyID_eq_some hKeyID
      rw [hScript]
      simp [hLength]
  | none =>
      rw [hKeyID] at h
      dsimp only at h
      cases hScriptID : isToScriptID script with
      | some scriptID =>
          obtain ⟨hLength, hScript⟩ := isToScriptID_eq_some hScriptID
          rw [hScript]
          simp [hLength]
      | none =>
          rw [hScriptID] at h
          dsimp only at h
          cases hPubKey : isToPubKey parse script with
          | none =>
              rw [hPubKey] at h
              cases h
          | some pubkey =>
              cases isToPubKey_eq_some hPubKey with
              | compressed b x hFirst hLength hKey hForm =>
                  rw [hForm]
                  simp [hLength]
              | uncompressed x y hLength hLength' hKey hValid hForm =>
                  rw [hForm]
                  simp [hLength, hLength']

/-- Written, read back from any stream that starts with it, and as long as
`GetSerializeSize` says. -/
def RoundTrips (parse : PubKeyParser) (script : CScript) : Prop :=
  ∃ bytes, serialize parse script = .ok bytes ∧
    bytes.length = getSerializeSize parse script ∧
    ∀ script' rest, unserialize parse script' (bytes ++ rest) = .ok (script, rest)

theorem takeBytes_append (bytes rest : List UInt8) :
    takeBytes bytes.length (bytes ++ rest) = .ok (bytes, rest) := by
  simp [takeBytes, readBytes]

theorem length_of_takeBytes
    {n : ℕ} {stream bytes rest : List UInt8} (h : takeBytes n stream = .ok (bytes, rest)) :
    bytes.length = n := by
  unfold takeBytes readBytes at h
  split_ifs at h with hLength
  · obtain ⟨rfl, -⟩ := Prod.mk.inj (Except.ok.inj h)
    exact List.length_take_of_le hLength

theorem readVarInt_byte
    {b : UInt8} (h : b.toNat < nSpecialScripts) (rest : List UInt8) :
    readVarInt (b :: rest) =
      some ((BitVec.ofNat _ b.toNat : VarIntType.unsignedInt.Value), rest) := by
  have hDigit : b.toNat < 128 := lt_trans h (by decide)
  have hLast := readVarIntFrom_last (I := .unsignedInt) 0 hDigit rest
  rw [Nat.or_zero, UInt8.ofNat_toNat, Nat.zero_mul, Nat.zero_add] at hLast
  exact hLast

theorem roundTrips_of_special
    {parse : PubKeyParser} {script : CScript} {compr : List UInt8}
    (hCompress : compress parse script = some compr) (h : IsSpecial parse script compr) :
    RoundTrips parse script := by
  obtain ⟨b, special, rfl, hSmall, hLength, hRebuilt⟩ := h
  have hBound : special.length ≤ 32 := by
    rw [hLength]
    unfold getSpecialSize
    split_ifs <;> omega
  refine ⟨b :: special, by rw [serialize, hCompress], ?_, fun script' rest => ?_⟩
  · rw [getSerializeSize, hCompress]
    dsimp only
    rw [List.length_cons]
    omega
  · have hNumber : (BitVec.ofNat (8 * VarIntType.unsignedInt.sizeof) b.toNat).toNat = b.toNat := by
      rw [BitVec.toNat_ofNat]
      apply Nat.mod_eq_of_lt
      exact lt_trans hSmall (by decide)
    rw [List.cons_append, unserialize, readVarInt_byte hSmall]
    dsimp only
    rw [hNumber, if_pos hSmall, ← hLength, takeBytes_append, ok_bind]
    dsimp only
    rw [hRebuilt, ok_bind]

theorem toNat_sizeField
    {script : CScript} (h : script.length + nSpecialScripts < 2 ^ 32) :
    (sizeField script).toNat = script.length + nSpecialScripts := by
  rw [sizeField, BitVec.toNat_ofNat]
  exact Nat.mod_eq_of_lt h

theorem roundTrips_of_general
    {parse : PubKeyParser} {script : CScript} (hCompress : compress parse script = none)
    (h : script.length + nSpecialScripts < 2 ^ 32) : RoundTrips parse script := by
  have hSize := getSizeOfVarInt_le (sizeField script)
  have hBuffer : VarIntType.unsignedInt.bufferSize = 5 := rfl
  have hSix : nSpecialScripts = 6 := rfl
  refine ⟨(digitBytes 0 (varIntDigits (sizeField script))).reverse ++ script, ?_, ?_,
    fun script' rest => ?_⟩
  · rw [serialize, hCompress]
    dsimp only
    rw [writeVarInt_eq, ok_bind]
  · rw [getSerializeSize, hCompress, List.length_append, List.length_reverse, length_digitBytes,
      ← getSizeOfVarInt_eq]
    dsimp only
    omega
  · have hRead := readsAs_readVarInt (sizeField script) (script ++ rest)
    have hNot : ¬script.length + nSpecialScripts < nSpecialScripts := by omega
    rw [List.append_assoc, unserialize, hRead]
    dsimp only
    rw [toNat_sizeField h, if_neg hNot, Nat.add_sub_cancel, takeBytes_append]

/-- What the reader rebuilds from a special form is short. -/
theorem length_of_decompress
    {parse : PubKeyParser} {nSize : ℕ} {special : List UInt8} {script' script : CScript}
    {fRet : Bool} (hSpecial : special.length ≤ 32)
    (h : decompress parse nSize special script' = .ok (fRet, script)) :
    script.length ≤ max 67 script'.length := by
  unfold decompress at h
  split_ifs at h with h0 h1 h23 h45
  · obtain ⟨-, rfl⟩ := Prod.mk.inj (Except.ok.inj h)
    simp only [List.length_cons, List.length_append, List.length_nil]
    omega
  · obtain ⟨-, rfl⟩ := Prod.mk.inj (Except.ok.inj h)
    simp only [List.length_cons, List.length_append, List.length_nil]
    omega
  · obtain ⟨-, rfl⟩ := Prod.mk.inj (Except.ok.inj h)
    simp only [List.length_cons, List.length_append, List.length_nil]
    omega
  · cases hKey : (CPubKey.ofBytes (UInt8.ofNat (nSize - 2) :: special)).decompress parse with
    | none =>
        rw [hKey] at h
        obtain ⟨-, rfl⟩ := Prod.mk.inj (Except.ok.inj h)
        exact le_max_right _ _
    | some pubkey =>
        rw [hKey] at h
        dsimp only at h
        obtain ⟨_, hAssert, h⟩ := bind_eq_ok.mp h
        obtain ⟨-, rfl⟩ := Prod.mk.inj (Except.ok.inj h)
        have hSize : pubkey.vch.length = 65 := by
          unfold assertThat at hAssert
          split_ifs at hAssert with hLength
          simpa using hLength
        simp [hSize]
  · obtain ⟨-, rfl⟩ := Prod.mk.inj (Except.ok.inj h)
    exact le_max_right _ _

/-- The size in front of a larger script is not its size. -/
theorem not_roundTrips_of_large
    {parse : PubKeyParser} {script : CScript}
    (h : 2 ^ 32 ≤ script.length + nSpecialScripts) : ¬RoundTrips parse script := by
  have hSix : nSpecialScripts = 6 := rfl
  rintro ⟨bytes, hWrite, -, hRead⟩
  have hCompress : compress parse script = none := by
    cases hSome : compress parse script with
    | none => rfl
    | some compr =>
        have hShort := length_of_compress hSome
        omega
  rw [serialize, hCompress] at hWrite
  dsimp only at hWrite
  rw [writeVarInt_eq, ok_bind] at hWrite
  obtain rfl := Except.ok.inj hWrite
  have hBack := hRead [] []
  rw [List.append_nil, unserialize, readsAs_readVarInt (sizeField script) script] at hBack
  dsimp only at hBack
  have hLt : (sizeField script).toNat < 2 ^ 32 := (sizeField script).isLt
  split_ifs at hBack with hSpecial
  · obtain ⟨⟨vch, rest⟩, hTake, hBack⟩ := bind_eq_ok.mp hBack
    obtain ⟨⟨fRet, script''⟩, hRebuilt, hBack⟩ := bind_eq_ok.mp hBack
    have hSame : script'' = script := (Prod.mk.inj (Except.ok.inj hBack)).1
    have hVch : vch.length ≤ 32 := by
      rw [length_of_takeBytes hTake]
      unfold getSpecialSize
      split_ifs <;> omega
    have hShort := length_of_decompress hVch hRebuilt
    rw [hSame, List.length_nil] at hShort
    omega
  · have hLength := length_of_takeBytes hBack
    omega

/-- Compressed scripts round-trip exactly as long as the size with the six is an
`unsigned int`. -/
theorem roundTrips_iff
    {parse : PubKeyParser} (hCurve : CPubKey.DecompressInverts parse) (script : CScript) :
    RoundTrips parse script ↔ script.length + nSpecialScripts < 2 ^ 32 := by
  constructor
  · intro h
    by_contra hLarge
    exact not_roundTrips_of_large (not_lt.mp hLarge) h
  · intro h
    cases hCompress : compress parse script with
    | none => exact roundTrips_of_general hCompress h
    | some compr => exact roundTrips_of_special hCompress (isSpecial_compress hCurve hCompress)

end CScriptCompressor

namespace Sample

open CScriptCompressor

def generatorX : List UInt8 :=
  [0x79, 0xbe, 0x66, 0x7e, 0xf9, 0xdc, 0xbb, 0xac, 0x55, 0xa0, 0x62, 0x95, 0xce, 0x87, 0x0b, 0x07,
    0x02, 0x9b, 0xfc, 0xdb, 0x2d, 0xce, 0x28, 0xd9, 0x59, 0xf2, 0x81, 0x5b, 0x16, 0xf8, 0x17, 0x98]

def generatorY : List UInt8 :=
  [0x48, 0x3a, 0xda, 0x77, 0x26, 0xa3, 0xc4, 0x65, 0x5d, 0xa4, 0xfb, 0xfc, 0x0e, 0x11, 0x08, 0xa8,
    0xfd, 0x17, 0xb4, 0x48, 0xa6, 0x85, 0x54, 0x19, 0x9c, 0x47, 0xd0, 0x8f, 0xfb, 0x10, 0xd4, 0xb8]

/-- A parser that knows the generator of the curve, compressed and uncompressed. -/
def parseGenerator : PubKeyParser := fun vch =>
  if vch = 0x02 :: generatorX ∨ vch = 0x04 :: (generatorX ++ generatorY) then
    some (0x04 :: (generatorX ++ generatorY))
  else none

theorem decompressInverts_generator : CPubKey.DecompressInverts parseGenerator := by
  intro x y hX hY hValid
  have hKey : (CPubKey.ofBytes (0x04 :: (x ++ y))).vch = 0x04 :: (x ++ y) :=
    vch_ofBytes (by rw [List.length_append, hX, hY]; rfl)
  obtain ⟨rfl, rfl⟩ : x = generatorX ∧ y = generatorY := by
    simp only [CPubKey.isFullyValid, hKey, parseGenerator, Bool.and_eq_true] at hValid
    by_cases hSame : x ++ y = generatorX ++ generatorY
    · exact List.append_inj hSame hX
    · simp [hSame] at hValid
  decide +kernel

/-- The payment to the generator, uncompressed. -/
theorem generatorScript_roundTrips :
    RoundTrips parseGenerator
      (65 :: 0x04 :: (generatorX ++ (generatorY ++ [OP_CHECKSIG]))) :=
  (roundTrips_iff decompressInverts_generator _).mpr (by decide)

/-- The size of this script with the six is zero as an `unsigned int`, the number of the
form for the hash of a key. -/
theorem largeScript_lost :
    CPubKey.DecompressInverts parseGenerator ∧
      ¬RoundTrips parseGenerator (List.replicate (2 ^ 32 - 6) 0) := by
  refine ⟨decompressInverts_generator, not_roundTrips_of_large ?_⟩
  rw [List.length_replicate]
  decide

end Sample

end SocietyGold
