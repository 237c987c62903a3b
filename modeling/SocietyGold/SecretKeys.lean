import SocietyGold.Bignum
import SocietyGold.DarkSendSigner

/-!
# Secret keys as texts

A secret key is configured as a text in base 58 with a check sum.  Decoding skips spaces at the
start, and a character outside the alphabet ends the digits: what follows must be spaces.
-/

namespace SocietyGold

open Support

/-- The bytes of a text. -/
def textBytes (str : String) : List UInt8 := str.toList.map fun c => UInt8.ofNat c.toNat

/-- What `c_str` leaves of a string. -/
def cString (str : List UInt8) : List UInt8 := str.takeWhile fun c => c ≠ 0

def isspace (c : UInt8) : Bool := c = 0x20 || (0x09 ≤ c && c ≤ 0x0d)

/-- All digits and letters but `0`, `I`, `O` and `l`. -/
def pszBase58 : List UInt8 :=
  textBytes "123456789ABCDEFGHJKLMNPQRSTUVWXYZabcdefghijkmnopqrstuvwxyz"

/-- The loop of `DecodeBase58` over the digits. -/
def decodeBase58Loop : List UInt8 → (bn : ℕ) → Option ℕ
  | [], bn => some bn
  | p :: rest, bn =>
      match pszBase58.idxOf? p with
      | some digit => decodeBase58Loop rest (bn * 58 + digit)
      | none => if (p :: rest).dropWhile isspace = [] then some bn else none

/-- `DecodeBase58`.  Leading ones are skipped before leading zeros are counted, so none are
restored. -/
def decodeBase58 (psz : List UInt8) : Option (List UInt8) := do
  let psz := (psz.dropWhile isspace).dropWhile fun c => c = 0x31
  let bn ← decodeBase58Loop psz 0
  let vchTmp := CBigNum.getvch bn
  let vchTmp :=
    if vchTmp.length ≥ 2 ∧ vchTmp.getLast? = some 0 ∧
        (vchTmp.dropLast.getLast?.any fun b => 0x80 ≤ b) then vchTmp.dropLast
    else vchTmp
  let nLeadingZeros := (psz.takeWhile fun c => c = 0x31).length
  some (List.replicate nLeadingZeros 0 ++ vchTmp.reverse)

/-- `DecodeBase58Check`: the bytes before the four of the check sum. -/
def decodeBase58Check (prims : Primitives) (psz : List UInt8) : Option (List UInt8) := do
  let vchRet ← decodeBase58 psz
  if vchRet.length < 4 then none
  else
    let vch := vchRet.take (vchRet.length - 4)
    if (toBytesLE 32 (prims.hash vch)).take 4 = vchRet.drop (vchRet.length - 4) then some vch
    else none

/-- `CBase58Data::SetString` with one byte of version: version and data. -/
def CBase58Data.setString (prims : Primitives) (psz : List UInt8) :
    Option (List UInt8 × List UInt8) := do
  let vchTemp ← decodeBase58Check prims psz
  if vchTemp.length < 1 then none else some (vchTemp.take 1, vchTemp.drop 1)

/-- What becomes of secret keys outside the program. -/
structure SecretKeyTools where
  /-- `Base58Prefix(SECRET_KEY)`. -/
  secretKeyVersion : List UInt8
  /-- `CKey::Check`. -/
  check : (key : List UInt8) → Bool
  getPubKey : (key : List UInt8) → (fCompressed : Bool) → CPubKey

namespace SecretKeyTools

variable (keys : SecretKeyTools) (prims : Primitives)

/-- `CSocietyGcoinSecret::IsValid`. -/
def isValid (vchVersion vchData : List UInt8) : Bool :=
  (vchData.length = 32 || (vchData.length = 33 && vchData[32]? = some 1)) &&
    vchVersion = keys.secretKeyVersion

/-- `CDarkSendSigner::SetKey`: the key and its public key, unless the text is no secret.
`GetPubKey` asserts that the key is valid. -/
def setKey (strSecret : List UInt8) : Checked (Option (List UInt8 × CPubKey)) :=
  match CBase58Data.setString prims (cString strSecret) with
  | none => .ok none
  | some (vchVersion, vchData) =>
      if !keys.isValid vchVersion vchData then .ok none
      else do
        let key := vchData.take 32
        assertThat (keys.check key)
        .ok (some (key, keys.getPubKey key (vchData.length > 32 && vchData[32]? = some 1)))

end SecretKeyTools

/-! ## Texts that are no secrets -/

/-- A text is not decoded if its digits are ended by a character that is no space. -/
theorem decodeBase58Loop_eq_none
    {digits rest : List UInt8} {c : UInt8}
    (hDigits : ∀ d ∈ digits, d ∈ pszBase58) (hOutside : c ∉ pszBase58) (hSpace : isspace c = false)
    (bn : ℕ) : decodeBase58Loop (digits ++ c :: rest) bn = none := by
  induction digits generalizing bn with
  | nil =>
      rw [List.nil_append, decodeBase58Loop, List.idxOf?_eq_none_iff.mpr hOutside]
      simp [hSpace]
  | cons d digits ih =>
      obtain ⟨digit, hDigit⟩ := Option.ne_none_iff_exists'.mp
        (mt List.idxOf?_eq_none_iff.mp (not_not.mpr (hDigits d List.mem_cons_self)))
      rw [List.cons_append, decodeBase58Loop, hDigit]
      exact ih (fun other hMem => hDigits other (List.mem_cons_of_mem d hMem)) _

theorem base58_ne {c : UInt8} (h : c ∈ pszBase58) : c ≠ 0 ∧ isspace c = false := by
  have hAll : ∀ c ∈ pszBase58, c ≠ 0 ∧ isspace c = false := by decide +kernel
  exact hAll c h

theorem cString_append
    {digits rest : List UInt8} {c : UInt8}
    (hDigits : ∀ d ∈ digits, d ∈ pszBase58) (hNul : c ≠ 0) :
    cString (digits ++ c :: rest) = digits ++ c :: cString rest := by
  unfold cString
  rw [List.takeWhile_append_of_pos, List.takeWhile_cons_of_pos (by simpa using hNul)]
  intro d hMem
  simpa using (base58_ne (hDigits d hMem)).1

/-- A text is no secret if its digits, of which the first is not a one, are ended by a character
that is no space. -/
theorem setKey_eq_none
    (keys : SecretKeyTools) (prims : Primitives) {digits rest : List UInt8} {first c : UInt8}
    (hDigits : ∀ d ∈ first :: digits, d ∈ pszBase58) (hOne : first ≠ 0x31)
    (hOutside : c ∉ pszBase58) (hSpace : isspace c = false) (hNul : c ≠ 0) :
    keys.setKey prims (first :: digits ++ c :: rest) = .ok none := by
  have hFirst := (base58_ne (hDigits first List.mem_cons_self)).2
  have hStart : (((first :: digits ++ c :: cString rest).dropWhile isspace).dropWhile
      fun c => c = 0x31) = first :: digits ++ c :: cString rest := by
    rw [List.cons_append, List.dropWhile_cons_of_neg (by simp [hFirst]),
      List.dropWhile_cons_of_neg (by simpa using hOne)]
  have hNone : decodeBase58 (first :: digits ++ c :: cString rest) = none := by
    unfold decodeBase58
    rw [hStart]
    dsimp only
    rw [decodeBase58Loop_eq_none hDigits hOutside hSpace]
    rfl
  unfold SecretKeyTools.setKey CBase58Data.setString decodeBase58Check
  rw [cString_append hDigits hNul, hNone]
  rfl

end SocietyGold
