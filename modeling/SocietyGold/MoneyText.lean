import Mathlib.Data.List.DropRight
import SocietyGold.Connect
import SocietyGold.SecretKeys
import SocietyGold.SporkTexts

/-!
# Amounts as texts

`FormatMoney` writes an amount with eight decimals and trims zeros down to two of them.
`ParseMoney` reads digits, a point and at most eight more digits, each of which counts for a
tenth of the one before.  Spaces may stand at both ends.
-/

namespace SocietyGold

open Support

/-! ## The functions -/

def isdigit (c : UInt8) : Bool := 0x30 ≤ c && c ≤ 0x39

/-- The number that digits stand for. -/
def decimalValue (digits : List UInt8) : ℕ :=
  digits.foldl (fun n c => 10 * n + (c.toNat - 0x30)) 0

/-- `strtoll` with base ten: a number out of range becomes the nearest one in range. -/
def strtoll (psz : List UInt8) : ℤ :=
  let psz := psz.dropWhile isspace
  let digits := if psz.head? = some 0x2d ∨ psz.head? = some 0x2b then psz.tail else psz
  let n : ℤ := decimalValue (digits.takeWhile isdigit)
  if psz.head? = some 0x2d then max (-n) (-2 ^ 63) else min n (2 ^ 63 - 1)

def atoi64 (str : List UInt8) : ℤ := strtoll (cString str)

/-- `%08d`. -/
def zeroPadded (n : ℤ) : List UInt8 :=
  (if n < 0 then [0x2d] else []) ++
    List.replicate (8 - (lexicalCast n).length) 0x30 ++ digitText n.natAbs

/-- The loop of `FormatMoney` that counts the zeros to trim, from the index on. -/
def trimLoop (str : List UInt8) : (i : ℕ) → ℕ
  | i + 2 =>
      if str[i + 2]? = some 0x30 ∧ str[i]?.any isdigit then trimLoop str (i + 1) + 1 else 0
  | _ => 0

def formatMoney (n : ℤ) (fPlus : Bool) : List UInt8 :=
  let nAbs := if n > 0 then n else wrap64 (-n)
  let quotient := nAbs.tdiv COIN
  let remainder := nAbs.tmod COIN
  let str := lexicalCast quotient ++ 0x2e :: zeroPadded remainder
  let nTrim := trimLoop str (str.length - 1)
  let str := str.take (str.length - nTrim)
  if n < 0 then 0x2d :: str else if fPlus && n > 0 then 0x2b :: str else str

/-- The loop of `ParseMoney` behind the point: the units, and where it stops. -/
def parseUnits (nMult nUnits : ℤ) : (p : List UInt8) → ℤ × List UInt8
  | [] => (nUnits, [])
  | c :: p =>
      if isdigit c && nMult > 0 then
        parseUnits (nMult.tdiv 10) (wrap64 (nUnits + wrap64 (nMult * ((c.toNat : ℤ) - 0x30)))) p
      else (nUnits, c :: p)

/-- The loop of `ParseMoney` up to the point: the digits, the units, and where it stops. -/
def parseWhole (strWhole : List UInt8) : (p : List UInt8) → Option (List UInt8 × ℤ × List UInt8)
  | [] => some (strWhole, 0, [])
  | c :: p =>
      if c = 0x2e then some (strWhole, parseUnits (CENT * 10) 0 p)
      else if isspace c then some (strWhole, 0, c :: p)
      else if !isdigit c then none
      else parseWhole (strWhole ++ [c]) p

/-- `ParseMoney(const char*)`: the amount. -/
def parseMoneyChars (pszIn : List UInt8) : Option ℤ := do
  let (strWhole, nUnits, p) ← parseWhole [] (pszIn.dropWhile isspace)
  if p.any fun c => !isspace c then none
  else if strWhole.length > 10 then none
  else if nUnits < 0 ∨ nUnits > COIN then none
  else
    let nWhole := atoi64 strWhole
    some (wrap64 (wrap64 (nWhole * COIN) + nUnits))

/-- `ParseMoney(const string&)`. -/
def parseMoney (str : List UInt8) : Option ℤ := parseMoneyChars (cString str)

/-! ## Decimal numbers -/

/-- Digits before and behind a point. -/
structure MoneyText where
  whole : List UInt8
  frac : List UInt8
  whole_digits : whole.all isdigit = true
  frac_digits : frac.all isdigit = true
  whole_le : whole.length ≤ 10
  frac_le : frac.length ≤ 8

namespace MoneyText

/-- The texts of the number: without decimals, the point may be left out. -/
def WrittenAs (t : MoneyText) (text : List UInt8) : Prop :=
  text = t.whole ++ 0x2e :: t.frac ∨ (t.frac = [] ∧ text = t.whole)

/-- The number that is written. -/
def number (t : MoneyText) : ℚ :=
  decimalValue t.whole + decimalValue t.frac / 10 ^ t.frac.length

/-- The decimals as units, each of the missing ones being a zero. -/
def units (t : MoneyText) : ℤ := decimalValue t.frac * 10 ^ (8 - t.frac.length)

def amount (t : MoneyText) : ℤ := decimalValue t.whole * COIN + t.units

end MoneyText

/-- A text without the spaces at both ends. -/
def trimSpaces (text : List UInt8) : List UInt8 := (text.dropWhile isspace).rdropWhile isspace

/-! ## Digits -/

theorem isdigit_iff {c : UInt8} : isdigit c = true ↔ 0x30 ≤ c.toNat ∧ c.toNat ≤ 0x39 := by
  unfold isdigit
  rw [Bool.and_eq_true, decide_eq_true_eq, decide_eq_true_eq, UInt8.le_iff_toNat_le,
    UInt8.le_iff_toNat_le]
  rfl

/-- A digit is neither the end of a string, nor a space, nor a point, nor a sign. -/
theorem ne_of_isdigit {c : UInt8} (h : isdigit c = true) :
    c ≠ 0 ∧ isspace c = false ∧ c ≠ 0x2e ∧ c ≠ 0x2d ∧ c ≠ 0x2b := by
  rw [isdigit_iff] at h
  unfold isspace
  simp only [Bool.or_eq_false_iff, Bool.and_eq_false_iff, decide_eq_false_iff_not, ne_eq,
    ← UInt8.toNat_inj, UInt8.le_iff_toNat_le, UInt8.reduceToNat]
  omega

theorem foldl_digits (digits : List UInt8) (n : ℕ) :
    digits.foldl (fun n c => 10 * n + (c.toNat - 0x30)) n =
      n * 10 ^ digits.length + decimalValue digits := by
  unfold decimalValue
  induction digits generalizing n with
  | nil => simp
  | cons c digits ih =>
      rw [List.foldl_cons, List.foldl_cons, ih, ih (10 * 0 + _), List.length_cons, pow_succ]
      ring

theorem decimalValue_append (first second : List UInt8) :
    decimalValue (first ++ second) =
      decimalValue first * 10 ^ second.length + decimalValue second := by
  rw [decimalValue, List.foldl_append, foldl_digits]
  rfl

theorem decimalValue_cons (c : UInt8) (digits : List UInt8) :
    decimalValue (c :: digits) =
      (c.toNat - 0x30) * 10 ^ digits.length + decimalValue digits := by
  rw [← List.singleton_append, decimalValue_append]
  simp [decimalValue]

theorem decimalValue_zeros (k : ℕ) : decimalValue (List.replicate k 0x30) = 0 := by
  induction k with
  | zero => rfl
  | succ k ih => simp [List.replicate_succ, decimalValue_cons, ih]

theorem decimalValue_lt {digits : List UInt8} (h : digits.all isdigit = true) :
    decimalValue digits < 10 ^ digits.length := by
  induction digits with
  | nil => simp [decimalValue]
  | cons c digits ih =>
      rw [List.all_cons, Bool.and_eq_true] at h
      have hDigit := isdigit_iff.mp h.1
      have hRest := ih h.2
      have hTop : (c.toNat - 0x30) * 10 ^ digits.length ≤ 9 * 10 ^ digits.length :=
        Nat.mul_le_mul_right _ (by omega)
      rw [decimalValue_cons, List.length_cons, pow_succ]
      omega

theorem toNat_of_digit {c : Char} {n : ℕ} (h : c ∈ Nat.toDigits 10 n) :
    (UInt8.ofNat c.toNat).toNat = c.toNat := by
  rw [UInt8.toNat_ofNat', Nat.mod_eq_of_lt (byte_of_digit h).1]

theorem all_isdigit_digitText (n : ℕ) : (digitText n).all isdigit = true := by
  rw [List.all_eq_true]
  intro c hMem
  obtain ⟨d, hd, rfl⟩ := List.mem_map.mp hMem
  have hDigit := Nat.isDigit_of_mem_toDigits (by norm_num) (by norm_num) hd
  rw [Char.isDigit, Bool.and_eq_true, decide_eq_true_eq, decide_eq_true_eq] at hDigit
  rw [isdigit_iff, toNat_of_digit hd]
  exact hDigit

@[simp] theorem decimalValue_digitText (n : ℕ) : decimalValue (digitText n) = n := by
  have hFold : decimalValue (digitText n) = Nat.ofDigitChars 10 (Nat.toDigits 10 n) 0 := by
    rw [Nat.ofDigitChars_eq_foldl, decimalValue, digitText, List.foldl_map]
    apply List.foldl_ext
    intro value d hd
    rw [toNat_of_digit hd]
    rfl
  rw [hFold, Nat.ofDigitChars_ten_toDigits]

theorem length_digitText_le {n k : ℕ} (hk : 0 < k) (h : n < 10 ^ k) : (digitText n).length ≤ k := by
  rw [digitText, List.length_map]
  exact (Nat.length_toDigits_le_iff (by norm_num) hk).mpr h

theorem wrap64_of_lt {z : ℤ} (h : 0 ≤ z) (hLt : z < 2 ^ 63) : wrap64 z = z := by
  unfold wrap64
  exact Int.bmod_eq_of_le (by omega) (by omega)

/-- A short string of digits is read as its number. -/
theorem atoi64_digits {digits : List UInt8} (h : digits.all isdigit = true)
    (hLength : digits.length ≤ 10) : atoi64 digits = decimalValue digits := by
  have hAll := List.all_eq_true.mp h
  have hString : cString digits = digits := by
    apply List.takeWhile_eq_self_iff.mpr
    intro c hMem
    simpa using (ne_of_isdigit (hAll c hMem)).1
  have hSpaces : digits.dropWhile isspace = digits := by
    cases digits with
    | nil => rfl
    | cons c digits =>
        have hSpace := (ne_of_isdigit (hAll c List.mem_cons_self)).2.1
        exact List.dropWhile_cons_of_neg (by simp [hSpace])
  have hSigns : digits.head? ≠ some 0x2d ∧ digits.head? ≠ some 0x2b := by
    cases digits with
    | nil => simp
    | cons c digits =>
        have hNe := (ne_of_isdigit (hAll c List.mem_cons_self)).2.2.2
        simpa using hNe
  have hBelow : decimalValue digits < 10 ^ 10 :=
    (decimalValue_lt h).trans_le (Nat.pow_le_pow_right (by norm_num) hLength)
  unfold atoi64 strtoll
  dsimp only
  rw [hString, hSpaces, if_neg (not_or.mpr hSigns), if_neg hSigns.1,
    List.takeWhile_eq_self_iff.mpr hAll]
  omega

/-! ## Reading -/

/-- The digits behind the point that count. -/
def unitDigits (m : ℕ) (p : List UInt8) : List UInt8 := (p.takeWhile isdigit).take m

theorem parseUnits_eq {m : ℕ} (hm : m ≤ 8) {nUnits : ℤ} (hLow : 0 ≤ nUnits)
    (hHigh : nUnits + 10 ^ m ≤ 10 ^ 8) (p : List UInt8) :
    parseUnits (10 ^ m / 10) nUnits p =
      (nUnits + decimalValue (unitDigits m p) * 10 ^ (m - (unitDigits m p).length),
        p.drop (unitDigits m p).length) := by
  induction p generalizing m nUnits with
  | nil => simp [parseUnits, unitDigits, decimalValue]
  | cons c p ih =>
      unfold parseUnits
      by_cases hDigit : isdigit c = true
      · cases m with
        | zero => simp [unitDigits, decimalValue]
        | succ m =>
            obtain ⟨hc, hc'⟩ := isdigit_iff.mp hDigit
            have hMult : (10 : ℤ) ^ (m + 1) / 10 = 10 ^ m := by
              rw [pow_succ, Int.mul_ediv_cancel _ (by norm_num)]
            have hNext : ((10 : ℤ) ^ m).tdiv 10 = 10 ^ m / 10 :=
              Int.tdiv_eq_ediv_of_nonneg (by positivity)
            have hPos : (0 : ℤ) < 10 ^ m := by positivity
            have hMore : nUnits + 10 ^ m * 10 ≤ 10 ^ 8 := by rwa [pow_succ] at hHigh
            have hTerm : (0 : ℤ) ≤ 10 ^ m * ((c.toNat : ℤ) - 0x30) ∧
                10 ^ m * ((c.toNat : ℤ) - 0x30) ≤ 10 ^ m * 9 :=
              ⟨mul_nonneg hPos.le (by omega), mul_le_mul_of_nonneg_left (by omega) hPos.le⟩
            have hDigits : unitDigits (m + 1) (c :: p) = c :: unitDigits m p := by
              simp [unitDigits, hDigit]
            have hLength : (unitDigits m p).length ≤ m := List.length_take_le _ _
            have hPower : (10 : ℤ) ^ m =
                10 ^ (unitDigits m p).length * 10 ^ (m - (unitDigits m p).length) := by
              rw [← pow_add, Nat.add_sub_cancel' hLength]
            have hValue : ((c.toNat - 0x30 : ℕ) : ℤ) = (c.toNat : ℤ) - 0x30 := by omega
            rw [hMult, if_pos (by simp [hDigit, hPos]), hNext,
              wrap64_of_lt hTerm.1 (by omega), wrap64_of_lt (by omega) (by omega),
              ih (by omega) (by omega) (by omega), hDigits, decimalValue_cons, List.length_cons,
              Nat.add_sub_add_right, List.drop_succ_cons]
            push_cast [hValue]
            rw [hPower]
            ring_nf
      · rw [if_neg (by simp [hDigit])]
        simp [unitDigits, hDigit, decimalValue]

theorem parseWhole_eq (strWhole p : List UInt8) :
    parseWhole strWhole p =
      parseWhole (strWhole ++ p.takeWhile isdigit) (p.dropWhile isdigit) := by
  induction p generalizing strWhole with
  | nil => simp [parseWhole]
  | cons c p ih =>
      by_cases hDigit : isdigit c = true
      · obtain ⟨-, hSpace, hPoint, -⟩ := ne_of_isdigit hDigit
        rw [parseWhole, if_neg hPoint, hSpace, hDigit, if_neg Bool.false_ne_true,
          if_neg (by simp), ih, List.takeWhile_cons_of_pos hDigit,
          List.dropWhile_cons_of_pos hDigit, List.append_assoc, List.singleton_append]
      · rw [List.takeWhile_cons_of_neg hDigit, List.dropWhile_cons_of_neg hDigit, List.append_nil]

namespace MoneyText

variable (t : MoneyText)

theorem units_range : 0 ≤ t.units ∧ t.units < COIN := by
  have hLt := decimalValue_lt t.frac_digits
  have hPos : (0 : ℤ) < 10 ^ (8 - t.frac.length) := by positivity
  have hPower : (10 : ℤ) ^ t.frac.length * 10 ^ (8 - t.frac.length) = COIN := by
    rw [← pow_add, Nat.add_sub_cancel' t.frac_le]
    rfl
  constructor
  · unfold units
    positivity
  · rw [units, ← hPower]
    exact mul_lt_mul_of_pos_right (by exact_mod_cast hLt) hPos

theorem whole_lt : (decimalValue t.whole : ℤ) < 10 ^ 10 := by
  have hLt := (decimalValue_lt t.whole_digits).trans_le
    (Nat.pow_le_pow_right (by norm_num) t.whole_le)
  exact_mod_cast hLt

theorem amount_range : 0 ≤ t.amount ∧ t.amount < 2 ^ 63 := by
  have hUnits := t.units_range
  have hWhole := t.whole_lt
  unfold amount COIN at *
  omega

theorem amount_eq_number : (t.amount : ℚ) = t.number * COIN := by
  have hPower : (COIN : ℚ) = 10 ^ t.frac.length * 10 ^ (8 - t.frac.length) := by
    rw [← pow_add, Nat.add_sub_cancel' t.frac_le]
    norm_num [COIN]
  unfold amount number units
  push_cast
  rw [add_mul, div_mul_eq_mul_div, hPower]
  field_simp

/-- No character of the text is a space or the end of a string. -/
theorem WrittenAs.ne {t : MoneyText} {text : List UInt8} (h : t.WrittenAs text) :
    ∀ c ∈ text, c ≠ 0 ∧ isspace c = false := by
  have hWhole := List.all_eq_true.mp t.whole_digits
  have hFrac := List.all_eq_true.mp t.frac_digits
  have hDigit : ∀ c, isdigit c = true → c ≠ 0 ∧ isspace c = false :=
    fun c hc => ⟨(ne_of_isdigit hc).1, (ne_of_isdigit hc).2.1⟩
  intro c hMem
  rcases h with rfl | ⟨-, rfl⟩
  · rcases List.mem_append.mp hMem with hMem | hMem
    · exact hDigit c (hWhole c hMem)
    · rcases List.mem_cons.mp hMem with rfl | hMem
      · decide
      · exact hDigit c (hFrac c hMem)
  · exact hDigit c (hWhole c hMem)

end MoneyText

theorem takeWhile_digits_append {digits : List UInt8} (h : digits.all isdigit = true) {c : UInt8}
    (hc : isdigit c = false) (rest : List UInt8) :
    (digits ++ c :: rest).takeWhile isdigit = digits ∧
      (digits ++ c :: rest).dropWhile isdigit = c :: rest := by
  have hAll := List.all_eq_true.mp h
  rw [List.takeWhile_append_of_pos hAll, List.dropWhile_append_of_pos hAll,
    List.takeWhile_cons_of_neg (by simp [hc]), List.dropWhile_cons_of_neg (by simp [hc])]
  simp

/-- A space is no digit. -/
theorem isdigit_of_isspace {c : UInt8} (h : isspace c = true) : isdigit c = false := by
  by_contra hDigit
  have hSpace := (ne_of_isdigit (eq_true_of_ne_false hDigit)).2.1
  rw [h] at hSpace
  cases hSpace

theorem parseWhole_digits {digits : List UInt8} (h : digits.all isdigit = true)
    {spaces : List UInt8} (hSpaces : spaces.all isspace = true) :
    parseWhole [] (digits ++ spaces) = some (digits, 0, spaces) := by
  cases spaces with
  | nil =>
      have hAll := List.all_eq_true.mp h
      rw [List.append_nil, parseWhole_eq, List.takeWhile_eq_self_iff.mpr hAll,
        List.dropWhile_eq_nil_iff.mpr hAll]
      rfl
  | cons c spaces =>
      have hSpace : isspace c = true := (List.all_eq_true.mp hSpaces) c List.mem_cons_self
      have hPoint : c ≠ 0x2e := by
        rintro rfl
        exact absurd hSpace (by decide)
      obtain ⟨hTake, hDrop⟩ := takeWhile_digits_append h (isdigit_of_isspace hSpace) spaces
      rw [parseWhole_eq, hTake, hDrop, parseWhole, if_neg hPoint, hSpace, if_pos rfl]
      rfl

theorem parseWhole_point {digits : List UInt8} (h : digits.all isdigit = true)
    (p : List UInt8) :
    parseWhole [] (digits ++ 0x2e :: p) =
      some (digits, (decimalValue (unitDigits 8 p) : ℤ) * 10 ^ (8 - (unitDigits 8 p).length),
        p.drop (unitDigits 8 p).length) := by
  obtain ⟨hTake, hDrop⟩ := takeWhile_digits_append h (by decide : isdigit 0x2e = false) p
  have hUnits := parseUnits_eq (m := 8) le_rfl le_rfl (by norm_num) p
  have hMult : (10 : ℤ) ^ 8 / 10 = CENT * 10 := by decide
  rw [hMult, zero_add] at hUnits
  rw [parseWhole_eq, hTake, hDrop, parseWhole, if_pos rfl, List.nil_append, hUnits]

theorem all_unitDigits (m : ℕ) (p : List UInt8) : (unitDigits m p).all isdigit = true := by
  refine List.all_eq_true.mpr fun c hc => ?_
  exact (List.all_eq_true.mp List.all_takeWhile) c (List.mem_of_mem_take hc)

theorem unitDigits_append_drop (m : ℕ) (p : List UInt8) :
    unitDigits m p ++ p.drop (unitDigits m p).length = p :=
  List.prefix_iff_eq_append.mp ((List.take_prefix _ _).trans (List.takeWhile_prefix _))

theorem unitDigits_append {digits : List UInt8} (h : digits.all isdigit = true)
    (hLength : digits.length ≤ 8) {spaces : List UInt8} (hSpaces : spaces.all isspace = true) :
    unitDigits 8 (digits ++ spaces) = digits := by
  unfold unitDigits
  cases spaces with
  | nil =>
      rw [List.append_nil, List.takeWhile_eq_self_iff.mpr (List.all_eq_true.mp h),
        List.take_of_length_le hLength]
  | cons c spaces =>
      have hSpace : isspace c = true := (List.all_eq_true.mp hSpaces) c List.mem_cons_self
      rw [(takeWhile_digits_append h (isdigit_of_isspace hSpace) spaces).1,
        List.take_of_length_le hLength]

/-- A number, in one of its texts and with spaces behind it, is read whole. -/
theorem parseWhole_written {t : MoneyText} {text spaces : List UInt8} (h : t.WrittenAs text)
    (hSpaces : spaces.all isspace = true) :
    parseWhole [] (text ++ spaces) = some (t.whole, t.units, spaces) := by
  rcases h with rfl | ⟨hFrac, rfl⟩
  · rw [List.append_assoc, List.cons_append, parseWhole_point t.whole_digits,
      unitDigits_append t.frac_digits t.frac_le hSpaces, List.drop_left]
    rfl
  · rw [parseWhole_digits t.whole_digits hSpaces]
    simp [MoneyText.units, hFrac, decimalValue]

/-- Whatever is read with only spaces behind it is a number in one of its texts. -/
theorem written_of_parseWhole {p strWhole rest : List UInt8} {nUnits : ℤ}
    (h : parseWhole [] p = some (strWhole, nUnits, rest)) (hSpaces : rest.all isspace = true)
    (hLength : strWhole.length ≤ 10) :
    ∃ t : MoneyText, ∃ text, p = text ++ rest ∧ t.WrittenAs text ∧ strWhole = t.whole ∧
      nUnits = t.units := by
  have hSplit : p.takeWhile isdigit ++ p.dropWhile isdigit = p := List.takeWhile_append_dropWhile
  have hDigits : (p.takeWhile isdigit).all isdigit = true := List.all_takeWhile
  cases hBody : p.dropWhile isdigit with
  | nil =>
      rw [hBody] at hSplit
      rw [← hSplit, @parseWhole_digits _ hDigits [] rfl] at h
      cases h
      refine ⟨⟨_, [], hDigits, rfl, hLength, by simp⟩, _, hSplit.symm, Or.inr ⟨rfl, rfl⟩, rfl, ?_⟩
      simp [MoneyText.units, decimalValue]
  | cons c q =>
      have hDigit : isdigit c = false := by
        have hHead := List.head?_dropWhile_not isdigit p
        rw [hBody] at hHead
        simpa using hHead
      rw [hBody] at hSplit
      by_cases hPoint : c = 0x2e
      · subst hPoint
        rw [← hSplit, parseWhole_point hDigits] at h
        cases h
        have hShort : (unitDigits 8 q).length ≤ 8 := List.length_take_le _ _
        refine ⟨⟨_, unitDigits 8 q, hDigits, all_unitDigits 8 q, hLength, hShort⟩, _, ?_,
          Or.inl rfl, rfl, rfl⟩
        rw [List.append_assoc, List.cons_append, unitDigits_append_drop, hSplit]
      · rw [parseWhole_eq, hBody, List.nil_append, parseWhole, if_neg hPoint] at h
        cases hSpace : isspace c with
        | true =>
            rw [hSpace, if_pos rfl] at h
            cases h
            refine ⟨⟨_, [], hDigits, rfl, hLength, by simp⟩, _, hSplit.symm, Or.inr ⟨rfl, rfl⟩,
              rfl, ?_⟩
            simp [MoneyText.units, decimalValue]
        | false =>
            rw [hSpace, hDigit, if_neg Bool.false_ne_true, Bool.not_false, if_pos rfl] at h
            cases h

theorem finish_amount (t : MoneyText) :
    wrap64 (wrap64 (atoi64 t.whole * COIN) + t.units) = t.amount := by
  have hUnits := t.units_range
  have hWhole := t.whole_lt
  have hAmount := t.amount_range
  have hProduct : wrap64 (decimalValue t.whole * COIN) = decimalValue t.whole * COIN := by
    unfold COIN
    exact wrap64_of_lt (by omega) (by omega)
  rw [atoi64_digits t.whole_digits t.whole_le, hProduct]
  exact wrap64_of_lt hAmount.1 hAmount.2

/-- Exactly the texts of numbers, with spaces around them, are read, and exactly. -/
theorem parseMoneyChars_eq_some_iff {psz : List UInt8} {nRet : ℤ} :
    parseMoneyChars psz = some nRet ↔
      ∃ t : MoneyText, t.WrittenAs (trimSpaces psz) ∧ nRet = t.amount := by
  unfold parseMoneyChars trimSpaces
  constructor
  · intro h
    obtain ⟨⟨strWhole, nUnits, rest⟩, hRead, hChecks⟩ := Option.bind_eq_some_iff.mp h
    dsimp only at hChecks
    split_ifs at hChecks with hRest hLong hUnits
    have hSpaces : rest.all isspace = true := by
      rw [List.all_eq_not_any_not]
      simpa using hRest
    obtain ⟨t, text, hText, hWritten, rfl, rfl⟩ :=
      written_of_parseWhole hRead hSpaces (not_lt.mp hLong)
    refine ⟨t, ?_, ?_⟩
    · have hTrim : (text ++ rest).rdropWhile isspace = text := by
        rw [List.rdropWhile, List.reverse_append, List.dropWhile_append_of_pos
          (by simpa using hSpaces), ← List.rdropWhile, List.rdropWhile_eq_self_iff]
        intro hNil
        simp [(hWritten.ne _ (List.getLast_mem hNil)).2]
      rwa [hText, hTrim]
    · rw [finish_amount] at hChecks
      exact (Option.some.inj hChecks).symm
  · rintro ⟨t, hWritten, rfl⟩
    have hSpaces : ((psz.dropWhile isspace).rtakeWhile isspace).all isspace = true :=
      List.all_eq_true.mpr fun c hc => List.mem_rtakeWhile_imp hc
    have hRead := parseWhole_written hWritten hSpaces
    rw [List.rdropWhile_append_rtakeWhile] at hRead
    have hUnits := t.units_range
    rw [hRead, Option.bind_eq_bind, Option.bind_some]
    dsimp only
    rw [if_neg (by simpa using hSpaces), if_neg (not_lt.mpr t.whole_le), if_neg (by omega),
      finish_amount]

/-! ## Writing -/

theorem lexicalCast_natCast (n : ℕ) : lexicalCast n = digitText n := by
  unfold lexicalCast digitText
  rw [if_neg (by omega), Int.natAbs_natCast, List.nil_append]

theorem length_zeroPadded {r : ℕ} (h : r < 10 ^ 8) :
    (zeroPadded r).length = 8 ∧ (zeroPadded r).all isdigit = true ∧
      decimalValue (zeroPadded r) = r := by
  have hPadded : zeroPadded r = List.replicate (8 - (digitText r).length) 0x30 ++ digitText r := by
    simp [zeroPadded, lexicalCast_natCast]
  have hLength := length_digitText_le (by norm_num) h
  rw [hPadded]
  refine ⟨?_, ?_, ?_⟩
  · rw [List.length_append, List.length_replicate]
    omega
  · rw [List.all_append, all_isdigit_digitText, Bool.and_true, List.all_replicate]
    simp [isdigit]
  · rw [decimalValue_append, decimalValue_zeros, decimalValue_digitText]
    omega

/-- The loop counts zeros at the end of the decimals, and stops two behind the point. -/
theorem trimLoop_spec (whole frac : List UInt8) (j : ℕ) (hLow : 1 ≤ j) (hHigh : j < frac.length) :
    ∃ k, trimLoop (whole ++ 0x2e :: frac) (whole.length + 1 + j) = k ∧ k ≤ j ∧
      frac.take (j + 1) = frac.take (j + 1 - k) ++ List.replicate k 0x30 := by
  induction j, hLow using Nat.le_induction with
  | base =>
      refine ⟨0, ?_, by omega, by simp⟩
      rw [show whole.length + 1 + 1 = whole.length + 2 by omega, trimLoop]
      have hPoint : (whole ++ 0x2e :: frac)[whole.length]? = some 0x2e := by simp
      rw [hPoint, if_neg]
      rintro ⟨-, hDigit⟩
      exact absurd hDigit (by decide)
  | succ j hj ih =>
      have hIndex : whole.length + 1 + (j + 1) = (whole.length + j) + 2 := by omega
      rw [hIndex, trimLoop]
      split_ifs with hZero
      · obtain ⟨k, hLoop, hk, hTake⟩ := ih (by omega)
        have hAt : (whole ++ 0x2e :: frac)[whole.length + j + 2]? = frac[j + 1]? := by
          rw [List.getElem?_append_right (by omega),
            show whole.length + j + 2 - whole.length = (j + 1) + 1 by omega,
            List.getElem?_cons_succ]
        have hLast : frac.take (j + 1 + 1) = frac.take (j + 1) ++ [0x30] := by
          rw [List.take_add_one, ← hAt, hZero.1]
          rfl
        refine ⟨k + 1, ?_, by omega, ?_⟩
        · rw [show whole.length + j + 1 = whole.length + 1 + j by omega, hLoop]
        · rw [hLast, hTake, List.append_assoc, ← List.replicate_succ']
          congr 2
          omega
      · exact ⟨0, rfl, by omega, by simp⟩

theorem take_trimmed (whole : List UInt8) {frac : List UInt8} (h : frac.length = 8) :
    ∃ k, frac = frac.take (8 - k) ++ List.replicate k 0x30 ∧
      (whole ++ 0x2e :: frac).take ((whole ++ 0x2e :: frac).length -
        trimLoop (whole ++ 0x2e :: frac) ((whole ++ 0x2e :: frac).length - 1)) =
      whole ++ 0x2e :: frac.take (8 - k) := by
  obtain ⟨k, hLoop, hk, hTake⟩ := trimLoop_spec whole frac 7 (by norm_num) (by omega)
  have hSize : (whole ++ 0x2e :: frac).length = whole.length + 1 + 8 := by
    rw [List.length_append, List.length_cons]
    omega
  refine ⟨k, ?_, ?_⟩
  · rwa [List.take_of_length_le (by omega)] at hTake
  · rw [hSize, show whole.length + 1 + 8 - 1 = whole.length + 1 + 7 by omega, hLoop,
      show whole.length + 1 + 8 - k = whole.length + (8 - k + 1) by omega,
      List.take_length_add_append, List.take_succ_cons]

theorem formatMoney_natCast {m : ℕ} :
    formatMoney m false =
      let str := digitText (m / 10 ^ 8) ++ 0x2e :: zeroPadded (m % 10 ^ 8 : ℕ)
      str.take (str.length - trimLoop str (str.length - 1)) := by
  have hAbs : (if (m : ℤ) > 0 then (m : ℤ) else wrap64 (-m)) = m := by
    split_ifs with hPos
    · rfl
    · have hZero : m = 0 := by omega
      subst hZero
      decide
  have hCoin : COIN = ((10 ^ 8 : ℕ) : ℤ) := by norm_num [COIN]
  unfold formatMoney
  rw [hAbs, hCoin]
  dsimp only
  rw [← Int.ofNat_tdiv, ← Int.ofNat_tmod, lexicalCast_natCast]
  rw [if_neg (by omega), Bool.false_and, if_neg Bool.false_ne_true]

/-- An amount is written with the decimals that are left after trimming. -/
theorem written_formatMoney {n : ℤ} (h : moneyRange n = true) :
    ∃ t : MoneyText, t.WrittenAs (formatMoney n false) ∧ t.amount = n := by
  unfold moneyRange MAX_MONEY COIN at h
  rw [Bool.and_eq_true, decide_eq_true_eq, decide_eq_true_eq] at h
  obtain ⟨m, rfl⟩ := Int.eq_ofNat_of_zero_le h.1
  obtain ⟨hLength, hDigits, hValue⟩ :=
    length_zeroPadded (Nat.mod_lt m (by norm_num : 0 < 10 ^ 8))
  have hWhole : (digitText (m / 10 ^ 8)).length ≤ 10 :=
    length_digitText_le (by norm_num) (by omega)
  obtain ⟨k, hZeros, hTrimmed⟩ := take_trimmed (digitText (m / 10 ^ 8)) hLength
  rw [formatMoney_natCast]
  dsimp only
  rw [hTrimmed]
  generalize zeroPadded (m % 10 ^ 8 : ℕ) = frac at *
  have hFrac : (frac.take (8 - k)).all isdigit = true := by
    rw [hZeros, List.all_append, Bool.and_eq_true] at hDigits
    exact hDigits.1
  have hShort : (frac.take (8 - k)).length + k = 8 := by
    have hSizes := congrArg List.length hZeros
    rw [List.length_append, List.length_replicate] at hSizes
    omega
  have hUnits : decimalValue (frac.take (8 - k)) * 10 ^ k = m % 10 ^ 8 := by
    rw [hZeros, decimalValue_append, decimalValue_zeros, List.length_replicate, add_zero] at hValue
    exact hValue
  refine ⟨⟨_, _, all_isdigit_digitText _, hFrac, hWhole, by omega⟩, Or.inl rfl, ?_⟩
  unfold MoneyText.amount MoneyText.units COIN
  dsimp only
  rw [decimalValue_digitText, show 8 - (frac.take (8 - k)).length = k by omega]
  have hCast : (decimalValue (frac.take (8 - k)) : ℤ) * 10 ^ k = ((m % 10 ^ 8 : ℕ) : ℤ) := by
    exact_mod_cast hUnits
  rw [hCast]
  omega

/-! ## Round trips -/

/-- A text of a number is its own string, and has nothing to trim. -/
theorem MoneyText.WrittenAs.trimSpaces_cString {t : MoneyText} {text : List UInt8}
    (h : t.WrittenAs text) : trimSpaces (cString text) = text := by
  have hString : cString text = text := by
    apply List.takeWhile_eq_self_iff.mpr
    intro c hMem
    simpa using (h.ne c hMem).1
  have hFront : text.dropWhile isspace = text := by
    cases text with
    | nil => rfl
    | cons c text =>
        exact List.dropWhile_cons_of_neg (by simp [(h.ne c List.mem_cons_self).2])
  rw [hString, trimSpaces, hFront, List.rdropWhile_eq_self_iff]
  intro hNil
  simp [(h.ne _ (List.getLast_mem hNil)).2]

theorem parseMoney_exact :
    (∀ n, moneyRange n = true → parseMoney (formatMoney n false) = some n) ∧
      ∀ str nRet, parseMoney str = some nRet →
        ∃ t : MoneyText, t.WrittenAs (trimSpaces (cString str)) ∧
          (nRet : ℚ) = t.number * COIN ∧ 0 ≤ nRet ∧ nRet < 2 ^ 63 := by
  constructor
  · intro n hRange
    obtain ⟨t, hWritten, hAmount⟩ := written_formatMoney hRange
    refine parseMoneyChars_eq_some_iff.mpr ⟨t, ?_, hAmount.symm⟩
    rwa [hWritten.trimSpaces_cString]
  · intro str nRet hParse
    obtain ⟨t, hWritten, rfl⟩ := parseMoneyChars_eq_some_iff.mp hParse
    exact ⟨t, hWritten, t.amount_eq_number, t.amount_range⟩

/-- Fifteen coins and a half cent, and the same text with spaces around it. -/
theorem parseMoney_exact_sample :
    parseMoney (formatMoney 1500500000 false) = some 1500500000 ∧
      ∃ t : MoneyText, t.WrittenAs (trimSpaces (cString (textBytes " 15.005 "))) ∧
        ((1500500000 : ℤ) : ℚ) = t.number * COIN ∧ (0 : ℤ) ≤ 1500500000 ∧
          (1500500000 : ℤ) < 2 ^ 63 :=
  ⟨parseMoney_exact.1 1500500000 (by decide),
    parseMoney_exact.2 (textBytes " 15.005 ") 1500500000 (by decide +kernel)⟩

/-- What stands behind a zero byte of a `std::string` is not read: the string is accepted though
it is no number. -/
theorem parseMoney_ignores_rest :
    parseMoney [0x31, 0, 0x78] = some 100000000 ∧
      ¬∃ t : MoneyText, t.WrittenAs (trimSpaces [0x31, 0, 0x78]) := by
  refine ⟨by decide +kernel, ?_⟩
  rintro ⟨t, hWritten⟩
  have hTrim : trimSpaces [0x31, 0, 0x78] = [0x31, 0, 0x78] := by decide +kernel
  rw [hTrim] at hWritten
  exact (hWritten.ne 0 (by decide)).1 rfl

end SocietyGold
