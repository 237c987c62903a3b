import SocietyGold.Compact
import SocietyGold.MoneyText

/-!
# Texts in base 58

The encoder writes a one for each leading zero byte and the rest as a number with digits that
it carries from place to place.  The decoder counts leading ones behind those that it has
skipped, so the zero bytes do not come back; the algorithm that restores them stands behind
its `return`.
-/

namespace SocietyGold

open Support

/-! ## Encoding -/

/-- One round over `b58`, from its end: `b58 = b58 * 256 + carry`, and what is carried out. -/
def carryLoop : (carry : ℕ) → (b58 : List ℕ) → List ℕ × ℕ
  | carry, [] => ([], carry)
  | carry, d :: b58 =>
      let carry := carry + 256 * d
      let rest := carryLoop (carry / 58) b58
      (carry % 58 :: rest.1, rest.2)

/-- The loop of `EncodeBase58` over the bytes. -/
def encodeBase58Loop : List UInt8 → (b58 : List ℕ) → Checked (List ℕ)
  | [], b58 => .ok b58
  | p :: rest, b58 => do
      let round := carryLoop p.toNat b58
      assertThat (round.2 = 0)
      encodeBase58Loop rest round.1

/-- `EncodeBase58`.  The digits are kept with the last one first. -/
def encodeBase58 (vch : List UInt8) : Checked (List UInt8) := do
  let zeroes := (vch.takeWhile fun c => c = 0).length
  let bytes := vch.dropWhile fun c => c = 0
  let b58 ← encodeBase58Loop bytes (List.replicate (bytes.length * 138 / 100 + 1) 0)
  let digits := b58.reverse.dropWhile fun d => d = 0
  .ok (List.replicate zeroes 0x31 ++ digits.map fun d => pszBase58.getD d 0)

def encodeBase58Check (prims : Primitives) (vchIn : List UInt8) : Checked (List UInt8) :=
  encodeBase58 (vchIn ++ (toBytesLE 32 (prims.hash vchIn)).take 4)

/-- `CBase58Data::ToString`. -/
def CBase58Data.toString (prims : Primitives) (vchVersion vchData : List UInt8) :
    Checked (List UInt8) :=
  encodeBase58Check prims (vchVersion ++ vchData)

/-- `CBase58Data::SetString` for any number of bytes of the version. -/
def CBase58Data.setStringBytes (prims : Primitives) (psz : List UInt8) (nVersionBytes : ℕ) :
    Option (List UInt8 × List UInt8) := do
  let vchTemp ← decodeBase58Check prims psz
  if vchTemp.length < nVersionBytes then none
  else some (vchTemp.take nVersionBytes, vchTemp.drop nVersionBytes)

/-! ## Numbers and digits -/

/-- The bytes of a number, without leading zeros. -/
def bytesBE (n : ℕ) : List UInt8 := (Nat.digits 256 n).reverse.map UInt8.ofNat

/-- The text of a number, without leading ones. -/
def base58Text (n : ℕ) : List UInt8 :=
  (Nat.digits 58 n).reverse.map fun d => pszBase58.getD d 0

/-- The digit that a character stands for. -/
def base58Digit (c : UInt8) : ℕ := (pszBase58.idxOf? c).getD 0

def base58Value (text : List UInt8) (bn : ℕ) : ℕ :=
  text.foldl (fun bn c => bn * 58 + base58Digit c) bn

open CBigNum

/-- Digits, last one first, without the leading zeros. -/
theorem digits_ofDigits_eq {b : ℕ} (hb : 1 < b) {digits : List ℕ} (h : ∀ d ∈ digits, d < b) :
    Nat.digits b (Nat.ofDigits b digits) = (digits.reverse.dropWhile fun d => d = 0).reverse := by
  have hSplit := List.rdropWhile_append_rtakeWhile (p := fun d : ℕ => d = 0) (l := digits)
  have hZeros : digits.rtakeWhile (fun d => d = 0) =
      List.replicate (digits.rtakeWhile fun d => d = 0).length 0 := by
    rw [List.eq_replicate_iff]
    exact ⟨rfl, fun d hd => by simpa using List.mem_rtakeWhile_imp hd⟩
  have hValue : Nat.ofDigits b digits = Nat.ofDigits b (digits.rdropWhile fun d => d = 0) := by
    conv_lhs => rw [← hSplit]
    rw [hZeros, Nat.ofDigits_append_replicate_zero]
  rw [hValue, ← List.rdropWhile]
  apply Nat.digits_ofDigits b hb
  · intro d hd
    exact h d ((List.rdropWhile_prefix _ _).subset hd)
  · intro hNil
    simpa using List.rdropWhile_last_not _ _ hNil

/-- A number gives back all bytes but the leading zeros. -/
theorem bytesBE_fromBytesBE (v : List UInt8) :
    bytesBE (fromBytesBE v) = v.dropWhile fun c => c = 0 := by
  induction v with
  | nil => rfl
  | cons c v ih =>
      by_cases hZero : c = 0
      · subst hZero
        rw [List.dropWhile_cons_of_pos (by simp), ← ih, fromBytesBE_cons]
        simp
      · rw [List.dropWhile_cons_of_neg (by simpa using hZero)]
        apply magnitude_fromBytesBE
        intro hNat
        exact hZero (UInt8.toNat_inj.mp hNat)

theorem fromBytesBE_bytesBE (n : ℕ) : fromBytesBE (bytesBE n) = n := by
  have hMap : (bytesBE n).reverse.map UInt8.toNat = Nat.digits 256 n := by
    rw [bytesBE, ← List.map_reverse, List.reverse_reverse, List.map_map]
    conv_rhs => rw [← List.map_id (Nat.digits 256 n)]
    apply List.map_congr_left
    intro d hd
    have hLt : d < 256 := Nat.digits_lt_base (by norm_num) hd
    simp [Nat.mod_eq_of_lt hLt]
  rw [fromBytesBE, fromBytesLE, hMap, Nat.ofDigits_digits]

/-- The bytes of a number do not start with a zero. -/
theorem head_bytesBE_ne (n : ℕ) : (bytesBE n).head? ≠ some 0 := by
  intro hHead
  cases hBytes : bytesBE n with
  | nil =>
      rw [hBytes] at hHead
      cases hHead
  | cons b bs =>
      rw [hBytes] at hHead
      have hFirst := magnitude_ne_zero hBytes
      cases hHead
      exact hFirst rfl

/-- The sign byte of `getvch` is trimmed. -/
theorem trimmed_getvch (n : ℕ) :
    (if (CBigNum.getvch n).length ≥ 2 ∧ (CBigNum.getvch n).getLast? = some 0 ∧
        ((CBigNum.getvch n).dropLast.getLast?.any fun b => 0x80 ≤ b) then
      (CBigNum.getvch n).dropLast
    else CBigNum.getvch n) = (bytesBE n).reverse := by
  have hGet : CBigNum.getvch n = ((bytesBE n).head?.elim [] fun b =>
      if b < 0x80 then bytesBE n else 0 :: bytesBE n).reverse := by
    unfold CBigNum.getvch CBigNum.bn2mpi
    rw [Int.natAbs_natCast, ← bytesBE]
    cases bytesBE n with
    | nil => rfl
    | cons b bs =>
        have hSign : ¬((n : ℤ) < 0) := by omega
        by_cases hSmall : b < 0x80
        · simp [hSmall, hSign]
        · simp [hSmall, hSign]
  rw [hGet]
  cases hBytes : bytesBE n with
  | nil => rfl
  | cons b bs =>
      have hFirst : b ≠ 0 := by
        rintro rfl
        exact head_bytesBE_ne n (by rw [hBytes]; rfl)
      rw [List.head?_cons, Option.elim_some]
      by_cases hSmall : b < 0x80
      · rw [if_pos hSmall, if_neg]
        rintro ⟨-, hLast, -⟩
        rw [List.getLast?_reverse, List.head?_cons, Option.some.injEq] at hLast
        exact hFirst hLast
      · have hHigh : 0x80 ≤ b := UInt8.not_lt.mp hSmall
        rw [if_neg hSmall, List.reverse_cons, if_pos]
        · exact List.dropLast_concat
        · refine ⟨?_, by simp, ?_⟩
          · simp
          · rw [List.dropLast_concat, List.getLast?_reverse, List.head?_cons]
            simpa using hHigh

/-! ## The alphabet -/

/-- The one comes first, and the characters stand in the order of their codes. -/
theorem pszBase58_ordered :
    pszBase58.length = 58 ∧ pszBase58.getD 0 0 = 0x31 ∧ pszBase58.IsChain (· < ·) := by
  decide +kernel

theorem nodup_pszBase58 : pszBase58.Nodup :=
  pszBase58_ordered.2.2.pairwise.imp UInt8.ne_of_lt

theorem base58Digit_getElem {d : ℕ} (h : d < pszBase58.length) :
    pszBase58.idxOf? pszBase58[d] = some d ∧ base58Digit pszBase58[d] = d := by
  have hFound : pszBase58.idxOf? pszBase58[d] = some d := by
    refine List.idxOf?_eq_some_iff.mpr ⟨h, rfl, fun j hj hSame => ?_⟩
    exact absurd (nodup_pszBase58.getElem_inj_iff.mp hSame) hj.ne
  exact ⟨hFound, by rw [base58Digit, hFound, Option.getD_some]⟩

theorem base58Digit_getD {d : ℕ} (h : d < 58) :
    base58Digit (pszBase58.getD d 0) = d ∧ pszBase58.getD d 0 ∈ pszBase58 := by
  have hLength : d < pszBase58.length := h.trans_eq pszBase58_ordered.1.symm
  rw [List.getD_eq_getElem _ _ hLength]
  exact ⟨(base58Digit_getElem hLength).2, List.getElem_mem hLength⟩

theorem getD_base58Digit {c : UInt8} (h : c ∈ pszBase58) :
    base58Digit c < 58 ∧ pszBase58.getD (base58Digit c) 0 = c ∧
      pszBase58.idxOf? c = some (base58Digit c) := by
  obtain ⟨d, hd, rfl⟩ := List.getElem_of_mem h
  obtain ⟨hFound, hDigit⟩ := base58Digit_getElem hd
  rw [hDigit]
  exact ⟨hd.trans_eq pszBase58_ordered.1, List.getD_eq_getElem _ _ hd, hFound⟩

/-- The one stands for zero. -/
theorem base58Digit_one : base58Digit 0x31 = 0 ∧ 0x31 ∈ pszBase58 := by
  have hFirst := @base58Digit_getD 0 (by norm_num)
  rwa [pszBase58_ordered.2.1] at hFirst

theorem base58Digit_eq_zero_iff {c : UInt8} (h : c ∈ pszBase58) :
    base58Digit c = 0 ↔ c = 0x31 := by
  constructor
  · intro hZero
    rw [← (getD_base58Digit h).2.1, hZero, pszBase58_ordered.2.1]
  · rintro rfl
    exact base58Digit_one.1

theorem mem_base58Text {n : ℕ} {c : UInt8} (h : c ∈ base58Text n) : c ∈ pszBase58 := by
  obtain ⟨d, hd, rfl⟩ := List.mem_map.mp h
  exact (base58Digit_getD (Nat.digits_lt_base (by norm_num) (List.mem_reverse.mp hd))).2

theorem base58Value_eq_ofDigits (text : List UInt8) :
    base58Value text 0 = Nat.ofDigits 58 (text.reverse.map base58Digit) := by
  unfold base58Value
  induction text using List.reverseRecOn with
  | nil => rfl
  | append_singleton text c ih =>
      rw [List.foldl_append, ih, List.reverse_append, List.reverse_singleton,
        List.singleton_append, List.map_cons, Nat.ofDigits_cons]
      simp [mul_comm, add_comm]

theorem base58Value_base58Text (n : ℕ) : base58Value (base58Text n) 0 = n := by
  have hMap : (base58Text n).reverse.map base58Digit = Nat.digits 58 n := by
    rw [base58Text, ← List.map_reverse, List.reverse_reverse, List.map_map]
    conv_rhs => rw [← List.map_id (Nat.digits 58 n)]
    apply List.map_congr_left
    intro d hd
    rw [Function.comp_apply, (base58Digit_getD (Nat.digits_lt_base (by norm_num) hd)).1, id]
  rw [base58Value_eq_ofDigits, hMap, Nat.ofDigits_digits]

/-- A number gives back all characters but the leading ones. -/
theorem base58Text_base58Value {text : List UInt8} (h : ∀ c ∈ text, c ∈ pszBase58) :
    base58Text (base58Value text 0) = text.dropWhile fun c => c = 0x31 := by
  have hDigits : ∀ d ∈ text.reverse.map base58Digit, d < 58 := by
    intro d hd
    obtain ⟨c, hc, rfl⟩ := List.mem_map.mp hd
    exact (getD_base58Digit (h c (List.mem_reverse.mp hc))).1
  rw [base58Value_eq_ofDigits, base58Text, digits_ofDigits_eq (by norm_num) hDigits,
    List.reverse_reverse, ← List.map_reverse, List.reverse_reverse]
  clear hDigits
  induction text with
  | nil => rfl
  | cons c text ih =>
      have hZero := base58Digit_eq_zero_iff (h c List.mem_cons_self)
      have hRest := fun c' hc' => h c' (List.mem_cons_of_mem c hc')
      by_cases hOne : c = 0x31
      · rw [List.map_cons, List.dropWhile_cons_of_pos (by simpa using hZero.mpr hOne),
          List.dropWhile_cons_of_pos (by simpa using hOne), ih hRest]
      · rw [List.dropWhile_cons_of_neg (by simpa using hOne), List.map_cons,
          List.dropWhile_cons_of_neg (by simpa using mt hZero.mp hOne), ← List.map_cons,
          List.map_map]
        conv_rhs => rw [← List.map_id (c :: text)]
        apply List.map_congr_left
        intro c' hc'
        rw [Function.comp_apply, (getD_base58Digit (h c' hc')).2.1, id]

/-! ## The encoder -/

/-- A round multiplies by 256 and adds, up to what is carried out. -/
theorem carryLoop_spec (carry : ℕ) (b58 : List ℕ) :
    (carryLoop carry b58).1.length = b58.length ∧
      (∀ d ∈ (carryLoop carry b58).1, d < 58) ∧
      Nat.ofDigits 58 (carryLoop carry b58).1 + 58 ^ b58.length * (carryLoop carry b58).2 =
        carry + 256 * Nat.ofDigits 58 b58 := by
  induction b58 generalizing carry with
  | nil => simp [carryLoop]
  | cons d b58 ih =>
      obtain ⟨hLength, hDigits, hValue⟩ := ih ((carry + 256 * d) / 58)
      unfold carryLoop
      dsimp only
      refine ⟨by rw [List.length_cons, hLength, List.length_cons], ?_, ?_⟩
      · intro d' hd'
        rcases List.mem_cons.mp hd' with rfl | hd'
        · exact Nat.mod_lt _ (by norm_num)
        · exact hDigits d' hd'
      · have hSplit := Nat.mod_add_div (carry + 256 * d) 58
        rw [Nat.ofDigits_cons, Nat.ofDigits_cons, List.length_cons, pow_succ]
        linear_combination 58 * hValue + hSplit

/-- With room for the whole number no round carries out. -/
theorem encodeBase58Loop_spec {bytes : List UInt8} {b58 : List ℕ} (hDigits : ∀ d ∈ b58, d < 58)
    (hRoom : (Nat.ofDigits 58 b58 + 1) * 256 ^ bytes.length ≤ 58 ^ b58.length) :
    ∃ b58', encodeBase58Loop bytes b58 = .ok b58' ∧ (∀ d ∈ b58', d < 58) ∧
      Nat.ofDigits 58 b58' = Nat.ofDigits 58 b58 * 256 ^ bytes.length + fromBytesBE bytes := by
  induction bytes generalizing b58 with
  | nil => exact ⟨b58, rfl, hDigits, by simp [fromBytesBE, fromBytesLE]⟩
  | cons p bytes ih =>
      obtain ⟨hLength, hNext, hValue⟩ := carryLoop_spec p.toNat b58
      have hByte := p.toNat_lt
      have hBelow : p.toNat + 256 * Nat.ofDigits 58 b58 + 1 ≤ (Nat.ofDigits 58 b58 + 1) * 256 := by
        omega
      have hLater : (p.toNat + 256 * Nat.ofDigits 58 b58 + 1) * 256 ^ bytes.length ≤
          58 ^ b58.length := by
        refine (Nat.mul_le_mul_right _ hBelow).trans ?_
        rwa [mul_assoc, ← pow_succ']
      have hOne : 1 ≤ 256 ^ bytes.length := Nat.one_le_pow _ _ (by norm_num)
      have hFits : p.toNat + 256 * Nat.ofDigits 58 b58 + 1 ≤ 58 ^ b58.length :=
        (Nat.le_mul_of_pos_right _ hOne).trans hLater
      have hOut : (carryLoop p.toNat b58).2 = 0 := by
        by_contra hCarry
        have hTop : 58 ^ b58.length * 1 ≤ 58 ^ b58.length * (carryLoop p.toNat b58).2 :=
          Nat.mul_le_mul_left _ (Nat.one_le_iff_ne_zero.mpr hCarry)
        omega
      rw [hOut, mul_zero, add_zero] at hValue
      obtain ⟨b58', hLoop, hDigits', hResult⟩ := ih hNext (by rw [hValue, hLength]; exact hLater)
      refine ⟨b58', ?_, hDigits', ?_⟩
      · unfold encodeBase58Loop
        dsimp only
        rw [hOut]
        exact hLoop
      · rw [hResult, hValue, fromBytesBE_cons, List.length_cons, pow_succ]
        ring

/-- `log(256) / log(58)` is less than 1.38. -/
theorem pow_256_le (k : ℕ) : 256 ^ k ≤ 58 ^ (k * 138 / 100 + 1) := by
  have hHundred : (256 ^ k) ^ 100 ≤ (58 ^ (k * 138 / 100 + 1)) ^ 100 := by
    calc (256 ^ k) ^ 100 = (256 ^ 100) ^ k := by rw [← pow_mul, ← pow_mul, mul_comm]
      _ ≤ (58 ^ 138) ^ k := Nat.pow_le_pow_left (by norm_num) k
      _ = 58 ^ (k * 138) := by rw [← pow_mul, mul_comm]
      _ ≤ 58 ^ ((k * 138 / 100 + 1) * 100) := Nat.pow_le_pow_right (by norm_num) (by omega)
      _ = (58 ^ (k * 138 / 100 + 1)) ^ 100 := by rw [pow_mul]
  exact (Nat.pow_le_pow_iff_left (by norm_num)).mp hHundred

theorem fromBytesBE_dropWhile (v : List UInt8) :
    fromBytesBE (v.dropWhile fun c => c = 0) = fromBytesBE v := by
  rw [← bytesBE_fromBytesBE, fromBytesBE_bytesBE]

/-- The assertion holds for all bytes: a one for each leading zero, and the text of the number. -/
theorem encodeBase58_eq (vch : List UInt8) :
    encodeBase58 vch = .ok (List.replicate (vch.takeWhile fun c => c = 0).length 0x31 ++
      base58Text (fromBytesBE vch)) := by
  unfold encodeBase58
  dsimp only
  generalize hBytes : (vch.dropWhile fun c => c = 0) = bytes
  have hRoom : (Nat.ofDigits 58 (List.replicate (bytes.length * 138 / 100 + 1) 0) + 1) *
      256 ^ bytes.length ≤ 58 ^ (List.replicate (bytes.length * 138 / 100 + 1) 0).length := by
    rw [Nat.ofDigits_replicate_zero, List.length_replicate, zero_add, one_mul]
    exact pow_256_le bytes.length
  obtain ⟨b58, hLoop, hDigits, hValue⟩ := encodeBase58Loop_spec
    (fun d hd => by rw [List.eq_of_mem_replicate hd]; norm_num) hRoom
  rw [Nat.ofDigits_replicate_zero, zero_mul, zero_add, ← hBytes, fromBytesBE_dropWhile] at hValue
  rw [hLoop, ok_bind, base58Text, ← hValue, digits_ofDigits_eq (by norm_num) hDigits,
    List.reverse_reverse]

/-! ## The decoder -/

/-- The loop takes characters of the alphabet and then spaces. -/
theorem decodeBase58Loop_eq_some_iff {p : List UInt8} {bn bn' : ℕ} :
    decodeBase58Loop p bn = some bn' ↔
      ∃ text spaces, p = text ++ spaces ∧ (∀ c ∈ text, c ∈ pszBase58) ∧
        spaces.all isspace = true ∧ bn' = base58Value text bn := by
  constructor
  · intro h
    induction p generalizing bn with
    | nil =>
        cases h
        exact ⟨[], [], rfl, by simp, rfl, rfl⟩
    | cons c p ih =>
        unfold decodeBase58Loop at h
        cases hDigit : pszBase58.idxOf? c with
        | none =>
            rw [hDigit] at h
            dsimp only at h
            split_ifs at h with hSpaces
            cases h
            refine ⟨[], c :: p, rfl, by simp, ?_, rfl⟩
            exact List.all_eq_true.mpr (List.dropWhile_eq_nil_iff.mp hSpaces)
        | some digit =>
            rw [hDigit] at h
            obtain ⟨text, spaces, rfl, hText, hSpaces, hValue⟩ := ih h
            have hMem : c ∈ pszBase58 := by
              by_contra hOutside
              rw [List.idxOf?_eq_none_iff.mpr hOutside] at hDigit
              cases hDigit
            refine ⟨c :: text, spaces, rfl, ?_, hSpaces, ?_⟩
            · exact List.forall_mem_cons.mpr ⟨hMem, hText⟩
            · rw [hValue, base58Value, base58Value, List.foldl_cons, base58Digit, hDigit,
                Option.getD_some]
  · rintro ⟨text, spaces, rfl, hText, hSpaces, rfl⟩
    induction text generalizing bn with
    | nil =>
        cases spaces with
        | nil => rfl
        | cons c spaces =>
            have hOutside : c ∉ pszBase58 := by
              intro hMem
              have hSpace := (List.all_eq_true.mp hSpaces) c List.mem_cons_self
              rw [(base58_ne hMem).2] at hSpace
              cases hSpace
            rw [List.nil_append, decodeBase58Loop, List.idxOf?_eq_none_iff.mpr hOutside]
            exact if_pos (List.dropWhile_eq_nil_iff.mpr (List.all_eq_true.mp hSpaces))
    | cons c text ih =>
        obtain ⟨-, -, hDigit⟩ := getD_base58Digit (hText c List.mem_cons_self)
        have hValue : base58Value (c :: text) bn = base58Value text (bn * 58 + base58Digit c) := by
          unfold base58Value
          rw [List.foldl_cons]
        rw [List.cons_append, decodeBase58Loop, hDigit, hValue]
        exact ih fun c' hc' => hText c' (List.mem_cons_of_mem c hc')

/-- No ones are left to count. -/
theorem decodeBase58_eq (psz : List UInt8) :
    decodeBase58 psz =
      (decodeBase58Loop ((psz.dropWhile isspace).dropWhile fun c => c = 0x31) 0).map bytesBE := by
  have hNone : (((psz.dropWhile isspace).dropWhile fun c => c = 0x31).takeWhile
      fun c => c = 0x31) = [] := by
    rw [List.takeWhile_eq_nil_iff]
    intro hPos hOne
    have hHead := List.head?_dropWhile_not (fun c : UInt8 => c = 0x31) (psz.dropWhile isspace)
    rw [List.head?_eq_getElem?, List.getElem?_eq_getElem hPos] at hHead
    simp at hHead hOne
    exact hHead hOne
  unfold decodeBase58
  dsimp only
  rw [hNone, List.length_nil, List.replicate_zero]
  cases decodeBase58Loop ((psz.dropWhile isspace).dropWhile fun c => c = 0x31) 0 with
  | none => rfl
  | some bn =>
      rw [Option.bind_eq_bind, Option.bind_some, trimmed_getvch, List.reverse_reverse,
        List.nil_append, Option.map_some]

/-- The text of a number does not start with a one. -/
theorem dropWhile_base58Text (n : ℕ) :
    (base58Text n).dropWhile (fun c => c = 0x31) = base58Text n := by
  have hBack := base58Text_base58Value fun c => mem_base58Text (n := n)
  rw [base58Value_base58Text] at hBack
  exact hBack.symm

theorem dropWhile_isspace_text {text : List UInt8} (h : ∀ c ∈ text, c ∈ pszBase58)
    (rest : List UInt8) (hNil : text ≠ []) :
    (text ++ rest).dropWhile isspace = text ++ rest := by
  cases text with
  | nil => exact absurd rfl hNil
  | cons c text =>
      have hSpace := (base58_ne (h c List.mem_cons_self)).2
      exact List.dropWhile_cons_of_neg (by simp [hSpace])

/-- What is written is read as the number, without the leading zeros. -/
theorem decodeBase58_written (zeroes n : ℕ) :
    decodeBase58 (List.replicate zeroes 0x31 ++ base58Text n) = some (bytesBE n) := by
  have hSpaces : (List.replicate zeroes 0x31 ++ base58Text n).dropWhile isspace =
      List.replicate zeroes 0x31 ++ base58Text n := by
    have hText : ∀ c ∈ List.replicate zeroes 0x31 ++ base58Text n, c ∈ pszBase58 := by
      intro c hc
      rcases List.mem_append.mp hc with hc | hc
      · rw [List.eq_of_mem_replicate hc]
        exact base58Digit_one.2
      · exact mem_base58Text hc
    by_cases hNil : List.replicate zeroes 0x31 ++ base58Text n = []
    · rw [hNil, List.dropWhile_nil]
    · simpa using dropWhile_isspace_text hText [] hNil
  have hOnes : (List.replicate zeroes 0x31 ++ base58Text n).dropWhile (fun c => c = 0x31) =
      base58Text n := by
    rw [List.dropWhile_append_of_pos, dropWhile_base58Text]
    intro c hc
    simpa using List.eq_of_mem_replicate hc
  rw [decodeBase58_eq, hSpaces, hOnes, (@decodeBase58Loop_eq_some_iff _ _ n).mpr,
    Option.map_some]
  exact ⟨base58Text n, [], (List.append_nil _).symm, fun c => mem_base58Text, rfl,
    (base58Value_base58Text n).symm⟩

/-- A text that is read, up to the spaces around it, is some ones and the text of the number. -/
theorem trimSpaces_of_decodeBase58 {psz v : List UInt8} (h : decodeBase58 psz = some v) :
    ∃ ones n, trimSpaces psz = List.replicate ones 0x31 ++ base58Text n ∧ v = bytesBE n := by
  rw [decodeBase58_eq, Option.map_eq_some_iff] at h
  obtain ⟨n, hLoop, rfl⟩ := h
  obtain ⟨text, spaces, hRead, hText, hSpaces, rfl⟩ := decodeBase58Loop_eq_some_iff.mp hLoop
  have hSplit := List.takeWhile_append_dropWhile (p := fun c : UInt8 => c = 0x31)
    (l := psz.dropWhile isspace)
  have hOnes : (psz.dropWhile isspace).takeWhile (fun c => c = 0x31) =
      List.replicate ((psz.dropWhile isspace).takeWhile fun c => c = 0x31).length 0x31 := by
    rw [List.eq_replicate_iff]
    exact ⟨rfl, fun c hc => by simpa using List.mem_takeWhile_imp hc⟩
  have hMinimal : base58Text (base58Value text 0) = text := by
    rw [base58Text_base58Value hText]
    cases text with
    | nil => rfl
    | cons c text =>
        have hHead := List.head?_dropWhile_not (fun c : UInt8 => c = 0x31) (psz.dropWhile isspace)
        rw [hRead] at hHead
        exact List.dropWhile_cons_of_neg (by simpa using hHead)
  generalize ((psz.dropWhile isspace).takeWhile fun c => c = 0x31).length = ones at hOnes
  refine ⟨ones, base58Value text 0, ?_, rfl⟩
  rw [trimSpaces, ← hSplit, hOnes, hRead, hMinimal, ← List.append_assoc, List.rdropWhile,
    List.reverse_append, List.dropWhile_append_of_pos (by simpa using hSpaces), ← List.rdropWhile,
    List.rdropWhile_eq_self_iff]
  intro hNil
  have hMem : (List.replicate ones 0x31 ++ text).getLast hNil ∈ pszBase58 := by
    rcases List.mem_append.mp (List.getLast_mem hNil) with hc | hc
    · rw [List.eq_of_mem_replicate hc]
      exact base58Digit_one.2
    · exact hText _ hc
  simp [(base58_ne hMem).2]

theorem mem_trimSpaces {text : List UInt8} {c : UInt8} (h : c ∈ text) (hc : isspace c = false) :
    c ∈ trimSpaces text := by
  have hDrop : ∀ text : List UInt8, c ∈ text → c ∈ text.dropWhile isspace := by
    intro text hMem
    rw [← List.takeWhile_append_dropWhile (p := isspace) (l := text), List.mem_append] at hMem
    rcases hMem with hTake | hDrop
    · rw [List.mem_takeWhile_imp hTake] at hc
      cases hc
    · exact hDrop
  rw [trimSpaces, List.rdropWhile, List.mem_reverse]
  exact hDrop _ (List.mem_reverse.mpr (hDrop _ h))

/-! ## Round trips -/

section RoundTrips

variable (prims : Primitives)

/-- Of what is written all comes back but the leading zeros. -/
theorem decodeBase58_encoded (v : List UInt8) :
    ∃ s, encodeBase58 v = .ok s ∧ cString s = s ∧
      decodeBase58 s = some (v.dropWhile fun c => c = 0) := by
  refine ⟨_, encodeBase58_eq v, ?_, ?_⟩
  · apply List.takeWhile_eq_self_iff.mpr
    intro c hc
    rcases List.mem_append.mp hc with hc | hc
    · rw [List.eq_of_mem_replicate hc]
      decide
    · simpa using (base58_ne (mem_base58Text hc)).1
  · rw [decodeBase58_written, bytesBE_fromBytesBE]

theorem dropWhile_eq_self_iff_head (v : List UInt8) :
    v.dropWhile (fun c => c = 0) = v ↔ v.head? ≠ some 0 := by
  cases v with
  | nil => simp
  | cons c v =>
      by_cases hZero : c = 0
      · refine iff_of_false ?_ (by simp [hZero])
        intro hSame
        have hLength := (List.dropWhile_suffix (l := v) fun c : UInt8 => c = 0).length_le
        rw [List.dropWhile_cons_of_pos (by simpa using hZero)] at hSame
        rw [hSame, List.length_cons] at hLength
        omega
      · rw [List.dropWhile_cons_of_neg (by simpa using hZero)]
        simp [hZero]

/-- Bytes come back if they do not start with a zero. -/
theorem decodeBase58_encodeBase58 (v : List UInt8) :
    ∃ s, encodeBase58 v = .ok s ∧ (decodeBase58 s = some v ↔ v.head? ≠ some 0) := by
  obtain ⟨s, hEncode, -, hDecode⟩ := decodeBase58_encoded v
  refine ⟨s, hEncode, ?_⟩
  rw [hDecode, Option.some.injEq, dropWhile_eq_self_iff_head]

/-- A text that is read is written again, up to the spaces around it, if it does not start with
a one and has no end inside. -/
theorem encodeBase58_decodeBase58 {str v : List UInt8} (h : decodeBase58 (cString str) = some v) :
    encodeBase58 v = .ok (trimSpaces str) ↔ (trimSpaces str).head? ≠ some 0x31 ∧ 0 ∉ str := by
  obtain ⟨ones, n, hTrim, rfl⟩ := trimSpaces_of_decodeBase58 h
  have hWritten : encodeBase58 (bytesBE n) = .ok (base58Text n) := by
    have hNone : (bytesBE n).takeWhile (fun c => c = 0) = [] := by
      have hFirst := head_bytesBE_ne n
      cases hBytes : bytesBE n with
      | nil => rfl
      | cons b bs =>
          rw [hBytes] at hFirst
          exact List.takeWhile_cons_of_neg (by simpa using hFirst)
    rw [encodeBase58_eq, hNone, fromBytesBE_bytesBE]
    rfl
  rw [hWritten, Except.ok.injEq]
  by_cases hNul : 0 ∈ str
  · refine iff_of_false ?_ (fun hBoth => hBoth.2 hNul)
    intro hSame
    have hMem : 0 ∈ base58Text n := hSame ▸ mem_trimSpaces hNul (by decide)
    exact (base58_ne (mem_base58Text hMem)).1 rfl
  · have hString : cString str = str := by
      apply List.takeWhile_eq_self_iff.mpr
      intro c hc
      simpa using fun hZero : c = 0 => hNul (hZero ▸ hc)
    rw [hString] at hTrim
    rw [hTrim]
    cases ones with
    | zero =>
        refine iff_of_true rfl ⟨?_, hNul⟩
        have hFirst := dropWhile_base58Text n
        cases hText : base58Text n with
        | nil => simp
        | cons c text =>
            rw [hText] at hFirst
            intro hOne
            have hHead := List.head?_dropWhile_not (fun c : UInt8 => c = 0x31) (c :: text)
            rw [hFirst] at hHead
            simp at hHead hOne
            exact hHead hOne
    | succ ones =>
        refine iff_of_false ?_ (fun hBoth => hBoth.1 rfl)
        intro hSame
        have hLength := congrArg List.length hSame
        rw [List.length_append, List.length_replicate] at hLength
        omega

/-- What is decoded is four bytes shorter than what was encoded. -/
theorem length_of_decodeBase58Check {psz v vch : List UInt8} (hDecode : decodeBase58 psz = some v)
    (h : decodeBase58Check prims psz = some vch) : vch.length + 4 = v.length := by
  unfold decodeBase58Check at h
  rw [hDecode, Option.bind_eq_bind, Option.bind_some] at h
  dsimp only at h
  split_ifs at h with hShort hSum
  obtain rfl := Option.some.inj h
  rw [List.length_take]
  omega

/-- The first four bytes of the hash. -/
def vchSum (vch : List UInt8) : List UInt8 := (toBytesLE 32 (prims.hash vch)).take 4

theorem length_vchSum (vch : List UInt8) : (vchSum prims vch).length = 4 := by
  rw [vchSum, List.length_take, length_toBytesLE]
  rfl

theorem decodeBase58Check_of_sum {psz vch : List UInt8}
    (hDecode : decodeBase58 psz = some (vch ++ vchSum prims vch)) :
    decodeBase58Check prims psz = some vch := by
  have hLength : (vch ++ vchSum prims vch).length = vch.length + 4 := by
    rw [List.length_append, length_vchSum]
  unfold decodeBase58Check
  rw [hDecode, Option.bind_eq_bind, Option.bind_some]
  dsimp only
  rw [hLength, if_neg (by omega), Nat.add_sub_cancel, List.take_left, List.drop_left, ← vchSum,
    if_pos rfl]

/-- Version and data come back if the bytes with the check sum do not start with a zero. -/
theorem setStringBytes_toString (vchVersion vchData : List UInt8) :
    ∃ s, CBase58Data.toString prims vchVersion vchData = .ok s ∧
      (CBase58Data.setStringBytes prims (cString s) vchVersion.length = some (vchVersion, vchData) ↔
        (vchVersion ++ vchData ++ vchSum prims (vchVersion ++ vchData)).head? ≠ some 0) := by
  generalize hVch : vchVersion ++ vchData = vch
  obtain ⟨s, hEncode, hString, hDecode⟩ := decodeBase58_encoded (vch ++ vchSum prims vch)
  refine ⟨s, by rw [CBase58Data.toString, encodeBase58Check, hVch, ← vchSum, hEncode], ?_⟩
  rw [hString, CBase58Data.setStringBytes, ← dropWhile_eq_self_iff_head]
  constructor
  · intro h
    obtain ⟨vchTemp, hCheck, hData⟩ := Option.bind_eq_some_iff.mp h
    split_ifs at hData
    rw [Option.some.injEq, Prod.mk.injEq] at hData
    have hBack : vchTemp = vch := by
      rw [← hVch, ← hData.1, ← hData.2, List.take_append_drop]
    apply (List.dropWhile_suffix _).eq_of_length
    rw [← length_of_decodeBase58Check prims hDecode hCheck, hBack, List.length_append,
      length_vchSum]
  · intro hSelf
    rw [hSelf] at hDecode
    rw [decodeBase58Check_of_sum prims hDecode, Option.bind_eq_bind, Option.bind_some, ← hVch,
      if_neg (by simp), List.take_left, List.drop_left]

/-- Exactly what starts with a zero byte or with a one does not make the round trip. -/
theorem base58_roundTrips_iff :
    (∀ v, ∃ s, encodeBase58 v = .ok s ∧ (decodeBase58 s = some v ↔ v.head? ≠ some 0)) ∧
    (∀ str v, decodeBase58 (cString str) = some v →
      (encodeBase58 v = .ok (trimSpaces str) ↔
        (trimSpaces str).head? ≠ some 0x31 ∧ 0 ∉ str)) ∧
    ∀ vchVersion vchData, ∃ s, CBase58Data.toString prims vchVersion vchData = .ok s ∧
      (CBase58Data.setStringBytes prims (cString s) vchVersion.length = some (vchVersion, vchData) ↔
        (vchVersion ++ vchData ++ vchSum prims (vchVersion ++ vchData)).head? ≠ some 0) :=
  ⟨decodeBase58_encodeBase58, fun _ _ h => encodeBase58_decodeBase58 h,
    setStringBytes_toString prims⟩

end RoundTrips

/-- A byte of zero is written as a one and read as nothing. -/
theorem zeroByte_lost :
    encodeBase58 [0] = .ok [0x31] ∧ decodeBase58 [0x31] = some [] ∧
      encodeBase58 [] = .ok [] := by
  decide +kernel

/-- One byte, and its text with spaces around it. -/
theorem spacedText_written :
    (∃ s, encodeBase58 [0x61] = .ok s ∧ (decodeBase58 s = some [0x61] ↔
      ([0x61] : List UInt8).head? ≠ some 0)) ∧
      (encodeBase58 [0x61] = .ok (trimSpaces (textBytes " 2g ")) ↔
        (trimSpaces (textBytes " 2g ")).head? ≠ some 0x31 ∧ 0 ∉ textBytes " 2g ") :=
  ⟨(base58_roundTrips_iff ⟨fun _ => 0, fun _ => 0, fun _ => 0, fun _ _ _ => false⟩).1 [0x61],
    (base58_roundTrips_iff ⟨fun _ => 0, fun _ => 0, fun _ => 0, fun _ _ _ => false⟩).2.1
      (textBytes " 2g ") [0x61] (by decide +kernel)⟩

end SocietyGold
