import SocietyGold.Sporks
import SocietyGold.Unserialize

/-!
# The texts that sporks sign

`Sign` and `CheckSignature` put the id, the value and the time of a spork one after the other
in decimal, without anything between them.  Each number can be read off its own text, but the
text of a spork does not say where one number ends and the next one starts.
-/

namespace SocietyGold

open Support

/-! ## Numbers -/

/-- The bytes of digits. -/
def digitText (n : ℕ) : List UInt8 := (Nat.toDigits 10 n).map fun c => UInt8.ofNat c.toNat

theorem byte_of_digit
    {c : Char} {n : ℕ} (h : c ∈ Nat.toDigits 10 n) : c.toNat < 256 ∧ c.toNat ≠ 0x2d := by
  have hDigit := Nat.isDigit_of_mem_toDigits (by norm_num) (by norm_num) h
  rw [Char.isDigit, Bool.and_eq_true, decide_eq_true_eq, decide_eq_true_eq] at hDigit
  have hLow : 48 ≤ c.toNat := hDigit.1
  have hHigh : c.toNat ≤ 57 := hDigit.2
  omega

theorem digitText_injective {n m : ℕ} (h : digitText n = digitText m) : n = m := by
  have hInj : ∀ c ∈ Nat.toDigits 10 n, ∀ d ∈ Nat.toDigits 10 m,
      UInt8.ofNat c.toNat = UInt8.ofNat d.toNat → c = d := by
    intro c hc d hd hByte
    have hNat := congrArg UInt8.toNat hByte
    rw [UInt8.toNat_ofNat', UInt8.toNat_ofNat', Nat.mod_eq_of_lt (byte_of_digit hc).1,
      Nat.mod_eq_of_lt (byte_of_digit hd).1] at hNat
    exact Char.toNat_inj.mp hNat
  have hDigits : Nat.toDigits 10 n = Nat.toDigits 10 m := by
    apply List.ext_getElem
    · simpa [digitText] using congrArg List.length h
    · intro i hi hi'
      apply hInj _ (List.getElem_mem hi) _ (List.getElem_mem hi')
      have hAt := congrArg (fun text => text[i]?) h
      simpa [digitText, hi, hi'] using hAt
  have hBack := congrArg (fun digits => Nat.ofDigitChars 10 digits 0) hDigits
  simpa [Nat.ofDigitChars_ten_toDigits] using hBack

theorem minus_notMem_digitText (n : ℕ) : (0x2d : UInt8) ∉ digitText n := by
  intro h
  obtain ⟨c, hMem, hByte⟩ := List.mem_map.mp h
  have hNat := congrArg UInt8.toNat hByte
  rw [UInt8.toNat_ofNat', Nat.mod_eq_of_lt (byte_of_digit hMem).1] at hNat
  exact (byte_of_digit hMem).2 hNat

/-- A number can be read off its text. -/
theorem lexicalCast_injective {n m : ℤ} (h : lexicalCast n = lexicalCast m) : n = m := by
  have hCast : ∀ k : ℤ, lexicalCast k = (if k < 0 then [0x2d] else []) ++ digitText k.natAbs :=
    fun k => rfl
  have hSign : ∀ k : ℤ, (0x2d : UInt8) ∈ lexicalCast k ↔ k < 0 := by
    intro k
    rw [hCast]
    by_cases hNeg : k < 0
    · simp [hNeg]
    · simp [hNeg, minus_notMem_digitText]
  have hNeg : n < 0 ↔ m < 0 := by rw [← hSign n, ← hSign m, h]
  rw [hCast, hCast] at h
  by_cases hLt : n < 0
  · rw [if_pos hLt, if_pos (hNeg.mp hLt)] at h
    have hAbs := digitText_injective (List.append_cancel_left h)
    have hLt' := hNeg.mp hLt
    omega
  · rw [if_neg hLt, if_neg fun hLt' => hLt (hNeg.mpr hLt')] at h
    have hAbs := digitText_injective (List.append_cancel_left h)
    have hLe := mt hNeg.mpr hLt
    omega

/-! ## Sporks -/

namespace CSporkMessage

/-- What the signature of a spork is about. -/
def signedFields (spork : CSporkMessage) : ℤ × ℤ × ℤ :=
  (spork.nSporkID, spork.nValue, spork.nTimeSigned)

/-- The other spork has the numbers that come out if the text of the first one is cut at
other places than its own. -/
def CutElsewhere (spork other : CSporkMessage) : Prop :=
  ∃ i j, i ≤ j ∧ j ≤ spork.strMessage.length ∧
    (i, j) ≠ ((lexicalCast spork.nSporkID).length,
      (lexicalCast spork.nSporkID).length + (lexicalCast spork.nValue).length) ∧
    lexicalCast other.nSporkID = spork.strMessage.take i ∧
    lexicalCast other.nValue = (spork.strMessage.take j).drop i ∧
    lexicalCast other.nTimeSigned = spork.strMessage.drop j

variable {spork other : CSporkMessage}

/-- Texts with their cuts at the same places are those of the same numbers. -/
theorem signedFields_eq_of_length
    (h : spork.strMessage = other.strMessage)
    (hID : (lexicalCast spork.nSporkID).length = (lexicalCast other.nSporkID).length)
    (hValue : (lexicalCast spork.nValue).length = (lexicalCast other.nValue).length) :
    spork.signedFields = other.signedFields := by
  unfold strMessage at h
  obtain ⟨hFront, hTime⟩ := List.append_inj h (by simp [hID, hValue])
  obtain ⟨hID, hValue⟩ := List.append_inj hFront hID
  unfold signedFields
  rw [lexicalCast_injective hID, lexicalCast_injective hValue, lexicalCast_injective hTime]

theorem CutElsewhere.strMessage_eq (h : spork.CutElsewhere other) :
    spork.strMessage = other.strMessage := by
  obtain ⟨i, j, hLe, -, -, hID, hValue, hTime⟩ := h
  have hTake : spork.strMessage.take i = (spork.strMessage.take j).take i := by
    rw [List.take_take, Nat.min_eq_left hLe]
  conv_rhs => rw [strMessage, hID, hValue, hTime]
  rw [hTake, List.take_append_drop, List.take_append_drop]

/-- Two sporks with the same text are cut at the same places or at others. -/
theorem cutElsewhere_of_text
    (h : spork.strMessage = other.strMessage)
    (hNe : ¬((lexicalCast other.nSporkID).length = (lexicalCast spork.nSporkID).length ∧
      (lexicalCast other.nValue).length = (lexicalCast spork.nValue).length)) :
    spork.CutElsewhere other := by
  refine ⟨(lexicalCast other.nSporkID).length,
    (lexicalCast other.nSporkID).length + (lexicalCast other.nValue).length,
    Nat.le_add_right _ _, ?_, ?_, ?_, ?_, ?_⟩
  · rw [h, strMessage, List.length_append, List.length_append]
    exact Nat.le_add_right _ _
  · intro hCuts
    rw [Prod.mk.injEq] at hCuts
    apply hNe
    omega
  · rw [h, strMessage, List.append_assoc, List.take_left]
  · rw [h, strMessage, ← List.length_append, List.take_left, List.drop_left]
  · rw [h, strMessage, ← List.length_append, List.drop_left]

end CSporkMessage

namespace Sample

/-- The largest value of a lock request becomes 15. -/
def raisedLimit : CSporkMessage := ⟨[], 10004, 15, 1511159400⟩

/-- The largest value becomes 1, at a later time. -/
def loweredLimit : CSporkMessage := ⟨[], 10004, 1, 51511159400⟩

end Sample

end SocietyGold
