import SocietyGold.ScriptRuns
import SocietyGold.Support.Tokens

/-!
# FindAndDelete works on instructions

`FindAndDelete` compares bytes, at the positions to which `GetOp` advances.  The
bytes of an instruction decide where it ends, so a pattern that is an instruction
matches there only as a whole.
-/

namespace SocietyGold

open Support

namespace CScript

/-! ## Instructions as tokens -/

theorem sizeOperand_eq_some
    {width nSize : ℕ} {rest after : CScript} (h : sizeOperand width rest = (some nSize, after)) :
    ∃ operand, rest = operand ++ after ∧
      ∀ tail, sizeOperand width (operand ++ tail) = (some nSize, tail) := by
  unfold sizeOperand at h
  by_cases hShort : rest.length < width
  · rw [if_pos hShort] at h
    cases h
  · rw [if_neg hShort] at h
    cases h
    have hLength : (rest.take width).length = width := by
      rw [List.length_take]
      omega
    refine ⟨rest.take width, (List.take_append_drop width rest).symm, fun tail => ?_⟩
    have hLong : ¬(rest.take width ++ tail).length < width := by
      rw [List.length_append]
      omega
    rw [sizeOperand, if_neg hLong, List.take_left' hLength, List.drop_left' hLength]

theorem pushSize_eq_some
    {opcode : Opcodetype} {nSize : ℕ} {rest after : CScript}
    (h : pushSize opcode rest = (some nSize, after)) :
    ∃ operand, rest = operand ++ after ∧
      ∀ tail, pushSize opcode (operand ++ tail) = (some nSize, tail) := by
  unfold pushSize at h ⊢
  by_cases hShort : opcode < OP_PUSHDATA1
  · rw [if_pos hShort] at h
    cases h
    exact ⟨[], rfl, fun tail => by rw [if_pos hShort]; rfl⟩
  · rw [if_neg hShort] at h
    simp only [if_neg hShort]
    split_ifs at h ⊢
    · exact sizeOperand_eq_some h
    · exact sizeOperand_eq_some h
    · exact sizeOperand_eq_some h

/-- The bytes of a well-formed instruction decide what `GetOp` delivers. -/
theorem getOp2_decided {script : CScript} (h : (getOp2 script).fRet = true) :
    ∃ bytes, bytes ≠ [] ∧ script = bytes ++ (getOp2 script).rest ∧
      ∀ tail, getOp2 (bytes ++ tail) = { getOp2 script with rest := tail } := by
  cases script with
  | nil => cases h
  | cons opcode rest =>
      by_cases hPush : opcode ≤ OP_PUSHDATA4
      · unfold getOp2 at h ⊢
        dsimp only at h ⊢
        rw [if_pos hPush] at h ⊢
        rcases hSize : pushSize opcode rest with ⟨_ | nSize, after⟩
        · rw [hSize] at h
          cases h
        · obtain ⟨operand, hRest, hOperand⟩ := pushSize_eq_some hSize
          rw [hSize] at h
          dsimp only at h ⊢
          by_cases hShort : after.length < nSize
          · rw [if_pos hShort] at h
            cases h
          · rw [if_neg hShort]
            have hLength : (after.take nSize).length = nSize := by
              rw [List.length_take]
              omega
            refine ⟨opcode :: (operand ++ after.take nSize), by simp, ?_, fun tail => ?_⟩
            · rw [List.cons_append, List.append_assoc, List.take_append_drop, ← hRest]
            · have hLong : ¬(after.take nSize ++ tail).length < nSize := by
                rw [List.length_append]
                omega
              rw [List.cons_append, List.append_assoc]
              dsimp only
              rw [if_pos hPush, hOperand]
              dsimp only
              rw [if_neg hLong, List.take_left' hLength, List.drop_left' hLength]
      · have hGet (tail : CScript) : getOp2 (opcode :: tail) = ⟨true, opcode, [], tail⟩ := by
          unfold getOp2
          dsimp only
          rw [if_neg hPush]
        refine ⟨[opcode], by simp, by rw [hGet]; rfl, fun tail => ?_⟩
        rw [List.singleton_append, hGet, hGet]

/-- The bytes of the first instruction, and the script after it. -/
def firstInstruction (script : CScript) : Option (CScript × CScript) :=
  let op := getOp2 script
  if op.fRet then some (script.take (script.length - op.rest.length), op.rest) else none

theorem firstInstruction_of_getOp2
    {script bytes : CScript} (hScript : script = bytes ++ (getOp2 script).rest)
    (h : (getOp2 script).fRet = true) :
    firstInstruction script = some (bytes, (getOp2 script).rest) := by
  have hLength := congrArg List.length hScript
  rw [List.length_append] at hLength
  have hTake : script.take (script.length - (getOp2 script).rest.length) = bytes := by
    conv_lhs => rw [hScript]
    apply List.take_left'
    rw [← hScript]
    omega
  unfold firstInstruction
  dsimp only
  rw [if_pos h, hTake]

/-- `GetOp` as a tokenizer. -/
def instructionTokens : Tokenizer UInt8 where
  next := firstInstruction
  split := by
    intro script bytes rest h
    by_cases hRet : (getOp2 script).fRet = true
    · obtain ⟨bytes', hNe, hScript, -⟩ := getOp2_decided hRet
      rw [firstInstruction_of_getOp2 hScript hRet] at h
      cases h
      exact ⟨hScript, hNe⟩
    · simp [firstInstruction, hRet] at h
  decided := by
    intro script bytes rest h tail
    by_cases hRet : (getOp2 script).fRet = true
    · obtain ⟨bytes', -, hScript, hDecided⟩ := getOp2_decided hRet
      rw [firstInstruction_of_getOp2 hScript hRet] at h
      cases h
      have hGet := hDecided tail
      have hRest : (getOp2 (bytes ++ tail)).rest = tail := by rw [hGet]
      have hScript' : bytes ++ tail = bytes ++ (getOp2 (bytes ++ tail)).rest := by rw [hRest]
      have hFirst := firstInstruction_of_getOp2 hScript' (by rw [hGet]; exact hRet)
      rw [hFirst, hRest]
    · simp [firstInstruction, hRet] at h

/-- The well-formed instructions of a script from its start, as byte strings, and the tail
from the first malformed instruction. -/
def parsed (script : CScript) : List CScript × CScript := instructionTokens.tokens script

/-- The byte string is one well-formed instruction. -/
def IsInstruction (b : CScript) : Prop := (getOp2 b).fRet = true ∧ (getOp2 b).rest = []

theorem IsInstruction.isToken {b : CScript} (h : IsInstruction b) :
    instructionTokens.IsToken b := by
  have hScript : b = b ++ (getOp2 b).rest := by rw [h.2, List.append_nil]
  have hFirst := firstInstruction_of_getOp2 hScript h.1
  rw [h.2] at hFirst
  exact hFirst

theorem isInstruction_opcode {opcode : Opcodetype} (h : opcode = OP_0 ∨ OP_PUSHDATA4 < opcode) :
    IsInstruction [opcode] := by
  rcases h with rfl | hAbove
  · exact ⟨rfl, rfl⟩
  · have hPush : ¬opcode ≤ OP_PUSHDATA4 := UInt8.not_le.mpr hAbove
    unfold IsInstruction getOp2
    dsimp only
    rw [if_neg hPush]
    exact ⟨rfl, rfl⟩

/-! ## The loop with its count -/

/-- The loop of `FindAndDelete` with the number of erasures. -/
def findAndDeleteRounds (b : CScript) : (fuel : ℕ) → CScript → ℕ × CScript
  | 0, script => (0, script)
  | fuel + 1, script =>
      if b.isPrefixOf script then
        let found := findAndDeleteRounds b fuel (script.drop b.length)
        (found.1 + 1, found.2)
      else
        let op := getOp2 script
        if op.fRet = false then (0, script)
        else
          let found := findAndDeleteRounds b fuel op.rest
          (found.1, script.take (script.length - op.rest.length) ++ found.2)

/-- `FindAndDelete`: the number it returns and the script it leaves. -/
def findAndDeleteFound (script b : CScript) : ℕ × CScript :=
  if b = [] then (0, script) else findAndDeleteRounds b (script.length + 1) script

theorem findAndDeleteRounds_eq
    {b : CScript} (hb : IsInstruction b) {fuel : ℕ} {script : CScript}
    (hFuel : script.length < fuel) :
    findAndDeleteRounds b fuel script =
      ((parsed script).1.count b,
        ((parsed script).1.filter (· ≠ b)).flatten ++ (parsed script).2) := by
  induction fuel generalizing script with
  | zero => exact absurd hFuel (Nat.not_lt_zero _)
  | succ fuel ih =>
      have hToken := hb.isToken
      rw [findAndDeleteRounds]
      by_cases hRet : (getOp2 script).fRet = true
      · obtain ⟨bytes, hNe, hScript, -⟩ := getOp2_decided hRet
        have hNext : instructionTokens.next script = some (bytes, (getOp2 script).rest) :=
          firstInstruction_of_getOp2 hScript hRet
        have hShorter := Tokenizer.length_lt hNext
        have hRest := @ih (getOp2 script).rest (by omega)
        have hParsed : parsed script =
            (bytes :: (parsed (getOp2 script).rest).1, (parsed (getOp2 script).rest).2) :=
          Tokenizer.tokens_of_some hNext
        have hLength := congrArg List.length hScript
        rw [List.length_append] at hLength
        by_cases hMatch : bytes = b
        · -- the pattern is the instruction at this position
          have hPrefix := (Tokenizer.prefix_iff hToken hNext).mpr hMatch
          have hDrop : script.drop b.length = (getOp2 script).rest := by
            conv_lhs => rw [hScript, ← hMatch]
            exact List.drop_left
          rw [if_pos (List.isPrefixOf_iff_prefix.mpr hPrefix), hDrop, hRest, hParsed, hMatch]
          simp
        · have hNot : ¬b.isPrefixOf script = true := by
            rw [List.isPrefixOf_iff_prefix]
            exact mt (Tokenizer.prefix_iff hToken hNext).mp hMatch
          have hTake : script.take (script.length - (getOp2 script).rest.length) = bytes := by
            conv_lhs => rw [hScript]
            apply List.take_left'
            rw [← hScript]
            omega
          rw [if_neg hNot]
          dsimp only
          rw [if_neg (by simp [hRet]), hRest, hParsed, hTake]
          simp [hMatch]
      · have hNext : instructionTokens.next script = none := by
          change firstInstruction script = none
          simp [firstInstruction, hRet]
        have hParsed : parsed script = ([], script) := Tokenizer.tokens_of_none hNext
        have hNot : ¬b.isPrefixOf script = true := by
          rw [List.isPrefixOf_iff_prefix]
          exact Tokenizer.not_prefix_of_none hToken hNext
        rw [if_neg hNot]
        dsimp only
        rw [if_pos (by simpa using hRet), hParsed]
        rfl

end CScript

end SocietyGold
