import SocietyGold.Solver

/-!
# Running the standard scripts

The instructions of a script that only pushes, and what the interpreter makes of
single instructions, under rules as both verifications use them.
-/

namespace SocietyGold

open Support

namespace CScript

/-! ## Instructions -/

/-- What every call of `GetOp` guarantees: it fails with the invalid opcode, and
only push opcodes deliver data. -/
structure WellFormedOp (op : GetOpResult) : Prop where
  failed : op.fRet = false → op.opcodeRet = OP_INVALIDOPCODE ∧ op.vchRet = []
  data : op.vchRet ≠ [] → op.opcodeRet ≤ OP_PUSHDATA4

theorem wellFormedOp_getOp2 (script : CScript) : WellFormedOp (getOp2 script) := by
  cases script with
  | nil => exact ⟨fun _ => ⟨rfl, rfl⟩, fun h => absurd rfl h⟩
  | cons opcode rest =>
      unfold getOp2
      dsimp only
      by_cases hPush : opcode ≤ OP_PUSHDATA4
      · rw [if_pos hPush]
        rcases pushSize opcode rest with ⟨_ | nSize, after⟩
        · exact ⟨fun _ => ⟨rfl, rfl⟩, fun h => absurd rfl h⟩
        · dsimp only
          by_cases hShort : after.length < nSize
          · rw [if_pos hShort]
            exact ⟨fun _ => ⟨rfl, rfl⟩, fun h => absurd rfl h⟩
          · rw [if_neg hShort]
            exact ⟨fun h => (nomatch h), fun _ => hPush⟩
      · rw [if_neg hPush]
        exact ⟨fun h => (nomatch h), fun h => absurd rfl h⟩

theorem wellFormedOp_of_mem
    {script : CScript} {op : GetOpResult} (h : op ∈ script.instructions) : WellFormedOp op := by
  suffices hAll : ∀ fuel script, op ∈ getOps fuel script → WellFormedOp op from
    hAll script.length script h
  intro fuel
  induction fuel with
  | zero =>
      intro script hMem
      exact absurd hMem List.not_mem_nil
  | succ fuel ih =>
      intro script hMem
      by_cases hNil : script = []
      · simp [getOps, hNil] at hMem
      · rw [getOps, if_neg hNil] at hMem
        rcases List.mem_cons.mp hMem with rfl | hRest
        · exact wellFormedOp_getOp2 script
        · exact ih _ hRest

theorem sizeOperand_toBytesLE (width n : ℕ) (rest : CScript) :
    sizeOperand width (toBytesLE width n ++ rest) = (some (n % 256 ^ width), rest) := by
  have hLength := length_toBytesLE width n
  have hLong : ¬ (toBytesLE width n ++ rest).length < width := by
    rw [List.length_append, hLength]
    omega
  rw [sizeOperand, if_neg hLong, List.take_left' hLength, List.drop_left' hLength,
    fromBytesLE_toBytesLE]

/-- The opcode of a push announces the size that its size operand holds. -/
theorem pushBytes_header {b : Valtype} (hSize : b.length < 2 ^ 32) :
    ∃ opcode ≤ OP_PUSHDATA4, ∃ operand, pushBytes [] b = opcode :: (operand ++ b) ∧
      ∀ rest, pushSize opcode (operand ++ rest) = (some b.length, rest) := by
  unfold pushBytes
  by_cases hShort : b.length < OP_PUSHDATA1.toNat
  · have hByte : (UInt8.ofNat (b.length % 256)).toNat = b.length := by
      have : OP_PUSHDATA1.toNat = 76 := rfl
      simp
      omega
    have hLt : UInt8.ofNat (b.length % 256) < OP_PUSHDATA1 := by
      rw [UInt8.lt_iff_toNat_lt, hByte]
      exact hShort
    refine ⟨UInt8.ofNat (b.length % 256), ?_, [], ?_, ?_⟩
    · rw [UInt8.le_iff_toNat_le, hByte]
      have : OP_PUSHDATA1.toNat ≤ OP_PUSHDATA4.toNat := by decide
      omega
    · simp [if_pos hShort, toBytesLE]
    · intro rest
      rw [pushSize, if_pos hLt, hByte, List.nil_append]
  · rw [if_neg hShort]
    by_cases hOne : b.length ≤ 0xff
    · refine ⟨OP_PUSHDATA1, by decide, toBytesLE 1 b.length, ?_, ?_⟩
      · simp [if_pos hOne]
      · intro rest
        rw [pushSize, if_neg (by decide), if_pos rfl, sizeOperand_toBytesLE,
          Nat.mod_eq_of_lt (by omega)]
    · rw [if_neg hOne]
      by_cases hTwo : b.length ≤ 0xffff
      · refine ⟨OP_PUSHDATA2, by decide, toBytesLE 2 b.length, ?_, ?_⟩
        · simp [if_pos hTwo]
        · intro rest
          rw [pushSize, if_neg (by decide), if_neg (by decide), if_pos rfl,
            sizeOperand_toBytesLE, Nat.mod_eq_of_lt (by omega)]
      · refine ⟨OP_PUSHDATA4, by decide, toBytesLE 4 b.length, ?_, ?_⟩
        · simp [if_neg hTwo]
        · intro rest
          rw [pushSize, if_neg (by decide), if_neg (by decide), if_neg (by decide),
            sizeOperand_toBytesLE, Nat.mod_eq_of_lt (by omega)]

/-- Reading what was pushed. -/
theorem getOp2_pushBytes (b : Valtype) (hSize : b.length < 2 ^ 32) (rest : CScript) :
    ∃ opcode ≤ OP_PUSHDATA4,
      getOp2 (pushBytes [] b ++ rest) = ⟨true, opcode, b, rest⟩ := by
  have hTake : (b ++ rest).take b.length = b := List.take_left' rfl
  have hDrop : (b ++ rest).drop b.length = rest := List.drop_left' rfl
  have hLong : ¬ (b ++ rest).length < b.length := by
    rw [List.length_append]
    omega
  obtain ⟨opcode, hOp, operand, hPush, hOperand⟩ := pushBytes_header hSize
  refine ⟨opcode, hOp, ?_⟩
  rw [hPush, List.cons_append, List.append_assoc]
  unfold getOp2
  dsimp only
  rw [if_pos hOp, hOperand]
  dsimp only
  rw [if_neg hLong, hTake, hDrop]

theorem pushBytes_ne_nil (b : Valtype) : pushBytes [] b ≠ [] := by
  unfold pushBytes
  by_cases hShort : b.length < OP_PUSHDATA1.toNat
  · simp [if_pos hShort, toBytesLE]
  · split_ifs <;> simp

theorem pushBytes_eq_append (script : CScript) (b : Valtype) :
    pushBytes script b = script ++ pushBytes [] b := by
  simp [pushBytes]

/-- A script that pushes the given items. -/
def pushAll (items : List Valtype) : CScript := items.flatMap (pushBytes [])

@[simp] theorem pushAll_nil : pushAll [] = [] := rfl

theorem pushAll_append_singleton (items : List Valtype) (b : Valtype) :
    pushAll (items ++ [b]) = (pushAll items).pushBytes b := by
  rw [pushBytes_eq_append]
  simp [pushAll]

theorem length_le_pushAll {items : List Valtype} {b : Valtype} (h : b ∈ items) :
    b.length ≤ (pushAll items).length := by
  have hOne : b.length ≤ (pushBytes [] b).length := by
    simp [pushBytes]
  have hAll : (pushBytes [] b).length ≤ (items.map fun b => (pushBytes [] b).length).sum :=
    List.le_sum_of_mem (List.mem_map_of_mem (f := fun b => (pushBytes [] b).length) h)
  calc b.length ≤ (pushBytes [] b).length := hOne
    _ ≤ (items.map fun b => (pushBytes [] b).length).sum := hAll
    _ = (pushAll items).length := by rw [pushAll, List.length_flatMap]

theorem length_pushBytes_le (b : Valtype) : (pushBytes [] b).length ≤ 5 + b.length := by
  unfold pushBytes
  split_ifs
  all_goals
    simp only [List.nil_append, List.length_append, List.length_cons, length_toBytesLE]
    omega

theorem length_pushAll_le (items : List Valtype) :
    (pushAll items).length ≤ (items.map fun b => 5 + b.length).sum := by
  rw [pushAll, List.length_flatMap]
  apply List.sum_le_sum
  intro b _
  exact length_pushBytes_le b

/-- Is this a successful push from the script's own bytes? -/
def IsPush (op : GetOpResult) : Prop := op.fRet = true ∧ op.opcodeRet ≤ OP_PUSHDATA4

/-- The instructions of such a script push the items. -/
theorem instructions_pushAll
    {items : List Valtype} (hSize : ∀ b ∈ items, b.length < 2 ^ 32) :
    (pushAll items).instructions.map GetOpResult.vchRet = items ∧
      ∀ op ∈ (pushAll items).instructions, IsPush op := by
  induction items with
  | nil => exact ⟨rfl, fun op h => absurd h List.not_mem_nil⟩
  | cons b items ih =>
      obtain ⟨hItems, hPushes⟩ := ih fun b hb => hSize b (List.mem_cons_of_mem _ hb)
      obtain ⟨opcode, hOp, hGet⟩ :=
        getOp2_pushBytes b (hSize b List.mem_cons_self) (pushAll items)
      have hCons : pushAll (b :: items) = pushBytes [] b ++ pushAll items := by
        simp [pushAll]
      have hNe : pushBytes [] b ++ pushAll items ≠ [] := by simp [pushBytes_ne_nil]
      rw [hCons, instructions_eq hNe, hGet]
      refine ⟨by rw [List.map_cons, hItems], ?_⟩
      intro op hMem
      rcases List.mem_cons.mp hMem with rfl | hRest
      · exact ⟨rfl, hOp⟩
      · exact hPushes op hRest

theorem isPushOnly_pushAll
    {items : List Valtype} (hSize : ∀ b ∈ items, b.length < 2 ^ 32) :
    (pushAll items).isPushOnly = true := by
  unfold isPushOnly
  rw [List.all_eq_true]
  intro op hMem
  obtain ⟨hRet, hOp⟩ := (instructions_pushAll hSize).2 op hMem
  have hLe : op.opcodeRet ≤ OP_16 := UInt8.le_trans hOp (by decide)
  simp [hRet, hLe]

/-! ## Lengths -/

/-- An instruction has five bytes besides its data at most. -/
theorem length_le_of_getOp2 {script : CScript} (h : (getOp2 script).fRet = true) :
    script.length ≤ 5 + (getOp2 script).vchRet.length + (getOp2 script).rest.length := by
  have hOperand {width nSize : ℕ} {rest after : CScript} (hWidth : width ≤ 4)
      (hSize : sizeOperand width rest = (some nSize, after)) : rest.length ≤ 4 + after.length := by
    unfold sizeOperand at hSize
    split_ifs at hSize with hShort
    · exact absurd (Prod.mk.inj hSize).1 (by simp)
    · rw [← (Prod.mk.inj hSize).2, List.length_drop]
      omega
  have hPushSize {opcode : Opcodetype} {nSize : ℕ} {rest after : CScript}
      (hSize : pushSize opcode rest = (some nSize, after)) : rest.length ≤ 4 + after.length := by
    unfold pushSize at hSize
    split_ifs at hSize
    · rw [(Prod.mk.inj hSize).2]
      omega
    · exact hOperand (by decide) hSize
    · exact hOperand (by decide) hSize
    · exact hOperand le_rfl hSize
  cases script with
  | nil => cases h
  | cons opcode rest =>
      unfold getOp2 at h ⊢
      dsimp only at h ⊢
      by_cases hPush : opcode ≤ OP_PUSHDATA4
      · rw [if_pos hPush] at h ⊢
        rcases hSize : pushSize opcode rest with ⟨_ | nSize, after⟩
        · rw [hSize] at h
          cases h
        · have hAfter := hPushSize hSize
          rw [hSize] at h
          dsimp only at h ⊢
          split_ifs at h ⊢
          simp only [List.length_cons, List.length_take, List.length_drop]
          omega
      · rw [if_neg hPush, List.length_cons]
        dsimp only
        omega

theorem length_le_of_instructions {script : CScript}
    (h : ∀ op ∈ script.instructions, op.fRet = true) :
    script.length ≤ (script.instructions.map fun op => 5 + op.vchRet.length).sum := by
  induction hLength : script.length using Nat.strong_induction_on generalizing script with
  | _ n ih =>
      by_cases hNil : script = []
      · rw [← hLength, hNil]
        exact Nat.zero_le _
      · rw [instructions_eq hNil] at h ⊢
        have hFirst := length_le_of_getOp2 (h _ List.mem_cons_self)
        have hRest := ih _ (hLength ▸ length_getOp2_lt hNil)
          (fun op hMem => h op (List.mem_cons_of_mem _ hMem)) rfl
        rw [List.map_cons, List.sum_cons]
        omega

/-! ## Deleting what is not there -/

theorem getOp2_suffix (script : CScript) : (getOp2 script).rest <:+ script := by
  have hOperand (width : ℕ) (rest : CScript) : (sizeOperand width rest).2 <:+ rest := by
    unfold sizeOperand
    split_ifs
    · exact List.suffix_refl _
    · exact List.drop_suffix _ _
  have hPushSize (opcode : Opcodetype) (rest : CScript) : (pushSize opcode rest).2 <:+ rest := by
    unfold pushSize
    split_ifs
    · exact List.suffix_refl _
    · exact hOperand 1 rest
    · exact hOperand 2 rest
    · exact hOperand 4 rest
  cases script with
  | nil => exact List.suffix_refl _
  | cons opcode rest =>
      have hTail : rest <:+ opcode :: rest := List.suffix_cons _ _
      unfold getOp2
      dsimp only
      by_cases hPush : opcode ≤ OP_PUSHDATA4
      · have hAfter := hPushSize opcode rest
        rw [if_pos hPush]
        rcases hSize : pushSize opcode rest with ⟨_ | nSize, after⟩
        · rw [hSize] at hAfter
          exact hAfter.trans hTail
        · rw [hSize] at hAfter
          dsimp only at hAfter ⊢
          split_ifs
          · exact hAfter.trans hTail
          · exact (List.drop_suffix _ _).trans (hAfter.trans hTail)
      · rw [if_neg hPush]
        exact hTail

/-- A push that no instruction makes is not found. -/
theorem findAndDelete_pushBytes
    {script : CScript} {b : Valtype} (hSize : b.length < 2 ^ 32)
    (h : ∀ op ∈ script.instructions, op.vchRet ≠ b) :
    script.findAndDelete (pushBytes [] b) = script := by
  have hLoop : ∀ fuel script, (∀ op ∈ script.instructions, op.vchRet ≠ b) →
      findAndDeleteLoop (pushBytes [] b) fuel script = script := by
    intro fuel
    induction fuel with
    | zero => exact fun script _ => rfl
    | succ fuel ih =>
        intro script h
        have hMiss : ¬ (pushBytes [] b).isPrefixOf script = true := by
          intro hMatch
          obtain ⟨rest, hRest⟩ := List.isPrefixOf_iff_prefix.mp hMatch
          obtain ⟨opcode, -, hGet⟩ := getOp2_pushBytes b hSize rest
          have hNe : script ≠ [] := by
            rw [← hRest]
            simp [pushBytes_ne_nil]
          apply h (getOp2 script)
          · rw [instructions_eq hNe]
            exact List.mem_cons_self
          · rw [← hRest, hGet]
        rw [findAndDeleteLoop, if_neg hMiss]
        dsimp only
        by_cases hFailed : (getOp2 script).fRet = false
        · rw [if_pos hFailed]
        · have hNe : script ≠ [] := by
            intro hNil
            rw [hNil] at hFailed
            exact hFailed rfl
          rw [if_neg hFailed, ih]
          · obtain ⟨before, hBefore⟩ := getOp2_suffix script
            have hLength := congrArg List.length hBefore
            rw [List.length_append] at hLength
            have hTake : script.take (script.length - (getOp2 script).rest.length) = before := by
              conv_lhs => rw [← hBefore]
              apply List.take_left'
              rw [hBefore]
              omega
            rw [hTake]
            exact hBefore
          · intro op hMem
            apply h op
            rw [instructions_eq hNe]
            exact List.mem_cons_of_mem _ hMem
  unfold findAndDelete
  rw [if_neg (pushBytes_ne_nil b)]
  exact hLoop _ _ h

end CScript

open CScript

theorem scriptCodeWithout_eq
    {script : CScript} {sigs : List Valtype} (hSize : ∀ vchSig ∈ sigs, vchSig.length < 2 ^ 32)
    (h : ∀ vchSig ∈ sigs, ∀ op ∈ script.instructions, op.vchRet ≠ vchSig) :
    scriptCodeWithout script sigs = script := by
  unfold scriptCodeWithout
  induction sigs with
  | nil => rfl
  | cons vchSig sigs ih =>
      rw [List.foldl_cons, findAndDelete_pushBytes (hSize vchSig List.mem_cons_self)
        (h vchSig List.mem_cons_self)]
      exact ih (fun s hs => hSize s (List.mem_cons_of_mem _ hs))
        (fun s hs => h s (List.mem_cons_of_mem _ hs))

/-! ## Single instructions -/

/-- Rules that accept every push and handle numbers as validation does. -/
structure Rules.Standard (r : Rules) : Prop where
  push : ∀ vch opcode, r.acceptsPush vch opcode = true
  number : r.ofNumber = CBigNum.getvch
  int : r.intOperand = CBigNum.intOperand
  dummy : r.acceptsDummy [] = true

/-- The state after an instruction has to respect the stack limit. -/
def withinStackLimit (m : Machine) : Option Machine :=
  if m.stack.length + m.altstack.length > 1000 then none else some m

theorem withinStackLimit_eq
    {m : Machine} (h : m.stack.length + m.altstack.length ≤ 1000) :
    withinStackLimit m = some m := by
  rw [withinStackLimit, if_neg (by omega)]

theorem not_isDisabled_of_le {opcode : Opcodetype} (h : opcode ≤ OP_16) :
    isDisabled opcode = false := by
  by_contra hNot
  have hMem : isDisabled opcode = true := by simpa using hNot
  have hAll : ∀ disabled ∈ [OP_CAT, OP_SUBSTR, OP_LEFT, OP_RIGHT, OP_INVERT, OP_AND, OP_OR,
      OP_XOR, OP_2MUL, OP_2DIV, OP_MUL, OP_DIV, OP_MOD, OP_LSHIFT, OP_RSHIFT],
      OP_16.toNat < disabled.toNat := by decide +kernel
  have hLt := hAll opcode (by simpa [isDisabled] using hMem)
  have hLe := UInt8.le_iff_toNat_le.mp h
  omega

section Run

variable {P : ScriptPrimitives} {r : Rules} {m : Machine} {op : GetOpResult}

/-- A push outside of conditionals. -/
theorem step_push
    (hr : r.Standard) (hPush : IsPush op) (hSize : op.vchRet.length ≤ MAX_SCRIPT_ELEMENT_SIZE)
    (hExec : m.vfExec = []) :
    step P r m op = withinStackLimit (m.push op.vchRet) := by
  obtain ⟨hRet, hOp⟩ := hPush
  have hSmall : op.opcodeRet ≤ OP_16 := UInt8.le_trans hOp (by decide)
  have hNotCounted : ¬ op.opcodeRet > OP_16 := UInt8.not_lt.mpr hSmall
  have hDispatch : dispatch P r op m = some (m.push op.vchRet) := by
    have hBoth : m.fExec = true ∧ op.opcodeRet ≤ OP_PUSHDATA4 := by
      simp [Machine.fExec, hExec, hOp]
    rw [dispatch, if_pos hBoth, if_pos (hr.push _ _)]
  rw [step, if_neg (by simp [hRet]), if_neg (by omega), if_neg (fun h => hNotCounted h.1),
    not_isDisabled_of_le hSmall, if_neg (by decide), countOp, if_neg hNotCounted, hDispatch]
  rfl

/-- An opcode outside of conditionals. -/
theorem step_opcode
    (hRet : op.fRet = true) (hData : op.vchRet = []) (hOp : op.opcodeRet > OP_PUSHDATA4)
    (hEnabled : isDisabled op.opcodeRet = false)
    (hCount : op.opcodeRet ≤ OP_16 ∨ m.nOpCount ≤ 200) (hExec : m.vfExec = []) :
    step P r m op = (exec P r op (countOp op m)).bind withinStackLimit := by
  have hLimit : ¬ (op.opcodeRet > OP_16 ∧ m.nOpCount + 1 > 201) := by
    rintro ⟨hLarge, hMany⟩
    rcases hCount with hSmall | hFew
    · exact UInt8.not_lt.mpr hSmall hLarge
    · omega
  have hCounted : (countOp op m).vfExec = [] := by
    unfold countOp
    split_ifs <;> exact hExec
  have hDispatch : dispatch P r op (countOp op m) = exec P r op (countOp op m) := by
    have hNotPush : ¬ ((countOp op m).fExec = true ∧ op.opcodeRet ≤ OP_PUSHDATA4) :=
      fun h => UInt8.not_lt.mpr h.2 hOp
    have hRun : (countOp op m).fExec = true ∨
        (OP_IF ≤ op.opcodeRet ∧ op.opcodeRet ≤ OP_ENDIF) :=
      Or.inl (by simp [Machine.fExec, hCounted])
    rw [dispatch, if_neg hNotPush, if_pos hRun]
  rw [step, if_neg (by simp [hRet]), hData, if_neg (by decide), if_neg hLimit, hEnabled,
    if_neg (by decide), hDispatch]
  rfl

theorem foldlM_pushes
    (hr : r.Standard) {ops : List GetOpResult} (hPush : ∀ op ∈ ops, IsPush op)
    (hSize : ∀ op ∈ ops, op.vchRet.length ≤ MAX_SCRIPT_ELEMENT_SIZE) (hExec : m.vfExec = [])
    (hStack : m.stack.length + ops.length + m.altstack.length ≤ 1000) :
    ops.foldlM (step P r) m =
      some { m with stack := (ops.map GetOpResult.vchRet).reverse ++ m.stack } := by
  induction ops generalizing m with
  | nil => rfl
  | cons op ops ih =>
      have hHead : step P r m op = some (m.push op.vchRet) := by
        rw [step_push hr (hPush op List.mem_cons_self) (hSize op List.mem_cons_self) hExec]
        apply withinStackLimit_eq
        simp only [List.length_cons] at hStack
        simp only [Machine.push, List.length_cons]
        omega
      have hTail := ih (m := m.push op.vchRet)
        (fun op h => hPush op (List.mem_cons_of_mem _ h))
        (fun op h => hSize op (List.mem_cons_of_mem _ h)) hExec (by
          simp only [List.length_cons] at hStack
          simp only [Machine.push, List.length_cons]
          omega)
      rw [List.foldlM_cons, hHead]
      change ops.foldlM (step P r) (m.push op.vchRet) = _
      rw [hTail]
      simp [Machine.push]

/-- A script of pushes within the limits leaves what it pushes. -/
theorem evalWith_pushAll
    (hr : r.Standard) {items : List Valtype}
    (hSize : ∀ b ∈ items, b.length ≤ MAX_SCRIPT_ELEMENT_SIZE) (hMany : items.length ≤ 1000)
    (hLength : (pushAll items).length ≤ 10000) :
    evalWith P r [] (pushAll items) = some items.reverse := by
  have hFits : ∀ b ∈ items, b.length < 2 ^ 32 := by
    intro b hMem
    have hLe := length_le_pushAll hMem
    omega
  obtain ⟨hItems, hPush⟩ := instructions_pushAll hFits
  have hCount : (pushAll items).instructions.length = items.length := by
    rw [← List.length_map (f := GetOpResult.vchRet), hItems]
  have hSizes : ∀ op ∈ (pushAll items).instructions,
      op.vchRet.length ≤ MAX_SCRIPT_ELEMENT_SIZE := by
    intro op hMem
    apply hSize
    rw [← hItems]
    exact List.mem_map_of_mem hMem
  unfold evalWith
  rw [if_neg (by omega), foldlM_pushes hr hPush hSizes rfl (by simp [Machine.start]; omega),
    hItems]
  simp [Machine.start]

/-- What a run of pushes leaves, when it succeeds. -/
theorem stack_of_foldlM_pushes
    (hr : r.Standard) {ops : List GetOpResult} (hPush : ∀ op ∈ ops, IsPush op)
    (hExec : m.vfExec = []) {m' : Machine} (h : ops.foldlM (step P r) m = some m') :
    (∀ op ∈ ops, op.vchRet.length ≤ MAX_SCRIPT_ELEMENT_SIZE) ∧
      m'.stack = (ops.map GetOpResult.vchRet).reverse ++ m.stack := by
  induction ops generalizing m with
  | nil =>
      have hEq : m = m' := by simpa using h
      exact ⟨fun op hMem => absurd hMem List.not_mem_nil, by simp [hEq]⟩
  | cons op ops ih =>
      rw [List.foldlM_cons] at h
      obtain ⟨m₁, hStep, hRest⟩ := Option.bind_eq_some_iff.mp h
      have hSize : op.vchRet.length ≤ MAX_SCRIPT_ELEMENT_SIZE := by
        by_contra hLong
        have hNone : step P r m op = none := by
          rw [step, if_neg (by simp [(hPush op List.mem_cons_self).1]), if_pos (by omega)]
        rw [hNone] at hStep
        exact absurd hStep (by simp)
      have hNext : m₁ = m.push op.vchRet := by
        rw [step_push hr (hPush op List.mem_cons_self) hSize hExec, withinStackLimit] at hStep
        split_ifs at hStep
        exact (Option.some.inj hStep).symm
      obtain ⟨hSizes, hStack⟩ :=
        ih (fun op h => hPush op (List.mem_cons_of_mem _ h)) (by rw [hNext]; exact hExec) hRest
      refine ⟨?_, ?_⟩
      · intro op' hMem
        rcases List.mem_cons.mp hMem with rfl | hMem
        · exact hSize
        · exact hSizes op' hMem
      · rw [hStack, hNext]
        simp [Machine.push]

theorem exec_number (h : OP_1 ≤ op.opcodeRet ∧ op.opcodeRet ≤ OP_16) :
    exec P r op m =
      some (m.push (r.ofNumber ((op.opcodeRet.toNat : ℤ) - ((OP_1.toNat : ℤ) - 1)))) := by
  unfold exec
  rw [if_pos (Or.inr h)]

theorem exec_dup (h : op.opcodeRet = OP_DUP) : exec P r op m = stackOp OP_DUP m := by
  unfold exec
  rw [h]
  rfl

theorem exec_hash160 (h : op.opcodeRet = OP_HASH160) : exec P r op m = hashTop P OP_HASH160 m := by
  unfold exec
  rw [h]
  rfl

theorem exec_equal (h : op.opcodeRet = OP_EQUAL) :
    exec P r op m = equal OP_EQUAL m := by
  unfold exec
  rw [h]
  rfl

theorem exec_equalverify (h : op.opcodeRet = OP_EQUALVERIFY) :
    exec P r op m = equal OP_EQUALVERIFY m := by
  unfold exec
  rw [h]
  rfl

theorem exec_checksig (h : op.opcodeRet = OP_CHECKSIG) :
    exec P r op m = checkSigOp r OP_CHECKSIG m := by
  unfold exec
  rw [h]
  rfl

theorem exec_checkmultisig (h : op.opcodeRet = OP_CHECKMULTISIG) :
    exec P r op m = checkMultisigOp r OP_CHECKMULTISIG m := by
  unfold exec
  rw [h]
  rfl

def isSigOp (opcode : Opcodetype) : Bool :=
  opcode = OP_CHECKSIG || opcode = OP_CHECKSIGVERIFY || opcode = OP_CHECKMULTISIG ||
    opcode = OP_CHECKMULTISIGVERIFY

theorem exec_withCheckSig
    (checkSig : Valtype → Valtype → CScript → Option Bool) (h : isSigOp op.opcodeRet = false) :
    exec P (r.withCheckSig checkSig) op m = exec P r op m := by
  have hSig : ¬ (op.opcodeRet = OP_CHECKSIG ∨ op.opcodeRet = OP_CHECKSIGVERIFY) := by
    rintro (hEq | hEq) <;> rw [hEq] at h <;> exact absurd h (by decide)
  have hMulti : ¬ (op.opcodeRet = OP_CHECKMULTISIG ∨ op.opcodeRet = OP_CHECKMULTISIGVERIFY) := by
    rintro (hEq | hEq) <;> rw [hEq] at h <;> exact absurd h (by decide)
  unfold exec
  simp only [hSig, hMulti, if_false]
  rfl

/-- Scripts without signature opcodes do not depend on the signature checks. -/
theorem evalWith_withCheckSig
    (checkSig : Valtype → Valtype → CScript → Option Bool) {script : CScript}
    (h : ∀ op ∈ script.instructions, isSigOp op.opcodeRet = false) (stack : List Valtype) :
    evalWith P (r.withCheckSig checkSig) stack script = evalWith P r stack script := by
  have hRun : ∀ ops : List GetOpResult, (∀ op ∈ ops, isSigOp op.opcodeRet = false) →
      ∀ m, ops.foldlM (step P (r.withCheckSig checkSig)) m = ops.foldlM (step P r) m := by
    intro ops hOps
    induction ops with
    | nil => exact fun m => rfl
    | cons op ops ih =>
        intro m
        have hStep : step P (r.withCheckSig checkSig) m op = step P r m op := by
          unfold step dispatch
          rw [exec_withCheckSig checkSig (hOps op List.mem_cons_self)]
          rfl
        rw [List.foldlM_cons, List.foldlM_cons, hStep]
        congr 1
        funext m'
        exact ih (fun op hMem => hOps op (List.mem_cons_of_mem _ hMem)) m'
  unfold evalWith
  rw [hRun _ h]

end Run

end SocietyGold
