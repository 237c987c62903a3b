import SocietyGold.ScriptRuns
import SocietyGold.Support.OrderedMatch

/-!
# The standard output types

What `Solver` says about the instructions of a script, and what the
interpreter makes of the payments to a key, to the hash of a key and to
several keys.
-/

namespace SocietyGold

open Support CScript TxnOutType

/-! ## Scripts that match a template -/

/-- Is this the given opcode, without data? -/
def IsOpcode (opcode : Opcodetype) (op : GetOpResult) : Prop :=
  op.fRet = true ∧ op.opcodeRet = opcode ∧ op.vchRet = []

/-- An instruction that pushes data as long as a key. -/
def IsKeyPush (op : GetOpResult) : Prop := IsPush op ∧ hasKeySize op.vchRet = true

theorem IsKeyPush.length_le {op : GetOpResult} (h : IsKeyPush op) :
    op.vchRet.length ≤ MAX_SCRIPT_ELEMENT_SIZE := by
  have hSize := h.2
  simp only [hasKeySize, Bool.and_eq_true, decide_eq_true_eq] at hSize
  unfold MAX_SCRIPT_ELEMENT_SIZE
  omega

/-- An instruction that pushes a number from one to sixteen. -/
def IsSmallInteger (n : ℕ) (op : GetOpResult) : Prop :=
  op.fRet = true ∧ op.vchRet = [] ∧ OP_1 ≤ op.opcodeRet ∧ op.opcodeRet ≤ OP_16 ∧
    decodeOP_N op.opcodeRet = n

theorem isPush_of_data {op : GetOpResult} (hWf : WellFormedOp op) (h : op.vchRet ≠ []) :
    IsPush op := by
  refine ⟨?_, hWf.data h⟩
  by_contra hNot
  exact h (hWf.failed (by simpa using hNot)).2

theorem isKeyPush_of_size
    {op : GetOpResult} (hWf : WellFormedOp op) (h : hasKeySize op.vchRet = true) :
    IsKeyPush op := by
  refine ⟨isPush_of_data hWf ?_, h⟩
  intro hNil
  rw [hNil] at h
  exact absurd h (by decide)

theorem matchTemplate_nil
    {ops : List GetOpResult} {vSolutions res : List Valtype}
    (h : matchTemplate [] ops vSolutions = some res) : ops = [] ∧ res = vSolutions := by
  cases ops with
  | nil => exact ⟨rfl, (Option.some.inj h).symm⟩
  | cons op ops => exact absurd h (by simp [matchTemplate])

theorem matchTemplate_cons
    {opcode2 : Opcodetype} {template : List Opcodetype} {ops : List GetOpResult}
    {vSolutions res : List Valtype} (hKeys : opcode2 ≠ OP_PUBKEYS)
    (h : matchTemplate (opcode2 :: template) ops vSolutions = some res) :
    ∃ op rest found, ops = op :: rest ∧ op.fRet = true ∧ matchOpcode opcode2 op = some found ∧
      matchTemplate template rest (vSolutions ++ found) = some res := by
  cases ops with
  | nil => exact absurd h (by simp [matchTemplate])
  | cons op rest =>
      unfold matchTemplate at h
      by_cases hRet : op.fRet = false
      · rw [if_pos hRet] at h
        exact absurd h (by simp)
      · rw [if_neg hRet, if_neg hKeys] at h
        obtain ⟨found, hFound, hRest⟩ := Option.bind_eq_some_iff.mp h
        exact ⟨op, rest, found, rfl, by simpa using hRet, hFound, hRest⟩

theorem matchOpcode_pubkey
    {op : GetOpResult} {found : List Valtype} (h : matchOpcode OP_PUBKEY op = some found) :
    hasKeySize op.vchRet = true ∧ found = [op.vchRet] := by
  rw [matchOpcode, if_pos rfl] at h
  split_ifs at h with hSize
  exact ⟨hSize, (Option.some.inj h).symm⟩

theorem matchOpcode_pubkeyhash
    {op : GetOpResult} {found : List Valtype} (h : matchOpcode OP_PUBKEYHASH op = some found) :
    op.vchRet.length = 20 ∧ found = [op.vchRet] := by
  rw [matchOpcode, if_neg (by decide), if_pos rfl] at h
  split_ifs at h with hSize
  exact ⟨hSize, (Option.some.inj h).symm⟩

theorem matchOpcode_smallinteger
    {op : GetOpResult} {found : List Valtype}
    (h : matchOpcode OP_SMALLINTEGER op = some found) :
    (op.opcodeRet = OP_0 ∨ (OP_1 ≤ op.opcodeRet ∧ op.opcodeRet ≤ OP_16)) ∧
      found = [[UInt8.ofNat (decodeOP_N op.opcodeRet)]] := by
  rw [matchOpcode, if_neg (by decide), if_neg (by decide), if_pos rfl] at h
  split_ifs at h with hInt
  exact ⟨hInt, (Option.some.inj h).symm⟩

/-- The opcodes that stand for themselves in a template. -/
theorem matchOpcode_literal
    {opcode2 : Opcodetype} {op : GetOpResult} {found : List Valtype}
    (hLiteral : opcode2 < OP_SMALLDATA) (hRet : op.fRet = true)
    (h : matchOpcode opcode2 op = some found) : IsOpcode opcode2 op ∧ found = [] := by
  have hNe {param : Opcodetype} (hParam : OP_SMALLDATA ≤ param) : opcode2 ≠ param := by
    intro hEq
    rw [hEq] at hLiteral
    exact UInt8.not_lt.mpr hParam hLiteral
  rw [matchOpcode, if_neg (hNe (by decide)), if_neg (hNe (by decide)), if_neg (hNe (by decide)),
    if_neg (hNe (by decide))] at h
  split_ifs at h with hDiffer
  obtain ⟨hOp, hData⟩ := not_or.mp hDiffer
  exact ⟨⟨hRet, by simpa using hOp, by simpa using hData⟩, (Option.some.inj h).symm⟩

theorem takePubKeys_spec
    {op : GetOpResult} {ops : List GetOpResult} {vSolutions vSolutions' : List Valtype}
    {op' : GetOpResult} {ops' : List GetOpResult}
    (h : takePubKeys op ops vSolutions = (vSolutions', op', ops')) :
    (op'.opcodeRet = OP_INVALIDOPCODE ∨
      ∃ keyOps, op :: ops = keyOps ++ op' :: ops' ∧
        vSolutions' = vSolutions ++ keyOps.map GetOpResult.vchRet ∧
        ∀ keyOp ∈ keyOps, hasKeySize keyOp.vchRet = true) := by
  have hStop : ∀ {v v' : List Valtype} {o o' : GetOpResult} {l l' : List GetOpResult},
      (v, o, l) = (v', o', l') → ∃ keyOps, o :: l = keyOps ++ o' :: l' ∧
        v' = v ++ keyOps.map GetOpResult.vchRet ∧
        ∀ keyOp ∈ keyOps, hasKeySize keyOp.vchRet = true := by
    intro v v' o o' l l' hEq
    obtain ⟨rfl, hRest⟩ := Prod.mk.inj hEq
    obtain ⟨rfl, rfl⟩ := Prod.mk.inj hRest
    exact ⟨[], rfl, by simp, by simp⟩
  induction ops generalizing op vSolutions with
  | nil =>
      rw [takePubKeys] at h
      by_cases hSize : hasKeySize op.vchRet = true
      · rw [if_pos hSize] at h
        obtain ⟨-, hRest⟩ := Prod.mk.inj h
        obtain ⟨rfl, -⟩ := Prod.mk.inj hRest
        exact Or.inl rfl
      · rw [if_neg hSize] at h
        exact Or.inr (hStop h)
  | cons next ops ih =>
      rw [takePubKeys] at h
      by_cases hSize : hasKeySize op.vchRet = true
      · rw [if_pos hSize] at h
        rcases ih h with hInvalid | ⟨keyOps, hOps, hSols, hSizes⟩
        · exact Or.inl hInvalid
        · refine Or.inr ⟨op :: keyOps, by rw [hOps]; rfl, by rw [hSols]; simp, ?_⟩
          intro keyOp hMem
          rcases List.mem_cons.mp hMem with rfl | hMem
          · exact hSize
          · exact hSizes keyOp hMem
      · rw [if_neg hSize] at h
        exact Or.inr (hStop h)

theorem scanTemplates_spec
    {ops : List GetOpResult} {templates : List (TxnOutType × List Opcodetype)}
    {whichType : TxnOutType} {vSolutions : List Valtype}
    (h : scanTemplates ops templates = some (whichType, vSolutions)) :
    ∃ template, (whichType, template) ∈ templates ∧
      matchTemplate template ops [] = some vSolutions ∧
      (whichType = TX_MULTISIG → multisigCountsFit vSolutions = true) := by
  induction templates with
  | nil => exact absurd h (by simp [scanTemplates])
  | cons entry rest ih =>
      obtain ⟨type, template⟩ := entry
      rw [scanTemplates] at h
      cases hMatch : matchTemplate template ops [] with
      | none =>
          rw [hMatch] at h
          obtain ⟨template', hMem, hRest⟩ := ih h
          exact ⟨template', List.mem_cons_of_mem _ hMem, hRest⟩
      | some sols =>
          rw [hMatch] at h
          dsimp only at h
          split_ifs at h with hBad
          obtain ⟨rfl, rfl⟩ := Prod.mk.inj (Option.some.inj h)
          refine ⟨template, List.mem_cons_self, hMatch, ?_⟩
          intro hType
          by_contra hNot
          exact hBad ⟨hType, by simpa using hNot⟩

theorem matchTemplate_of_solver
    (template : List Opcodetype) {script : CScript} {whichType : TxnOutType}
    {vSolutions : List Valtype} (hType : whichType ≠ TX_SCRIPTHASH)
    (hOnly : ∀ template', (whichType, template') ∈ mTemplates → template' = template)
    (h : solver script = some (whichType, vSolutions)) :
    matchTemplate template script.instructions [] = some vSolutions ∧
      (whichType = TX_MULTISIG → multisigCountsFit vSolutions = true) := by
  unfold solver at h
  by_cases hHash : script.isPayToScriptHash = true
  · rw [if_pos hHash] at h
    exact absurd (Prod.mk.inj (Option.some.inj h)).1.symm hType
  · rw [if_neg hHash] at h
    obtain ⟨template', hMem, hMatch, hFit⟩ := scanTemplates_spec h
    rw [hOnly template' hMem] at hMatch
    exact ⟨hMatch, hFit⟩

/-- The instructions of a payment to a key. -/
theorem instructions_of_pubkey
    {script : CScript} {vSolutions : List Valtype}
    (h : solver script = some (TX_PUBKEY, vSolutions)) :
    ∃ keyOp checkOp, script.instructions = [keyOp, checkOp] ∧ IsKeyPush keyOp ∧
      IsOpcode OP_CHECKSIG checkOp ∧ vSolutions = [keyOp.vchRet] := by
  obtain ⟨hMatch, -⟩ := matchTemplate_of_solver [OP_PUBKEY, OP_CHECKSIG]
    (by decide) (by simp [mTemplates]) h
  obtain ⟨keyOp, ops₁, found₁, hOps₁, -, hKey, hMatch⟩ := matchTemplate_cons (by decide) hMatch
  obtain ⟨checkOp, ops₂, found₂, hOps₂, hRet₂, hCheck, hMatch⟩ :=
    matchTemplate_cons (by decide) hMatch
  obtain ⟨hEnd, hSols⟩ := matchTemplate_nil hMatch
  obtain ⟨hSize, hFound₁⟩ := matchOpcode_pubkey hKey
  obtain ⟨hCheckOp, hFound₂⟩ := matchOpcode_literal (by decide) hRet₂ hCheck
  subst hEnd hOps₂ hFound₁ hFound₂
  have hWf : WellFormedOp keyOp := wellFormedOp_of_mem (by rw [hOps₁]; simp)
  exact ⟨keyOp, checkOp, hOps₁, isKeyPush_of_size hWf hSize, hCheckOp, by simpa using hSols⟩

/-- The instructions of a payment to the hash of a key. -/
theorem instructions_of_pubkeyhash
    {script : CScript} {vSolutions : List Valtype}
    (h : solver script = some (TX_PUBKEYHASH, vSolutions)) :
    ∃ dupOp hashOp pushOp equalOp checkOp,
      script.instructions = [dupOp, hashOp, pushOp, equalOp, checkOp] ∧
      IsOpcode OP_DUP dupOp ∧ IsOpcode OP_HASH160 hashOp ∧
      (IsPush pushOp ∧ pushOp.vchRet.length = 20) ∧
      IsOpcode OP_EQUALVERIFY equalOp ∧ IsOpcode OP_CHECKSIG checkOp ∧
      vSolutions = [pushOp.vchRet] := by
  obtain ⟨hMatch, -⟩ := matchTemplate_of_solver
    [OP_DUP, OP_HASH160, OP_PUBKEYHASH, OP_EQUALVERIFY, OP_CHECKSIG]
    (by decide) (by simp [mTemplates]) h
  obtain ⟨dupOp, ops₁, found₁, hOps₁, hRet₁, hDup, hMatch⟩ :=
    matchTemplate_cons (by decide) hMatch
  obtain ⟨hashOp, ops₂, found₂, hOps₂, hRet₂, hHash, hMatch⟩ :=
    matchTemplate_cons (by decide) hMatch
  obtain ⟨pushOp, ops₃, found₃, hOps₃, -, hPush, hMatch⟩ := matchTemplate_cons (by decide) hMatch
  obtain ⟨equalOp, ops₄, found₄, hOps₄, hRet₄, hEqual, hMatch⟩ :=
    matchTemplate_cons (by decide) hMatch
  obtain ⟨checkOp, ops₅, found₅, hOps₅, hRet₅, hCheck, hMatch⟩ :=
    matchTemplate_cons (by decide) hMatch
  obtain ⟨hEnd, hSols⟩ := matchTemplate_nil hMatch
  obtain ⟨hDupOp, hFound₁⟩ := matchOpcode_literal (by decide) hRet₁ hDup
  obtain ⟨hHashOp, hFound₂⟩ := matchOpcode_literal (by decide) hRet₂ hHash
  obtain ⟨hSize, hFound₃⟩ := matchOpcode_pubkeyhash hPush
  obtain ⟨hEqualOp, hFound₄⟩ := matchOpcode_literal (by decide) hRet₄ hEqual
  obtain ⟨hCheckOp, hFound₅⟩ := matchOpcode_literal (by decide) hRet₅ hCheck
  subst hEnd hOps₅ hOps₄ hOps₃ hOps₂ hFound₁ hFound₂ hFound₃ hFound₄ hFound₅
  have hWf : WellFormedOp pushOp := wellFormedOp_of_mem (by rw [hOps₁]; simp)
  have hData : pushOp.vchRet ≠ [] := by
    intro hNil
    rw [hNil] at hSize
    exact absurd hSize (by decide)
  exact ⟨dupOp, hashOp, pushOp, equalOp, checkOp, hOps₁, hDupOp, hHashOp,
    ⟨isPush_of_data hWf hData, hSize⟩, hEqualOp, hCheckOp, by simpa using hSols⟩

/-- The instruction that a template takes for a small integer. -/
def IsCount (op : GetOpResult) : Prop :=
  op.opcodeRet = OP_0 ∨ (OP_1 ≤ op.opcodeRet ∧ op.opcodeRet ≤ OP_16)

/-- The solution that it leaves. -/
def countBytes (op : GetOpResult) : Valtype := [UInt8.ofNat (decodeOP_N op.opcodeRet)]

theorem matchTemplate_multisig
    {ops : List GetOpResult} {vSolutions : List Valtype}
    (h : matchTemplate [OP_SMALLINTEGER, OP_PUBKEYS, OP_SMALLINTEGER, OP_CHECKMULTISIG] ops [] =
      some vSolutions) :
    ∃ mOp keyOps nOp checkOp, ops = mOp :: (keyOps ++ [nOp, checkOp]) ∧ IsCount mOp ∧
      (∀ keyOp ∈ keyOps, hasKeySize keyOp.vchRet = true) ∧ IsCount nOp ∧
      IsOpcode OP_CHECKMULTISIG checkOp ∧
      vSolutions = countBytes mOp :: (keyOps.map GetOpResult.vchRet ++ [countBytes nOp]) := by
  obtain ⟨mOp, ops₁, found₁, hOps₁, -, hM, h⟩ := matchTemplate_cons (by decide) h
  obtain ⟨hMOp, rfl⟩ := matchOpcode_smallinteger hM
  rcases ops₁ with _ | ⟨op, ops₁⟩
  · exact absurd h (by simp [matchTemplate])
  · rcases hTake : takePubKeys op ops₁ ([] ++ [[UInt8.ofNat (decodeOP_N mOp.opcodeRet)]]) with
      ⟨sols, nOp, ops₂⟩
    unfold matchTemplate at h
    by_cases hRet : op.fRet = false
    · rw [if_pos hRet] at h
      exact absurd h (by simp)
    · rw [if_neg hRet, if_pos rfl, hTake] at h
      obtain ⟨found₂, hN, h⟩ := Option.bind_eq_some_iff.mp h
      obtain ⟨hNOp, rfl⟩ := matchOpcode_smallinteger hN
      obtain ⟨checkOp, ops₃, found₃, hOps₃, hRet₃, hCheck, h⟩ := matchTemplate_cons (by decide) h
      obtain ⟨rfl, hSols⟩ := matchTemplate_nil h
      obtain ⟨hCheckOp, rfl⟩ := matchOpcode_literal (by decide) hRet₃ hCheck
      -- The loop over the keys stops at the second count, or the script is malformed.
      rcases takePubKeys_spec hTake with hInvalid | ⟨keyOps, hKeyOps, hKeySols, hSizes⟩
      · rw [hInvalid] at hNOp
        exact absurd hNOp (by decide)
      · refine ⟨mOp, keyOps, nOp, checkOp, ?_, hMOp, hSizes, hNOp, hCheckOp, ?_⟩
        · rw [hOps₁, hKeyOps, hOps₃]
        · rw [hSols, hKeySols]
          simp [countBytes]

theorem multisigCountsFit_iff
    {mCount nCount : Valtype} {keys : List Valtype} :
    multisigCountsFit (mCount :: (keys ++ [nCount])) = true ↔
      1 ≤ smallInteger (some mCount) ∧ 1 ≤ smallInteger (some nCount) ∧
        smallInteger (some mCount) ≤ smallInteger (some nCount) ∧
        keys.length = smallInteger (some nCount) := by
  have hLast : (mCount :: (keys ++ [nCount])).getLast? = some nCount := by
    rw [← List.cons_append, List.getLast?_concat]
  have hLength : (mCount :: (keys ++ [nCount])).length - 2 = keys.length := by simp
  unfold multisigCountsFit
  rw [hLast, hLength, List.head?_cons]
  simp only [Bool.not_eq_eq_eq_not, Bool.not_true, Bool.or_eq_false_iff, decide_eq_false_iff_not,
    Nat.not_lt, not_not, ne_eq, and_assoc]

/-- A small integer that is not zero. -/
theorem isSmallInteger_of_pos
    {op : GetOpResult} (hWf : WellFormedOp op) (hOp : IsCount op)
    (hPos : 1 ≤ smallInteger (some (countBytes op))) :
    IsSmallInteger (smallInteger (some (countBytes op))) op ∧
      smallInteger (some (countBytes op)) ≤ 16 := by
  rcases hOp with hZero | ⟨hLow, hHigh⟩
  · rw [countBytes, hZero] at hPos
    exact absurd hPos (by decide)
  · have hLow' := UInt8.le_iff_toNat_le.mp hLow
    have hHigh' := UInt8.le_iff_toNat_le.mp hHigh
    have h1 : OP_1.toNat = 81 := rfl
    have h16 : OP_16.toNat = 96 := rfl
    have hNotZero : op.opcodeRet ≠ OP_0 := by
      intro hEq
      rw [hEq] at hLow'
      exact absurd hLow' (by decide)
    have hDecode : decodeOP_N op.opcodeRet = op.opcodeRet.toNat - 80 := by
      rw [decodeOP_N, if_neg hNotZero, h1]
    have hValue : smallInteger (some (countBytes op)) = decodeOP_N op.opcodeRet := by
      simp only [smallInteger, countBytes, Option.bind_some, List.head?_cons, Option.map_some,
        Option.getD_some, UInt8.toNat_ofNat']
      omega
    have hRet : op.fRet = true := by
      by_contra hFailed
      rw [(hWf.failed (by simpa using hFailed)).1] at hHigh
      exact absurd hHigh (by decide)
    have hData : op.vchRet = [] := by
      by_contra hNe
      have hPush := UInt8.le_iff_toNat_le.mp (hWf.data hNe)
      have h4 : OP_PUSHDATA4.toNat = 78 := rfl
      omega
    rw [hValue]
    exact ⟨⟨hRet, hData, hLow, hHigh, rfl⟩, by omega⟩

/-- The instructions of a multisig script. -/
theorem instructions_of_multisig
    {script : CScript} {vSolutions : List Valtype}
    (h : solver script = some (TX_MULTISIG, vSolutions)) :
    ∃ mOp keyOps nOp checkOp,
      script.instructions = mOp :: (keyOps ++ [nOp, checkOp]) ∧
      IsSmallInteger (smallInteger vSolutions.head?) mOp ∧
      (∀ keyOp ∈ keyOps, IsKeyPush keyOp) ∧ IsSmallInteger keyOps.length nOp ∧
      IsOpcode OP_CHECKMULTISIG checkOp ∧ 1 ≤ smallInteger vSolutions.head? ∧
      smallInteger vSolutions.head? ≤ keyOps.length ∧ keyOps.length ≤ 16 ∧
      vSolutions.tail.dropLast = keyOps.map GetOpResult.vchRet := by
  obtain ⟨hMatch, hFit⟩ := matchTemplate_of_solver
    [OP_SMALLINTEGER, OP_PUBKEYS, OP_SMALLINTEGER, OP_CHECKMULTISIG]
    (by decide) (by simp [mTemplates]) h
  obtain ⟨mOp, keyOps, nOp, checkOp, hOps, hMOp, hSizes, hNOp, hCheckOp, rfl⟩ :=
    matchTemplate_multisig hMatch
  obtain ⟨hM, hN, hMN, hKeys⟩ := multisigCountsFit_iff.mp (hFit rfl)
  rw [List.length_map] at hKeys
  have hWf {op : GetOpResult} (hMem : op ∈ mOp :: (keyOps ++ [nOp, checkOp])) : WellFormedOp op :=
    wellFormedOp_of_mem (by rw [hOps]; exact hMem)
  obtain ⟨hMInt, -⟩ := isSmallInteger_of_pos (hWf (by simp)) hMOp hM
  obtain ⟨hNInt, hN16⟩ := isSmallInteger_of_pos (hWf (by simp)) hNOp hN
  rw [List.head?_cons]
  refine ⟨mOp, keyOps, nOp, checkOp, hOps, hMInt, ?_, ?_, hCheckOp, hM, ?_, ?_, ?_⟩
  · intro keyOp hMem
    exact isKeyPush_of_size (hWf (by simp [hMem])) (hSizes keyOp hMem)
  · rw [hKeys]
    exact hNInt
  · rw [hKeys]
    exact hMN
  · rw [hKeys]
    exact hN16
  · simp

/-- A multisig script is far below the limit. -/
theorem length_le_of_multisig
    {script : CScript} {vSolutions : List Valtype}
    (h : solver script = some (TX_MULTISIG, vSolutions)) : script.length ≤ 10000 := by
  obtain ⟨mOp, keyOps, nOp, checkOp, hOps, hM, hKeys, hN, hCheck, -, -, hMany, -⟩ :=
    instructions_of_multisig h
  have hRet : ∀ op ∈ script.instructions, op.fRet = true := by
    intro op hMem
    rw [hOps] at hMem
    simp only [List.mem_cons, List.mem_append, List.not_mem_nil, or_false] at hMem
    rcases hMem with rfl | hKey | rfl | rfl
    · exact hM.1
    · exact (hKeys op hKey).1.1
    · exact hN.1
    · exact hCheck.1
  have hKeySizes : (keyOps.map fun op => 5 + op.vchRet.length).sum ≤ keyOps.length * 125 := by
    rw [← List.length_map (f := fun op : GetOpResult => 5 + op.vchRet.length), ← smul_eq_mul]
    apply List.sum_le_card_nsmul
    intro n hMem
    obtain ⟨op, hOp, rfl⟩ := List.mem_map.mp hMem
    have hSize := (hKeys op hOp).2
    simp only [hasKeySize, Bool.and_eq_true, decide_eq_true_eq] at hSize
    omega
  have hLength := length_le_of_instructions hRet
  rw [hOps] at hLength
  simp only [List.map_cons, List.map_append, List.map_nil, List.sum_cons, List.sum_append,
    List.sum_nil, hM.2.1, hN.2.1, hCheck.2.2, List.length_nil] at hLength
  omega

/-- The instructions of a payment to the hash of a script. -/
theorem instructions_of_scripthash
    {script : CScript} (h : script.isPayToScriptHash = true) :
    ∃ hashOp pushOp equalOp, script.instructions = [hashOp, pushOp, equalOp] ∧
      IsOpcode OP_HASH160 hashOp ∧ (IsPush pushOp ∧ pushOp.vchRet = (script.drop 2).take 20) ∧
      IsOpcode OP_EQUAL equalOp := by
  unfold isPayToScriptHash at h
  rcases script with _ | ⟨opcode, _ | ⟨size, rest⟩⟩
  · exact absurd h (by decide)
  · exact absurd h (by simp)
  · simp only [List.length_cons, Bool.and_eq_true, decide_eq_true_eq,
      List.getElem?_cons_zero, List.getElem?_cons_succ, Option.some.injEq] at h
    obtain ⟨⟨⟨hLength, rfl⟩, rfl⟩, hEqual⟩ := h
    obtain ⟨hLast, hByte⟩ := List.getElem?_eq_some_iff.mp hEqual
    have hTail : rest.drop 20 = [OP_EQUAL] := by
      rw [List.drop_eq_getElem_cons hLast, hByte, List.drop_eq_nil_of_le (by omega)]
    have hHash : (rest.take 20).length = 20 := by
      rw [List.length_take]
      omega
    have hPush : 0x14 :: rest = pushBytes [] (rest.take 20) ++ [OP_EQUAL] := by
      have hShort : (rest.take 20).length < OP_PUSHDATA1.toNat := by
        rw [hHash]
        decide
      rw [pushBytes, if_pos hShort, hHash, List.nil_append, List.append_assoc, ← hTail,
        List.take_append_drop]
      rfl
    obtain ⟨pushOpcode, hPushOp, hGet⟩ :=
      getOp2_pushBytes (rest.take 20) (by omega) [OP_EQUAL]
    refine ⟨⟨true, OP_HASH160, [], 0x14 :: rest⟩, ⟨true, pushOpcode, rest.take 20, [OP_EQUAL]⟩,
      ⟨true, OP_EQUAL, [], []⟩, ?_, ⟨rfl, rfl, rfl⟩, ⟨⟨rfl, hPushOp⟩, rfl⟩, ⟨rfl, rfl, rfl⟩⟩
    have hFirst : getOp2 (OP_HASH160 :: 0x14 :: rest) =
        ⟨true, OP_HASH160, [], 0x14 :: rest⟩ := by
      rw [getOp2, if_neg (by decide)]
    rw [instructions_eq (by simp), hFirst, hPush,
      instructions_eq (by simp [pushBytes_ne_nil]), hGet]
    rfl

/-- Only a pay-to-script-hash output is of that type. -/
theorem solver_scripthash_iff
    {script : CScript} {whichType : TxnOutType} {vSolutions : List Valtype}
    (h : solver script = some (whichType, vSolutions)) :
    whichType = TX_SCRIPTHASH ↔ script.isPayToScriptHash = true := by
  unfold solver at h
  by_cases hHash : script.isPayToScriptHash = true
  · rw [if_pos hHash] at h
    exact ⟨fun _ => hHash, fun _ => (Prod.mk.inj (Option.some.inj h)).1.symm⟩
  · rw [if_neg hHash] at h
    obtain ⟨template, hMem, -⟩ := scanTemplates_spec h
    constructor
    · rintro rfl
      exact absurd hMem (by simp [mTemplates])
    · exact fun hIs => absurd hIs hHash

/-! ## Matching signatures with keys -/

theorem matchSigs_congr
    {check check' : Valtype → Valtype → Option Bool} {sigs : List Valtype} (keys : List Valtype)
    (h : ∀ vchSig ∈ sigs, ∀ vchPubKey, check vchSig vchPubKey = check' vchSig vchPubKey) :
    matchSigs check sigs keys = matchSigs check' sigs keys := by
  induction keys generalizing sigs with
  | nil => cases sigs <;> rfl
  | cons vchPubKey keys ih =>
      cases sigs with
      | nil => rfl
      | cons vchSig sigs =>
          unfold matchSigs
          rw [h vchSig List.mem_cons_self]
          congr 1
          funext fOk
          dsimp only
          split_ifs
          · rfl
          · exact ih fun s hs => h s (List.mem_cons_of_mem _ hs)
          · rfl
          · exact ih h

/-- Where badly encoded keys make the script fail, the loop succeeds exactly when
the signatures can be matched, in order, with keys before the first of them. -/
theorem matchSigs_iff
    {encoded : Valtype → Bool} {accepts : Valtype → Valtype → Bool} {sigs keys : List Valtype}
    (hLength : sigs.length ≤ keys.length) :
    matchSigs (fun vchSig vchPubKey =>
        if encoded vchPubKey then some (accepts vchSig vchPubKey) else none) sigs keys =
        some true ↔
      List.SublistForall₂ (fun vchSig vchPubKey => accepts vchSig vchPubKey = true) sigs
        (keys.takeWhile encoded) := by
  induction keys generalizing sigs with
  | nil =>
      have hNil : sigs = [] := by simpa using hLength
      rw [hNil]
      exact ⟨fun _ => List.SublistForall₂.nil, fun _ => rfl⟩
  | cons vchPubKey keys ih =>
      cases sigs with
      | nil => exact ⟨fun _ => List.SublistForall₂.nil, fun _ => rfl⟩
      | cons vchSig sigs =>
          simp only [List.length_cons, Nat.add_le_add_iff_right] at hLength
          unfold matchSigs
          by_cases hEncoded : encoded vchPubKey = true
          · rw [if_pos hEncoded, Option.bind_some, List.takeWhile_cons_of_pos hEncoded]
            by_cases hAccepts : accepts vchSig vchPubKey = true
            · have hRest : ¬ sigs.length > keys.length := by omega
              rw [hAccepts, if_pos rfl, if_neg hRest, ih hLength]
              exact (sublistForall₂_cons_of_rel (by simpa using hAccepts)).symm
            · rw [if_neg hAccepts, sublistForall₂_cons_of_not_rel (by simpa using hAccepts)]
              by_cases hMany : (vchSig :: sigs).length > keys.length
              · rw [if_pos hMany]
                constructor
                · intro h
                  exact absurd h (by simp)
                · intro h
                  have hShort := sublistForall₂_length_le h
                  have hTake := (List.takeWhile_sublist encoded (l := keys)).length_le
                  omega
              · rw [if_neg hMany]
                exact ih (by omega)
          · rw [if_neg hEncoded, List.takeWhile_cons_of_neg hEncoded]
            constructor
            · intro h
              exact absurd h (by simp)
            · intro h
              exact absurd h not_sublistForall₂_cons_nil

/-! ## Running them -/

section Run

variable {P : ScriptPrimitives} {r : Rules} {m : Machine} {op : GetOpResult}

theorem step_isOpcode
    {opcode : Opcodetype} (hOp : IsOpcode opcode op) (hLarge : opcode > OP_16)
    (hEnabled : isDisabled opcode = false) (hCount : m.nOpCount ≤ 200) (hExec : m.vfExec = []) :
    step P r m op =
      (exec P r op { m with nOpCount := m.nOpCount + 1 }).bind withinStackLimit := by
  obtain ⟨hRet, hOpcode, hData⟩ := hOp
  have hNotPush : op.opcodeRet > OP_PUSHDATA4 := by
    rw [hOpcode]
    exact UInt8.lt_trans (by decide) hLarge
  have hCounted : countOp op m = { m with nOpCount := m.nOpCount + 1 } := by
    rw [countOp, hOpcode, if_pos hLarge]
  rw [step_opcode hRet hData hNotPush (by rw [hOpcode]; exact hEnabled) (Or.inr hCount) hExec,
    hCounted]

theorem step_smallInteger
    {n : ℕ} (hr : r.Standard) (hOp : IsSmallInteger n op) (hExec : m.vfExec = []) :
    step P r m op = withinStackLimit (m.push (CBigNum.getvch n)) := by
  obtain ⟨hRet, hData, hLow, hHigh, hDecode⟩ := hOp
  have hLow' := UInt8.le_iff_toNat_le.mp hLow
  have h1 : OP_1.toNat = 81 := rfl
  have hNotPush : op.opcodeRet > OP_PUSHDATA4 := by
    have h4 : OP_PUSHDATA4.toNat = 78 := rfl
    rw [gt_iff_lt, UInt8.lt_iff_toNat_lt]
    omega
  have hNotZero : op.opcodeRet ≠ OP_0 := by
    intro hEq
    rw [hEq] at hLow'
    exact absurd hLow' (by decide)
  have hValue : (op.opcodeRet.toNat : ℤ) - ((OP_1.toNat : ℤ) - 1) = n := by
    rw [decodeOP_N, if_neg hNotZero, h1] at hDecode
    rw [h1]
    omega
  have hCounted : countOp op m = m := by
    rw [countOp, if_neg (UInt8.not_lt.mpr hHigh)]
  rw [step_opcode hRet hData hNotPush (not_isDisabled_of_le hHigh) (Or.inl hHigh) hExec, hCounted,
    exec_number ⟨hLow, hHigh⟩, hr.number, hValue]
  rfl

/-- A payment to a key asks for one signature check. -/
theorem evalWith_pubkey
    (hr : r.Standard) {script : CScript} {keyOp checkOp : GetOpResult}
    (hOps : script.instructions = [keyOp, checkOp]) (hKey : IsKeyPush keyOp)
    (hCheck : IsOpcode OP_CHECKSIG checkOp) (hLength : script.length ≤ 10000)
    (vchSig : Valtype) :
    evalWith P r [vchSig] script =
      (r.checkSig vchSig keyOp.vchRet (scriptCodeWithout script [vchSig])).map
        fun fSuccess => [boolVch fSuccess] := by
  unfold evalWith
  rw [if_neg (by omega), hOps, List.foldlM_cons,
    step_push hr hKey.1 hKey.length_le rfl,
    withinStackLimit_eq (by simp [Machine.push, Machine.start])]
  change (List.foldlM (step P r) _ [checkOp]).bind _ = _
  rw [List.foldlM_cons, step_isOpcode hCheck (by decide) (by decide)
      (by simp [Machine.push, Machine.start]) rfl,
    exec_checksig hCheck.2.1]
  cases hSig : r.checkSig vchSig keyOp.vchRet (scriptCodeWithout script [vchSig]) with
  | none =>
      simp [checkSigOp, Machine.push, Machine.start, hSig]
  | some fSuccess =>
      simp [checkSigOp, Machine.push, Machine.start, hSig, Machine.result, withinStackLimit,
        OP_CHECKSIG, OP_CHECKSIGVERIFY]

/-- A payment to the hash of a key asks for the key and for one check. -/
theorem evalWith_pubkeyhash
    (hr : r.Standard) {script : CScript}
    {dupOp hashOp pushOp equalOp checkOp : GetOpResult}
    (hOps : script.instructions = [dupOp, hashOp, pushOp, equalOp, checkOp])
    (hDup : IsOpcode OP_DUP dupOp) (hHash : IsOpcode OP_HASH160 hashOp)
    (hPush : IsPush pushOp) (hSize : pushOp.vchRet.length = 20)
    (hEqual : IsOpcode OP_EQUALVERIFY equalOp) (hCheck : IsOpcode OP_CHECKSIG checkOp)
    (hLength : script.length ≤ 10000) (vchPubKey vchSig : Valtype) :
    evalWith P r [vchPubKey, vchSig] script =
      if toBytesLE 20 (P.hash160 vchPubKey) = pushOp.vchRet then
        (r.checkSig vchSig vchPubKey (scriptCodeWithout script [vchSig])).map
          fun fSuccess => [boolVch fSuccess]
      else none := by
  have hSmall : pushOp.vchRet.length ≤ MAX_SCRIPT_ELEMENT_SIZE := by
    unfold MAX_SCRIPT_ELEMENT_SIZE
    omega
  have hDupStep : step P r (Machine.start [vchPubKey, vchSig] script) dupOp =
      some ⟨[vchPubKey, vchPubKey, vchSig], [], [], script, 1⟩ := by
    rw [step_isOpcode hDup (by decide) (by decide) (by simp [Machine.start]) rfl,
      exec_dup hDup.2.1]
    rfl
  have hHashStep : step P r ⟨[vchPubKey, vchPubKey, vchSig], [], [], script, 1⟩ hashOp =
      some ⟨[toBytesLE 20 (P.hash160 vchPubKey), vchPubKey, vchSig], [], [], script, 2⟩ := by
    rw [step_isOpcode hHash (by decide) (by decide) (by simp) rfl, exec_hash160 hHash.2.1]
    rfl
  have hPushStep : step P r
      ⟨[toBytesLE 20 (P.hash160 vchPubKey), vchPubKey, vchSig], [], [], script, 2⟩ pushOp =
      some ⟨[pushOp.vchRet, toBytesLE 20 (P.hash160 vchPubKey), vchPubKey, vchSig], [], [],
        script, 2⟩ := by
    rw [step_push hr hPush hSmall rfl]
    rfl
  have hEqualStep : step P r
      ⟨[pushOp.vchRet, toBytesLE 20 (P.hash160 vchPubKey), vchPubKey, vchSig], [], [],
        script, 2⟩ equalOp =
      if toBytesLE 20 (P.hash160 vchPubKey) = pushOp.vchRet then
        some ⟨[vchPubKey, vchSig], [], [], script, 3⟩
      else none := by
    rw [step_isOpcode hEqual (by decide) (by decide) (by simp) rfl,
      exec_equalverify hEqual.2.1]
    by_cases hSame : toBytesLE 20 (P.hash160 vchPubKey) = pushOp.vchRet
    · simp [equal, Machine.result, hSame, withinStackLimit]
    · simp [equal, Machine.result, hSame]
  have hCheckStep : step P r ⟨[vchPubKey, vchSig], [], [], script, 3⟩ checkOp =
      (r.checkSig vchSig vchPubKey (scriptCodeWithout script [vchSig])).map
        fun fSuccess => ⟨[boolVch fSuccess], [], [], script, 4⟩ := by
    rw [step_isOpcode hCheck (by decide) (by decide) (by simp) rfl, exec_checksig hCheck.2.1]
    cases hSig : r.checkSig vchSig vchPubKey (scriptCodeWithout script [vchSig]) with
    | none => simp [checkSigOp, hSig]
    | some fSuccess =>
        simp [checkSigOp, hSig, Machine.result, Machine.push, withinStackLimit, OP_CHECKSIG,
          OP_CHECKSIGVERIFY]
  unfold evalWith
  rw [if_neg (by omega), hOps]
  simp only [List.foldlM_cons, List.foldlM_nil, hDupStep, hHashStep, hPushStep, hEqualStep,
    Option.bind_eq_bind, Option.bind_some]
  by_cases hSame : toBytesLE 20 (P.hash160 vchPubKey) = pushOp.vchRet
  · rw [if_pos hSame, if_pos hSame, Option.bind_some, hCheckStep]
    cases r.checkSig vchSig vchPubKey (scriptCodeWithout script [vchSig]) <;> rfl
  · rw [if_neg hSame, if_neg hSame]
    rfl

/-- A payment to the hash of a script compares the hash of what is on top. -/
theorem evalWith_scripthash
    (hr : r.Standard) {script : CScript} (hHash : script.isPayToScriptHash = true)
    (top : Valtype) {stack : List Valtype} (hMany : stack.length + 2 ≤ 1000) :
    evalWith P r (top :: stack) script =
      some (boolVch (toBytesLE 20 (P.hash160 top) = (script.drop 2).take 20) :: stack) := by
  obtain ⟨hashOp, pushOp, equalOp, hOps, hHashOp, ⟨hPush, hData⟩, hEqual⟩ :=
    instructions_of_scripthash hHash
  have hLength : script.length ≤ 10000 := by
    simp only [isPayToScriptHash, Bool.and_eq_true, decide_eq_true_eq] at hHash
    omega
  have hSmall : pushOp.vchRet.length ≤ MAX_SCRIPT_ELEMENT_SIZE := by
    rw [hData, List.length_take]
    unfold MAX_SCRIPT_ELEMENT_SIZE
    omega
  have hHashStep : step P r (Machine.start (top :: stack) script) hashOp =
      some ⟨toBytesLE 20 (P.hash160 top) :: stack, [], [], script, 1⟩ := by
    rw [step_isOpcode hHashOp (by decide) (by decide) (by simp [Machine.start]) rfl,
      exec_hash160 hHashOp.2.1]
    apply withinStackLimit_eq
    simp [Machine.start]
    omega
  have hPushStep : step P r ⟨toBytesLE 20 (P.hash160 top) :: stack, [], [], script, 1⟩ pushOp =
      some ⟨pushOp.vchRet :: toBytesLE 20 (P.hash160 top) :: stack, [], [], script, 1⟩ := by
    rw [step_push hr hPush hSmall rfl]
    apply withinStackLimit_eq
    simp [Machine.push]
    omega
  have hEqualStep : step P r
      ⟨pushOp.vchRet :: toBytesLE 20 (P.hash160 top) :: stack, [], [], script, 1⟩ equalOp =
      some ⟨boolVch (toBytesLE 20 (P.hash160 top) = pushOp.vchRet) :: stack, [], [], script,
        2⟩ := by
    rw [step_isOpcode hEqual (by decide) (by decide) (by simp) rfl, exec_equal hEqual.2.1]
    apply withinStackLimit_eq
    simp [Machine.push]
    omega
  unfold evalWith
  rw [if_neg (by omega), hOps]
  simp only [List.foldlM_cons, List.foldlM_nil, hHashStep, hPushStep, hEqualStep,
    Option.bind_eq_bind, Option.bind_some]
  rw [hData]
  rfl

theorem intOperand_getvch {n : ℕ} (h : n ≤ 16) :
    CBigNum.intOperand (CBigNum.getvch n) = some (n : ℤ) := by
  have hAll : ∀ i : Fin 17, CBigNum.intOperand (CBigNum.getvch (i.val : ℤ)) = some (i.val : ℤ) := by
    decide +kernel
  exact hAll ⟨n, by omega⟩

theorem takeCounted_eq
    {intOperand : Valtype → Option ℤ} {max : ℕ} {vchCount : Valtype}
    {items rest : List Valtype} (hCount : intOperand vchCount = some (items.length : ℤ))
    (hMax : items.length ≤ max) (hRest : rest ≠ []) :
    takeCounted intOperand max (vchCount :: (items ++ rest)) = some (items, rest) := by
  have hPos : 0 < rest.length := List.length_pos_of_ne_nil hRest
  have hRange : ¬ ((items.length : ℤ) < 0 ∨ (items.length : ℤ) > max) := by omega
  have hEnough : ¬ (((items ++ rest).length : ℤ) < items.length + 1) := by
    rw [List.length_append]
    omega
  rw [takeCounted, hCount, Option.bind_some, if_neg hRange, if_neg hEnough, Int.toNat_natCast,
    List.take_left' rfl, List.drop_left' rfl]

/-- The counts say how the stack divides into keys and signatures. -/
theorem multisigArgs_eq
    (hr : r.Standard) {keys sigs : List Valtype} {nOpCount : ℕ}
    (hCounts : sigs.length ≤ keys.length) (hMany : keys.length ≤ 16)
    (hOps : nOpCount + keys.length ≤ 201) (dummy : Valtype) :
    multisigArgs r nOpCount (CBigNum.getvch keys.length ::
        (keys ++ CBigNum.getvch sigs.length :: (sigs ++ [dummy]))) =
      some ⟨keys, sigs, dummy, []⟩ := by
  unfold multisigArgs
  rw [hr.int, takeCounted_eq (intOperand_getvch (by omega)) (by omega) (by simp),
    Option.bind_some]
  dsimp only
  rw [if_neg (by omega), takeCounted_eq (intOperand_getvch (by omega)) (by omega) (by simp)]
  rfl

theorem exec_checkmultisig_eq
    (hr : r.Standard) {keys sigs : List Valtype} {script : CScript} {nOpCount : ℕ}
    (hOp : op.opcodeRet = OP_CHECKMULTISIG) (hCounts : sigs.length ≤ keys.length)
    (hMany : keys.length ≤ 16) (hOps : nOpCount + keys.length ≤ 201) :
    exec P r op ⟨CBigNum.getvch keys.length ::
        (keys ++ CBigNum.getvch sigs.length :: (sigs ++ [[]])), [], [], script, nOpCount⟩ =
      (matchSigs (fun vchSig vchPubKey =>
          r.checkSig vchSig vchPubKey (scriptCodeWithout script sigs)) sigs keys).map
        fun fSuccess => ⟨[boolVch fSuccess], [], [], script, nOpCount + keys.length⟩ := by
  rw [exec_checkmultisig hOp]
  unfold checkMultisigOp
  dsimp only
  rw [multisigArgs_eq hr hCounts hMany hOps, Option.bind_some]
  dsimp only
  cases matchSigs (fun vchSig vchPubKey =>
      r.checkSig vchSig vchPubKey (scriptCodeWithout script sigs)) sigs keys with
  | none => rfl
  | some fSuccess =>
      simp [hr.dummy, Machine.result, Machine.push, OP_CHECKMULTISIG, OP_CHECKMULTISIGVERIFY]

/-- A multisig script matches the signatures with the keys, the last ones first. -/
theorem evalWith_multisig
    (hr : r.Standard) {script : CScript} {mOp : GetOpResult} {keyOps : List GetOpResult}
    {nOp checkOp : GetOpResult} {sigs : List Valtype}
    (hOps : script.instructions = mOp :: (keyOps ++ [nOp, checkOp]))
    (hM : IsSmallInteger sigs.length mOp) (hKeys : ∀ keyOp ∈ keyOps, IsKeyPush keyOp)
    (hN : IsSmallInteger keyOps.length nOp) (hCheck : IsOpcode OP_CHECKMULTISIG checkOp)
    (hCounts : sigs.length ≤ keyOps.length) (hMany : keyOps.length ≤ 16)
    (hLength : script.length ≤ 10000) :
    evalWith P r (sigs ++ [[]]) script =
      (matchSigs (fun vchSig vchPubKey =>
          r.checkSig vchSig vchPubKey (scriptCodeWithout script sigs))
        sigs (keyOps.map GetOpResult.vchRet).reverse).map fun fSuccess => [boolVch fSuccess] := by
  set keys := (keyOps.map GetOpResult.vchRet).reverse with hKeysDef
  have hKeysLength : keys.length = keyOps.length := by simp [hKeysDef]
  have hMStep : step P r (Machine.start (sigs ++ [[]]) script) mOp =
      some ⟨CBigNum.getvch sigs.length :: (sigs ++ [[]]), [], [], script, 0⟩ := by
    rw [step_smallInteger hr hM rfl]
    apply withinStackLimit_eq
    simp [Machine.push, Machine.start]
    omega
  have hKeysRun : keyOps.foldlM (step P r)
      ⟨CBigNum.getvch sigs.length :: (sigs ++ [[]]), [], [], script, 0⟩ =
      some ⟨keys ++ CBigNum.getvch sigs.length :: (sigs ++ [[]]), [], [], script, 0⟩ := by
    rw [foldlM_pushes hr (fun op hMem => (hKeys op hMem).1)
      (fun op hMem => (hKeys op hMem).length_le) rfl (by simp; omega)]
  have hNStep : step P r
      ⟨keys ++ CBigNum.getvch sigs.length :: (sigs ++ [[]]), [], [], script, 0⟩ nOp =
      some ⟨CBigNum.getvch keys.length ::
        (keys ++ CBigNum.getvch sigs.length :: (sigs ++ [[]])), [], [], script, 0⟩ := by
    rw [step_smallInteger hr hN rfl, hKeysLength]
    apply withinStackLimit_eq
    simp [Machine.push, hKeysLength]
    omega
  have hCheckStep : step P r ⟨CBigNum.getvch keys.length ::
      (keys ++ CBigNum.getvch sigs.length :: (sigs ++ [[]])), [], [], script, 0⟩ checkOp =
      (matchSigs (fun vchSig vchPubKey =>
          r.checkSig vchSig vchPubKey (scriptCodeWithout script sigs)) sigs keys).map
        fun fSuccess => ⟨[boolVch fSuccess], [], [], script, 0 + 1 + keys.length⟩ := by
    rw [step_isOpcode hCheck (by decide) (by decide) (by simp) rfl]
    dsimp only
    rw [exec_checkmultisig_eq hr hCheck.2.1 (by omega) (by omega) (by omega)]
    cases matchSigs (fun vchSig vchPubKey =>
        r.checkSig vchSig vchPubKey (scriptCodeWithout script sigs)) sigs keys <;> rfl
  unfold evalWith
  rw [if_neg (by omega), hOps]
  simp only [List.foldlM_cons, List.foldlM_append, List.foldlM_nil, hMStep, hKeysRun, hNStep,
    hCheckStep, Option.bind_eq_bind, Option.bind_some]
  cases matchSigs (fun vchSig vchPubKey =>
      r.checkSig vchSig vchPubKey (scriptCodeWithout script sigs)) sigs keys <;> rfl

end Run
end SocietyGold
