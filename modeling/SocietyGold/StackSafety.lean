import SocietyGold.MultisigLoop

/-!
# Script execution stays within its stacks

Both interpreters and both script verifications with the stack accesses they
make.  The size test before each opcode is enough for it, so no element that is
not there is read, popped, erased or inserted at.  A verification that comes to
the redeem script of a pay-to-script-hash output has it: the script public key
hashed it.
-/

namespace SocietyGold

open Support

/-! ## The interpreter with its stack accesses -/

/-- The switch over the opcodes. -/
def checkedExec (P : ScriptPrimitives) (r : Rules) (op : GetOpResult) (m : Machine) :
    Guarded Machine :=
  let opcode := op.opcodeRet
  if opcode = OP_1NEGATE ∨ (OP_1 ≤ opcode ∧ opcode ≤ OP_16) then
    .ok (m.push (r.ofNumber ((opcode.toNat : ℤ) - ((OP_1.toNat : ℤ) - 1))))
  else if opcode = OP_NOP then .ok m
  else if OP_NOP1 ≤ opcode ∧ opcode ≤ OP_NOP10 then
    (if r.acceptsNops then .ok m else .error .returnsFalse)
  else if OP_IF ≤ opcode ∧ opcode ≤ OP_VERIFY then checkedControl m.fExec opcode m
  else if opcode = OP_DEPTH then .ok (m.push (r.ofNumber m.stack.length))
  else if opcode = OP_PICK ∨ opcode = OP_ROLL then checkedPickOrRoll r opcode m
  else if OP_TOALTSTACK ≤ opcode ∧ opcode ≤ OP_TUCK then checkedStackOp opcode m
  else if opcode = OP_SIZE then checkedSize r m
  else if opcode = OP_EQUAL ∨ opcode = OP_EQUALVERIFY then checkedEqual opcode m
  else if OP_1ADD ≤ opcode ∧ opcode ≤ OP_0NOTEQUAL then checkedUnary r opcode m
  else if OP_ADD ≤ opcode ∧ opcode ≤ OP_MAX then checkedBinary r opcode m
  else if opcode = OP_WITHIN then checkedWithin r m
  else if OP_RIPEMD160 ≤ opcode ∧ opcode ≤ OP_HASH256 then checkedHash P opcode m
  else if opcode = OP_CODESEPARATOR then .ok { m with pbegincodehash := op.rest }
  else if opcode = OP_CHECKSIG ∨ opcode = OP_CHECKSIGVERIFY then checkedCheckSig r opcode m
  else if opcode = OP_CHECKMULTISIG ∨ opcode = OP_CHECKMULTISIGVERIFY then
    checkedMultisig r opcode m
  else .error .returnsFalse

def checkedDispatch (P : ScriptPrimitives) (r : Rules) (op : GetOpResult) (m : Machine) :
    Guarded Machine :=
  if m.fExec ∧ op.opcodeRet ≤ OP_PUSHDATA4 then
    if r.acceptsPush op.vchRet op.opcodeRet then .ok (m.push op.vchRet) else .error .returnsFalse
  else if m.fExec ∨ (OP_IF ≤ op.opcodeRet ∧ op.opcodeRet ≤ OP_ENDIF) then checkedExec P r op m
  else .ok m

/-- One round of the loop. -/
def checkedStep (P : ScriptPrimitives) (r : Rules) (m : Machine) (op : GetOpResult) :
    Guarded Machine := do
  returnFalseIf (op.fRet = false)
  returnFalseIf (op.vchRet.length > MAX_SCRIPT_ELEMENT_SIZE)
  returnFalseIf (op.opcodeRet > OP_16 ∧ m.nOpCount + 1 > 201)
  returnFalseIf (isDisabled op.opcodeRet)
  let m ← checkedDispatch P r op (countOp op m)
  returnFalseIf (m.stack.length + m.altstack.length > 1000)
  .ok m

/-- `EvalScript` under the rules of one of the two. -/
def checkedEval (P : ScriptPrimitives) (r : Rules) (stack : List Valtype) (script : CScript) :
    Guarded (List Valtype) := do
  returnFalseIf (script.length > 10000)
  let m ← script.instructions.foldlM (checkedStep P r) (Machine.start stack script)
  returnFalseIf (m.vfExec ≠ [])
  .ok m.stack

section Eval

variable (P : ScriptPrimitives) (r : Rules)

theorem checkedExec_mirrors (op : GetOpResult) (m : Machine) :
    Mirrors (SizeFitsInt m.stack) (checkedExec P r op m) (exec P r op m) := by
  unfold checkedExec exec
  dsimp only
  apply Mirrors.ite
  · exact fun _ => mirrors_of_eq rfl
  intro _
  apply Mirrors.ite
  · exact fun _ => mirrors_of_eq rfl
  intro _
  apply Mirrors.ite
  · exact fun _ => Mirrors.ite (fun _ => mirrors_of_eq rfl) fun _ => mirrors_of_eq rfl
  intro _
  apply Mirrors.ite
  · exact fun _ => mirrors_of_eq (checkedControl_eq _ _ _)
  intro _
  apply Mirrors.ite
  · exact fun _ => mirrors_of_eq rfl
  intro _
  apply Mirrors.ite
  · exact fun _ => checkedPickOrRoll_mirrors _ _ _
  intro _
  apply Mirrors.ite
  · exact fun _ => mirrors_of_eq (checkedStackOp_eq _ _)
  intro _
  apply Mirrors.ite
  · intro _
    rcases m with ⟨_ | ⟨vch, s⟩, altstack, vfExec, code, nOpCount⟩ <;> exact mirrors_of_eq rfl
  intro _
  apply Mirrors.ite
  · exact fun _ => mirrors_of_eq (checkedEqual_eq _ _)
  intro _
  apply Mirrors.ite
  · exact fun _ => mirrors_of_eq (checkedUnary_eq _ _ _)
  intro _
  apply Mirrors.ite
  · exact fun _ => mirrors_of_eq (checkedBinary_eq _ _ _)
  intro _
  apply Mirrors.ite
  · exact fun _ => mirrors_of_eq (checkedWithin_eq _ _)
  intro _
  apply Mirrors.ite
  · exact fun _ => mirrors_of_eq (checkedHash_eq _ _ _)
  intro _
  apply Mirrors.ite
  · exact fun _ => mirrors_of_eq rfl
  intro _
  apply Mirrors.ite
  · exact fun _ => mirrors_of_eq (checkedCheckSig_eq _ _ _)
  intro _
  apply Mirrors.ite
  · exact fun _ => checkedMultisig_mirrors _ _ _
  · exact fun _ => mirrors_of_eq rfl

theorem countOp_stack (op : GetOpResult) (m : Machine) : (countOp op m).stack = m.stack := by
  unfold countOp
  split_ifs <;> rfl

theorem checkedDispatch_mirrors (op : GetOpResult) (m : Machine) :
    Mirrors (SizeFitsInt m.stack) (checkedDispatch P r op m) (dispatch P r op m) := by
  apply Mirrors.ite
  · exact fun _ => Mirrors.ite (fun _ => mirrors_of_eq rfl) fun _ => mirrors_of_eq rfl
  intro _
  apply Mirrors.ite
  · exact fun _ => checkedExec_mirrors P r op m
  · exact fun _ => mirrors_of_eq rfl

theorem checkedStep_mirrors (m : Machine) (op : GetOpResult) :
    Mirrors (SizeFitsInt m.stack) (checkedStep P r m op) (step P r m op) := by
  unfold checkedStep step
  apply Mirrors.guard
  intro _
  apply Mirrors.guard
  intro _
  apply Mirrors.guard
  intro _
  apply Mirrors.guard
  intro _
  have hDispatch := checkedDispatch_mirrors P r op (countOp op m)
  rw [countOp_stack] at hDispatch
  apply hDispatch.bind (q := fun _ => True)
  · intro m'
    apply Mirrors.guard
    exact fun _ => mirrors_of_eq rfl
  · exact fun _ _ _ => trivial

/-- After a round the two stacks have at most 1000 elements. -/
theorem step_sizeFitsInt
    {m m' : Machine} {op : GetOpResult} (h : step P r m op = some m') : SizeFitsInt m'.stack := by
  unfold step at h
  split_ifs at h
  obtain ⟨m, -, hLimit⟩ := Option.bind_eq_some_iff.mp h
  split_ifs at hLimit with hMany
  obtain rfl := Option.some.inj hLimit
  have hFew : m.stack.length + m.altstack.length ≤ 1000 := Nat.le_of_not_lt hMany
  show m.stack.length < 2 ^ 31
  omega

theorem checkedEval_mirrors (stack : List Valtype) (script : CScript) :
    Mirrors (SizeFitsInt stack) (checkedEval P r stack script) (evalWith P r stack script) := by
  unfold checkedEval evalWith
  apply Mirrors.guard
  intro _
  have hLoop := Mirrors.foldlM (q := fun m : Machine => SizeFitsInt m.stack)
    (checkedStep_mirrors P r) (fun m op m' h => step_sizeFitsInt P r h) script.instructions
    (Machine.start stack script)
  apply hLoop.bind (q := fun _ => True)
  · intro m
    apply Mirrors.guard
    exact fun _ => mirrors_of_eq rfl
  · exact fun _ _ _ => trivial

end Eval

/-! ## The verifications with their stack accesses -/

/-- The part of a verification that takes the redeem script from the stack;
`back()` is the element on top. -/
def checkedRedeemScript (eval : List Valtype → CScript → Guarded (List Valtype))
    (stackCopy : List Valtype) : Guarded Unit := do
  let pubKeySerialized ← stacktop stackCopy 1
  let stackCopy ← popstack stackCopy
  let stackCopy ← eval stackCopy pubKeySerialized
  returnFalseIf stackCopy.isEmpty
  let top ← stacktop stackCopy 1
  returnFalseIf (castToBool top = false)

/-- What both `VerifyScript` functions do. -/
def checkedVerify (eval : List Valtype → CScript → Guarded (List Valtype)) (p2sh : Bool)
    (scriptSig scriptPubKey : CScript) : Guarded Unit := do
  let stackCopy ← eval [] scriptSig
  let stack ← eval stackCopy scriptPubKey
  returnFalseIf stack.isEmpty
  let top ← stacktop stack 1
  returnFalseIf (castToBool top = false)
  if p2sh && scriptPubKey.isPayToScriptHash then do
    returnFalseIf (!scriptSig.isPushOnly)
    checkedRedeemScript eval stackCopy
  else .ok ()

/-- `VerifyScript` over a checker tests a flag first. -/
def checkedVerifyWithChecker (P : ScriptPrimitives) (scriptSig scriptPubKey : CScript)
    (flags : ℕ) (checker : BaseSignatureChecker) : Guarded Unit := do
  returnFalseIf (hasFlag flags SCRIPT_VERIFY_SIGPUSHONLY && !scriptSig.isPushOnly)
  checkedVerify (checkedEval P (checkerRules P flags checker))
    (hasFlag flags SCRIPT_VERIFY_P2SH) scriptSig scriptPubKey

/-- True is success, false is the answer false. -/
def succeeds (b : Bool) : Option Unit := if b then some () else none

section Verify

variable {P : ScriptPrimitives} {r : Rules}

/-- The hash of an element is demanded of an empty stack. -/
theorem evalWith_scripthash_nil
    {script : CScript} (h : script.isPayToScriptHash = true) : evalWith P r [] script = none := by
  obtain ⟨hashOp, pushOp, equalOp, hOps, hHash, -, -⟩ := instructions_of_scripthash h
  have hStep : step P r (Machine.start [] script) hashOp = none := by
    rw [step_isOpcode hHash (by decide) (by decide) (by simp [Machine.start]) rfl,
      exec_hash160 hHash.2.1]
    rfl
  unfold evalWith
  rw [hOps, List.foldlM_cons, hStep]
  exact ite_self none

theorem foldlM_step_sizeFitsInt
    {ops : List GetOpResult} {m m' : Machine} (hFits : SizeFitsInt m.stack)
    (h : ops.foldlM (step P r) m = some m') : SizeFitsInt m'.stack := by
  induction ops generalizing m with
  | nil =>
      obtain rfl := Option.some.inj h
      exact hFits
  | cons op ops ih =>
      rw [List.foldlM_cons] at h
      obtain ⟨m₁, hStep, hRest⟩ := Option.bind_eq_some_iff.mp h
      exact ih (step_sizeFitsInt P r hStep) hRest

theorem evalWith_sizeFitsInt
    {stack after : List Valtype} {script : CScript} (hFits : SizeFitsInt stack)
    (h : evalWith P r stack script = some after) : SizeFitsInt after := by
  unfold evalWith at h
  split_ifs at h
  obtain ⟨m, hRun, hEnd⟩ := Option.bind_eq_some_iff.mp h
  split_ifs at hEnd
  obtain rfl := Option.some.inj hEnd
  exact foldlM_step_sizeFitsInt hFits hRun

theorem checkedEval_eq {stack : List Valtype} (hFits : SizeFitsInt stack) (script : CScript) :
    checkedEval P r stack script = answer (evalWith P r stack script) :=
  (checkedEval_mirrors P r stack script).eq_answer hFits

theorem checkedRedeemScript_eq
    {stackCopy : List Valtype} (hNe : stackCopy ≠ []) (hFits : SizeFitsInt stackCopy) :
    checkedRedeemScript (checkedEval P r) stackCopy =
      answer (succeeds (evalRedeemScript (evalWith P r) stackCopy)) := by
  obtain ⟨pubKeySerialized, stack, rfl⟩ := List.exists_cons_of_ne_nil hNe
  have hFits' : SizeFitsInt stack := Nat.lt_of_succ_lt hFits
  unfold checkedRedeemScript evalRedeemScript
  rw [stacktop_cons_one, ok_bind, popstack_cons, ok_bind, checkedEval_eq hFits']
  dsimp only
  rcases evalWith P r stack pubKeySerialized with _ | _ | ⟨top, after⟩
  · rfl
  · rfl
  · have hFull : returnFalseIf ((top :: after).isEmpty = true) = .ok () := rfl
    rw [answer, ok_bind, hFull, ok_bind, stacktop_cons_one, ok_bind]
    dsimp only
    cases castToBool top <;> rfl

/-- Wherever the redeem script is taken there is one. -/
theorem checkedVerify_eq (p2sh : Bool) (scriptSig scriptPubKey : CScript) :
    checkedVerify (checkedEval P r) p2sh scriptSig scriptPubKey =
      answer (succeeds (verifyWith (evalWith P r) p2sh scriptSig scriptPubKey)) := by
  have hEmpty : SizeFitsInt ([] : List Valtype) := Nat.two_pow_pos 31
  unfold checkedVerify verifyWith
  rw [checkedEval_eq hEmpty]
  cases hSig : evalWith P r [] scriptSig with
  | none => rfl
  | some stackCopy =>
      have hFits := evalWith_sizeFitsInt hEmpty hSig
      dsimp only
      rw [answer, ok_bind, checkedEval_eq hFits]
      rcases hPub : evalWith P r stackCopy scriptPubKey with _ | _ | ⟨top, stack⟩
      · rfl
      · rfl
      · have hFull : returnFalseIf ((top :: stack).isEmpty = true) = .ok () := rfl
        dsimp only
        rw [answer, ok_bind, hFull, ok_bind, stacktop_cons_one, ok_bind]
        cases castToBool top with
        | false => rfl
        | true =>
            have hTrue : returnFalseIf (true = false) = .ok () := rfl
            have hNotFalse : ¬ (true = false) := Bool.noConfusion
            rw [hTrue, ok_bind, if_neg hNotFalse]
            by_cases hHash : (p2sh && scriptPubKey.isPayToScriptHash) = true
            · have hNe : stackCopy ≠ [] := by
                rintro rfl
                rw [evalWith_scripthash_nil (Bool.and_eq_true_iff.mp hHash).2] at hPub
                exact absurd hPub (by simp)
              rw [if_pos hHash, if_pos hHash]
              cases scriptSig.isPushOnly with
              | false => rfl
              | true => exact checkedRedeemScript_eq hNe hFits
            · rw [if_neg hHash, if_neg hHash]
              rfl

end Verify

/-- No script makes an interpreter or a verification touch an element that is
not on its stack. -/
theorem scripts_touch_present_elements
    (P : ScriptPrimitives) (stack : List Valtype) (script scriptSig scriptPubKey : CScript)
    (flags : ℕ) (fault : Fault) :
    (∀ (cache : CSignatureCache P) (txTo : CTransaction) (nIn : ℕ) (nHashType : ℤ),
      checkedEval P (txRules P cache txTo nIn flags nHashType) stack script ≠
          .error (.fault fault) ∧
        checkedVerify (checkedEval P (txRules P cache txTo nIn flags nHashType)) true
          scriptSig scriptPubKey ≠ .error (.fault fault)) ∧
    ∀ checker : BaseSignatureChecker,
      checkedEval P (checkerRules P flags checker) stack script ≠ .error (.fault fault) ∧
        checkedVerifyWithChecker P scriptSig scriptPubKey flags checker ≠
          .error (.fault fault) := by
  constructor
  · intro cache txTo nIn nHashType
    constructor
    · exact (checkedEval_mirrors P _ stack script).ne_fault fault
    · rw [checkedVerify_eq]
      exact answer_ne_fault _ fault
  · intro checker
    constructor
    · exact (checkedEval_mirrors P _ stack script).ne_fault fault
    · unfold checkedVerifyWithChecker
      rw [checkedVerify_eq]
      by_cases hPush : (hasFlag flags SCRIPT_VERIFY_SIGPUSHONLY && !scriptSig.isPushOnly) = true
      · rw [returnFalseIf, if_pos hPush]
        intro h
        cases h
      · rw [returnFalseIf, if_neg hPush, ok_bind]
        exact answer_ne_fault _ fault

end SocietyGold
