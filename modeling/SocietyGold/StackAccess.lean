import SocietyGold.EvalScript
import SocietyGold.Support.Guarded

/-!
# The stack accesses of the opcodes

The opcodes once more, with the accesses the two `EvalScript` functions make:
each element is read at its distance from the top, each range is erased or
inserted at, and an access outside the stack is a fault.  The size tests are
those of the source.  Each opcode does what the interpreter's version of it
does, which works on the shape of the stack.
-/

namespace SocietyGold

open Support

/-! ## Stacks -/

/-- `stacktop(-k)`, and `altstacktop(-k)` on the other stack. -/
def stacktop (stack : List Valtype) : ℕ → Guarded Valtype
  | 0 => .error (.fault .outOfRange)
  | k + 1 => access (elementAt stack k)

def popstack : List Valtype → Guarded (List Valtype)
  | [] => .error (.fault .uncaughtException)
  | _ :: stack => .ok stack

/-- `stack.erase(stack.end() - first, stack.end() - last)`. -/
def eraseStack (stack : List Valtype) (first last : ℕ) : Guarded (List Valtype) :=
  if last ≤ first ∧ first ≤ stack.length then .ok (stack.take last ++ stack.drop first)
  else .error (.fault .outOfRange)

/-- `stack.insert(stack.end() - k, vch)`. -/
def insertStack (stack : List Valtype) (k : ℕ) (vch : Valtype) : Guarded (List Valtype) :=
  if k ≤ stack.length then .ok (stack.take k ++ vch :: stack.drop k)
  else .error (.fault .outOfRange)

/-- `swap(stacktop(-i), stacktop(-j))`. -/
def swapStack (stack : List Valtype) (i j : ℕ) : Guarded (List Valtype) := do
  let vch1 ← stacktop stack i
  let vch2 ← stacktop stack j
  .ok ((stack.set (i - 1) vch2).set (j - 1) vch1)

@[simp] theorem stacktop_cons_one (vch : Valtype) (stack : List Valtype) :
    stacktop (vch :: stack) 1 = .ok vch := rfl

@[simp] theorem stacktop_cons_two (vch2 vch1 : Valtype) (stack : List Valtype) :
    stacktop (vch2 :: vch1 :: stack) 2 = .ok vch1 := rfl

@[simp] theorem popstack_cons (vch : Valtype) (stack : List Valtype) :
    popstack (vch :: stack) = .ok stack := rfl

/-- `(int)stack.size()`. -/
def stackSize (stack : List Valtype) : ℤ := (stack.length : ℤ).bmod (2 ^ 32)

theorem stackSize_le (stack : List Valtype) : stackSize stack ≤ stack.length := by
  have hNonneg : (0 : ℤ) ≤ stack.length := Int.natCast_nonneg _
  unfold stackSize
  rw [Int.bmod_def]
  have hMod : (stack.length : ℤ) % ((2 ^ 32 : ℕ) : ℤ) ≤ stack.length := by omega
  split_ifs
  · exact hMod
  · exact le_trans (Int.sub_le_self _ (Int.natCast_nonneg _)) hMod

/-- Stacks whose size an `int` holds. -/
abbrev SizeFitsInt (stack : List Valtype) : Prop := stack.length < 2 ^ 31

theorem stackSize_eq {stack : List Valtype} (h : SizeFitsInt stack) :
    stackSize stack = stack.length := by
  apply Int.bmod_eq_of_le
  · omega
  · have : stack.length < 2 ^ 31 := h
    omega

/-! ## Opcodes that both interpreters treat alike -/

/-- The conditionals and `OP_VERIFY`. -/
def checkedControl (fExec : Bool) (opcode : Opcodetype) (m : Machine) : Guarded Machine :=
  if opcode = OP_IF ∨ opcode = OP_NOTIF then
    if fExec then do
      returnFalseIf (m.stack.length < 1)
      let vch ← stacktop m.stack 1
      let fValue := if opcode = OP_NOTIF then !castToBool vch else castToBool vch
      let stack ← popstack m.stack
      .ok { m with stack := stack, vfExec := fValue :: m.vfExec }
    else .ok { m with vfExec := false :: m.vfExec }
  else if opcode = OP_ELSE then do
    returnFalseIf m.vfExec.isEmpty
    match m.vfExec with
    | [] => .error (.fault .outOfRange)
    | fValue :: vfExec => .ok { m with vfExec := (!fValue) :: vfExec }
  else if opcode = OP_ENDIF then do
    returnFalseIf m.vfExec.isEmpty
    match m.vfExec with
    | [] => .error (.fault .outOfRange)
    | _ :: vfExec => .ok { m with vfExec := vfExec }
  else if opcode = OP_VERIFY then do
    returnFalseIf (m.stack.length < 1)
    let vch ← stacktop m.stack 1
    if castToBool vch then do
      let stack ← popstack m.stack
      .ok { m with stack := stack }
    else .error .returnsFalse
  else .error .returnsFalse

/-- The opcodes that rearrange the stack. -/
def checkedRearrange (opcode : Opcodetype) (stack : List Valtype) : Guarded (List Valtype) :=
  if opcode = OP_2DROP then do
    returnFalseIf (stack.length < 2)
    let stack ← popstack stack
    popstack stack
  else if opcode = OP_2DUP then do
    returnFalseIf (stack.length < 2)
    let vch1 ← stacktop stack 2
    let vch2 ← stacktop stack 1
    .ok (vch2 :: vch1 :: stack)
  else if opcode = OP_3DUP then do
    returnFalseIf (stack.length < 3)
    let vch1 ← stacktop stack 3
    let vch2 ← stacktop stack 2
    let vch3 ← stacktop stack 1
    .ok (vch3 :: vch2 :: vch1 :: stack)
  else if opcode = OP_2OVER then do
    returnFalseIf (stack.length < 4)
    let vch1 ← stacktop stack 4
    let vch2 ← stacktop stack 3
    .ok (vch2 :: vch1 :: stack)
  else if opcode = OP_2ROT then do
    returnFalseIf (stack.length < 6)
    let vch1 ← stacktop stack 6
    let vch2 ← stacktop stack 5
    let stack ← eraseStack stack 6 4
    .ok (vch2 :: vch1 :: stack)
  else if opcode = OP_2SWAP then do
    returnFalseIf (stack.length < 4)
    let stack ← swapStack stack 4 2
    swapStack stack 3 1
  else if opcode = OP_IFDUP then do
    returnFalseIf (stack.length < 1)
    let vch ← stacktop stack 1
    .ok (if castToBool vch then vch :: stack else stack)
  else if opcode = OP_DROP then do
    returnFalseIf (stack.length < 1)
    popstack stack
  else if opcode = OP_DUP then do
    returnFalseIf (stack.length < 1)
    let vch ← stacktop stack 1
    .ok (vch :: stack)
  else if opcode = OP_NIP then do
    returnFalseIf (stack.length < 2)
    eraseStack stack 2 1
  else if opcode = OP_OVER then do
    returnFalseIf (stack.length < 2)
    let vch ← stacktop stack 2
    .ok (vch :: stack)
  else if opcode = OP_ROT then do
    returnFalseIf (stack.length < 3)
    let stack ← swapStack stack 3 2
    swapStack stack 2 1
  else if opcode = OP_SWAP then do
    returnFalseIf (stack.length < 2)
    swapStack stack 2 1
  else if opcode = OP_TUCK then do
    returnFalseIf (stack.length < 2)
    let vch ← stacktop stack 1
    insertStack stack 2 vch
  else .error .returnsFalse

/-- The stack opcodes, the two between the stacks included. -/
def checkedStackOp (opcode : Opcodetype) (m : Machine) : Guarded Machine :=
  if opcode = OP_TOALTSTACK then do
    returnFalseIf (m.stack.length < 1)
    let vch ← stacktop m.stack 1
    let stack ← popstack m.stack
    .ok { m with stack := stack, altstack := vch :: m.altstack }
  else if opcode = OP_FROMALTSTACK then do
    returnFalseIf (m.altstack.length < 1)
    let vch ← stacktop m.altstack 1
    let altstack ← popstack m.altstack
    .ok { m with stack := vch :: m.stack, altstack := altstack }
  else do
    let stack ← checkedRearrange opcode m.stack
    .ok { m with stack := stack }

/-- The last lines of the opcodes that leave a truth value: the value is pushed,
and with a verifying opcode it has to be true and is popped again. -/
def checkedResult (m : Machine) (verify fSuccess : Bool) : Guarded Machine :=
  let m := m.push (boolVch fSuccess)
  if verify then
    if fSuccess then do
      let stack ← popstack m.stack
      .ok { m with stack := stack }
    else .error .returnsFalse
  else .ok m

def checkedEqual (opcode : Opcodetype) (m : Machine) : Guarded Machine := do
  returnFalseIf (m.stack.length < 2)
  let vch1 ← stacktop m.stack 2
  let vch2 ← stacktop m.stack 1
  let stack ← popstack m.stack
  let stack ← popstack stack
  checkedResult { m with stack := stack } (opcode = OP_EQUALVERIFY) (vch1 = vch2)

def checkedSize (r : Rules) (m : Machine) : Guarded Machine := do
  returnFalseIf (m.stack.length < 1)
  let vch ← stacktop m.stack 1
  .ok (m.push (r.ofNumber vch.length))

def checkedHash (P : ScriptPrimitives) (opcode : Opcodetype) (m : Machine) : Guarded Machine := do
  returnFalseIf (m.stack.length < 1)
  let vch ← stacktop m.stack 1
  let stack ← popstack m.stack
  .ok { m with stack := hashOf P opcode vch :: stack }

/-! ## Opcodes under the rules -/

/-- The index is a number from the stack, clamped to an `int`. -/
def checkedPickOrRoll (r : Rules) (opcode : Opcodetype) (m : Machine) : Guarded Machine := do
  returnFalseIf (m.stack.length < 2)
  let top ← stacktop m.stack 1
  let n ← answer (r.intOperand top)
  let stack ← popstack m.stack
  returnFalseIf (n < 0 ∨ n ≥ stackSize stack)
  let vch ← stacktop stack (n.toNat + 1)
  let stack ← if opcode = OP_ROLL then eraseStack stack (n.toNat + 1) n.toNat else .ok stack
  .ok { m with stack := vch :: stack }

def checkedUnary (r : Rules) (opcode : Opcodetype) (m : Machine) : Guarded Machine := do
  returnFalseIf (m.stack.length < 1)
  let vch ← stacktop m.stack 1
  let bn ← answer (r.unaryOperand opcode vch)
  let stack ← popstack m.stack
  .ok { m with stack := bn :: stack }

def checkedBinary (r : Rules) (opcode : Opcodetype) (m : Machine) : Guarded Machine := do
  returnFalseIf (m.stack.length < 2)
  let vch1 ← stacktop m.stack 2
  let vch2 ← stacktop m.stack 1
  let bn ← answer (r.binaryOperands opcode vch1 vch2)
  let stack ← popstack m.stack
  let stack ← popstack stack
  let m := { m with stack := bn :: stack }
  if opcode = OP_NUMEQUALVERIFY then do
    let vch ← stacktop m.stack 1
    if castToBool vch then do
      let stack ← popstack m.stack
      .ok { m with stack := stack }
    else .error .returnsFalse
  else .ok m

def checkedWithin (r : Rules) (m : Machine) : Guarded Machine := do
  returnFalseIf (m.stack.length < 3)
  let vch1 ← stacktop m.stack 3
  let vch2 ← stacktop m.stack 2
  let vch3 ← stacktop m.stack 1
  let fValue ← answer (r.withinOperands vch1 vch2 vch3)
  let stack ← popstack m.stack
  let stack ← popstack stack
  let stack ← popstack stack
  .ok { m with stack := boolVch fValue :: stack }

def checkedCheckSig (r : Rules) (opcode : Opcodetype) (m : Machine) : Guarded Machine := do
  returnFalseIf (m.stack.length < 2)
  let vchSig ← stacktop m.stack 2
  let vchPubKey ← stacktop m.stack 1
  let scriptCode := scriptCodeWithout m.pbegincodehash [vchSig]
  let fSuccess ← answer (r.checkSig vchSig vchPubKey scriptCode)
  let stack ← popstack m.stack
  let stack ← popstack stack
  checkedResult { m with stack := stack } (opcode = OP_CHECKSIGVERIFY) fSuccess

/-! ## They follow the interpreter -/

section Agreement

variable (opcode : Opcodetype) (m : Machine)

/-- One test and what it guards. -/
theorem ite_eq_answer
    {α : Type} {c : Prop} [Decidable c] {x y : Guarded α} {o o' : Option α}
    (hThen : x = answer o) (hElse : y = answer o') :
    (if c then x else y) = answer (if c then o else o') := by
  by_cases h : c
  · rw [if_pos h, if_pos h, hThen]
  · rw [if_neg h, if_neg h, hElse]

theorem checkedControl_eq (fExec : Bool) :
    checkedControl fExec opcode m = answer (control fExec opcode m) := by
  unfold checkedControl control
  apply ite_eq_answer
  · apply ite_eq_answer
    · rcases m with ⟨_ | ⟨vch, s⟩, altstack, vfExec, code, nOpCount⟩ <;> rfl
    · rfl
  apply ite_eq_answer
  · rcases m with ⟨s, altstack, _ | ⟨fValue, vfExec⟩, code, nOpCount⟩ <;> rfl
  apply ite_eq_answer
  · rcases m with ⟨s, altstack, _ | ⟨fValue, vfExec⟩, code, nOpCount⟩ <;> rfl
  apply ite_eq_answer
  · rcases m with ⟨_ | ⟨vch, s⟩, altstack, vfExec, code, nOpCount⟩
    · rfl
    · exact ite_eq_answer rfl rfl
  · rfl

theorem checkedRearrange_eq (stack : List Valtype) :
    checkedRearrange opcode stack = answer (rearrange opcode stack) := by
  unfold checkedRearrange rearrange
  apply ite_eq_answer
  · rcases stack with _ | ⟨x2, _ | ⟨x1, s⟩⟩ <;> rfl
  apply ite_eq_answer
  · rcases stack with _ | ⟨x2, _ | ⟨x1, s⟩⟩ <;> rfl
  apply ite_eq_answer
  · rcases stack with _ | ⟨x3, _ | ⟨x2, _ | ⟨x1, s⟩⟩⟩ <;> rfl
  apply ite_eq_answer
  · rcases stack with _ | ⟨x4, _ | ⟨x3, _ | ⟨x2, _ | ⟨x1, s⟩⟩⟩⟩ <;> rfl
  apply ite_eq_answer
  · rcases stack with _ | ⟨x6, _ | ⟨x5, _ | ⟨x4, _ | ⟨x3, _ | ⟨x2, _ | ⟨x1, s⟩⟩⟩⟩⟩⟩ <;> rfl
  apply ite_eq_answer
  · rcases stack with _ | ⟨x4, _ | ⟨x3, _ | ⟨x2, _ | ⟨x1, s⟩⟩⟩⟩ <;> rfl
  apply ite_eq_answer
  · rcases stack with _ | ⟨x, s⟩ <;> rfl
  apply ite_eq_answer
  · rcases stack with _ | ⟨x, s⟩ <;> rfl
  apply ite_eq_answer
  · rcases stack with _ | ⟨x, s⟩ <;> rfl
  apply ite_eq_answer
  · rcases stack with _ | ⟨x2, _ | ⟨x1, s⟩⟩ <;> rfl
  apply ite_eq_answer
  · rcases stack with _ | ⟨x2, _ | ⟨x1, s⟩⟩ <;> rfl
  apply ite_eq_answer
  · rcases stack with _ | ⟨x3, _ | ⟨x2, _ | ⟨x1, s⟩⟩⟩ <;> rfl
  apply ite_eq_answer
  · rcases stack with _ | ⟨x2, _ | ⟨x1, s⟩⟩ <;> rfl
  apply ite_eq_answer
  · rcases stack with _ | ⟨x2, _ | ⟨x1, s⟩⟩ <;> rfl
  · rfl

theorem checkedStackOp_eq : checkedStackOp opcode m = answer (stackOp opcode m) := by
  unfold checkedStackOp stackOp
  apply ite_eq_answer
  · rcases m with ⟨_ | ⟨vch, s⟩, altstack, vfExec, code, nOpCount⟩ <;> rfl
  apply ite_eq_answer
  · rcases m with ⟨s, _ | ⟨vch, altstack⟩, vfExec, code, nOpCount⟩ <;> rfl
  · rw [checkedRearrange_eq, answer_map]

theorem checkedResult_eq (verify fSuccess : Bool) :
    checkedResult m verify fSuccess = answer (m.result verify fSuccess) := by
  cases verify <;> cases fSuccess <;> rfl

theorem checkedEqual_eq : checkedEqual opcode m = answer (equal opcode m) := by
  rcases m with ⟨_ | ⟨vch2, _ | ⟨vch1, s⟩⟩, altstack, vfExec, code, nOpCount⟩
  · rfl
  · rfl
  · exact checkedResult_eq _ _ _

theorem checkedHash_eq (P : ScriptPrimitives) :
    checkedHash P opcode m = answer (hashTop P opcode m) := by
  rcases m with ⟨_ | ⟨vch, s⟩, altstack, vfExec, code, nOpCount⟩ <;> rfl

variable (r : Rules)

theorem checkedUnary_eq : checkedUnary r opcode m = answer (unaryOp r opcode m) := by
  rcases m with ⟨_ | ⟨vch, s⟩, altstack, vfExec, code, nOpCount⟩
  · rfl
  · exact (answer_map (r.unaryOperand opcode vch) _).symm

theorem checkedBinary_eq : checkedBinary r opcode m = answer (binaryOp r opcode m) := by
  rcases m with ⟨_ | ⟨vch2, _ | ⟨vch1, s⟩⟩, altstack, vfExec, code, nOpCount⟩
  · rfl
  · rfl
  · have hTest : returnFalseIf ((vch2 :: vch1 :: s).length < 2) = .ok () := rfl
    simp only [checkedBinary, binaryOp, hTest, stacktop_cons_one, stacktop_cons_two,
      popstack_cons, ok_bind, answer_bind]
    apply bind_congr
    intro bn
    exact ite_eq_answer (ite_eq_answer rfl rfl) rfl

theorem checkedWithin_eq : checkedWithin r m = answer (within r m) := by
  rcases m with ⟨_ | ⟨vch3, _ | ⟨vch2, _ | ⟨vch1, s⟩⟩⟩, altstack, vfExec, code, nOpCount⟩
  · rfl
  · rfl
  · rfl
  · exact (answer_map (r.withinOperands vch1 vch2 vch3) _).symm

theorem checkedCheckSig_eq : checkedCheckSig r opcode m = answer (checkSigOp r opcode m) := by
  rcases m with ⟨_ | ⟨vchPubKey, _ | ⟨vchSig, s⟩⟩, altstack, vfExec, code, nOpCount⟩
  · rfl
  · rfl
  · have hTest : returnFalseIf ((vchPubKey :: vchSig :: s).length < 2) = .ok () := rfl
    simp only [checkedCheckSig, checkSigOp, hTest, stacktop_cons_one, stacktop_cons_two,
      popstack_cons, ok_bind, answer_bind]
    apply bind_congr
    intro fSuccess
    exact checkedResult_eq _ _ _

/-- The elements the index reaches. -/
theorem stacktop_of_getElem? {stack : List Valtype} {n : ℕ} {vch : Valtype}
    (h : stack[n]? = some vch) : stacktop stack (n + 1) = .ok vch := by
  rw [stacktop, elementAt_eq_ok.mpr h]
  rfl

theorem eraseStack_of_lt {stack : List Valtype} {n : ℕ} (h : n < stack.length) :
    eraseStack stack (n + 1) n = .ok (stack.eraseIdx n) := by
  rw [eraseStack, if_pos ⟨Nat.le_succ n, h⟩, List.eraseIdx_eq_take_drop_succ]

/-- An index that passed the test is within the stack, whatever the cast made of
the size. -/
theorem checkedPickOrRoll_mirrors :
    Mirrors (SizeFitsInt m.stack) (checkedPickOrRoll r opcode m) (pickOrRoll r opcode m) := by
  rcases m with ⟨_ | ⟨top, _ | ⟨x, s⟩⟩, altstack, vfExec, code, nOpCount⟩
  · exact mirrors_of_eq rfl
  · exact mirrors_of_eq rfl
  · have hTest : ¬ (top :: x :: s).length < 2 := by simp
    simp only [checkedPickOrRoll, pickOrRoll, hTest, stacktop_cons_one, popstack_cons, ok_bind,
      if_false]
    generalize x :: s = stack
    have hSize := stackSize_le stack
    apply Mirrors.answer_bind
    · intro hNone _
      rw [hNone, Option.bind_none]
    · intro n hSome
      rw [hSome, Option.bind_some]
      apply Mirrors.test
      · intro hRange hFits
        have hFits' : SizeFitsInt stack := Nat.lt_of_succ_lt hFits
        rw [stackSize_eq hFits'] at hRange
        rw [if_pos hRange]
      · intro hRange
        have hIndex : n.toNat < stack.length := by omega
        have hRange' : ¬ (n < 0 ∨ n ≥ stack.length) := by omega
        rw [if_neg hRange', stacktop_of_getElem? (List.getElem?_eq_getElem hIndex), ok_bind,
          eraseStack_of_lt hIndex, List.getElem?_eq_getElem hIndex]
        apply mirrors_of_eq
        by_cases hRoll : opcode = OP_ROLL
        · rw [if_pos hRoll]
          simp only [if_pos hRoll]
          rfl
        · rw [if_neg hRoll]
          simp only [if_neg hRoll]
          rfl

end Agreement

end SocietyGold
