import SocietyGold.ScriptNum

/-!
# The script interpreter

The repository has two functions `EvalScript`.  They walk a script in the same
way and differ in how they read and write numbers, in what they demand of
pushes, reserved opcodes and signatures, and in whom they ask for signature
checks.  This file has the common walk, over the rules that differ, and shows
that a run under more permissive rules does what the run under the stricter
ones did.
-/

namespace SocietyGold

open Support

/-- The primitives that scripts use. -/
structure ScriptPrimitives extends Primitives where
  ripemd160 : Valtype → Valtype
  sha1 : Valtype → Valtype
  sha256 : Valtype → Valtype
  /-- `CPubKey::CheckLowS`. -/
  checkLowS : Valtype → Bool

/-- What the two interpreters do in their own ways.  A rule without a result
makes the script fail. -/
structure Rules where
  /-- The bytes of a number the interpreter puts on the stack. -/
  ofNumber : ℤ → Valtype
  acceptsPush : (vchPushValue : Valtype) → (opcode : Opcodetype) → Bool
  /-- Are the opcodes reserved for upgrades executed? -/
  acceptsNops : Bool
  intOperand : Valtype → Option ℤ
  unaryOperand : Opcodetype → Valtype → Option Valtype
  binaryOperands : Opcodetype → Valtype → Valtype → Option Valtype
  withinOperands : Valtype → Valtype → Valtype → Option Bool
  checkSig : (vchSig vchPubKey : Valtype) → (scriptCode : CScript) → Option Bool
  /-- Is this accepted as the extra element `OP_CHECKMULTISIG` takes? -/
  acceptsDummy : Valtype → Bool

/-- Rules with other signature checks. -/
def Rules.withCheckSig (r : Rules)
    (checkSig : (vchSig vchPubKey : Valtype) → (scriptCode : CScript) → Option Bool) : Rules :=
  { r with checkSig := checkSig }

/-- The state between two instructions.  Both stacks and the conditions have
their top first. -/
structure Machine where
  stack : List Valtype
  altstack : List Valtype
  vfExec : List Bool
  /-- The script from the last code separator on. -/
  pbegincodehash : CScript
  nOpCount : ℕ
  deriving DecidableEq, Repr

namespace Machine

def start (stack : List Valtype) (script : CScript) : Machine := ⟨stack, [], [], script, 0⟩

def push (m : Machine) (vch : Valtype) : Machine := { m with stack := vch :: m.stack }

/-- Are all conditions around the instruction true? -/
def fExec (m : Machine) : Bool := m.vfExec.all id

/-- Leave a truth value, or with a verifying opcode demand it. -/
def result (m : Machine) (verify fSuccess : Bool) : Option Machine :=
  if verify then (if fSuccess then some m else none) else some (m.push (boolVch fSuccess))

end Machine

/-! ## Opcodes that both interpreters treat alike -/

/-- The conditionals and `OP_VERIFY`. -/
def control (fExec : Bool) (opcode : Opcodetype) (m : Machine) : Option Machine :=
  if opcode = OP_IF ∨ opcode = OP_NOTIF then
    if fExec then
      match m.stack with
      | [] => none
      | vch :: stack =>
          let fValue := if opcode = OP_NOTIF then !castToBool vch else castToBool vch
          some { m with stack := stack, vfExec := fValue :: m.vfExec }
    else some { m with vfExec := false :: m.vfExec }
  else if opcode = OP_ELSE then
    match m.vfExec with
    | [] => none
    | fValue :: vfExec => some { m with vfExec := (!fValue) :: vfExec }
  else if opcode = OP_ENDIF then
    match m.vfExec with
    | [] => none
    | _ :: vfExec => some { m with vfExec := vfExec }
  else if opcode = OP_VERIFY then
    match m.stack with
    | [] => none
    | vch :: stack => if castToBool vch then some { m with stack := stack } else none
  else none

/-- What an opcode that only rearranges the stack makes of it. -/
def rearrange (opcode : Opcodetype) (stack : List Valtype) : Option (List Valtype) :=
  if opcode = OP_2DROP then
    match stack with
    | _ :: _ :: s => some s
    | _ => none
  else if opcode = OP_2DUP then
    match stack with
    | x2 :: x1 :: s => some (x2 :: x1 :: x2 :: x1 :: s)
    | _ => none
  else if opcode = OP_3DUP then
    match stack with
    | x3 :: x2 :: x1 :: s => some (x3 :: x2 :: x1 :: x3 :: x2 :: x1 :: s)
    | _ => none
  else if opcode = OP_2OVER then
    match stack with
    | x4 :: x3 :: x2 :: x1 :: s => some (x2 :: x1 :: x4 :: x3 :: x2 :: x1 :: s)
    | _ => none
  else if opcode = OP_2ROT then
    match stack with
    | x6 :: x5 :: x4 :: x3 :: x2 :: x1 :: s => some (x2 :: x1 :: x6 :: x5 :: x4 :: x3 :: s)
    | _ => none
  else if opcode = OP_2SWAP then
    match stack with
    | x4 :: x3 :: x2 :: x1 :: s => some (x2 :: x1 :: x4 :: x3 :: s)
    | _ => none
  else if opcode = OP_IFDUP then
    match stack with
    | x :: s => some (if castToBool x then x :: x :: s else x :: s)
    | _ => none
  else if opcode = OP_DROP then
    match stack with
    | _ :: s => some s
    | _ => none
  else if opcode = OP_DUP then
    match stack with
    | x :: s => some (x :: x :: s)
    | _ => none
  else if opcode = OP_NIP then
    match stack with
    | x2 :: _ :: s => some (x2 :: s)
    | _ => none
  else if opcode = OP_OVER then
    match stack with
    | x2 :: x1 :: s => some (x1 :: x2 :: x1 :: s)
    | _ => none
  else if opcode = OP_ROT then
    match stack with
    | x3 :: x2 :: x1 :: s => some (x1 :: x3 :: x2 :: s)
    | _ => none
  else if opcode = OP_SWAP then
    match stack with
    | x2 :: x1 :: s => some (x1 :: x2 :: s)
    | _ => none
  else if opcode = OP_TUCK then
    match stack with
    | x2 :: x1 :: s => some (x2 :: x1 :: x2 :: s)
    | _ => none
  else none

/-- The stack opcodes, the two between the stacks included. -/
def stackOp (opcode : Opcodetype) (m : Machine) : Option Machine :=
  if opcode = OP_TOALTSTACK then
    match m.stack with
    | [] => none
    | vch :: stack => some { m with stack := stack, altstack := vch :: m.altstack }
  else if opcode = OP_FROMALTSTACK then
    match m.altstack with
    | [] => none
    | vch :: altstack => some { m with stack := vch :: m.stack, altstack := altstack }
  else (rearrange opcode m.stack).map fun stack => { m with stack := stack }

def equal (opcode : Opcodetype) (m : Machine) : Option Machine :=
  match m.stack with
  | vch2 :: vch1 :: stack =>
      { m with stack := stack }.result (opcode = OP_EQUALVERIFY) (vch1 = vch2)
  | _ => none

def hashOf (P : ScriptPrimitives) (opcode : Opcodetype) (vch : Valtype) : Valtype :=
  if opcode = OP_RIPEMD160 then P.ripemd160 vch
  else if opcode = OP_SHA1 then P.sha1 vch
  else if opcode = OP_SHA256 then P.sha256 vch
  else if opcode = OP_HASH160 then toBytesLE 20 (P.hash160 vch)
  else toBytesLE 32 (P.hash vch)

def hashTop (P : ScriptPrimitives) (opcode : Opcodetype) (m : Machine) : Option Machine :=
  match m.stack with
  | [] => none
  | vch :: stack => some { m with stack := hashOf P opcode vch :: stack }

/-! ## Opcodes under the rules -/

def pickOrRoll (r : Rules) (opcode : Opcodetype) (m : Machine) : Option Machine :=
  if m.stack.length < 2 then none
  else
    match m.stack with
    | [] => none
    | top :: stack =>
        (r.intOperand top).bind fun n =>
          if n < 0 ∨ n ≥ stack.length then none
          else
            match stack[n.toNat]? with
            | none => none
            | some vch =>
                let stack := if opcode = OP_ROLL then stack.eraseIdx n.toNat else stack
                some { m with stack := vch :: stack }

def unaryOp (r : Rules) (opcode : Opcodetype) (m : Machine) : Option Machine :=
  match m.stack with
  | [] => none
  | vch :: stack => (r.unaryOperand opcode vch).map fun bn => { m with stack := bn :: stack }

def binaryOp (r : Rules) (opcode : Opcodetype) (m : Machine) : Option Machine :=
  match m.stack with
  | vch2 :: vch1 :: stack =>
      (r.binaryOperands opcode vch1 vch2).bind fun bn =>
        if opcode = OP_NUMEQUALVERIFY then
          if castToBool bn then some { m with stack := stack } else none
        else some { m with stack := bn :: stack }
  | _ => none

def within (r : Rules) (m : Machine) : Option Machine :=
  match m.stack with
  | vch3 :: vch2 :: vch1 :: stack =>
      (r.withinOperands vch1 vch2 vch3).map fun fValue =>
        { m with stack := boolVch fValue :: stack }
  | _ => none

/-- The script that the signatures sign: they cannot sign themselves. -/
def scriptCodeWithout (code : CScript) (vchSigs : List Valtype) : CScript :=
  vchSigs.foldl (fun code vchSig => code.findAndDelete (CScript.pushBytes [] vchSig)) code

def checkSigOp (r : Rules) (opcode : Opcodetype) (m : Machine) : Option Machine :=
  match m.stack with
  | vchPubKey :: vchSig :: stack =>
      (r.checkSig vchSig vchPubKey (scriptCodeWithout m.pbegincodehash [vchSig])).bind
        fun fSuccess =>
          { m with stack := stack }.result (opcode = OP_CHECKSIGVERIFY) fSuccess
  | _ => none

/-- The loop of `OP_CHECKMULTISIG`: each signature is tried with the keys left
until one fits, and the loop stops when there are more signatures than keys. -/
def matchSigs (check : (vchSig vchPubKey : Valtype) → Option Bool) :
    (sigs keys : List Valtype) → Option Bool
  | [], _ => some true
  | _ :: _, [] => some false
  | vchSig :: sigs, vchPubKey :: keys =>
      (check vchSig vchPubKey).bind fun fOk =>
        let sigs := if fOk then sigs else vchSig :: sigs
        if sigs.length > keys.length then some false else matchSigs check sigs keys

/-- The arguments of `OP_CHECKMULTISIG`, keys and signatures with the one on
top first. -/
structure MultisigArgs where
  keys : List Valtype
  sigs : List Valtype
  dummy : Valtype
  stack : List Valtype
  deriving DecidableEq, Repr

/-- Take a count from the stack, and below it as many elements. -/
def takeCounted
    (intOperand : Valtype → Option ℤ) (max : ℕ) (stack : List Valtype) :
    Option (List Valtype × List Valtype) :=
  match stack with
  | [] => none
  | vchCount :: stack =>
      (intOperand vchCount).bind fun nCount =>
        if nCount < 0 ∨ nCount > max then none
        else if stack.length < nCount + 1 then none
        else some (stack.take nCount.toNat, stack.drop nCount.toNat)

def multisigArgs (r : Rules) (nOpCount : ℕ) (stack : List Valtype) : Option MultisigArgs :=
  (takeCounted r.intOperand 20 stack).bind fun (keys, stack) =>
    if nOpCount + keys.length > 201 then none
    else
      (takeCounted r.intOperand keys.length stack).bind fun (sigs, stack) =>
        match stack with
        | [] => none
        | dummy :: stack => some ⟨keys, sigs, dummy, stack⟩

def checkMultisigOp (r : Rules) (opcode : Opcodetype) (m : Machine) : Option Machine :=
  (multisigArgs r m.nOpCount m.stack).bind fun args =>
    let scriptCode := scriptCodeWithout m.pbegincodehash args.sigs
    (matchSigs (fun vchSig vchPubKey => r.checkSig vchSig vchPubKey scriptCode)
      args.sigs args.keys).bind fun fSuccess =>
        if r.acceptsDummy args.dummy then
          { m with stack := args.stack, nOpCount := m.nOpCount + args.keys.length }.result
            (opcode = OP_CHECKMULTISIGVERIFY) fSuccess
        else none

/-! ## The interpreter -/

/-- The switch over the opcodes. -/
def exec (P : ScriptPrimitives) (r : Rules) (op : GetOpResult) (m : Machine) : Option Machine :=
  let opcode := op.opcodeRet
  if opcode = OP_1NEGATE ∨ (OP_1 ≤ opcode ∧ opcode ≤ OP_16) then
    some (m.push (r.ofNumber ((opcode.toNat : ℤ) - ((OP_1.toNat : ℤ) - 1))))
  else if opcode = OP_NOP then some m
  else if OP_NOP1 ≤ opcode ∧ opcode ≤ OP_NOP10 then (if r.acceptsNops then some m else none)
  else if OP_IF ≤ opcode ∧ opcode ≤ OP_VERIFY then control m.fExec opcode m
  else if opcode = OP_DEPTH then some (m.push (r.ofNumber m.stack.length))
  else if opcode = OP_PICK ∨ opcode = OP_ROLL then pickOrRoll r opcode m
  else if OP_TOALTSTACK ≤ opcode ∧ opcode ≤ OP_TUCK then stackOp opcode m
  else if opcode = OP_SIZE then
    match m.stack with
    | [] => none
    | vch :: _ => some (m.push (r.ofNumber vch.length))
  else if opcode = OP_EQUAL ∨ opcode = OP_EQUALVERIFY then equal opcode m
  else if OP_1ADD ≤ opcode ∧ opcode ≤ OP_0NOTEQUAL then unaryOp r opcode m
  else if OP_ADD ≤ opcode ∧ opcode ≤ OP_MAX then binaryOp r opcode m
  else if opcode = OP_WITHIN then within r m
  else if OP_RIPEMD160 ≤ opcode ∧ opcode ≤ OP_HASH256 then hashTop P opcode m
  else if opcode = OP_CODESEPARATOR then some { m with pbegincodehash := op.rest }
  else if opcode = OP_CHECKSIG ∨ opcode = OP_CHECKSIGVERIFY then checkSigOp r opcode m
  else if opcode = OP_CHECKMULTISIG ∨ opcode = OP_CHECKMULTISIGVERIFY then
    checkMultisigOp r opcode m
  else none

/-- Pushes and conditionals aside, an instruction is skipped where a condition
around it is false. -/
def dispatch (P : ScriptPrimitives) (r : Rules) (op : GetOpResult) (m : Machine) :
    Option Machine :=
  if m.fExec ∧ op.opcodeRet ≤ OP_PUSHDATA4 then
    if r.acceptsPush op.vchRet op.opcodeRet then some (m.push op.vchRet) else none
  else if m.fExec ∨ (OP_IF ≤ op.opcodeRet ∧ op.opcodeRet ≤ OP_ENDIF) then exec P r op m
  else some m

/-- Count an instruction towards the limit, if it is none of the pushes. -/
def countOp (op : GetOpResult) (m : Machine) : Machine :=
  if op.opcodeRet > OP_16 then { m with nOpCount := m.nOpCount + 1 } else m

/-- One round of the loop. -/
def step (P : ScriptPrimitives) (r : Rules) (m : Machine) (op : GetOpResult) : Option Machine :=
  if op.fRet = false then none
  else if op.vchRet.length > MAX_SCRIPT_ELEMENT_SIZE then none
  else if op.opcodeRet > OP_16 ∧ m.nOpCount + 1 > 201 then none
  else if isDisabled op.opcodeRet then none
  else
    (dispatch P r op (countOp op m)).bind fun m =>
      if m.stack.length + m.altstack.length > 1000 then none else some m

/-- Evaluate a script: the stack it leaves, if it succeeds. -/
def evalWith (P : ScriptPrimitives) (r : Rules) (stack : List Valtype) (script : CScript) :
    Option (List Valtype) :=
  if script.length > 10000 then none
  else
    (script.instructions.foldlM (step P r) (Machine.start stack script)).bind fun m =>
      if m.vfExec ≠ [] then none else some m.stack

/-! ## More permissive rules -/

/-- The second rules accept whatever the first accept, with the same result. -/
structure Rules.Permits (r r' : Rules) : Prop where
  ofNumber : r.ofNumber = r'.ofNumber
  push : ∀ vch opcode, r.acceptsPush vch opcode = true → r'.acceptsPush vch opcode = true
  nops : r.acceptsNops = true → r'.acceptsNops = true
  int : ∀ vch, LessDefined (r.intOperand vch) (r'.intOperand vch)
  unary : ∀ opcode vch, LessDefined (r.unaryOperand opcode vch) (r'.unaryOperand opcode vch)
  binary : ∀ opcode vch1 vch2,
    LessDefined (r.binaryOperands opcode vch1 vch2) (r'.binaryOperands opcode vch1 vch2)
  within : ∀ vch1 vch2 vch3,
    LessDefined (r.withinOperands vch1 vch2 vch3) (r'.withinOperands vch1 vch2 vch3)
  sig : ∀ vchSig vchPubKey code,
    LessDefined (r.checkSig vchSig vchPubKey code) (r'.checkSig vchSig vchPubKey code)
  dummy : ∀ vch, r.acceptsDummy vch = true → r'.acceptsDummy vch = true

section Permits

variable {P : ScriptPrimitives} {r r' : Rules}

theorem matchSigs_lessDefined
    {check check' : Valtype → Valtype → Option Bool}
    (h : ∀ vchSig vchPubKey, LessDefined (check vchSig vchPubKey) (check' vchSig vchPubKey))
    (sigs keys : List Valtype) :
    LessDefined (matchSigs check sigs keys) (matchSigs check' sigs keys) := by
  induction keys generalizing sigs with
  | nil => cases sigs <;> exact LessDefined.refl _
  | cons vchPubKey keys ih =>
      cases sigs with
      | nil => exact LessDefined.refl _
      | cons vchSig sigs =>
          unfold matchSigs
          apply LessDefined.bind (h vchSig vchPubKey)
          intro fOk
          dsimp only
          apply LessDefined.ite
          · intro _
            exact LessDefined.refl _
          · intro _
            exact ih _

theorem takeCounted_lessDefined
    (h : r.Permits r') (max : ℕ) (stack : List Valtype) :
    LessDefined (takeCounted r.intOperand max stack)
      (takeCounted r'.intOperand max stack) := by
  cases stack with
  | nil => exact LessDefined.refl _
  | cons vchCount stack => exact LessDefined.bind (h.int vchCount) fun _ => LessDefined.refl _

theorem multisigArgs_lessDefined (h : r.Permits r') (nOpCount : ℕ) (stack : List Valtype) :
    LessDefined (multisigArgs r nOpCount stack) (multisigArgs r' nOpCount stack) := by
  apply LessDefined.bind (takeCounted_lessDefined h 20 stack)
  intro (keys, stack)
  apply LessDefined.ite
  · intro _
    exact LessDefined.refl _
  · intro _
    exact LessDefined.bind (takeCounted_lessDefined h keys.length stack)
      fun _ => LessDefined.refl _

theorem checkMultisigOp_lessDefined (h : r.Permits r') (opcode : Opcodetype) (m : Machine) :
    LessDefined (checkMultisigOp r opcode m) (checkMultisigOp r' opcode m) := by
  apply LessDefined.bind (multisigArgs_lessDefined h m.nOpCount m.stack)
  intro args
  apply LessDefined.bind
  · exact matchSigs_lessDefined (fun vchSig vchPubKey => h.sig vchSig vchPubKey _) _ _
  · intro fSuccess
    exact LessDefined.guard (h.dummy args.dummy) (LessDefined.refl _)

theorem checkSigOp_lessDefined (h : r.Permits r') (opcode : Opcodetype) (m : Machine) :
    LessDefined (checkSigOp r opcode m) (checkSigOp r' opcode m) := by
  unfold checkSigOp
  rcases m.stack with _ | ⟨vchPubKey, _ | ⟨vchSig, stack⟩⟩
  · exact LessDefined.refl _
  · exact LessDefined.refl _
  · exact LessDefined.bind (h.sig _ _ _) fun _ => LessDefined.refl _

theorem pickOrRoll_lessDefined (h : r.Permits r') (opcode : Opcodetype) (m : Machine) :
    LessDefined (pickOrRoll r opcode m) (pickOrRoll r' opcode m) := by
  unfold pickOrRoll
  apply LessDefined.ite
  · intro _
    exact LessDefined.refl _
  · intro _
    cases m.stack with
    | nil => exact LessDefined.refl _
    | cons top stack => exact LessDefined.bind (h.int top) fun _ => LessDefined.refl _

theorem unaryOp_lessDefined (h : r.Permits r') (opcode : Opcodetype) (m : Machine) :
    LessDefined (unaryOp r opcode m) (unaryOp r' opcode m) := by
  unfold unaryOp
  cases m.stack with
  | nil => exact LessDefined.refl _
  | cons vch stack => exact LessDefined.map (h.unary opcode vch) _

theorem binaryOp_lessDefined (h : r.Permits r') (opcode : Opcodetype) (m : Machine) :
    LessDefined (binaryOp r opcode m) (binaryOp r' opcode m) := by
  unfold binaryOp
  rcases m.stack with _ | ⟨vch2, _ | ⟨vch1, stack⟩⟩
  · exact LessDefined.refl _
  · exact LessDefined.refl _
  · exact LessDefined.bind (h.binary opcode vch1 vch2) fun _ => LessDefined.refl _

theorem within_lessDefined (h : r.Permits r') (m : Machine) :
    LessDefined (within r m) (within r' m) := by
  unfold within
  rcases m.stack with _ | ⟨vch3, _ | ⟨vch2, _ | ⟨vch1, stack⟩⟩⟩
  · exact LessDefined.refl _
  · exact LessDefined.refl _
  · exact LessDefined.refl _
  · exact LessDefined.map (h.within vch1 vch2 vch3) _

/-- The switch, section by section. -/
theorem exec_lessDefined (h : r.Permits r') (op : GetOpResult) (m : Machine) :
    LessDefined (exec P r op m) (exec P r' op m) := by
  unfold exec
  rw [h.ofNumber]
  dsimp only
  refine LessDefined.ite (fun _ => LessDefined.refl _) fun _ => ?_
  refine LessDefined.ite (fun _ => LessDefined.refl _) fun _ => ?_
  refine LessDefined.ite (fun _ => LessDefined.guard h.nops (LessDefined.refl _)) fun _ => ?_
  refine LessDefined.ite (fun _ => LessDefined.refl _) fun _ => ?_
  refine LessDefined.ite (fun _ => LessDefined.refl _) fun _ => ?_
  refine LessDefined.ite (fun _ => pickOrRoll_lessDefined h _ m) fun _ => ?_
  refine LessDefined.ite (fun _ => LessDefined.refl _) fun _ => ?_
  refine LessDefined.ite (fun _ => LessDefined.refl _) fun _ => ?_
  refine LessDefined.ite (fun _ => LessDefined.refl _) fun _ => ?_
  refine LessDefined.ite (fun _ => unaryOp_lessDefined h _ m) fun _ => ?_
  refine LessDefined.ite (fun _ => binaryOp_lessDefined h _ m) fun _ => ?_
  refine LessDefined.ite (fun _ => within_lessDefined h m) fun _ => ?_
  refine LessDefined.ite (fun _ => LessDefined.refl _) fun _ => ?_
  refine LessDefined.ite (fun _ => LessDefined.refl _) fun _ => ?_
  refine LessDefined.ite (fun _ => checkSigOp_lessDefined h _ m) fun _ => ?_
  exact LessDefined.ite (fun _ => checkMultisigOp_lessDefined h _ m) fun _ => LessDefined.refl _

/-- One instruction under more permissive rules. -/
theorem step_lessDefined (h : r.Permits r') (m : Machine) (op : GetOpResult) :
    LessDefined (step P r m op) (step P r' m op) := by
  have hDispatch (m : Machine) : LessDefined (dispatch P r op m) (dispatch P r' op m) := by
    apply LessDefined.ite
    · intro _
      exact LessDefined.guard (h.push op.vchRet op.opcodeRet) (LessDefined.refl _)
    · intro _
      apply LessDefined.ite
      · intro _
        exact exec_lessDefined h op m
      · intro _
        exact LessDefined.refl _
  refine LessDefined.ite (fun _ => LessDefined.refl _) fun _ => ?_
  refine LessDefined.ite (fun _ => LessDefined.refl _) fun _ => ?_
  refine LessDefined.ite (fun _ => LessDefined.refl _) fun _ => ?_
  refine LessDefined.ite (fun _ => LessDefined.refl _) fun _ => ?_
  exact LessDefined.bind (hDispatch _) fun _ => LessDefined.refl _

/-- A whole run under more permissive rules. -/
theorem evalWith_lessDefined (h : r.Permits r') (stack : List Valtype) (script : CScript) :
    LessDefined (evalWith P r stack script) (evalWith P r' stack script) := by
  apply LessDefined.ite
  · intro _
    exact LessDefined.refl _
  · intro _
    apply LessDefined.bind
    · exact LessDefined.foldlM (step_lessDefined h) _ _
    · intro m
      exact LessDefined.refl _

end Permits

end SocietyGold
