import SocietyGold.CheckSig

/-!
# The two interpreters and the two script verifications

Validation evaluates scripts with `CBigNum` numbers and `CheckSig`; the wallet
tests its signatures with `CScriptNum` numbers and a checker object.  Without
the flags that only one of them knows the two interpreters agree.  In both,
every flag can only make a script fail, so a verification that succeeds under
some flags succeeds under fewer.
-/

namespace SocietyGold

open Support

/-! ## Evaluating scripts -/

/-- The rules of validation. -/
def txRules (P : ScriptPrimitives) (cache : CSignatureCache P) (txTo : CTransaction)
    (nIn flags : ℕ) (nHashType : ℤ) : Rules where
  ofNumber := CBigNum.getvch
  acceptsPush _ _ := true
  acceptsNops := !hasFlag flags SCRIPT_VERIFY_DISCOURAGE_UPGRADABLE_NOPS
  intOperand := CBigNum.intOperand
  unaryOperand := CBigNum.unaryOperand
  binaryOperands := CBigNum.binaryOperands
  withinOperands := CBigNum.withinOperands
  checkSig vchSig vchPubKey scriptCode :=
    if hasFlag flags SCRIPT_VERIFY_STRICTENC &&
        (!checkSignatureEncoding P vchSig || !checkPubKeyEncoding vchPubKey) then none
    else
      some (checkSignatureEncoding P vchSig && checkPubKeyEncoding vchPubKey &&
        checkSig P cache vchSig vchPubKey scriptCode txTo nIn nHashType)
  acceptsDummy vch := !(hasFlag flags SCRIPT_VERIFY_NULLDUMMY && vch.length > 0)

/-- Is this opcode the shortest way to push the data? -/
def checkMinimalPush (data : Valtype) (opcode : Opcodetype) : Bool :=
  match data with
  | [] => opcode = OP_0
  | [b] =>
      if 1 ≤ b ∧ b ≤ 16 then opcode = OP_1 + (b - 1)
      else if b = 0x81 then opcode = OP_1NEGATE
      else opcode.toNat = 1
  | _ =>
      if data.length ≤ 75 then opcode.toNat = data.length
      else if data.length ≤ 255 then opcode = OP_PUSHDATA1
      else if data.length ≤ 65535 then opcode = OP_PUSHDATA2
      else true

/-- What a checker object answers for a signature, a key and the signed script. -/
abbrev BaseSignatureChecker := (vchSig vchPubKey : Valtype) → (scriptCode : CScript) → Bool

/-- The rules of the wallet. -/
def checkerRules (P : ScriptPrimitives) (flags : ℕ) (checker : BaseSignatureChecker) : Rules where
  ofNumber n := CScriptNum.getvch ⟨n⟩
  acceptsPush vchPushValue opcode :=
    !(hasFlag flags SCRIPT_VERIFY_MINIMALDATA && !checkMinimalPush vchPushValue opcode)
  acceptsNops := !hasFlag flags SCRIPT_VERIFY_DISCOURAGE_UPGRADABLE_NOPS
  intOperand := CScriptNum.intOperand (hasFlag flags SCRIPT_VERIFY_MINIMALDATA)
  unaryOperand := CScriptNum.unaryOperand (hasFlag flags SCRIPT_VERIFY_MINIMALDATA)
  binaryOperands := CScriptNum.binaryOperands (hasFlag flags SCRIPT_VERIFY_MINIMALDATA)
  withinOperands := CScriptNum.withinOperands (hasFlag flags SCRIPT_VERIFY_MINIMALDATA)
  checkSig vchSig vchPubKey scriptCode :=
    if !checkSignatureEncodingFor P vchSig flags || !checkPubKeyEncodingFor vchPubKey flags then
      none
    else some (checker vchSig vchPubKey scriptCode)
  acceptsDummy vch := !(hasFlag flags SCRIPT_VERIFY_NULLDUMMY && vch.length > 0)

/-- `EvalScript` over a transaction input. -/
def evalScript (P : ScriptPrimitives) (cache : CSignatureCache P) (stack : List Valtype)
    (script : CScript) (txTo : CTransaction) (nIn flags : ℕ) (nHashType : ℤ) :
    Option (List Valtype) :=
  evalWith P (txRules P cache txTo nIn flags nHashType) stack script

/-- `EvalScript` over a checker. -/
def evalScriptWithChecker (P : ScriptPrimitives) (stack : List Valtype) (script : CScript)
    (flags : ℕ) (checker : BaseSignatureChecker) : Option (List Valtype) :=
  evalWith P (checkerRules P flags checker) stack script

/-! ## Verifying scripts -/

/-- The last part of a verification: the script whose hash the output holds is
evaluated on the stack below it. -/
def evalRedeemScript (eval : List Valtype → CScript → Option (List Valtype)) :
    (stackCopy : List Valtype) → Bool
  | [] => false
  | pubKeySerialized :: stackCopy =>
      match eval stackCopy pubKeySerialized with
      | none => false
      | some [] => false
      | some (top :: _) => castToBool top

/-- The part that both `VerifyScript` functions share: the script public key is
evaluated on what the signature script leaves, and for a pay-to-script-hash
output so is the script whose hash it holds. -/
def verifyWith (eval : List Valtype → CScript → Option (List Valtype)) (p2sh : Bool)
    (scriptSig scriptPubKey : CScript) : Bool :=
  match eval [] scriptSig with
  | none => false
  | some stackCopy =>
      match eval stackCopy scriptPubKey with
      | none => false
      | some [] => false
      | some (top :: _) =>
          if castToBool top = false then false
          else if p2sh && scriptPubKey.isPayToScriptHash then
            if !scriptSig.isPushOnly then false else evalRedeemScript eval stackCopy
          else true

/-- `VerifyScript` over a transaction input. -/
def verifyScript (P : ScriptPrimitives) (cache : CSignatureCache P)
    (scriptSig scriptPubKey : CScript) (txTo : CTransaction) (nIn flags : ℕ) (nHashType : ℤ) :
    Bool :=
  verifyWith (fun stack script => evalScript P cache stack script txTo nIn flags nHashType) true
    scriptSig scriptPubKey

/-- `VerifyScript` over a checker. -/
def verifyScriptWithChecker (P : ScriptPrimitives) (scriptSig scriptPubKey : CScript)
    (flags : ℕ) (checker : BaseSignatureChecker) : Bool :=
  if hasFlag flags SCRIPT_VERIFY_SIGPUSHONLY && !scriptSig.isPushOnly then false
  else
    verifyWith (fun stack script => evalScriptWithChecker P stack script flags checker)
      (hasFlag flags SCRIPT_VERIFY_P2SH) scriptSig scriptPubKey

/-! ## Agreement -/

/-- The flags that only one interpreter heeds, or that they heed differently. -/
def checkerOnlyFlags : ℕ :=
  SCRIPT_VERIFY_STRICTENC ||| SCRIPT_VERIFY_DERSIG ||| SCRIPT_VERIFY_LOW_S |||
    SCRIPT_VERIFY_MINIMALDATA

theorem hasFlag_eq_false_of_or
    {flags mask mask' : ℕ} (hSub : FlagSubset mask mask')
    (h : hasFlag flags mask' = false) : hasFlag flags mask = false := by
  have hZero : flags &&& mask' = 0 := by simpa [hasFlag] using h
  have hMask : flags &&& mask = 0 := by
    calc flags &&& mask = flags &&& (mask &&& mask') := by rw [hSub]
      _ = flags &&& (mask' &&& mask) := by rw [Nat.and_comm mask]
      _ = flags &&& mask' &&& mask := (Nat.and_assoc _ _ _).symm
      _ = 0 := by rw [hZero, Nat.zero_and]
  simpa [hasFlag] using hMask

/-- Without the minimality flag the rules differ in the signature checks only. -/
theorem checkerRules_eq_withCheckSig
    {P : ScriptPrimitives} {cache : CSignatureCache P} {txTo : CTransaction} {nIn flags : ℕ}
    {nHashType : ℤ} {checker : BaseSignatureChecker}
    (hMinimal : hasFlag flags SCRIPT_VERIFY_MINIMALDATA = false) :
    checkerRules P flags checker =
      (txRules P cache txTo nIn flags nHashType).withCheckSig
        (checkerRules P flags checker).checkSig := by
  have hNumber : (fun n => CScriptNum.getvch ⟨n⟩) = CBigNum.getvch := by
    funext n
    exact (getvch_eq_serialize n).symm
  have hInt : CScriptNum.intOperand false = CBigNum.intOperand := funext intOperand_eq
  have hUnary : CScriptNum.unaryOperand false = CBigNum.unaryOperand := by
    funext opcode vch
    exact unaryOperand_eq opcode vch
  have hBinary : CScriptNum.binaryOperands false = CBigNum.binaryOperands := by
    funext opcode vch1 vch2
    exact binaryOperands_eq opcode vch1 vch2
  have hWithin : CScriptNum.withinOperands false = CBigNum.withinOperands := by
    funext vch1 vch2 vch3
    exact withinOperands_eq vch1 vch2 vch3
  unfold Rules.withCheckSig checkerRules txRules
  simp only [hMinimal, hNumber, hInt, hUnary, hBinary, hWithin, Bool.false_and, Bool.not_false]

/-- Without those flags, and with a checker that does what `CheckSig` does on
well encoded arguments, both interpreters follow the same rules. -/
theorem checkerRules_eq_txRules
    {P : ScriptPrimitives} {cache : CSignatureCache P} {txTo : CTransaction} {nIn flags : ℕ}
    {checker : BaseSignatureChecker}
    (hFlags : hasFlag flags checkerOnlyFlags = false)
    (hChecker : ∀ vchSig vchPubKey scriptCode,
      checker vchSig vchPubKey scriptCode =
        (checkSignatureEncoding P vchSig && checkPubKeyEncoding vchPubKey &&
          checkSig P cache vchSig vchPubKey scriptCode txTo nIn 0)) :
    checkerRules P flags checker = txRules P cache txTo nIn flags 0 := by
  have hStrict : hasFlag flags SCRIPT_VERIFY_STRICTENC = false :=
    hasFlag_eq_false_of_or (by decide) hFlags
  have hLowS : hasFlag flags SCRIPT_VERIFY_LOW_S = false :=
    hasFlag_eq_false_of_or (by decide) hFlags
  have hDer : hasFlag flags
      (SCRIPT_VERIFY_DERSIG ||| SCRIPT_VERIFY_LOW_S ||| SCRIPT_VERIFY_STRICTENC) = false :=
    hasFlag_eq_false_of_or (by decide) hFlags
  have hSig : (checkerRules P flags checker).checkSig =
      (txRules P cache txTo nIn flags 0).checkSig := by
    unfold checkerRules txRules checkSignatureEncodingFor checkPubKeyEncodingFor
    simp only [hStrict, hLowS, hDer, hChecker, Bool.false_and, Bool.not_false, Bool.not_true,
      Bool.or_self, Bool.false_eq_true, if_false]
  have hRules : checkerRules P flags checker =
      (txRules P cache txTo nIn flags 0).withCheckSig (checkerRules P flags checker).checkSig :=
    checkerRules_eq_withCheckSig (hasFlag_eq_false_of_or (by decide) hFlags)
  rw [hSig] at hRules
  exact hRules

/-- The two interpreters agree: they succeed on the same scripts and leave the
same stacks. -/
theorem evalScript_eq_evalScriptWithChecker
    (P : ScriptPrimitives) (cache : CSignatureCache P) (stack : List Valtype) (script : CScript)
    (txTo : CTransaction) (nIn flags : ℕ) (checker : BaseSignatureChecker)
    (hFlags : hasFlag flags checkerOnlyFlags = false)
    (hChecker : ∀ vchSig vchPubKey scriptCode,
      checker vchSig vchPubKey scriptCode =
        (checkSignatureEncoding P vchSig && checkPubKeyEncoding vchPubKey &&
          checkSig P cache vchSig vchPubKey scriptCode txTo nIn 0)) :
    evalScript P cache stack script txTo nIn flags 0 =
      evalScriptWithChecker P stack script flags checker := by
  unfold evalScript evalScriptWithChecker
  rw [checkerRules_eq_txRules hFlags hChecker]

namespace Sample

/-- One plus negative zero is one, and the signature is valid. -/
def numericScript : CScript :=
  [OP_1, 1, 0x80, OP_ADD, OP_1, OP_NUMEQUALVERIFY, 33] ++ compressedKey 1 ++ [OP_CHECKSIG]

/-- A checker that does what validation does. -/
def checker : BaseSignatureChecker := fun vchSig vchPubKey scriptCode =>
  checkSignatureEncoding scriptPrims vchSig && checkPubKeyEncoding vchPubKey &&
    checkSig scriptPrims CSignatureCache.empty vchSig vchPubKey scriptCode spending 0 0

theorem numericScript_agrees :
    evalScript scriptPrims CSignatureCache.empty [derSig ++ [SIGHASH_ALL]] numericScript spending
        0 SCRIPT_VERIFY_NULLDUMMY 0 =
      evalScriptWithChecker scriptPrims [derSig ++ [SIGHASH_ALL]] numericScript
        SCRIPT_VERIFY_NULLDUMMY checker ∧
    evalScriptWithChecker scriptPrims [derSig ++ [SIGHASH_ALL]] numericScript
      SCRIPT_VERIFY_NULLDUMMY checker = some [vchTrue] :=
  ⟨evalScript_eq_evalScriptWithChecker scriptPrims CSignatureCache.empty
      [derSig ++ [SIGHASH_ALL]] numericScript spending 0 SCRIPT_VERIFY_NULLDUMMY checker
      (by decide) (fun _ _ _ => rfl),
    by decide +kernel⟩

end Sample

/-! ## Fewer flags -/

theorem checkSignatureEncodingFor_mono
    {P : ScriptPrimitives} {flags flags' : ℕ} (hSub : FlagSubset flags' flags) {vchSig : Valtype}
    (h : checkSignatureEncodingFor P vchSig flags = true) :
    checkSignatureEncodingFor P vchSig flags' = true := by
  have hMono {mask : ℕ} {ok : Bool} (hOk : (hasFlag flags mask && !ok) = false) :
      (hasFlag flags' mask && !ok) = false := by
    cases ok with
    | true => simp
    | false =>
        cases hFlag : hasFlag flags' mask with
        | false => rfl
        | true => simp [hasFlag_of_subset hSub hFlag] at hOk
  unfold checkSignatureEncodingFor at h ⊢
  split_ifs at h with hDer hLow hType
  rw [if_neg (by rw [hMono (by simpa using hDer)]; decide),
    if_neg (by rw [hMono (by simpa using hLow)]; decide),
    if_neg (by rw [hMono (by simpa using hType)]; decide)]

theorem checkPubKeyEncodingFor_mono
    {flags flags' : ℕ} (hSub : FlagSubset flags' flags) {vchPubKey : Valtype}
    (h : checkPubKeyEncodingFor vchPubKey flags = true) :
    checkPubKeyEncodingFor vchPubKey flags' = true := by
  unfold checkPubKeyEncodingFor at h ⊢
  cases hFlag : hasFlag flags' SCRIPT_VERIFY_STRICTENC with
  | false => rfl
  | true => rwa [hasFlag_of_subset hSub hFlag] at h

/-- A demand that a flag makes is not made without the flag. -/
theorem not_flag_and_mono
    {flags flags' mask : ℕ} {bad : Bool} (hSub : FlagSubset flags' flags)
    (h : (!(hasFlag flags mask && bad)) = true) : (!(hasFlag flags' mask && bad)) = true := by
  cases hFlag : hasFlag flags' mask with
  | false => rfl
  | true => rwa [hasFlag_of_subset hSub hFlag] at h

theorem not_flag_mono
    {flags flags' mask : ℕ} (hSub : FlagSubset flags' flags)
    (h : (!hasFlag flags mask) = true) : (!hasFlag flags' mask) = true := by
  cases hFlag : hasFlag flags' mask with
  | false => rfl
  | true => rwa [hasFlag_of_subset hSub hFlag] at h

/-- The rules of validation with fewer flags. -/
theorem txRules_permits
    {P : ScriptPrimitives} {cache : CSignatureCache P} {txTo : CTransaction} {nIn : ℕ}
    {nHashType : ℤ} {flags flags' : ℕ} (hSub : FlagSubset flags' flags) :
    (txRules P cache txTo nIn flags nHashType).Permits
      (txRules P cache txTo nIn flags' nHashType) where
  ofNumber := rfl
  push _ _ h := h
  nops h := not_flag_mono hSub h
  int _ := LessDefined.refl _
  unary _ _ := LessDefined.refl _
  binary _ _ _ := LessDefined.refl _
  within _ _ _ := LessDefined.refl _
  sig vchSig vchPubKey code := by
    dsimp only [txRules]
    cases hFlag : hasFlag flags' SCRIPT_VERIFY_STRICTENC with
    | true =>
        rw [hasFlag_of_subset hSub hFlag]
        exact LessDefined.refl _
    | false =>
        intro b hb
        by_cases hBad : (hasFlag flags SCRIPT_VERIFY_STRICTENC &&
            (!checkSignatureEncoding P vchSig || !checkPubKeyEncoding vchPubKey)) = true
        · rw [if_pos hBad] at hb
          exact absurd hb (by simp)
        · rw [if_neg hBad] at hb
          exact hb
  dummy _ h := not_flag_and_mono hSub h

/-- The rules of the wallet with fewer flags. -/
theorem checkerRules_permits
    {P : ScriptPrimitives} {checker : BaseSignatureChecker} {flags flags' : ℕ}
    (hSub : FlagSubset flags' flags) :
    (checkerRules P flags checker).Permits (checkerRules P flags' checker) where
  ofNumber := rfl
  push _ _ h := not_flag_and_mono hSub h
  nops h := not_flag_mono hSub h
  int vch := LessDefined.map (ofVch_lessDefined (hasFlag_of_subset hSub) vch) _
  unary opcode vch :=
    LessDefined.bind (ofVch_lessDefined (hasFlag_of_subset hSub) vch) fun _ => LessDefined.refl _
  binary opcode vch1 vch2 :=
    LessDefined.bind (ofVch_lessDefined (hasFlag_of_subset hSub) vch1) fun _ =>
      LessDefined.bind (ofVch_lessDefined (hasFlag_of_subset hSub) vch2) fun _ =>
        LessDefined.refl _
  within vch1 vch2 vch3 :=
    LessDefined.bind (ofVch_lessDefined (hasFlag_of_subset hSub) vch1) fun _ =>
      LessDefined.bind (ofVch_lessDefined (hasFlag_of_subset hSub) vch2) fun _ =>
        LessDefined.map (ofVch_lessDefined (hasFlag_of_subset hSub) vch3) _
  sig vchSig vchPubKey code := by
    intro b hb
    dsimp only [checkerRules] at hb ⊢
    cases hSig : checkSignatureEncodingFor P vchSig flags with
    | false => simp [hSig] at hb
    | true =>
        cases hKey : checkPubKeyEncodingFor vchPubKey flags with
        | false => simp [hSig, hKey] at hb
        | true =>
            simpa [hSig, hKey, checkSignatureEncodingFor_mono hSub hSig,
              checkPubKeyEncodingFor_mono hSub hKey] using hb
  dummy _ h := not_flag_and_mono hSub h

/-- What a successful verification did. -/
theorem verifyWith_iff
    {eval : List Valtype → CScript → Option (List Valtype)} {p2sh : Bool}
    {scriptSig scriptPubKey : CScript} :
    verifyWith eval p2sh scriptSig scriptPubKey = true ↔
      ∃ stackCopy top stack, eval [] scriptSig = some stackCopy ∧
        eval stackCopy scriptPubKey = some (top :: stack) ∧ castToBool top = true ∧
        ((p2sh && scriptPubKey.isPayToScriptHash) = true →
          scriptSig.isPushOnly = true ∧ evalRedeemScript eval stackCopy = true) := by
  unfold verifyWith
  cases hSig : eval [] scriptSig with
  | none => simp
  | some stackCopy =>
      simp only [Option.some.injEq, exists_and_left, exists_eq_left']
      rcases hPub : eval stackCopy scriptPubKey with _ | _ | ⟨top, stack⟩
      · simp
      · simp
      · cases hTop : castToBool top with
        | false => simp [hTop]
        | true =>
            cases hP2sh : p2sh && scriptPubKey.isPayToScriptHash with
            | false => simp [hTop]
            | true => cases hPush : scriptSig.isPushOnly <;> simp [hTop]

theorem evalRedeemScript_mono
    {eval eval' : List Valtype → CScript → Option (List Valtype)}
    (hEval : ∀ stack script, LessDefined (eval stack script) (eval' stack script))
    {stack : List Valtype} (h : evalRedeemScript eval stack = true) :
    evalRedeemScript eval' stack = true := by
  cases stack with
  | nil => exact h
  | cons pubKeySerialized rest =>
      dsimp only [evalRedeemScript] at h ⊢
      cases hRun : eval rest pubKeySerialized with
      | none => simp [hRun] at h
      | some after =>
          rw [hRun] at h
          rw [hEval _ _ _ hRun]
          exact h

/-- More permissive evaluation, and at most as often of the hashed script. -/
theorem verifyWith_mono
    {eval eval' : List Valtype → CScript → Option (List Valtype)} {p2sh p2sh' : Bool}
    (hEval : ∀ stack script, LessDefined (eval stack script) (eval' stack script))
    (hP2sh : p2sh' = true → p2sh = true) {scriptSig scriptPubKey : CScript}
    (h : verifyWith eval p2sh scriptSig scriptPubKey = true) :
    verifyWith eval' p2sh' scriptSig scriptPubKey = true := by
  obtain ⟨stackCopy, top, stack, hSig, hPub, hTop, hRedeem⟩ := verifyWith_iff.mp h
  refine verifyWith_iff.mpr ⟨stackCopy, top, stack, hEval _ _ _ hSig, hEval _ _ _ hPub, hTop, ?_⟩
  intro hBoth
  obtain ⟨hFlag, hHash⟩ := Bool.and_eq_true_iff.mp hBoth
  have hBoth' : (p2sh && scriptPubKey.isPayToScriptHash) = true := by
    rw [hP2sh hFlag, hHash]
    rfl
  exact ⟨(hRedeem hBoth').1, evalRedeemScript_mono hEval (hRedeem hBoth').2⟩

/-- Both verifications are monotone: what succeeds under some flags succeeds
under every subset of them. -/
theorem verifyScript_of_fewer_flags
    (P : ScriptPrimitives) (scriptSig scriptPubKey : CScript) {flags flags' : ℕ}
    (hSub : FlagSubset flags' flags) :
    (∀ (cache : CSignatureCache P) (txTo : CTransaction) (nIn : ℕ) (nHashType : ℤ),
      verifyScript P cache scriptSig scriptPubKey txTo nIn flags nHashType = true →
        verifyScript P cache scriptSig scriptPubKey txTo nIn flags' nHashType = true) ∧
    ∀ checker : BaseSignatureChecker,
      verifyScriptWithChecker P scriptSig scriptPubKey flags checker = true →
        verifyScriptWithChecker P scriptSig scriptPubKey flags' checker = true := by
  constructor
  · intro cache txTo nIn nHashType h
    exact verifyWith_mono (fun stack script => evalWith_lessDefined (txRules_permits hSub) _ _)
      id h
  · intro checker h
    unfold verifyScriptWithChecker at h ⊢
    by_cases hPush : (hasFlag flags SCRIPT_VERIFY_SIGPUSHONLY && !scriptSig.isPushOnly) = true
    · rw [if_pos hPush] at h
      exact absurd h (by simp)
    · rw [if_neg hPush] at h
      have hPush' : ¬ (hasFlag flags' SCRIPT_VERIFY_SIGPUSHONLY &&
          !scriptSig.isPushOnly) = true := by
        intro hBad
        obtain ⟨hFlag, hNot⟩ := Bool.and_eq_true_iff.mp hBad
        exact hPush (by rw [hasFlag_of_subset hSub hFlag, hNot]; rfl)
      rw [if_neg hPush']
      exact verifyWith_mono
        (fun stack script => evalWith_lessDefined (checkerRules_permits hSub) _ _)
        (hasFlag_of_subset hSub) h

namespace Sample

/-- The signature script and the script public key of a payment to a key. -/
def keySig : CScript := CScript.pushBytes [] (derSig ++ [SIGHASH_ALL])

def keyScript : CScript := CScript.pushBytes [] (compressedKey 1) ++ [OP_CHECKSIG]

theorem keyScript_verifies_without_strictenc :
    verifyScript scriptPrims CSignatureCache.empty keySig keyScript spending 0
        SCRIPT_VERIFY_NULLDUMMY 0 = true ∧
      verifyScriptWithChecker scriptPrims keySig keyScript SCRIPT_VERIFY_NULLDUMMY
        (signatureChecker scriptPrims spending 0) = true := by
  have hSub : FlagSubset SCRIPT_VERIFY_NULLDUMMY STANDARD_SCRIPT_VERIFY_FLAGS := by decide
  obtain ⟨hTx, hChecker⟩ := verifyScript_of_fewer_flags scriptPrims keySig keyScript hSub
  exact ⟨hTx CSignatureCache.empty spending 0 0 (by decide +kernel),
    hChecker (signatureChecker scriptPrims spending 0) (by decide +kernel)⟩

end Sample

end SocietyGold
