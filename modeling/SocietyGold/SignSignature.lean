import Mathlib.Data.List.TakeWhile
import SocietyGold.WalletSignatures

/-!
# Signing and the network check

`SignSignature` tests its result with the wallet's verification, under the
standard flags.  These do not include the flag for pay-to-script-hash outputs,
so for such an output the script behind the hash is not run.  The network
always runs it.  This file says exactly when the network accepts what
`SignSignature` returned.
-/

namespace SocietyGold

open Support CScript TxnOutType

variable {CKey : Type}

/-! ## What is accepted -/

namespace CKeyStore

/-- When the network accepts the signature for the script behind a hash.  A single
key has to be well encoded.  In a multisig script all keys are, or the signatures
fit keys that are listed after the last badly encoded one. -/
def RedeemAccepted (P : ScriptPrimitives) (keystore : CKeyStore CKey) (txTo : CTransaction)
    (nIn : ℕ) (redeemScript : CScript) : Prop :=
  let hash := signatureHash P redeemScript txTo nIn SIGHASH_ALL.toNat
  match solver redeemScript with
  | some (TX_PUBKEY, vSolutions) => ∀ vchPubKey ∈ vSolutions, checkPubKeyEncoding vchPubKey = true
  | some (TX_PUBKEYHASH, vSolutions) => ∀ vchHash ∈ vSolutions,
      let vchPubKey := (keystore.getPubKey (fromBytesLE vchHash)).vch
      checkPubKeyEncoding vchPubKey = true ∧ toBytesLE 20 (P.hash160 vchPubKey) = vchHash ∧
        -- A signature that is itself the pushed hash is deleted from the signed script.
        (keystore.signatureFor (fromBytesLE vchHash) hash SIGHASH_ALL.toNat = some vchHash →
          signatureChecker P txTo nIn vchHash vchPubKey
            (scriptCodeWithout redeemScript [vchHash]) = true)
  | some (TX_MULTISIG, vSolutions) =>
      let keys := vSolutions.tail.dropLast
      let sigs := (keystore.signatures P hash keys (smallInteger vSolutions.head?)).reverse
      (∀ vchPubKey ∈ keys, checkPubKeyEncoding vchPubKey = true) ∨
        List.SublistForall₂
          (fun vchSig vchPubKey => signatureChecker P txTo nIn vchSig vchPubKey
            (scriptCodeWithout redeemScript sigs) = true)
          sigs (keys.reverse.takeWhile checkPubKeyEncoding)
  | _ => True

/-- When the network accepts the signature for an output. -/
def OutputAccepted (P : ScriptPrimitives) (keystore : CKeyStore CKey) (txTo : CTransaction)
    (nIn : ℕ) (fromPubKey : CScript) : Prop :=
  fromPubKey.isPayToScriptHash = true →
    ∀ redeemScript,
      keystore.getCScript (fromBytesLE ((fromPubKey.drop 2).take 20)) = some redeemScript →
        RedeemAccepted P keystore txTo nIn redeemScript

end CKeyStore

/-! ## Running a solved output -/

theorem strictCheck_eq_some_true
    {checker : BaseSignatureChecker} {scriptCode : CScript} {vchSig vchPubKey : Valtype} :
    strictCheck checker scriptCode vchSig vchPubKey = some true ↔
      checkPubKeyEncoding vchPubKey = true ∧ checker vchSig vchPubKey scriptCode = true := by
  unfold strictCheck
  cases checkPubKeyEncoding vchPubKey <;> simp

theorem evalRedeemScript_iff
    {eval : List Valtype → CScript → Option (List Valtype)} {stack : List Valtype}
    {script : CScript} {fSuccess : Option Bool}
    (h : eval stack script = fSuccess.map fun fSuccess => [boolVch fSuccess]) :
    evalRedeemScript eval (script :: stack) = true ↔ fSuccess = some true := by
  dsimp only [evalRedeemScript]
  rw [h]
  cases fSuccess <;> simp

/-- A signature that differs from the data pushed by a script is not in it. -/
theorem scriptCodeWithout_walletSigs
    {P : ScriptPrimitives} {script : CScript} {sigs : List Valtype}
    (hSigs : ∀ vchSig ∈ sigs, IsWalletSig P vchSig)
    (h : ∀ op ∈ script.instructions, op.vchRet ≠ [] → op.vchRet ∉ sigs) :
    scriptCodeWithout script sigs = script := by
  apply scriptCodeWithout_eq
  · intro vchSig hMem
    exact (hSigs vchSig hMem).length_lt
  · intro vchSig hMem op hOp hEq
    apply h op hOp
    · rw [hEq]
      exact (hSigs vchSig hMem).ne_nil
    · rw [hEq]
      exact hMem

namespace Solved

variable {P : ScriptPrimitives} {keystore : CKeyStore CKey} {script : CScript} {hash : ℕ}
  {items : List Valtype} {r r' : Rules}

/-- The items are spent alike under rules that check the wallet's signatures alike. -/
theorem evalWith_congr
    (hKeys : keystore.SignsWell P) (hr : r.Standard) (hr' : r'.Standard)
    {checker : BaseSignatureChecker} (hSig : r.ChecksStrictly P checker)
    (hSig' : r'.ChecksStrictly P checker) (h : Solved P keystore script hash items) :
    evalWith P r items.reverse script = evalWith P r' items.reverse script := by
  by_cases hLong : script.length > 10000
  · rw [evalWith, if_pos hLong, evalWith, if_pos hLong]
  · have hLength : script.length ≤ 10000 := Nat.le_of_not_lt hLong
    cases h with
    | pubkey hSolver hOps hKey hCheck hFor =>
        rw [List.reverse_singleton, evalWith_pubkey hr hOps hKey hCheck hLength,
          evalWith_pubkey hr' hOps hKey hCheck hLength, hSig _ (hKeys.isWalletSig hFor),
          hSig' _ (hKeys.isWalletSig hFor)]
    | pubkeyhash hSolver hOps hDup hHash hPush hSize hEqual hCheck hFor =>
        rw [List.reverse_cons, List.reverse_singleton, List.singleton_append,
          evalWith_pubkeyhash hr hOps hDup hHash hPush hSize hEqual hCheck hLength,
          evalWith_pubkeyhash hr' hOps hDup hHash hPush hSize hEqual hCheck hLength,
          hSig _ (hKeys.isWalletSig hFor), hSig' _ (hKeys.isWalletSig hFor)]
    | multisig hSolver hOps hM hKeyOps hN hCheck hCounts hMany hPubkeys hSigned =>
        rw [← hSigned, ← List.length_reverse] at hM hCounts
        rw [List.reverse_cons,
          evalWith_multisig hr hOps hM hKeyOps hN hCheck hCounts hMany hLength,
          evalWith_multisig hr' hOps hM hKeyOps hN hCheck hCounts hMany hLength]
        congr 1
        apply matchSigs_congr
        intro vchSig hMem vchPubKey
        have hWallet : IsWalletSig P vchSig :=
          hKeys.isWalletSig_of_mem (List.mem_reverse.mp hMem)
        rw [hSig vchSig hWallet, hSig' vchSig hWallet]

section Redeem

variable {txTo : CTransaction} {nIn : ℕ}

theorem evalRedeemScript_pubkey
    (hKeys : keystore.SignsWell P) (hr : r.Standard)
    (hSig : r.ChecksStrictly P (signatureChecker P txTo nIn))
    (hLength : script.length ≤ 10000) {keyOp checkOp : GetOpResult} {vchSig : Valtype}
    (hOps : script.instructions = [keyOp, checkOp]) (hKey : IsKeyPush keyOp)
    (hCheck : IsOpcode OP_CHECKSIG checkOp)
    (hFor : keystore.signatureFor ((CPubKey.ofBytes keyOp.vchRet).getID P)
      (signatureHash P script txTo nIn SIGHASH_ALL.toNat) SIGHASH_ALL.toNat = some vchSig) :
    evalRedeemScript (evalWith P r) [script, vchSig] = true ↔
      checkPubKeyEncoding keyOp.vchRet = true := by
  have hWallet : IsWalletSig P vchSig := hKeys.isWalletSig hFor
  rw [evalRedeemScript_iff (evalWith_pubkey hr hOps hKey hCheck hLength vchSig),
    hSig vchSig hWallet, strictCheck_eq_some_true]
  constructor
  · exact And.left
  · intro hEncoded
    have hCode : scriptCodeWithout script [vchSig] = script := by
      apply scriptCodeWithout_walletSigs
      · simpa using hWallet
      · intro op hMem hData
        rw [hOps] at hMem
        rcases List.mem_pair.mp hMem with rfl | rfl
        · simpa using hWallet.ne_pubKey hEncoded
        · exact absurd hCheck.2.2 hData
    rw [hCode]
    exact ⟨hEncoded, hKeys.signatureChecker_eq_true hEncoded rfl hFor⟩

theorem evalRedeemScript_pubkeyhash
    (hKeys : keystore.SignsWell P) (hr : r.Standard)
    (hSig : r.ChecksStrictly P (signatureChecker P txTo nIn))
    (hLength : script.length ≤ 10000) {dupOp hashOp pushOp equalOp checkOp : GetOpResult}
    {vchSig : Valtype} (pubkey : CPubKey)
    (hOps : script.instructions = [dupOp, hashOp, pushOp, equalOp, checkOp])
    (hDup : IsOpcode OP_DUP dupOp) (hHash : IsOpcode OP_HASH160 hashOp)
    (hPush : IsPush pushOp) (hSize : pushOp.vchRet.length = 20)
    (hEqual : IsOpcode OP_EQUALVERIFY equalOp) (hCheck : IsOpcode OP_CHECKSIG checkOp)
    (hFor : keystore.signatureFor (fromBytesLE pushOp.vchRet)
      (signatureHash P script txTo nIn SIGHASH_ALL.toNat) SIGHASH_ALL.toNat = some vchSig) :
    evalRedeemScript (evalWith P r) [script, pubkey.vch, vchSig] = true ↔
      checkPubKeyEncoding pubkey.vch = true ∧
        toBytesLE 20 (P.hash160 pubkey.vch) = pushOp.vchRet ∧
        (some vchSig = some pushOp.vchRet →
          signatureChecker P txTo nIn pushOp.vchRet pubkey.vch
            (scriptCodeWithout script [pushOp.vchRet]) = true) := by
  have hWallet : IsWalletSig P vchSig := hKeys.isWalletSig hFor
  have hEval := evalWith_pubkeyhash (P := P) hr hOps hDup hHash hPush hSize hEqual hCheck hLength
    pubkey.vch vchSig
  by_cases hSame : toBytesLE 20 (P.hash160 pubkey.vch) = pushOp.vchRet
  · rw [if_pos hSame] at hEval
    rw [evalRedeemScript_iff hEval, hSig vchSig hWallet, strictCheck_eq_some_true]
    constructor
    · rintro ⟨hEncoded, hAccepted⟩
      refine ⟨hEncoded, hSame, ?_⟩
      intro hDeleted
      rw [← Option.some.inj hDeleted]
      exact hAccepted
    · rintro ⟨hEncoded, -, hDeleted⟩
      refine ⟨hEncoded, ?_⟩
      by_cases hData : vchSig = pushOp.vchRet
      · rw [hData]
        exact hDeleted (congrArg some hData)
      · have hCode : scriptCodeWithout script [vchSig] = script := by
          apply scriptCodeWithout_walletSigs
          · simpa using hWallet
          · intro op hMem hNe
            rw [hOps] at hMem
            simp only [List.mem_cons, List.not_mem_nil, or_false] at hMem
            rcases hMem with rfl | rfl | rfl | rfl | rfl
            · exact absurd hDup.2.2 hNe
            · exact absurd hHash.2.2 hNe
            · simpa using Ne.symm hData
            · exact absurd hEqual.2.2 hNe
            · exact absurd hCheck.2.2 hNe
        have hBytes : CPubKey.ofBytes pubkey.vch = pubkey := by
          rw [CPubKey.ofBytes, dif_pos pubkey.length_eq]
        have hID : (CPubKey.ofBytes pubkey.vch).getID P = fromBytesLE pushOp.vchRet := by
          have hWidth : (256 : ℕ) ^ 20 = 2 ^ 160 := by norm_num
          rw [hBytes, ← hSame, fromBytesLE_toBytesLE, hWidth]
          rfl
        rw [hCode]
        exact hKeys.signatureChecker_eq_true hEncoded hID hFor
  · rw [if_neg hSame] at hEval
    constructor
    · intro h
      simp [evalRedeemScript, hEval] at h
    · rintro ⟨-, hBad, -⟩
      exact absurd hBad hSame

theorem evalRedeemScript_multisig
    (hKeys : keystore.SignsWell P) (hr : r.Standard)
    (hSig : r.ChecksStrictly P (signatureChecker P txTo nIn))
    (hLength : script.length ≤ 10000) {mOp : GetOpResult} {keyOps : List GetOpResult}
    {nOp checkOp : GetOpResult} {nRequired : ℕ} {sigs : List Valtype}
    (hOps : script.instructions = mOp :: (keyOps ++ [nOp, checkOp]))
    (hM : IsSmallInteger nRequired mOp) (hKeyOps : ∀ keyOp ∈ keyOps, IsKeyPush keyOp)
    (hN : IsSmallInteger keyOps.length nOp) (hCheck : IsOpcode OP_CHECKMULTISIG checkOp)
    (hCounts : nRequired ≤ keyOps.length) (hMany : keyOps.length ≤ 16)
    (hSigs : sigs = keystore.signatures P (signatureHash P script txTo nIn SIGHASH_ALL.toNat)
      (keyOps.map GetOpResult.vchRet) nRequired)
    (hSigned : sigs.length = nRequired) :
    evalRedeemScript (evalWith P r) (script :: (sigs.reverse ++ [[]])) = true ↔
      (∀ vchPubKey ∈ keyOps.map GetOpResult.vchRet, checkPubKeyEncoding vchPubKey = true) ∨
        List.SublistForall₂
          (fun vchSig vchPubKey => signatureChecker P txTo nIn vchSig vchPubKey
            (scriptCodeWithout script sigs.reverse) = true)
          sigs.reverse
          ((keyOps.map GetOpResult.vchRet).reverse.takeWhile checkPubKeyEncoding) := by
  have hWallet : ∀ vchSig ∈ sigs.reverse, IsWalletSig P vchSig := by
    intro vchSig hMem
    rw [List.mem_reverse, hSigs] at hMem
    exact hKeys.isWalletSig_of_mem hMem
  rw [← hSigned, ← List.length_reverse] at hM hCounts
  have hEval := evalWith_multisig (P := P) hr hOps hM hKeyOps hN hCheck hCounts hMany hLength
  rw [matchSigs_congr _ fun vchSig hMem vchPubKey =>
    hSig vchSig (hWallet vchSig hMem) vchPubKey (scriptCodeWithout script sigs.reverse)] at hEval
  unfold strictCheck at hEval
  rw [evalRedeemScript_iff hEval, matchSigs_iff (by simpa using hCounts)]
  refine ⟨Or.inr, ?_⟩
  rintro (hAll | hFits)
  · -- The signatures are accepted for the keys they were made with.
    have hTake : (keyOps.map GetOpResult.vchRet).reverse.takeWhile checkPubKeyEncoding =
        (keyOps.map GetOpResult.vchRet).reverse :=
      List.takeWhile_eq_self_iff.mpr fun vchPubKey hMem => hAll vchPubKey (List.mem_reverse.mp hMem)
    have hCode : scriptCodeWithout script sigs.reverse = script := by
      apply scriptCodeWithout_walletSigs hWallet
      intro op hMem hData hDeleted
      rw [hOps] at hMem
      simp only [List.mem_cons, List.mem_append, List.not_mem_nil, or_false] at hMem
      rcases hMem with rfl | hKeyOp | rfl | rfl
      · exact hData hM.2.1
      · have hEncoded := hAll op.vchRet (List.mem_map_of_mem hKeyOp)
        exact (hWallet op.vchRet hDeleted).ne_pubKey hEncoded rfl
      · exact hData hN.2.1
      · exact hData hCheck.2.2
    rw [hTake, hCode, hSigs]
    apply sublistForall₂_reverse
    apply sublistForall₂_take_filterMap
    intro vchPubKey hMem vchSig hFor
    exact hKeys.signatureChecker_eq_true (hAll vchPubKey hMem) rfl hFor
  · exact hFits

end Redeem

/-- The script behind a hash accepts the items exactly when its type allows it. -/
theorem evalRedeemScript_iff_redeemAccepted
    (hKeys : keystore.SignsWell P) (hr : r.Standard) {txTo : CTransaction} {nIn : ℕ}
    (hSig : r.ChecksStrictly P (signatureChecker P txTo nIn)) (hLength : script.length ≤ 10000)
    (h : Solved P keystore script (signatureHash P script txTo nIn SIGHASH_ALL.toNat) items) :
    evalRedeemScript (evalWith P r) (script :: items.reverse) = true ↔
      keystore.RedeemAccepted P txTo nIn script := by
  unfold CKeyStore.RedeemAccepted
  cases h with
  | pubkey hSolver hOps hKey hCheck hFor =>
      rw [hSolver, List.reverse_singleton,
        evalRedeemScript_pubkey hKeys hr hSig hLength hOps hKey hCheck hFor]
      simp
  | @pubkeyhash _ _ pushOp _ _ _ hSolver hOps hDup hHash hPush hSize hEqual hCheck hFor =>
      rw [hSolver, List.reverse_cons, List.reverse_singleton, List.singleton_append,
        evalRedeemScript_pubkeyhash hKeys hr hSig hLength
          (keystore.getPubKey (fromBytesLE pushOp.vchRet)) hOps hDup hHash hPush hSize hEqual
          hCheck hFor]
      simp [hFor]
  | multisig hSolver hOps hM hKeyOps hN hCheck hCounts hMany hPubkeys hSigned =>
      rw [hSolver, List.reverse_cons,
        evalRedeemScript_multisig hKeys hr hSig hLength hOps hM hKeyOps hN hCheck hCounts hMany
          rfl hSigned]
      dsimp only
      rw [hPubkeys]

end Solved

/-! ## The self-test and the network check -/

/-- What a signature script leaves on the stack. -/
theorem stack_of_evalWith_pushAll
    {P : ScriptPrimitives} {r : Rules} (hr : r.Standard) {items stack : List Valtype}
    (h : evalWith P r [] (pushAll items) = some stack) :
    stack = items.reverse ∧ (∀ b ∈ items, b.length ≤ MAX_SCRIPT_ELEMENT_SIZE) ∧
      ∀ op ∈ (pushAll items).instructions, IsPush op := by
  unfold evalWith at h
  by_cases hLong : (pushAll items).length > 10000
  · rw [if_pos hLong] at h
    exact absurd h (by simp)
  · rw [if_neg hLong] at h
    have hSize : ∀ b ∈ items, b.length < 2 ^ 32 := by
      intro b hMem
      have hLe := length_le_pushAll hMem
      omega
    obtain ⟨hItems, hPush⟩ := instructions_pushAll hSize
    obtain ⟨m, hRun, hEnd⟩ := Option.bind_eq_some_iff.mp h
    obtain ⟨hSmall, hStack⟩ := stack_of_foldlM_pushes hr hPush rfl hRun
    have hDone : m.stack = stack := by
      split_ifs at hEnd
      exact Option.some.inj hEnd
    refine ⟨?_, ?_, hPush⟩
    · rw [← hDone, hStack, hItems]
      exact List.append_nil _
    · intro b hMem
      rw [← hItems] at hMem
      obtain ⟨op, hOp, rfl⟩ := List.mem_map.mp hMem
      exact hSmall op hOp

theorem not_isSigOp_of_isPush {op : GetOpResult} (h : IsPush op) :
    isSigOp op.opcodeRet = false := by
  have hNe {opcode : Opcodetype} (hLarge : OP_PUSHDATA4 < opcode) : op.opcodeRet ≠ opcode := by
    intro hEq
    rw [← hEq] at hLarge
    exact UInt8.not_lt.mpr h.2 hLarge
  rw [isSigOp, decide_eq_false (hNe (by decide)), decide_eq_false (hNe (by decide)),
    decide_eq_false (hNe (by decide)), decide_eq_false (hNe (by decide))]
  rfl

/-- An output that holds the hash of a script needs no signature itself. -/
theorem not_isSigOp_of_scripthash {script : CScript} (h : script.isPayToScriptHash = true) :
    ∀ op ∈ script.instructions, isSigOp op.opcodeRet = false := by
  obtain ⟨hashOp, pushOp, equalOp, hOps, hHashOp, ⟨hPush, -⟩, hEqual⟩ :=
    instructions_of_scripthash h
  intro op hMem
  rw [hOps] at hMem
  simp only [List.mem_cons, List.not_mem_nil, or_false] at hMem
  rcases hMem with rfl | rfl | rfl
  · rw [hHashOp.2.1]
    decide
  · exact not_isSigOp_of_isPush hPush
  · rw [hEqual.2.1]
    decide

section Verify

variable {P : ScriptPrimitives} {cache : CSignatureCache P} {txTo : CTransaction} {nIn : ℕ}
  {checker : BaseSignatureChecker}

/-- Scripts without signature opcodes run alike in both interpreters. -/
theorem evalWith_checkerRules_eq
    {script : CScript} (h : ∀ op ∈ script.instructions, isSigOp op.opcodeRet = false)
    (stack : List Valtype) :
    evalWith P (checkerRules P STANDARD_SCRIPT_VERIFY_FLAGS checker) stack script =
      evalWith P (txRules P cache txTo nIn STANDARD_SCRIPT_VERIFY_FLAGS 0) stack script := by
  calc evalWith P (checkerRules P STANDARD_SCRIPT_VERIFY_FLAGS checker) stack script
      = evalWith P ((txRules P cache txTo nIn STANDARD_SCRIPT_VERIFY_FLAGS 0).withCheckSig
          (checkerRules P STANDARD_SCRIPT_VERIFY_FLAGS checker).checkSig) stack script :=
        congrArg (fun r => evalWith P r stack script) checkerRules_eq
    _ = evalWith P (txRules P cache txTo nIn STANDARD_SCRIPT_VERIFY_FLAGS 0) stack script :=
        evalWith_withCheckSig _ h stack

/-- After a successful self-test the network check depends on the script behind
the hash only. -/
theorem verifyScript_iff_of_selfTest
    {items : List Valtype} {fromPubKey : CScript}
    (hAgree : evalWith P (checkerRules P STANDARD_SCRIPT_VERIFY_FLAGS checker) items.reverse
        fromPubKey =
      evalWith P (txRules P cache txTo nIn STANDARD_SCRIPT_VERIFY_FLAGS 0) items.reverse
        fromPubKey)
    (hTest : verifyScriptWithChecker P (pushAll items) fromPubKey STANDARD_SCRIPT_VERIFY_FLAGS
      checker = true) :
    (∀ b ∈ items, b.length ≤ MAX_SCRIPT_ELEMENT_SIZE) ∧
      (verifyScript P cache (pushAll items) fromPubKey txTo nIn STANDARD_SCRIPT_VERIFY_FLAGS 0 =
          true ↔
        (fromPubKey.isPayToScriptHash = true →
          evalRedeemScript (evalWith P (txRules P cache txTo nIn STANDARD_SCRIPT_VERIFY_FLAGS 0))
            items.reverse = true)) := by
  have hPushOnly : hasFlag STANDARD_SCRIPT_VERIFY_FLAGS SCRIPT_VERIFY_SIGPUSHONLY = false := by
    decide
  unfold verifyScriptWithChecker at hTest
  rw [hPushOnly, Bool.false_and, if_neg Bool.false_ne_true] at hTest
  obtain ⟨stackCopy, top, stack, hSig, hPub, hTop, -⟩ := verifyWith_iff.mp hTest
  unfold evalScriptWithChecker at hSig hPub
  obtain ⟨rfl, hSmall, hPushes⟩ := stack_of_evalWith_pushAll checkerRules_standard hSig
  rw [evalWith_checkerRules_eq fun op hMem => not_isSigOp_of_isPush (hPushes op hMem)] at hSig
  rw [hAgree] at hPub
  have hOnly : (pushAll items).isPushOnly = true := by
    apply isPushOnly_pushAll
    intro b hMem
    have hLe := hSmall b hMem
    unfold MAX_SCRIPT_ELEMENT_SIZE at hLe
    omega
  refine ⟨hSmall, ?_⟩
  unfold verifyScript
  rw [verifyWith_iff]
  constructor
  · rintro ⟨stackCopy, _, _, hSig', -, -, hRedeem⟩ hHash
    have hStack : stackCopy = items.reverse := by
      have hBoth := hSig'.symm.trans hSig
      exact Option.some.inj hBoth
    rw [← hStack]
    exact (hRedeem (by rw [hHash]; rfl)).2
  · intro hRedeem
    exact ⟨items.reverse, top, stack, hSig, hPub, hTop, fun hHash => ⟨hOnly, hRedeem hHash⟩⟩

end Verify

theorem scriptSigOf_withScriptSig
    {txTo : CTransaction} {nIn : ℕ} (hIn : nIn < txTo.vin.length) (scriptSig : CScript) :
    (txTo.withScriptSig nIn scriptSig).scriptSigOf nIn = scriptSig := by
  unfold CTransaction.scriptSigOf CTransaction.withScriptSig
  simp [List.getElem?_eq_getElem hIn]

theorem solver_of_solve
    {P : ScriptPrimitives} {keystore : CKeyStore CKey} {script scriptSig : CScript} {hash : ℕ}
    {nHashType : ℤ} {whichType : TxnOutType}
    (h : keystore.solve P script hash nHashType = some (whichType, scriptSig)) :
    ∃ vSolutions, solver script = some (whichType, vSolutions) := by
  unfold CKeyStore.solve at h
  rcases hSolver : solver script with _ | ⟨type, vSolutions⟩
  · rw [hSolver] at h
    exact absurd h (by simp)
  · rw [hSolver] at h
    obtain ⟨_, -, hPair⟩ := Option.map_eq_some_iff.mp h
    obtain ⟨rfl, -⟩ := Prod.mk.inj hPair
    exact ⟨vSolutions, rfl⟩

/-- The signature script that `SignSignature` tests. -/
theorem signatureScript_spec
    {P : ScriptPrimitives} {keystore : CKeyStore CKey} {fromPubKey scriptSig : CScript}
    {txTo : CTransaction} {nIn : ℕ}
    (h : signatureScript P keystore fromPubKey txTo nIn SIGHASH_ALL.toNat = some scriptSig) :
    (fromPubKey.isPayToScriptHash = false ∧
      ∃ items, Solved P keystore fromPubKey
          (signatureHash P fromPubKey txTo nIn SIGHASH_ALL.toNat) items ∧
        scriptSig = pushAll items) ∨
    (fromPubKey.isPayToScriptHash = true ∧
      ∃ subscript items,
        keystore.getCScript (fromBytesLE ((fromPubKey.drop 2).take 20)) = some subscript ∧
        Solved P keystore subscript (signatureHash P subscript txTo nIn SIGHASH_ALL.toNat) items ∧
        scriptSig = pushAll (items ++ [subscript])) := by
  obtain ⟨⟨whichType, script⟩, hSolve, hRest⟩ := Option.bind_eq_some_iff.mp h
  dsimp only at hRest
  cases hHash : fromPubKey.isPayToScriptHash with
  | false =>
      have hType : whichType ≠ TX_SCRIPTHASH := by
        intro hIs
        obtain ⟨vSolutions, hSolver⟩ := solver_of_solve hSolve
        rw [(solver_scripthash_iff hSolver).mp hIs] at hHash
        exact absurd hHash (by simp)
      rw [if_neg hType] at hRest
      obtain ⟨items, hSolved, hItems⟩ := Solved.of_solve hType hSolve
      exact Or.inl ⟨rfl, items, hSolved, by rw [← Option.some.inj hRest, hItems]⟩
  | true =>
      have hSolver : solver fromPubKey =
          some (TX_SCRIPTHASH, [(fromPubKey.drop 2).take 20]) := by
        rw [solver, if_pos hHash]
      unfold CKeyStore.solve at hSolve
      rw [hSolver] at hSolve
      obtain ⟨subscript, hScript, hPair⟩ := Option.map_eq_some_iff.mp hSolve
      obtain ⟨rfl, rfl⟩ := Prod.mk.inj hPair
      rw [if_pos rfl, signatureHash_withScriptSig] at hRest
      obtain ⟨⟨subType, subSig⟩, hSub, hEnd⟩ := Option.bind_eq_some_iff.mp hRest
      dsimp only at hEnd
      split_ifs at hEnd with hSubType
      obtain ⟨items, hSolved, rfl⟩ := Solved.of_solve hSubType hSub
      refine Or.inr ⟨rfl, subscript, items, hScript, hSolved, ?_⟩
      rw [pushAll_append_singleton]
      exact (Option.some.inj hEnd).symm

/-- The network accepts what `SignSignature` returned, except where the script behind
the hash of a pay-to-script-hash output meets a key it does not accept. -/
theorem signSignature_verifies_iff
    (P : ScriptPrimitives) (cache : CSignatureCache P) (keystore : CKeyStore CKey)
    (hKeys : keystore.SignsWell P) (fromPubKey : CScript) (txTo txTo' : CTransaction) (nIn : ℕ)
    (h : signSignature P keystore fromPubKey txTo nIn SIGHASH_ALL.toNat = some txTo') :
    verifyScript P cache (txTo'.scriptSigOf nIn) fromPubKey txTo' nIn
        STANDARD_SCRIPT_VERIFY_FLAGS 0 = true ↔
      keystore.OutputAccepted P txTo nIn fromPubKey := by
  unfold signSignature at h
  by_cases hIn : nIn < txTo.vin.length
  · rw [if_pos hIn] at h
    obtain ⟨scriptSig, hScript, hTested⟩ := Option.bind_eq_some_iff.mp h
    dsimp only at hTested
    split_ifs at hTested with hTest
    have hTx : txTo' = txTo.withScriptSig nIn scriptSig := (Option.some.inj hTested).symm
    rw [hTx, scriptSigOf_withScriptSig hIn]
    have hChecker := signatureChecker_withScriptSig P txTo nIn nIn scriptSig
    have hStrict : (txRules P cache (txTo.withScriptSig nIn scriptSig) nIn
        STANDARD_SCRIPT_VERIFY_FLAGS 0).ChecksStrictly P (signatureChecker P txTo nIn) := by
      rw [← hChecker]
      exact txRules_checksStrictly
    rw [hChecker] at hTest
    unfold CKeyStore.OutputAccepted
    rcases signatureScript_spec hScript with ⟨hHash, items, hSolved, rfl⟩ |
      ⟨hHash, subscript, items, hSubscript, hSolved, rfl⟩
    · -- Both interpreters check the same signatures.
      have hAgree := hSolved.evalWith_congr hKeys checkerRules_standard txRules_standard
        checkerRules_checksStrictly hStrict
      rw [(verifyScript_iff_of_selfTest hAgree hTest).2, hHash]
      simp
    · -- The output itself needs no signature.
      obtain ⟨hSmall, hIff⟩ :=
        verifyScript_iff_of_selfTest
          (evalWith_checkerRules_eq (not_isSigOp_of_scripthash hHash) _) hTest
      have hLength : subscript.length ≤ 10000 := by
        have hLe := hSmall subscript (by simp)
        unfold MAX_SCRIPT_ELEMENT_SIZE at hLe
        omega
      rw [hIff, List.reverse_append, List.reverse_singleton, List.singleton_append,
        hSolved.evalRedeemScript_iff_redeemAccepted hKeys txRules_standard hStrict hLength,
        hHash, hSubscript]
      simp
  · rw [if_neg hIn] at h
    exact absurd h (by simp)

namespace Sample

/-- One of two signatures, with the second key as given. -/
def oneOfTwo (vchPubKey : Valtype) : CScript :=
  [OP_1] ++ pushBytes [] (compressedKey 1) ++ pushBytes [] vchPubKey ++
    [OP_1 + 1, OP_CHECKMULTISIG]

/-- An output that holds the hash of the script. -/
def scriptHashOutput (subscript : CScript) : CScript :=
  [OP_HASH160] ++ pushBytes [] (toBytesLE 20 (scriptPrims.hash160 subscript)) ++ [OP_EQUAL]

/-- A store with the first key and the script. -/
def scriptStore (subscript : CScript) : CKeyStore Unit where
  getKey address :=
    if address = (CPubKey.ofBytes (compressedKey 1)).getID scriptPrims then some () else none
  getPubKey _ := CPubKey.ofBytes (compressedKey 1)
  getCScript hash := if hash = scriptPrims.hash160 subscript then some subscript else none
  sign _ _ := some derSig

theorem scriptStore_signsWell (subscript : CScript) :
    (scriptStore subscript).SignsWell scriptPrims where
  lowS := by
    intro address key hash vchSig _ hSign
    obtain rfl : derSig = vchSig := Option.some.inj hSign
    decide
  verifies := by
    intro address key hash vchSig _ hSign pubkey _ _
    obtain rfl : derSig = vchSig := Option.some.inj hSign
    simp [scriptPrims]

/-- The transaction that `SignSignature` makes for the script. -/
def signedSpending (subscript : CScript) : CTransaction :=
  spending.withScriptSig 0 (pushAll [[], derSig ++ [SIGHASH_ALL], subscript])

/-- A key whose first byte says nothing about its encoding. -/
def unencodedKey : Valtype := 0x05 :: List.replicate 32 0

theorem oneOfTwo_signed_not_verified :
    (scriptStore (oneOfTwo unencodedKey)).SignsWell scriptPrims ∧
      signSignature scriptPrims (scriptStore (oneOfTwo unencodedKey))
          (scriptHashOutput (oneOfTwo unencodedKey)) spending 0 SIGHASH_ALL.toNat =
        some (signedSpending (oneOfTwo unencodedKey)) ∧
      verifyScript scriptPrims CSignatureCache.empty
          ((signedSpending (oneOfTwo unencodedKey)).scriptSigOf 0)
          (scriptHashOutput (oneOfTwo unencodedKey)) (signedSpending (oneOfTwo unencodedKey)) 0
          STANDARD_SCRIPT_VERIFY_FLAGS 0 = false :=
  ⟨scriptStore_signsWell _, by decide +kernel, by decide +kernel⟩

/-- With a well encoded second key the network accepts the signature. -/
theorem oneOfTwo_verified :
    verifyScript scriptPrims CSignatureCache.empty
        ((signedSpending (oneOfTwo (compressedKey 2))).scriptSigOf 0)
        (scriptHashOutput (oneOfTwo (compressedKey 2)))
        (signedSpending (oneOfTwo (compressedKey 2))) 0 STANDARD_SCRIPT_VERIFY_FLAGS 0 = true := by
  refine (signSignature_verifies_iff scriptPrims CSignatureCache.empty
    (scriptStore (oneOfTwo (compressedKey 2))) (scriptStore_signsWell _)
    (scriptHashOutput (oneOfTwo (compressedKey 2))) spending
    (signedSpending (oneOfTwo (compressedKey 2))) 0 (by decide +kernel)).mpr ?_
  intro _ subscript hScript
  have hSubscript : (scriptStore (oneOfTwo (compressedKey 2))).getCScript
      (fromBytesLE (((scriptHashOutput (oneOfTwo (compressedKey 2))).drop 2).take 20)) =
      some (oneOfTwo (compressedKey 2)) := by decide +kernel
  obtain rfl := Option.some.inj (hSubscript.symm.trans hScript)
  have hSolver : solver (oneOfTwo (compressedKey 2)) =
      some (TX_MULTISIG, [[1], compressedKey 1, compressedKey 2, [2]]) := by decide +kernel
  unfold CKeyStore.RedeemAccepted
  rw [hSolver]
  exact Or.inl (by decide)

end Sample

end SocietyGold
