import SocietyGold.Templates

/-!
# Signatures of the wallet

What a key store has to guarantee for its signatures, how both interpreters check
such signatures, and which items the signature script of a solved output pushes.
-/

namespace SocietyGold

open Support CScript TxnOutType

variable {CKey : Type}

/-! ## Assumptions on keys -/

/-- `CKey::Sign` gives a low-S DER signature, which the public key of the stored
key verifies. -/
structure CKeyStore.SignsWell (P : ScriptPrimitives) (keystore : CKeyStore CKey) : Prop where
  lowS : ∀ address key hash vchSig, keystore.getKey address = some key →
    keystore.sign key hash = some vchSig →
      isLowDERSignature P (vchSig ++ [SIGHASH_ALL]) = true
  verifies : ∀ address key hash vchSig, keystore.getKey address = some key →
    keystore.sign key hash = some vchSig →
      ∀ pubkey : CPubKey, pubkey.isValid = true → pubkey.getID P = address →
        P.verifyKey pubkey.vch hash vchSig = true

/-! ## Well encoded arguments -/

theorem isDERSignature_facts {vchSig : Valtype} (h : isDERSignature vchSig = true) :
    9 ≤ vchSig.length ∧ vchSig.length ≤ 73 ∧ vchSig[0]? = some 0x30 := by
  unfold isDERSignature at h
  dsimp only at h
  by_cases hShort : vchSig.length < 9
  · rw [if_pos hShort] at h
    exact absurd h (by simp)
  · rw [if_neg hShort] at h
    by_cases hLong : vchSig.length > 73
    · rw [if_pos hLong] at h
      exact absurd h (by simp)
    · rw [if_neg hLong] at h
      by_cases hType : ((vchSig[0]?).map UInt8.toNat).getD 0 ≠ 0x30
      · rw [if_pos hType] at h
        exact absurd h (by simp)
      · refine ⟨by omega, by omega, ?_⟩
        cases hHead : vchSig[0]? with
        | none => exact absurd (by rw [hHead]; decide) hType
        | some b =>
            rw [hHead] at hType
            have hByte : b.toNat = 0x30 := by simpa using hType
            rw [Option.some.injEq, ← UInt8.toNat_inj]
            exact hByte

theorem checkPubKeyEncoding_facts {vchPubKey : Valtype} (h : checkPubKeyEncoding vchPubKey = true) :
    vchPubKey.length = keyLength vchPubKey ∧ 0 < vchPubKey.length ∧
      vchPubKey[0]? ≠ some 0x30 := by
  unfold checkPubKeyEncoding isCompressedOrUncompressedPubKey at h
  cases vchPubKey with
  | nil => exact absurd h (by decide)
  | cons b rest =>
      simp only [List.getElem?_cons_zero, Option.some.injEq, List.length_cons] at h ⊢
      split_ifs at h with hShort hFour hTwo
      · have hLen : rest.length + 1 = 65 := by simpa using h
        subst hFour
        exact ⟨hLen, by omega, by decide⟩
      · have hLen : rest.length + 1 = 33 := by simpa using h
        rcases hTwo with rfl | rfl
        · exact ⟨hLen, by omega, by decide⟩
        · exact ⟨hLen, by omega, by decide⟩

/-- A signature as the wallet makes it. -/
structure IsWalletSig (P : ScriptPrimitives) (vchSig : Valtype) : Prop where
  lowS : isLowDERSignature P vchSig = true
  hashtype : isDefinedHashtypeSignature vchSig = true

namespace IsWalletSig

variable {P : ScriptPrimitives} {vchSig : Valtype}

theorem der (h : IsWalletSig P vchSig) : isDERSignature vchSig = true := by
  have hLow := h.lowS
  unfold isLowDERSignature at hLow
  exact (Bool.and_eq_true_iff.mp hLow).1

theorem length_lt (h : IsWalletSig P vchSig) : vchSig.length < 2 ^ 32 := by
  have hLength := (isDERSignature_facts h.der).2.1
  omega

theorem ne_nil (h : IsWalletSig P vchSig) : vchSig ≠ [] := by
  intro hNil
  have hLength := (isDERSignature_facts h.der).1
  rw [hNil] at hLength
  exact absurd hLength (by decide)

/-- It is none of the well encoded keys. -/
theorem ne_pubKey
    (h : IsWalletSig P vchSig) {vchPubKey : Valtype} (hKey : checkPubKeyEncoding vchPubKey = true) :
    vchPubKey ≠ vchSig := by
  intro hEq
  have hHead := (isDERSignature_facts h.der).2.2
  rw [← hEq] at hHead
  exact (checkPubKeyEncoding_facts hKey).2.2 hHead

end IsWalletSig

/-- The check of a signature that is well encoded: a badly encoded key makes the
script fail. -/
def strictCheck (checker : BaseSignatureChecker) (scriptCode : CScript)
    (vchSig vchPubKey : Valtype) : Option Bool :=
  if checkPubKeyEncoding vchPubKey then some (checker vchSig vchPubKey scriptCode) else none

/-- Rules that check the wallet's signatures so. -/
def Rules.ChecksStrictly (r : Rules) (P : ScriptPrimitives) (checker : BaseSignatureChecker) :
    Prop :=
  ∀ vchSig, IsWalletSig P vchSig → ∀ vchPubKey scriptCode,
    r.checkSig vchSig vchPubKey scriptCode = strictCheck checker scriptCode vchSig vchPubKey

section Rules

variable {P : ScriptPrimitives} {cache : CSignatureCache P} {txTo : CTransaction} {nIn : ℕ}
  {checker : BaseSignatureChecker}

theorem txRules_standard
    {flags : ℕ} {nHashType : ℤ} : (txRules P cache txTo nIn flags nHashType).Standard where
  push _ _ := rfl
  number := rfl
  int := rfl
  dummy := by simp [txRules]

theorem checkerRules_eq :
    checkerRules P STANDARD_SCRIPT_VERIFY_FLAGS checker =
      (txRules P cache txTo nIn STANDARD_SCRIPT_VERIFY_FLAGS 0).withCheckSig
        (checkerRules P STANDARD_SCRIPT_VERIFY_FLAGS checker).checkSig :=
  checkerRules_eq_withCheckSig (by decide)

theorem checkerRules_standard :
    (checkerRules P STANDARD_SCRIPT_VERIFY_FLAGS checker).Standard where
  push _ _ := rfl
  number := by
    funext n
    exact (getvch_eq_serialize n).symm
  int := funext intOperand_eq
  dummy := rfl

theorem txRules_checksStrictly :
    (txRules P cache txTo nIn STANDARD_SCRIPT_VERIFY_FLAGS 0).ChecksStrictly P
      (signatureChecker P txTo nIn) := by
  intro vchSig hSig vchPubKey scriptCode
  have hEncoded : checkSignatureEncoding P vchSig = true := by
    rw [checkSignatureEncoding, hSig.lowS, hSig.hashtype]
    rfl
  have hStrict : hasFlag STANDARD_SCRIPT_VERIFY_FLAGS SCRIPT_VERIFY_STRICTENC = true := by decide
  unfold txRules strictCheck
  dsimp only
  rw [hEncoded, hStrict, checkSig_eq_signatureChecker]
  cases checkPubKeyEncoding vchPubKey <;> rfl

theorem checkerRules_checksStrictly :
    (checkerRules P STANDARD_SCRIPT_VERIFY_FLAGS checker).ChecksStrictly P checker := by
  intro vchSig hSig vchPubKey scriptCode
  have hEncoded : checkSignatureEncodingFor P vchSig STANDARD_SCRIPT_VERIFY_FLAGS = true := by
    unfold checkSignatureEncodingFor
    rw [hSig.der, hSig.hashtype]
    rfl
  have hStrict : hasFlag STANDARD_SCRIPT_VERIFY_FLAGS SCRIPT_VERIFY_STRICTENC = true := by decide
  unfold checkerRules strictCheck checkPubKeyEncodingFor
  dsimp only
  rw [hEncoded, hStrict]
  unfold checkPubKeyEncoding
  cases isCompressedOrUncompressedPubKey vchPubKey <;> rfl

end Rules

/-! ## What the wallet signs -/

theorem signatureHash_withScriptSig
    (P : ScriptPrimitives) (scriptCode : CScript) (txTo : CTransaction) (nIn nIn' : ℕ)
    (nHashType : ℤ) (scriptSig : CScript) :
    signatureHash P scriptCode (txTo.withScriptSig nIn scriptSig) nIn' nHashType =
      signatureHash P scriptCode txTo nIn' nHashType :=
  signatureHash_withScriptSigs P scriptCode txTo nIn' nHashType
    fun i txin => if i = nIn then scriptSig else txin.scriptSig

theorem signatureChecker_withScriptSig
    (P : ScriptPrimitives) (txTo : CTransaction) (nIn nIn' : ℕ) (scriptSig : CScript) :
    signatureChecker P (txTo.withScriptSig nIn scriptSig) nIn' = signatureChecker P txTo nIn' := by
  funext vchSig vchPubKey scriptCode
  unfold signatureChecker
  simp only [signatureHash_withScriptSig]

namespace CKeyStore

variable {P : ScriptPrimitives} {keystore : CKeyStore CKey}

theorem signatureFor_eq_some
    {address hash : ℕ} {vchSig : Valtype}
    (h : keystore.signatureFor address hash SIGHASH_ALL.toNat = some vchSig) :
    ∃ key raw, keystore.getKey address = some key ∧ keystore.sign key hash = some raw ∧
      vchSig = raw ++ [SIGHASH_ALL] := by
  obtain ⟨key, hKey, hSign⟩ := Option.bind_eq_some_iff.mp h
  obtain ⟨raw, hRaw, hEq⟩ := Option.map_eq_some_iff.mp hSign
  exact ⟨key, raw, hKey, hRaw, hEq.symm⟩

theorem SignsWell.isWalletSig
    (hKeys : keystore.SignsWell P) {address hash : ℕ} {vchSig : Valtype}
    (h : keystore.signatureFor address hash SIGHASH_ALL.toNat = some vchSig) :
    IsWalletSig P vchSig := by
  obtain ⟨key, raw, hKey, hRaw, rfl⟩ := signatureFor_eq_some h
  refine ⟨hKeys.lowS address key hash raw hKey hRaw, ?_⟩
  unfold isDefinedHashtypeSignature
  rw [List.getLast?_concat]
  decide

/-- The signature is accepted for each well encoded key of its address. -/
theorem SignsWell.signatureChecker_eq_true
    (hKeys : keystore.SignsWell P) {address nIn : ℕ} {txTo : CTransaction} {scriptCode : CScript}
    {vchSig vchPubKey : Valtype} (hEncoded : checkPubKeyEncoding vchPubKey = true)
    (hID : (CPubKey.ofBytes vchPubKey).getID P = address)
    (h : keystore.signatureFor address (signatureHash P scriptCode txTo nIn SIGHASH_ALL.toNat)
      SIGHASH_ALL.toNat = some vchSig) :
    signatureChecker P txTo nIn vchSig vchPubKey scriptCode = true := by
  obtain ⟨key, raw, hKey, hRaw, rfl⟩ := signatureFor_eq_some h
  obtain ⟨hLength, hPos, -⟩ := checkPubKeyEncoding_facts hEncoded
  have hValid : (CPubKey.ofBytes vchPubKey).isValid = true := by
    rw [CPubKey.isValid, CPubKey.ofBytes, dif_pos hLength]
    exact decide_eq_true hPos
  unfold signatureChecker
  dsimp only
  rw [hValid, List.getLast?_concat, List.dropLast_concat]
  exact hKeys.verifies address key _ raw hKey hRaw _ hValid hID

/-! ## The loop of `SignN` -/

/-- The signatures for the first keys that the store has, up to a number. -/
def signatures (P : ScriptPrimitives) (keystore : CKeyStore CKey) (hash : ℕ)
    (pubkeys : List Valtype) (nRequired : ℕ) : List Valtype :=
  (pubkeys.filterMap fun pubkey =>
    keystore.signatureFor ((CPubKey.ofBytes pubkey).getID P) hash SIGHASH_ALL.toNat).take nRequired

theorem mem_signatures
    {hash nRequired : ℕ} {pubkeys : List Valtype} {vchSig : Valtype}
    (h : vchSig ∈ keystore.signatures P hash pubkeys nRequired) :
    ∃ pubkey ∈ pubkeys, keystore.signatureFor ((CPubKey.ofBytes pubkey).getID P) hash
      SIGHASH_ALL.toNat = some vchSig :=
  List.mem_filterMap.mp (List.mem_of_mem_take h)

theorem SignsWell.isWalletSig_of_mem
    (hKeys : keystore.SignsWell P) {hash nRequired : ℕ} {pubkeys : List Valtype}
    {vchSig : Valtype} (h : vchSig ∈ keystore.signatures P hash pubkeys nRequired) :
    IsWalletSig P vchSig := by
  obtain ⟨pubkey, -, hSig⟩ := mem_signatures h
  exact hKeys.isWalletSig hSig

/-- The loop adds the signatures for the first keys the store has. -/
theorem signLoop_eq
    (hash nRequired : ℕ) (pubkeys : List Valtype) {nSigned : ℕ} (items : List Valtype)
    (hSigned : nSigned ≤ nRequired) :
    signLoop P keystore hash SIGHASH_ALL.toNat nRequired pubkeys nSigned (pushAll items) =
      (nSigned + (keystore.signatures P hash pubkeys (nRequired - nSigned)).length,
        pushAll (items ++ keystore.signatures P hash pubkeys (nRequired - nSigned))) := by
  induction pubkeys generalizing nSigned items with
  | nil => simp [signLoop, signatures]
  | cons pubkey pubkeys ih =>
      unfold signLoop
      by_cases hMore : nSigned < nRequired
      · rw [if_pos hMore]
        unfold sign1
        cases hSig : keystore.signatureFor ((CPubKey.ofBytes pubkey).getID P) hash
            SIGHASH_ALL.toNat with
        | none =>
            have hSkip : keystore.signatures P hash (pubkey :: pubkeys) (nRequired - nSigned) =
                keystore.signatures P hash pubkeys (nRequired - nSigned) := by
              simp only [signatures, List.filterMap_cons, hSig]
            rw [hSkip]
            exact ih items hSigned
        | some vchSig =>
            have hTake : keystore.signatures P hash (pubkey :: pubkeys) (nRequired - nSigned) =
                vchSig :: keystore.signatures P hash pubkeys (nRequired - (nSigned + 1)) := by
              have hCount : nRequired - nSigned = nRequired - (nSigned + 1) + 1 := by omega
              simp only [signatures, List.filterMap_cons, hSig, hCount, List.take_succ_cons]
            have hPush : pushBytes (pushAll items) vchSig = pushAll (items ++ [vchSig]) :=
              (pushAll_append_singleton items vchSig).symm
            have hNext : nSigned + 1 ≤ nRequired := hMore
            rw [hTake, Option.map_some]
            dsimp only
            rw [hPush, ih (items ++ [vchSig]) hNext, List.length_cons, List.append_assoc,
              List.singleton_append]
            congr 1
            omega
      · have hNone : nRequired - nSigned = 0 := by omega
        rw [if_neg hMore, hNone, signatures, List.take_zero]
        simp

/-- `SignN` succeeds with as many signatures as it needs. -/
theorem signN_eq_some
    {multisigdata : List Valtype} {hash : ℕ} {scriptSig : CScript}
    (h : signN P keystore multisigdata hash SIGHASH_ALL.toNat [OP_0] = some scriptSig) :
    let sigs := keystore.signatures P hash multisigdata.tail.dropLast
      (smallInteger multisigdata.head?)
    sigs.length = smallInteger multisigdata.head? ∧ scriptSig = pushAll ([] :: sigs) := by
  have hStart : ([OP_0] : CScript) = pushAll [[]] := rfl
  unfold signN at h
  dsimp only at h ⊢
  rw [hStart, signLoop_eq hash _ _ _ (Nat.zero_le _), Nat.sub_zero] at h
  dsimp only at h
  split_ifs at h with hEnough
  rw [Nat.zero_add] at hEnough
  exact ⟨hEnough, (Option.some.inj h).symm⟩

end CKeyStore

/-! ## Solved outputs -/

/-- What `Solver` knows of an output when it has signed it: the instructions of the
output and the items that the signature script pushes. -/
inductive Solved (P : ScriptPrimitives) (keystore : CKeyStore CKey) (script : CScript)
    (hash : ℕ) : (items : List Valtype) → Prop
  | pubkey {keyOp checkOp : GetOpResult} {vchSig : Valtype}
      (hSolver : solver script = some (TX_PUBKEY, [keyOp.vchRet]))
      (hOps : script.instructions = [keyOp, checkOp]) (hKey : IsKeyPush keyOp)
      (hCheck : IsOpcode OP_CHECKSIG checkOp)
      (hSig : keystore.signatureFor ((CPubKey.ofBytes keyOp.vchRet).getID P) hash
        SIGHASH_ALL.toNat = some vchSig) :
      Solved P keystore script hash [vchSig]
  | pubkeyhash {dupOp hashOp pushOp equalOp checkOp : GetOpResult} {vchSig : Valtype}
      (hSolver : solver script = some (TX_PUBKEYHASH, [pushOp.vchRet]))
      (hOps : script.instructions = [dupOp, hashOp, pushOp, equalOp, checkOp])
      (hDup : IsOpcode OP_DUP dupOp) (hHash : IsOpcode OP_HASH160 hashOp)
      (hPush : IsPush pushOp) (hSize : pushOp.vchRet.length = 20)
      (hEqual : IsOpcode OP_EQUALVERIFY equalOp) (hCheck : IsOpcode OP_CHECKSIG checkOp)
      (hSig : keystore.signatureFor (fromBytesLE pushOp.vchRet) hash SIGHASH_ALL.toNat =
        some vchSig) :
      Solved P keystore script hash
        [vchSig, (keystore.getPubKey (fromBytesLE pushOp.vchRet)).vch]
  | multisig {vSolutions : List Valtype} {mOp : GetOpResult} {keyOps : List GetOpResult}
      {nOp checkOp : GetOpResult}
      (hSolver : solver script = some (TX_MULTISIG, vSolutions))
      (hOps : script.instructions = mOp :: (keyOps ++ [nOp, checkOp]))
      (hM : IsSmallInteger (smallInteger vSolutions.head?) mOp)
      (hKeys : ∀ keyOp ∈ keyOps, IsKeyPush keyOp) (hN : IsSmallInteger keyOps.length nOp)
      (hCheck : IsOpcode OP_CHECKMULTISIG checkOp)
      (hCounts : smallInteger vSolutions.head? ≤ keyOps.length) (hMany : keyOps.length ≤ 16)
      (hPubkeys : vSolutions.tail.dropLast = keyOps.map GetOpResult.vchRet)
      (hSigned : (keystore.signatures P hash (keyOps.map GetOpResult.vchRet)
        (smallInteger vSolutions.head?)).length = smallInteger vSolutions.head?) :
      Solved P keystore script hash
        ([] :: keystore.signatures P hash (keyOps.map GetOpResult.vchRet)
          (smallInteger vSolutions.head?))

namespace Solved

variable {P : ScriptPrimitives} {keystore : CKeyStore CKey} {script : CScript} {hash : ℕ}
  {items : List Valtype}

theorem of_solve
    {whichType : TxnOutType} {scriptSig : CScript} (hType : whichType ≠ TX_SCRIPTHASH)
    (h : keystore.solve P script hash SIGHASH_ALL.toNat = some (whichType, scriptSig)) :
    ∃ items, Solved P keystore script hash items ∧ scriptSig = pushAll items := by
  unfold CKeyStore.solve at h
  rcases hSolver : solver script with _ | ⟨type, vSolutions⟩
  · rw [hSolver] at h
    exact absurd h (by simp)
  · rw [hSolver] at h
    dsimp only at h
    obtain ⟨scriptSigRet, hRet, hPair⟩ := Option.map_eq_some_iff.mp h
    obtain ⟨rfl, rfl⟩ := Prod.mk.inj hPair
    cases type with
    | TX_NONSTANDARD => exact absurd hRet (by simp)
    | TX_NULL_DATA => exact absurd hRet (by simp)
    | TX_SCRIPTHASH => exact absurd rfl hType
    | TX_PUBKEY =>
        obtain ⟨keyOp, checkOp, hOps, hKey, hCheck, rfl⟩ := instructions_of_pubkey hSolver
        obtain ⟨vchSig, hSig, rfl⟩ := Option.map_eq_some_iff.mp hRet
        exact ⟨[vchSig], .pubkey hSolver hOps hKey hCheck hSig, by simp [pushAll]⟩
    | TX_PUBKEYHASH =>
        obtain ⟨dupOp, hashOp, pushOp, equalOp, checkOp, hOps, hDup, hHash, ⟨hPush, hSize⟩,
          hEqual, hCheck, rfl⟩ := instructions_of_pubkeyhash hSolver
        obtain ⟨_, hSign, rfl⟩ := Option.map_eq_some_iff.mp hRet
        obtain ⟨vchSig, hSig, rfl⟩ := Option.map_eq_some_iff.mp hSign
        refine ⟨_, .pubkeyhash hSolver hOps hDup hHash hPush hSize hEqual hCheck hSig, ?_⟩
        rw [pushBytes_eq_append]
        simp [pushAll]
    | TX_MULTISIG =>
        obtain ⟨mOp, keyOps, nOp, checkOp, hOps, hM, hKeys, hN, hCheck, -, hCounts, hMany,
          hPubkeys⟩ := instructions_of_multisig hSolver
        obtain ⟨hSigned, hScript⟩ := CKeyStore.signN_eq_some hRet
        rw [hPubkeys] at hSigned hScript
        exact ⟨_, .multisig hSolver hOps hM hKeys hN hCheck hCounts hMany hPubkeys hSigned,
          hScript⟩

end Solved

end SocietyGold
