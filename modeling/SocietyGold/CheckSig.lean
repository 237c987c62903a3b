import SocietyGold.Interpreter

/-!
# Signature checks

The encodings of signatures and public keys, the hash a signature signs, and
the two functions that check a signature: `CheckSig`, which remembers valid
signatures, and the checker object of a transaction input.
-/

namespace SocietyGold

/-! ## Public keys -/

/-- The length of a public key with the given first byte. -/
def getLen (chHeader : UInt8) : ℕ :=
  if chHeader = 2 ∨ chHeader = 3 then 33
  else if chHeader = 4 ∨ chHeader = 6 ∨ chHeader = 7 then 65
  else 0

def keyLength : Valtype → ℕ
  | [] => 0
  | chHeader :: _ => getLen chHeader

/-- A public key is as long as its first byte says; an invalid one has no bytes. -/
structure CPubKey where
  vch : Valtype
  length_eq : vch.length = keyLength vch
  deriving DecidableEq

namespace CPubKey

theorem length_nil : ([] : Valtype).length = keyLength [] := rfl

/-- The constructor from bytes. -/
def ofBytes (vch : Valtype) : CPubKey :=
  if h : vch.length = keyLength vch then ⟨vch, h⟩ else ⟨[], rfl⟩

def isValid (pubkey : CPubKey) : Bool := pubkey.vch.length > 0

def getID (P : ScriptPrimitives) (pubkey : CPubKey) : ℕ := P.hash160 pubkey.vch % 2 ^ 160

end CPubKey

def isCompressedOrUncompressedPubKey (vchPubKey : Valtype) : Bool :=
  if vchPubKey.length < 33 then false
  else if vchPubKey[0]? = some 0x04 then vchPubKey.length = 65
  else if vchPubKey[0]? = some 0x02 ∨ vchPubKey[0]? = some 0x03 then vchPubKey.length = 33
  else false

/-! ## Encodings -/

/-- Is this a DER signature, followed by a hash type? -/
def isDERSignature (vchSig : Valtype) : Bool :=
  let byte (i : ℕ) : ℕ := ((vchSig[i]?).map UInt8.toNat).getD 0
  let negative (i : ℕ) : Bool := byte i &&& 0x80 ≠ 0
  let nLenR := byte 3
  let nLenS := byte (5 + nLenR)
  if vchSig.length < 9 then false
  else if vchSig.length > 73 then false
  else if byte 0 ≠ 0x30 then false
  else if byte 1 ≠ vchSig.length - 3 then false
  else if 5 + nLenR ≥ vchSig.length then false
  else if nLenR + nLenS + 7 ≠ vchSig.length then false
  else if byte 2 ≠ 0x02 then false
  else if nLenR = 0 then false
  else if negative 4 then false
  else if nLenR > 1 ∧ byte 4 = 0 ∧ !negative 5 then false
  else if byte (4 + nLenR) ≠ 0x02 then false
  else if nLenS = 0 then false
  else if negative (6 + nLenR) then false
  else if nLenS > 1 ∧ byte (6 + nLenR) = 0 ∧ !negative (7 + nLenR) then false
  else true

def isLowDERSignature (P : ScriptPrimitives) (vchSig : Valtype) : Bool :=
  isDERSignature vchSig && P.checkLowS vchSig.dropLast

def isDefinedHashtypeSignature (vchSig : Valtype) : Bool :=
  match vchSig.getLast? with
  | none => false
  | some b =>
      let nHashType := b &&& ~~~ SIGHASH_ANYONECANPAY
      !(nHashType < SIGHASH_ALL || nHashType > SIGHASH_SINGLE)

def checkSignatureEncoding (P : ScriptPrimitives) (vchSig : Valtype) : Bool :=
  isLowDERSignature P vchSig && isDefinedHashtypeSignature vchSig

def checkPubKeyEncoding (vchPubKey : Valtype) : Bool := isCompressedOrUncompressedPubKey vchPubKey

/-- The check of a signature that depends on the flags. -/
def checkSignatureEncodingFor (P : ScriptPrimitives) (vchSig : Valtype) (flags : ℕ) : Bool :=
  if hasFlag flags (SCRIPT_VERIFY_DERSIG ||| SCRIPT_VERIFY_LOW_S ||| SCRIPT_VERIFY_STRICTENC) &&
      !isDERSignature vchSig then false
  else if hasFlag flags SCRIPT_VERIFY_LOW_S && !isLowDERSignature P vchSig then false
  else if hasFlag flags SCRIPT_VERIFY_STRICTENC && !isDefinedHashtypeSignature vchSig then false
  else true

def checkPubKeyEncodingFor (vchPubKey : Valtype) (flags : ℕ) : Bool :=
  !(hasFlag flags SCRIPT_VERIFY_STRICTENC && !isCompressedOrUncompressedPubKey vchPubKey)

/-! ## The signed hash -/

/-- Keep the sequence number of the signed input only. -/
def freeOtherSequences (nIn : ℕ) (vin : List CTxIn) : List CTxIn :=
  vin.mapIdx fun i txin => if i ≠ nIn then { txin with nSequence := 0 } else txin

def signatureHash (P : ScriptPrimitives) (scriptCode : CScript) (txTo : CTransaction) (nIn : ℕ)
    (nHashType : ℤ) : ℕ :=
  if nIn ≥ txTo.vin.length then 1
  else
    let scriptCode := scriptCode.findAndDelete [OP_CODESEPARATOR]
    let vin := txTo.vin.mapIdx fun i txin =>
      { txin with scriptSig := if i = nIn then scriptCode else [] }
    let hashOf (vin : List CTxIn) (vout : List CTxOut) : ℕ :=
      -- With SIGHASH_ANYONECANPAY the other inputs are left out.
      let vin := if nHashType / 128 % 2 = 1 then (vin[nIn]?).toList else vin
      P.hash (CTransaction.serialize { txTo with vin := vin, vout := vout } ++
        intToBytesLE 4 nHashType)
    if nHashType % 32 = SIGHASH_NONE.toNat then hashOf (freeOtherSequences nIn vin) []
    else if nHashType % 32 = SIGHASH_SINGLE.toNat then
      if nIn ≥ txTo.vout.length then 1
      else
        hashOf (freeOtherSequences nIn vin)
          ((txTo.vout.take (nIn + 1)).mapIdx fun i txout =>
            if i < nIn then CTxOut.null else txout)
    else hashOf vin txTo.vout

/-- A signature does not sign any signature script. -/
theorem signatureHash_withScriptSigs
    (P : ScriptPrimitives) (scriptCode : CScript) (txTo : CTransaction) (nIn : ℕ)
    (nHashType : ℤ) (scriptSigs : ℕ → CTxIn → CScript) :
    signatureHash P scriptCode
        { txTo with
          vin := txTo.vin.mapIdx fun i txin => { txin with scriptSig := scriptSigs i txin } }
        nIn nHashType =
      signatureHash P scriptCode txTo nIn nHashType := by
  have hVin : (txTo.vin.mapIdx fun i txin =>
      { txin with scriptSig := scriptSigs i txin }).mapIdx (fun i txin =>
        { txin with
          scriptSig := if i = nIn then scriptCode.findAndDelete [OP_CODESEPARATOR] else [] }) =
      txTo.vin.mapIdx fun i txin =>
        { txin with
          scriptSig := if i = nIn then scriptCode.findAndDelete [OP_CODESEPARATOR] else [] } := by
    rw [List.mapIdx_mapIdx]
    rfl
  unfold signatureHash
  simp only [List.length_mapIdx, hVin]

/-! ## The signature cache -/

/-- Signatures known to be valid: hash, signature and key. -/
structure CSignatureCache (P : ScriptPrimitives) where
  setValid : List (ℕ × Valtype × CPubKey)
  valid : ∀ entry ∈ setValid, P.verifyKey entry.2.2.vch entry.1 entry.2.1 = true

namespace CSignatureCache

variable {P : ScriptPrimitives}

def empty : CSignatureCache P := ⟨[], by simp⟩

def get (cache : CSignatureCache P) (hash : ℕ) (vchSig : Valtype) (pubkey : CPubKey) : Bool :=
  (hash, vchSig, pubkey) ∈ cache.setValid

theorem verify_of_get
    {cache : CSignatureCache P} {hash : ℕ} {vchSig : Valtype} {pubkey : CPubKey}
    (h : cache.get hash vchSig pubkey = true) : P.verifyKey pubkey.vch hash vchSig = true :=
  cache.valid (hash, vchSig, pubkey) (by simpa [get] using h)

end CSignatureCache

/-! ## The checks -/

/-- `CheckSig`.  Afterwards it stores the triple it verified, if the flags allow
that; such a triple is valid, and what is in the cache does not change a result. -/
def checkSig (P : ScriptPrimitives) (cache : CSignatureCache P) (vchSig vchPubKey : Valtype)
    (scriptCode : CScript) (txTo : CTransaction) (nIn : ℕ) (nHashType : ℤ) : Bool :=
  let pubkey := CPubKey.ofBytes vchPubKey
  if !pubkey.isValid then false
  else
    match vchSig.getLast? with
    | none => false
    | some b =>
        if nHashType ≠ 0 ∧ nHashType ≠ b.toNat then false
        else
          let sighash := signatureHash P scriptCode txTo nIn b.toNat
          if cache.get sighash vchSig.dropLast pubkey then true
          else P.verifyKey pubkey.vch sighash vchSig.dropLast

/-- `SignatureChecker::CheckSig`. -/
def signatureChecker (P : ScriptPrimitives) (txTo : CTransaction) (nIn : ℕ)
    (vchSig vchPubKey : Valtype) (scriptCode : CScript) : Bool :=
  let pubkey := CPubKey.ofBytes vchPubKey
  if !pubkey.isValid then false
  else
    match vchSig.getLast? with
    | none => false
    | some b =>
        P.verifyKey pubkey.vch (signatureHash P scriptCode txTo nIn b.toNat) vchSig.dropLast

/-- The cache only saves work. -/
theorem checkSig_eq_signatureChecker
    (P : ScriptPrimitives) (cache : CSignatureCache P) (vchSig vchPubKey : Valtype)
    (scriptCode : CScript) (txTo : CTransaction) (nIn : ℕ) :
    checkSig P cache vchSig vchPubKey scriptCode txTo nIn 0 =
      signatureChecker P txTo nIn vchSig vchPubKey scriptCode := by
  unfold checkSig signatureChecker
  cases hLast : vchSig.getLast? with
  | none => rfl
  | some b =>
      have hType : ¬ ((0 : ℤ) ≠ 0 ∧ (0 : ℤ) ≠ b.toNat) := fun h => h.1 rfl
      dsimp only
      rw [if_neg hType]
      by_cases hGet : cache.get (signatureHash P scriptCode txTo nIn b.toNat) vchSig.dropLast
          (CPubKey.ofBytes vchPubKey) = true
      · rw [if_pos hGet, CSignatureCache.verify_of_get hGet]
      · rw [if_neg hGet]

namespace Sample

/-- The shortest DER signature. -/
def derSig : Valtype := [0x30, 6, 2, 1, 1, 2, 1, 1]

/-- Every key accepts that signature and no other one. -/
def scriptPrims : ScriptPrimitives where
  toPrimitives := { prims with verifyKey := fun _ _ vchSig => vchSig = derSig }
  ripemd160 vch := toBytesLE 20 (prims.hash vch)
  sha1 vch := toBytesLE 20 (prims.hash160 vch)
  sha256 vch := toBytesLE 32 (prims.hash vch)
  checkLowS _ := true

/-- A public key with the given last byte. -/
def compressedKey (b : UInt8) : Valtype := 0x02 :: (List.replicate 31 0 ++ [b])

/-- The transaction whose input is signed. -/
def spending : CTransaction where
  nVersion := 1
  nTime := 1000
  vin := [⟨⟨7, 0⟩, [], UINT_MAX⟩]
  vout := [⟨50, [OP_1]⟩]
  nLockTime := 0

end Sample

example : isDERSignature (Sample.derSig ++ [SIGHASH_ALL]) = true := by decide

end SocietyGold
