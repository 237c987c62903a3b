import SocietyGold.EvalScript

/-!
# Script templates and signing

`Solver` recognizes the standard output types.  Over a key store it makes the
signature script that satisfies an output, and `SignSignature` puts that script
into a transaction and tests it.
-/

namespace SocietyGold

/-! ## Templates -/

def OP_SMALLDATA : Opcodetype := 0xf9
def OP_SMALLINTEGER : Opcodetype := 0xfa
def OP_PUBKEYS : Opcodetype := 0xfb
def OP_PUBKEYHASH : Opcodetype := 0xfd
def OP_PUBKEY : Opcodetype := 0xfe

/-- `txnouttype`. -/
inductive TxnOutType
  | TX_NONSTANDARD
  | TX_PUBKEY
  | TX_PUBKEYHASH
  | TX_SCRIPTHASH
  | TX_MULTISIG
  | TX_NULL_DATA
  deriving DecidableEq, Repr

open TxnOutType

/-- The templates in the order of the map that holds them, as the opcodes they
consist of. -/
def mTemplates : List (TxnOutType × List Opcodetype) :=
  [(TX_PUBKEY, [OP_PUBKEY, OP_CHECKSIG]),
    (TX_PUBKEYHASH, [OP_DUP, OP_HASH160, OP_PUBKEYHASH, OP_EQUALVERIFY, OP_CHECKSIG]),
    (TX_MULTISIG, [OP_SMALLINTEGER, OP_PUBKEYS, OP_SMALLINTEGER, OP_CHECKMULTISIG]),
    (TX_NULL_DATA, [OP_RETURN, OP_SMALLDATA]),
    (TX_NULL_DATA, [OP_RETURN])]

/-- Is the pushed data as long as a public key may be? -/
def hasKeySize (vch : Valtype) : Bool := 33 ≤ vch.length && vch.length ≤ 120

/-- The loop for `OP_PUBKEYS`: collect keys as long as they come. -/
def takePubKeys : (op : GetOpResult) → (ops : List GetOpResult) → (vSolutions : List Valtype) →
    List Valtype × GetOpResult × List GetOpResult
  | op, [], vSolutions =>
      if hasKeySize op.vchRet then
        (vSolutions ++ [op.vchRet], ⟨false, OP_INVALIDOPCODE, [], []⟩, [])
      else (vSolutions, op, [])
  | op, next :: ops, vSolutions =>
      if hasKeySize op.vchRet then takePubKeys next ops (vSolutions ++ [op.vchRet])
      else (vSolutions, op, next :: ops)

/-- Compare one instruction with an opcode of a template other than
`OP_PUBKEYS`: what it adds to the solutions, if it matches. -/
def matchOpcode (opcode2 : Opcodetype) (op1 : GetOpResult) : Option (List Valtype) :=
  if opcode2 = OP_PUBKEY then (if hasKeySize op1.vchRet then some [op1.vchRet] else none)
  else if opcode2 = OP_PUBKEYHASH then
    if op1.vchRet.length = 20 then some [op1.vchRet] else none
  else if opcode2 = OP_SMALLINTEGER then
    if op1.opcodeRet = OP_0 ∨ (OP_1 ≤ op1.opcodeRet ∧ op1.opcodeRet ≤ OP_16) then
      some [[UInt8.ofNat (CScript.decodeOP_N op1.opcodeRet)]]
    else none
  else if opcode2 = OP_SMALLDATA then
    if op1.vchRet.length > MAX_OP_RETURN_RELAY then none else some []
  else if op1.opcodeRet ≠ opcode2 ∨ op1.vchRet ≠ [] then none
  else some []

/-- Compare a script, given by its instructions, with a template. -/
def matchTemplate : (template : List Opcodetype) → (ops : List GetOpResult) →
    (vSolutions : List Valtype) → Option (List Valtype)
  | [], [], vSolutions => some vSolutions
  | _, [], _ => none
  | [], _ :: _, _ => none
  | opcode2 :: template, op1 :: ops, vSolutions =>
      if op1.fRet = false then none
      else if opcode2 = OP_PUBKEYS then
        match takePubKeys op1 ops vSolutions, template with
        | _, [] => none
        | (vSolutions, op1, ops), opcode2 :: template =>
            (matchOpcode opcode2 op1).bind fun found =>
              matchTemplate template ops (vSolutions ++ found)
      else
        (matchOpcode opcode2 op1).bind fun found =>
          matchTemplate template ops (vSolutions ++ found)

/-- The first byte of a solution. -/
def smallInteger (vch : Option Valtype) : ℕ := ((vch.bind List.head?).map UInt8.toNat).getD 0

/-- The counts of a multisig script have to fit its keys. -/
def multisigCountsFit (vSolutions : List Valtype) : Bool :=
  let m := smallInteger vSolutions.head?
  let n := smallInteger vSolutions.getLast?
  !(m < 1 || n < 1 || m > n || vSolutions.length - 2 ≠ n)

/-- Scan the templates for the first that matches. -/
def scanTemplates (ops : List GetOpResult) :
    List (TxnOutType × List Opcodetype) → Option (TxnOutType × List Valtype)
  | [] => none
  | (type, template) :: rest =>
      match matchTemplate template ops [] with
      | some vSolutions =>
          if type = TX_MULTISIG ∧ !multisigCountsFit vSolutions then none
          else some (type, vSolutions)
      | none => scanTemplates ops rest

/-- `Solver`: the type of an output with the keys or hashes in it. -/
def solver (scriptPubKey : CScript) : Option (TxnOutType × List Valtype) :=
  if scriptPubKey.isPayToScriptHash then
    some (TX_SCRIPTHASH, [(scriptPubKey.drop 2).take 20])
  else scanTemplates scriptPubKey.instructions mTemplates

/-! ## Signing -/

/-- A key store, with what its keys sign. -/
structure CKeyStore (CKey : Type) where
  getKey : (address : ℕ) → Option CKey
  /-- What `GetPubKey` leaves in a key that was invalid before. -/
  getPubKey : (address : ℕ) → CPubKey
  getCScript : (hash : ℕ) → Option CScript
  /-- `CKey::Sign`. -/
  sign : CKey → (hash : ℕ) → Option Valtype

namespace CKeyStore

variable {CKey : Type}

/-- The signature that `Sign1` appends, with its hash type. -/
def signatureFor (keystore : CKeyStore CKey) (address hash : ℕ) (nHashType : ℤ) :
    Option Valtype :=
  (keystore.getKey address).bind fun key =>
    (keystore.sign key hash).map fun vchSig =>
      vchSig ++ [UInt8.ofNat (nHashType % 256).toNat]

def sign1 (keystore : CKeyStore CKey) (address hash : ℕ) (nHashType : ℤ)
    (scriptSigRet : CScript) : Option CScript :=
  (keystore.signatureFor address hash nHashType).map scriptSigRet.pushBytes

/-- The loop of `SignN`: how many signatures it made, and the script with them. -/
def signLoop (P : ScriptPrimitives) (keystore : CKeyStore CKey) (hash : ℕ) (nHashType : ℤ)
    (nRequired : ℕ) : (pubkeys : List Valtype) → (nSigned : ℕ) → CScript → ℕ × CScript
  | [], nSigned, scriptSigRet => (nSigned, scriptSigRet)
  | pubkey :: pubkeys, nSigned, scriptSigRet =>
      if nSigned < nRequired then
        match keystore.sign1 ((CPubKey.ofBytes pubkey).getID P) hash nHashType scriptSigRet with
        | some scriptSigRet =>
            signLoop P keystore hash nHashType nRequired pubkeys (nSigned + 1) scriptSigRet
        | none => signLoop P keystore hash nHashType nRequired pubkeys nSigned scriptSigRet
      else (nSigned, scriptSigRet)

/-- Sign with the first keys that the store has, until there are enough. -/
def signN (P : ScriptPrimitives) (keystore : CKeyStore CKey) (multisigdata : List Valtype)
    (hash : ℕ) (nHashType : ℤ) (scriptSigRet : CScript) : Option CScript :=
  let nRequired := smallInteger multisigdata.head?
  let pubkeys := multisigdata.tail.dropLast
  let (nSigned, scriptSigRet) :=
    signLoop P keystore hash nHashType nRequired pubkeys 0 scriptSigRet
  if nSigned = nRequired then some scriptSigRet else none

/-- `Solver` over a key store: the signature script for an output, except for a
pay-to-script-hash output, where it is the script behind the hash. -/
def solve (P : ScriptPrimitives) (keystore : CKeyStore CKey) (scriptPubKey : CScript)
    (hash : ℕ) (nHashType : ℤ) : Option (TxnOutType × CScript) :=
  match solver scriptPubKey with
  | none => none
  | some (whichType, vSolutions) =>
      let solution := vSolutions.head?.getD []
      let scriptSigRet : Option CScript :=
        match whichType with
        | TX_NONSTANDARD => none
        | TX_NULL_DATA => none
        | TX_PUBKEY =>
            keystore.sign1 ((CPubKey.ofBytes solution).getID P) hash nHashType []
        | TX_PUBKEYHASH =>
            let keyID := fromBytesLE solution
            (keystore.sign1 keyID hash nHashType []).map fun scriptSigRet =>
              scriptSigRet.pushBytes (keystore.getPubKey keyID).vch
        | TX_SCRIPTHASH => keystore.getCScript (fromBytesLE solution)
        | TX_MULTISIG => keystore.signN P vSolutions hash nHashType [OP_0]
      scriptSigRet.map fun scriptSigRet => (whichType, scriptSigRet)

end CKeyStore

/-- The transaction with another signature script in one input. -/
def CTransaction.withScriptSig (txTo : CTransaction) (nIn : ℕ) (scriptSig : CScript) :
    CTransaction :=
  { txTo with
    vin := txTo.vin.mapIdx fun i txin =>
      { txin with scriptSig := if i = nIn then scriptSig else txin.scriptSig } }

/-- The signature script of an input. -/
def CTransaction.scriptSigOf (tx : CTransaction) (nIn : ℕ) : CScript :=
  ((tx.vin[nIn]?).map CTxIn.scriptSig).getD []

/-- The signature script that `SignSignature` tests. -/
def signatureScript {CKey : Type} (P : ScriptPrimitives) (keystore : CKeyStore CKey)
    (fromPubKey : CScript) (txTo : CTransaction) (nIn : ℕ) (nHashType : ℤ) : Option CScript :=
  let hash := signatureHash P fromPubKey txTo nIn nHashType
  (keystore.solve P fromPubKey hash nHashType).bind fun (whichType, scriptSig) =>
    if whichType = TX_SCRIPTHASH then
      let subscript := scriptSig
      let hash2 := signatureHash P subscript (txTo.withScriptSig nIn subscript) nIn nHashType
      (keystore.solve P subscript hash2 nHashType).bind fun (subType, scriptSig) =>
        if subType ≠ TX_SCRIPTHASH then some (scriptSig.pushBytes subscript) else none
    else some scriptSig

/-- `SignSignature`: the transaction with the signature, if it returns true.  It
asserts that the input exists. -/
def signSignature {CKey : Type} (P : ScriptPrimitives) (keystore : CKeyStore CKey)
    (fromPubKey : CScript) (txTo : CTransaction) (nIn : ℕ) (nHashType : ℤ) :
    Option CTransaction :=
  if nIn < txTo.vin.length then
    (signatureScript P keystore fromPubKey txTo nIn nHashType).bind fun scriptSig =>
      let txTo := txTo.withScriptSig nIn scriptSig
      if verifyScriptWithChecker P scriptSig fromPubKey STANDARD_SCRIPT_VERIFY_FLAGS
          (signatureChecker P txTo nIn) then some txTo
      else none
  else none

end SocietyGold
