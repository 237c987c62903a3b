import SocietyGold.AcceptBlock
import SocietyGold.Solver

/-!
# Standard transactions

What a node relays: `IsStandardTx` looks at a transaction alone, `AreInputsStandard` at its
inputs together with the outputs they spend.
-/

namespace SocietyGold

open Support TxnOutType

/-- `MAX_BLOCK_SIZE_GEN / 5`. -/
def MAX_STANDARD_TX_SIZE : ℕ := MAX_BLOCK_SIZE / 2 / 5

def MAX_P2SH_SIGOPS : ℕ := 15

/-- What the acceptance of loose transactions takes from outside besides an `Env`. -/
structure RelayEnv extends Env where
  fTestNet : Bool
  /-- The ids of the transactions that masternodes sent for free. -/
  mapDarksendBroadcastTxes : Finset ℕ
  scriptPrims : ScriptPrimitives
  signatureCache : CSignatureCache scriptPrims
  prims_eq : scriptPrims.toPrimitives = prims

/-! ## Scripts -/

/-- One round of `HasCanonicalPushes`: a push takes the shortest opcode for its data. -/
def isCanonicalPush (op : GetOpResult) : Bool :=
  if op.fRet = false then false
  else if op.opcodeRet > OP_16 then true
  else if op.opcodeRet < OP_PUSHDATA1 ∧ op.opcodeRet > OP_0 ∧
      (op.vchRet.length = 1 ∧ op.vchRet.all (· ≤ 16)) then false
  else if op.opcodeRet = OP_PUSHDATA1 ∧ op.vchRet.length < OP_PUSHDATA1.toNat then false
  else if op.opcodeRet = OP_PUSHDATA2 ∧ op.vchRet.length ≤ 0xFF then false
  else if op.opcodeRet = OP_PUSHDATA4 ∧ op.vchRet.length ≤ 0xFFFF then false
  else true

def CScript.hasCanonicalPushes (script : CScript) : Bool :=
  script.instructions.all isCanonicalPush

/-- One round of `IsNormalPaymentScript`, with its number. -/
def isNormalPaymentOp (i : ℕ) (opcode : Opcodetype) : Bool :=
  if i = 0 then opcode = OP_DUP
  else if i = 1 then opcode = OP_HASH160
  else if i = 3 then opcode = OP_EQUALVERIFY
  else if i = 4 then opcode = OP_CHECKSIG
  else i ≠ 5

def CScript.isNormalPaymentScript (script : CScript) : Bool :=
  script.length = 25 &&
    script.instructions.zipIdx.all fun op => isNormalPaymentOp op.2 op.1.opcodeRet

def CScript.isUnspendable (script : CScript) : Bool := script.head? = some OP_RETURN

/-- The number of items a signature script leaves for an output of the type, or -1. -/
def scriptSigArgsExpected (t : TxnOutType) (vSolutions : List Valtype) : ℤ :=
  match t with
  | TX_NONSTANDARD => -1
  | TX_NULL_DATA => -1
  | TX_PUBKEY => 1
  | TX_PUBKEYHASH => 2
  | TX_MULTISIG =>
      match vSolutions.head?.bind List.head? with
      | none => -1
      | some m => (m.toNat : ℤ) + 1
  | TX_SCRIPTHASH => 1

/-- `IsStandard`, with the type of the output. -/
def isStandard (scriptPubKey : CScript) : Option TxnOutType :=
  match solver scriptPubKey with
  | none => none
  | some (whichType, vSolutions) =>
      let m := smallInteger vSolutions.head?
      let n := smallInteger vSolutions.getLast?
      if whichType = TX_MULTISIG ∧ (n < 1 ∨ n > 3) then none
      else if whichType = TX_MULTISIG ∧ (m < 1 ∨ m > n) then none
      else if whichType = TX_NONSTANDARD then none
      else some whichType

/-! ## Transactions -/

/-- The loop of `IsStandardTx` over the inputs.  An error is the reason. -/
def standardInputs : List CTxIn → Except String Unit
  | [] => .ok ()
  | txin :: rest =>
      if txin.scriptSig.length > 1650 then .error "scriptsig-size"
      else if !CScript.isPushOnly txin.scriptSig then .error "scriptsig-not-pushonly"
      else if !txin.scriptSig.hasCanonicalPushes then .error "scriptsig-non-canonical-push"
      else standardInputs rest

/-- The loop of `IsStandardTx` over the outputs, which counts those that hold data. -/
def standardOutputs : List CTxOut → (nDataOut : ℕ) → Except String ℕ
  | [], nDataOut => .ok nDataOut
  | txout :: rest, nDataOut =>
      match isStandard txout.scriptPubKey with
      | none => .error "scriptpubkey"
      | some whichType =>
          if whichType ≠ TX_NULL_DATA ∧ txout.nValue = 0 then .error "dust"
          else if !txout.scriptPubKey.hasCanonicalPushes then
            .error "scriptpubkey-non-canonical-push"
          else
            standardOutputs rest (if whichType = TX_NULL_DATA then nDataOut + 1 else nDataOut)

def isStandardTx (env : Env) (st : ChainState) (tx : CTransaction) : Except String Unit :=
  if tx.nVersion > CTransaction.CURRENT_VERSION ∨ tx.nVersion < 1 then .error "version"
  else if !isFinalTx env st tx (st.nBestHeight + 1) 0 then .error "non-final"
  else if (tx.nTime : ℤ) > futureDrift env.adjustedTime then .error "time-too-new"
  else if tx.getSerializeSize ≥ MAX_STANDARD_TX_SIZE then .error "tx-size"
  else do
    standardInputs tx.vin
    let nDataOut ← standardOutputs tx.vout 0
    if nDataOut > 1 ∧ nDataOut > tx.vout.length / 2 then .error "multi-op-return" else .ok ()

/-! ## Inputs -/

/-- The loop of `AreInputsStandard`.  A pay-to-script-hash input with an unknown script
ends it. -/
def standardInputsLoop (env : RelayEnv) (tx : CTransaction) : List (CTxIn × ℕ) → Checked Bool
  | [] => .ok true
  | (txin, i) :: rest => do
      let prev ← tx.getOutputFor txin
      match solver prev.scriptPubKey with
      | none => .ok false
      | some (whichType, vSolutions) =>
          let nArgsExpected := scriptSigArgsExpected whichType vSolutions
          if nArgsExpected < 0 then .ok false
          else
            match evalScript env.scriptPrims env.signatureCache [] txin.scriptSig tx i
                SCRIPT_VERIFY_NONE 0 with
            | none => .ok false
            | some stack =>
                if whichType = TX_SCRIPTHASH then
                  match stack with
                  | [] => .ok false
                  | subscript :: _ =>
                      match solver subscript with
                      | none =>
                          .ok (decide (CScript.getSigOpCount subscript true ≤ MAX_P2SH_SIGOPS))
                      | some (whichType2, vSolutions2) =>
                          let tmpExpected := scriptSigArgsExpected whichType2 vSolutions2
                          if whichType2 = TX_SCRIPTHASH then .ok false
                          else if tmpExpected < 0 then .ok false
                          else if (stack.length : ℤ) ≠ nArgsExpected + tmpExpected then .ok false
                          else standardInputsLoop env tx rest
                else if (stack.length : ℤ) ≠ nArgsExpected then .ok false
                else standardInputsLoop env tx rest

def areInputsStandard (env : RelayEnv) (tx : CTransaction) : Checked Bool :=
  if tx.isCoinBase then .ok true else standardInputsLoop env tx tx.vin.zipIdx

end SocietyGold
