import SocietyGold.Bignum

/-!
# Scripts

A script is a byte string.  This file has the instruction reader `GetOp`, the
signature-operation counts built on it, the recognition of pay-to-script-hash
outputs and the append operators.
-/

namespace SocietyGold

abbrev CScript := List UInt8

abbrev Opcodetype := UInt8

/-! ## Opcodes -/

def OP_0 : Opcodetype := 0x00
def OP_PUSHDATA1 : Opcodetype := 0x4c
def OP_PUSHDATA2 : Opcodetype := 0x4d
def OP_PUSHDATA4 : Opcodetype := 0x4e
def OP_1 : Opcodetype := 0x51
def OP_16 : Opcodetype := 0x60
def OP_EQUAL : Opcodetype := 0x87
def OP_HASH160 : Opcodetype := 0xa9
def OP_CHECKSIG : Opcodetype := 0xac
def OP_CHECKSIGVERIFY : Opcodetype := 0xad
def OP_CHECKMULTISIG : Opcodetype := 0xae
def OP_CHECKMULTISIGVERIFY : Opcodetype := 0xaf
def OP_INVALIDOPCODE : Opcodetype := 0xff

/-! ## Reading instructions -/

/-- What one call of `GetOp` delivers: its return value, the opcode, the pushed
bytes and the script after the advanced position. -/
structure GetOpResult where
  fRet : Bool
  opcodeRet : Opcodetype
  vchRet : List UInt8
  rest : CScript
  deriving DecidableEq, Repr

namespace CScript

/-- Read the size operand of a push, with the bytes after it; without a size
when the script is too short to hold it. -/
def sizeOperand (width : ℕ) (rest : CScript) : Option ℕ × CScript :=
  if rest.length < width then (none, rest)
  else (some (fromBytesLE (rest.take width)), rest.drop width)

/-- The number of bytes a push opcode announces. -/
def pushSize (opcode : Opcodetype) (rest : CScript) : Option ℕ × CScript :=
  if opcode < OP_PUSHDATA1 then (some opcode.toNat, rest)
  else if opcode = OP_PUSHDATA1 then sizeOperand 1 rest
  else if opcode = OP_PUSHDATA2 then sizeOperand 2 rest
  else sizeOperand 4 rest

def getOp2 (script : CScript) : GetOpResult :=
  match script with
  | [] => ⟨false, OP_INVALIDOPCODE, [], []⟩
  | opcode :: rest =>
      if opcode ≤ OP_PUSHDATA4 then
        match pushSize opcode rest with
        | (none, rest) => ⟨false, OP_INVALIDOPCODE, [], rest⟩
        | (some nSize, rest) =>
            if rest.length < nSize then ⟨false, OP_INVALIDOPCODE, [], rest⟩
            else ⟨true, opcode, rest.take nSize, rest.drop nSize⟩
      else ⟨true, opcode, [], rest⟩

theorem length_sizeOperand_le (width : ℕ) (rest : CScript) :
    (sizeOperand width rest).2.length ≤ rest.length := by
  unfold sizeOperand
  split_ifs <;> simp

theorem length_pushSize_le (opcode : Opcodetype) (rest : CScript) :
    (pushSize opcode rest).2.length ≤ rest.length := by
  unfold pushSize
  split_ifs
  · exact le_rfl
  all_goals exact length_sizeOperand_le _ rest

/-- Every call on a script with bytes left advances. -/
theorem length_getOp2_lt {script : CScript} (h : script ≠ []) :
    (getOp2 script).rest.length < script.length := by
  cases script with
  | nil => exact absurd rfl h
  | cons opcode rest =>
      have hSize := length_pushSize_le opcode rest
      simp only [getOp2, List.length_cons]
      by_cases hPush : opcode ≤ OP_PUSHDATA4
      · rw [if_pos hPush]
        rcases hOperand : pushSize opcode rest with ⟨size, after⟩
        rw [hOperand] at hSize
        cases size with
        | none => exact Nat.lt_succ_of_le hSize
        | some nSize =>
            have hDrop : (after.drop nSize).length ≤ after.length := by simp
            simp only
            split_ifs
            · exact Nat.lt_succ_of_le hSize
            · exact Nat.lt_succ_of_le (le_trans hDrop hSize)
      · rw [if_neg hPush]
        exact Nat.lt_succ_self _

/-- The results of calling `GetOp` again and again while bytes are left. -/
def getOps : (fuel : ℕ) → CScript → List GetOpResult
  | 0, _ => []
  | fuel + 1, script =>
      if script = [] then []
      else getOp2 script :: getOps fuel (getOp2 script).rest

/-- A script has as many instructions as fit into its length. -/
def instructions (script : CScript) : List GetOpResult :=
  getOps script.length script

theorem getOps_eq_of_le
    {fuel : ℕ} {script : CScript} (h : script.length ≤ fuel) :
    getOps fuel script = script.instructions := by
  suffices hAll : ∀ n fuel script, script.length ≤ n → n ≤ fuel →
      getOps fuel script = getOps n script by
    exact hAll script.length fuel script le_rfl h
  intro n
  induction n with
  | zero =>
      intro fuel script hLen _
      have hNil : script = [] := by simpa using hLen
      cases fuel <;> simp [getOps, hNil]
  | succ n ih =>
      intro fuel script hLen hFuel
      obtain ⟨fuel, rfl⟩ : ∃ k, fuel = k + 1 := ⟨fuel - 1, by omega⟩
      by_cases hNil : script = []
      · simp [getOps, hNil]
      · have hRest := length_getOp2_lt hNil
        simp only [getOps, hNil, if_false, List.cons.injEq, true_and]
        exact ih fuel _ (by omega) (by omega)

/-- The loop over a script takes one instruction and goes on after it. -/
theorem instructions_eq {script : CScript} (h : script ≠ []) :
    script.instructions = getOp2 script :: instructions (getOp2 script).rest := by
  have hPos : 0 < script.length := List.length_pos_of_ne_nil h
  have hRest := length_getOp2_lt h
  obtain ⟨n, hn⟩ : ∃ n, script.length = n + 1 := ⟨script.length - 1, by omega⟩
  rw [instructions, hn, getOps, if_neg h, getOps_eq_of_le (by omega)]

/-! ## Counting signature operations -/

def decodeOP_N (opcode : Opcodetype) : ℕ :=
  if opcode = OP_0 then 0 else opcode.toNat - (OP_1.toNat - 1)

/-- The loop of `GetSigOpCount`, which stops at the first malformed push. -/
def sigOpCountLoop (fAccurate : Bool) :
    List GetOpResult → (lastOpcode : Opcodetype) → (n : ℕ) → ℕ
  | [], _, n => n
  | op :: ops, lastOpcode, n =>
      if op.fRet = false then n
      else
        let opcode := op.opcodeRet
        let count :=
          if opcode = OP_CHECKSIG ∨ opcode = OP_CHECKSIGVERIFY then 1
          else if opcode = OP_CHECKMULTISIG ∨ opcode = OP_CHECKMULTISIGVERIFY then
            if fAccurate ∧ OP_1 ≤ lastOpcode ∧ lastOpcode ≤ OP_16 then decodeOP_N lastOpcode
            else 20
          else 0
        sigOpCountLoop fAccurate ops opcode (n + count)

def getSigOpCount (script : CScript) (fAccurate : Bool) : ℕ :=
  sigOpCountLoop fAccurate script.instructions OP_INVALIDOPCODE 0

def isPayToScriptHash (script : CScript) : Bool :=
  script.length = 23 && script[0]? = some OP_HASH160 && script[1]? = some 0x14 &&
    script[22]? = some OP_EQUAL

/-- The last item that a push-only script puts on the stack. -/
def lastPush : List GetOpResult → (data : List UInt8) → Option (List UInt8)
  | [], data => some data
  | op :: ops, _ =>
      if op.fRet = false then none
      else if op.opcodeRet > OP_16 then none
      else lastPush ops op.vchRet

/-- The count of a script public key together with the script that spends it. -/
def getSigOpCountFor (scriptPubKey scriptSig : CScript) : ℕ :=
  if !scriptPubKey.isPayToScriptHash then scriptPubKey.getSigOpCount true
  else
    match lastPush scriptSig.instructions [] with
    | none => 0
    | some data => getSigOpCount data true

/-! ## Appending -/

/-- `operator<<` for a byte vector. -/
def pushBytes (script : CScript) (b : List UInt8) : CScript :=
  let header :=
    if b.length < OP_PUSHDATA1.toNat then toBytesLE 1 b.length
    else if b.length ≤ 0xff then OP_PUSHDATA1 :: toBytesLE 1 b.length
    else if b.length ≤ 0xffff then OP_PUSHDATA2 :: toBytesLE 2 b.length
    else OP_PUSHDATA4 :: toBytesLE 4 b.length
  script ++ header ++ b

/-- `operator<<` for a signed integer. -/
def pushInt64 (script : CScript) (n : ℤ) : CScript :=
  if n = -1 ∨ (1 ≤ n ∧ n ≤ 16) then script ++ intToBytesLE 1 (n + (OP_1.toNat - 1))
  else script.pushBytes (CBigNum.getvch n)

end CScript

example : CScript.pushInt64 [] 300 = [0x02, 0x2c, 0x01] := by decide +kernel

end SocietyGold
