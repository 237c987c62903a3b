import SocietyGold.Inputs

/-!
# Opcodes and verification flags

The opcodes the interpreters know besides those of the instruction reader, the
limits they enforce, the verification flags, and two functions on script bytes
that both interpreters share: `CastToBool` and `FindAndDelete`.
-/

namespace SocietyGold

/-- An element of the interpreter's stack. -/
abbrev Valtype := List UInt8

/-! ## Opcodes -/

def OP_1NEGATE : Opcodetype := 0x4f

def OP_NOP : Opcodetype := 0x61
def OP_IF : Opcodetype := 0x63
def OP_NOTIF : Opcodetype := 0x64
def OP_ELSE : Opcodetype := 0x67
def OP_ENDIF : Opcodetype := 0x68
def OP_VERIFY : Opcodetype := 0x69
def OP_RETURN : Opcodetype := 0x6a

def OP_TOALTSTACK : Opcodetype := 0x6b
def OP_FROMALTSTACK : Opcodetype := 0x6c
def OP_2DROP : Opcodetype := 0x6d
def OP_2DUP : Opcodetype := 0x6e
def OP_3DUP : Opcodetype := 0x6f
def OP_2OVER : Opcodetype := 0x70
def OP_2ROT : Opcodetype := 0x71
def OP_2SWAP : Opcodetype := 0x72
def OP_IFDUP : Opcodetype := 0x73
def OP_DEPTH : Opcodetype := 0x74
def OP_DROP : Opcodetype := 0x75
def OP_DUP : Opcodetype := 0x76
def OP_NIP : Opcodetype := 0x77
def OP_OVER : Opcodetype := 0x78
def OP_PICK : Opcodetype := 0x79
def OP_ROLL : Opcodetype := 0x7a
def OP_ROT : Opcodetype := 0x7b
def OP_SWAP : Opcodetype := 0x7c
def OP_TUCK : Opcodetype := 0x7d

def OP_CAT : Opcodetype := 0x7e
def OP_SUBSTR : Opcodetype := 0x7f
def OP_LEFT : Opcodetype := 0x80
def OP_RIGHT : Opcodetype := 0x81
def OP_SIZE : Opcodetype := 0x82

def OP_INVERT : Opcodetype := 0x83
def OP_AND : Opcodetype := 0x84
def OP_OR : Opcodetype := 0x85
def OP_XOR : Opcodetype := 0x86
def OP_EQUALVERIFY : Opcodetype := 0x88

def OP_1ADD : Opcodetype := 0x8b
def OP_1SUB : Opcodetype := 0x8c
def OP_2MUL : Opcodetype := 0x8d
def OP_2DIV : Opcodetype := 0x8e
def OP_NEGATE : Opcodetype := 0x8f
def OP_ABS : Opcodetype := 0x90
def OP_NOT : Opcodetype := 0x91
def OP_0NOTEQUAL : Opcodetype := 0x92

def OP_ADD : Opcodetype := 0x93
def OP_SUB : Opcodetype := 0x94
def OP_MUL : Opcodetype := 0x95
def OP_DIV : Opcodetype := 0x96
def OP_MOD : Opcodetype := 0x97
def OP_LSHIFT : Opcodetype := 0x98
def OP_RSHIFT : Opcodetype := 0x99
def OP_BOOLAND : Opcodetype := 0x9a
def OP_BOOLOR : Opcodetype := 0x9b
def OP_NUMEQUAL : Opcodetype := 0x9c
def OP_NUMEQUALVERIFY : Opcodetype := 0x9d
def OP_NUMNOTEQUAL : Opcodetype := 0x9e
def OP_LESSTHAN : Opcodetype := 0x9f
def OP_GREATERTHAN : Opcodetype := 0xa0
def OP_LESSTHANOREQUAL : Opcodetype := 0xa1
def OP_GREATERTHANOREQUAL : Opcodetype := 0xa2
def OP_MIN : Opcodetype := 0xa3
def OP_MAX : Opcodetype := 0xa4
def OP_WITHIN : Opcodetype := 0xa5

def OP_RIPEMD160 : Opcodetype := 0xa6
def OP_SHA1 : Opcodetype := 0xa7
def OP_SHA256 : Opcodetype := 0xa8
def OP_HASH256 : Opcodetype := 0xaa
def OP_CODESEPARATOR : Opcodetype := 0xab

def OP_NOP1 : Opcodetype := 0xb0
def OP_NOP10 : Opcodetype := 0xb9

/-- The opcodes that make a script fail even where they are not executed.  Their
cases in the switch of the interpreter are never reached. -/
def isDisabled (opcode : Opcodetype) : Bool :=
  [OP_CAT, OP_SUBSTR, OP_LEFT, OP_RIGHT, OP_INVERT, OP_AND, OP_OR, OP_XOR, OP_2MUL, OP_2DIV,
    OP_MUL, OP_DIV, OP_MOD, OP_LSHIFT, OP_RSHIFT].contains opcode

/-! ## Limits -/

def MAX_SCRIPT_ELEMENT_SIZE : ℕ := 520

def MAX_OP_RETURN_RELAY : ℕ := 40

def nDefaultMaxNumSize : ℕ := 4

/-! ## Signature hash types and verification flags -/

def SIGHASH_ALL : UInt8 := 1
def SIGHASH_NONE : UInt8 := 2
def SIGHASH_SINGLE : UInt8 := 3
def SIGHASH_ANYONECANPAY : UInt8 := 0x80

/-- The same bit as `SCRIPT_VERIFY_NOCACHE`. -/
def SCRIPT_VERIFY_P2SH : ℕ := 1

def SCRIPT_VERIFY_DERSIG : ℕ := 4
def SCRIPT_VERIFY_LOW_S : ℕ := 8
def SCRIPT_VERIFY_SIGPUSHONLY : ℕ := 32
def SCRIPT_VERIFY_MINIMALDATA : ℕ := 64

/-- Is one of the bits of `mask` set? -/
def hasFlag (flags mask : ℕ) : Bool := flags &&& mask ≠ 0

/-- Every bit of the first word is set in the second. -/
def FlagSubset (flags flags' : ℕ) : Prop := flags &&& flags' = flags

instance (flags flags' : ℕ) : Decidable (FlagSubset flags flags') :=
  inferInstanceAs (Decidable (flags &&& flags' = flags))

theorem hasFlag_of_subset
    {flags flags' : ℕ} (hSub : FlagSubset flags flags') {mask : ℕ}
    (h : hasFlag flags mask = true) : hasFlag flags' mask = true := by
  have hNe : flags &&& mask ≠ 0 := by simpa [hasFlag] using h
  have hNe' : flags' &&& mask ≠ 0 := by
    intro hZero
    apply hNe
    calc flags &&& mask = flags &&& flags' &&& mask := by rw [hSub]
      _ = flags &&& (flags' &&& mask) := Nat.and_assoc _ _ _
      _ = 0 := by rw [hZero, Nat.and_zero]
  simpa [hasFlag] using hNe'

/-! ## Truth values -/

/-- An element is false when its bytes are zero, up to a sign bit in the last. -/
def castToBool : Valtype → Bool
  | [] => false
  | [b] => !(b = 0 || b = 0x80)
  | b :: bs => b ≠ 0 || castToBool bs

def vchFalse : Valtype := []

def vchTrue : Valtype := [1]

def boolVch (fValue : Bool) : Valtype := if fValue then vchTrue else vchFalse

@[simp] theorem castToBool_boolVch (fValue : Bool) : castToBool (boolVch fValue) = fValue := by
  cases fValue <;> rfl

/-! ## Script code -/

namespace CScript

/-- One round of `FindAndDelete`: at an instruction boundary the pattern is
erased as often as it comes, then one instruction is kept. -/
def findAndDeleteLoop (b : CScript) : (fuel : ℕ) → CScript → CScript
  | 0, script => script
  | fuel + 1, script =>
      if b.isPrefixOf script then findAndDeleteLoop b fuel (script.drop b.length)
      else
        let op := getOp2 script
        if op.fRet = false then script
        else script.take (script.length - op.rest.length) ++ findAndDeleteLoop b fuel op.rest

/-- Erase a byte pattern at the instruction boundaries of a script. -/
def findAndDelete (script b : CScript) : CScript :=
  if b = [] then script else findAndDeleteLoop b (script.length + 1) script

/-- Has the script only instructions that push? -/
def isPushOnly (script : CScript) : Bool :=
  script.instructions.all fun op => op.fRet && op.opcodeRet ≤ OP_16

end CScript

end SocietyGold
