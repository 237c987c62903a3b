import SocietyGold.ScriptNum

/-!
# The text of a script

`CScript::ToString` lists the instructions of a script: small pushes as numbers, larger ones as
hexadecimal digits, and the names of the other opcodes.  Different scripts may have one text.
-/

namespace SocietyGold

/-- The names of the opcodes from `OP_PUSHDATA1` to `OP_NOP10`, which are numbered without
gaps. -/
def opNames : List String :=
  ["OP_PUSHDATA1", "OP_PUSHDATA2", "OP_PUSHDATA4", "-1", "OP_RESERVED", "1", "2", "3", "4", "5",
    "6", "7", "8", "9", "10", "11", "12", "13", "14", "15", "16", "OP_NOP", "OP_VER", "OP_IF",
    "OP_NOTIF", "OP_VERIF", "OP_VERNOTIF", "OP_ELSE", "OP_ENDIF", "OP_VERIFY", "OP_RETURN",
    "OP_TOALTSTACK", "OP_FROMALTSTACK", "OP_2DROP", "OP_2DUP", "OP_3DUP", "OP_2OVER", "OP_2ROT",
    "OP_2SWAP", "OP_IFDUP", "OP_DEPTH", "OP_DROP", "OP_DUP", "OP_NIP", "OP_OVER", "OP_PICK",
    "OP_ROLL", "OP_ROT", "OP_SWAP", "OP_TUCK", "OP_CAT", "OP_SUBSTR", "OP_LEFT", "OP_RIGHT",
    "OP_SIZE", "OP_INVERT", "OP_AND", "OP_OR", "OP_XOR", "OP_EQUAL", "OP_EQUALVERIFY",
    "OP_RESERVED1", "OP_RESERVED2", "OP_1ADD", "OP_1SUB", "OP_2MUL", "OP_2DIV", "OP_NEGATE",
    "OP_ABS", "OP_NOT", "OP_0NOTEQUAL", "OP_ADD", "OP_SUB", "OP_MUL", "OP_DIV", "OP_MOD",
    "OP_LSHIFT", "OP_RSHIFT", "OP_BOOLAND", "OP_BOOLOR", "OP_NUMEQUAL", "OP_NUMEQUALVERIFY",
    "OP_NUMNOTEQUAL", "OP_LESSTHAN", "OP_GREATERTHAN", "OP_LESSTHANOREQUAL",
    "OP_GREATERTHANOREQUAL", "OP_MIN", "OP_MAX", "OP_WITHIN", "OP_RIPEMD160", "OP_SHA1",
    "OP_SHA256", "OP_HASH160", "OP_HASH256", "OP_CODESEPARATOR", "OP_CHECKSIG",
    "OP_CHECKSIGVERIFY", "OP_CHECKMULTISIG", "OP_CHECKMULTISIGVERIFY", "OP_NOP1", "OP_NOP2",
    "OP_NOP3", "OP_NOP4", "OP_NOP5", "OP_NOP6", "OP_NOP7", "OP_NOP8", "OP_NOP9", "OP_NOP10"]

def getOpName (opcode : Opcodetype) : String :=
  if opcode = OP_0 then "0"
  else if opcode = OP_INVALIDOPCODE then "OP_INVALIDOPCODE"
  else if opcode < OP_PUSHDATA1 then "OP_UNKNOWN"
  else (opNames[(opcode - OP_PUSHDATA1).toNat]?).getD "OP_UNKNOWN"

def hexStr (vch : Valtype) : String :=
  String.ofList (vch.flatMap fun b =>
    [Nat.digitChar (b.toNat / 16), Nat.digitChar (b.toNat % 16)])

def valueString (vch : Valtype) : String :=
  if vch.length ≤ 4 then toString (CBigNum.getint (CBigNum.setvch vch)) else hexStr vch

namespace CScript

/-- The text of what `GetOp` delivers. -/
def opText (op : GetOpResult) : String :=
  if !op.fRet then "[error]"
  else if op.opcodeRet ≤ OP_PUSHDATA4 then valueString op.vchRet
  else getOpName op.opcodeRet

/-- The loop of `ToString`, which stops at an instruction that cannot be read. -/
def appendOps : (str : String) → List GetOpResult → String
  | str, [] => str
  | str, op :: ops =>
      let str := (if str ≠ "" then str ++ " " else str) ++ opText op
      if op.fRet then appendOps str ops else str

def toString (script : CScript) : String := appendOps "" script.instructions

end CScript

/-- A push of one and the opcode for one have the same text. -/
example : CScript.toString [1, 1] = CScript.toString [OP_1] := by decide +kernel

end SocietyGold
