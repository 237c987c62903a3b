import SocietyGold.Script
import SocietyGold.Support.Checked

/-!
# Transactions

Outpoints, inputs, outputs and transactions with their serialization, and the
checks of a transaction that need no context.
-/

namespace SocietyGold

open Support

/-! ## Amounts -/

def COIN : ℤ := 100000000

def CENT : ℤ := 1000000

/-- No amount larger than this is valid. -/
def MAX_MONEY : ℤ := 450000000 * COIN

def moneyRange (nValue : ℤ) : Bool := 0 ≤ nValue && nValue ≤ MAX_MONEY

theorem moneyRange_iff {nValue : ℤ} :
    moneyRange nValue = true ↔ 0 ≤ nValue ∧ nValue ≤ MAX_MONEY := by
  simp [moneyRange]

def MAX_BLOCK_SIZE : ℕ := 30000000

def MAX_BLOCK_SIGOPS : ℕ := MAX_BLOCK_SIZE / 50

def LOCKTIME_THRESHOLD : ℤ := 500000000

/-- The largest value of a 32-bit unsigned integer, `(unsigned int) -1`. -/
def UINT_MAX : ℕ := 2 ^ 32 - 1

/-- Why a check failed: the misbehaviour score and the logged message. -/
structure Rejection where
  nDoS : ℕ
  message : String
  deriving DecidableEq, Repr

/-- The result of a check. -/
abbrev Verdict := Except Rejection Unit

/-- Reject when the condition holds, with the source's score and message. -/
def refuseIf (condition : Bool) (nDoS : ℕ) (message : String) : Verdict :=
  if condition then .error ⟨nDoS, message⟩ else .ok ()

@[simp] theorem refuseIf_eq_ok {condition : Bool} {nDoS : ℕ} {message : String} {u : Unit} :
    refuseIf condition nDoS message = .ok u ↔ condition = false := by
  cases condition <;> simp [refuseIf]

/-- The truth value the source returns. -/
def Verdict.passed (verdict : Verdict) : Bool :=
  match verdict with
  | .ok _ => true
  | .error _ => false

theorem Verdict.passed_iff {verdict : Verdict} : verdict.passed = true ↔ verdict = .ok () := by
  cases verdict <;> simp [passed]

/-! ## Data -/

/-- A transaction hash with an index into its outputs. -/
structure COutPoint where
  hash : ℕ
  n : ℕ
  deriving DecidableEq, Repr, Inhabited

def COutPoint.null : COutPoint := ⟨0, UINT_MAX⟩

def COutPoint.isNull (prevout : COutPoint) : Bool :=
  prevout.hash = 0 && prevout.n = UINT_MAX

structure CTxIn where
  prevout : COutPoint
  scriptSig : CScript
  nSequence : ℕ
  deriving DecidableEq, Repr

def CTxIn.isFinal (txin : CTxIn) : Bool := txin.nSequence = UINT_MAX

structure CTxOut where
  nValue : ℤ
  scriptPubKey : CScript
  deriving DecidableEq, Repr

def CTxOut.null : CTxOut := ⟨-1, []⟩

def CTxOut.isEmpty (txout : CTxOut) : Bool :=
  txout.nValue = 0 && txout.scriptPubKey = []

structure CTransaction where
  nVersion : ℤ
  nTime : ℕ
  vin : List CTxIn
  vout : List CTxOut
  nLockTime : ℕ
  deriving DecidableEq, Repr

namespace CTransaction

def CURRENT_VERSION : ℤ := 1

/-- The transaction the default constructor builds at the given adjusted time. -/
def null (adjustedTime : ℕ) : CTransaction :=
  ⟨CURRENT_VERSION, adjustedTime % 2 ^ 32, [], [], 0⟩

def isNull (tx : CTransaction) : Bool := tx.vin = [] && tx.vout = []

def isCoinBase (tx : CTransaction) : Bool :=
  match tx.vin with
  | [txin] => txin.prevout.isNull && 1 ≤ tx.vout.length
  | _ => false

/-- The coinstake transaction is marked with an empty first output. -/
def isCoinStake (tx : CTransaction) : Bool :=
  match tx.vin, tx.vout with
  | txin :: _, txout :: _ :: _ => !txin.prevout.isNull && txout.isEmpty
  | _, _ => false

/-- The sum of all output values. -/
def valueOut (tx : CTransaction) : ℤ := (tx.vout.map CTxOut.nValue).sum

/-- The loop of `GetValueOut`, which throws on a value out of range. -/
def getValueOutLoop : List CTxOut → (nValueOut : ℤ) → Checked ℤ
  | [], nValueOut => .ok nValueOut
  | txout :: rest, nValueOut =>
      if moneyRange txout.nValue && moneyRange (nValueOut + txout.nValue) then
        getValueOutLoop rest (nValueOut + txout.nValue)
      else .error .uncaughtException

def getValueOut (tx : CTransaction) : Checked ℤ := getValueOutLoop tx.vout 0

/-! ## Serialization -/

def serializeOutPoint (prevout : COutPoint) : List UInt8 :=
  toBytesLE 32 prevout.hash ++ toBytesLE 4 prevout.n

def serializeTxIn (txin : CTxIn) : List UInt8 :=
  serializeOutPoint txin.prevout ++ serializeBytes txin.scriptSig ++
    toBytesLE 4 txin.nSequence

def serializeTxOut (txout : CTxOut) : List UInt8 :=
  intToBytesLE 8 txout.nValue ++ serializeBytes txout.scriptPubKey

def serialize (tx : CTransaction) : List UInt8 :=
  intToBytesLE 4 tx.nVersion ++ toBytesLE 4 tx.nTime ++
    serializeVector serializeTxIn tx.vin ++ serializeVector serializeTxOut tx.vout ++
    toBytesLE 4 tx.nLockTime

def txInSerializeSize (txin : CTxIn) : ℕ := 36 + bytesSerializeSize txin.scriptSig + 4

def txOutSerializeSize (txout : CTxOut) : ℕ := 8 + bytesSerializeSize txout.scriptPubKey

def getSerializeSize (tx : CTransaction) : ℕ :=
  4 + 4 + vectorSerializeSize txInSerializeSize tx.vin +
    vectorSerializeSize txOutSerializeSize tx.vout + 4

/-- The size the source computes is the number of bytes it writes. -/
theorem length_serialize (tx : CTransaction) :
    tx.serialize.length = tx.getSerializeSize := by
  have hIn : ∀ txin, (serializeTxIn txin).length = txInSerializeSize txin := by
    intro txin
    simp [serializeTxIn, serializeOutPoint, txInSerializeSize, length_serializeBytes]
    omega
  have hOut : ∀ txout, (serializeTxOut txout).length = txOutSerializeSize txout := by
    intro txout
    simp [serializeTxOut, txOutSerializeSize, length_serializeBytes]
  simp [serialize, getSerializeSize, length_serializeVector hIn, length_serializeVector hOut]
  omega

def readOutPoint : Reader COutPoint := fun stream => do
  let (hash, rest) ← readUint 32 stream
  let (n, rest) ← readUint 4 rest
  some (⟨hash, n⟩, rest)

def readTxIn : Reader CTxIn := fun stream => do
  let (prevout, rest) ← readOutPoint stream
  let (scriptSig, rest) ← unserializeBytes rest
  let (nSequence, rest) ← readUint 4 rest
  some (⟨prevout, scriptSig, nSequence⟩, rest)

def readTxOut : Reader CTxOut := fun stream => do
  let (nValue, rest) ← readInt 8 stream
  let (scriptPubKey, rest) ← unserializeBytes rest
  some (⟨nValue, scriptPubKey⟩, rest)

def unserialize : Reader CTransaction := fun stream => do
  let (nVersion, rest) ← readInt 4 stream
  let (nTime, rest) ← readUint 4 rest
  let (vin, rest) ← unserializeVector readTxIn rest
  let (vout, rest) ← unserializeVector readTxOut rest
  let (nLockTime, rest) ← readUint 4 rest
  some (⟨nVersion, nTime, vin, vout, nLockTime⟩, rest)

/-- The transaction id. -/
def getHash (prims : Primitives) (tx : CTransaction) : ℕ := prims.hash tx.serialize

/-! ## Checks without context -/

/-- The loop of `CheckTransaction` over the outputs. -/
def checkOutputs (tx : CTransaction) : List CTxOut → (nValueOut : ℤ) → Verdict
  | [], _ => .ok ()
  | txout :: rest, nValueOut => do
      refuseIf (txout.isEmpty && !tx.isCoinBase && !tx.isCoinStake) 100
        "CTransaction::CheckTransaction() : txout empty for user transaction"
      refuseIf (txout.nValue < 0) 100
        "CTransaction::CheckTransaction() : txout.nValue negative"
      refuseIf (txout.nValue > MAX_MONEY) 100
        "CTransaction::CheckTransaction() : txout.nValue too high"
      let nValueOut := nValueOut + txout.nValue
      refuseIf (!moneyRange nValueOut) 100
        "CTransaction::CheckTransaction() : txout total out of range"
      checkOutputs tx rest nValueOut

/-- The loop of `CheckTransaction` that collects the outpoints it has seen. -/
def hasDuplicateInputs : List CTxIn → (vInOutPoints : List COutPoint) → Bool
  | [], _ => false
  | txin :: rest, vInOutPoints =>
      if txin.prevout ∈ vInOutPoints then true
      else hasDuplicateInputs rest (txin.prevout :: vInOutPoints)

def checkTransaction (tx : CTransaction) : Verdict := do
  refuseIf (tx.vin = []) 0 "*** RGP DoS 1 fail!!"
  refuseIf (tx.vout = []) 10 "CTransaction::CheckTransaction() : vout empty"
  refuseIf (tx.getSerializeSize > MAX_BLOCK_SIZE) 100
    "CTransaction::CheckTransaction() : size limits failed"
  checkOutputs tx tx.vout 0
  refuseIf (hasDuplicateInputs tx.vin []) 0 ""
  if tx.isCoinBase then
    -- a coinbase has exactly one input
    refuseIf (tx.vin.any fun txin => txin.scriptSig.length < 2 || txin.scriptSig.length > 100)
      100 "CTransaction::CheckTransaction() : coinbase script size is invalid"
  else
    refuseIf (tx.vin.any fun txin => txin.prevout.isNull) 10
      "CTransaction::CheckTransaction() : prevout is null"

/-- `GetLegacySigOpCount`. -/
def getLegacySigOpCount (tx : CTransaction) : ℕ :=
  (tx.vin.map fun txin => txin.scriptSig.getSigOpCount false).sum +
    (tx.vout.map fun txout => txout.scriptPubKey.getSigOpCount false).sum

/-! ## What the checks establish -/

theorem getValueOutLoop_of_checkOutputs
    {tx : CTransaction} {vout : List CTxOut} {nValueOut : ℤ}
    (h : checkOutputs tx vout nValueOut = .ok ()) :
    getValueOutLoop vout nValueOut = .ok (nValueOut + (vout.map CTxOut.nValue).sum) := by
  induction vout generalizing nValueOut with
  | nil => simp [getValueOutLoop]
  | cons txout rest ih =>
      simp only [checkOutputs, bind_eq_ok, refuseIf_eq_ok, decide_eq_false_iff_not,
        Bool.not_eq_false', gt_iff_lt, not_lt] at h
      obtain ⟨-, -, -, hNeg, -, hHigh, -, hTotal, hRest⟩ := h
      have hValue : moneyRange txout.nValue = true := moneyRange_iff.mpr ⟨hNeg, hHigh⟩
      simp only [getValueOutLoop, hValue, hTotal, Bool.and_self, if_true, ih hRest,
        List.map_cons, List.sum_cons, add_assoc]

theorem hasDuplicateInputs_eq_false
    {vin : List CTxIn} {seen : List COutPoint} (h : hasDuplicateInputs vin seen = false) :
    (vin.map CTxIn.prevout).Nodup ∧ ∀ txin ∈ vin, txin.prevout ∉ seen := by
  induction vin generalizing seen with
  | nil => simp
  | cons txin rest ih =>
      unfold hasDuplicateInputs at h
      split_ifs at h with hSeen
      obtain ⟨hNodup, hFresh⟩ := ih h
      have hHead : txin.prevout ∉ rest.map CTxIn.prevout := by
        intro hMem
        obtain ⟨other, hOther, hEq⟩ := List.mem_map.mp hMem
        exact hFresh other hOther (by simp [hEq])
      refine ⟨by simpa using ⟨by simpa using hHead, hNodup⟩, ?_⟩
      intro other hOther
      rcases List.mem_cons.mp hOther with rfl | hOther
      · exact hSeen
      · intro hMem
        exact hFresh other hOther (by simp [hMem])

/-- The conditions a checked transaction meets before the coinbase rules. -/
theorem checkTransaction_eq_ok
    {tx : CTransaction} (h : tx.checkTransaction = .ok ()) :
    tx.vin ≠ [] ∧ tx.vout ≠ [] ∧ tx.getSerializeSize ≤ MAX_BLOCK_SIZE ∧
      checkOutputs tx tx.vout 0 = .ok () ∧ hasDuplicateInputs tx.vin [] = false := by
  simp only [checkTransaction, bind_eq_ok, refuseIf_eq_ok, decide_eq_false_iff_not,
    gt_iff_lt, not_lt] at h
  obtain ⟨-, hIn, -, hOut, -, hSize, u, hOutputs, -, hDup, -⟩ := h
  exact ⟨hIn, hOut, hSize, hOutputs, hDup⟩

section CheckedTransaction

variable {tx : CTransaction} (h : tx.checkTransaction = .ok ())
include h

theorem vin_ne_nil_of_checked : tx.vin ≠ [] := (checkTransaction_eq_ok h).1

theorem vout_ne_nil_of_checked : tx.vout ≠ [] := (checkTransaction_eq_ok h).2.1

/-- A checked transaction's output total does not throw. -/
theorem getValueOut_of_checked : tx.getValueOut = .ok tx.valueOut := by
  have hLoop := getValueOutLoop_of_checkOutputs (checkTransaction_eq_ok h).2.2.2.1
  simpa [getValueOut, valueOut] using hLoop

/-- A checked transaction spends no outpoint twice. -/
theorem nodup_prevouts_of_checked : (tx.vin.map CTxIn.prevout).Nodup :=
  (hasDuplicateInputs_eq_false (checkTransaction_eq_ok h).2.2.2.2).1

end CheckedTransaction

end CTransaction

end SocietyGold
