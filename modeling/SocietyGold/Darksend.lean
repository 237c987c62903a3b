import SocietyGold.EvalScript
import SocietyGold.MasternodeMan

/-!
# The mixing pool

The data of a mixing session: the entries that clients have submitted, with their inputs and
outputs, the final transaction that is made of them, and the state of the session.
-/

namespace SocietyGold

open Support

/-! ## Entries -/

/-- An input of an entry, with the script it spends if that is known.  Inputs from the network
come without one. -/
structure CTxDSIn extends CTxIn where
  prevPubKey : CScript
  fHasSig : Bool
  deriving DecidableEq, Repr

def CTxDSIn.ofTxIn (txin : CTxIn) : CTxDSIn := ⟨txin, [], false⟩

structure CDarkSendEntry where
  isSet : Bool
  sev : List CTxDSIn
  vout : List CTxOut
  amount : ℤ
  collateral : CTransaction
  addedTime : ℤ
  deriving DecidableEq, Repr

namespace CDarkSendEntry

/-- The entry that `Add` makes of a new one. -/
def add (vinIn : List CTxIn) (amountIn : ℤ) (collateralIn : CTransaction) (voutIn : List CTxOut)
    (time : ℤ) : CDarkSendEntry where
  isSet := true
  sev := vinIn.map CTxDSIn.ofTxIn
  vout := voutIn
  amount := amountIn
  collateral := collateralIn
  addedTime := time

/-- The inputs of an entry as a transaction holds them. -/
def vin (e : CDarkSendEntry) : List CTxIn := e.sev.map CTxDSIn.toCTxIn

def DARKSEND_QUEUE_TIMEOUT : ℤ := 30

def isExpired (e : CDarkSendEntry) (time : ℤ) : Bool :=
  time - e.addedTime > DARKSEND_QUEUE_TIMEOUT

end CDarkSendEntry

/-! ## The pool -/

inductive PoolStatus
  | POOL_STATUS_UNKNOWN
  | POOL_STATUS_IDLE
  | POOL_STATUS_QUEUE
  | POOL_STATUS_ACCEPTING_ENTRIES
  | POOL_STATUS_FINALIZE_TRANSACTION
  | POOL_STATUS_SIGNING
  | POOL_STATUS_TRANSMISSION
  | POOL_STATUS_ERROR
  | POOL_STATUS_SUCCESS
  deriving DecidableEq, Repr

open PoolStatus

structure CDarksendPool where
  entries : List CDarkSendEntry
  finalTransaction : CTransaction
  state : PoolStatus
  sessionID : ℤ
  sessionUsers : ℤ
  sessionDenom : ℤ
  vecSessionCollateral : List CTransaction
  lastTimeChanged : ℤ
  deriving DecidableEq, Repr

namespace CDarksendPool

variable (pool : CDarksendPool)

/-- `SetNull`: the session ends. -/
def setNull (nTimeMillis : ℤ) : CDarksendPool where
  entries := []
  finalTransaction := { pool.finalTransaction with vin := [], vout := [] }
  state := POOL_STATUS_IDLE
  sessionID := 0
  sessionUsers := 0
  sessionDenom := 0
  vecSessionCollateral := []
  lastTimeChanged := nTimeMillis

/-- The inputs of all entries. -/
def inputs : List CTxDSIn := pool.entries.flatMap CDarkSendEntry.sev

/-- The inputs of all entries as a transaction holds them. -/
def vin : List CTxIn := pool.entries.flatMap CDarkSendEntry.vin

/-- The outputs of all entries. -/
def vout : List CTxOut := pool.entries.flatMap CDarkSendEntry.vout

end CDarksendPool

/-! ## Outputs and inputs -/

/-- The sum of the values of outputs, as 64-bit integers are added. -/
def sumValues (vout : List CTxOut) : ℤ := vout.foldl (fun sum o => wrap64 (sum + o.nValue)) 0

/-- The position of the last input that is `s`. -/
def findInput (vin : List CTxIn) (s : CTxIn) : Option ℕ :=
  (List.range vin.length).reverse.find? fun i => vin[i]? = some s

theorem getElem?_of_findInput
    {vin : List CTxIn} {s : CTxIn} {n : ℕ} (h : findInput vin s = some n) :
    vin[n]? = some s := by
  simpa using List.find?_some h

end SocietyGold
