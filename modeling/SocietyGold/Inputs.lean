import SocietyGold.ReadFromDisk

/-!
# Transaction inputs

`FetchInputs` collects the index record and the previous transaction of every
input, `ConnectInputs` checks them and marks the spent outputs, and
`GetOutputFor`, `GetOutputFor_Other` and `GetValueIn` look values up in the
collected inputs.
-/

namespace SocietyGold

open Support

/-- Index record and transaction for each previous transaction hash. -/
abbrev MapPrevTx := Table ℕ (CTxIndex × CTransaction)

/-! ## Script verification flags -/

def SCRIPT_VERIFY_NOCACHE : ℕ := 1
def SCRIPT_VERIFY_STRICTENC : ℕ := 2
def SCRIPT_VERIFY_NULLDUMMY : ℕ := 16
def SCRIPT_VERIFY_DISCOURAGE_UPGRADABLE_NOPS : ℕ := 128
def MANDATORY_SCRIPT_VERIFY_FLAGS : ℕ := 0

def STANDARD_SCRIPT_VERIFY_FLAGS : ℕ :=
  MANDATORY_SCRIPT_VERIFY_FLAGS ||| SCRIPT_VERIFY_STRICTENC ||| SCRIPT_VERIFY_NULLDUMMY |||
    SCRIPT_VERIFY_DISCOURAGE_UPGRADABLE_NOPS

/-- The flags of the standard set outside the mandatory set, which is empty. -/
def STANDARD_NOT_MANDATORY_VERIFY_FLAGS : ℕ :=
  STANDARD_SCRIPT_VERIFY_FLAGS - MANDATORY_SCRIPT_VERIFY_FLAGS

/-! ## Fetching -/

/-- What `FetchInputs` leaves behind: its return value, the collected inputs and
the flag for a definitely invalid transaction. -/
structure FetchResult where
  success : Bool
  inputsRet : MapPrevTx
  fInvalid : Bool

section Fetch

variable (env : Env) (txdb : CTxDB) (pool : CTxMemPool)

/-- The entry of `inputsRet[hash]`, created when it is missing. -/
def fetchedEntry (inputsRet : MapPrevTx) (hash : ℕ) : CTxIndex × CTransaction :=
  (inputsRet.lookup hash).getD (CTxIndex.null, CTransaction.null env.adjustedTime)

/-- The first loop of `FetchInputs`: read the record of every input, and the
previous transaction when it can only be in the memory pool. -/
def fetchRecords (fBlock fMiner : Bool) : List CTxIn → MapPrevTx → Bool × MapPrevTx
  | [], inputsRet => (true, inputsRet)
  | txin :: rest, inputsRet =>
      let hash := txin.prevout.hash
      let txPrev := (fetchedEntry env inputsRet hash).2
      let found := txdb.readTxIndex hash
      -- reading clears the record first
      let txindex := found.getD CTxIndex.null
      let inputsRet := inputsRet.insert hash (txindex, txPrev)
      if found.isNone && (fBlock || fMiner) then
        fetchRecords fBlock fMiner rest inputsRet
      else if found.isNone || txindex.pos = CDiskTxPos.inMemoryPool then
        match pool.lookup hash with
        | none => (false, inputsRet)
        | some txPrev =>
            let txindex :=
              if found.isNone then
                { txindex with vSpent := List.replicate txPrev.vout.length CDiskTxPos.null }
              else txindex
            fetchRecords fBlock fMiner rest (inputsRet.insert hash (txindex, txPrev))
      else
        -- the read of the previous transaction from disk is commented out
        fetchRecords fBlock fMiner rest inputsRet

/-- The second loop of `FetchInputs`: read the records again and look for output
numbers out of range, measured against this transaction's own outputs. -/
def checkPrevoutIndexes (nOutputs : ℕ) : List CTxIn → MapPrevTx → Bool → MapPrevTx × Bool
  | [], inputsRet, fInvalid => (inputsRet, fInvalid)
  | txin :: rest, inputsRet, fInvalid =>
      let hash := txin.prevout.hash
      let txindex := (txdb.readTxIndex hash).getD CTxIndex.null
      let inputsRet := inputsRet.insert hash (txindex, (fetchedEntry env inputsRet hash).2)
      let outOfRange := txin.prevout.n > nOutputs || txin.prevout.n ≥ txindex.vSpent.length
      checkPrevoutIndexes nOutputs rest inputsRet (fInvalid || outOfRange)

/-- `FetchInputs`.  Its parameter `mapTestPool` is never read. -/
def fetchInputs (tx : CTransaction) (fBlock fMiner : Bool) (inputsRet : MapPrevTx) :
    FetchResult :=
  if tx.isCoinBase then ⟨true, inputsRet, false⟩
  else
    match fetchRecords env txdb pool fBlock fMiner tx.vin inputsRet with
    | (false, inputsRet) => ⟨false, inputsRet, false⟩
    | (true, inputsRet) =>
        let (inputsRet, fInvalid) :=
          checkPrevoutIndexes env txdb tx.vout.length tx.vin inputsRet false
        ⟨true, inputsRet, fInvalid⟩

end Fetch

/-! ## Looking up outputs -/

namespace CTransaction

/-- `GetOutputFor`: an output of the transaction itself, by the input's output
number. -/
def getOutputFor (tx : CTransaction) (input : CTxIn) : Checked CTxOut :=
  if tx.vin.length = 0 ∨ tx.vout.length = 0 then
    -- a reference to a local variable is returned
    .error .danglingReference
  else if input.prevout.n = tx.vout.length then elementAt tx.vout 0
  else elementAt tx.vout input.prevout.n

/-- The loop of `GetP2SHSigOpCount`. -/
def p2shSigOpCountLoop (tx : CTransaction) : List CTxIn → (nSigOps : ℕ) → Checked ℕ
  | [], nSigOps => .ok nSigOps
  | txin :: rest, nSigOps => do
      let prevout ← tx.getOutputFor txin
      let count :=
        if prevout.scriptPubKey.isPayToScriptHash then
          prevout.scriptPubKey.getSigOpCountFor txin.scriptSig
        else 0
      p2shSigOpCountLoop tx rest (nSigOps + count)

def getP2SHSigOpCount (tx : CTransaction) : Checked ℕ :=
  if tx.isCoinBase then .ok 0 else tx.p2shSigOpCountLoop tx.vin 0

/-- `GetOutputFor_Other`: the value of the referenced output, or zero. -/
def getOutputFor_Other (tx : CTransaction) (input : CTxIn) (inputs : MapPrevTx) : Checked ℤ :=
  match inputs.lookup input.prevout.hash with
  | none => .ok 0
  | some (_, txPrev) =>
      if txPrev.vin.length = 0 ∨ txPrev.vout.length = 0 then .ok 0
      else if tx.vin.length = 0 ∨ tx.vout.length = 0 then .ok 0
      else do
        let txout ← elementAt txPrev.vout input.prevout.n
        .ok txout.nValue

/-- The loop of `GetValueIn`. -/
def valueInLoop (tx : CTransaction) (inputs : MapPrevTx) :
    List CTxIn → (nResult : ℤ) → Checked ℤ
  | [], nResult => .ok nResult
  | txin :: rest, nResult => do
      let value ← tx.getOutputFor_Other txin inputs
      valueInLoop tx inputs rest ((nResult + value).bmod (2 ^ 64))

def getValueIn (tx : CTransaction) (inputs : MapPrevTx) : Checked ℤ :=
  if tx.isCoinBase then .ok 0 else tx.valueInLoop inputs tx.vin 0

end CTransaction

/-! ## Connecting -/

/-- `VerifySignature`. -/
def verifySignature (env : Env) (txFrom txTo : CTransaction) (nIn flags : ℕ)
    (nHashType : ℤ) : Checked Bool :=
  match txTo.vin[nIn]? with
  | none => .error .assertionFailed
  | some txin =>
      match txFrom.vout[txin.prevout.n]? with
      | none => .ok false
      | some txout =>
          if txin.prevout.hash ≠ txFrom.getHash env.prims then .ok false
          else .ok (env.verifyScript txin.scriptSig txout.scriptPubKey txTo nIn flags nHashType)

/-- `IsConfirmedInNPrevBlocks`: the depth at which the walk down from a block
meets the block that holds the record. -/
def isConfirmedInNPrevBlocks (txindex : CTxIndex) (pindexFrom : CBlockIndex) (nMaxDepth : ℤ) :
    (chain : List CBlockIndex) → Option ℤ
  | [] => none
  | pindex :: rest =>
      let depth := pindexFrom.nHeight - pindex.nHeight
      if depth < nMaxDepth then
        if pindex.nBlockPos = txindex.pos.nBlockPos ∧ pindex.nFile = txindex.pos.nFile then
          some depth
        else isConfirmedInNPrevBlocks txindex pindexFrom nMaxDepth rest
      else none

/-- Mark one output of a record as spent. -/
def CTxIndex.spend (txindex : CTxIndex) (n : ℕ) (posThisTx : CDiskTxPos) : CTxIndex :=
  { txindex with vSpent := txindex.vSpent.set n posThisTx }

/-- The arguments of `ConnectInputs` that stay the same for all its inputs. -/
structure ConnectContext where
  posThisTx : CDiskTxPos
  pindexBlock : CBlockIndex
  fBlock : Bool
  fMiner : Bool
  flags : ℕ
  fValidateSig : Bool

/-- The state of the second loop of `ConnectInputs`: its copy of the inputs and
the caller's `mapTestPool`. -/
structure ConnectState where
  inputs : MapPrevTx
  mapTestPool : Table ℕ CTxIndex

section Connect

variable (env : Env) (st : ChainState) (tx : CTransaction) (ctx : ConnectContext)

/-- An input of the first loop makes `ConnectInputs` fail: it spends a coinbase
or coinstake that is not older than this transaction and not yet mature. -/
def spendsImmature (inputs : MapPrevTx) (txin : CTxIn) : Bool :=
  match inputs.lookup txin.prevout.hash with
  | none => false
  | some (txindex, txPrev) =>
      txPrev.nTime ≤ tx.nTime && (txPrev.isCoinBase || txPrev.isCoinStake) &&
        (isConfirmedInNPrevBlocks txindex ctx.pindexBlock env.nCoinbaseMaturity
          (st.chainFrom ctx.pindexBlock)).isSome

/-- The signature test makes `ConnectInputs` fail: the signature is wrong, but
only for flags that are not mandatory. -/
def refusesSignature (txPrev : CTransaction) (i : ℕ) : Checked Bool :=
  if ctx.fValidateSig && !(ctx.fBlock && !env.isInitialBlockDownload) then do
    let verified ← verifySignature env txPrev tx i ctx.flags 0
    if !verified && ctx.flags &&& STANDARD_NOT_MANDATORY_VERIFY_FLAGS ≠ 0 then
      verifySignature env txPrev tx i
        (ctx.flags ^^^ (ctx.flags &&& STANDARD_NOT_MANDATORY_VERIFY_FLAGS)) 0
    else .ok false
  else .ok false

/-- One round of the second loop of `ConnectInputs`. -/
def connectInput (s : ConnectState) (input : CTxIn × ℕ) : Checked (Flow Bool ConnectState) :=
  let prevout := input.1.prevout
  match s.inputs.lookup prevout.hash with
  | none => .error .assertionFailed
  | some (txindex, txPrev) =>
      if txPrev.nTime > tx.nTime then .ok (.next s)
      else do
        -- an output that is already spent is only logged
        let _ ← elementAt txindex.vSpent prevout.n
        let refused ← refusesSignature env tx ctx txPrev input.2
        if refused then .ok (.returned false)
        else do
          let _ ← storeAt txindex.vSpent prevout.n ctx.posThisTx
          let txindex := txindex.spend prevout.n ctx.posThisTx
          .ok (.next
            { inputs := s.inputs.insert prevout.hash (txindex, txPrev)
              mapTestPool :=
                if ctx.fBlock || ctx.fMiner then s.mapTestPool.insert prevout.hash txindex
                else s.mapTestPool })

/-- `ConnectInputs`: the return value and `mapTestPool` afterwards.  On a failure
the caller drops `mapTestPool`. -/
def connectInputs (inputs : MapPrevTx) (mapTestPool : Table ℕ CTxIndex) :
    Checked (Bool × Table ℕ CTxIndex) :=
  if tx.isCoinBase then .ok (true, mapTestPool)
  else if tx.vin.any fun txin => spendsImmature env st tx ctx inputs txin then
    .ok (false, mapTestPool)
  else do
    let flow ← forEach (connectInput env tx ctx) tx.vin.zipIdx ⟨inputs, mapTestPool⟩
    match flow with
    | .returned success => .ok (success, mapTestPool)
    | .next s =>
        if tx.isCoinStake then .ok (true, s.mapTestPool)
        else do
          -- the fee is computed from the output total and then not checked
          let _ ← tx.getValueOut
          .ok (true, s.mapTestPool)

end Connect

/-! ## Disconnecting -/

/-- `DisconnectInputs`.  The loop over the inputs reads their records and changes
nothing; only the transaction's own record is erased. -/
def disconnectInputs (prims : Primitives) (txdb : CTxDB) (tx : CTransaction) : Bool × CTxDB :=
  (true, (txdb.eraseTxIndex (tx.getHash prims)).2)

end SocietyGold
