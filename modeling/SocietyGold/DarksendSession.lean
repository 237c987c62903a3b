import SocietyGold.AcceptableInputs
import SocietyGold.DarksendSignatures
import SocietyGold.InstantX
import SocietyGold.MasternodeAnnounce

/-!
# Mixing sessions of a masternode

Clients join a session with `dsa`, which fixes its denominations, submit their entries with
`dsi`, and sign the final transaction with `dss`.  Timers end a session or open it for entries,
and `Check` moves it on.  All of this runs on a masternode.

The status messages to the peers, the charging of collaterals and the announcement of the session
are left out: none of them changes the session.
-/

namespace SocietyGold

open Support PoolStatus

/-! ## Denominations -/

def darkSendDenominations : List ℤ :=
  [1000 * COIN + 1000000, 100 * COIN + 100000, 10 * COIN + 10000, 1 * COIN + 1000,
    COIN / 10 + 100]

/-- `GetDenominations`: a bit for each denomination among the outputs, zero if one of them is
none. -/
def getDenominations (vout : List CTxOut) : ℤ :=
  if vout.any fun out => out.nValue ∉ darkSendDenominations then 0
  else
    (darkSendDenominations.zipIdx.foldl (fun denom s =>
      denom ||| (if vout.any fun out => out.nValue = s.1 then 1 else 0) <<< s.2) 0 : ℕ)

/-! ## The masternode -/

/-- `Params().PoolMaxTransactions()`. -/
def nPoolMaxTransactions : ℤ := 3

def DARKSEND_COLLATERAL : ℤ := 10 * COIN

def DARKSEND_POOL_MAX : ℤ := 4999000000

def DARKSEND_SIGNING_TIMEOUT : ℤ := 15

/-- What a message or a timer finds. -/
structure DarksendContext where
  env : RelayEnv
  st : ChainState
  /-- The handler does not run in lite mode, nor before the chain is synchronised. -/
  enabled : Bool
  nTimeMillis : ℤ
  nRand : ℕ
  shuffleIn : List CTxIn → List CTxIn
  shuffleIn_perm : ∀ vin, (shuffleIn vin).Perm vin
  shuffleOut : List CTxOut → List CTxOut
  shuffleOut_perm : ∀ vout, (shuffleOut vout).Perm vout
  vMasternodes : List CMasternode
  /-- `CountMasternodesAboveProtocol` and the counter of queue messages. -/
  nMasternodesAboveProtocol : ℤ
  nDsqCount : ℤ
  /-- `activeMasternode.vin`. -/
  activeVin : CTxIn
  signer : CDarkSendSigner
  strMasterNodePrivKey : List UInt8
  /-- `nValueIn - nValueOut > nValueIn * .01`, in floating point. -/
  feesTooHigh : (nValueIn nValueOut : ℤ) → Bool

/-! ## The state of the pool -/

namespace CDarksendPool

variable (pool : CDarksendPool)

/-- The pool of a new node. -/
def new (finalTransaction : CTransaction) (nTimeMillis : ℤ) : CDarksendPool :=
  setNull ⟨[], finalTransaction, POOL_STATUS_IDLE, 0, 0, 0, [], 0⟩ nTimeMillis

/-- `UpdateState`, which refuses two states on a masternode. -/
def updateState (nTimeMillis : ℤ) (newState : PoolStatus) : CDarksendPool :=
  if newState = POOL_STATUS_ERROR ∨ newState = POOL_STATUS_SUCCESS then pool
  else
    { pool with
      state := newState
      lastTimeChanged := if pool.state ≠ newState then nTimeMillis else pool.lastTimeChanged }

@[simp] theorem entries_updateState (nTimeMillis : ℤ) (newState : PoolStatus) :
    (pool.updateState nTimeMillis newState).entries = pool.entries := by
  unfold updateState
  split_ifs <;> rfl

def isSessionReady : Bool := pool.sessionUsers ≥ nPoolMaxTransactions

def isCompatibleWithEntries (vout : List CTxOut) : Bool :=
  if getDenominations vout = 0 then false
  else pool.entries.all fun v => getDenominations vout = getDenominations v.vout

end CDarksendPool

namespace DarksendContext

variable (ctx : DarksendContext)

/-! ## Collaterals and inputs -/

/-- The sum of inputs as far as they are known, and whether one is missing. -/
def inputValues (vin : List CTxIn) : ℤ × Bool :=
  vin.foldl (fun found i =>
    let tx2 := getTransaction ctx.env.toEnv ctx.st i.prevout.hash
      (CTransaction.null ctx.env.adjustedTime) 0
    if tx2.fFound then
      match tx2.tx.vout[i.prevout.n]? with
      | some txout => (wrap64 (found.1 + txout.nValue), found.2)
      | none => found
    else (found.1, true)) (0, false)

def isCollateralValid (txCollateral : CTransaction) : Checked Bool :=
  if txCollateral.vout.length < 1 then .ok false
  else if txCollateral.nLockTime ≠ 0 then .ok false
  else if !(txCollateral.vout.all fun o => o.scriptPubKey.isNormalPaymentScript) then .ok false
  else
    let nValueOut := sumValues txCollateral.vout
    let (nValueIn, missingTx) := ctx.inputValues txCollateral.vin
    if missingTx then .ok false
    else if wrap64 (nValueIn - nValueOut) < DARKSEND_COLLATERAL then .ok false
    else acceptableInputs ctx.env ctx.st txCollateral true false false

/-- The transaction that `dsi` makes of the inputs and outputs of a message to test them. -/
def testTransaction (vin : List CTxIn) (vout : List CTxOut) : CTransaction :=
  { CTransaction.null ctx.env.adjustedTime with vin := vin, vout := vout }

/-- The tests of `dsi` on the inputs and outputs of a message, as if of a transaction. -/
def checkLikeTransaction (vin : List CTxIn) (vout : List CTxOut) : Checked Bool :=
  if !(vout.all fun o =>
      o.scriptPubKey.length = 25 && o.scriptPubKey.isNormalPaymentScript) then .ok false
  else
    let nValueOut := sumValues vout
    let (nValueIn, missingTx) := ctx.inputValues vin
    if nValueIn > DARKSEND_POOL_MAX then .ok false
    else if missingTx then .ok false
    else if ctx.feesTooHigh nValueIn nValueOut then .ok false
    else acceptableInputs ctx.env ctx.st (ctx.testTransaction vin vout) false false true

/-! ## Check -/

/-- `CheckFinalTransaction`: the session ends unless the masternode cannot sign. -/
def checkFinalTransaction (pool : CDarksendPool) : Checked CDarksendPool := do
  let r ← acceptToMemoryPool ctx.env ctx.st pool.finalTransaction false true true
  if !r.accepted then
    .ok ((pool.setNull ctx.nTimeMillis).updateState ctx.nTimeMillis
      POOL_STATUS_ACCEPTING_ENTRIES)
  else
    let strMessage := uint256ToString (pool.finalTransaction.getHash ctx.env.prims) ++
      lexicalCast ctx.env.adjustedTime
    match ctx.signer.setKey ctx.strMasterNodePrivKey with
    | none => .ok pool
    | some (key2, pubkey2) =>
        let (signed, vchSig) := ctx.signer.signMessage strMessage [] key2
        if !signed then .ok pool
        else if !(ctx.signer.verifyMessage pubkey2 vchSig strMessage).1 then .ok pool
        else .ok (pool.setNull ctx.nTimeMillis)

/-- If entries is full, `Check` moves on to the next phase. -/
def closeEntries (pool : CDarksendPool) : CDarksendPool :=
  if pool.state = POOL_STATUS_ACCEPTING_ENTRIES ∧
      (pool.entries.length : ℤ) ≥ nPoolMaxTransactions then
    pool.updateState ctx.nTimeMillis POOL_STATUS_FINALIZE_TRANSACTION
  else pool

/-- Then it makes the final transaction of the entries. -/
def finalize (pool : CDarksendPool) : CDarksendPool × Option CTransaction :=
  let pool := ctx.closeEntries pool
  if pool.state = POOL_STATUS_FINALIZE_TRANSACTION then
    let pool := pool.updateState ctx.nTimeMillis POOL_STATUS_SIGNING
    let txNew := { CTransaction.null ctx.env.adjustedTime with
      vin := ctx.shuffleIn pool.vin
      vout := ctx.shuffleOut pool.vout }
    ({ pool with finalTransaction := txNew }, some txNew)
  else (pool, none)

/-- With all of the signatures, it tries to complete the transaction. -/
def compileTransaction (pool : CDarksendPool) : Checked CDarksendPool :=
  if pool.state = POOL_STATUS_SIGNING ∧ pool.signaturesComplete then
    ctx.checkFinalTransaction (pool.updateState ctx.nTimeMillis POOL_STATUS_TRANSMISSION)
  else .ok pool

/-- In the end, an old error or success ends the session. -/
def resetOld (pool : CDarksendPool) : CDarksendPool :=
  if (pool.state = POOL_STATUS_ERROR ∨ pool.state = POOL_STATUS_SUCCESS) ∧
      ctx.nTimeMillis - pool.lastTimeChanged ≥ 10000 then pool.setNull ctx.nTimeMillis
  else pool

/-- `Check`, with the final transaction that it broadcasts to the clients. -/
def check (pool : CDarksendPool) : Checked (CDarksendPool × Option CTransaction) := do
  let (pool, relayed) := ctx.finalize pool
  let pool ← ctx.compileTransaction pool
  .ok (ctx.resetOld pool, relayed)

/-! ## Messages -/

/-- `IsCompatibleWithSession`: the first client of a session fixes its denominations. -/
def isCompatibleWithSession (nDenom : ℤ) (txCollateral : CTransaction) (pool : CDarksendPool) :
    Checked (Bool × CDarksendPool) :=
  if nDenom = 0 then .ok (false, pool)
  else do
    let valid ← ctx.isCollateralValid txCollateral
    if !valid then .ok (false, pool)
    else
      let pool := { pool with sessionUsers := max pool.sessionUsers 0 }
      if pool.sessionUsers = 0 then
        let pool := { pool with
          sessionID := 1 + ctx.nRand % 999999
          sessionDenom := nDenom
          sessionUsers := pool.sessionUsers + 1
          lastTimeChanged := ctx.nTimeMillis }
        let pool := pool.updateState ctx.nTimeMillis POOL_STATUS_QUEUE
        .ok (true, { pool with
          vecSessionCollateral := pool.vecSessionCollateral ++ [txCollateral] })
      else if (pool.state ≠ POOL_STATUS_ACCEPTING_ENTRIES ∧ pool.state ≠ POOL_STATUS_QUEUE) ∨
          pool.sessionUsers ≥ nPoolMaxTransactions then .ok (false, pool)
      else if nDenom ≠ pool.sessionDenom then .ok (false, pool)
      else
        .ok (true, { pool with
          sessionUsers := pool.sessionUsers + 1
          lastTimeChanged := ctx.nTimeMillis
          vecSessionCollateral := pool.vecSessionCollateral ++ [txCollateral] })

/-- `dsa`: a client asks to join. -/
def processDsa (nVersion nDenom : ℤ) (txCollateral : CTransaction) (pool : CDarksendPool) :
    Checked CDarksendPool :=
  if nVersion < MIN_POOL_PEER_PROTO_VERSION then .ok pool
  else
    match (CMasternodeMan.findIdx ctx.vMasternodes ctx.activeVin).bind (ctx.vMasternodes[·]?) with
    | none => .ok pool
    | some pmn =>
        if pool.sessionUsers = 0 ∧ pmn.nLastDsq ≠ 0 ∧
            pmn.nLastDsq + ctx.nMasternodesAboveProtocol / 5 > ctx.nDsqCount then .ok pool
        else do
          let (_, pool) ← ctx.isCompatibleWithSession nDenom txCollateral pool
          .ok pool

/-- `AddEntry`: every refusal takes a user from the session. -/
def addEntry (newInput : List CTxIn) (nAmount : ℤ) (txCollateral : CTransaction)
    (newOutput : List CTxOut) (pool : CDarksendPool) : Checked (Bool × CDarksendPool) :=
  let refused := (false, { pool with sessionUsers := pool.sessionUsers - 1 })
  if newInput.any fun txin => txin.prevout.isNull || nAmount < 0 then .ok refused
  else do
    let valid ← ctx.isCollateralValid txCollateral
    if !valid then .ok refused
    else if (pool.entries.length : ℤ) ≥ nPoolMaxTransactions then .ok refused
    else if newInput.any fun txin => txin ∈ pool.vin then .ok refused
    else do
      -- the log line names the first input
      let _ ← elementAt newInput 0
      .ok (true, { pool with
        entries := pool.entries ++
          [CDarkSendEntry.add newInput nAmount txCollateral newOutput ctx.env.time] })

/-- `dsi`: a client submits an entry. -/
def processDsi (nVersion : ℤ) (vin : List CTxIn) (nAmount : ℤ) (txCollateral : CTransaction)
    (vout : List CTxOut) (pool : CDarksendPool) : Checked CDarksendPool :=
  if nVersion < MIN_POOL_PEER_PROTO_VERSION then .ok pool
  else if !pool.isSessionReady then .ok pool
  else if !pool.isCompatibleWithEntries vout then .ok pool
  else do
    let passed ← ctx.checkLikeTransaction vin vout
    if !passed then .ok pool
    else do
      let (added, pool) ← ctx.addEntry vin nAmount txCollateral vout pool
      if added then do
        let (pool, _) ← ctx.check pool
        .ok pool
      else .ok pool

/-- The loop of `dss`: was a signature added? -/
def addSignatures (sigs : List CTxIn) (pool : CDarksendPool) : Bool × CDarksendPool :=
  sigs.foldl (fun found item =>
    let added := found.2.addScriptSig ctx.env.scriptPrims ctx.env.signatureCache
      ctx.env.adjustedTime item
    (found.1 || added.1, added.2)) (false, pool)

/-- `dss`: a client signs. -/
def processDss (nVersion : ℤ) (sigs : List CTxIn) (pool : CDarksendPool) :
    Checked CDarksendPool :=
  if nVersion < MIN_POOL_PEER_PROTO_VERSION then .ok pool
  else
    let (success, pool) := ctx.addSignatures sigs pool
    if success then do
      let (pool, _) ← ctx.check pool
      .ok pool
    else .ok pool

/-! ## Timers -/

/-- `CheckTimeout` in a session that takes entries: old entries go, and with the last of them the
session. -/
def removeExpired (pool : CDarksendPool) : CDarksendPool :=
  let entries := pool.entries.filter fun e => !e.isExpired ctx.env.time
  if pool.entries ≠ [] ∧ entries = [] then pool.setNull ctx.nTimeMillis
  else { pool with entries := entries }

/-- The session ends if nothing has changed for some time. -/
def endAfter (seconds : ℤ) (pool : CDarksendPool) : CDarksendPool :=
  if ctx.nTimeMillis - pool.lastTimeChanged ≥ seconds * 1000 then pool.setNull ctx.nTimeMillis
  else pool

/-- The timeout for clients, in a session that takes entries and in any other. -/
def endQueue (pool : CDarksendPool) : CDarksendPool :=
  if pool.state = POOL_STATUS_ACCEPTING_ENTRIES ∨ pool.state = POOL_STATUS_QUEUE then
    ctx.endAfter CDarkSendEntry.DARKSEND_QUEUE_TIMEOUT (ctx.removeExpired pool)
  else ctx.endAfter CDarkSendEntry.DARKSEND_QUEUE_TIMEOUT pool

def checkTimeout (pool : CDarksendPool) : CDarksendPool :=
  let pool := ctx.endQueue pool
  if pool.state = POOL_STATUS_SIGNING then ctx.endAfter DARKSEND_SIGNING_TIMEOUT pool else pool

/-- `CheckForCompleteQueue`: the session opens for entries. -/
def checkForCompleteQueue (pool : CDarksendPool) : CDarksendPool :=
  if pool.state = POOL_STATUS_QUEUE ∧ pool.sessionUsers = nPoolMaxTransactions then
    pool.updateState ctx.nTimeMillis POOL_STATUS_ACCEPTING_ENTRIES
  else pool

end DarksendContext

/-! ## Events -/

inductive DarksendEvent
  | dsa (nVersion nDenom : ℤ) (txCollateral : CTransaction)
  | dsi (nVersion : ℤ) (vin : List CTxIn) (nAmount : ℤ) (txCollateral : CTransaction)
      (vout : List CTxOut)
  | dss (nVersion : ℤ) (sigs : List CTxIn)
  | checkTimeout
  | checkForCompleteQueue
  | check
  /-- `IsBlockchainSynced`, an hour after its last call. -/
  | reset

/-- What an event does to the pool. -/
def darksendStep (event : DarksendContext × DarksendEvent) (pool : CDarksendPool) :
    Checked CDarksendPool :=
  match event with
  | (ctx, .dsa nVersion nDenom txCollateral) =>
      if ctx.enabled then ctx.processDsa nVersion nDenom txCollateral pool else .ok pool
  | (ctx, .dsi nVersion vin nAmount txCollateral vout) =>
      if ctx.enabled then ctx.processDsi nVersion vin nAmount txCollateral vout pool
      else .ok pool
  | (ctx, .dss nVersion sigs) =>
      if ctx.enabled then ctx.processDss nVersion sigs pool else .ok pool
  | (ctx, .checkTimeout) => .ok (ctx.checkTimeout pool)
  | (ctx, .checkForCompleteQueue) => .ok (ctx.checkForCompleteQueue pool)
  | (ctx, .check) => do
      let (pool, _) ← ctx.check pool
      .ok pool
  | (ctx, .reset) => .ok (pool.setNull ctx.nTimeMillis)

end SocietyGold
