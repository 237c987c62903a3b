import SocietyGold.Inputs
import SocietyGold.CheckBlock

/-!
# Connecting and disconnecting blocks

`ConnectBlock` runs through the transactions of a block, collects the changes of
the transaction index in `mapQueuedChanges`, computes rewards and money supply,
and writes everything to the database.  `DisconnectBlock` is its intended
inverse.
-/

namespace SocietyGold

open Support

/-- Wrap a sum of amounts to 64 bits. -/
def wrap64 (z : ℤ) : ℤ := z.bmod (2 ^ 64)

/-! ## The transaction loop -/

/-- The running totals of `ConnectBlock`. -/
structure ConnectTally where
  nFees : ℤ
  nValueIn : ℤ
  nValueOut : ℤ
  nStakeReward : ℤ
  nSigOps : ℕ
  nTxPos : ℕ
  mapQueuedChanges : Table ℕ CTxIndex

/-- The position of the first transaction of a block that is being connected. -/
def firstTxPos (pindex : CBlockIndex) (block : CBlock) (fJustCheck : Bool) : ℕ :=
  if fJustCheck then 1
  else (pindex.nBlockPos + CBlock.emptySerializeSize - 2 * getSizeOfCompactSize 0 +
    getSizeOfCompactSize block.vtx.length) % 2 ^ 32

section Loop

variable (env : Env) (st : ChainState) (pindex : CBlockIndex) (fProofOfWork fJustCheck : Bool)

/-- The value totals of one transaction with fewer than three inputs. -/
def tallyValues (tx : CTransaction) (inputs : MapPrevTx) (tally : ConnectTally) :
    Checked ConnectTally :=
  if tx.vin.length < 3 then do
    let nTxValueIn ← tx.getValueIn inputs
    let nTxValueOut ← tx.getValueOut
    let nFees := wrap64 (tally.nFees + (nTxValueIn - nTxValueOut))
    .ok { tally with
      nValueIn := wrap64 (tally.nValueIn + nTxValueIn)
      nValueOut := wrap64 (tally.nValueOut + nTxValueOut)
      nFees :=
        if tx.isCoinStake then tally.nFees
        else if fProofOfWork then 0
        else nFees
      nStakeReward :=
        if tx.isCoinStake then wrap64 (nTxValueOut - nTxValueIn) else tally.nStakeReward }
  else .ok tally

/-- The arguments with which `ConnectBlock` connects the inputs of a transaction
at a position. -/
def blockContext (posThisTx : CDiskTxPos) : ConnectContext where
  posThisTx := posThisTx
  pindexBlock := pindex
  fBlock := true
  fMiner := false
  flags := SCRIPT_VERIFY_NOCACHE
  fValidateSig := true

/-- Queue the fresh record of a transaction. -/
def ConnectTally.queueRecord (tally : ConnectTally) (tx : CTransaction)
    (posThisTx : CDiskTxPos) : ConnectTally :=
  { tally with
    mapQueuedChanges := tally.mapQueuedChanges.insert (tx.getHash env.prims)
      (CTxIndex.unspent posThisTx tx.vout.length) }

/-- The round of `ConnectBlock` for a transaction with inputs. -/
def connectSpending (tx : CTransaction) (posThisTx : CDiskTxPos) (tally : ConnectTally) :
    Checked (Flow Bool ConnectTally) :=
  let fetched := fetchInputs env st.txdb st.mempool tx true false ∅
  if !fetched.success then .ok (.returned true)
  else do
    let nP2SHSigOps ← tx.getP2SHSigOpCount
    -- going over the limit here is only logged
    let tally := { tally with nSigOps := tally.nSigOps + nP2SHSigOps }
    let tally ← tallyValues fProofOfWork tx fetched.inputsRet tally
    let (connected, queue) ← connectInputs env st tx (blockContext pindex posThisTx)
      fetched.inputsRet tally.mapQueuedChanges
    if !connected then .ok (.returned (decide (3 ≤ tx.vin.length)))
    else .ok (.next
      (({ tally with mapQueuedChanges := queue } : ConnectTally).queueRecord env tx posThisTx))

/-- One round of `ConnectBlock` over the transactions. -/
def connectTransaction (tally : ConnectTally) (tx : CTransaction) :
    Checked (Flow Bool ConnectTally) :=
  let nSigOps := tally.nSigOps + tx.getLegacySigOpCount
  if nSigOps > MAX_BLOCK_SIGOPS then .ok (.returned false)
  else
    let posThisTx : CDiskTxPos := ⟨pindex.nFile, pindex.nBlockPos, tally.nTxPos⟩
    let nTxPos :=
      if fJustCheck then tally.nTxPos else (tally.nTxPos + tx.getSerializeSize) % 2 ^ 32
    let tally := { tally with nSigOps := nSigOps, nTxPos := nTxPos }
    if tx.isCoinBase then do
      let nTxValueOut ← tx.getValueOut
      .ok (.next (ConnectTally.queueRecord env
        { tally with nValueOut := wrap64 (tally.nValueOut + nTxValueOut) } tx posThisTx))
    else connectSpending env st pindex fProofOfWork tx posThisTx tally

end Loop

/-! ## Rewards and money supply -/

def getProofOfWorkReward (env : Env) (st : ChainState) (nHeight nFees : ℤ) : Checked ℤ := do
  let pindexBest ← deref (st.entry st.pindexBest)
  if env.maximumSupplyExceeded pindexBest.nMoneySupply then .ok 0
  else
    let nSubsidyBase := if nHeight > 0 then env.getDynamicBlockReward3 nHeight else 1
    .ok (wrap64 (nSubsidyBase * COIN + nFees))

/-- The outputs of a coinstake from which its mint is computed. -/
def stakeMintOutputs (vout : List CTxOut) : ℤ :=
  match vout.map CTxOut.nValue with
  | [_, _, v2] => v2
  | [_, _, _, v3] => v3
  | [_, _, _, v3, v4] => wrap64 (v3 + v4)
  | _ => 0

/-- The reward bookkeeping of a proof-of-work block. -/
def connectWork (env : Env) (st : ChainState) (block : CBlock) (pindex : CBlockIndex)
    (tally : ConnectTally) : Checked CBlockIndex := do
  let nFees := if tally.nFees < 0 then 0 else tally.nFees
  let nReward ← getProofOfWorkReward env st pindex.nHeight nFees
  let coinbase ← elementAt block.vtx 0
  -- a coinbase above the reward is ignored
  let _ ← coinbase.getValueOut
  let nValueOut := if tally.nValueOut > nReward then nReward else tally.nValueOut
  let nPrevSupply := ((st.entry pindex.pprev).map CBlockIndex.nMoneySupply).getD 0
  .ok { pindex with
    nLastReward := nReward
    nMint := wrap64 (nValueOut - tally.nValueIn + nFees)
    nMoneySupply := wrap64 (nPrevSupply + nValueOut - tally.nValueIn) }

/-- The reward bookkeeping of a proof-of-stake block. -/
def connectStake (env : Env) (st : ChainState) (block : CBlock) (pindex : CBlockIndex) :
    Checked CBlockIndex := do
  let coinstake ← elementAt block.vtx 1
  -- the coin age is computed and not used
  let _ ← coinstake.getCoinAge env st st.txdb
  let nStakeReward := env.timesTwoPointFive (stakeMintOutputs coinstake.vout)
  let pindexBest ← deref (st.entry st.pindexBest)
  .ok { pindex with
    nLastReward := nStakeReward
    nMint := nStakeReward
    nMoneySupply := wrap64 (pindexBest.nMoneySupply + nStakeReward) }

def connectRewards (env : Env) (st : ChainState) (block : CBlock) (pindex : CBlockIndex)
    (tally : ConnectTally) : Checked CBlockIndex :=
  if block.isProofOfWork then connectWork env st block pindex tally
  else connectStake env st block pindex

/-! ## Writing the changes -/

/-- The loop over `mapQueuedChanges`, which stops at the first failing write. -/
def writeQueuedChanges : List (ℕ × CTxIndex) → CTxDB → Bool × CTxDB
  | [], txdb => (true, txdb)
  | (hash, txindex) :: rest, txdb =>
      match txdb.updateTxIndex hash txindex with
      | (true, txdb) => writeQueuedChanges rest txdb
      | (false, txdb) => (false, txdb)

/-- `BuildAddrIndex`: the addresses under which a script is found. -/
def buildAddrIndex (prims : Primitives) (script : CScript) : List ℕ :=
  let data := (script.instructions.filter fun op =>
    op.opcodeRet ≤ OP_PUSHDATA4 && 8 ≤ op.vchRet.length).map GetOpResult.vchRet
  if data = [] then [prims.hash160 script % 2 ^ 160]
  else data.map fun vch =>
    if vch.length ≤ 20 then fromBytesLE vch else prims.hash160 vch % 2 ^ 160

/-- File a transaction under all addresses of the given outputs.  A failing
write is only logged. -/
def writeAddresses (prims : Primitives) (hashTx : ℕ) (vout : List CTxOut) (txdb : CTxDB) :
    CTxDB :=
  (vout.flatMap fun txout => buildAddrIndex prims txout.scriptPubKey).foldl
    (fun txdb addrId => (txdb.writeAddrIndex addrId hashTx).2) txdb

/-- The address index loop of `ConnectBlock`. -/
def writeAddrIndexes (env : Env) (pool : CTxMemPool) : List CTransaction → CTxDB → Bool × CTxDB
  | [], txdb => (true, txdb)
  | tx :: rest, txdb =>
      let hashTx := tx.getHash env.prims
      if tx.isCoinBase then
        writeAddrIndexes env pool rest (writeAddresses env.prims hashTx tx.vout txdb)
      else
        let fetched := fetchInputs env txdb pool tx true false ∅
        if !fetched.success then (false, txdb)
        else
          let prevOutputs := fetched.inputsRet.inKeyOrder.flatMap fun entry => entry.2.2.vout
          let txdb := writeAddresses env.prims hashTx prevOutputs txdb
          writeAddrIndexes env pool rest (writeAddresses env.prims hashTx tx.vout txdb)

/-- The part of `ConnectBlock` after the index entry of the block is written. -/
def writeConnected (env : Env) (st : ChainState) (block : CBlock) (pindex : CBlockIndex)
    (queue : Table ℕ CTxIndex) (txdb : CTxDB) : Bool × CTxDB :=
  match writeQueuedChanges queue.inKeyOrder txdb with
  | (false, txdb) => (false, txdb)
  | (true, txdb) =>
      match (if env.addrIndexEnabled then writeAddrIndexes env st.mempool block.vtx txdb
        else (true, txdb)) with
      | (false, txdb) => (false, txdb)
      | (true, txdb) =>
          match st.entry pindex.pprev with
          | none => (true, txdb)
          | some pprev =>
              let blockindexPrev :=
                { CDiskBlockIndex.ofIndex pprev with hashNext := pindex.phashBlock }
              txdb.writeBlockIndex env.prims blockindexPrev

/-! ## ConnectBlock and DisconnectBlock -/

/-- What `ConnectBlock` leaves behind: its return value, the database and the
index entry of the block. -/
structure ConnectResult where
  success : Bool
  txdb : CTxDB
  pindex : CBlockIndex

def connectBlock (env : Env) (st : ChainState) (block : CBlock) (pindex : CBlockIndex)
    (fJustCheck : Bool) : Checked ConnectResult :=
  if !(block.checkBlock env st (!fJustCheck) (!fJustCheck) false).passed then
    .ok ⟨false, st.txdb, pindex⟩
  else do
    let flow ← forEach (connectTransaction env st pindex block.isProofOfWork fJustCheck)
      block.vtx ⟨0, 0, 0, 0, 0, firstTxPos pindex block fJustCheck, ∅⟩
    match flow with
    | .returned success => .ok ⟨success, st.txdb, pindex⟩
    | .next tally => do
        let pindex ← connectRewards env st block pindex tally
        match st.txdb.writeBlockIndex env.prims (CDiskBlockIndex.ofIndex pindex) with
        | (false, txdb) => .ok ⟨false, txdb, pindex⟩
        | (true, txdb) =>
            if fJustCheck then .ok ⟨true, txdb, pindex⟩
            else
              let written :=
                writeConnected env st block pindex tally.mapQueuedChanges txdb
              .ok ⟨written.1, written.2, pindex⟩

/-- The loop of `DisconnectBlock`, given the transactions in reverse order. -/
def disconnectTransactions (prims : Primitives) : List CTransaction → CTxDB → Bool × CTxDB
  | [], txdb => (true, txdb)
  | tx :: rest, txdb =>
      match disconnectInputs prims txdb tx with
      | (false, txdb) => (false, txdb)
      | (true, txdb) => disconnectTransactions prims rest txdb

def disconnectBlock (env : Env) (st : ChainState) (txdb : CTxDB) (block : CBlock)
    (pindex : CBlockIndex) : Checked (Bool × CTxDB) :=
  match disconnectTransactions env.prims block.vtx.reverse txdb with
  | (false, txdb) => .ok (false, txdb)
  | (true, txdb) => do
      -- a log line dereferences the pointer to the previous entry
      let pprev ← deref (st.entry pindex.pprev)
      .ok (txdb.writeBlockIndex env.prims { CDiskBlockIndex.ofIndex pprev with hashNext := 0 })

end SocietyGold
