import SocietyGold.Connect
import SocietyGold.StakeModifier

/-!
# Extending the best chain

`SetBestChain` makes a block the tip, `SetBestChainInner` connects it inside the
open database transaction, and `AddToBlockIndex` enters a block into the block
index and calls them when its chain has more trust.

`SetBestChain` has a third branch, which reorganizes.  It is guarded by
`hashPrevBlock != hashBestChain`, with which the function has already returned,
so it is left out.
-/

namespace SocietyGold

open Support

/-- A return value with the state it leaves behind. -/
abbrev Outcome := Bool × ChainState

section BestChain

variable (env : Env)

/-- `InvalidChainFound`. -/
def invalidChainFound (st : ChainState) (pindexNew : CBlockIndex) : Checked ChainState := do
  let st :=
    if pindexNew.nChainTrust > st.nBestInvalidTrust then
      { st with
        nBestInvalidTrust := pindexNew.nChainTrust
        txdb := (st.txdb.writeBestInvalidTrust pindexNew.nChainTrust).2 }
    else st
  -- the trusts are computed for a log line
  let _ ← deref (st.entry pindexNew.pprev)
  let pindexBest ← deref (st.entry st.pindexBest)
  if pindexBest.nHeight ≠ 0 then do
    let _ ← deref (st.entry pindexBest.pprev)
    .ok st
  else .ok st

/-- Delete the transactions of a block from the memory pool. -/
def removeFromPool (vtx : List CTransaction) (pool : CTxMemPool) : CTxMemPool :=
  vtx.foldl (fun pool tx => pool.remove env.prims tx) pool

/-- The last part of `SetBestChainInner`, after a successful commit. -/
def attachTip (st : ChainState) (block : CBlock) (pindexNew : CBlockIndex) : Checked ChainState :=
  match pindexNew.pprev with
  | none => .error .nullDereference
  | some pprev => do
      let _ ← deref (st.entry pindexNew.pprev)
      let st := st.updateEntry pprev fun entry => { entry with pnext := some pindexNew.phashBlock }
      .ok { st with mempool := removeFromPool env block.vtx st.mempool }

def setBestChainInner (st : ChainState) (block : CBlock) (pindexNew : CBlockIndex) :
    Checked Outcome := do
  let hash := block.getHash env.prims
  let connected ← connectBlock env st block pindexNew false
  let pindexNew := connected.pindex
  -- the entry is changed in place
  let st := { st.updateEntry pindexNew.phashBlock (fun _ => pindexNew) with
    txdb := connected.txdb }
  let first :=
    if connected.success then st.txdb.writeHashBestChain hash else (false, st.txdb)
  let second := if first.1 then first else first.2.writeHashBestChain hash
  let st := { st with txdb := second.2 }
  if !second.1 then do
    let st ← invalidChainFound { st with txdb := st.txdb.txnAbort } pindexNew
    .ok (false, st)
  else do
    let (committed, txdb) ← st.txdb.txnCommit
    let st := { st with txdb := txdb }
    if !committed then .ok (false, st)
    else do
      let st ← attachTip env st block pindexNew
      .ok (true, st)

/-- The assignments of `SetBestChain` that make an entry the tip. -/
def setTip (st : ChainState) (hash : ℕ) (pindexNew : CBlockIndex) : ChainState :=
  { st with
    hashBestChain := hash
    pindexBest := some pindexNew.phashBlock
    nBestHeight := pindexNew.nHeight
    nBestChainTrust := pindexNew.nChainTrust
    nTimeBestReceived := env.time }

/-- The part of `SetBestChain` after the branches. -/
def finishBestChain (st : ChainState) (hash : ℕ) (pindexNew : CBlockIndex) : Checked Outcome :=
  let st := setTip env st hash pindexNew
  if pindexNew.nHeight ≠ 0 then do
    -- the block trust is computed for a log line
    let _ ← deref (st.entry pindexNew.pprev)
    .ok (true, st)
  else .ok (true, st)

def setBestChain (st : ChainState) (block : CBlock) (pindexNew : CBlockIndex) :
    Checked Outcome :=
  let hash := block.getHash env.prims
  if block.hashPrevBlock ≠ st.hashBestChain then .ok (false, st)
  else do
    let txdb ← st.txdb.txnBegin
    let st := { st with txdb := txdb }
    if st.pindexGenesisBlock = none ∧ hash = env.hashGenesisBlock then do
      let (committed, txdb) ← BatchStore.txnCommit (st.txdb.writeHashBestChain hash).2
      let st := { st with txdb := txdb }
      if !committed then .ok (false, st)
      else
        finishBestChain env { st with pindexGenesisBlock := some pindexNew.phashBlock }
          hash pindexNew
    else do
      let (attached, st) ← setBestChainInner env st block pindexNew
      if !attached then .ok (false, st) else finishBestChain env st hash pindexNew

/-! ## Entering a block into the index -/

/-- The entry that `AddToBlockIndex` builds, without its stake modifier. -/
def newIndexEntry (st : ChainState) (block : CBlock) (nFile nBlockPos hashProof : ℕ) :
    CBlockIndex :=
  let hash := block.getHash env.prims
  let pindexNew := CBlockIndex.ofBlock nFile nBlockPos block hash
  let pindexNew :=
    match st.mapBlockIndex.lookup block.hashPrevBlock with
    | none => pindexNew
    | some pprev =>
        { pindexNew with pprev := some block.hashPrevBlock, nHeight := pprev.nHeight + 1 }
  let nPrevTrust := ((st.entry pindexNew.pprev).map CBlockIndex.nChainTrust).getD 0
  { pindexNew with
    nChainTrust := (nPrevTrust + pindexNew.getBlockTrust) % 2 ^ 256
    -- the lowest bit of the block hash is the entropy bit
    nFlags := pindexNew.nFlags ||| (hash % 2) * 2 ^ BLOCK_STAKE_ENTROPY
    hashProof := hashProof }

/-- `SetStakeModifier`. -/
def CBlockIndex.setStakeModifier (pindex : CBlockIndex) (nModifier : ℕ)
    (fGeneratedStakeModifier : Bool) : CBlockIndex :=
  { pindex with
    nStakeModifier := nModifier
    nFlags := pindex.nFlags ||| fGeneratedStakeModifier.toNat * 2 ^ BLOCK_STAKE_MODIFIER }

/-- Enter a new entry into the block index and its stake into the set of stakes
that have been seen. -/
def insertEntry (st : ChainState) (hash : ℕ) (pindexNew : CBlockIndex) : ChainState :=
  { st with
    mapBlockIndex :=
      if hash ∈ st.mapBlockIndex then st.mapBlockIndex
      else st.mapBlockIndex.insert hash pindexNew
    setStakeSeen :=
      if pindexNew.isProofOfStake then
        insert (pindexNew.prevoutStake, pindexNew.nStakeTime) st.setStakeSeen
      else st.setStakeSeen }

/-- The end of `AddToBlockIndex`, where the coinbase of a new tip is read. -/
def notifyTip (st : ChainState) (block : CBlock) (pindexNew : CBlockIndex) : Checked Outcome :=
  if st.pindexBest = some pindexNew.phashBlock then do
    let _ ← elementAt block.vtx 0
    .ok (true, st)
  else .ok (true, st)

/-- The part of `AddToBlockIndex` after the new entry is in the index. -/
def writeNewEntry (st : ChainState) (block : CBlock) (pindexNew : CBlockIndex) :
    Checked Outcome := do
  let txdb ← st.txdb.txnBegin
  let txdb := (CTxDB.writeBlockIndex txdb env.prims (CDiskBlockIndex.ofIndex pindexNew)).2
  let (committed, txdb) ← BatchStore.txnCommit txdb
  let st := { st with txdb := txdb }
  if !committed then .ok (false, st)
  else if pindexNew.nChainTrust > st.nBestChainTrust then do
    let (best, st) ← setBestChain env st block pindexNew
    if !best then .ok (false, st) else notifyTip st block pindexNew
  else notifyTip st block pindexNew

/-- `AddToBlockIndex`.  A block that does not extend the tip makes it ask the
sending node for blocks, through a pointer that may be null. -/
def addToBlockIndex (fromNode : Bool) (st : ChainState) (block : CBlock)
    (nFile nBlockPos hashProof : ℕ) : Checked Outcome :=
  let hash := block.getHash env.prims
  if hash ∈ st.mapBlockIndex then .ok (false, st)
  else if block.hashPrevBlock ≠ st.hashBestChain then do
    let _ ← deref (st.entry st.pindexBest)
    if fromNode then .ok (false, st) else .error .nullDereference
  else
    let pindexNew := newIndexEntry env st block nFile nBlockPos hashProof
    match computeNextStakeModifier env st (st.entry pindexNew.pprev) with
    | none => .ok (false, st)
    | some (nStakeModifier, fGeneratedStakeModifier) =>
        let pindexNew := pindexNew.setStakeModifier nStakeModifier fGeneratedStakeModifier
        writeNewEntry env (insertEntry st hash pindexNew) block pindexNew

end BestChain

end SocietyGold
