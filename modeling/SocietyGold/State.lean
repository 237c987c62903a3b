import SocietyGold.TxDb

/-!
# Chain state and environment

`ChainState` collects the globals that the validation code reads and writes.
`Env` collects what it takes from outside: chain parameters, the clock, the
cryptographic primitives and the answers of the subsystems around it.  An
environment is fixed for one top-level call; a run may use a different one for
each of its steps.
-/

namespace SocietyGold

open Support

/-! ## Environment -/

/-- What `Solver` finds in a script public key, as far as block signatures use
it. -/
inductive ScriptTemplate
  | TX_PUBKEY (vchPubKey : List UInt8)
  | other
  deriving DecidableEq, Repr

structure Env where
  prims : Primitives
  /-- Chain parameters. -/
  hashGenesisBlock : ℕ
  proofOfWorkLimit : CBigNum
  nLastPOWBlock : ℤ
  nPOSStartBlock : ℤ
  messageStart : List UInt8
  /-- Blocks a coinbase or coinstake output has to wait. -/
  nCoinbaseMaturity : ℤ
  /-- `GetAdjustedTime()` and `GetTime()`. -/
  adjustedTime : ℕ
  time : ℕ
  isInitialBlockDownload : Bool
  /-- Script templates and script verification. -/
  solver : CScript → Option ScriptTemplate
  verifyScript : (scriptSig scriptPubKey : CScript) → (txTo : CTransaction) →
    (nIn flags : ℕ) → (nHashType : ℤ) → Bool
  /-- InstantX locks and whether their filter is active. -/
  isSporkInstantXBlockFiltering : Bool
  mapLockedInputs : COutPoint → Option ℕ
  /-- `GetBlockPayee`: the masternode payee scheduled for a height. -/
  getBlockPayee : (nBlockHeight : ℤ) → Option CScript
  /-- Floating point: the subsidy in whole coins, the test of a money supply
  against the maximum, and the product of an amount with 2.5. -/
  getDynamicBlockReward3 : (nHeight : ℤ) → ℤ
  maximumSupplyExceeded : (nMoneySupply : ℤ) → Bool
  timesTwoPointFive : ℤ → ℤ
  /-- The disk and the shutdown request. -/
  nFreeBytesAvailable : ℕ
  canAppendBlockFile : Bool
  fRequestShutdown : Bool
  /-- `GetBoolArg("-addrindex", true)`. -/
  addrIndexEnabled : Bool

/-! ## Memory pool -/

structure CTxMemPool where
  mapTx : Table ℕ CTransaction
  /-- The spending transaction and input index of each spent outpoint. -/
  mapNextTx : Table COutPoint (ℕ × ℕ)

namespace CTxMemPool

def lookup (pool : CTxMemPool) (hash : ℕ) : Option CTransaction := pool.mapTx.lookup hash

/-- `remove(tx, false)`. -/
def remove (prims : Primitives) (pool : CTxMemPool) (tx : CTransaction) : CTxMemPool :=
  let hash := tx.getHash prims
  if hash ∈ pool.mapTx then
    { mapTx := pool.mapTx.erase hash
      mapNextTx := tx.vin.foldl (fun next txin => next.erase txin.prevout) pool.mapNextTx }
  else pool

end CTxMemPool

/-! ## Chain state -/

/-- A stake: the kernel input and the time of the coinstake. -/
abbrev Stake := COutPoint × ℕ

structure ChainState where
  mapBlockIndex : Table ℕ CBlockIndex
  setStakeSeen : Finset Stake
  pindexGenesisBlock : Option ℕ
  pindexBest : Option ℕ
  hashBestChain : ℕ
  nBestHeight : ℤ
  nBestChainTrust : ℕ
  nBestInvalidTrust : ℕ
  nTimeBestReceived : ℕ
  mempool : CTxMemPool
  txdb : CTxDB
  blockFiles : Table ℕ (List UInt8)
  nCurrentBlockFile : ℕ

namespace ChainState

variable (st : ChainState)

/-- The entry a pointer into the block index refers to. -/
def entry (pindex : Option ℕ) : Option CBlockIndex :=
  pindex.bind fun hash => st.mapBlockIndex.lookup hash

/-- Overwrite an entry that is in the block index. -/
def updateEntry (hash : ℕ) (f : CBlockIndex → CBlockIndex) : ChainState :=
  match st.mapBlockIndex.lookup hash with
  | none => st
  | some pindex => { st with mapBlockIndex := st.mapBlockIndex.insert hash (f pindex) }

/-- The entries met by following `pprev`, starting with the pointer itself. -/
def pprevWalk : (fuel : ℕ) → Option ℕ → List CBlockIndex
  | 0, _ => []
  | fuel + 1, pindex =>
      match st.entry pindex with
      | none => []
      | some found => found :: pprevWalk fuel found.pprev

/-- An entry with all its ancestors.  Without a cycle there are at most as many
ancestors as entries. -/
def chainFrom (pindex : CBlockIndex) : List CBlockIndex :=
  pindex :: st.pprevWalk st.mapBlockIndex.entries.length pindex.pprev

/-- `OpenBlockFile` for reading: the content of a block file. -/
def openBlockFile (nFile : ℕ) : Option (List UInt8) :=
  if nFile < 1 ∨ nFile = UINT_MAX then none else st.blockFiles.lookup nFile

/-- The spent records of the transaction index, by transaction hash. -/
def txIndex (hash : ℕ) : Option CTxIndex := st.txdb.readTxIndex hash

end ChainState

/-- The bytes at a position of a file; seeking past the end leaves nothing. -/
def fileFrom (file : List UInt8) (pos : ℕ) : List UInt8 := file.drop pos

/-! ## A small concrete network

Primitives that can be evaluated, an environment with them at a given time, and a
node that has nothing but an empty database.
-/

namespace Sample

def prims : Primitives where
  hash bytes := bytes.foldl (fun acc b => (acc * 257 + b.toNat + 1) % 1000003) 7
  hash160 bytes := bytes.foldl (fun acc b => (acc * 263 + b.toNat + 1) % 65537) 3
  scryptBlockhash _ := 1
  verifyKey vchPubKey _ vchSig := vchPubKey = vchSig

def env (adjustedTime : ℕ) : Env where
  prims := prims
  hashGenesisBlock := 0
  proofOfWorkLimit := 2 ^ 240 - 1
  nLastPOWBlock := 75000000
  nPOSStartBlock := 101
  messageStart := [0xa3, 0xd5, 0xc2, 0xf9]
  nCoinbaseMaturity := 70
  adjustedTime := adjustedTime
  time := adjustedTime
  isInitialBlockDownload := true
  solver script := some (.TX_PUBKEY script)
  verifyScript _ _ _ _ _ _ := true
  isSporkInstantXBlockFiltering := false
  mapLockedInputs _ := none
  getBlockPayee _ := none
  getDynamicBlockReward3 _ := 2
  maximumSupplyExceeded nMoneySupply := nMoneySupply > MAX_MONEY
  timesTwoPointFive amount := (amount * 5).tdiv 2
  nFreeBytesAvailable := 2 ^ 40
  canAppendBlockFile := true
  fRequestShutdown := false
  addrIndexEnabled := false

def emptyPool : CTxMemPool := ⟨∅, ∅⟩

def emptyState : ChainState where
  mapBlockIndex := ∅
  setStakeSeen := ∅
  pindexGenesisBlock := none
  pindexBest := none
  hashBestChain := 0
  nBestHeight := -1
  nBestChainTrust := 0
  nBestInvalidTrust := 0
  nTimeBestReceived := 0
  mempool := emptyPool
  txdb := ⟨∅, none, []⟩
  blockFiles := ∅
  nCurrentBlockFile := 1

/-- The entry of a tip at height 10 that has a stake modifier of its own. -/
def tipEntry : CBlockIndex where
  phashBlock := 500
  pprev := none
  pnext := none
  nFile := 1
  nBlockPos := 8
  nChainTrust := 10
  nHeight := 10
  nMint := 0
  nMoneySupply := 0
  nLastReward := 0
  nFlags := 2 ^ BLOCK_STAKE_MODIFIER
  nStakeModifier := 0
  prevoutStake := COutPoint.null
  nStakeTime := 0
  hashProof := 0
  nVersion := 7
  hashMerkleRoot := 0
  nTime := 800
  nBits := 0x1e00ffff
  nNonce := 0

/-- A node with that tip and the given transaction index. -/
def nodeWith (records : List (ℕ × CTxIndex)) : ChainState :=
  { emptyState with
    mapBlockIndex := (∅ : Table ℕ CBlockIndex).insert 500 tipEntry
    pindexGenesisBlock := some 500
    pindexBest := some 500
    hashBestChain := 500
    nBestHeight := 10
    nBestChainTrust := 10
    txdb :=
      ⟨records.foldl (fun disk entry => disk.insert (.tx entry.1) (.txindex entry.2)) ∅,
        none, []⟩ }

end Sample

end SocietyGold
