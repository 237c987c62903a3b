import SocietyGold.Transaction

/-!
# Blocks and block index entries

A block is a header with its transactions and signature.  A `CBlockIndex` is
the in-memory entry for a block; its pointers to the neighbouring entries are
the hashes of those entries.  A `CDiskBlockIndex` is the entry as it is written
to the database.
-/

namespace SocietyGold

open Support

structure CBlockHeader where
  nVersion : ℤ
  hashPrevBlock : ℕ
  hashMerkleRoot : ℕ
  nTime : ℕ
  nBits : ℕ
  nNonce : ℕ
  deriving DecidableEq, Repr

/-- The header bytes, as they lie in memory. -/
def CBlockHeader.serialize (header : CBlockHeader) : List UInt8 :=
  intToBytesLE 4 header.nVersion ++ toBytesLE 32 header.hashPrevBlock ++
    toBytesLE 32 header.hashMerkleRoot ++ toBytesLE 4 header.nTime ++
    toBytesLE 4 header.nBits ++ toBytesLE 4 header.nNonce

def CBlockHeader.getHash (prims : Primitives) (header : CBlockHeader) : ℕ :=
  prims.hash header.serialize

structure CBlock extends CBlockHeader where
  vtx : List CTransaction
  vchBlockSig : List UInt8
  deriving DecidableEq, Repr

namespace CBlock

def CURRENT_VERSION : ℤ := 7

def getHash (prims : Primitives) (block : CBlock) : ℕ := block.toCBlockHeader.getHash prims

def getPoWHash (prims : Primitives) (block : CBlock) : ℕ :=
  prims.scryptBlockhash block.toCBlockHeader.serialize

/-- The second transaction of a proof-of-stake block. -/
def isProofOfStake (block : CBlock) : Bool :=
  match block.vtx with
  | _ :: tx :: _ => tx.isCoinStake
  | _ => false

def isProofOfWork (block : CBlock) : Bool := !block.isProofOfStake

/-- The stake of a proof-of-stake block: its first input and its time. -/
def getProofOfStake (block : CBlock) : COutPoint × ℕ :=
  match block.vtx with
  | _ :: tx :: _ =>
      match tx.isCoinStake, tx.vin with
      | true, txin :: _ => (txin.prevout, tx.nTime)
      | _, _ => (COutPoint.null, 0)
  | _ => (COutPoint.null, 0)

/-- The transaction ids, in block order. -/
def txids (prims : Primitives) (block : CBlock) : List ℕ :=
  block.vtx.map (CTransaction.getHash prims)

/-! ## Sizes -/

def getSerializeSize (block : CBlock) : ℕ :=
  80 + vectorSerializeSize CTransaction.getSerializeSize block.vtx +
    bytesSerializeSize block.vchBlockSig

/-- The size of a block without transactions and signature. -/
def emptySerializeSize : ℕ := 80 + getSizeOfCompactSize 0 + getSizeOfCompactSize 0

def serialize (block : CBlock) : List UInt8 :=
  block.toCBlockHeader.serialize ++ serializeVector CTransaction.serialize block.vtx ++
    serializeBytes block.vchBlockSig

theorem length_serialize (block : CBlock) :
    block.serialize.length = block.getSerializeSize := by
  simp [serialize, CBlockHeader.serialize, getSerializeSize, length_serializeBytes,
    length_serializeVector CTransaction.length_serialize]
  omega

/-- Read a header, as a block read with `SER_BLOCKHEADERONLY` does. -/
def readHeader : Reader CBlockHeader := fun stream => do
  let (nVersion, rest) ← readInt 4 stream
  let (hashPrevBlock, rest) ← readUint 32 rest
  let (hashMerkleRoot, rest) ← readUint 32 rest
  let (nTime, rest) ← readUint 4 rest
  let (nBits, rest) ← readUint 4 rest
  let (nNonce, rest) ← readUint 4 rest
  some (⟨nVersion, hashPrevBlock, hashMerkleRoot, nTime, nBits, nNonce⟩, rest)

/-! ## Merkle tree -/

/-- The hash of two tree nodes. -/
def merkleParent (prims : Primitives) (left right : ℕ) : ℕ :=
  prims.hash (toBytesLE 32 left ++ toBytesLE 32 right)

/-- One level of the tree from the level below; a last odd node is paired with
itself. -/
def merkleLevelAbove (prims : Primitives) : List ℕ → List ℕ
  | [] => []
  | [node] => [merkleParent prims node node]
  | left :: right :: rest => merkleParent prims left right :: merkleLevelAbove prims rest

/-- All levels of the tree, the leaves first. -/
def merkleLevels (prims : Primitives) : (fuel : ℕ) → List ℕ → List ℕ
  | 0, level => level
  | fuel + 1, level =>
      if level.length ≤ 1 then level
      else level ++ merkleLevels prims fuel (merkleLevelAbove prims level)

/-- The vector `vMerkleTree` that `BuildMerkleTree` fills. -/
def vMerkleTree (prims : Primitives) (block : CBlock) : List ℕ :=
  merkleLevels prims block.vtx.length (block.txids prims)

/-- The value `BuildMerkleTree` returns. -/
def buildMerkleTree (prims : Primitives) (block : CBlock) : ℕ :=
  ((block.vMerkleTree prims).getLast?).getD 0

end CBlock

/-! ## Block index entries -/

/-- Bit numbers of `CBlockIndex::nFlags`. -/
def BLOCK_PROOF_OF_STAKE : ℕ := 0
def BLOCK_STAKE_ENTROPY : ℕ := 1
def BLOCK_STAKE_MODIFIER : ℕ := 2

structure CBlockIndex where
  phashBlock : ℕ
  pprev : Option ℕ
  pnext : Option ℕ
  nFile : ℕ
  nBlockPos : ℕ
  nChainTrust : ℕ
  nHeight : ℤ
  nMint : ℤ
  nMoneySupply : ℤ
  nLastReward : ℤ
  nFlags : ℕ
  nStakeModifier : ℕ
  prevoutStake : COutPoint
  nStakeTime : ℕ
  hashProof : ℕ
  nVersion : ℤ
  hashMerkleRoot : ℕ
  nTime : ℕ
  nBits : ℕ
  nNonce : ℕ
  deriving DecidableEq, Repr

namespace CBlockIndex

def isProofOfStake (pindex : CBlockIndex) : Bool := pindex.nFlags.testBit BLOCK_PROOF_OF_STAKE

def isProofOfWork (pindex : CBlockIndex) : Bool := !pindex.isProofOfStake

def getStakeEntropyBit (pindex : CBlockIndex) : ℕ :=
  (pindex.nFlags.testBit BLOCK_STAKE_ENTROPY).toNat

def generatedStakeModifier (pindex : CBlockIndex) : Bool :=
  pindex.nFlags.testBit BLOCK_STAKE_MODIFIER

/-- The entry for a block at a disk position, not yet linked. -/
def ofBlock (nFile nBlockPos : ℕ) (block : CBlock) (hash : ℕ) : CBlockIndex where
  phashBlock := hash
  pprev := none
  pnext := none
  nFile := nFile
  nBlockPos := nBlockPos
  nChainTrust := 0
  nHeight := 0
  nMint := 0
  nMoneySupply := 0
  nLastReward := 0
  nFlags := if block.isProofOfStake then 2 ^ BLOCK_PROOF_OF_STAKE else 0
  nStakeModifier := 0
  prevoutStake := block.getProofOfStake.1
  nStakeTime := block.getProofOfStake.2
  hashProof := 0
  nVersion := block.nVersion
  hashMerkleRoot := block.hashMerkleRoot
  nTime := block.nTime
  nBits := block.nBits
  nNonce := block.nNonce

/-- The work or stake a block's target stands for. -/
def getBlockTrust (pindex : CBlockIndex) : ℕ :=
  let bnTarget := CBigNum.setCompact pindex.nBits
  if bnTarget ≤ 0 then 0
  else CBigNum.getuint256 (2 ^ 256 / (bnTarget + 1))

end CBlockIndex

/-- An index entry as it is stored, with hashes for its pointers. -/
structure CDiskBlockIndex where
  hashNext : ℕ
  nFile : ℕ
  nBlockPos : ℕ
  nHeight : ℤ
  nMint : ℤ
  nMoneySupply : ℤ
  nLastReward : ℤ
  nFlags : ℕ
  nStakeModifier : ℕ
  prevoutStake : COutPoint
  nStakeTime : ℕ
  hashProof : ℕ
  header : CBlockHeader
  deriving DecidableEq, Repr

namespace CDiskBlockIndex

/-- The stored form of an entry.  The stake fields are written for
proof-of-stake blocks only. -/
def ofIndex (pindex : CBlockIndex) : CDiskBlockIndex where
  hashNext := pindex.pnext.getD 0
  nFile := pindex.nFile
  nBlockPos := pindex.nBlockPos
  nHeight := pindex.nHeight
  nMint := pindex.nMint
  nMoneySupply := pindex.nMoneySupply
  nLastReward := pindex.nLastReward
  nFlags := pindex.nFlags
  nStakeModifier := pindex.nStakeModifier
  prevoutStake := if pindex.isProofOfStake then pindex.prevoutStake else COutPoint.null
  nStakeTime := if pindex.isProofOfStake then pindex.nStakeTime else 0
  hashProof := pindex.hashProof
  header :=
    { nVersion := pindex.nVersion
      hashPrevBlock := pindex.pprev.getD 0
      hashMerkleRoot := pindex.hashMerkleRoot
      nTime := pindex.nTime
      nBits := pindex.nBits
      nNonce := pindex.nNonce }

/-- The hash under which the entry is stored. -/
def getBlockHash (prims : Primitives) (diskindex : CDiskBlockIndex) : ℕ :=
  diskindex.header.getHash prims

end CDiskBlockIndex

end SocietyGold
