import SocietyGold.Block
import SocietyGold.Support.BatchStore

/-!
# The transaction database

`CTxDB` keeps the transaction index, the block index entries, the hash of the
best chain, the best invalid trust and the address index in one key-value store
with at most one open batch.
-/

namespace SocietyGold

open Support

/-! ## Transaction index records -/

/-- Where a transaction lies on disk. -/
structure CDiskTxPos where
  nFile : ℕ
  nBlockPos : ℕ
  nTxPos : ℕ
  deriving DecidableEq, Repr

def CDiskTxPos.null : CDiskTxPos := ⟨UINT_MAX, 0, 0⟩

def CDiskTxPos.isNull (pos : CDiskTxPos) : Bool := pos.nFile = UINT_MAX

/-- The position that stands for the memory pool. -/
def CDiskTxPos.inMemoryPool : CDiskTxPos := ⟨1, 1, 1⟩

/-- The disk location of a transaction and the locations of the transactions
that spend its outputs. -/
structure CTxIndex where
  pos : CDiskTxPos
  vSpent : List CDiskTxPos
  deriving DecidableEq, Repr

def CTxIndex.null : CTxIndex := ⟨CDiskTxPos.null, []⟩

/-- The record of a transaction none of whose outputs is spent. -/
def CTxIndex.unspent (pos : CDiskTxPos) (nOutputs : ℕ) : CTxIndex :=
  ⟨pos, List.replicate nOutputs CDiskTxPos.null⟩

@[simp] theorem CDiskTxPos.isNull_null : CDiskTxPos.null.isNull = true := by decide

/-! ## Keys and values -/

inductive DbKey
  | tx (hash : ℕ)
  | blockindex (hash : ℕ)
  | adr (addrHash : ℕ)
  | hashBestChain
  | bnBestInvalidTrust
  deriving DecidableEq, Repr

inductive DbValue
  | txindex (record : CTxIndex)
  | diskindex (entry : CDiskBlockIndex)
  | hashes (hashes : List ℕ)
  | hash (hash : ℕ)
  | bignum (bn : CBigNum)
  deriving DecidableEq, Repr

abbrev CTxDB := BatchStore DbKey DbValue

namespace CTxDB

variable (txdb : CTxDB)

def readTxIndex (hash : ℕ) : Option CTxIndex :=
  match txdb.read (.tx hash) with
  | some (.txindex record) => some record
  | _ => none

def updateTxIndex (hash : ℕ) (record : CTxIndex) : Bool × CTxDB :=
  txdb.write (.tx hash) (.txindex record)

def eraseTxIndex (hash : ℕ) : Bool × CTxDB := txdb.erase (.tx hash)

def writeBlockIndex (prims : Primitives) (blockindex : CDiskBlockIndex) : Bool × CTxDB :=
  txdb.write (.blockindex (blockindex.getBlockHash prims)) (.diskindex blockindex)

def readHashBestChain : Option ℕ :=
  match txdb.read .hashBestChain with
  | some (.hash hash) => some hash
  | _ => none

def writeHashBestChain (hash : ℕ) : Bool × CTxDB := txdb.write .hashBestChain (.hash hash)

def writeBestInvalidTrust (bn : CBigNum) : Bool × CTxDB :=
  txdb.write .bnBestInvalidTrust (.bignum bn)

def readAddrIndex (addrHash : ℕ) : Option (List ℕ) :=
  match txdb.read (.adr addrHash) with
  | some (.hashes hashes) => some hashes
  | _ => none

/-- Add a transaction hash to the list of an address. -/
def writeAddrIndex (addrHash txHash : ℕ) : Bool × CTxDB :=
  match txdb.readAddrIndex addrHash with
  | none => txdb.write (.adr addrHash) (.hashes [txHash])
  | some txHashes =>
      if txHash ∈ txHashes then (true, txdb)
      else txdb.write (.adr addrHash) (.hashes (txHashes ++ [txHash]))

/-! ## The transaction index after a write -/

variable {txdb}

theorem readTxIndex_updateTxIndex
    {hash : ℕ} {record : CTxIndex} (h : (txdb.updateTxIndex hash record).1 = true) (k : ℕ) :
    readTxIndex (txdb.updateTxIndex hash record).2 k =
      if k = hash then some record else txdb.readTxIndex k := by
  unfold readTxIndex
  rw [updateTxIndex, BatchStore.write, BatchStore.read_update h]
  by_cases hk : k = hash
  · simp [hk]
  · simp [hk]

theorem readTxIndex_eraseTxIndex
    {hash : ℕ} (h : (txdb.eraseTxIndex hash).1 = true) (k : ℕ) :
    readTxIndex (txdb.eraseTxIndex hash).2 k =
      if k = hash then none else txdb.readTxIndex k := by
  unfold readTxIndex
  rw [eraseTxIndex, BatchStore.erase, BatchStore.read_update h]
  by_cases hk : k = hash
  · simp [hk]
  · simp [hk]

/-- The transaction index depends on the reads alone. -/
theorem readTxIndex_congr
    {txdb' : CTxDB} (h : ∀ key, txdb'.read key = txdb.read key) (k : ℕ) :
    txdb'.readTxIndex k = txdb.readTxIndex k := by
  simp only [readTxIndex, h]

/-- A write to any key outside the transaction index leaves the index alone. -/
theorem readTxIndex_update_of_ne
    {key : DbKey} (hKey : ∀ hash, key ≠ .tx hash) (value : Option DbValue) (k : ℕ) :
    readTxIndex (BatchStore.update txdb key value).2 k = txdb.readTxIndex k := by
  unfold readTxIndex
  rw [BatchStore.read_update_of_ne txdb value (hKey k).symm]

@[simp] theorem readTxIndex_writeBlockIndex
    (prims : Primitives) (blockindex : CDiskBlockIndex) (k : ℕ) :
    readTxIndex (txdb.writeBlockIndex prims blockindex).2 k = txdb.readTxIndex k :=
  readTxIndex_update_of_ne (by simp) _ k

@[simp] theorem readTxIndex_writeHashBestChain (hash k : ℕ) :
    readTxIndex (txdb.writeHashBestChain hash).2 k = txdb.readTxIndex k :=
  readTxIndex_update_of_ne (by simp) _ k

@[simp] theorem readTxIndex_writeAddrIndex (addrHash txHash k : ℕ) :
    readTxIndex (txdb.writeAddrIndex addrHash txHash).2 k = txdb.readTxIndex k := by
  unfold writeAddrIndex
  split
  · exact readTxIndex_update_of_ne (by simp) _ k
  · split_ifs
    · rfl
    · exact readTxIndex_update_of_ne (by simp) _ k

theorem readTxIndex_txnBegin
    {txdb' : CTxDB} (h : BatchStore.txnBegin txdb = .ok txdb') (k : ℕ) :
    txdb'.readTxIndex k = txdb.readTxIndex k := by
  exact readTxIndex_congr (BatchStore.read_txnBegin h) k

end CTxDB

end SocietyGold
