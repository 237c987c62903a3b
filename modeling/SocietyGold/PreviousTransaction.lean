import SocietyGold.CheckBlock
import SocietyGold.ReadFromDisk

/-!
# Loading a previous transaction

`ReadFromDisk` returns true whenever the transaction index has a record, and never
changes the object it is called on: the bytes on disk are not read, and the status of
the file operations is overwritten.
-/

namespace SocietyGold

open Support

namespace CTransaction

/-- The block file of a record, if it can be opened. -/
def recordFile (st : ChainState) (record : CTxIndex) : Option (List UInt8) :=
  st.openBlockFile record.pos.nFile

/-- The transaction a record points to, if its bytes can be decoded. -/
def recordedTransaction (st : ChainState) (record : CTxIndex) : Option CTransaction :=
  (recordFile st record).bind fun file =>
    (unserialize (fileFrom file record.pos.nTxPos)).map Prod.fst

/-- What a read for a hash promises: after a success the object is the transaction with
that hash, and each output that has a mark in the record can be accessed; without a
file or without a transaction in it the read fails. -/
structure LoadsTransaction (env : Env) (st : ChainState) (txdb : CTxDB) (this : CTransaction)
    (hash : ℕ) : Prop where
  loaded : (readFromDiskHash st txdb this hash).success = true →
    (readFromDiskHash st txdb this hash).this.getHash env.prims = hash
  indexable : (readFromDiskHash st txdb this hash).success = true →
    (readFromDiskHash st txdb this hash).txindexRet.vSpent.length ≤
      (readFromDiskHash st txdb this hash).this.vout.length
  unopened : ∀ record, txdb.readTxIndex hash = some record → recordFile st record = none →
    (readFromDiskHash st txdb this hash).success = false
  undecoded : ∀ record, txdb.readTxIndex hash = some record →
    recordedTransaction st record = none →
      (readFromDiskHash st txdb this hash).success = false

/-- The object is the transaction already, and the disk is fine. -/
structure IsLoaded (env : Env) (st : ChainState) (record : CTxIndex) (this : CTransaction)
    (hash : ℕ) : Prop where
  loaded : this.getHash env.prims = hash
  indexable : record.vSpent.length ≤ this.vout.length
  opened : recordFile st record ≠ none
  decoded : recordedTransaction st record ≠ none

theorem readFromDiskHash_of_record
    (st : ChainState) {txdb : CTxDB} (this : CTransaction) {hash : ℕ} {record : CTxIndex}
    (h : txdb.readTxIndex hash = some record) :
    readFromDiskHash st txdb this hash = ⟨true, this, record⟩ := by
  simp [readFromDiskHash, h]

theorem readFromDiskHash_of_no_record
    (st : ChainState) {txdb : CTxDB} (this : CTransaction) {hash : ℕ}
    (h : txdb.readTxIndex hash = none) :
    readFromDiskHash st txdb this hash = ⟨false, this, CTxIndex.null⟩ := by
  simp [readFromDiskHash, h]

/-- A read keeps its promise exactly when there is no record, or the object is the
transaction before it is read. -/
theorem loadsTransaction_iff
    (env : Env) (st : ChainState) (txdb : CTxDB) (this : CTransaction) (hash : ℕ) :
    LoadsTransaction env st txdb this hash ↔
      ∀ record, txdb.readTxIndex hash = some record → IsLoaded env st record this hash := by
  cases hRecord : txdb.readTxIndex hash with
  | none =>
      have hRead := readFromDiskHash_of_no_record st this hRecord
      refine iff_of_true ?_ (by simp)
      constructor <;> simp [hRead]
  | some record =>
      have hRead := readFromDiskHash_of_record st this hRecord
      constructor
      · intro hLoads found hFound
        cases hFound
        constructor
        · simpa [hRead] using hLoads.loaded
        · simpa [hRead] using hLoads.indexable
        · intro hNone
          simpa [hRead] using hLoads.unopened record hRecord hNone
        · intro hNone
          simpa [hRead] using hLoads.undecoded record hRecord hNone
      · intro hAll
        have hLoaded := hAll record rfl
        constructor
        · simpa [hRead] using hLoaded.loaded
        · simpa [hRead] using hLoaded.indexable
        · intro found hFound hNone
          obtain rfl := Option.some.inj (hRecord.symm.trans hFound)
          exact absurd hNone hLoaded.opened
        · intro found hFound hNone
          obtain rfl := Option.some.inj (hRecord.symm.trans hFound)
          exact absurd hNone hLoaded.decoded

end CTransaction

/-! ## A transaction on disk that is not loaded -/

namespace Sample

def stored : CTransaction := coinbase 1000 5 100

def storedRecord : CTxIndex := CTxIndex.unspent ⟨1, 0, 0⟩ 1

/-- A node whose first block file is that transaction. -/
def storingNode : ChainState :=
  { nodeWith [(stored.getHash prims, storedRecord)] with
    blockFiles := (∅ : Table ℕ (List UInt8)).insert 1 stored.serialize }

/-- The record points to the transaction, but reading it leaves a new object null. -/
theorem stored_not_loaded :
    storingNode.txdb.readTxIndex (stored.getHash prims) = some storedRecord ∧
      CTransaction.recordedTransaction storingNode storedRecord = some stored ∧
      ¬CTransaction.LoadsTransaction (env 900) storingNode storingNode.txdb
        (CTransaction.null 900) (stored.getHash prims) := by
  refine ⟨by decide +kernel, by decide +kernel, fun hLoads => ?_⟩
  have hHash := hLoads.loaded (by decide +kernel)
  rw [CTransaction.readFromDiskHash_this] at hHash
  exact absurd hHash (by decide +kernel)

end Sample

end SocietyGold
