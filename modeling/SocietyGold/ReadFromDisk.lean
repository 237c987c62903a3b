import SocietyGold.State

/-!
# Reading transactions and headers back from disk

The overloads of `ReadFromDisk` and the coin age that is computed from what they
deliver.  A read is a member function: it is called on an object and leaves that
object, changed or not, behind.
-/

namespace SocietyGold

open Support

/-- The minimum age of a stake, in seconds. -/
def nStakeMinAge : ℕ := 60 * 60 * 1

namespace CTransaction

/-- `ReadFromDisk(pos)`, called on `this`: open the block file and seek.  The
deserialization is commented out in the source, so the object stays as it is. -/
def readFromDiskPos (st : ChainState) (this : CTransaction) (pos : CDiskTxPos) :
    Bool × CTransaction :=
  match st.openBlockFile pos.nFile with
  | none => (false, this)
  | some _ => (true, this)

/-- What `ReadFromDisk(txdb, hash, txindexRet)` leaves behind. -/
structure ReadResult where
  success : Bool
  this : CTransaction
  txindexRet : CTxIndex

/-- `ReadFromDisk(txdb, hash, txindexRet)`, called on `this`. -/
def readFromDiskHash (st : ChainState) (txdb : CTxDB) (this : CTransaction) (hash : ℕ) :
    ReadResult :=
  match txdb.readTxIndex hash with
  | none => ⟨false, this, CTxIndex.null⟩
  | some txindexRet =>
      let inner := readFromDiskPos st this txindexRet.pos
      -- the status of the inner call is overwritten
      ⟨true, inner.2, txindexRet⟩

/-- `ReadFromDisk(txdb, prevout, txindexRet)`, called on `this`. -/
def readFromDisk (st : ChainState) (txdb : CTxDB) (this : CTransaction) (prevout : COutPoint) :
    ReadResult :=
  readFromDiskHash st txdb this prevout.hash

end CTransaction

/-- `CBlock::ReadFromDisk(nFile, nBlockPos, false)`: read a header only. -/
def CBlock.readHeaderFromDisk (st : ChainState) (nFile nBlockPos : ℕ) : Option CBlockHeader := do
  let file ← st.openBlockFile nFile
  let (header, _) ← CBlock.readHeader (fileFrom file nBlockPos)
  some header

/-- The time of a block object after a header read whose result is ignored.  A
read that fails after the time field leaves the time behind. -/
def CBlock.timeReadFromDisk (st : ChainState) (nFile nBlockPos : ℕ) : ℕ :=
  match st.openBlockFile nFile with
  | none => 0
  | some file =>
      match readBytes (4 + 32 + 32) (fileFrom file nBlockPos) with
      | none => 0
      | some (_, rest) => ((readUint 4 rest).map Prod.fst).getD 0

/-! ## Coin age -/

namespace CTransaction

/-- The loop of `GetCoinAge` over the inputs.  It delivers the return value and
the coin age so far in cent-seconds. -/
def getCoinAgeLoop (env : Env) (st : ChainState) (txdb : CTxDB) (tx : CTransaction) :
    List CTxIn → (bnCentSecond : CBigNum) → Checked (Bool × CBigNum)
  | [], bnCentSecond => .ok (true, bnCentSecond)
  | txin :: rest, bnCentSecond =>
      let read := readFromDisk st txdb (null env.adjustedTime) txin.prevout
      let txPrev := read.this
      if !read.success then getCoinAgeLoop env st txdb tx rest bnCentSecond
      else if tx.nTime < txPrev.nTime then .ok (false, bnCentSecond)
      else
        match CBlock.readHeaderFromDisk st read.txindexRet.pos.nFile
            read.txindexRet.pos.nBlockPos with
        | none => .ok (false, bnCentSecond)
        | some header =>
            if header.nTime + nStakeMinAge > tx.nTime then
              getCoinAgeLoop env st txdb tx rest bnCentSecond
            else do
              let txout ← elementAt txPrev.vout txin.prevout.n
              let coins := (txout.nValue * (tx.nTime - txPrev.nTime : ℕ)).tdiv CENT
              getCoinAgeLoop env st txdb tx rest (bnCentSecond + coins)

/-- `GetCoinAge`: the return value and the coin age in coin-days. -/
def getCoinAge (env : Env) (st : ChainState) (txdb : CTxDB) (tx : CTransaction) :
    Checked (Bool × ℕ) :=
  if tx.isCoinBase then .ok (true, 0)
  else do
    let (success, bnCentSecond) ← getCoinAgeLoop env st txdb tx tx.vin 0
    if success then
      let bnCoinDay := ((bnCentSecond * CENT).tdiv COIN).tdiv (24 * 60 * 60)
      .ok (true, bnCoinDay.natAbs % 2 ^ 64)
    else .ok (false, 0)

/-! ## What a read does to its object -/

@[simp] theorem readFromDiskPos_this
    (st : ChainState) (this : CTransaction) (pos : CDiskTxPos) :
    (readFromDiskPos st this pos).2 = this := by
  unfold readFromDiskPos
  split <;> rfl

/-- No read from disk changes the object it is called on. -/
@[simp] theorem readFromDiskHash_this
    (st : ChainState) (txdb : CTxDB) (this : CTransaction) (hash : ℕ) :
    (readFromDiskHash st txdb this hash).this = this := by
  unfold readFromDiskHash
  cases txdb.readTxIndex hash with
  | none => rfl
  | some record => exact readFromDiskPos_this st this record.pos

/-- A read succeeds exactly when the index has a record. -/
theorem readFromDiskHash_success
    (st : ChainState) (txdb : CTxDB) (this : CTransaction) (hash : ℕ) :
    (readFromDiskHash st txdb this hash).success = (txdb.readTxIndex hash).isSome := by
  unfold readFromDiskHash
  cases txdb.readTxIndex hash <;> rfl

end CTransaction

end SocietyGold
