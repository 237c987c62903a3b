import SocietyGold.MoneySupply
import SocietyGold.RoundTrips

/-!
# Positions of transactions on disk

`WriteToDisk` appends a block to a file, and `ConnectBlock` computes where in the
file each of its transactions lies: the position of the block, the size of an empty
block with the compact size of the transactions corrected, and a running sum of the
transactions' sizes.  The position is where the transaction begins.  `ReadFromDisk`
seeks there and then leaves the object it is called on as it is.
-/

namespace SocietyGold

open Support

/-! ## Bytes of a written block -/

/-- The transaction's bytes begin at a position of a file. -/
def BeginsAt (file : List UInt8) (nTxPos : ℕ) (tx : CTransaction) : Prop :=
  ∃ rest, fileFrom file nTxPos = tx.serialize ++ rest

theorem length_flatMap_serialize (vtx : List CTransaction) :
    (vtx.flatMap CTransaction.serialize).length =
      (vtx.map CTransaction.getSerializeSize).sum := by
  simp [List.length_flatMap, CTransaction.length_serialize]

/-- The bytes of a block up to one of its transactions. -/
theorem serialize_eq_append
    {block : CBlock} {i : ℕ} {tx : CTransaction} (h : block.vtx[i]? = some tx) :
    ∃ before rest, block.serialize = before ++ (tx.serialize ++ rest) ∧
      before.length = 80 + getSizeOfCompactSize block.vtx.length +
        ((block.vtx.take i).map CTransaction.getSerializeSize).sum := by
  obtain ⟨hLt, hGet⟩ := List.getElem?_eq_some_iff.mp h
  have hSplit : block.vtx = block.vtx.take i ++ tx :: block.vtx.drop (i + 1) := by
    rw [← hGet, ← List.drop_eq_getElem_cons hLt, List.take_append_drop]
  refine ⟨block.toCBlockHeader.serialize ++ writeCompactSize block.vtx.length ++
      (block.vtx.take i).flatMap CTransaction.serialize,
    (block.vtx.drop (i + 1)).flatMap CTransaction.serialize ++
      serializeBytes block.vchBlockSig, ?_, ?_⟩
  · have hBytes : block.vtx.flatMap CTransaction.serialize =
        (block.vtx.take i).flatMap CTransaction.serialize ++
          (tx.serialize ++ (block.vtx.drop (i + 1)).flatMap CTransaction.serialize) := by
      conv_lhs => rw [hSplit]
      rw [List.flatMap_append, List.flatMap_cons]
    simp only [CBlock.serialize, serializeVector, hBytes, List.append_assoc]
  · rw [List.length_append, List.length_append, length_flatMap_serialize,
      length_writeCompactSize]
    simp [CBlockHeader.serialize]

/-! ## The running position -/

section Running

variable (env : Env) (st : ChainState) (pindex : CBlockIndex) (block : CBlock)

/-- The totals of `ConnectBlock` before its first transaction. -/
def initialTally : ConnectTally := ⟨0, 0, 0, 0, 0, firstTxPos pindex block false, ∅⟩

/-- The loop of `ConnectBlock` reaches the transaction with a given index, with the
given totals. -/
def ReachesTransaction (i : ℕ) (tally : ConnectTally) : Prop :=
  forEach (connectTransaction env st pindex block.isProofOfWork false) (block.vtx.take i)
    (initialTally pindex block) = .ok (.next tally)

variable {env st pindex block}

theorem nTxPos_of_connectSpending
    {fProofOfWork : Bool} {tx : CTransaction} {posThisTx : CDiskTxPos}
    {tally tally' : ConnectTally}
    (h : connectSpending env st pindex fProofOfWork tx posThisTx tally = .ok (.next tally')) :
    tally'.nTxPos = tally.nTxPos := by
  unfold connectSpending at h
  dsimp only at h
  by_cases hFetched : (!(fetchInputs env st.txdb st.mempool tx true false ∅).success) = true
  · rw [if_pos hFetched] at h
    cases h
  rw [if_neg hFetched] at h
  simp only [bind_eq_ok] at h
  obtain ⟨nP2SHSigOps, -, counted, hTally, ⟨connected, queue⟩, -, h⟩ := h
  cases connected with
  | false => simp at h
  | true =>
      simp only [Bool.not_true, Bool.false_eq_true, if_false, Except.ok.injEq,
        Flow.next.injEq] at h
      rw [← h]
      exact (tallyValues_frame hTally).2.1

/-- A round moves the position on by the size of its transaction. -/
theorem nTxPos_of_connectTransaction
    {fProofOfWork : Bool} {tx : CTransaction} {tally tally' : ConnectTally}
    (h : connectTransaction env st pindex fProofOfWork false tally tx = .ok (.next tally')) :
    tally'.nTxPos = (tally.nTxPos + tx.getSerializeSize) % 2 ^ 32 := by
  unfold connectTransaction at h
  dsimp only at h
  by_cases hSigOps : tally.nSigOps + tx.getLegacySigOpCount > MAX_BLOCK_SIGOPS
  · rw [if_pos hSigOps] at h
    cases h
  · simp only [hSigOps, Bool.false_eq_true, if_false] at h
    by_cases hCoinBase : tx.isCoinBase = true
    · rw [if_pos hCoinBase] at h
      simp only [bind_eq_ok, Except.ok.injEq, Flow.next.injEq] at h
      obtain ⟨-, -, rfl⟩ := h
      rfl
    · rw [if_neg hCoinBase] at h
      exact nTxPos_of_connectSpending h

/-- The position of a transaction that the loop reaches. -/
theorem nTxPos_of_reaches
    {i : ℕ} {tally : ConnectTally} (h : ReachesTransaction env st pindex block i tally) :
    tally.nTxPos = (pindex.nBlockPos + (80 + getSizeOfCompactSize block.vtx.length) +
      ((block.vtx.take i).map CTransaction.getSerializeSize).sum) % 2 ^ 32 := by
  have hFold : tally.nTxPos = (block.vtx.take i).foldl
      (fun nTxPos tx => (nTxPos + tx.getSerializeSize) % 2 ^ 32)
      (firstTxPos pindex block false) := by
    apply forEach_simulates (R := fun (tally : ConnectTally) nTxPos => tally.nTxPos = nTxPos)
      ?_ ?_ h
    · intro tally nTxPos tx tally' _ hPos hRound
      rw [← hPos]
      exact nTxPos_of_connectTransaction hRound
    · rfl
  have hFirst : firstTxPos pindex block false =
      (pindex.nBlockPos + (80 + getSizeOfCompactSize block.vtx.length)) % 2 ^ 32 := by
    simp only [firstTxPos, CBlock.emptySerializeSize, Bool.false_eq_true, if_false]
    have hZero : getSizeOfCompactSize 0 = 1 := rfl
    rw [hZero]
    congr 1
    omega
  have hLt : firstTxPos pindex block false < 2 ^ 32 := by
    rw [hFirst]
    exact Nat.mod_lt _ (by norm_num)
  have hSum := foldl_unsigned ((block.vtx.take i).map CTransaction.getSerializeSize) hLt
  rw [List.foldl_map] at hSum
  rw [hFold, hSum, hFirst, Nat.mod_add_mod]

end Running

/-! ## Where transactions begin -/

section Written

variable {env : Env} {st st' : ChainState} {block : CBlock} {nFile nBlockPos : ℕ}

theorem nFile_of_appendBlockFile
    {fuel found : ℕ} (h : appendBlockFile st fuel nFile = some found) :
    ¬(found < 1 ∨ found = UINT_MAX) := by
  induction fuel generalizing nFile with
  | zero => cases h
  | succ fuel ih =>
      unfold appendBlockFile at h
      split_ifs at h with hFile hRoom
      · rw [← Option.some.inj h]
        exact hFile
      · exact ih h

/-- What `WriteToDisk` leaves in the file: the block ends it, at its position. -/
theorem writeToDisk_eq_some
    (h : writeToDisk env st block = some (nFile, nBlockPos, st')) :
    ∃ before, st'.openBlockFile nFile = some (before ++ block.serialize) ∧
      nBlockPos = before.length % 2 ^ 32 := by
  unfold writeToDisk at h
  split_ifs at h
  cases hFound : appendBlockFile st (st.blockFiles.entries.length + 1) st.nCurrentBlockFile with
  | none => simp [hFound] at h
  | some found =>
      simp only [hFound, Option.some.injEq, Prod.mk.injEq] at h
      obtain ⟨rfl, rfl, rfl⟩ := h
      refine ⟨(st.blockFiles.lookup found).getD [] ++
        (env.messageStart ++ toBytesLE 4 block.getSerializeSize), ?_, rfl⟩
      unfold ChainState.openBlockFile
      rw [if_neg (nFile_of_appendBlockFile hFound), Table.lookup_insert_ite,
        if_pos rfl]

/-- The position that `ConnectBlock` computes is where the transaction begins. -/
theorem beginsAt_of_reaches
    {envConnect : Env} {stConnect : ChainState} {pindex : CBlockIndex} {i : ℕ}
    {tx : CTransaction} {tally : ConnectTally} {before : List UInt8}
    (hPos : pindex.nBlockPos = before.length % 2 ^ 32)
    (hSmall : (before ++ block.serialize).length < 2 ^ 32)
    (hTx : block.vtx[i]? = some tx)
    (hReaches : ReachesTransaction envConnect stConnect pindex block i tally) :
    BeginsAt (before ++ block.serialize) tally.nTxPos tx := by
  obtain ⟨inside, rest, hBytes, hInside⟩ := serialize_eq_append hTx
  have hLength : tally.nTxPos = (before ++ inside).length := by
    rw [hBytes] at hSmall
    simp only [List.length_append] at hSmall ⊢
    rw [nTxPos_of_reaches hReaches, hPos]
    omega
  refine ⟨rest, ?_⟩
  rw [hBytes, ← List.append_assoc, fileFrom, hLength, List.drop_left]

end Written

/-- A position points at a transaction: its bytes begin there, and reading from the
position into an object yields it. -/
def PointsAt (st : ChainState) (this : CTransaction) (pos : CDiskTxPos) (tx : CTransaction) :
    Prop :=
  (∃ file, st.openBlockFile pos.nFile = some file ∧ BeginsAt file pos.nTxPos tx) ∧
    CTransaction.readFromDiskPos st this pos = (true, tx)

/-- The position that `ConnectBlock` computes for a transaction of a written block is
where its bytes begin.  Reading from there yields the transaction exactly when the
object that is read into holds it already. -/
theorem position_pointsAt_iff
    {env envConnect : Env} {st st' stConnect : ChainState} {block : CBlock}
    {nFile nBlockPos : ℕ} {pindex : CBlockIndex} {i : ℕ} {tx : CTransaction}
    {tally : ConnectTally} (this : CTransaction)
    (hWrite : writeToDisk env st block = some (nFile, nBlockPos, st'))
    (hFile : pindex.nFile = nFile) (hPos : pindex.nBlockPos = nBlockPos)
    (hSmall : ∀ file, st'.openBlockFile nFile = some file → file.length < 2 ^ 32)
    (hTx : block.vtx[i]? = some tx)
    (hReaches : ReachesTransaction envConnect stConnect pindex block i tally) :
    (∃ file, st'.openBlockFile nFile = some file ∧ BeginsAt file tally.nTxPos tx) ∧
      (PointsAt st' this ⟨pindex.nFile, pindex.nBlockPos, tally.nTxPos⟩ tx ↔ this = tx) := by
  obtain ⟨before, hOpen, hBefore⟩ := writeToDisk_eq_some hWrite
  have hBegins : BeginsAt (before ++ block.serialize) tally.nTxPos tx :=
    beginsAt_of_reaches (hPos.trans hBefore) (hSmall _ hOpen) hTx hReaches
  have hRead : CTransaction.readFromDiskPos st' this
      ⟨pindex.nFile, pindex.nBlockPos, tally.nTxPos⟩ = (true, this) := by
    simp only [CTransaction.readFromDiskPos, hFile, hOpen]
  refine ⟨⟨_, hOpen, hBegins⟩, ?_⟩
  unfold PointsAt
  rw [hRead]
  constructor
  · rintro ⟨-, hYields⟩
    exact (Prod.mk.injEq _ _ _ _ ▸ hYields).2
  · rintro rfl
    exact ⟨⟨_, hFile ▸ hOpen, hBegins⟩, rfl⟩

namespace Sample

/-- A block with two transactions. -/
def twoTxBlock : CBlock := sealed 500 1000 [coinbase 1000 11 COIN, spend 1000 ⟨7, 0⟩ 100]

/-- The entry for the block as the first one in the first file. -/
def twoTxEntry : CBlockIndex := CBlockIndex.ofBlock 1 8 twoTxBlock 600

theorem twoTxBlock_written :
    ∃ st', writeToDisk (env 900) emptyState twoTxBlock = some (1, 8, st') ∧
      ∀ file, st'.openBlockFile 1 = some file → file.length < 2 ^ 32 := by
  have hSize : twoTxBlock.getSerializeSize < 1000 := by
    decide +kernel
  refine ⟨_, rfl, ?_⟩
  intro file hOpen
  have hFile : file = [] ++ ((env 900).messageStart ++ toBytesLE 4 twoTxBlock.getSerializeSize) ++
      twoTxBlock.serialize := (Option.some.inj hOpen).symm
  rw [hFile, List.length_append, List.length_append, List.length_append, length_toBytesLE,
    CBlock.length_serialize]
  have hMagic : (env 900).messageStart.length = 4 := rfl
  rw [hMagic, List.length_nil]
  omega

theorem twoTxBlock_reaches :
    ∃ tally, ReachesTransaction (env 900) emptyState twoTxEntry twoTxBlock 1 tally :=
  ⟨_, rfl⟩

/-- Read into an object that holds it, the second transaction comes back. -/
theorem spend_pointsAt :
    ∃ st' nTxPos, PointsAt st' (spend 1000 ⟨7, 0⟩ 100) ⟨1, 8, nTxPos⟩
      (spend 1000 ⟨7, 0⟩ 100) := by
  obtain ⟨st', hWrite, hSmall⟩ := twoTxBlock_written
  obtain ⟨tally, hReaches⟩ := twoTxBlock_reaches
  exact ⟨st', tally.nTxPos,
    (position_pointsAt_iff (spend 1000 ⟨7, 0⟩ 100) hWrite rfl rfl hSmall rfl hReaches).2.mpr rfl⟩

/-- Read into a fresh object, it does not. -/
theorem spend_not_pointsAt :
    ∃ st' tally, writeToDisk (env 900) emptyState twoTxBlock = some (1, 8, st') ∧
      ReachesTransaction (env 900) emptyState twoTxEntry twoTxBlock 1 tally ∧
      ¬PointsAt st' (CTransaction.null 900) ⟨1, 8, tally.nTxPos⟩ (spend 1000 ⟨7, 0⟩ 100) := by
  obtain ⟨st', hWrite, -⟩ := twoTxBlock_written
  obtain ⟨tally, hReaches⟩ := twoTxBlock_reaches
  refine ⟨st', tally, hWrite, hReaches, ?_⟩
  rintro ⟨-, hYields⟩
  have hThis := CTransaction.readFromDiskPos_this st' (CTransaction.null 900) ⟨1, 8, tally.nTxPos⟩
  rw [hYields] at hThis
  exact absurd hThis (by decide)

end Sample

end SocietyGold
