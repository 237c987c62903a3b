import SocietyGold.AcceptBlock

/-!
# Soundness of stakes

`CheckProofOfStake` ignores its signature check, lets a failed kernel through and
works on a previous transaction that is never read from disk; `AcceptBlock` logs its
failure and goes on.  Whether a stake is accepted depends on the transaction index
alone: there has to be a record of the previous transaction.
-/

namespace SocietyGold

open Support

/-! ## What a sound stake is -/

/-- The index record of the transaction that a coinstake spends first. -/
def kernelRecord (st : ChainState) (tx : CTransaction) : Option CTxIndex :=
  tx.vin.head?.bind fun txin => st.txdb.readTxIndex txin.prevout.hash

/-- The time of the block with that transaction. -/
def stakeBlockTime (st : ChainState) (tx : CTransaction) : ℕ :=
  match kernelRecord st tx with
  | none => 0
  | some record => CBlock.timeReadFromDisk st record.pos.nFile record.pos.nBlockPos

/-- The first input is signed for an output of the previous transaction, that output
has the minimum age, and the kernel hash is within the target for its value. -/
structure SoundStake (env : Env) (st : ChainState) (pindexPrev : CBlockIndex)
    (tx txPrev : CTransaction) (nBits : ℕ) : Prop where
  signed : verifySignature env txPrev tx 0 SCRIPT_VERIFY_NONE 0 = .ok true
  aged : stakeBlockTime st tx + nStakeMinAge ≤ tx.nTime
  withinTarget : ∃ txin txout, tx.vin.head? = some txin ∧
    txPrev.vout[txin.prevout.n]? = some txout ∧
    (kernelHash env pindexPrev (stakeBlockTime st tx) txPrev txin.prevout tx.nTime : ℤ) ≤
      weightedTarget nBits txout.nValue

/-- The stake is sound on its previous transaction, the one with the hash that its first
input names. -/
def IsSoundStake (env : Env) (st : ChainState) (pindexPrev : CBlockIndex)
    (tx : CTransaction) (nBits : ℕ) : Prop :=
  ∃ txPrev, SoundStake env st pindexPrev tx txPrev nBits

/-! ## CheckProofOfStake -/

section Check

variable {env : Env} {st : ChainState} {pindexPrev : CBlockIndex} {tx : CTransaction}
  {nBits hashProofOfStake targetProofOfStake : ℕ} {kernel : KernelResult}

/-- `CheckProofOfStake` succeeds for every coinstake whose previous transaction has a
record. -/
theorem checkProofOfStake_success_iff
    (h : checkProofOfStake env st pindexPrev tx nBits hashProofOfStake targetProofOfStake =
      .ok kernel) :
    kernel.success = true ↔ tx.isCoinStake = true ∧ (kernelRecord st tx).isSome = true := by
  unfold checkProofOfStake at h
  by_cases hStake : tx.isCoinStake = true
  · simp only [hStake, Bool.not_true, Bool.false_eq_true, if_false, bind_eq_ok] at h
    obtain ⟨txin, hIn, h⟩ := h
    have hRecord : kernelRecord st tx = st.txdb.readTxIndex txin.prevout.hash := by
      rw [elementAt_eq_ok, ← List.head?_eq_getElem?] at hIn
      simp [kernelRecord, hIn]
    have hRead : (CTransaction.readFromDisk st st.txdb (CTransaction.null env.adjustedTime)
        txin.prevout).success = (kernelRecord st tx).isSome := by
      rw [hRecord]
      exact CTransaction.readFromDiskHash_success st st.txdb _ _
    rw [hRead] at h
    by_cases hFound : (kernelRecord st tx).isSome = true
    · refine iff_of_true ?_ ⟨hStake, hFound⟩
      simp only [hFound, Bool.not_true, Bool.false_eq_true, if_false, bind_eq_ok] at h
      obtain ⟨-, -, checked, -, h⟩ := h
      split_ifs at h with hSuccess
      · cases h
        exact hSuccess
      · simp only [bind_eq_ok, Except.ok.injEq] at h
        obtain ⟨-, -, rfl⟩ := h
        rfl
    · refine iff_of_false ?_ fun hBoth => hFound hBoth.2
      simp only [hFound, Bool.not_false, if_true, Except.ok.injEq] at h
      simp [← h]
  · refine iff_of_false ?_ fun hBoth => hStake hBoth.1
    simp only [hStake, Bool.not_false, if_true, Except.ok.injEq] at h
    simp [← h]

end Check

/-! ## AcceptBlock -/

/-- `CheckProofOfStake` succeeds for the coinstake of the block. -/
def PassesProofOfStake (env : Env) (st : ChainState) (block : CBlock) : Prop :=
  ∃ pindexPrev coinstake kernel,
    st.mapBlockIndex.lookup block.hashPrevBlock = some pindexPrev ∧
    elementAt block.vtx 1 = .ok coinstake ∧
    checkProofOfStake env st pindexPrev coinstake block.nBits 0 0 = .ok kernel ∧
    kernel.success = true

/-- The record of the transaction that the stake of the block spends. -/
def stakeRecord (st : ChainState) (block : CBlock) : Option CTxIndex :=
  block.vtx[1]?.bind fun coinstake => kernelRecord st coinstake

theorem isCoinStake_of_isProofOfStake
    {block : CBlock} {coinstake : CTransaction} (h : block.isProofOfStake = true)
    (hSecond : block.vtx[1]? = some coinstake) : coinstake.isCoinStake = true := by
  unfold CBlock.isProofOfStake at h
  split at h
  · rename_i hVtx
    rw [hVtx] at hSecond
    cases hSecond
    exact h
  · cases h

/-- For an accepted proof-of-stake block, `CheckProofOfStake` has succeeded exactly when
the previous transaction has a record. -/
theorem passesProofOfStake_iff_of_accepted
    {env : Env} {fromNode : Bool} {st st' : ChainState} {block : CBlock}
    (h : acceptBlock env fromNode st block = .ok (.ok (), st'))
    (hStake : block.isProofOfStake = true) :
    PassesProofOfStake env st block ↔ (stakeRecord st block).isSome = true := by
  obtain ⟨pindexPrev, -, hPrev, -, hNext⟩ :=
    (acceptBlock_cases h).resolve_left fun hRefused => hRefused.2 rfl
  obtain ⟨_, _, -, -, -, hProof, -, -⟩ :=
    (acceptNext_cases hNext).resolve_left fun hRefused => hRefused.2 rfl
  have hNotWork : block.isProofOfWork = false := by simp [CBlock.isProofOfWork, hStake]
  simp only [proofHash, hNotWork, Bool.false_eq_true, if_false, bind_eq_ok] at hProof
  obtain ⟨coinstake, hSecond, kernel, hCheck, -⟩ := hProof
  have hElement := elementAt_eq_ok.mp hSecond
  have hRecord : stakeRecord st block = kernelRecord st coinstake := by
    simp [stakeRecord, hElement]
  have hCoinStake := isCoinStake_of_isProofOfStake hStake hElement
  have hSuccess := checkProofOfStake_success_iff hCheck
  rw [hRecord]
  constructor
  · rintro ⟨pindexPrev', coinstake', kernel', hPrev', hSecond', hCheck', hTrue⟩
    cases hPrev.symm.trans hPrev'
    cases hSecond.symm.trans hSecond'
    cases hCheck.symm.trans hCheck'
    exact (hSuccess.mp hTrue).2
  · intro hFound
    exact ⟨pindexPrev, coinstake, kernel, hPrev, hSecond, hCheck,
      hSuccess.mpr ⟨hCoinStake, hFound⟩⟩

namespace Sample

def stakingTip : CBlockIndex := { tipEntry with nHeight := 200 }

/-- A node at a height where stakes are allowed. -/
def stakingNode (records : List (ℕ × CTxIndex)) : ChainState :=
  { nodeWith records with
    mapBlockIndex := (∅ : Table ℕ CBlockIndex).insert 500 stakingTip
    nBestHeight := 200 }

def coinstake : CTransaction where
  nVersion := 1
  nTime := 1008
  vin := [⟨⟨77, 1⟩, [], UINT_MAX⟩]
  vout := [⟨0, []⟩, ⟨5, [0x51]⟩]
  nLockTime := 0

/-- A block with that stake; its Merkle root is wrong. -/
def stakeBlock : CBlock :=
  { sealed 500 1008 [coinbase 1008 201 0, coinstake] with
    hashMerkleRoot := 1
    nBits := bnProofOfStakeLimit.getCompact }

/-- The record of the transaction that is staked, in a file that does not exist. -/
def stakedRecord : ℕ × CTxIndex := (77, CTxIndex.unspent ⟨1, 0, 0⟩ 2)

theorem accepts_stakeBlock (records : List (ℕ × CTxIndex))
    (h : (acceptBlock (env 1100) true (stakingNode records) stakeBlock).map Prod.fst =
      .ok (.ok ())) :
    ∃ st', acceptBlock (env 1100) true (stakingNode records) stakeBlock =
      .ok (.ok (), st') := by
  cases hRun : acceptBlock (env 1100) true (stakingNode records) stakeBlock with
  | error fault => simp [hRun, Except.map] at h
  | ok out =>
      obtain ⟨verdict, st'⟩ := out
      simp only [hRun, Except.map, Except.ok.injEq] at h
      exact ⟨st', by rw [h]⟩

end Sample

end SocietyGold
