import SocietyGold.BestChain
import SocietyGold.Kernel
import SocietyGold.Target

/-!
# Accepting blocks

`AcceptBlock` checks a block against the chain it extends, writes it to disk and
enters it into the block index.
-/

namespace SocietyGold

open Support

/-- To decrease the granularity of timestamps. -/
def STAKE_TIMESTAMP_MASK : ℕ := 15

/-- How far behind the best block the synchronized checkpoint lies. -/
def nCheckpointSpan : ℤ := 5000

def nMinDiskSpace : ℕ := 52428800

/-- The block files are kept under two gigabytes. -/
def maxBlockFileSize : ℕ := 0x7F000000 - MAX_SIZE

/-- Blocks for which a wrong target is let through. -/
def targetExemptions : List ℕ :=
  [0x474619e0a58ec88c8e2516f8232064881750e87acac3a416d65b99bd61246968,
    0x4f3dd45d3de3737d60da46cff2d36df0002b97c505cdac6756d2d88561840b63,
    0x274996cec47b3f3e6cd48c8f0b39c32310dd7ddc8328ae37762be956b9031024]

/-! ## Single checks -/

def isFinalTx (env : Env) (st : ChainState) (tx : CTransaction) (nBlockHeight : ℤ)
    (nBlockTime : ℤ) : Bool :=
  if tx.nLockTime = 0 then true
  else
    let nBlockHeight := if nBlockHeight = 0 then st.nBestHeight else nBlockHeight
    let nBlockTime := if nBlockTime = 0 then (env.adjustedTime : ℤ) else nBlockTime
    let bound := if (tx.nLockTime : ℤ) < LOCKTIME_THRESHOLD then nBlockHeight else nBlockTime
    if (tx.nLockTime : ℤ) < bound then true else tx.vin.all CTxIn.isFinal

def checkCoinStakeTimestamp (nTimeBlock nTimeTx : ℕ) : Bool :=
  nTimeBlock = nTimeTx && nTimeTx &&& STAKE_TIMESTAMP_MASK = 0

/-- `AutoSelectSyncCheckpoint` on the chain of the best block. -/
def autoSelectSyncCheckpoint (nBestHeight : ℤ) : (chain : List CBlockIndex) → Option CBlockIndex
  | [] => none
  | [pindex] => some pindex
  | pindex :: pprev :: rest =>
      if pindex.nHeight + nCheckpointSpan > nBestHeight then
        autoSelectSyncCheckpoint nBestHeight (pprev :: rest)
      else some pindex

/-- `Checkpoints::CheckSync`. -/
def checkSync (st : ChainState) (nHeight : ℤ) : Checked Bool := do
  let pindexBest ← deref (st.entry st.pindexBest)
  let pindexSync ← deref (autoSelectSyncCheckpoint pindexBest.nHeight (st.chainFrom pindexBest))
  .ok (decide (nHeight > pindexSync.nHeight))

/-! ## Writing the block file -/

/-- The file `AppendBlockFile` settles on. -/
def appendBlockFile (st : ChainState) : (fuel : ℕ) → (nFile : ℕ) → Option ℕ
  | 0, _ => none
  | fuel + 1, nFile =>
      if nFile < 1 ∨ nFile = UINT_MAX then none
      else if ((st.blockFiles.lookup nFile).getD []).length < maxBlockFileSize then some nFile
      else appendBlockFile st fuel (nFile + 1)

/-- `WriteToDisk`: the file and the position of the block, and the state with the
block appended. -/
def writeToDisk (env : Env) (st : ChainState) (block : CBlock) : Option (ℕ × ℕ × ChainState) :=
  if !env.canAppendBlockFile then none
  else
    match appendBlockFile st (st.blockFiles.entries.length + 1) st.nCurrentBlockFile with
    | none => none
    | some nFile =>
        let file := (st.blockFiles.lookup nFile).getD []
        let header := env.messageStart ++ toBytesLE 4 block.getSerializeSize
        let nBlockPos := (file ++ header).length % 2 ^ 32
        some (nFile, nBlockPos,
          { st with
            blockFiles := st.blockFiles.insert nFile (file ++ header ++ block.serialize)
            nCurrentBlockFile := nFile })

/-! ## AcceptBlock -/

/-- A verdict with the state it leaves behind. -/
abbrev AcceptOutcome := Verdict × ChainState

section Accept

variable (env : Env) (fromNode : Bool)

/-- Ask the sending node for blocks, through a pointer that may be null. -/
def pushGetBlocks : Checked Unit :=
  if fromNode then .ok () else .error .nullDereference

/-- The height rules for the two kinds of blocks. -/
def checkHeight (block : CBlock) (nHeight : ℤ) : Verdict := do
  refuseIf (block.isProofOfWork && nHeight > env.nLastPOWBlock) 100
    "AcceptBlock() : reject proof-of-work at height %d"
  refuseIf (block.isProofOfStake && nHeight < env.nPOSStartBlock) 100
    "AcceptBlock() : reject proof-of-stake at height <= %d"

/-- The rules on times, target and finality, given the coinbase. -/
def checkContext (st : ChainState) (block : CBlock) (pindexPrev : CBlockIndex)
    (coinbase : CTransaction) : Verdict := do
  refuseIf ((block.nTime : ℤ) > futureDrift coinbase.nTime && block.isProofOfStake) 50
    "AcceptBlock() : coinbase timestamp is too early"
  refuseIf (block.isProofOfStake &&
    !checkCoinStakeTimestamp block.nTime block.getProofOfStake.2) 50
    "AcceptBlock() : coinstake timestamp violation nTimeBlock=%d nTimeTx=%u"
  refuseIf (block.nBits ≠
      getNextTargetRequired env (st.chainFrom pindexPrev) block.isProofOfStake &&
    block.getHash env.prims ∉ targetExemptions) 100
    "AcceptBlock() : incorrect %s"
  refuseIf ((block.nTime : ℤ) ≤ pindexPrev.nTime - DRIFT ||
    futureDrift block.nTime < pindexPrev.nTime) 0
    "AcceptBlock() : block's timestamp is too early"
  refuseIf (!block.vtx.all fun tx => isFinalTx env st tx (pindexPrev.nHeight + 1) block.nTime) 10
    "AcceptBlock() : contains a non-final transaction"

/-- The proof hash of a block.  A failed proof-of-stake check is only logged, and
more blocks are asked for. -/
def proofHash (st : ChainState) (block : CBlock) (pindexPrev : CBlockIndex) : Checked ℕ :=
  if block.isProofOfWork then .ok (block.getPoWHash env.prims)
  else do
    let coinstake ← elementAt block.vtx 1
    let kernel ← checkProofOfStake env st pindexPrev coinstake block.nBits 0 0
    if kernel.success then .ok kernel.hashProofOfStake
    else do
      let _ ← deref (st.entry st.pindexBest)
      pushGetBlocks fromNode
      .ok kernel.hashProofOfStake

/-- The coinbase starts with the serialized block height. -/
def startsWithHeight (scriptSig : CScript) (nHeight : ℤ) : Bool :=
  (CScript.pushInt64 [] nHeight).isPrefixOf scriptSig

/-- The part of `AcceptBlock` that changes the state. -/
def storeBlock (st : ChainState) (block : CBlock) (hashProof : ℕ) : Checked AcceptOutcome :=
  if env.nFreeBytesAvailable < nMinDiskSpace + block.getSerializeSize then
    .ok (.error ⟨0, "AcceptBlock() : out of disk space"⟩, st)
  else if env.fRequestShutdown then
    .ok (.error ⟨0, "AcceptBlock(), SHUTDOWN detected, exit processing"⟩, st)
  else
    match writeToDisk env st block with
    | none => .ok (.error ⟨0, "AcceptBlock() : WriteToDisk failed"⟩, st)
    | some (nFile, nBlockPos, st) => do
        let (added, st) ← addToBlockIndex env fromNode st block nFile nBlockPos hashProof
        if added then .ok (.ok (), st)
        else if fromNode then .ok (.error ⟨0, "AcceptBlock() : AddToBlockIndex failed"⟩, st)
        -- the log line reads the address of the sending node
        else .error .nullDereference

/-- `AcceptBlock` for a block whose previous block is the tip. -/
def acceptNext (st : ChainState) (block : CBlock) (pindexPrev : CBlockIndex) :
    Checked AcceptOutcome :=
  let nHeight := pindexPrev.nHeight + 1
  match checkHeight env block nHeight with
  | .error rejection => .ok (.error rejection, st)
  | .ok _ => do
      let coinbase ← elementAt block.vtx 0
      match checkContext env st block pindexPrev coinbase with
      | .error rejection => .ok (.error rejection, st)
      | .ok _ => do
          let hashProof ← proofHash env fromNode st block pindexPrev
          let synced ← checkSync st nHeight
          if !synced then
            .ok (.error ⟨0, "AcceptBlock() : rejected by synchronized checkpoint"⟩, st)
          else do
            let txin ← elementAt coinbase.vin 0
            if !startsWithHeight txin.scriptSig nHeight then
              .ok (.error ⟨100, "AcceptBlock() : block height mismatch in coinbase"⟩, st)
            else storeBlock env fromNode st block hashProof

/-- `AcceptBlock`.  The tests for a block that is already known are repeated in
the source several times; the first one decides. -/
def acceptBlock (st : ChainState) (block : CBlock) : Checked AcceptOutcome :=
  if block.nVersion ≠ CBlock.CURRENT_VERSION then
    .ok (.error ⟨100, "AcceptBlock() : reject unknown block version %d"⟩, st)
  else if block.getHash env.prims ∈ st.mapBlockIndex then do
    let _ ← deref (st.entry st.pindexBest)
    pushGetBlocks fromNode
    .ok (.error ⟨0, "AcceptBlock() : block already in mapBlockIndex"⟩, st)
  else
    match st.mapBlockIndex.lookup block.hashPrevBlock with
    | none => do
        let _ ← deref (st.entry st.pindexBest)
        .ok (.error ⟨0, "RGP Can't find previous block"⟩, st)
    | some pindexPrev =>
        if block.hashPrevBlock ≠ st.hashBestChain then do
          -- the previous block is not the tip
          pushGetBlocks fromNode
          .ok (.error ⟨0, ""⟩, st)
        else acceptNext env fromNode st block pindexPrev

end Accept

/-! ## The outcome of AcceptBlock -/

section Outcome

variable {env : Env} {fromNode : Bool} {st st' : ChainState} {block : CBlock}

/-- Writing a block to disk changes nothing but the block files. -/
theorem writeToDisk_frame
    {nFile nBlockPos : ℕ} (h : writeToDisk env st block = some (nFile, nBlockPos, st')) :
    st' = { st with
      blockFiles := st'.blockFiles
      nCurrentBlockFile := st'.nCurrentBlockFile } := by
  unfold writeToDisk at h
  split at h
  · cases h
  · split at h
    · cases h
    · cases h
      rfl

theorem refused_eq_ok
    {rejection : Rejection} {verdict : Verdict}
    (h : (.ok (.error rejection, st) : Checked AcceptOutcome) = .ok (verdict, st')) :
    st' = st ∧ verdict ≠ .ok () := by
  simp only [Except.ok.injEq, Prod.mk.injEq] at h
  obtain ⟨rfl, rfl⟩ := h
  exact ⟨rfl, by simp⟩

/-- `storeBlock` refuses the block and changes nothing, or the block is on disk and
`AddToBlockIndex` decides. -/
theorem storeBlock_cases
    {hashProof : ℕ} {verdict : Verdict}
    (h : storeBlock env fromNode st block hashProof = .ok (verdict, st')) :
    (st' = st ∧ verdict ≠ .ok ()) ∨
    ∃ nFile nBlockPos st₁ added, writeToDisk env st block = some (nFile, nBlockPos, st₁) ∧
      addToBlockIndex env fromNode st₁ block nFile nBlockPos hashProof = .ok (added, st') ∧
      (verdict = .ok () ↔ added = true) := by
  unfold storeBlock at h
  by_cases hSpace : env.nFreeBytesAvailable < nMinDiskSpace + block.getSerializeSize
  · left
    simp only [hSpace, if_true] at h
    exact refused_eq_ok h
  · by_cases hShutdown : env.fRequestShutdown = true
    · left
      simp only [hSpace, hShutdown, if_false, if_true] at h
      exact refused_eq_ok h
    · rw [if_neg hSpace, if_neg hShutdown] at h
      cases hWrite : writeToDisk env st block with
      | none =>
          left
          simp only [hWrite] at h
          exact refused_eq_ok h
      | some written =>
          right
          obtain ⟨nFile, nBlockPos, st₁⟩ := written
          simp only [hWrite, bind_eq_ok] at h
          obtain ⟨⟨added, st₂⟩, hAdd, h⟩ := h
          refine ⟨nFile, nBlockPos, st₁, added, rfl, ?_⟩
          cases added with
          | true =>
              simp only [if_true, Except.ok.injEq, Prod.mk.injEq] at h
              obtain ⟨rfl, rfl⟩ := h
              exact ⟨hAdd, by simp⟩
          | false =>
              cases fromNode with
              | true =>
                  simp only [Bool.false_eq_true, if_false, if_true, Except.ok.injEq,
                    Prod.mk.injEq] at h
                  obtain ⟨rfl, rfl⟩ := h
                  exact ⟨hAdd, by simp⟩
              | false => simp at h

/-- `acceptNext` refuses the block and changes nothing, or all checks before the
write are passed. -/
theorem acceptNext_cases
    {pindexPrev : CBlockIndex} {verdict : Verdict}
    (h : acceptNext env fromNode st block pindexPrev = .ok (verdict, st')) :
    (st' = st ∧ verdict ≠ .ok ()) ∨
    ∃ coinbase hashProof,
      elementAt block.vtx 0 = .ok coinbase ∧
      checkHeight env block (pindexPrev.nHeight + 1) = .ok () ∧
      checkContext env st block pindexPrev coinbase = .ok () ∧
      proofHash env fromNode st block pindexPrev = .ok hashProof ∧
      (∃ txin, elementAt coinbase.vin 0 = .ok txin ∧
        startsWithHeight txin.scriptSig (pindexPrev.nHeight + 1) = true) ∧
      storeBlock env fromNode st block hashProof = .ok (verdict, st') := by
  unfold acceptNext at h
  cases hHeight : checkHeight env block (pindexPrev.nHeight + 1) with
  | error rejection =>
      left
      simp only [hHeight] at h
      exact refused_eq_ok h
  | ok _ =>
      simp only [hHeight, bind_eq_ok] at h
      obtain ⟨coinbase, hCoinbase, h⟩ := h
      cases hContext : checkContext env st block pindexPrev coinbase with
      | error rejection =>
          left
          simp only [hContext] at h
          exact refused_eq_ok h
      | ok _ =>
          simp only [hContext, bind_eq_ok] at h
          obtain ⟨hashProof, hProof, synced, -, h⟩ := h
          cases synced with
          | false =>
              left
              simp only [Bool.not_false, if_true] at h
              exact refused_eq_ok h
          | true =>
              simp only [Bool.not_true, Bool.false_eq_true, if_false, bind_eq_ok] at h
              obtain ⟨txin, hInput, h⟩ := h
              by_cases hStarts : startsWithHeight txin.scriptSig (pindexPrev.nHeight + 1) = true
              · right
                simp only [hStarts, Bool.not_true, Bool.false_eq_true, if_false] at h
                exact ⟨coinbase, hashProof, hCoinbase, rfl, hContext, hProof,
                  ⟨txin, hInput, hStarts⟩, h⟩
              · left
                simp only [hStarts, Bool.not_false, if_true] at h
                exact refused_eq_ok h

/-- `AcceptBlock` refuses the block and changes nothing, or the block is new and its
previous block is the tip. -/
theorem acceptBlock_cases
    {verdict : Verdict} (h : acceptBlock env fromNode st block = .ok (verdict, st')) :
    (st' = st ∧ verdict ≠ .ok ()) ∨
    ∃ pindexPrev, block.getHash env.prims ∉ st.mapBlockIndex ∧
      st.mapBlockIndex.lookup block.hashPrevBlock = some pindexPrev ∧
      block.hashPrevBlock = st.hashBestChain ∧
      acceptNext env fromNode st block pindexPrev = .ok (verdict, st') := by
  unfold acceptBlock at h
  by_cases hVersion : block.nVersion = CBlock.CURRENT_VERSION
  · by_cases hKnown : block.getHash env.prims ∈ st.mapBlockIndex
    · left
      simp only [hVersion, hKnown, ne_eq, not_true_eq_false, if_false, if_true, bind_eq_ok] at h
      obtain ⟨-, -, -, -, h⟩ := h
      exact refused_eq_ok h
    · rw [if_neg (not_not.mpr hVersion), if_neg hKnown] at h
      cases hPrev : st.mapBlockIndex.lookup block.hashPrevBlock with
      | none =>
          left
          simp only [hPrev, bind_eq_ok] at h
          obtain ⟨-, -, h⟩ := h
          exact refused_eq_ok h
      | some pindexPrev =>
          by_cases hExtends : block.hashPrevBlock = st.hashBestChain
          · right
            simp only [hPrev, hExtends, ne_eq, not_true_eq_false, if_false] at h
            exact ⟨pindexPrev, hKnown, rfl, hExtends, h⟩
          · left
            simp only [hPrev, ne_eq, hExtends, not_false_eq_true, if_true, bind_eq_ok] at h
            obtain ⟨-, -, h⟩ := h
            exact refused_eq_ok h
  · left
    simp only [hVersion, ne_eq, not_false_eq_true, if_true] at h
    exact refused_eq_ok h

/-- A block whose previous block is not the tip is refused, and nothing changes. -/
theorem acceptBlock_of_not_extends
    {verdict : Verdict} (hNot : block.hashPrevBlock ≠ st.hashBestChain)
    (h : acceptBlock env fromNode st block = .ok (verdict, st')) :
    st' = st ∧ verdict ≠ .ok () := by
  rcases acceptBlock_cases h with hRefused | ⟨-, -, -, hExtends, -⟩
  · exact hRefused
  · exact absurd hExtends hNot

/-- An accepted block was added to the block index. -/
theorem addToBlockIndex_of_accepted
    (h : acceptBlock env fromNode st block = .ok (.ok (), st')) :
    ∃ nFile nBlockPos hashProof st₁,
      writeToDisk env st block = some (nFile, nBlockPos, st₁) ∧
      addToBlockIndex env fromNode st₁ block nFile nBlockPos hashProof = .ok (true, st') := by
  obtain ⟨_, -, -, -, hNext⟩ := (acceptBlock_cases h).resolve_left (fun hRefused => hRefused.2 rfl)
  obtain ⟨_, hashProof, -, -, -, -, -, hStore⟩ :=
    (acceptNext_cases hNext).resolve_left (fun hRefused => hRefused.2 rfl)
  obtain ⟨nFile, nBlockPos, st₁, added, hWrite, hAdd, hAdded⟩ :=
    (storeBlock_cases hStore).resolve_left (fun hRefused => hRefused.2 rfl)
  obtain rfl := hAdded.mp rfl
  exact ⟨nFile, nBlockPos, hashProof, st₁, hWrite, hAdd⟩

end Outcome

end SocietyGold
