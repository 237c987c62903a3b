import SocietyGold.TipChange
import SocietyGold.Undo
import SocietyGold.Support.Trace

/-!
# Double spends

`ConnectInputs` logs a spent mark that is already set and goes on, so nothing
stops a second spend.  The marks themselves are lost when an input is skipped for
its time, when a second transaction of the block spends from the same previous
one, when a new record overwrites an old one, and when the connection of a block
that becomes the tip all the same breaks off.  Where none of this happens and
every spent output is unmarked, no outpoint is consumed twice.
-/

namespace SocietyGold

open Support

/-! ## Consumed outpoints and their marks -/

/-- The outpoints that the transactions of a block consume. -/
def CBlock.consumed (block : CBlock) : List COutPoint :=
  block.vtx.flatMap fun tx => if tx.isCoinBase then [] else tx.vin.map CTxIn.prevout

/-- The mark of an output in a transaction index, if the index has the output. -/
def markOf (index : ℕ → Option CTxIndex) (prevout : COutPoint) : Option CDiskTxPos :=
  (index prevout.hash).bind fun record => record.vSpent[prevout.n]?

/-- The index has the output and says that it is spent. -/
def Spent (index : ℕ → Option CTxIndex) (prevout : COutPoint) : Prop :=
  (markOf index prevout).any (fun pos => !pos.isNull) = true

/-- The index has the output and says that it is unspent. -/
def Unspent (index : ℕ → Option CTxIndex) (prevout : COutPoint) : Prop :=
  (markOf index prevout).any CDiskTxPos.isNull = true

instance (index : ℕ → Option CTxIndex) (prevout : COutPoint) :
    Decidable (Unspent index prevout) :=
  inferInstanceAs (Decidable (_ = _))

theorem not_spent_of_unspent
    {index : ℕ → Option CTxIndex} {prevout : COutPoint} (h : Unspent index prevout) :
    ¬Spent index prevout := by
  unfold Unspent at h
  unfold Spent
  cases hMark : markOf index prevout with
  | none => simp [hMark] at h
  | some pos => simpa [hMark] using h

theorem mem_consumed {block : CBlock} {prevout : COutPoint} :
    prevout ∈ block.consumed ↔
      ∃ tx ∈ block.vtx, tx.isCoinBase = false ∧ ∃ txin ∈ tx.vin, txin.prevout = prevout := by
  unfold CBlock.consumed
  rw [List.mem_flatMap]
  constructor
  · rintro ⟨tx, hTx, hMem⟩
    cases hCoinBase : tx.isCoinBase with
    | true => simp [hCoinBase] at hMem
    | false => exact ⟨tx, hTx, hCoinBase, by simpa [hCoinBase] using hMem⟩
  · rintro ⟨tx, hTx, hCoinBase, hMem⟩
    exact ⟨tx, hTx, by simpa [hCoinBase] using hMem⟩

/-! ## Steps of the best chain -/

/-- Two transactions with inputs spend from different previous transactions. -/
def SpendsApart (tx tx' : CTransaction) : Prop :=
  tx.isCoinBase = false → tx'.isCoinBase = false →
    ∀ txin ∈ tx.vin, ∀ txin' ∈ tx'.vin, txin.prevout.hash ≠ txin'.prevout.hash

instance (tx tx' : CTransaction) : Decidable (SpendsApart tx tx') :=
  inferInstanceAs (Decidable (_ → _))

instance : Std.Symm SpendsApart where
  symm _ _ hApart hSpends hSpends' txin hTxin txin' hTxin' hHash :=
    hApart hSpends' hSpends txin' hTxin' txin hTxin hHash.symm

/-- The condition under which a step records what its block spends: the connection
does not break off, no input is skipped for its time, every spent output is
unmarked, the transactions spend from different previous ones, and no record is
overwritten or marked with a null position. -/
structure RecordsSpends (env : Env) (st : ChainState) (block : CBlock)
    (pindexNew : CBlockIndex) : Prop where
  passes : PassesCheckBlock env st block
  sigOps : ConnectWithinSigOps block
  goes : ∀ tx ∈ block.vtx, stopsConnection env st pindexNew tx = false
  inTime : ∀ tx ∈ block.vtx, tx.isCoinBase = false → ∀ txin ∈ tx.vin,
    (st.seenPrev env txin.prevout.hash).nTime ≤ tx.nTime
  unspent : ∀ tx ∈ block.vtx, tx.isCoinBase = false → ∀ txin ∈ tx.vin,
    Unspent st.txIndex txin.prevout
  apart : block.vtx.Pairwise SpendsApart
  fresh : ∀ hash ∈ block.txids env.prims, st.txIndex hash = none
  onDisk : pindexNew.nFile ≠ UINT_MAX

/-- A block that meets a condition becomes the tip through `SetBestChain` and
`ConnectBlock`.  Between the steps of a run everything but the transaction index
may change. -/
def ConnectsBlock (condition : Env → ChainState → CBlock → CBlockIndex → Prop)
    (index : ℕ → Option CTxIndex) (outpoints : List COutPoint)
    (index' : ℕ → Option CTxIndex) : Prop :=
  ∃ env st block pindexNew st', st.txIndex = index ∧ condition env st block pindexNew ∧
    ¬IsGenesisStep env st block ∧
    setBestChain env st block pindexNew = .ok (true, st') ∧
    outpoints = block.consumed ∧ index' = st'.txIndex

section Step

variable {env : Env} {st st' : ChainState} {block : CBlock} {pindexNew : CBlockIndex}

/-- The index after a step under the condition, outside the block's own
transactions. -/
theorem txIndex_of_recordsSpends
    (hCondition : RecordsSpends env st block pindexNew)
    (hGenesis : ¬IsGenesisStep env st block)
    (hStep : setBestChain env st block pindexNew = .ok (true, st')) {hash : ℕ}
    (hTxid : hash ∉ block.txids env.prims) :
    st'.txIndex hash =
      ((lastMarking (st.seenPrev env)
          (positioned pindexNew (firstTxPos pindexNew block false) block.vtx) hash).map
        fun entry => (prevRecord st.txdb hash).spendAll entry.1.vin hash entry.2).or
      (st.txIndex hash) := by
  obtain ⟨txdb, r, hBegin, hConnect, hIndex⟩ := txIndex_of_setBestChain hStep hGenesis
  have hBatch : BatchStore.InBatch (st.withTxdb txdb).txdb := BatchStore.inBatch_txnBegin hBegin
  have hSame : ∀ k, txdb.readTxIndex k = st.txdb.readTxIndex k :=
    CTxDB.readTxIndex_txnBegin hBegin
  have hGoes : ∀ tx ∈ block.vtx,
      stopsConnection env (st.withTxdb txdb) pindexNew tx = false := by
    intro tx hTx
    rw [stopsConnection_withTxdb hSame]
    exact hCondition.goes tx hTx
  have hPassed : PassesCheckBlock env (st.withTxdb txdb) block := hCondition.passes
  have hThrough := runsThrough_of_connectBlock hBatch hPassed
    hCondition.sigOps hGoes hConnect
  have hAfter := readTxIndex_of_runsThrough hBatch hPassed hThrough
    hConnect hash
  rw [hIndex, hAfter, indexAfter_of_not_txid hTxid, seenPrev_withTxdb hSame,
    ChainState.txdb_withTxdb, prevRecord_congr hSame,
    show (st.withTxdb txdb).txIndex hash = st.txIndex hash from hSame hash]

/-- What is spent stays spent. -/
theorem spent_of_spent
    (hCondition : RecordsSpends env st block pindexNew)
    (hGenesis : ¬IsGenesisStep env st block)
    (hStep : setBestChain env st block pindexNew = .ok (true, st')) {prevout : COutPoint}
    (h : Spent st.txIndex prevout) : Spent st'.txIndex prevout := by
  unfold Spent markOf at h
  cases hRecord : st.txIndex prevout.hash with
  | none => simp [hRecord] at h
  | some record =>
      have hTxid : prevout.hash ∉ block.txids env.prims := fun hMem => by
        rw [hCondition.fresh _ hMem] at hRecord
        cases hRecord
      have hPrev : prevRecord st.txdb prevout.hash = record := by
        rw [prevRecord, show st.txdb.readTxIndex prevout.hash = some record from hRecord]
        rfl
      simp only [hRecord, Option.bind_some] at h
      unfold Spent markOf
      rw [txIndex_of_recordsSpends hCondition hGenesis hStep hTxid, hPrev, hRecord]
      cases hLast : lastMarking (st.seenPrev env)
          (positioned pindexNew (firstTxPos pindexNew block false) block.vtx) prevout.hash with
      | none => simpa using h
      | some entry =>
          have hFile := nFile_of_mem_positioned (lastMarking_eq_some hLast).1
          simp only [Option.map_some, Option.some_or, Option.bind_some,
            CTxIndex.getElem?_spendAll]
          split_ifs
          · simp [CDiskTxPos.isNull, hFile, hCondition.onDisk]
          · exact h

/-- What the block consumes is spent afterwards. -/
theorem spent_of_consumed
    (hCondition : RecordsSpends env st block pindexNew)
    (hGenesis : ¬IsGenesisStep env st block)
    (hStep : setBestChain env st block pindexNew = .ok (true, st')) {prevout : COutPoint}
    (h : prevout ∈ block.consumed) : Spent st'.txIndex prevout := by
  obtain ⟨tx, hTx, hSpends, txin, hTxin, rfl⟩ := mem_consumed.mp h
  have hUnspent := hCondition.unspent tx hTx hSpends txin hTxin
  unfold Unspent markOf at hUnspent
  cases hRecord : st.txIndex txin.prevout.hash with
  | none => simp [hRecord] at hUnspent
  | some record =>
      simp only [hRecord, Option.bind_some] at hUnspent
      have hLt : txin.prevout.n < record.vSpent.length := by
        by_contra hNot
        simp [List.getElem?_eq_none (not_lt.mp hNot)] at hUnspent
      have hTxid : txin.prevout.hash ∉ block.txids env.prims := fun hMem => by
        rw [hCondition.fresh _ hMem] at hRecord
        cases hRecord
      have hPrev : prevRecord st.txdb txin.prevout.hash = record := by
        rw [prevRecord, show st.txdb.readTxIndex txin.prevout.hash = some record from hRecord]
        rfl
      obtain ⟨entry, hLast⟩ := exists_lastMarking pindexNew
        (firstTxPos pindexNew block false) hTx hSpends
        ⟨⟨txin, hTxin, rfl⟩, hCondition.inTime tx hTx hSpends txin hTxin⟩
      obtain ⟨hMem, hEntrySpends, ⟨other, hOther, hHash⟩, -⟩ := lastMarking_eq_some hLast
      -- no other transaction of the block spends from the same previous one
      have hSame : entry.1 = tx := by
        by_contra hNe
        exact hCondition.apart.forall (mem_of_mem_positioned hMem) hTx hNe
          hEntrySpends hSpends other hOther txin hTxin hHash
      have hUsed : ∃ used ∈ entry.1.vin,
          used.prevout = ⟨txin.prevout.hash, txin.prevout.n⟩ := by
        rw [hSame]
        exact ⟨txin, hTxin, rfl⟩
      unfold Spent markOf
      rw [txIndex_of_recordsSpends hCondition hGenesis hStep hTxid, hPrev, hLast]
      simp only [Option.map_some, Option.some_or, Option.bind_some, CTxIndex.getElem?_spendAll]
      rw [if_pos ⟨hUsed, hLt⟩]
      simp [CDiskTxPos.isNull, nFile_of_mem_positioned hMem, hCondition.onDisk]

/-- A checked block whose transactions spend apart consumes no outpoint twice. -/
theorem nodup_consumed
    (hPassed : PassesCheckBlock env st block) (hApart : block.vtx.Pairwise SpendsApart) :
    block.consumed.Nodup := by
  unfold CBlock.consumed
  rw [List.nodup_flatMap]
  constructor
  · intro tx hTx
    split_ifs
    · exact List.nodup_nil
    · exact CTransaction.nodup_prevouts_of_checked
        (CBlock.checkTransaction_of_checked hPassed hTx)
  · refine hApart.imp fun {tx tx'} hTxs => ?_
    rw [Function.onFun, List.disjoint_left]
    intro prevout hMem hMem'
    cases hCoinBase : tx.isCoinBase with
    | true => simp [hCoinBase] at hMem
    | false =>
        cases hCoinBase' : tx'.isCoinBase with
        | true => simp [hCoinBase'] at hMem'
        | false =>
            simp only [hCoinBase, Bool.false_eq_true, if_false, List.mem_map] at hMem
            simp only [hCoinBase', Bool.false_eq_true, if_false, List.mem_map] at hMem'
            obtain ⟨txin, hTxin, rfl⟩ := hMem
            obtain ⟨txin', hTxin', hSame⟩ := hMem'
            exact hTxs hCoinBase hCoinBase' txin hTxin txin' hTxin' (by rw [hSame])

end Step

/-! ## Runs -/

/-- In every run from an empty transaction index whose steps record what their
blocks spend, no outpoint is consumed twice, and every consumed outpoint is marked
as spent. -/
theorem consumed_once
    {outpoints : List COutPoint} {index : ℕ → Option CTxIndex}
    (hRun : Trace (ConnectsBlock RecordsSpends) (fun _ => none) outpoints index) :
    outpoints.Nodup ∧ ∀ prevout ∈ outpoints, Spent index prevout := by
  refine Trace.used_once ?_ ?_ ?_ hRun
  · rintro index new index' ⟨env, st, block, pindexNew, st', -, hCondition, -, -, rfl, -⟩
    exact nodup_consumed hCondition.passes hCondition.apart
  · rintro index new index' ⟨env, st, block, pindexNew, st', rfl, hCondition, -, -, rfl, -⟩
    intro prevout hMem
    obtain ⟨tx, hTx, hSpends, txin, hTxin, rfl⟩ := mem_consumed.mp hMem
    exact not_spent_of_unspent (hCondition.unspent tx hTx hSpends txin hTxin)
  · rintro index new index'
      ⟨env, st, block, pindexNew, st', rfl, hCondition, hGenesis, hStep, rfl, rfl⟩
    rintro prevout (hSpent | hMem)
    · exact spent_of_spent hCondition hGenesis hStep hSpent
    · exact spent_of_consumed hCondition hGenesis hStep hMem

/-! ## An output spent twice -/

namespace Sample

/-- The state and the index entry with which a block reaches `SetBestChain`. -/
def enter (st : ChainState) (block : CBlock) (nBlockPos : ℕ) : ChainState × CBlockIndex :=
  let hash := block.getHash prims
  let pindexNew :=
    { CBlockIndex.ofBlock 1 nBlockPos block hash with
      pprev := st.pindexBest
      nHeight := st.nBestHeight + 1 }
  ({ st with mapBlockIndex := st.mapBlockIndex.insert hash pindexNew }, pindexNew)

def connectNext (st : ChainState) (block : CBlock) (nBlockPos : ℕ) : Checked Outcome :=
  setBestChain (env 900) (enter st block nBlockPos).1 block (enter st block nBlockPos).2

/-- The state after a block was connected. -/
def stateAfter (st : ChainState) (block : CBlock) (nBlockPos : ℕ) : ChainState :=
  match connectNext st block nBlockPos with
  | .ok (_, st') => st'
  | .error _ => st

theorem connectNext_of_done
    {st : ChainState} {block : CBlock} {nBlockPos : ℕ}
    (h : (connectNext st block nBlockPos).map Prod.fst = .ok true) :
    connectNext st block nBlockPos = .ok (true, stateAfter st block nBlockPos) := by
  unfold stateAfter
  cases hRun : connectNext st block nBlockPos with
  | error fault => simp [hRun, Except.map] at h
  | ok out =>
      obtain ⟨done, st'⟩ := out
      simpa [hRun, Except.map] using h

theorem connectsBlock_enter
    {condition : Env → ChainState → CBlock → CBlockIndex → Prop} {st : ChainState}
    {block : CBlock} {nBlockPos : ℕ}
    (hCondition : condition (env 900) (enter st block nBlockPos).1 block
      (enter st block nBlockPos).2)
    (hGenesis : ¬IsGenesisStep (env 900) (enter st block nBlockPos).1 block)
    (h : (connectNext st block nBlockPos).map Prod.fst = .ok true) :
    ConnectsBlock condition st.txIndex block.consumed (stateAfter st block nBlockPos).txIndex :=
  ⟨env 900, (enter st block nBlockPos).1, block, (enter st block nBlockPos).2, _, rfl,
    hCondition, hGenesis, connectNext_of_done h, rfl, rfl⟩

/-- A block whose coinbase is spent later. -/
def mintingBlock : CBlock := sealed 500 1000 [coinbase 1000 11 100]

def mintedOutput : COutPoint := ⟨(coinbase 1000 11 100).getHash prims, 0⟩

def firstSpend : CBlock :=
  sealed (mintingBlock.getHash prims) 1000 [coinbase 1000 12 100, spend 1000 mintedOutput 100]

def secondSpend : CBlock :=
  sealed (firstSpend.getHash prims) 1000 [coinbase 1000 13 100, spend 1000 mintedOutput 50]

def minted : ChainState := stateAfter (nodeWith []) mintingBlock 200

def spentOnce : ChainState := stateAfter minted firstSpend 400

def spentTwice : ChainState := stateAfter spentOnce secondSpend 600

theorem mintedOutput_consumed_twice :
    Trace (ConnectsBlock fun _ _ _ _ => True) (fun _ => none) [mintedOutput, mintedOutput]
        spentTwice.txIndex ∧
      ¬[mintedOutput, mintedOutput].Nodup := by
  refine ⟨?_, by simp⟩
  have hMint : ConnectsBlock (fun _ _ _ _ => True) (nodeWith []).txIndex mintingBlock.consumed
      minted.txIndex := connectsBlock_enter trivial (by decide +kernel) (by decide +kernel)
  have hFirst : ConnectsBlock (fun _ _ _ _ => True) minted.txIndex firstSpend.consumed
      spentOnce.txIndex := connectsBlock_enter trivial (by decide +kernel) (by decide +kernel)
  have hSecond : ConnectsBlock (fun _ _ _ _ => True) spentOnce.txIndex secondSpend.consumed
      spentTwice.txIndex := connectsBlock_enter trivial (by decide +kernel) (by decide +kernel)
  have hLabels : [mintedOutput, mintedOutput] =
      (([] ++ mintingBlock.consumed) ++ firstSpend.consumed) ++ secondSpend.consumed := by
    decide +kernel
  rw [hLabels]
  exact ((Trace.start.next hMint).next hFirst).next hSecond

/-- The run that stops after the first spend meets the condition at each step. -/
theorem mintedOutput_consumed_once :
    [mintedOutput].Nodup ∧ ∀ prevout ∈ [mintedOutput], Spent spentOnce.txIndex prevout := by
  have hMint : ConnectsBlock RecordsSpends (nodeWith []).txIndex mintingBlock.consumed
      minted.txIndex := by
    refine connectsBlock_enter ?_ (by decide +kernel) (by decide +kernel)
    constructor <;> decide +kernel
  have hFirst : ConnectsBlock RecordsSpends minted.txIndex firstSpend.consumed
      spentOnce.txIndex := by
    refine connectsBlock_enter ?_ (by decide +kernel) (by decide +kernel)
    constructor <;> decide +kernel
  have hLabels : [mintedOutput] = ([] ++ mintingBlock.consumed) ++ firstSpend.consumed := by
    decide +kernel
  rw [hLabels]
  exact consumed_once ((Trace.start.next hMint).next hFirst)

end Sample

end SocietyGold
