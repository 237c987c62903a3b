import SocietyGold.ConnectedIndex

/-!
# Undoing a block connection

`DisconnectBlock` erases the records of the block's own transactions.  The spent
marks that the connection set in older records are left as they are, and the log
line after the loop reads the previous block through a pointer that may be null.
-/

namespace SocietyGold

open Support

/-! ## What a disconnection does -/

section Disconnect

variable {env : Env} {st : ChainState} {base txdb : CTxDB}

/-- Inside a batch the loop of `DisconnectBlock` erases exactly the transactions'
own records. -/
theorem disconnectTransactions_spec
    (prims : Primitives) (vtx : List CTransaction) (h : BatchStore.InBatch txdb) :
    (disconnectTransactions prims vtx txdb).1 = true ∧
      BatchStore.InBatch (disconnectTransactions prims vtx txdb).2 ∧
      ∀ k, (disconnectTransactions prims vtx txdb).2.readTxIndex k =
        if k ∈ vtx.map (CTransaction.getHash prims) then none else txdb.readTxIndex k := by
  induction vtx generalizing txdb with
  | nil => exact ⟨rfl, h, fun k => by simp [disconnectTransactions]⟩
  | cons tx rest ih =>
      have hErased : (txdb.eraseTxIndex (tx.getHash prims)).1 = true :=
        BatchStore.update_of_inBatch h _ _
      have hOpen : BatchStore.InBatch (txdb.eraseTxIndex (tx.getHash prims)).2 :=
        (BatchStore.inBatch_update _ _ _).mpr h
      obtain ⟨hDone, hBatch, hRead⟩ := ih hOpen
      refine ⟨hDone, hBatch, fun k => (hRead k).trans ?_⟩
      rw [CTxDB.readTxIndex_eraseTxIndex hErased]
      by_cases hHead : k = tx.getHash prims
      · simp [hHead]
      · simp [hHead]

/-- `DisconnectBlock` inside a batch, given the previous block. -/
theorem disconnectBlock_spec
    (env : Env) (block : CBlock) {pindex pprev : CBlockIndex} (h : BatchStore.InBatch txdb)
    (hPrev : st.entry pindex.pprev = some pprev) :
    ∃ txdb', disconnectBlock env st txdb block pindex = .ok (true, txdb') ∧
      ∀ k, txdb'.readTxIndex k =
        if k ∈ block.txids env.prims then none else txdb.readTxIndex k := by
  obtain ⟨hDone, hBatch, hRead⟩ := disconnectTransactions_spec env.prims block.vtx.reverse h
  unfold disconnectBlock
  rcases hLoop : disconnectTransactions env.prims block.vtx.reverse txdb with ⟨done, txdb₁⟩
  rw [hLoop] at hDone hBatch hRead
  simp only at hDone hBatch hRead
  subst hDone
  simp only [hPrev, deref_some, ok_bind]
  set blockindexPrev : CDiskBlockIndex := { CDiskBlockIndex.ofIndex pprev with hashNext := 0 }
  have hWritten : (txdb₁.writeBlockIndex env.prims blockindexPrev).1 = true :=
    BatchStore.update_of_inBatch hBatch _ _
  refine ⟨_, by rw [← hWritten], fun k => ?_⟩
  rw [CTxDB.readTxIndex_writeBlockIndex, hRead]
  simp [CBlock.txids]

/-- Without a previous block `DisconnectBlock` dereferences a null pointer. -/
theorem disconnectBlock_of_no_pprev
    (env : Env) (block : CBlock) {pindex : CBlockIndex} (h : BatchStore.InBatch txdb)
    (hPrev : st.entry pindex.pprev = none) :
    disconnectBlock env st txdb block pindex = .error .nullDereference := by
  obtain ⟨hDone, -, -⟩ := disconnectTransactions_spec env.prims block.vtx.reverse h
  unfold disconnectBlock
  rcases hLoop : disconnectTransactions env.prims block.vtx.reverse txdb with ⟨done, txdb₁⟩
  rw [hLoop] at hDone
  simp only at hDone
  subst hDone
  simp [hPrev, deref]

end Disconnect

/-! ## When a connection is undone -/

/-- The marks that the block leaves in the record of a previous transaction, those
of the last transaction that refers to it, are in the record already. -/
def MarksAlreadySet (env : Env) (st : ChainState) (block : CBlock) (pindex : CBlockIndex)
    (hash : ℕ) (record : CTxIndex) : Prop :=
  ∀ entry,
    lastMarking (st.seenPrev env) (positioned pindex (firstTxPos pindex block false) block.vtx)
      hash = some entry →
    ∀ txin ∈ entry.1.vin, txin.prevout.hash = hash →
      record.vSpent[txin.prevout.n]? = some entry.2

section Undo

variable {env : Env} {st : ChainState} {block : CBlock} {pindex : CBlockIndex}

/-- The index after a connection, outside the block's own transactions. -/
theorem indexAfter_of_not_txid {hash : ℕ} (hTxid : hash ∉ block.txids env.prims) :
    indexAfter env st block pindex hash =
      ((lastMarking (st.seenPrev env)
          (positioned pindex (firstTxPos pindex block false) block.vtx) hash).map fun entry =>
        (prevRecord st.txdb hash).spendAll entry.1.vin hash entry.2).or (st.txIndex hash) := by
  have hNot : ∀ entry ∈ positioned pindex (firstTxPos pindex block false) block.vtx,
      entry.1.getHash env.prims ≠ hash := by
    intro entry hEntry hHash
    exact hTxid (List.mem_map.mpr ⟨entry.1, mem_of_mem_positioned hEntry, hHash⟩)
  rw [indexAfter, queuedChanges, foldl_queueRound_of_not_txid hNot, Option.or_none]

/-- A connection that runs through leaves the older records alone exactly when the
marks it sets were there already. -/
theorem indexAfter_eq_iff
    (hThrough : ConnectRunsThrough env st block pindex)
    (hAbsent : ∀ hash ∈ block.txids env.prims, st.txIndex hash = none) :
    (∀ hash, hash ∉ block.txids env.prims →
        indexAfter env st block pindex hash = st.txIndex hash) ↔
      ∀ hash record, st.txIndex hash = some record →
        MarksAlreadySet env st block pindex hash record := by
  have hMarked : ∀ hash entry,
      lastMarking (st.seenPrev env)
        (positioned pindex (firstTxPos pindex block false) block.vtx) hash = some entry →
      ∀ txin ∈ entry.1.vin, txin.prevout.hash = hash →
        txin.prevout.n < (prevRecord st.txdb hash).vSpent.length := by
    intro hash entry hLast txin hTxin hHash
    obtain ⟨hMem, hSpends, -, hTime⟩ := lastMarking_eq_some hLast
    have hFit := (passes_of_runsThrough hThrough entry.1 (mem_of_mem_positioned hMem)
      hSpends).2.2 txin hTxin
    rw [hHash] at hFit
    exact hFit hTime
  constructor
  · intro hSame hash record hRecord entry hLast
    have hTxid : hash ∉ block.txids env.prims := fun hMem => by
      rw [hAbsent hash hMem] at hRecord
      cases hRecord
    have hKept := hSame hash hTxid
    rw [indexAfter_of_not_txid hTxid, hLast, hRecord] at hKept
    have hPrev : prevRecord st.txdb hash = record := by
      rw [prevRecord, show st.txdb.readTxIndex hash = some record from hRecord]
      rfl
    have hFit := hMarked hash entry hLast
    rw [hPrev] at hFit hKept
    exact (CTxIndex.spendAll_eq_self_iff hFit).mp (by simpa using hKept)
  · intro hSet hash hTxid
    rw [indexAfter_of_not_txid hTxid]
    cases hLast : lastMarking (st.seenPrev env)
        (positioned pindex (firstTxPos pindex block false) block.vtx) hash with
    | none => rfl
    | some entry =>
        have hFit := hMarked hash entry hLast
        cases hRecord : st.txIndex hash with
        | none =>
            -- a marked record exists, since the marks are in range
            obtain ⟨-, -, ⟨txin, hTxin, hHash⟩, -⟩ := lastMarking_eq_some hLast
            have hLt := hFit txin hTxin hHash
            rw [prevRecord, show st.txdb.readTxIndex hash = none from hRecord] at hLt
            simp [CTxIndex.null] at hLt
        | some record =>
            have hPrev : prevRecord st.txdb hash = record := by
              rw [prevRecord, show st.txdb.readTxIndex hash = some record from hRecord]
              rfl
            rw [hPrev] at hFit
            simp [hPrev, (CTxIndex.spendAll_eq_self_iff hFit).mpr (hSet hash record hRecord entry
              hLast)]

end Undo

/-- `DisconnectBlock` undoes a successful `ConnectBlock`, in the same batch or in a
later one, exactly when the block has a predecessor and the connection set no new
mark in an older record: it stopped early, or the marks were there already. -/
theorem disconnectBlock_restores_iff
    (env : Env) (st : ChainState) (block : CBlock) (pindex : CBlockIndex) (r : ConnectResult)
    (txdb : CTxDB)
    (hBatch : BatchStore.InBatch st.txdb)
    (hAbsent : ∀ hash ∈ block.txids env.prims, st.txIndex hash = none)
    (hConnect : connectBlock env st block pindex false = .ok r)
    (hSuccess : r.success = true)
    (hOpen : BatchStore.InBatch txdb)
    (hResult : ∀ hash, txdb.readTxIndex hash = r.txdb.readTxIndex hash) :
    (∃ txdb', disconnectBlock env st txdb block r.pindex = .ok (true, txdb') ∧
        ∀ hash, txdb'.readTxIndex hash = st.txIndex hash) ↔
      (∃ pprev, st.entry pindex.pprev = some pprev) ∧
        ((∃ tx ∈ block.vtx, stopsConnection env st pindex tx = true) ∨
          ∀ hash record, st.txIndex hash = some record →
            MarksAlreadySet env st block pindex hash record) := by
  have hPprev : r.pindex.pprev = pindex.pprev := (connectBlock_frame hBatch hConnect).2.pprev
  cases hEntry : st.entry pindex.pprev with
  | none =>
      have hFault := disconnectBlock_of_no_pprev env block hOpen (hPprev ▸ hEntry)
      simp [hFault]
  | some pprev =>
      obtain ⟨txdb', hRun, hRead⟩ := disconnectBlock_spec env block hOpen (hPprev ▸ hEntry)
      have hRestored :
          (∃ txdb', disconnectBlock env st txdb block r.pindex = .ok (true, txdb') ∧
            ∀ hash, txdb'.readTxIndex hash = st.txIndex hash) ↔
          ∀ hash, hash ∉ block.txids env.prims →
            r.txdb.readTxIndex hash = st.txIndex hash := by
        constructor
        · rintro ⟨txdb'', hRun'', hKept⟩ hash hTxid
          rw [hRun] at hRun''
          cases hRun''
          rw [← hKept, hRead, if_neg hTxid, hResult]
        · intro hKept
          refine ⟨txdb', hRun, fun hash => ?_⟩
          rw [hRead, hResult]
          split_ifs with hTxid
          · exact (hAbsent hash hTxid).symm
          · exact hKept hash hTxid
      rw [hRestored]
      simp only [Option.some.injEq, exists_eq', true_and]
      rcases connectBlock_spec env block pindex hBatch with
        ⟨-, hEarly, hRun'⟩ | ⟨-, hThrough, -, r', hRun', -, -, -, hIndex⟩ | ⟨-, -, hFault⟩ |
          ⟨-, hRun'⟩
      · rw [hConnect] at hRun'
        cases hRun'
        exact iff_of_true (fun hash _ => rfl)
          (Or.inl (exists_stopsConnection_of_stopsEarly hEarly))
      · rw [hConnect] at hRun'
        cases hRun'
        have hGoes : ¬∃ tx ∈ block.vtx, stopsConnection env st pindex tx = true := by
          rintro ⟨tx, hTx, hStop⟩
          rw [stopsConnection_eq_false_of_runsThrough hThrough tx hTx] at hStop
          cases hStop
        rw [or_iff_right hGoes, ← indexAfter_eq_iff hThrough hAbsent]
        simp only [hIndex]
      · exact absurd hConnect (hFault r)
      · rw [(hRun' r hConnect).1] at hSuccess
        cases hSuccess

/-! ## A spend that is not taken back -/

namespace Sample

/-- A node with an open batch and one unspent output. -/
def openNode : ChainState :=
  let st := nodeWith [(77, CTxIndex.unspent ⟨1, 8, 90⟩ 1)]
  { st with txdb := { st.txdb with activeBatch := some [] } }

/-- The entry of a block on top of the tip. -/
def entryFor (block : CBlock) : CBlockIndex :=
  { CBlockIndex.ofBlock 1 200 block (block.getHash prims) with
    pprev := some 500
    nHeight := 11 }

/-- A block that spends the output. -/
def spendingBlock : CBlock := sealed 500 1000 [coinbase 1000 11 100, spend 1000 ⟨77, 0⟩ 100]

theorem spendingBlock_not_restored :
    (∀ hash ∈ spendingBlock.txids prims, openNode.txIndex hash = none) ∧
      ∃ r, connectBlock (env 900) openNode spendingBlock (entryFor spendingBlock) false = .ok r ∧
        r.success = true ∧
        ¬∃ txdb', disconnectBlock (env 900) openNode r.txdb spendingBlock r.pindex =
            .ok (true, txdb') ∧
          ∀ hash, txdb'.readTxIndex hash = openNode.txIndex hash := by
  refine ⟨by decide +kernel, ?_⟩
  have hRun : (do
      let r ← connectBlock (env 900) openNode spendingBlock (entryFor spendingBlock) false
      let out ← disconnectBlock (env 900) openNode r.txdb spendingBlock r.pindex
      .ok (r.success, out.2.readTxIndex 77)) =
        (.ok (true, some ⟨⟨1, 8, 90⟩, [⟨1, 200, 349⟩]⟩) : Checked (Bool × Option CTxIndex)) := by
    decide +kernel
  simp only [bind_eq_ok] at hRun
  obtain ⟨r, hConnect, out, hDisconnect, hOut⟩ := hRun
  simp only [Except.ok.injEq, Prod.mk.injEq] at hOut
  refine ⟨r, hConnect, hOut.1, ?_⟩
  rintro ⟨txdb', hRestored, hKept⟩
  rw [hDisconnect, Except.ok.injEq] at hRestored
  have hRecord : openNode.txIndex 77 = some (CTxIndex.unspent ⟨1, 8, 90⟩ 1) := by decide +kernel
  have hLost := hOut.2
  rw [hRestored, hKept, hRecord] at hLost
  exact absurd hLost (by decide)

/-- A block with nothing but a coinbase. -/
def quietBlock : CBlock := sealed 500 1000 [coinbase 1000 11 100]

theorem quietBlock_restored :
    ∃ r, connectBlock (env 900) openNode quietBlock (entryFor quietBlock) false = .ok r ∧
      r.success = true ∧
      ∃ txdb', disconnectBlock (env 900) openNode r.txdb quietBlock r.pindex =
          .ok (true, txdb') ∧
        ∀ hash, txdb'.readTxIndex hash = openNode.txIndex hash := by
  have hRun : (do
      let r ← connectBlock (env 900) openNode quietBlock (entryFor quietBlock) false
      .ok r.success) = (.ok true : Checked Bool) := by
    decide +kernel
  obtain ⟨r, hConnect, hTrue⟩ := bind_eq_ok.mp hRun
  have hSuccess : r.success = true := by simpa using hTrue
  have hBatch : BatchStore.InBatch openNode.txdb := by decide
  refine ⟨r, hConnect, hSuccess, ?_⟩
  refine (disconnectBlock_restores_iff (env 900) openNode quietBlock (entryFor quietBlock) r
    r.txdb hBatch (by decide +kernel) hConnect hSuccess
    (connectBlock_frame hBatch hConnect).1.inBatch
    fun _ => rfl).mpr ⟨⟨tipEntry, by decide +kernel⟩, Or.inr ?_⟩
  intro hash record _ entry hLast
  obtain ⟨hMem, hSpends, -⟩ := lastMarking_eq_some hLast
  have hCoinBase : ∀ tx ∈ quietBlock.vtx, tx.isCoinBase = true := by decide +kernel
  rw [hCoinBase entry.1 (mem_of_mem_positioned hMem)] at hSpends
  cases hSpends

end Sample

end SocietyGold
