import SocietyGold.ConnectRounds

/-!
# The database after a block connection

`ConnectBlock` runs inside an open batch, where every write succeeds.  This file
says when it succeeds and what the transaction index holds afterwards: either
nothing has changed, or every queued record has been installed.
-/

namespace SocietyGold

open Support

/-! ## Writes of the queue and of addresses -/

section Writes

variable {base txdb : CTxDB}

theorem stagedFrom_writeAddrIndex
    (h : BatchStore.StagedFrom base txdb) (addrHash txHash : ℕ) :
    BatchStore.StagedFrom base (txdb.writeAddrIndex addrHash txHash).2 := by
  unfold CTxDB.writeAddrIndex
  split
  · exact h.update _ _
  · split_ifs
    · exact h
    · exact h.update _ _

theorem stagedFrom_writeAddresses
    {prims : Primitives} {hashTx : ℕ} {vout : List CTxOut}
    (h : BatchStore.StagedFrom base txdb) :
    BatchStore.StagedFrom base (writeAddresses prims hashTx vout txdb) := by
  unfold writeAddresses
  induction vout.flatMap fun txout => buildAddrIndex prims txout.scriptPubKey
    generalizing txdb with
  | nil => exact h
  | cons addrId rest ih => exact ih (stagedFrom_writeAddrIndex h addrId hashTx)

@[simp] theorem readTxIndex_writeAddresses
    (prims : Primitives) (hashTx : ℕ) (vout : List CTxOut) (txdb : CTxDB) (k : ℕ) :
    (writeAddresses prims hashTx vout txdb).readTxIndex k = txdb.readTxIndex k := by
  unfold writeAddresses
  induction vout.flatMap fun txout => buildAddrIndex prims txout.scriptPubKey
    generalizing txdb with
  | nil => rfl
  | cons addrId rest ih => simp [ih]

/-- Inside a batch the queue is written as a whole. -/
theorem writeQueuedChanges_spec
    (changes : List (ℕ × CTxIndex)) (txdb : CTxDB) (h : BatchStore.StagedFrom base txdb)
    (hNodup : (changes.map Prod.fst).Nodup) :
    (writeQueuedChanges changes txdb).1 = true ∧
      BatchStore.StagedFrom base (writeQueuedChanges changes txdb).2 ∧
      (∀ k record, (k, record) ∈ changes →
        (writeQueuedChanges changes txdb).2.readTxIndex k = some record) ∧
      ∀ k, k ∉ changes.map Prod.fst →
        (writeQueuedChanges changes txdb).2.readTxIndex k = txdb.readTxIndex k := by
  induction changes generalizing txdb with
  | nil => exact ⟨rfl, h, by simp, fun k _ => rfl⟩
  | cons change rest ih =>
      obtain ⟨hash, txindex⟩ := change
      have hDone : (txdb.updateTxIndex hash txindex).1 = true :=
        BatchStore.update_of_inBatch h.inBatch _ _
      have hStep : writeQueuedChanges ((hash, txindex) :: rest) txdb =
          writeQueuedChanges rest (txdb.updateTxIndex hash txindex).2 := by
        rw [writeQueuedChanges]
        rcases hWrite : txdb.updateTxIndex hash txindex with ⟨done, txdb'⟩
        rw [hWrite] at hDone
        simp only at hDone
        subst hDone
        rfl
      simp only [List.map_cons, List.nodup_cons] at hNodup
      have hRead := CTxDB.readTxIndex_updateTxIndex hDone
      obtain ⟨hAll, hStaged, hIn, hOut⟩ :=
        ih (txdb.updateTxIndex hash txindex).2 (h.update _ _) hNodup.2
      rw [hStep]
      refine ⟨hAll, hStaged, ?_, ?_⟩
      · intro k record hMem
        rcases List.mem_cons.mp hMem with hHead | hRest
        · cases hHead
          rw [hOut hash hNodup.1, hRead, if_pos rfl]
        · exact hIn k record hRest
      · intro k hk
        simp only [List.map_cons, List.mem_cons, not_or] at hk
        rw [hOut k hk.2, hRead, if_neg hk.1]

/-- The index after the queue is written, by lookup. -/
theorem readTxIndex_writeQueuedChanges
    {queue : Table ℕ CTxIndex} (h : BatchStore.StagedFrom base txdb) (k : ℕ) :
    (writeQueuedChanges queue.inKeyOrder txdb).2.readTxIndex k =
      (queue.lookup k).or (txdb.readTxIndex k) := by
  obtain ⟨-, -, hIn, hOut⟩ := writeQueuedChanges_spec queue.inKeyOrder txdb h
    queue.nodup_keys_inKeyOrder
  cases hLookup : queue.lookup k with
  | some record => simpa using hIn k record (Table.mem_inKeyOrder.mpr hLookup)
  | none =>
      rw [Option.none_or]
      refine hOut k fun hMem => ?_
      obtain ⟨⟨k', record⟩, hEntry, rfl⟩ := List.mem_map.mp hMem
      rw [Table.mem_inKeyOrder, hLookup] at hEntry
      cases hEntry

end Writes

/-! ## The address index -/

/-- An index says that an input is in the memory pool, which lacks it. -/
def missesInput (index : ℕ → Option CTxIndex) (pool : CTxMemPool) (tx : CTransaction) : Bool :=
  tx.vin.any fun txin =>
    ((index txin.prevout.hash).any fun record => record.pos = CDiskTxPos.inMemoryPool) &&
      (pool.lookup txin.prevout.hash).isNone

theorem hasMissingInput_eq (txdb : CTxDB) (pool : CTxMemPool) (tx : CTransaction) :
    hasMissingInput txdb pool tx = missesInput txdb.readTxIndex pool tx := rfl

section AddrIndexes

variable {env : Env} {pool : CTxMemPool} {base txdb : CTxDB} {vtx : List CTransaction}

/-- The address index loop fails exactly for a missing input. -/
theorem writeAddrIndexes_result :
    (writeAddrIndexes env pool vtx txdb).1 =
      !vtx.any fun tx => !tx.isCoinBase && missesInput txdb.readTxIndex pool tx := by
  induction vtx generalizing txdb with
  | nil => rfl
  | cons tx rest ih =>
      unfold writeAddrIndexes
      by_cases hCoinBase : tx.isCoinBase = true
      · simp [hCoinBase, ih, funext (readTxIndex_writeAddresses _ _ _ _)]
      · have hSpends : tx.isCoinBase = false := by simpa using hCoinBase
        have hFetch := fetchInputs_block_success env txdb pool false hSpends
        rw [hasMissingInput_eq] at hFetch
        cases hMissing : missesInput txdb.readTxIndex pool tx with
        | true => simp [hSpends, hFetch, hMissing]
        | false =>
            simp [hSpends, hFetch, hMissing, ih, funext (readTxIndex_writeAddresses _ _ _ _)]

@[simp] theorem readTxIndex_writeAddrIndexes (k : ℕ) :
    (writeAddrIndexes env pool vtx txdb).2.readTxIndex k = txdb.readTxIndex k := by
  induction vtx generalizing txdb with
  | nil => rfl
  | cons tx rest ih =>
      unfold writeAddrIndexes
      simp only
      split_ifs
      · simp [ih]
      · rfl
      · simp [ih]

theorem stagedFrom_writeAddrIndexes (h : BatchStore.StagedFrom base txdb) :
    BatchStore.StagedFrom base (writeAddrIndexes env pool vtx txdb).2 := by
  induction vtx generalizing txdb with
  | nil => exact h
  | cons tx rest ih =>
      unfold writeAddrIndexes
      simp only
      split_ifs
      · exact ih (stagedFrom_writeAddresses h)
      · exact h
      · exact ih (stagedFrom_writeAddresses (stagedFrom_writeAddresses h))

end AddrIndexes

/-! ## Rewards -/

section Rewards

variable {env : Env} {st : ChainState} {block : CBlock} {pindex : CBlockIndex}
  {tally : ConnectTally}

/-- The reward bookkeeping gets through: there is a best block, and the coin age of
a coinstake is computed without a fault. -/
def RewardsFit (env : Env) (st : ChainState) (block : CBlock) : Prop :=
  (∃ pindexBest, st.entry st.pindexBest = some pindexBest) ∧
    (block.isProofOfStake = true → ∃ coinstake age, block.vtx[1]? = some coinstake ∧
      coinstake.getCoinAge env st st.txdb = .ok age)

theorem connectWork_isOk_iff
    (hChecked : ∀ tx ∈ block.vtx, tx.checkTransaction = .ok ()) (hTxs : block.vtx ≠ []) :
    (∃ pindex', connectWork env st block pindex tally = .ok pindex') ↔
      ∃ pindexBest, st.entry st.pindexBest = some pindexBest := by
  obtain ⟨coinbase, rest, hVtx⟩ := List.exists_cons_of_ne_nil hTxs
  have hCoinbase := CTransaction.getValueOut_of_checked (hChecked coinbase (by simp [hVtx]))
  unfold connectWork getProofOfWorkReward
  cases hBest : st.entry st.pindexBest with
  | none => simp [deref]
  | some pindexBest =>
      simp only [deref_some, ok_bind, hVtx, elementAt, List.getElem?_cons_zero, hCoinbase]
      split_ifs <;> simp

theorem connectStake_isOk_iff :
    (∃ pindex', connectStake env st block pindex = .ok pindex') ↔
      (∃ pindexBest, st.entry st.pindexBest = some pindexBest) ∧
        ∃ coinstake age, block.vtx[1]? = some coinstake ∧
          coinstake.getCoinAge env st st.txdb = .ok age := by
  unfold connectStake
  constructor
  · rintro ⟨pindex', h⟩
    simp only [bind_eq_ok] at h
    obtain ⟨coinstake, hStake, age, hAge, pindexBest, hBest, -⟩ := h
    exact ⟨⟨pindexBest, deref_eq_ok.mp hBest⟩, coinstake, age, elementAt_eq_ok.mp hStake, hAge⟩
  · rintro ⟨⟨pindexBest, hBest⟩, coinstake, age, hStake, hAge⟩
    simp [elementAt_eq_ok.mpr hStake, hAge, hBest]

theorem connectRewards_isOk_iff
    (env : Env) (st : ChainState) (pindex : CBlockIndex) (tally : ConnectTally)
    (hChecked : ∀ tx ∈ block.vtx, tx.checkTransaction = .ok ()) (hTxs : block.vtx ≠ []) :
    (∃ pindex', connectRewards env st block pindex tally = .ok pindex') ↔
      RewardsFit env st block := by
  unfold connectRewards RewardsFit CBlock.isProofOfWork
  cases hStake : block.isProofOfStake with
  | true => simpa using connectStake_isOk_iff
  | false => simpa using connectWork_isOk_iff hChecked hTxs

/-- The fields of an index entry that `ConnectBlock` leaves alone. -/
structure SameLinks (pindex pindex' : CBlockIndex) : Prop where
  phashBlock : pindex'.phashBlock = pindex.phashBlock
  pprev : pindex'.pprev = pindex.pprev
  pnext : pindex'.pnext = pindex.pnext
  nHeight : pindex'.nHeight = pindex.nHeight
  nChainTrust : pindex'.nChainTrust = pindex.nChainTrust

theorem SameLinks.refl (pindex : CBlockIndex) : SameLinks pindex pindex :=
  ⟨rfl, rfl, rfl, rfl, rfl⟩

theorem connectRewards_sameLinks
    {pindex' : CBlockIndex} (h : connectRewards env st block pindex tally = .ok pindex') :
    SameLinks pindex pindex' := by
  unfold connectRewards connectWork connectStake at h
  by_cases hWork : block.isProofOfWork = true
  · rw [if_pos hWork] at h
    simp only [bind_eq_ok, Except.ok.injEq] at h
    obtain ⟨-, -, -, -, -, -, rfl⟩ := h
    exact ⟨rfl, rfl, rfl, rfl, rfl⟩
  · rw [if_neg hWork] at h
    simp only [bind_eq_ok, Except.ok.injEq] at h
    obtain ⟨-, -, -, -, -, -, rfl⟩ := h
    exact ⟨rfl, rfl, rfl, rfl, rfl⟩

end Rewards

/-! ## The outcome of ConnectBlock -/

section Outcome

variable (env : Env) (st : ChainState) (block : CBlock) (pindex : CBlockIndex)

/-- The checks at the start of `ConnectBlock` pass. -/
def PassesCheckBlock : Prop := block.checkBlock env st true true false = .ok ()

instance : Decidable (PassesCheckBlock env st block) := inferInstanceAs (Decidable (_ = _))

/-- The transaction loop of `ConnectBlock` stops early, with success. -/
def ConnectStopsEarly : Prop := StopsEarly env st pindex 0 block.vtx

/-- The transaction loop of `ConnectBlock` runs to its end. -/
def ConnectRunsThrough : Prop := RunsThrough env st pindex 0 block.vtx

/-- The signature operations of the block are within the limit of `ConnectBlock`. -/
def ConnectWithinSigOps : Prop := WithinSigOps 0 block.vtx

instance : Decidable (ConnectWithinSigOps block) :=
  inferInstanceAs (Decidable (WithinSigOps 0 block.vtx))

/-- The transaction index once the queued records are installed. -/
def indexAfter (hash : ℕ) : Option CTxIndex :=
  (queuedChanges env st block pindex hash).or (st.txIndex hash)

/-- If the address index is kept, its loop finds no missing input. -/
def AddrIndexFits : Prop :=
  env.addrIndexEnabled = true → ∀ tx ∈ block.vtx, tx.isCoinBase = false →
    missesInput (indexAfter env st block pindex) st.mempool tx = false

variable {env st block pindex}

/-- Keeping the address index changes no record, and succeeds when it finds all inputs. -/
theorem keepAddrIndexes_spec
    {base txdb : CTxDB} (h : BatchStore.StagedFrom base txdb)
    (hIndex : ∀ k, txdb.readTxIndex k = indexAfter env st block pindex k)
    {kept : Bool × CTxDB}
    (hKept : kept = if env.addrIndexEnabled then writeAddrIndexes env st.mempool block.vtx txdb
      else (true, txdb)) :
    (kept.1 = true ↔ AddrIndexFits env st block pindex) ∧ BatchStore.StagedFrom base kept.2 ∧
      ∀ k, kept.2.readTxIndex k = indexAfter env st block pindex k := by
  rw [hKept, AddrIndexFits]
  cases env.addrIndexEnabled with
  | false => exact ⟨by simp, h, hIndex⟩
  | true =>
      refine ⟨?_, stagedFrom_writeAddrIndexes h, fun k => ?_⟩
      · simp only [if_true, writeAddrIndexes_result, funext hIndex, Bool.not_eq_true',
          List.any_eq_false, Bool.and_eq_true, not_and, Bool.not_eq_true, forall_const]
      · rw [if_pos rfl, readTxIndex_writeAddrIndexes, hIndex]

/-- The writes after the loop, inside a batch. -/
theorem writeConnected_spec
    (queue : Table ℕ CTxIndex) {base txdb : CTxDB}
    (h : BatchStore.StagedFrom base txdb)
    (hRead : ∀ k, txdb.readTxIndex k = st.txIndex k)
    (hQueue : ∀ k, queue.lookup k = queuedChanges env st block pindex k)
    (pindex' : CBlockIndex) :
    ((writeConnected env st block pindex' queue txdb).1 = true ↔
        AddrIndexFits env st block pindex) ∧
      BatchStore.StagedFrom base (writeConnected env st block pindex' queue txdb).2 ∧
      ∀ k, (writeConnected env st block pindex' queue txdb).2.readTxIndex k =
        indexAfter env st block pindex k := by
  obtain ⟨hDone, hStaged, -, -⟩ := writeQueuedChanges_spec queue.inKeyOrder txdb h
    queue.nodup_keys_inKeyOrder
  have hIndex : ∀ k, (writeQueuedChanges queue.inKeyOrder txdb).2.readTxIndex k =
      indexAfter env st block pindex k := by
    intro k
    rw [readTxIndex_writeQueuedChanges h, hQueue, hRead, indexAfter]
  unfold writeConnected
  rcases hWrite : writeQueuedChanges queue.inKeyOrder txdb with ⟨done, txdb₁⟩
  rw [hWrite] at hDone hStaged hIndex
  simp only at hDone hStaged hIndex
  subst hDone
  simp only
  set kept : Bool × CTxDB :=
    if env.addrIndexEnabled then writeAddrIndexes env st.mempool block.vtx txdb₁
    else (true, txdb₁) with hKept
  obtain ⟨hResult, hKeptStaged, hKeptIndex⟩ := keepAddrIndexes_spec hStaged hIndex hKept
  clear_value kept
  obtain ⟨keptDone, txdb₂⟩ := kept
  simp only at hResult hKeptStaged hKeptIndex
  cases keptDone with
  | false => exact ⟨hResult, hKeptStaged, hKeptIndex⟩
  | true =>
      simp only
      cases st.entry pindex'.pprev with
      | none => exact ⟨hResult, hKeptStaged, hKeptIndex⟩
      | some pprev =>
          refine ⟨?_, hKeptStaged.update _ _, fun k => ?_⟩
          · rw [← hResult]
            simp only [iff_true]
            exact BatchStore.update_of_inBatch hKeptStaged.inBatch _ _
          · rw [CTxDB.readTxIndex_writeBlockIndex, hKeptIndex]

/-- `ConnectBlock` inside a batch, by its outcome. -/
theorem connectBlock_spec
    (env : Env) (block : CBlock) (pindex : CBlockIndex) (hBatch : BatchStore.InBatch st.txdb) :
    (PassesCheckBlock env st block ∧ ConnectStopsEarly env st block pindex ∧
      connectBlock env st block pindex false = .ok ⟨true, st.txdb, pindex⟩) ∨
    (PassesCheckBlock env st block ∧ ConnectRunsThrough env st block pindex ∧
      RewardsFit env st block ∧
      ∃ r, connectBlock env st block pindex false = .ok r ∧
        (r.success = true ↔ AddrIndexFits env st block pindex) ∧
        BatchStore.StagedFrom st.txdb r.txdb ∧ SameLinks pindex r.pindex ∧
        ∀ k, r.txdb.readTxIndex k = indexAfter env st block pindex k) ∨
    (ConnectRunsThrough env st block pindex ∧ ¬RewardsFit env st block ∧
      ∀ r, connectBlock env st block pindex false ≠ .ok r) ∨
    (¬(PassesCheckBlock env st block ∧
        (ConnectStopsEarly env st block pindex ∨ ConnectRunsThrough env st block pindex)) ∧
      ∀ r, connectBlock env st block pindex false = .ok r →
        r = ⟨false, st.txdb, pindex⟩ ∧
          (PassesCheckBlock env st block → ConnectWithinSigOps block →
            ∃ tx ∈ block.vtx, stopsConnection env st pindex tx = true)) := by
  unfold connectBlock
  by_cases hPassed : PassesCheckBlock env st block
  · have hCheck : (block.checkBlock env st true true false).passed = true :=
      Verdict.passed_iff.mpr hPassed
    have hChecked : ∀ tx ∈ block.vtx, tx.checkTransaction = .ok () :=
      fun tx hTx => CBlock.checkTransaction_of_checked hPassed hTx
    have hTxs : block.vtx ≠ [] := CBlock.vtx_ne_nil_of_checked hPassed
    simp only [Bool.not_false, hCheck, Bool.not_true, Bool.false_eq_true, if_false, hPassed,
      true_and]
    rcases connectLoop_spec env st pindex block.isProofOfWork block.vtx
        ⟨0, 0, 0, 0, 0, firstTxPos pindex block false, ∅⟩ hChecked with
      ⟨hEarly, hLoop⟩ | ⟨hThrough, tally, hLoop, hQueue⟩ | ⟨hNotEarly, hNotThrough, hLoop⟩
    · left
      exact ⟨hEarly, by simp [hLoop]⟩
    · have hRewards := connectRewards_isOk_iff env st pindex tally hChecked hTxs
      simp only [hLoop, ok_bind]
      by_cases hFit : RewardsFit env st block
      · right; left
        refine ⟨hThrough, hFit, ?_⟩
        obtain ⟨pindex', hPindex⟩ := hRewards.mpr hFit
        simp only [hPindex, ok_bind]
        set entry := CDiskBlockIndex.ofIndex pindex'
        have hStaged : BatchStore.StagedFrom st.txdb (st.txdb.writeBlockIndex env.prims entry).2 :=
          (BatchStore.StagedFrom.refl hBatch).update _ _
        have hDone : (st.txdb.writeBlockIndex env.prims entry).1 = true :=
          BatchStore.update_of_inBatch hBatch _ _
        have hRead : ∀ k, (st.txdb.writeBlockIndex env.prims entry).2.readTxIndex k =
            st.txIndex k := fun k => CTxDB.readTxIndex_writeBlockIndex _ _ _
        rcases hWrite : st.txdb.writeBlockIndex env.prims entry with ⟨done, txdb⟩
        rw [hWrite] at hStaged hDone hRead
        simp only at hDone hStaged hRead
        subst hDone
        obtain ⟨hSuccess, hAfter, hIndex⟩ := writeConnected_spec tally.mapQueuedChanges hStaged
          hRead (fun k => hQueue k) pindex'
        exact ⟨_, rfl, hSuccess, hAfter, connectRewards_sameLinks hPindex, hIndex⟩
      · right; right; left
        refine ⟨hThrough, hFit, fun r hRun => ?_⟩
        obtain ⟨pindex', hPindex, -⟩ := bind_eq_ok.mp hRun
        exact hFit (hRewards.mp ⟨pindex', hPindex⟩)
    · right; right; right
      refine ⟨?_, ?_⟩
      · rintro (hEarly | hThrough)
        · exact hNotEarly hEarly
        · exact hNotThrough hThrough
      · intro r hRun
        obtain ⟨flow, hFlow, hRun⟩ := bind_eq_ok.mp hRun
        obtain ⟨rfl, hWhy⟩ := hLoop flow hFlow
        exact ⟨by simpa [eq_comm] using hRun, fun _ hWithin => hWhy hWithin⟩
  · have hCheck : (block.checkBlock env st true true false).passed = false :=
      Bool.eq_false_of_not_eq_true fun h => hPassed (Verdict.passed_iff.mp h)
    right; right; right
    refine ⟨fun h => hPassed h.1, ?_⟩
    intro r hRun
    exact ⟨by simpa [hCheck, eq_comm] using hRun, fun h => absurd h hPassed⟩

/-- The writes of a connection that ends with a value: none at all, or an index entry with
its rewards and then the changes of the block. -/
theorem connectBlock_eq_ok
    (hBatch : BatchStore.InBatch st.txdb) {r : ConnectResult}
    (h : connectBlock env st block pindex false = .ok r) :
    (¬(PassesCheckBlock env st block ∧ ConnectRunsThrough env st block pindex) ∧
      r.txdb = st.txdb ∧ r.pindex = pindex) ∨
    ∃ tally : ConnectTally, PassesCheckBlock env st block ∧
      ConnectRunsThrough env st block pindex ∧
      connectRewards env st block pindex tally = .ok r.pindex ∧
      (r.success, r.txdb) = writeConnected env st block r.pindex tally.mapQueuedChanges
        (st.txdb.writeBlockIndex env.prims (CDiskBlockIndex.ofIndex r.pindex)).2 := by
  unfold connectBlock at h
  by_cases hPassed : PassesCheckBlock env st block
  · have hCheck : (block.checkBlock env st true true false).passed = true :=
      Verdict.passed_iff.mpr hPassed
    have hChecked : ∀ tx ∈ block.vtx, tx.checkTransaction = .ok () :=
      fun tx hTx => CBlock.checkTransaction_of_checked hPassed hTx
    simp only [Bool.not_false, hCheck, Bool.not_true, Bool.false_eq_true, if_false] at h
    obtain ⟨flow, hFlow, h⟩ := bind_eq_ok.mp h
    rcases connectLoop_spec env st pindex block.isProofOfWork block.vtx
        ⟨0, 0, 0, 0, 0, firstTxPos pindex block false, ∅⟩ hChecked with
      ⟨hEarly, hLoop⟩ | ⟨hThrough, tally, hLoop, -⟩ | ⟨-, hNot, hLoop⟩
    · left
      cases hFlow.symm.trans hLoop
      cases h
      exact ⟨fun hBoth => not_stopsEarly_of_runsThrough hBoth.2 hEarly, rfl, rfl⟩
    · right
      cases hFlow.symm.trans hLoop
      obtain ⟨pindex', hRewards, h⟩ := bind_eq_ok.mp h
      have hDone : (st.txdb.writeBlockIndex env.prims (CDiskBlockIndex.ofIndex pindex')).1 =
          true := BatchStore.update_of_inBatch hBatch _ _
      generalize hWritten : st.txdb.writeBlockIndex env.prims (CDiskBlockIndex.ofIndex pindex') =
        written at h hDone
      obtain ⟨done, txdb⟩ := written
      obtain rfl : done = true := hDone
      obtain rfl := Except.ok.inj h
      refine ⟨tally, hPassed, hThrough, hRewards, ?_⟩
      simp only [hWritten]
    · left
      obtain ⟨rfl, -⟩ := hLoop flow hFlow
      cases h
      exact ⟨fun hBoth => hNot hBoth.2, rfl, rfl⟩
  · have hCheck : (block.checkBlock env st true true false).passed = false :=
      Bool.eq_false_of_not_eq_true fun h => hPassed (Verdict.passed_iff.mp h)
    left
    simp only [Bool.not_false, hCheck, if_true, Except.ok.injEq] at h
    rw [← h]
    exact ⟨fun hBoth => hPassed hBoth.1, rfl, rfl⟩

/-- Exactly when `ConnectBlock` succeeds inside a batch. -/
theorem connectBlock_succeeds_iff (hBatch : BatchStore.InBatch st.txdb) :
    (∃ r, connectBlock env st block pindex false = .ok r ∧ r.success = true) ↔
      PassesCheckBlock env st block ∧
        (ConnectStopsEarly env st block pindex ∨
          ConnectRunsThrough env st block pindex ∧ RewardsFit env st block ∧
            AddrIndexFits env st block pindex) := by
  rcases connectBlock_spec env block pindex hBatch with
    ⟨hPassed, hEarly, hRun⟩ | ⟨hPassed, hThrough, hFit, r, hRun, hSuccess, -⟩ |
      ⟨hThrough, hNotFit, hFault⟩ | ⟨hNot, hRun⟩
  · exact iff_of_true ⟨_, hRun, rfl⟩ ⟨hPassed, Or.inl hEarly⟩
  · constructor
    · rintro ⟨r', hRun', hTrue⟩
      rw [hRun] at hRun'
      cases hRun'
      exact ⟨hPassed, Or.inr ⟨hThrough, hFit, hSuccess.mp hTrue⟩⟩
    · rintro ⟨-, hEarly | ⟨-, -, hAddr⟩⟩
      · exact absurd hEarly (not_stopsEarly_of_runsThrough hThrough)
      · exact ⟨r, hRun, hSuccess.mpr hAddr⟩
  · refine iff_of_false (fun ⟨r, hOk, _⟩ => hFault r hOk) ?_
    rintro ⟨-, hEarly | ⟨-, hFit, -⟩⟩
    · exact not_stopsEarly_of_runsThrough hThrough hEarly
    · exact hNotFit hFit
  · refine iff_of_false ?_ ?_
    · rintro ⟨r, hOk, hTrue⟩
      rw [(hRun r hOk).1] at hTrue
      cases hTrue
    · rintro ⟨hPassed, hEarly | ⟨hThrough, -⟩⟩
      · exact hNot ⟨hPassed, Or.inl hEarly⟩
      · exact hNot ⟨hPassed, Or.inr hThrough⟩

/-- What `ConnectBlock` leaves alone: the disk below the batch and the links of the
index entry. -/
theorem connectBlock_frame
    (hBatch : BatchStore.InBatch st.txdb) {r : ConnectResult}
    (h : connectBlock env st block pindex false = .ok r) :
    BatchStore.StagedFrom st.txdb r.txdb ∧ SameLinks pindex r.pindex := by
  rcases connectBlock_spec env block pindex hBatch with
    ⟨-, -, hRun⟩ | ⟨-, -, -, r', hRun, -, hStaged, hLinks, -⟩ | ⟨-, -, hFault⟩ | ⟨-, hRun⟩
  · rw [h] at hRun
    cases hRun
    exact ⟨BatchStore.StagedFrom.refl hBatch, SameLinks.refl pindex⟩
  · rw [h] at hRun
    cases hRun
    exact ⟨hStaged, hLinks⟩
  · exact absurd h (hFault r)
  · rw [(hRun r h).1]
    exact ⟨BatchStore.StagedFrom.refl hBatch, SameLinks.refl pindex⟩

/-- A connection that ends with a value runs through, if the checks pass, the
signature operations are within the limit and no transaction stops it. -/
theorem runsThrough_of_connectBlock
    (hBatch : BatchStore.InBatch st.txdb) (hPassed : PassesCheckBlock env st block)
    (hWithin : ConnectWithinSigOps block)
    (hGoes : ∀ tx ∈ block.vtx, stopsConnection env st pindex tx = false) {r : ConnectResult}
    (h : connectBlock env st block pindex false = .ok r) :
    ConnectRunsThrough env st block pindex := by
  have hNoStop : ¬∃ tx ∈ block.vtx, stopsConnection env st pindex tx = true := by
    rintro ⟨tx, hTx, hStop⟩
    rw [hGoes tx hTx] at hStop
    cases hStop
  rcases connectBlock_spec env block pindex hBatch with
    ⟨-, hEarly, -⟩ | ⟨-, hThrough, -⟩ | ⟨-, -, hFault⟩ | ⟨-, hRun⟩
  · exact absurd (exists_stopsConnection_of_stopsEarly hEarly) hNoStop
  · exact hThrough
  · exact absurd h (hFault r)
  · exact absurd ((hRun r h).2 hPassed hWithin) hNoStop

/-- After a connection whose checks pass and whose loop runs through, the index is
the one with all queued records. -/
theorem readTxIndex_of_runsThrough
    (hBatch : BatchStore.InBatch st.txdb) (hPassed : PassesCheckBlock env st block)
    (hThrough : ConnectRunsThrough env st block pindex) {r : ConnectResult}
    (h : connectBlock env st block pindex false = .ok r) (k : ℕ) :
    r.txdb.readTxIndex k = indexAfter env st block pindex k := by
  rcases connectBlock_spec env block pindex hBatch with
    ⟨-, hEarly, -⟩ | ⟨-, -, -, r', hRun, -, -, -, hIndex⟩ | ⟨-, -, hFault⟩ | ⟨hNot, -⟩
  · exact absurd hEarly (not_stopsEarly_of_runsThrough hThrough)
  · rw [h] at hRun
    cases hRun
    exact hIndex k
  · exact absurd h (hFault r)
  · exact absurd ⟨hPassed, Or.inr hThrough⟩ hNot

end Outcome

end SocietyGold
