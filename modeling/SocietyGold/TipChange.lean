import SocietyGold.BestChain
import SocietyGold.ConnectedIndex

/-!
# Changing the tip

`SetBestChainInner` writes the hash of the new tip once more when the connection
of the block or the first write fails, and commits if that write succeeds.
Inside a batch it always does, so only the commit itself decides whether the
block becomes the tip.
-/

namespace SocietyGold

open Support

/-! ## Databases and entries of a state -/

/-- The state with another database. -/
def ChainState.withTxdb (st : ChainState) (txdb : CTxDB) : ChainState := { st with txdb := txdb }

@[simp] theorem ChainState.txdb_withTxdb (st : ChainState) (txdb : CTxDB) :
    (st.withTxdb txdb).txdb = txdb := rfl

namespace ChainState

variable {st : ChainState}

theorem lookup_updateEntry (st : ChainState) (hash k : ℕ) (f : CBlockIndex → CBlockIndex) :
    (st.updateEntry hash f).mapBlockIndex.lookup k =
      if k = hash then (st.mapBlockIndex.lookup hash).map f
      else st.mapBlockIndex.lookup k := by
  unfold updateEntry
  cases hLookup : st.mapBlockIndex.lookup hash with
  | none =>
      by_cases hk : k = hash
      · subst hk
        simp [hLookup]
      · simp [hk]
  | some pindex =>
      simp only [Table.lookup_insert_ite, Option.map_some]

/-- The ancestors of an entry depend on the block index alone. -/
theorem chainFrom_withTxdb (st : ChainState) (txdb : CTxDB) (pindex : CBlockIndex) :
    (st.withTxdb txdb).chainFrom pindex = st.chainFrom pindex := by
  have hWalk : ∀ fuel p, (st.withTxdb txdb).pprevWalk fuel p = st.pprevWalk fuel p := by
    intro fuel
    induction fuel with
    | zero => exact fun p => rfl
    | succ fuel ih =>
        intro p
        simp only [pprevWalk, ih]
        rfl
  simp only [chainFrom, hWalk]
  rfl

/-- Everything but the block index is left alone. -/
theorem updateEntry_frame (st : ChainState) (hash : ℕ) (f : CBlockIndex → CBlockIndex) :
    st.updateEntry hash f =
      { st with mapBlockIndex := (st.updateEntry hash f).mapBlockIndex } := by
  unfold updateEntry
  split <;> rfl

end ChainState

/-! ## Databases with the same index -/

section SameIndex

variable {env : Env} {st : ChainState} {txdb : CTxDB}
  (h : ∀ k, txdb.readTxIndex k = st.txdb.readTxIndex k)
include h

theorem prevRecord_congr (hash : ℕ) : prevRecord txdb hash = prevRecord st.txdb hash := by
  simp only [prevRecord, h]

theorem seenPrev_withTxdb : (st.withTxdb txdb).seenPrev env = st.seenPrev env := by
  funext hash
  simp only [prevTransaction, recordedInPool, ChainState.txdb_withTxdb, h]
  rfl

theorem stopsConnection_withTxdb (pindex : CBlockIndex) (tx : CTransaction) :
    stopsConnection env (st.withTxdb txdb) pindex tx = stopsConnection env st pindex tx := by
  have hMissing : hasMissingInput txdb st.mempool tx = hasMissingInput st.txdb st.mempool tx := by
    simp only [hasMissingInput_eq, missesInput, h]
  have hRecord : prevRecord txdb = prevRecord st.txdb := funext (prevRecord_congr h)
  have hImmature : seesImmature env (st.withTxdb txdb) pindex tx =
      seesImmature env st pindex tx := by
    unfold seesImmature hasImmatureInput immature
    rw [seenPrev_withTxdb h, ChainState.txdb_withTxdb, hRecord, ChainState.chainFrom_withTxdb]
  unfold stopsConnection
  rw [hImmature]
  exact congrArg (fun missing => !tx.isCoinBase && (missing || seesImmature env st pindex tx))
    hMissing

end SameIndex

/-! ## The outcome of SetBestChainInner -/

/-- The state between the commit and the attachment of a block: its index entry as
`ConnectBlock` left it, and the database after the commit. -/
def connectedState (st : ChainState) (r : ConnectResult) (txdb : CTxDB) : ChainState :=
  (st.updateEntry r.pindex.phashBlock fun _ => r.pindex).withTxdb txdb

theorem connectedState_frame (st : ChainState) (r : ConnectResult) (txdb : CTxDB) :
    connectedState st r txdb =
      { st with mapBlockIndex := (connectedState st r txdb).mapBlockIndex, txdb := txdb } := by
  unfold connectedState
  rw [ChainState.updateEntry_frame]
  rfl

section Inner

variable {env : Env} {st : ChainState} {block : CBlock} {pindexNew : CBlockIndex}
  {r : ConnectResult}

/-- A batch after the hash of the best chain is written to it. -/
theorem writeHashBestChain_of_inBatch
    {txdb : CTxDB} (h : BatchStore.InBatch txdb) (hash : ℕ) :
    (txdb.writeHashBestChain hash).1 = true :=
  BatchStore.update_of_inBatch h _ _

/-- Whatever the result of the connection, `SetBestChainInner` goes on to commit
what was written. -/
theorem setBestChainInner_spec
    (hBatch : BatchStore.InBatch st.txdb)
    (hConnect : connectBlock env st block pindexNew false = .ok r) :
    ∃ txdb',
      txdb'.activeBatch = none ∧
      (st.txdb.nextWriteOk = true → ∀ key, txdb'.read key =
        (r.txdb.writeHashBestChain (block.getHash env.prims)).2.read key) ∧
      (st.txdb.nextWriteOk = false → txdb'.disk = st.txdb.disk) ∧
      setBestChainInner env st block pindexNew =
        if st.txdb.nextWriteOk then do
          let st' ← attachTip env (connectedState st r txdb') block r.pindex
          .ok (true, st')
        else .ok (false, connectedState st r txdb') := by
  set hash := block.getHash env.prims with hHash
  have hStaged : BatchStore.StagedFrom st.txdb r.txdb := (connectBlock_frame hBatch hConnect).1
  have hWritten := writeHashBestChain_of_inBatch hStaged.inBatch hash
  obtain ⟨txdb', hCommit, -, hFailed⟩ :=
    (show BatchStore.StagedFrom st.txdb (r.txdb.writeHashBestChain hash).2 from
      hStaged.update _ _).commit
  have hSecond :
      (if (if r.success = true then r.txdb.writeHashBestChain hash else (false, r.txdb)).1 = true
        then (if r.success = true then r.txdb.writeHashBestChain hash else (false, r.txdb))
        else (if r.success = true then r.txdb.writeHashBestChain hash
          else (false, r.txdb)).2.writeHashBestChain hash) = r.txdb.writeHashBestChain hash := by
    cases r.success with
    | true => simp [hWritten]
    | false => simp
  refine ⟨txdb', BatchStore.txnCommit_activeBatch hCommit, ?_, hFailed, ?_⟩
  · intro hOk
    rw [hOk] at hCommit
    exact BatchStore.read_txnCommit hCommit
  · unfold setBestChainInner
    simp only [hConnect, ok_bind, ← hHash, hSecond, hWritten, Bool.not_true, Bool.false_eq_true,
      if_false, hCommit]
    cases st.txdb.nextWriteOk with
    | true => rfl
    | false => rfl

theorem attachTip_eq_ok
    {st' : ChainState} (h : attachTip env st block pindexNew = .ok st') :
    ∃ pprev entry, pindexNew.pprev = some pprev ∧ st.mapBlockIndex.lookup pprev = some entry ∧
      st' = { st.updateEntry pprev (fun e => { e with pnext := some pindexNew.phashBlock }) with
        mempool := removeFromPool env block.vtx st.mempool } := by
  unfold attachTip at h
  cases hPprev : pindexNew.pprev with
  | none => simp [hPprev] at h
  | some pprev =>
      simp only [hPprev, bind_eq_ok, Except.ok.injEq] at h
      obtain ⟨entry, hEntry, rfl⟩ := h
      refine ⟨pprev, entry, rfl, by simpa [ChainState.entry] using deref_eq_ok.mp hEntry, ?_⟩
      unfold ChainState.updateEntry
      split <;> rfl

end Inner

/-! ## The outcome of SetBestChain -/

section Outer

variable {env : Env} {st : ChainState} {block : CBlock} {pindexNew : CBlockIndex}

/-- `SetBestChain` takes the branch for the genesis block. -/
def IsGenesisStep (env : Env) (st : ChainState) (block : CBlock) : Prop :=
  st.pindexGenesisBlock = none ∧ block.getHash env.prims = env.hashGenesisBlock

instance : Decidable (IsGenesisStep env st block) := inferInstanceAs (Decidable (_ ∧ _))

/-- `SetBestChain` for a block on top of the tip that is not the genesis block. -/
theorem setBestChain_of_extends
    {txdb : CTxDB} (hExtends : block.hashPrevBlock = st.hashBestChain)
    (hBegin : BatchStore.txnBegin st.txdb = .ok txdb)
    (hGenesis : ¬IsGenesisStep env st block) :
    setBestChain env st block pindexNew = (do
      let (attached, st') ← setBestChainInner env (st.withTxdb txdb) block pindexNew
      if !attached then .ok (false, st')
      else finishBestChain env st' (block.getHash env.prims) pindexNew) := by
  unfold IsGenesisStep at hGenesis
  unfold setBestChain
  simp only [hExtends, ne_eq, not_true_eq_false, if_false, hBegin, ok_bind, hGenesis]
  rfl

theorem finishBestChain_eq_ok
    {hash : ℕ} {out : Outcome} (h : finishBestChain env st hash pindexNew = .ok out) :
    out = (true, setTip env st hash pindexNew) := by
  unfold finishBestChain at h
  by_cases hHeight : pindexNew.nHeight = 0
  · simpa [hHeight, eq_comm] using h
  · simp only [hHeight, ne_eq, not_false_eq_true, if_true, bind_eq_ok, Except.ok.injEq] at h
    obtain ⟨-, -, rfl⟩ := h
    rfl

theorem hashPrevBlock_of_setBestChain
    {st' : ChainState} (h : setBestChain env st block pindexNew = .ok (true, st')) :
    block.hashPrevBlock = st.hashBestChain := by
  by_contra hExtends
  simp [setBestChain, hExtends] at h

/-- The branch for the genesis block writes the hash of the best chain; it succeeds exactly
when the commit does. -/
theorem genesis_of_setBestChain
    {st' : ChainState} {done : Bool} (hExtends : block.hashPrevBlock = st.hashBestChain)
    (hGenesis : IsGenesisStep env st block)
    (h : setBestChain env st block pindexNew = .ok (done, st')) :
    done = st.txdb.nextWriteOk ∧ ∃ txdb' : CTxDB, txdb'.activeBatch = none ∧
      (done = false → txdb'.disk = st.txdb.disk) ∧
      (done = true → ∀ key, txdb'.read key =
        if key = .hashBestChain then some (.hash (block.getHash env.prims))
        else st.txdb.read key) ∧
      st' = if done then
        setTip env { st with txdb := txdb', pindexGenesisBlock := some pindexNew.phashBlock }
          (block.getHash env.prims) pindexNew
      else st.withTxdb txdb' := by
  cases hBegin : BatchStore.txnBegin st.txdb with
  | error fault => simp [setBestChain, hExtends, hBegin] at h
  | ok txdb =>
      have hWritten : BatchStore.StagedFrom st.txdb
          (CTxDB.writeHashBestChain txdb (block.getHash env.prims)).2 :=
        (BatchStore.stagedFrom_txnBegin hBegin).update _ _
      obtain ⟨txdb', hCommit, -, hFailed⟩ := hWritten.commit
      unfold IsGenesisStep at hGenesis
      unfold setBestChain at h
      simp only [hExtends, ne_eq, not_true_eq_false, if_false, hBegin, ok_bind] at h
      rw [if_pos hGenesis, hCommit, ok_bind] at h
      cases hOk : st.txdb.nextWriteOk with
      | false =>
          rw [hOk] at h
          cases h
          exact ⟨rfl, txdb', BatchStore.txnCommit_activeBatch hCommit, fun _ => hFailed hOk,
            by simp, rfl⟩
      | true =>
          rw [hOk] at h hCommit
          cases finishBestChain_eq_ok h
          refine ⟨rfl, txdb', BatchStore.txnCommit_activeBatch hCommit, by simp,
            fun _ key => ?_, rfl⟩
          have hDone := writeHashBestChain_of_inBatch (BatchStore.inBatch_txnBegin hBegin)
            (block.getHash env.prims)
          rw [BatchStore.read_txnCommit hCommit, ← BatchStore.read_txnBegin hBegin]
          exact BatchStore.read_update hDone key

/-- Any other branch runs `ConnectBlock` in a fresh batch and, whatever that returned, commits
what it had written.  When the commit succeeds the block is attached and made the tip. -/
theorem connected_of_setBestChain
    {st' : ChainState} {done : Bool} (hExtends : block.hashPrevBlock = st.hashBestChain)
    (hGenesis : ¬IsGenesisStep env st block)
    (h : setBestChain env st block pindexNew = .ok (done, st')) :
    ∃ (txdb txdb' : CTxDB) (r : ConnectResult),
      BatchStore.txnBegin st.txdb = .ok txdb ∧
      connectBlock env (st.withTxdb txdb) block pindexNew false = .ok r ∧
      txdb'.activeBatch = none ∧ done = st.txdb.nextWriteOk ∧
      (done = false → txdb'.disk = st.txdb.disk) ∧
      (done = true → ∀ key, txdb'.read key =
        (r.txdb.writeHashBestChain (block.getHash env.prims)).2.read key) ∧
      ((done = false ∧ st' = connectedState (st.withTxdb txdb) r txdb') ∨
        (done = true ∧ ∃ st₁,
          attachTip env (connectedState (st.withTxdb txdb) r txdb') block r.pindex = .ok st₁ ∧
          st' = setTip env st₁ (block.getHash env.prims) pindexNew)) := by
  cases hBegin : BatchStore.txnBegin st.txdb with
  | error fault => simp [setBestChain, hExtends, hBegin] at h
  | ok txdb =>
      have hBatch : BatchStore.InBatch (st.withTxdb txdb).txdb :=
        BatchStore.inBatch_txnBegin hBegin
      have hNext : txdb.nextWriteOk = st.txdb.nextWriteOk :=
        (BatchStore.stagedFrom_txnBegin hBegin).nextWriteOk_eq
      rw [setBestChain_of_extends hExtends hBegin hGenesis, bind_eq_ok] at h
      obtain ⟨⟨attached, st₁⟩, hRun, h⟩ := h
      cases hConnect : connectBlock env (st.withTxdb txdb) block pindexNew false with
      | error fault => simp [setBestChainInner, hConnect] at hRun
      | ok r =>
          obtain ⟨txdb', hClosed, hRead, hDisk, hInner⟩ := setBestChainInner_spec hBatch hConnect
          rw [ChainState.txdb_withTxdb, hNext] at hRead hDisk hInner
          rw [hInner] at hRun
          refine ⟨txdb, txdb', r, rfl, hConnect, hClosed, ?_⟩
          cases hOk : st.txdb.nextWriteOk with
          | false =>
              rw [hOk] at hRun
              cases hRun
              cases h
              refine ⟨rfl, fun _ => ?_, by simp, Or.inl ⟨rfl, rfl⟩⟩
              exact (hDisk hOk).trans (BatchStore.stagedFrom_txnBegin hBegin).disk_eq
          | true =>
              rw [hOk, if_pos rfl, bind_eq_ok] at hRun
              obtain ⟨st₂, hAttach, hRun⟩ := hRun
              cases hRun
              cases finishBestChain_eq_ok h
              exact ⟨rfl, by simp, fun _ => hRead hOk, Or.inr ⟨rfl, _, hAttach, rfl⟩⟩

/-- A successful `SetBestChain` of a block that is not the genesis block. -/
theorem attached_of_setBestChain
    {st' : ChainState} (h : setBestChain env st block pindexNew = .ok (true, st'))
    (hGenesis : ¬IsGenesisStep env st block) :
    ∃ (txdb txdb' : CTxDB) (r : ConnectResult) (st₁ : ChainState),
      BatchStore.txnBegin st.txdb = .ok txdb ∧
      connectBlock env (st.withTxdb txdb) block pindexNew false = .ok r ∧
      txdb'.activeBatch = none ∧
      (∀ key, txdb'.read key =
        (r.txdb.writeHashBestChain (block.getHash env.prims)).2.read key) ∧
      attachTip env (connectedState (st.withTxdb txdb) r txdb') block r.pindex = .ok st₁ ∧
      st' = setTip env st₁ (block.getHash env.prims) pindexNew := by
  obtain ⟨txdb, txdb', r, hBegin, hConnect, hClosed, -, -, hRead, hEnd⟩ :=
    connected_of_setBestChain (hashPrevBlock_of_setBestChain h) hGenesis h
  rcases hEnd with ⟨hFalse, -⟩ | ⟨-, st₁, hAttach, hTip⟩
  · cases hFalse
  · exact ⟨txdb, txdb', r, st₁, hBegin, hConnect, hClosed, hRead rfl, hAttach, hTip⟩

/-- The transaction index after a successful `SetBestChain` is the one `ConnectBlock`
left. -/
theorem txIndex_of_setBestChain
    {st' : ChainState} (h : setBestChain env st block pindexNew = .ok (true, st'))
    (hGenesis : ¬IsGenesisStep env st block) :
    ∃ (txdb : CTxDB) (r : ConnectResult), BatchStore.txnBegin st.txdb = .ok txdb ∧
      connectBlock env (st.withTxdb txdb) block pindexNew false = .ok r ∧
      ∀ k, st'.txIndex k = r.txdb.readTxIndex k := by
  obtain ⟨txdb, txdb', r, st₁, hBegin, hConnect, -, hRead, hAttach, rfl⟩ :=
    attached_of_setBestChain h hGenesis
  refine ⟨txdb, r, hBegin, hConnect, fun k => ?_⟩
  obtain ⟨pprev, entry, -, -, rfl⟩ := attachTip_eq_ok hAttach
  rw [ChainState.updateEntry_frame]
  exact (CTxDB.readTxIndex_congr hRead k).trans (CTxDB.readTxIndex_writeHashBestChain _ k)

/-- What a successful call does to the tip and to the entries: the new one is as
`ConnectBlock` left it, and the one below it gets the link forward. -/
theorem setBestChain_entries
    {st' : ChainState} {txdb : CTxDB} {r : ConnectResult}
    (hEntered : st.mapBlockIndex.lookup (block.getHash env.prims) = some pindexNew)
    (hNewHash : pindexNew.phashBlock = block.getHash env.prims)
    (hGenesis : ¬IsGenesisStep env st block)
    (hBegin : BatchStore.txnBegin st.txdb = .ok txdb)
    (hConnect : connectBlock env (st.withTxdb txdb) block pindexNew false = .ok r)
    (h : setBestChain env st block pindexNew = .ok (true, st')) :
    block.hashPrevBlock = st.hashBestChain ∧
      st'.pindexBest = some (block.getHash env.prims) ∧
      st'.hashBestChain = block.getHash env.prims ∧
      st'.pindexGenesisBlock = st.pindexGenesisBlock ∧
      (∀ k, st'.txIndex k = r.txdb.readTxIndex k) ∧
      ∃ pprev, pindexNew.pprev = some pprev ∧
        ∀ k, st'.mapBlockIndex.lookup k =
          (if k = block.getHash env.prims then some r.pindex else st.mapBlockIndex.lookup k).map
            fun pindex =>
              if k = pprev then { pindex with pnext := some (block.getHash env.prims) }
              else pindex := by
  obtain ⟨_, _, hBegin', hConnect', hIndex⟩ := txIndex_of_setBestChain h hGenesis
  cases hBegin.symm.trans hBegin'
  cases hConnect.symm.trans hConnect'
  obtain ⟨_, txdb', _, st₁, hBegin', hConnect', -, -, hAttach, rfl⟩ :=
    attached_of_setBestChain h hGenesis
  cases hBegin.symm.trans hBegin'
  cases hConnect.symm.trans hConnect'
  obtain ⟨pprev, entry, hPprev, -, rfl⟩ := attachTip_eq_ok hAttach
  have hLinks := (connectBlock_frame (BatchStore.inBatch_txnBegin hBegin) hConnect).2
  have hHash : r.pindex.phashBlock = block.getHash env.prims := hLinks.phashBlock.trans hNewHash
  rw [hHash] at hIndex ⊢
  refine ⟨hashPrevBlock_of_setBestChain h, congrArg some hNewHash, rfl, ?_, hIndex, pprev,
    hLinks.pprev.symm.trans hPprev, fun k => ?_⟩
  · rw [ChainState.updateEntry_frame, connectedState_frame]
    rfl
  · have hConnected : (connectedState (st.withTxdb txdb) r txdb').mapBlockIndex.lookup k =
        if k = block.getHash env.prims then some r.pindex else st.mapBlockIndex.lookup k := by
      refine (ChainState.lookup_updateEntry (st.withTxdb txdb) _ _ _).trans ?_
      rw [hHash]
      split_ifs
      · change (st.mapBlockIndex.lookup (block.getHash env.prims)).map _ = _
        rw [hEntered]
        rfl
      · rfl
    refine (ChainState.lookup_updateEntry _ _ _ _).trans ?_
    rw [← hConnected]
    split_ifs with hk
    · rw [hk]
    · exact Option.map_id'.symm

/-- A view of the entries that sees neither what `ConnectBlock` fills in nor the link forward
nor the stake modifier. -/
structure IsTreeView {β : Type} (view : CBlockIndex → β) : Prop where
  sameLinks : ∀ {pindex pindex' : CBlockIndex}, SameLinks pindex pindex' →
    view pindex' = view pindex
  pnext : ∀ (pindex : CBlockIndex) (pnext : Option ℕ),
    view { pindex with pnext := pnext } = view pindex
  setStakeModifier : ∀ (pindex : CBlockIndex) (nModifier : ℕ) (fGenerated : Bool),
    view (pindex.setStakeModifier nModifier fGenerated) = view pindex

/-- The entries of two block indices look the same. -/
def SameViews {β : Type} (view : CBlockIndex → β) (st st' : ChainState) : Prop :=
  ∀ k, (st'.mapBlockIndex.lookup k).map view = (st.mapBlockIndex.lookup k).map view

section Views

variable {β : Type} {view : CBlockIndex → β}

theorem SameViews.refl (st : ChainState) : SameViews view st st := fun _ => rfl

theorem SameViews.trans {st₁ st₂ st₃ : ChainState} (h : SameViews view st₁ st₂)
    (h' : SameViews view st₂ st₃) : SameViews view st₁ st₃ := fun k => (h' k).trans (h k)

theorem sameViews_updateEntry
    (st : ChainState) {hash : ℕ} {f : CBlockIndex → CBlockIndex}
    (h : ∀ pindex, st.mapBlockIndex.lookup hash = some pindex → view (f pindex) = view pindex) :
    SameViews view st (st.updateEntry hash f) := by
  intro k
  rw [ChainState.lookup_updateEntry]
  split_ifs with hk
  · subst hk
    cases hLookup : st.mapBlockIndex.lookup k with
    | none => rfl
    | some pindex => simp [h pindex hLookup]
  · rfl

end Views

/-- The place of an entry in the tree: its previous block and the trust of its chain. -/
def CBlockIndex.place (pindex : CBlockIndex) : Option ℕ × ℕ := (pindex.pprev, pindex.nChainTrust)

theorem isTreeView_place : IsTreeView CBlockIndex.place where
  sameLinks h := by rw [CBlockIndex.place, h.pprev, h.nChainTrust, CBlockIndex.place]
  pnext _ _ := rfl
  setStakeModifier _ _ _ := rfl

/-- `SetBestChain` for a block on top of the tip succeeds exactly when its commit
does; then the block is the tip, and the block index keeps its entries. -/
theorem setBestChain_spec
    (st : ChainState) {st' : ChainState} {done : Bool} {β : Type} {view : CBlockIndex → β}
    (hView : IsTreeView view) (hExtends : block.hashPrevBlock = st.hashBestChain)
    (hEntry : st.mapBlockIndex.lookup pindexNew.phashBlock = some pindexNew)
    (h : setBestChain env st block pindexNew = .ok (done, st')) :
    done = st.txdb.nextWriteOk ∧ st'.txdb.activeBatch = none ∧ SameViews view st st' ∧
      st'.setStakeSeen = st.setStakeSeen ∧
      (done = false → st'.pindexBest = st.pindexBest ∧ st'.hashBestChain = st.hashBestChain) ∧
      (done = true → st'.pindexBest = some pindexNew.phashBlock ∧
        st'.hashBestChain = block.getHash env.prims ∧
        st'.nBestChainTrust = pindexNew.nChainTrust) := by
  by_cases hGenesis : IsGenesisStep env st block
  · obtain ⟨hDone, txdb', hClosed, -, -, rfl⟩ := genesis_of_setBestChain hExtends hGenesis h
    cases done with
    | false => exact ⟨hDone, hClosed, SameViews.refl st, rfl, fun _ => ⟨rfl, rfl⟩, by simp⟩
    | true => exact ⟨hDone, hClosed, SameViews.refl st, rfl, by simp, fun _ => ⟨rfl, rfl, rfl⟩⟩
  · obtain ⟨txdb, txdb', r, hBegin, hConnect, hClosed, hDone, -, -, hEnd⟩ :=
      connected_of_setBestChain hExtends hGenesis h
    have hLinks := (connectBlock_frame (BatchStore.inBatch_txnBegin hBegin) hConnect).2
    have hConnected : SameViews view st (connectedState (st.withTxdb txdb) r txdb') := by
      refine sameViews_updateEntry (st.withTxdb txdb) (f := fun _ => r.pindex)
        fun pindex hFound => ?_
      rw [hLinks.phashBlock] at hFound
      have hSame : pindex = pindexNew := Option.some.inj (hFound.symm.trans hEntry)
      rw [hSame]
      exact hView.sameLinks hLinks
    have hFrame := connectedState_frame (st.withTxdb txdb) r txdb'
    have hSeen : (connectedState (st.withTxdb txdb) r txdb').setStakeSeen =
        st.setStakeSeen := by
      rw [hFrame]
      rfl
    rcases hEnd with ⟨rfl, rfl⟩ | ⟨rfl, st₁, hAttach, rfl⟩
    · refine ⟨hDone, hClosed, hConnected, hSeen, fun _ => ?_, by simp⟩
      rw [hFrame]
      exact ⟨rfl, rfl⟩
    · obtain ⟨pprev, entry, -, -, rfl⟩ := attachTip_eq_ok hAttach
      refine ⟨hDone, ?_, ?_, ?_, by simp, fun _ => ⟨rfl, rfl, rfl⟩⟩
      · rw [ChainState.updateEntry_frame]
        exact hClosed
      · refine hConnected.trans ?_
        exact sameViews_updateEntry (connectedState (st.withTxdb txdb) r txdb')
          fun _ _ => hView.pnext _ _
      · rw [ChainState.updateEntry_frame]
        exact hSeen

end Outer

/-! ## A failed connection -/

/-- What a block that does not become the tip has to leave as it was: the tip with
its height and trust, the link to it, and the disk. -/
structure KeepsTip (st st' : ChainState) (pprev : Option ℕ) : Prop where
  hashBestChain : st'.hashBestChain = st.hashBestChain
  pindexBest : st'.pindexBest = st.pindexBest
  nBestHeight : st'.nBestHeight = st.nBestHeight
  nBestChainTrust : st'.nBestChainTrust = st.nBestChainTrust
  pnext : (st'.entry pprev).map CBlockIndex.pnext = (st.entry pprev).map CBlockIndex.pnext
  disk : st'.txdb.disk = st.txdb.disk

section Failure

variable {env : Env} {st : ChainState} {block : CBlock} {pindexNew : CBlockIndex}

/-- Replacing the entry of a block by one with the same links moves no link. -/
theorem pnext_connectedState
    (st : ChainState) {r : ConnectResult} (txdb : CTxDB) (hLinks : SameLinks pindexNew r.pindex)
    (hEntry : st.mapBlockIndex.lookup pindexNew.phashBlock = some pindexNew) (p : Option ℕ) :
    ((connectedState st r txdb).entry p).map CBlockIndex.pnext =
      (st.entry p).map CBlockIndex.pnext := by
  cases p with
  | none => rfl
  | some k =>
      change ((st.updateEntry r.pindex.phashBlock fun _ => r.pindex).mapBlockIndex.lookup k).map
        CBlockIndex.pnext = (st.mapBlockIndex.lookup k).map CBlockIndex.pnext
      rw [ChainState.lookup_updateEntry, hLinks.phashBlock]
      split_ifs with hk
      · rw [hk, hEntry]
        simp [hLinks.pnext]
      · rfl

/-- For a block on top of the tip whose connection fails, `SetBestChain` keeps the
tip exactly when the commit of the database transaction fails. -/
theorem failedConnection_keepsTip_iff
    (env : Env) (st : ChainState) (block : CBlock) (pindexNew : CBlockIndex) (txdb : CTxDB)
    (r : ConnectResult)
    (hExtends : block.hashPrevBlock = st.hashBestChain)
    (hBegin : BatchStore.txnBegin st.txdb = .ok txdb)
    (hGenesis : ¬IsGenesisStep env st block)
    (hEntry : st.mapBlockIndex.lookup pindexNew.phashBlock = some pindexNew)
    (hConnect : connectBlock env (st.withTxdb txdb) block pindexNew false = .ok r)
    (_hFailed : r.success = false) :
    ((∃ st₁, setBestChainInner env (st.withTxdb txdb) block pindexNew = .ok (false, st₁)) ∧
        ∃ st', setBestChain env st block pindexNew = .ok (false, st') ∧
          KeepsTip st st' pindexNew.pprev) ↔
      st.txdb.nextWriteOk = false := by
  have hBatch : BatchStore.InBatch (st.withTxdb txdb).txdb :=
        BatchStore.inBatch_txnBegin hBegin
  have hNext : txdb.nextWriteOk = st.txdb.nextWriteOk :=
    (BatchStore.stagedFrom_txnBegin hBegin).nextWriteOk_eq
  have hLinks : SameLinks pindexNew r.pindex :=
    (connectBlock_frame hBatch hConnect).2
  obtain ⟨txdb', -, -, hDisk, hInner⟩ := setBestChainInner_spec hBatch hConnect
  rw [ChainState.txdb_withTxdb, hNext] at hDisk hInner
  rw [setBestChain_of_extends hExtends hBegin hGenesis, hInner]
  cases hOk : st.txdb.nextWriteOk with
  | true =>
      -- the commit succeeds: the block is attached, or its parent is missing
      refine iff_of_false ?_ (by simp)
      rintro ⟨⟨st₁, hFalse⟩, -⟩
      rw [if_pos rfl, bind_eq_ok] at hFalse
      obtain ⟨st₂, hAttach, hFalse⟩ := hFalse
      cases hFalse
  | false =>
      refine iff_of_true ?_ rfl
      refine ⟨⟨_, rfl⟩, _, rfl, ?_⟩
      have hPnext := pnext_connectedState (st.withTxdb txdb) txdb' hLinks hEntry
        pindexNew.pprev
      have hFrame := connectedState_frame (st.withTxdb txdb) r txdb'
      exact
        { hashBestChain := by rw [hFrame]; rfl
          pindexBest := by rw [hFrame]; rfl
          nBestHeight := by rw [hFrame]; rfl
          nBestChainTrust := by rw [hFrame]; rfl
          pnext := hPnext
          disk := (hDisk hOk).trans (BatchStore.stagedFrom_txnBegin hBegin).disk_eq }

end Failure

/-! ## A block with a wrong Merkle root as the tip -/

namespace Sample

/-- A block that fails `CheckBlock`. -/
def wrongRoot : CBlock := { sealed 500 1000 [coinbase 1000 11 100] with hashMerkleRoot := 1 }

def wrongRootEntry : CBlockIndex :=
  { CBlockIndex.ofBlock 1 200 wrongRoot (wrongRoot.getHash prims) with
    pprev := some 500
    nHeight := 11 }

/-- The node that has entered the block into its index; the outcomes of its physical
writes are given. -/
def nodeWithWrongRoot (outcomes : List Bool) : ChainState :=
  let st := nodeWith []
  { st with
    mapBlockIndex := st.mapBlockIndex.insert (wrongRoot.getHash prims) wrongRootEntry
    txdb := { st.txdb with outcomes := outcomes } }

theorem wrongRoot_becomes_tip :
    wrongRoot.hashPrevBlock = (nodeWithWrongRoot []).hashBestChain ∧
      ∃ txdb r st', BatchStore.txnBegin (nodeWithWrongRoot []).txdb = .ok txdb ∧
        connectBlock (env 900) ((nodeWithWrongRoot []).withTxdb txdb) wrongRoot wrongRootEntry
          false = .ok r ∧
        r.success = false ∧
        setBestChain (env 900) (nodeWithWrongRoot []) wrongRoot wrongRootEntry =
          .ok (true, st') ∧
        st'.hashBestChain = wrongRoot.getHash prims ∧
        st'.hashBestChain ≠ (nodeWithWrongRoot []).hashBestChain := by
  have hRun : (do
      let txdb ← BatchStore.txnBegin (nodeWithWrongRoot []).txdb
      let r ← connectBlock (env 900) ((nodeWithWrongRoot []).withTxdb txdb) wrongRoot
        wrongRootEntry false
      let out ← setBestChain (env 900) (nodeWithWrongRoot []) wrongRoot wrongRootEntry
      .ok (r.success, out.1, out.2.hashBestChain)) =
        (.ok (false, true, wrongRoot.getHash prims) : Checked (Bool × Bool × ℕ)) := by
    decide +kernel
  simp only [bind_eq_ok, Except.ok.injEq, Prod.mk.injEq] at hRun
  obtain ⟨txdb, hBegin, r, hConnect, ⟨done, st'⟩, hTip, hFailed, rfl, hHash⟩ := hRun
  refine ⟨rfl, txdb, r, st', hBegin, hConnect, hFailed, hTip, hHash, ?_⟩
  rw [hHash]
  decide +kernel

/-- When the commit fails as well, the tip stays. -/
theorem wrongRoot_keepsTip_of_failed_commit :
    ∃ txdb, BatchStore.txnBegin (nodeWithWrongRoot [false]).txdb = .ok txdb ∧
      (∃ st₁, setBestChainInner (env 900) ((nodeWithWrongRoot [false]).withTxdb txdb) wrongRoot
        wrongRootEntry = .ok (false, st₁)) ∧
      ∃ st', setBestChain (env 900) (nodeWithWrongRoot [false]) wrongRoot wrongRootEntry =
          .ok (false, st') ∧
        KeepsTip (nodeWithWrongRoot [false]) st' wrongRootEntry.pprev := by
  have hRun : (do
      let txdb ← BatchStore.txnBegin (nodeWithWrongRoot [false]).txdb
      let r ← connectBlock (env 900) ((nodeWithWrongRoot [false]).withTxdb txdb) wrongRoot
        wrongRootEntry false
      .ok r.success) = (.ok false : Checked Bool) := by
    decide +kernel
  simp only [bind_eq_ok, Except.ok.injEq] at hRun
  obtain ⟨txdb, hBegin, r, hConnect, hFailed⟩ := hRun
  exact ⟨txdb, hBegin, (failedConnection_keepsTip_iff (env 900) (nodeWithWrongRoot [false])
    wrongRoot wrongRootEntry txdb r rfl hBegin (by decide +kernel) (by decide +kernel) hConnect
    hFailed).mpr rfl⟩

end Sample

end SocietyGold
