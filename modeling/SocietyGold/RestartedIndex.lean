import SocietyGold.LoadBlockIndex
import SocietyGold.IndexAtomicity

/-!
# Memory and database in step along a run

`AddToBlockIndex` and `SetBestChain` change the block index in memory and commit
the records of the changes.  The two stay in step when a block that is connected
is committed, and when a commit fails before anything in memory has changed.
They do not when `SetBestChain` commits the tip for a block whose connection failed
or stopped early, since then the link to the block is in memory alone, nor when a
commit fails whose changes are in memory already.
-/

namespace SocietyGold

open Support

/-! ## The records that a connection writes -/

section Writes

variable {env : Env} {st : ChainState} {block : CBlock} {pindex : CBlockIndex} {key : DbKey}

theorem read_writeQueuedChanges
    (hTx : ∀ hash, key ≠ .tx hash) (changes : List (ℕ × CTxIndex)) (txdb : CTxDB) :
    (writeQueuedChanges changes txdb).2.read key = txdb.read key := by
  induction changes generalizing txdb with
  | nil => rfl
  | cons change rest ih =>
      obtain ⟨hash, txindex⟩ := change
      have hWrite : (txdb.updateTxIndex hash txindex).2.read key = txdb.read key :=
        BatchStore.read_update_of_ne txdb _ (hTx hash)
      rw [writeQueuedChanges]
      generalize txdb.updateTxIndex hash txindex = written at hWrite ⊢
      obtain ⟨done, txdb'⟩ := written
      cases done with
      | true => exact (ih txdb').trans hWrite
      | false => exact hWrite

theorem read_writeAddrIndex
    (hAdr : ∀ addrHash, key ≠ .adr addrHash) (txdb : CTxDB) (addrHash txHash : ℕ) :
    (txdb.writeAddrIndex addrHash txHash).2.read key = txdb.read key := by
  unfold CTxDB.writeAddrIndex
  split
  · exact BatchStore.read_update_of_ne txdb _ (hAdr addrHash)
  · split_ifs
    · rfl
    · exact BatchStore.read_update_of_ne txdb _ (hAdr addrHash)

theorem read_writeAddresses
    (hAdr : ∀ addrHash, key ≠ .adr addrHash) (prims : Primitives) (hashTx : ℕ)
    (vout : List CTxOut) (txdb : CTxDB) :
    (writeAddresses prims hashTx vout txdb).read key = txdb.read key := by
  unfold writeAddresses
  induction vout.flatMap fun txout => buildAddrIndex prims txout.scriptPubKey
    generalizing txdb with
  | nil => rfl
  | cons addrId rest ih => exact (ih _).trans (read_writeAddrIndex hAdr txdb addrId hashTx)

theorem read_writeAddrIndexes
    (hAdr : ∀ addrHash, key ≠ .adr addrHash) (pool : CTxMemPool) (vtx : List CTransaction)
    (txdb : CTxDB) : (writeAddrIndexes env pool vtx txdb).2.read key = txdb.read key := by
  induction vtx generalizing txdb with
  | nil => rfl
  | cons tx rest ih =>
      unfold writeAddrIndexes
      simp only
      split_ifs
      · rw [ih, read_writeAddresses hAdr]
      · rfl
      · rw [ih, read_writeAddresses hAdr, read_writeAddresses hAdr]

/-- Among the records of the block index, the writes after the loop change the one of the
previous block. -/
theorem read_writeConnected
    (hTx : ∀ hash, key ≠ .tx hash) (hAdr : ∀ addrHash, key ≠ .adr addrHash)
    {queue : Table ℕ CTxIndex} {txdb : CTxDB} {pprev : CBlockIndex}
    (hPrev : st.entry pindex.pprev = some pprev)
    (h : (writeConnected env st block pindex queue txdb).1 = true) :
    (writeConnected env st block pindex queue txdb).2.read key =
      if key = .blockindex ((CDiskBlockIndex.ofIndex pprev).getBlockHash env.prims) then
        some (.diskindex { CDiskBlockIndex.ofIndex pprev with hashNext := pindex.phashBlock })
      else txdb.read key := by
  have hQueue := read_writeQueuedChanges hTx queue.inKeyOrder txdb
  unfold writeConnected at h ⊢
  generalize writeQueuedChanges queue.inKeyOrder txdb = written at h hQueue ⊢
  obtain ⟨done, txdb₁⟩ := written
  cases done with
  | false => cases h
  | true =>
      dsimp only at h hQueue ⊢
      have hKept : (if env.addrIndexEnabled then writeAddrIndexes env st.mempool block.vtx txdb₁
          else (true, txdb₁)).2.read key = txdb₁.read key := by
        split_ifs
        · exact read_writeAddrIndexes hAdr _ _ _
        · rfl
      generalize (if env.addrIndexEnabled then writeAddrIndexes env st.mempool block.vtx txdb₁
        else (true, txdb₁)) = kept at h hKept ⊢
      obtain ⟨kept, txdb₂⟩ := kept
      cases kept with
      | false => cases h
      | true =>
          simp only [hPrev] at h hKept ⊢
          rw [← hQueue, ← hKept]
          exact BatchStore.read_update h key

/-- The records of the block index after a connection that went through. -/
theorem read_of_connectBlock
    (hTx : ∀ hash, key ≠ .tx hash) (hAdr : ∀ addrHash, key ≠ .adr addrHash)
    (hBatch : BatchStore.InBatch st.txdb) {tally : ConnectTally} {r : ConnectResult}
    {pprev : CBlockIndex} (hPrev : st.entry r.pindex.pprev = some pprev)
    (hSuccess : r.success = true)
    (hWritten : (r.success, r.txdb) = writeConnected env st block r.pindex tally.mapQueuedChanges
      (st.txdb.writeBlockIndex env.prims (CDiskBlockIndex.ofIndex r.pindex)).2) :
    r.txdb.read key =
      if key = .blockindex ((CDiskBlockIndex.ofIndex pprev).getBlockHash env.prims) then
        some (.diskindex { CDiskBlockIndex.ofIndex pprev with hashNext := r.pindex.phashBlock })
      else if key = .blockindex ((CDiskBlockIndex.ofIndex r.pindex).getBlockHash env.prims) then
        some (.diskindex (CDiskBlockIndex.ofIndex r.pindex))
      else st.txdb.read key := by
  have hDone : (st.txdb.writeBlockIndex env.prims (CDiskBlockIndex.ofIndex r.pindex)).1 = true :=
    BatchStore.update_of_inBatch hBatch _ _
  have hTrue := congrArg Prod.fst hWritten
  have hRead := congrArg (fun out => out.2.read key) hWritten
  dsimp only at hTrue hRead
  rw [hSuccess] at hTrue
  rw [hRead, read_writeConnected hTx hAdr hPrev hTrue.symm]
  have hOwn : (st.txdb.writeBlockIndex env.prims (CDiskBlockIndex.ofIndex r.pindex)).2.read key =
      if key = .blockindex ((CDiskBlockIndex.ofIndex r.pindex).getBlockHash env.prims) then
        some (.diskindex (CDiskBlockIndex.ofIndex r.pindex))
      else st.txdb.read key := BatchStore.read_update hDone key
  rw [hOwn]

end Writes

/-! ## What the calls leave of an entry -/

/-- An entry without the link forward and without what `ConnectBlock` computes. -/
def CBlockIndex.core (pindex : CBlockIndex) : CBlockIndex :=
  { pindex with pnext := none, nMint := 0, nMoneySupply := 0, nLastReward := 0 }

section Cores

variable {P : Primitives} {env : Env} {st st' : ChainState} {block : CBlock}
  {pindex pindex' : CBlockIndex} {k : ℕ}

/-- A function that depends on the core alone. -/
theorem eq_of_core
    {α : Type} (hCore : pindex'.core = pindex.core) (f : CBlockIndex → α)
    (hf : ∀ pindex : CBlockIndex, f pindex.core = f pindex) : f pindex' = f pindex := by
  rw [← hf pindex', hCore, hf]

theorem core_connectRewards
    {tally : ConnectTally} (h : connectRewards env st block pindex tally = .ok pindex') :
    pindex'.core = pindex.core := by
  unfold connectRewards connectWork connectStake at h
  by_cases hWork : block.isProofOfWork = true
  · rw [if_pos hWork] at h
    simp only [bind_eq_ok, Except.ok.injEq] at h
    obtain ⟨-, -, -, -, -, -, rfl⟩ := h
    rfl
  · rw [if_neg hWork] at h
    simp only [bind_eq_ok, Except.ok.injEq] at h
    obtain ⟨-, -, -, -, -, -, rfl⟩ := h
    rfl

theorem core_connectBlock
    (hBatch : BatchStore.InBatch st.txdb) {r : ConnectResult}
    (h : connectBlock env st block pindex false = .ok r) : r.pindex.core = pindex.core := by
  rcases connectBlock_eq_ok hBatch h with ⟨-, -, hSame⟩ | ⟨tally, -, -, hRewards, -⟩
  · rw [hSame]
  · exact core_connectRewards hRewards

/-- The entries of a block index are in another one, with the same cores. -/
def CoresIn (st st' : ChainState) : Prop :=
  ∀ k pindex, st.mapBlockIndex.lookup k = some pindex →
    ∃ pindex', st'.mapBlockIndex.lookup k = some pindex' ∧ pindex'.core = pindex.core

/-- A sound entry stays one as long as it and those below it keep their cores. -/
theorem SoundEntry.keep
    (h : SoundEntry P st k pindex) (hCore : pindex'.core = pindex.core) (hIn : CoresIn st st') :
    SoundEntry P st' k pindex' := by
  have hPrev : pindex'.pprev = pindex.pprev := eq_of_core hCore CBlockIndex.pprev fun _ => rfl
  have hTrust : pindex'.nChainTrust = pindex.nChainTrust :=
    eq_of_core hCore CBlockIndex.nChainTrust fun _ => rfl
  have hBlockTrust : pindex'.getBlockTrust = pindex.getBlockTrust :=
    eq_of_core hCore CBlockIndex.getBlockTrust fun _ => rfl
  constructor
  · exact (eq_of_core hCore CBlockIndex.phashBlock fun _ => rfl).trans h.phashBlock
  · exact h.ne_zero
  · exact (eq_of_core hCore (fun pindex => (CDiskBlockIndex.ofIndex pindex).getBlockHash P)
      fun _ => rfl).trans h.getBlockHash
  · intro hWork
    have hStake := h.stake
      ((eq_of_core hCore CBlockIndex.isProofOfStake fun _ => rfl).symm.trans hWork)
    exact ⟨(eq_of_core hCore CBlockIndex.prevoutStake fun _ => rfl).trans hStake.1,
      (eq_of_core hCore CBlockIndex.nStakeTime fun _ => rfl).trans hStake.2⟩
  · rw [hTrust, hPrev, hBlockTrust, h.nChainTrust]
    cases hp : pindex.pprev with
    | none => rfl
    | some p =>
        obtain ⟨parent, hParent, -⟩ := h.pprev p hp
        obtain ⟨parent', hParent', hParentCore⟩ := hIn p parent hParent
        have hSame : parent'.nChainTrust = parent.nChainTrust :=
          eq_of_core hParentCore CBlockIndex.nChainTrust fun _ => rfl
        simp only [ChainState.entry, Option.bind_some, hParent, hParent', Option.map_some, hSame]
  · intro p hp
    obtain ⟨parent, hParent, hAbove⟩ := h.pprev p (hPrev.symm.trans hp)
    obtain ⟨parent', hParent', hParentCore⟩ := hIn p parent hParent
    refine ⟨parent', hParent', ?_⟩
    rw [eq_of_core hCore CBlockIndex.nHeight fun _ => rfl, hAbove,
      eq_of_core hParentCore CBlockIndex.nHeight fun _ => rfl]

end Cores

/-! ## One call of SetBestChain -/

/-- Two states agree on the entries of the block index, in memory and on disk. -/
structure SameEntries (st st' : ChainState) : Prop where
  closed : st'.txdb.activeBatch = none
  mapBlockIndex : ∀ k, st'.mapBlockIndex.lookup k = st.mapBlockIndex.lookup k
  setStakeSeen : st'.setStakeSeen = st.setStakeSeen
  records : ∀ k, st'.txdb.disk.lookup (.blockindex k) = st.txdb.disk.lookup (.blockindex k)

/-- Two states agree on the block index and on the tip. -/
structure SameIndex (st st' : ChainState) : Prop extends SameEntries st st' where
  pindexBest : st'.pindexBest = st.pindexBest
  hashBestChain : st'.hashBestChain = st.hashBestChain
  nBestChainTrust : st'.nBestChainTrust = st.nBestChainTrust
  storedTip : st'.txdb.disk.lookup .hashBestChain = st.txdb.disk.lookup .hashBestChain

theorem SameIndex.refl {st : ChainState} (h : st.txdb.activeBatch = none) : SameIndex st st :=
  ⟨⟨h, fun _ => rfl, rfl, fun _ => rfl⟩, rfl, rfl, rfl, rfl⟩

theorem sameIndex_withTxdb
    {st : ChainState} {txdb : CTxDB} (hClosed : txdb.activeBatch = none)
    (hDisk : txdb.disk = st.txdb.disk) : SameIndex st (st.withTxdb txdb) :=
  ⟨⟨hClosed, fun _ => rfl, rfl, fun k => congrArg (fun disk => disk.lookup (.blockindex k)) hDisk⟩,
    rfl, rfl, rfl, congrArg (fun disk => disk.lookup .hashBestChain) hDisk⟩

/-- For a block on top of the tip that is not the genesis block: a connection that goes through
is committed, or one that changes nothing is not. -/
def ConnectsInStep (env : Env) (st : ChainState) (block : CBlock) (pindexNew : CBlockIndex) :
    Prop :=
  block.hashPrevBlock = st.hashBestChain → ¬IsGenesisStep env st block →
    ∀ txdb, BatchStore.txnBegin st.txdb = .ok txdb →
      (st.txdb.nextWriteOk = true → PassesCheckBlock env (st.withTxdb txdb) block ∧
        ConnectRunsThrough env (st.withTxdb txdb) block pindexNew ∧
        AddrIndexFits env (st.withTxdb txdb) block pindexNew) ∧
      (st.txdb.nextWriteOk = false → ¬(PassesCheckBlock env (st.withTxdb txdb) block ∧
        ConnectRunsThrough env (st.withTxdb txdb) block pindexNew))

section Call

variable {env : Env} {st st' : ChainState} {block : CBlock} {pindexNew : CBlockIndex}

/-- With the same cores, the stakes of the entries are the same. -/
theorem isEntryStake_of_coresIn
    {stake : Stake} (hIn : CoresIn st st') (h : IsEntryStake st stake) :
    IsEntryStake st' stake := by
  obtain ⟨k, pindex, hEntry, hProof, hStake⟩ := h
  obtain ⟨pindex', hEntry', hCore⟩ := hIn k pindex hEntry
  refine ⟨k, pindex', hEntry', ?_, ?_⟩
  · exact (eq_of_core hCore CBlockIndex.isProofOfStake fun _ => rfl).trans hProof
  · exact (eq_of_core hCore (fun pindex => (pindex.prevoutStake, pindex.nStakeTime))
      fun _ => rfl).trans hStake

theorem InStep.of_sameEntries
    {P : Primitives} (h : InStep P st) (hSame : SameEntries st st') (hTip : TipInStep st') :
    InStep P st' := by
  have hIn : CoresIn st st' := fun k pindex hEntry =>
    ⟨pindex, (hSame.mapBlockIndex k).trans hEntry, rfl⟩
  have hBack : CoresIn st' st := fun k pindex hEntry =>
    ⟨pindex, (hSame.mapBlockIndex k).symm.trans hEntry, rfl⟩
  constructor
  · exact hSame.closed
  · intro k pindex hEntry
    exact (h.sound k pindex ((hSame.mapBlockIndex k).symm.trans hEntry)).keep rfl hIn
  · intro k pindex n hEntry hNext
    have hMem := h.pnext k pindex n ((hSame.mapBlockIndex k).symm.trans hEntry) hNext
    rw [Table.mem_iff_lookup] at hMem ⊢
    rwa [hSame.mapBlockIndex]
  · intro k
    rw [hSame.records, h.records, hSame.mapBlockIndex]
  · intro stake
    rw [hSame.setStakeSeen, h.stakes]
    exact ⟨isEntryStake_of_coresIn hIn, isEntryStake_of_coresIn hBack⟩
  · exact hTip

theorem InStep.of_sameIndex
    {P : Primitives} (h : InStep P st) (hSame : SameIndex st st') : InStep P st' := by
  apply h.of_sameEntries hSame.toSameEntries
  have hTip := h.tip
  unfold TipInStep at hTip ⊢
  rw [hSame.pindexBest, hSame.hashBestChain, hSame.nBestChainTrust, hSame.storedTip,
    hSame.mapBlockIndex]
  exact hTip

/-- A connection that goes through succeeds. -/
theorem success_of_runsThrough
    {pindex : CBlockIndex} {r : ConnectResult} (hBatch : BatchStore.InBatch st.txdb)
    (hThrough : ConnectRunsThrough env st block pindex)
    (hPassed : PassesCheckBlock env st block) (hAddr : AddrIndexFits env st block pindex)
    (h : connectBlock env st block pindex false = .ok r) : r.success = true := by
  rcases connectBlock_spec env block pindex hBatch with
    ⟨-, hEarly, -⟩ | ⟨-, -, -, r', hRun, hSuccess, -⟩ | ⟨-, -, hFault⟩ | ⟨hNot, -⟩
  · exact absurd hEarly (not_stopsEarly_of_runsThrough hThrough)
  · obtain rfl := Except.ok.inj (h.symm.trans hRun)
    exact hSuccess.mpr hAddr
  · exact absurd h (hFault r)
  · exact absurd ⟨hPassed, Or.inr hThrough⟩ hNot

/-- A connection in step that is committed has gone through, and its records are written. -/
theorem written_of_connectsInStep
    {txdb : CTxDB} {r : ConnectResult} (hExtends : block.hashPrevBlock = st.hashBestChain)
    (hGenesis : ¬IsGenesisStep env st block) (hConnects : ConnectsInStep env st block pindexNew)
    (hBegin : BatchStore.txnBegin st.txdb = .ok txdb)
    (hConnect : connectBlock env (st.withTxdb txdb) block pindexNew false = .ok r)
    (h : setBestChain env st block pindexNew = .ok (true, st')) :
    r.success = true ∧ ∃ tally : ConnectTally, (r.success, r.txdb) =
      writeConnected env (st.withTxdb txdb) block r.pindex tally.mapQueuedChanges
        ((st.withTxdb txdb).txdb.writeBlockIndex env.prims
          (CDiskBlockIndex.ofIndex r.pindex)).2 := by
  have hBatch : BatchStore.InBatch (st.withTxdb txdb).txdb := BatchStore.inBatch_txnBegin hBegin
  have hOk : st.txdb.nextWriteOk = true := by
    obtain ⟨_, _, _, -, -, -, hDone, -⟩ := connected_of_setBestChain hExtends hGenesis h
    exact hDone.symm
  obtain ⟨hPassed, hThrough, hAddr⟩ := (hConnects hExtends hGenesis txdb hBegin).1 hOk
  refine ⟨success_of_runsThrough hBatch hThrough hPassed hAddr hConnect, ?_⟩
  rcases connectBlock_eq_ok hBatch hConnect with ⟨hNot, -⟩ | ⟨tally, -, -, -, hWritten⟩
  · exact absurd ⟨hPassed, hThrough⟩ hNot
  · exact ⟨tally, hWritten⟩

/-- The entry below another one is there, and it is not the same. -/
theorem exists_parent_of_pprev
    {P : Primitives} {hash p : ℕ} (hStep : InStep P st)
    (hEntry : st.mapBlockIndex.lookup hash = some pindexNew) (hPrev : pindexNew.pprev = some p) :
    p ≠ hash ∧ ∃ parent, st.mapBlockIndex.lookup p = some parent := by
  obtain ⟨parent, hParent, hAbove⟩ := (hStep.sound hash pindexNew hEntry).pprev p hPrev
  refine ⟨?_, parent, hParent⟩
  rintro rfl
  obtain rfl := Option.some.inj (hParent.symm.trans hEntry)
  omega

/-- What a committed connection leaves: the new entry with its rewards and the link to it are
in memory and on disk, and the block is the tip. -/
structure LinksTip (st : ChainState) (hash p : ℕ) (pindexNew parent rewarded : CBlockIndex)
    (st' : ChainState) : Prop where
  ne : p ≠ hash
  core : rewarded.core = pindexNew.core
  pnext : rewarded.pnext = pindexNew.pnext
  closed : st'.txdb.activeBatch = none
  mapBlockIndex : ∀ k, st'.mapBlockIndex.lookup k =
    if k = hash then some rewarded
    else if k = p then some { parent with pnext := some hash }
    else st.mapBlockIndex.lookup k
  setStakeSeen : st'.setStakeSeen = st.setStakeSeen
  pindexBest : st'.pindexBest = some hash
  hashBestChain : st'.hashBestChain = hash
  nBestChainTrust : st'.nBestChainTrust = pindexNew.nChainTrust
  records : ∀ k, st'.txdb.disk.lookup (.blockindex k) =
    if k = p then
      some (.diskindex (CDiskBlockIndex.ofIndex { parent with pnext := some hash }))
    else if k = hash then some (.diskindex (CDiskBlockIndex.ofIndex rewarded))
    else st.txdb.disk.lookup (.blockindex k)
  storedTip : st'.txdb.disk.lookup .hashBestChain = some (.hash hash)

/-- What a successful call leaves beside the entries. -/
theorem disk_of_setBestChain
    {txdb : CTxDB} {r : ConnectResult} (hGenesis : ¬IsGenesisStep env st block)
    (hBegin : BatchStore.txnBegin st.txdb = .ok txdb)
    (hConnect : connectBlock env (st.withTxdb txdb) block pindexNew false = .ok r)
    (h : setBestChain env st block pindexNew = .ok (true, st')) :
    st'.txdb.activeBatch = none ∧ st'.setStakeSeen = st.setStakeSeen ∧
      st'.nBestChainTrust = pindexNew.nChainTrust ∧
      ∀ key, st'.txdb.disk.lookup key =
        if key = .hashBestChain then some (.hash (block.getHash env.prims))
        else r.txdb.read key := by
  obtain ⟨_, txdb', _, st₁, hBegin', hConnect', hClosed, hRead, hAttach, rfl⟩ :=
    attached_of_setBestChain h hGenesis
  cases hBegin.symm.trans hBegin'
  cases hConnect.symm.trans hConnect'
  obtain ⟨_, _, -, -, rfl⟩ := attachTip_eq_ok hAttach
  have hStaged := (connectBlock_frame (BatchStore.inBatch_txnBegin hBegin) hConnect).1
  rw [ChainState.updateEntry_frame]
  refine ⟨hClosed, ?_, rfl, fun key => ?_⟩
  · rw [connectedState_frame]
    rfl
  · change txdb'.disk.lookup key = _
    rw [← BatchStore.read_of_not_inBatch hClosed, hRead]
    exact BatchStore.read_update (writeHashBestChain_of_inBatch hStaged.inBatch _) key

/-- A block that is connected and committed becomes the tip, in memory and on disk. -/
theorem linksTip_of_setBestChain
    (hStep : InStep env.prims st)
    (hEntry : st.mapBlockIndex.lookup (block.getHash env.prims) = some pindexNew)
    (hGenesis : ¬IsGenesisStep env st block)
    (hConnects : ConnectsInStep env st block pindexNew)
    (h : setBestChain env st block pindexNew = .ok (true, st')) :
    ∃ p parent rewarded, st.mapBlockIndex.lookup p = some parent ∧
      LinksTip st (block.getHash env.prims) p pindexNew parent rewarded st' := by
  have hSound := hStep.sound _ pindexNew hEntry
  obtain ⟨txdb, r, hBegin, hConnect, -⟩ := txIndex_of_setBestChain h hGenesis
  obtain ⟨hExtends, hBest, hHashBest, -, -, p, hPrev, hEntries⟩ :=
    setBestChain_entries hEntry hSound.phashBlock hGenesis hBegin hConnect h
  obtain ⟨hClosed, hSeen, hTrust, hDisk⟩ := disk_of_setBestChain hGenesis hBegin hConnect h
  set hash := block.getHash env.prims with hHash
  have hBatch : BatchStore.InBatch (st.withTxdb txdb).txdb := BatchStore.inBatch_txnBegin hBegin
  obtain ⟨hSuccess, tally, hWritten⟩ :=
    written_of_connectsInStep hExtends hGenesis hConnects hBegin hConnect h
  have hCore := core_connectBlock hBatch hConnect
  have hRewardedPrev : r.pindex.pprev = some p :=
    (eq_of_core hCore CBlockIndex.pprev fun _ => rfl).trans hPrev
  have hRewardedHash : r.pindex.phashBlock = hash :=
    (eq_of_core hCore CBlockIndex.phashBlock fun _ => rfl).trans hSound.phashBlock
  have hRewardedKey : (CDiskBlockIndex.ofIndex r.pindex).getBlockHash env.prims = hash :=
    (eq_of_core hCore (fun pindex => (CDiskBlockIndex.ofIndex pindex).getBlockHash env.prims)
      fun _ => rfl).trans hSound.getBlockHash
  obtain ⟨hNe, parent, hParent⟩ := exists_parent_of_pprev hStep hEntry hPrev
  refine ⟨p, parent, r.pindex, hParent, ?_⟩
  constructor
  · exact hNe
  · exact hCore
  · exact (connectBlock_frame hBatch hConnect).2.pnext
  · exact hClosed
  · intro k
    rw [hEntries]
    by_cases hk : k = hash
    · have hkp : k ≠ p := fun hEq => hNe (hEq.symm.trans hk)
      rw [if_pos hk, if_pos hk, Option.map_some, if_neg hkp]
    · rw [if_neg hk, if_neg hk]
      by_cases hkp : k = p
      · rw [if_pos hkp, hkp, hParent, Option.map_some, if_pos rfl]
      · simp only [if_neg hkp, Option.map_id']
  · exact hSeen
  · exact hBest
  · exact hHashBest
  · exact hTrust
  · intro k
    have hParentEntry : (st.withTxdb txdb).entry r.pindex.pprev = some parent := by
      rw [hRewardedPrev]
      exact hParent
    have hParentKey := (hStep.sound p parent hParent).getBlockHash
    have hBelow : (st.withTxdb txdb).txdb.read (.blockindex k) =
        st.txdb.disk.lookup (.blockindex k) :=
      (BatchStore.read_txnBegin hBegin _).trans (BatchStore.read_of_not_inBatch hStep.closed _)
    rw [hDisk, if_neg (by simp), read_of_connectBlock (by simp) (by simp) hBatch hParentEntry
      hSuccess hWritten, hParentKey, hRewardedKey, hRewardedHash, hBelow]
    simp only [DbKey.blockindex.injEq]
    rfl
  · rw [hDisk, if_pos rfl]

theorem InStep.of_linksTip
    {P : Primitives} {hash p : ℕ} {parent rewarded : CBlockIndex} (hStep : InStep P st)
    (hEntry : st.mapBlockIndex.lookup hash = some pindexNew)
    (hParent : st.mapBlockIndex.lookup p = some parent)
    (h : LinksTip st hash p pindexNew parent rewarded st') : InStep P st' := by
  have hIn : CoresIn st st' := by
    intro k pindex hk
    rw [h.mapBlockIndex]
    split_ifs with hNew hBelow
    · rw [hNew, hEntry] at hk
      obtain rfl := Option.some.inj hk
      exact ⟨rewarded, rfl, h.core⟩
    · rw [hBelow, hParent] at hk
      obtain rfl := Option.some.inj hk
      exact ⟨_, rfl, rfl⟩
    · exact ⟨pindex, hk, rfl⟩
  have hBack : CoresIn st' st := by
    intro k pindex hk
    rw [h.mapBlockIndex] at hk
    split_ifs at hk with hNew hBelow
    · obtain rfl := Option.some.inj hk
      exact ⟨pindexNew, hNew ▸ hEntry, h.core.symm⟩
    · obtain rfl := Option.some.inj hk
      exact ⟨parent, hBelow ▸ hParent, rfl⟩
    · exact ⟨pindex, hk, rfl⟩
  have hMem : ∀ n ∈ st.mapBlockIndex, n ∈ st'.mapBlockIndex := by
    intro n hn
    obtain ⟨next, hNext⟩ := Table.mem_iff_lookup.mp hn
    obtain ⟨next', hNext', -⟩ := hIn n next hNext
    exact Table.mem_iff_lookup.mpr ⟨next', hNext'⟩
  constructor
  · exact h.closed
  · intro k pindex hk
    obtain ⟨old, hOld, hCore⟩ := hBack k pindex hk
    exact (hStep.sound k old hOld).keep hCore.symm hIn
  · intro k pindex n hk hNext
    rw [h.mapBlockIndex] at hk
    split_ifs at hk with hNew hBelow
    · obtain rfl := Option.some.inj hk
      exact hMem n (hStep.pnext hash pindexNew n hEntry (h.pnext.symm.trans hNext))
    · obtain rfl := Option.some.inj hk
      obtain rfl := Option.some.inj hNext
      exact hMem hash (Table.mem_iff_lookup.mpr ⟨pindexNew, hEntry⟩)
    · exact hMem n (hStep.pnext k pindex n hk hNext)
  · intro k
    rw [h.records, h.mapBlockIndex, hStep.records]
    by_cases hNew : k = hash
    · have hNotBelow : k ≠ p := fun hEq => h.ne (hEq.symm.trans hNew)
      rw [if_neg hNotBelow, if_pos hNew, if_pos hNew]
      rfl
    · rw [if_neg hNew, if_neg hNew]
      split_ifs <;> rfl
  · intro stake
    rw [h.setStakeSeen, hStep.stakes]
    exact ⟨isEntryStake_of_coresIn hIn, isEntryStake_of_coresIn hBack⟩
  · right
    rw [h.hashBestChain, h.mapBlockIndex, if_pos rfl, h.nBestChainTrust]
    exact ⟨h.pindexBest,
      ⟨rewarded, rfl, (eq_of_core h.core CBlockIndex.nChainTrust fun _ => rfl).symm⟩, h.storedTip⟩

/-- A connection that changed nothing and was not committed. -/
theorem sameIndex_of_failedCommit
    {txdb txdb' : CTxDB} {r : ConnectResult} (hClosed : txdb'.activeBatch = none)
    (hDisk : txdb'.disk = st.txdb.disk) (hSame : r.pindex = pindexNew)
    (hEntry : st.mapBlockIndex.lookup pindexNew.phashBlock = some pindexNew) :
    SameIndex st (connectedState (st.withTxdb txdb) r txdb') := by
  have hFrame := connectedState_frame (st.withTxdb txdb) r txdb'
  have hLookup : ∀ k, (connectedState (st.withTxdb txdb) r txdb').mapBlockIndex.lookup k =
      st.mapBlockIndex.lookup k := by
    intro k
    refine (ChainState.lookup_updateEntry (st.withTxdb txdb) _ _ _).trans ?_
    rw [hSame]
    split_ifs with hk
    · rw [hk, hEntry]
      change (st.mapBlockIndex.lookup pindexNew.phashBlock).map _ = _
      rw [hEntry]
      rfl
    · rfl
  rw [hFrame] at hLookup ⊢
  have hSameDb := sameIndex_withTxdb hClosed hDisk
  exact ⟨⟨hClosed, hLookup, rfl, hSameDb.records⟩, rfl, rfl, rfl, hSameDb.storedTip⟩

/-- A call of `SetBestChain` with the entry of its block. -/
theorem InStep.of_setBestChain
    {done : Bool} (hStep : InStep env.prims st)
    (hEntry : st.mapBlockIndex.lookup (block.getHash env.prims) = some pindexNew)
    (hConnects : ConnectsInStep env st block pindexNew)
    (h : setBestChain env st block pindexNew = .ok (done, st')) : InStep env.prims st' := by
  have hSound := hStep.sound _ pindexNew hEntry
  by_cases hExtends : block.hashPrevBlock = st.hashBestChain
  · by_cases hGenesis : IsGenesisStep env st block
    · obtain ⟨-, txdb', hClosed, hDisk, hRead, rfl⟩ := genesis_of_setBestChain hExtends hGenesis h
      cases done with
      | false =>
          rw [if_neg Bool.false_ne_true]
          exact hStep.of_sameIndex (sameIndex_withTxdb hClosed (hDisk rfl))
      | true =>
          have hDisk : ∀ key, txdb'.disk.lookup key =
              if key = .hashBestChain then some (.hash (block.getHash env.prims))
              else st.txdb.disk.lookup key := by
            intro key
            rw [← BatchStore.read_of_not_inBatch hClosed, hRead rfl,
              BatchStore.read_of_not_inBatch hStep.closed]
          apply hStep.of_sameEntries
          · exact ⟨hClosed, fun _ => rfl, rfl, fun k => (hDisk _).trans (if_neg (by simp))⟩
          · exact Or.inr ⟨congrArg some hSound.phashBlock, ⟨pindexNew, hEntry, rfl⟩,
              (hDisk _).trans (if_pos rfl)⟩
    · cases done with
      | false =>
          obtain ⟨txdb, txdb', r, hBegin, hConnect, hClosed, hFailed, hDisk, -, hEnd⟩ :=
            connected_of_setBestChain hExtends hGenesis h
          have hBatch : BatchStore.InBatch (st.withTxdb txdb).txdb :=
            BatchStore.inBatch_txnBegin hBegin
          have hStops := (hConnects hExtends hGenesis txdb hBegin).2 hFailed.symm
          have hSame : r.pindex = pindexNew := by
            rcases connectBlock_eq_ok hBatch hConnect with
              ⟨-, -, hSame⟩ | ⟨-, hPassed, hThrough, -⟩
            · exact hSame
            · exact absurd ⟨hPassed, hThrough⟩ hStops
          obtain rfl : st' = connectedState (st.withTxdb txdb) r txdb' := by
            rcases hEnd with ⟨-, hState⟩ | ⟨hTrue, -⟩
            · exact hState
            · cases hTrue
          exact hStep.of_sameIndex (sameIndex_of_failedCommit hClosed (hDisk rfl) hSame
            (by rw [hSound.phashBlock]; exact hEntry))
      | true =>
          obtain ⟨p, parent, rewarded, hParent, hLinks⟩ :=
            linksTip_of_setBestChain hStep hEntry hGenesis hConnects h
          exact hStep.of_linksTip hEntry hParent hLinks
  · rw [setBestChain, if_pos hExtends] at h
    obtain rfl := congrArg Prod.snd (Except.ok.inj h)
    exact hStep

end Call

/-! ## One call of AddToBlockIndex -/

/-- A database once the record of a new entry is committed to it. -/
def CTxDB.withRecord (txdb : CTxDB) (prims : Primitives) (pindexNew : CBlockIndex) : CTxDB where
  disk := txdb.disk.insert
    (.blockindex ((CDiskBlockIndex.ofIndex pindexNew).getBlockHash prims))
    (.diskindex (CDiskBlockIndex.ofIndex pindexNew))
  activeBatch := none
  outcomes := txdb.outcomes.tail

/-- The state once `AddToBlockIndex` has entered a block, before it calls `SetBestChain`. -/
def enteredState (env : Env) (st : ChainState) (block : CBlock) (pindexNew : CBlockIndex) :
    ChainState :=
  (insertEntry st (block.getHash env.prims) pindexNew).withTxdb
    (st.txdb.withRecord env.prims pindexNew)

/-- A block is refused, or its record is committed and `SetBestChain`, if it is called, keeps
memory and database in step.  No block may have the hash that stands for no block. -/
def AddsInStep (env : Env) (st : ChainState) (block : CBlock) (nFile nBlockPos hashProof : ℕ) :
    Prop :=
  RefusesEntry env st block nFile nBlockPos hashProof ∨
    block.getHash env.prims ≠ 0 ∧ st.txdb.nextWriteOk = true ∧
      (HasMoreTrust env st block nFile nBlockPos hashProof → ∀ nModifier fGenerated,
        computeNextStakeModifier env st
            (st.entry (newIndexEntry env st block nFile nBlockPos hashProof).pprev) =
          some (nModifier, fGenerated) →
        ConnectsInStep env
          (enteredState env st block ((newIndexEntry env st block nFile nBlockPos
            hashProof).setStakeModifier nModifier fGenerated)) block
          ((newIndexEntry env st block nFile nBlockPos hashProof).setStakeModifier nModifier
            fGenerated))

section Enter

variable {env : Env} {st st' : ChainState} {block : CBlock} {nFile nBlockPos hashProof : ℕ}
  {nModifier : ℕ} {fGenerated : Bool} {pindexNew : CBlockIndex}

theorem commit_withRecord
    {txdb : CTxDB} (hClosed : txdb.activeBatch = none) (hOk : txdb.nextWriteOk = true)
    (prims : Primitives) (pindexNew : CBlockIndex) :
    ∃ opened, BatchStore.txnBegin txdb = .ok opened ∧
      BatchStore.txnCommit
          (CTxDB.writeBlockIndex opened prims (CDiskBlockIndex.ofIndex pindexNew)).2 =
        .ok (true, txdb.withRecord prims pindexNew) := by
  obtain ⟨disk, batch, outcomes⟩ := txdb
  obtain rfl : batch = none := hClosed
  refine ⟨⟨disk, some [], outcomes⟩, rfl, ?_⟩
  cases outcomes with
  | nil => rfl
  | cons done rest =>
      obtain rfl : done = true := hOk
      rfl

/-- The previous block of a new entry, with its height. -/
theorem parent_newIndexEntry
    {p : ℕ} (h : (newIndexEntry env st block nFile nBlockPos hashProof).pprev = some p) :
    p = block.hashPrevBlock ∧ ∃ parent, st.mapBlockIndex.lookup p = some parent ∧
      (newIndexEntry env st block nFile nBlockPos hashProof).nHeight = parent.nHeight + 1 := by
  unfold newIndexEntry at h ⊢
  cases hPrev : st.mapBlockIndex.lookup block.hashPrevBlock with
  | none =>
      rw [hPrev] at h
      cases h
  | some parent =>
      rw [hPrev] at h
      obtain rfl := Option.some.inj h
      exact ⟨rfl, parent, hPrev, rfl⟩

/-- The header of a new entry is the header of its block. -/
theorem getBlockHash_newIndexEntry
    (hStep : InStep env.prims st) (hExtends : block.hashPrevBlock = st.hashBestChain) :
    (CDiskBlockIndex.ofIndex ((newIndexEntry env st block nFile nBlockPos
        hashProof).setStakeModifier nModifier fGenerated)).getBlockHash env.prims =
      block.getHash env.prims := by
  have hPrev : (newIndexEntry env st block nFile nBlockPos hashProof).pprev =
      if block.hashPrevBlock ∈ st.mapBlockIndex then some block.hashPrevBlock else none :=
    pprev_newIndexEntry
  have hZero : (newIndexEntry env st block nFile nBlockPos hashProof).pprev.getD 0 =
      block.hashPrevBlock := by
    rw [hPrev]
    split_ifs with hMem
    · rfl
    · rcases hStep.tip with ⟨-, hNone, -⟩ | ⟨-, ⟨pindexBest, hBest, -⟩, -⟩
      · exact (hExtends.trans hNone).symm
      · rw [hExtends] at hMem
        exact absurd (Table.mem_iff_lookup.mpr ⟨pindexBest, hBest⟩) hMem
  have hHeader : (CDiskBlockIndex.ofIndex ((newIndexEntry env st block nFile nBlockPos
      hashProof).setStakeModifier nModifier fGenerated)).header =
      { block.toCBlockHeader with
        hashPrevBlock :=
          (newIndexEntry env st block nFile nBlockPos hashProof).pprev.getD 0 } := by
    unfold newIndexEntry
    cases st.mapBlockIndex.lookup block.hashPrevBlock <;> rfl
  rw [CDiskBlockIndex.getBlockHash, hHeader, hZero]
  rfl

theorem getProofOfStake_of_not_stake
    (h : block.isProofOfStake = false) : block.getProofOfStake = (COutPoint.null, 0) := by
  unfold CBlock.isProofOfStake at h
  unfold CBlock.getProofOfStake
  split
  · rename_i tx _ hVtx
    rw [hVtx] at h
    dsimp only at h
    rw [h]
  · rfl

theorem lookup_enteredState
    (hNew : block.getHash env.prims ∉ st.mapBlockIndex) (k : ℕ) :
    (enteredState env st block pindexNew).mapBlockIndex.lookup k =
      if k = block.getHash env.prims then some pindexNew else st.mapBlockIndex.lookup k := by
  change (insertEntry st (block.getHash env.prims) pindexNew).mapBlockIndex.lookup k = _
  rw [insertEntry, if_neg hNew, Table.lookup_insert_ite]

theorem coresIn_enteredState
    (hNew : block.getHash env.prims ∉ st.mapBlockIndex) :
    CoresIn st (enteredState env st block pindexNew) := by
  intro k pindex hEntry
  have hNe : k ≠ block.getHash env.prims := by
    rintro rfl
    exact hNew (Table.mem_iff_lookup.mpr ⟨pindex, hEntry⟩)
  refine ⟨pindex, ?_, rfl⟩
  rw [lookup_enteredState hNew, if_neg hNe, hEntry]

/-- The stakes of the entries, with the one of the new entry. -/
theorem isEntryStake_enteredState
    {stake : Stake} (hNew : block.getHash env.prims ∉ st.mapBlockIndex) :
    IsEntryStake (enteredState env st block pindexNew) stake ↔
      (pindexNew.isProofOfStake = true ∧
        (pindexNew.prevoutStake, pindexNew.nStakeTime) = stake) ∨ IsEntryStake st stake := by
  constructor
  · rintro ⟨k, pindex, hEntry, hProof, hStake⟩
    rw [lookup_enteredState hNew] at hEntry
    split_ifs at hEntry
    · obtain rfl := Option.some.inj hEntry
      exact Or.inl ⟨hProof, hStake⟩
    · exact Or.inr ⟨k, pindex, hEntry, hProof, hStake⟩
  · rintro (⟨hProof, hStake⟩ | hOld)
    · refine ⟨block.getHash env.prims, pindexNew, ?_, hProof, hStake⟩
      rw [lookup_enteredState hNew, if_pos rfl]
    · exact isEntryStake_of_coresIn (coresIn_enteredState hNew) hOld

/-- The new entry is sound. -/
theorem soundEntry_enteredState
    (hStep : InStep env.prims st)
    (hNot : ¬RefusesEntry env st block nFile nBlockPos hashProof)
    (hNonzero : block.getHash env.prims ≠ 0)
    (hPindex : pindexNew = (newIndexEntry env st block nFile nBlockPos hashProof).setStakeModifier
      nModifier fGenerated) :
    SoundEntry env.prims (enteredState env st block pindexNew) (block.getHash env.prims)
      pindexNew := by
  obtain ⟨hNew, hExtends⟩ := not_refusesEntry hNot
  -- the entry below the new one is the one it was
  have hKept : ∀ p, pindexNew.pprev = some p → ∃ parent,
      (enteredState env st block pindexNew).mapBlockIndex.lookup p = some parent ∧
      st.mapBlockIndex.lookup p = some parent ∧ pindexNew.nHeight = parent.nHeight + 1 := by
    intro p hp
    rw [hPindex] at hp
    have hPrev : (newIndexEntry env st block nFile nBlockPos hashProof).pprev = some p := hp
    obtain ⟨-, parent, hParent, hAbove⟩ := parent_newIndexEntry hPrev
    have hNe : p ≠ block.getHash env.prims := by
      rintro rfl
      exact hNew (Table.mem_iff_lookup.mpr ⟨parent, hParent⟩)
    refine ⟨parent, ?_, hParent, ?_⟩
    · rw [lookup_enteredState hNew, if_neg hNe, hParent]
    · rw [hPindex]
      exact hAbove
  constructor
  · rw [hPindex]
    exact phashBlock_newIndexEntry env st block nFile nBlockPos hashProof
  · exact hNonzero
  · rw [hPindex]
    exact getBlockHash_newIndexEntry hStep hExtends
  · intro hWork
    rw [hPindex, isProofOfStake_newIndexEntry] at hWork
    have hStake := stake_newIndexEntry env st block nFile nBlockPos hashProof
    rw [getProofOfStake_of_not_stake hWork] at hStake
    rw [hPindex]
    exact Prod.mk.inj hStake
  · have hPrevTrust : (((enteredState env st block pindexNew).entry pindexNew.pprev).map
        CBlockIndex.nChainTrust).getD 0 =
        ((st.entry pindexNew.pprev).map CBlockIndex.nChainTrust).getD 0 := by
      cases hp : pindexNew.pprev with
      | none => rfl
      | some p =>
          obtain ⟨parent, hAfter, hBefore, -⟩ := hKept p hp
          simp only [ChainState.entry, Option.bind_some, hAfter, hBefore]
    rw [hPrevTrust, hPindex]
    unfold newIndexEntry
    cases st.mapBlockIndex.lookup block.hashPrevBlock <;> rfl
  · intro p hp
    obtain ⟨parent, hAfter, -, hAbove⟩ := hKept p hp
    exact ⟨parent, hAfter, hAbove⟩

/-- Once a block is entered and its record is committed, memory and database are in step. -/
theorem InStep.enteredState
    (hStep : InStep env.prims st)
    (hNot : ¬RefusesEntry env st block nFile nBlockPos hashProof)
    (hNonzero : block.getHash env.prims ≠ 0)
    (hPindex : pindexNew = (newIndexEntry env st block nFile nBlockPos hashProof).setStakeModifier
      nModifier fGenerated) :
    InStep env.prims (enteredState env st block pindexNew) := by
  have hNew := (not_refusesEntry hNot).1
  have hLookup : ∀ k, (SocietyGold.enteredState env st block pindexNew).mapBlockIndex.lookup k =
      if k = block.getHash env.prims then some pindexNew else st.mapBlockIndex.lookup k :=
    lookup_enteredState hNew
  have hIn : CoresIn st (SocietyGold.enteredState env st block pindexNew) :=
    coresIn_enteredState hNew
  have hSound := soundEntry_enteredState hStep hNot hNonzero hPindex
  have hNoNext : pindexNew.pnext = none := by
    rw [hPindex]
    unfold newIndexEntry
    cases st.mapBlockIndex.lookup block.hashPrevBlock <;> rfl
  have hDisk : ∀ key, (SocietyGold.enteredState env st block pindexNew).txdb.disk.lookup key =
      if key = .blockindex (block.getHash env.prims) then
        some (.diskindex (CDiskBlockIndex.ofIndex pindexNew))
      else st.txdb.disk.lookup key := by
    intro key
    rw [← hSound.getBlockHash]
    exact Table.lookup_insert_ite _ _ _ _
  constructor
  · rfl
  · intro k pindex hEntry
    rw [hLookup] at hEntry
    split_ifs at hEntry with hk
    · obtain rfl := Option.some.inj hEntry
      rw [hk]
      exact hSound
    · exact (hStep.sound k pindex hEntry).keep rfl hIn
  · intro k pindex n hEntry hNext
    rw [hLookup] at hEntry
    split_ifs at hEntry with hk
    · obtain rfl := Option.some.inj hEntry
      rw [hNoNext] at hNext
      cases hNext
    · obtain ⟨next, hLookupNext⟩ := Table.mem_iff_lookup.mp (hStep.pnext k pindex n hEntry hNext)
      obtain ⟨next', hNext', -⟩ := hIn n next hLookupNext
      exact Table.mem_iff_lookup.mpr ⟨next', hNext'⟩
  · intro k
    rw [hDisk, hLookup]
    simp only [DbKey.blockindex.injEq]
    split_ifs
    · rfl
    · exact hStep.records k
  · intro stake
    have hSeen : (SocietyGold.enteredState env st block pindexNew).setStakeSeen =
        if pindexNew.isProofOfStake then
          insert (pindexNew.prevoutStake, pindexNew.nStakeTime) st.setStakeSeen
        else st.setStakeSeen := rfl
    rw [hSeen, isEntryStake_enteredState hNew, ← hStep.stakes]
    cases pindexNew.isProofOfStake with
    | true => simp only [if_true, Finset.mem_insert, true_and, eq_comm]
    | false => simp only [Bool.false_eq_true, if_false, false_and, false_or]
  · have hTip := hStep.tip
    unfold TipInStep at hTip ⊢
    rw [hDisk, if_neg (by simp)]
    rcases hTip with hNone | ⟨hBest, ⟨pindexBest, hEntry, hTrust⟩, hStored⟩
    · exact Or.inl hNone
    · obtain ⟨pindexBest', hEntry', hCore⟩ := hIn _ pindexBest hEntry
      exact Or.inr ⟨hBest, ⟨pindexBest', hEntry', hTrust.trans
        (eq_of_core hCore CBlockIndex.nChainTrust fun _ => rfl).symm⟩, hStored⟩

/-- What is left of `AddToBlockIndex` once the record of the new entry is committed. -/
theorem writeNewEntry_of_committed
    (hClosed : st.txdb.activeBatch = none) (hOk : st.txdb.nextWriteOk = true) :
    writeNewEntry env (insertEntry st (block.getHash env.prims) pindexNew) block pindexNew =
      if pindexNew.nChainTrust > st.nBestChainTrust then do
        let (best, st') ← setBestChain env (enteredState env st block pindexNew) block pindexNew
        if !best then .ok (false, st') else notifyTip st' block pindexNew
      else notifyTip (enteredState env st block pindexNew) block pindexNew := by
  obtain ⟨opened, hBegin, hCommit⟩ := commit_withRecord hClosed hOk env.prims pindexNew
  have hOpened : BatchStore.txnBegin (insertEntry st (block.getHash env.prims) pindexNew).txdb =
      .ok opened := hBegin
  unfold writeNewEntry
  simp only [hOpened, ok_bind, hCommit]
  rfl

/-- `AddToBlockIndex` refuses a block, or enters it. -/
theorem addToBlockIndex_entered
    {fromNode added : Bool} (hClosed : st.txdb.activeBatch = none)
    (h : addToBlockIndex env fromNode st block nFile nBlockPos hashProof = .ok (added, st')) :
    (RefusesEntry env st block nFile nBlockPos hashProof ∧ st' = st) ∨
    (¬RefusesEntry env st block nFile nBlockPos hashProof ∧
      (st.txdb.nextWriteOk = true → ∃ nModifier fGenerated pindexNew,
        computeNextStakeModifier env st
            (st.entry (newIndexEntry env st block nFile nBlockPos hashProof).pprev) =
          some (nModifier, fGenerated) ∧
        pindexNew = (newIndexEntry env st block nFile nBlockPos hashProof).setStakeModifier
          nModifier fGenerated ∧
        (st' = enteredState env st block pindexNew ∨
          HasMoreTrust env st block nFile nBlockPos hashProof ∧ ∃ best,
            setBestChain env (enteredState env st block pindexNew) block pindexNew =
              .ok (best, st')))) := by
  by_cases hRefuses : RefusesEntry env st block nFile nBlockPos hashProof
  · rcases addToBlockIndex_spec isTreeView_place h with ⟨-, -, hSame⟩ | ⟨hNot, -⟩
    · exact Or.inl ⟨hRefuses, hSame⟩
    · exact absurd hRefuses hNot
  · right
    refine ⟨hRefuses, fun hOk => ?_⟩
    obtain ⟨hNew, hExtends⟩ := not_refusesEntry hRefuses
    unfold addToBlockIndex at h
    rw [if_neg hNew, if_neg (not_not.mpr hExtends)] at h
    cases hModifier : computeNextStakeModifier env st
        (st.entry (newIndexEntry env st block nFile nBlockPos hashProof).pprev) with
    | none => exact absurd (Or.inr (Or.inr hModifier)) hRefuses
    | some modifier =>
        obtain ⟨nModifier, fGenerated⟩ := modifier
        simp only [hModifier] at h
        refine ⟨nModifier, fGenerated, _, rfl, rfl, ?_⟩
        set pindexNew := (newIndexEntry env st block nFile nBlockPos hashProof).setStakeModifier
          nModifier fGenerated with hPindex
        rw [writeNewEntry_of_committed hClosed hOk] at h
        by_cases hTrust : pindexNew.nChainTrust > st.nBestChainTrust
        · rw [if_pos hTrust] at h
          obtain ⟨⟨best, st₁⟩, hBest, h⟩ := bind_eq_ok.mp h
          right
          refine ⟨hTrust, best, ?_⟩
          cases best with
          | false =>
              obtain rfl := congrArg Prod.snd (Except.ok.inj h)
              exact hBest
          | true =>
              obtain rfl := congrArg Prod.snd (notifyTip_eq_ok h)
              exact hBest
        · rw [if_neg hTrust] at h
          exact Or.inl (congrArg Prod.snd (notifyTip_eq_ok h))

/-- A call of `AddToBlockIndex`. -/
theorem InStep.of_addToBlockIndex
    {fromNode added : Bool} (hStep : InStep env.prims st)
    (hAdds : AddsInStep env st block nFile nBlockPos hashProof)
    (h : addToBlockIndex env fromNode st block nFile nBlockPos hashProof = .ok (added, st')) :
    InStep env.prims st' := by
  rcases addToBlockIndex_entered hStep.closed h with ⟨-, rfl⟩ | ⟨hNot, hEnters⟩
  · exact hStep
  · obtain ⟨hNonzero, hOk, hBest⟩ := hAdds.resolve_left hNot
    obtain ⟨nModifier, fGenerated, pindexNew, hModifier, hPindex, hEnd⟩ := hEnters hOk
    have hEntered := hStep.enteredState hNot hNonzero hPindex
    rcases hEnd with rfl | ⟨hTrust, best, hCall⟩
    · exact hEntered
    · have hConnects := hBest hTrust nModifier fGenerated hModifier
      rw [← hPindex] at hConnects
      apply hEntered.of_setBestChain _ hConnects hCall
      rw [lookup_enteredState (not_refusesEntry hNot).1, if_pos rfl]

end Enter

/-! ## Runs -/

/-- A call of one of the two functions. -/
inductive IndexCall
  | addToBlockIndex (fromNode : Bool) (block : CBlock) (nFile nBlockPos hashProof : ℕ)
  | setBestChain (block : CBlock) (pindexNew : CBlockIndex)

namespace IndexCall

def run (env : Env) (st : ChainState) : IndexCall → Checked Outcome
  | .addToBlockIndex fromNode block nFile nBlockPos hashProof =>
      SocietyGold.addToBlockIndex env fromNode st block nFile nBlockPos hashProof
  | .setBestChain block pindexNew => SocietyGold.setBestChain env st block pindexNew

/-- `SetBestChain` is called with the entry of the block. -/
def HasEntry (env : Env) (st : ChainState) : IndexCall → Prop
  | .addToBlockIndex _ _ _ _ _ => True
  | .setBestChain block pindexNew =>
      st.mapBlockIndex.lookup (block.getHash env.prims) = some pindexNew

/-- The call keeps memory and database in step. -/
def KeepsStep (env : Env) (st : ChainState) : IndexCall → Prop
  | .addToBlockIndex _ block nFile nBlockPos hashProof =>
      AddsInStep env st block nFile nBlockPos hashProof
  | .setBestChain block pindexNew => ConnectsInStep env st block pindexNew

end IndexCall

/-- Other code changes what is no part of the block index, and then a call returns. -/
def IndexStep (P : Primitives) (Meets : Env → ChainState → IndexCall → Prop) (st : ChainState)
    (calls : List IndexCall) (st' : ChainState) : Prop :=
  ∃ env st₁ call done, env.prims = P ∧ SameIndex st st₁ ∧ call.HasEntry env st₁ ∧
    Meets env st₁ call ∧ call.run env st₁ = .ok (done, st') ∧ calls = [call]

/-- A node that has neither blocks nor records of them. -/
structure IsNewNode (st : ChainState) : Prop where
  closed : st.txdb.activeBatch = none
  mapBlockIndex : ∀ k, st.mapBlockIndex.lookup k = none
  setStakeSeen : st.setStakeSeen = ∅
  pindexBest : st.pindexBest = none
  hashBestChain : st.hashBestChain = 0
  nBestChainTrust : st.nBestChainTrust = 0
  records : ∀ k, st.txdb.disk.lookup (.blockindex k) = none
  storedTip : st.txdb.disk.lookup .hashBestChain = none

theorem IsNewNode.inStep (P : Primitives) {st : ChainState} (h : IsNewNode st) : InStep P st where
  closed := h.closed
  sound k pindex hEntry := by
    rw [h.mapBlockIndex] at hEntry
    cases hEntry
  pnext k pindex n hEntry := by
    rw [h.mapBlockIndex] at hEntry
    cases hEntry
  records k := by rw [h.records, h.mapBlockIndex, Option.map_none]
  stakes stake := by
    rw [h.setStakeSeen]
    constructor
    · intro hMem
      exact absurd hMem (Finset.notMem_empty stake)
    · rintro ⟨k, pindex, hEntry, -⟩
      rw [h.mapBlockIndex] at hEntry
      cases hEntry
  tip := Or.inl ⟨h.pindexBest, h.hashBestChain, h.nBestChainTrust, h.storedTip⟩

theorem InStep.of_indexStep
    {P : Primitives} {st st' : ChainState} {calls : List IndexCall} (hStep : InStep P st)
    (h : IndexStep P IndexCall.KeepsStep st calls st') : InStep P st' := by
  obtain ⟨env, st₁, call, done, rfl, hSame, hEntry, hKeeps, hRun, -⟩ := h
  have hBefore := hStep.of_sameIndex hSame
  cases call with
  | addToBlockIndex fromNode block nFile nBlockPos hashProof =>
      exact hBefore.of_addToBlockIndex hKeeps hRun
  | setBestChain block pindexNew => exact hBefore.of_setBestChain hEntry hKeeps hRun

/-- Whatever state a new node has reached by calls that keep memory and database in step, a
restart rebuilds the block index. -/
theorem restartRebuilds_of_run
    {P : Primitives} {st₀ st : ChainState} {calls : List IndexCall} (hNew : IsNewNode st₀)
    (hRun : Trace (IndexStep P IndexCall.KeepsStep) st₀ calls st) : RestartRebuilds P st := by
  apply restartRebuilds_of_inStep
  exact Trace.invariant (I := fun _ st => InStep P st) (hNew.inStep P)
    (fun _ _ _ _ hStep h => hStep.of_indexStep h) hRun

/-! ## A new node and its first block -/

namespace Sample

theorem isNewNode_emptyState (outcomes : List Bool) :
    IsNewNode { emptyState with txdb := ⟨∅, none, outcomes⟩ } := by
  constructor <;> intros <;> rfl

/-- A second block. -/
def secondBlock : CBlock := sealed (firstBlock.getHash prims) 1000 [coinbase 1000 1 100]

/-- The node once the first block is its tip. -/
def afterFirst : ChainState :=
  (addToBlockIndex firstEnv true emptyState firstBlock 1 200 1).toOption.elim emptyState Prod.snd

theorem firstBlock_step :
    IndexStep prims IndexCall.KeepsStep emptyState [.addToBlockIndex true firstBlock 1 200 1]
      afterFirst := by
  have hRun : ∃ out, addToBlockIndex firstEnv true emptyState firstBlock 1 200 1 = .ok out ∧
      out.1 = true := by
    apply exists_ok_of_test
    decide +kernel
  obtain ⟨⟨added, st⟩, hAdd, rfl⟩ := hRun
  have hAfter : afterFirst = st := by rw [afterFirst, hAdd]; rfl
  have hAdds : AddsInStep firstEnv emptyState firstBlock 1 200 1 := by
    refine Or.inr ⟨by decide +kernel, rfl, ?_⟩
    intro _ nModifier fGenerated _ _ hNot
    have hFirst : IsGenesisStep firstEnv (enteredState firstEnv emptyState firstBlock
        ((newIndexEntry firstEnv emptyState firstBlock 1 200 1).setStakeModifier nModifier
          fGenerated)) firstBlock := ⟨rfl, rfl⟩
    exact absurd hFirst hNot
  rw [hAfter]
  exact ⟨firstEnv, emptyState, .addToBlockIndex true firstBlock 1 200 1, true, rfl,
    SameIndex.refl rfl, trivial, hAdds, hAdd, rfl⟩

/-- The second block is connected when it is entered. -/
theorem secondBlock_addsInStep : AddsInStep firstEnv afterFirst secondBlock 1 400 1 := by
  refine Or.inr ⟨by decide +kernel, by decide +kernel, ?_⟩
  intro _ nModifier fGenerated hModifier _ _ txdb hBegin
  have hComputed : computeNextStakeModifier firstEnv afterFirst
      (afterFirst.entry (newIndexEntry firstEnv afterFirst secondBlock 1 400 1).pprev) =
      some (0, false) := by decide +kernel
  obtain ⟨rfl, rfl⟩ := Prod.mk.inj (Option.some.inj (hModifier.symm.trans hComputed))
  set pindexNew := (newIndexEntry firstEnv afterFirst secondBlock 1 400 1).setStakeModifier 0
    false with hNew
  set entered := enteredState firstEnv afterFirst secondBlock pindexNew with hEntered
  have hRun : ∃ opened, entered.txdb.txnBegin = .ok opened ∧
      ((connectBlock firstEnv (entered.withTxdb opened) secondBlock pindexNew false).map
        fun r => (r.success, r.pindex.nMoneySupply)) = .ok (true, 100) := by
    apply exists_ok_of_test
    decide +kernel
  obtain ⟨opened, hOpened, hConnect⟩ := hRun
  obtain rfl := Except.ok.inj (hBegin.symm.trans hOpened)
  have hOk : entered.txdb.nextWriteOk = true := by decide +kernel
  refine ⟨fun _ => ?_, fun hFailed => absurd (hOk.symm.trans hFailed) (by decide)⟩
  cases hResult : connectBlock firstEnv (entered.withTxdb txdb) secondBlock pindexNew false with
  | error fault =>
      rw [hResult] at hConnect
      cases hConnect
  | ok r =>
      rw [hResult] at hConnect
      have hSupply : r.pindex.nMoneySupply = 100 :=
        congrArg Prod.snd (Except.ok.inj hConnect)
      rcases connectBlock_eq_ok (BatchStore.inBatch_txnBegin hBegin) hResult with
        ⟨-, -, hSame⟩ | ⟨-, hPassed, hThrough, -⟩
      · rw [hSame] at hSupply
        exact absurd hSupply (by decide +kernel)
      · refine ⟨hPassed, hThrough, fun hEnabled => ?_⟩
        cases hEnabled

/-- Two blocks of a new node are there after a restart. -/
theorem secondBlock_restarted :
    ∃ st, addToBlockIndex firstEnv true afterFirst secondBlock 1 400 1 = .ok (true, st) ∧
      secondBlock.getHash prims ∈ st.mapBlockIndex ∧ RestartRebuilds prims st := by
  have hRun : ∃ out, addToBlockIndex firstEnv true afterFirst secondBlock 1 400 1 = .ok out ∧
      out.1 = true ∧ secondBlock.getHash prims ∈ out.2.mapBlockIndex := by
    apply exists_ok_of_test
    decide +kernel
  obtain ⟨⟨added, st⟩, hAdd, rfl, hMem⟩ := hRun
  have hStep : IndexStep prims IndexCall.KeepsStep afterFirst
      [.addToBlockIndex true secondBlock 1 400 1] st :=
    ⟨firstEnv, afterFirst, .addToBlockIndex true secondBlock 1 400 1, true, rfl,
      SameIndex.refl (by decide +kernel), trivial, secondBlock_addsInStep, hAdd, rfl⟩
  exact ⟨st, hAdd, hMem, restartRebuilds_of_run (isNewNode_emptyState [])
    ((Trace.start.next firstBlock_step).next hStep)⟩

/-- A new node whose next physical write fails. -/
def fullDiskNode : ChainState := { emptyState with txdb := ⟨∅, none, [false]⟩ }

/-- When the record of the block could not be written, the call fails but leaves the block in
the index, and a restart loses it. -/
theorem firstBlock_lost_after_failure :
    IsNewNode fullDiskNode ∧ ∃ st,
      Trace (IndexStep prims fun _ _ _ => True) fullDiskNode
        ([] ++ [.addToBlockIndex true firstBlock 1 200 1]) st ∧
      st.txdb.activeBatch = none ∧ ¬RestartRebuilds prims st := by
  refine ⟨isNewNode_emptyState [false], ?_⟩
  have hRun : ∃ out, addToBlockIndex firstEnv true fullDiskNode firstBlock 1 200 1 = .ok out ∧
      out.1 = false ∧ out.2.txdb.activeBatch.isNone = true ∧
      firstBlock.getHash prims ∈ out.2.mapBlockIndex ∧
      (loadBlockIndex firstEnv id (restarted out.2)).map
        (fun out => decide (firstBlock.getHash prims ∈ out.2.mapBlockIndex)) = .ok false := by
    apply exists_ok_of_test
    decide +kernel
  obtain ⟨⟨added, st⟩, hAdd, rfl, hClosed, hMem, hLoad⟩ := hRun
  refine ⟨st, Trace.start.next ?_, Option.isNone_iff_eq_none.mp hClosed, ?_⟩
  · exact ⟨firstEnv, fullDiskNode, .addToBlockIndex true firstBlock 1 200 1, false, rfl,
      SameIndex.refl rfl, trivial, trivial, hAdd, rfl⟩
  · intro hRebuilds
    obtain ⟨loaded, st', hRestart, -, hIndex, -⟩ := hRebuilds firstEnv rfl id
    rw [hRestart] at hLoad
    have hLost : firstBlock.getHash prims ∉ st'.mapBlockIndex :=
      of_decide_eq_false (Except.ok.inj hLoad)
    rw [Table.mem_iff_lookup] at hMem hLost
    rw [hIndex] at hLost
    exact hLost hMem

end Sample

end SocietyGold
