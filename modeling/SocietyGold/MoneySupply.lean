import SocietyGold.DoubleSpend
import SocietyGold.IndexAtomicity

/-!
# Money supply along the best chain

`ConnectBlock` computes the mint and the money supply of a block in two branches, from
different variables.  When its loop over the transactions runs to the end, both branches
make the money supply of the block that of its predecessor plus its mint.

The loop may also return early with success, and then the entry keeps the zeros it was
built with.  That takes a record of the transaction index that points at the memory pool,
and on a chain that is built from the genesis block there is none: `ConnectBlock` writes
records of positions in a block file only.
-/

namespace SocietyGold

open Support

/-! ## Mint and supply of one block -/

section Rewards

variable {env : Env} {st : ChainState} {block : CBlock} {pindex pindex' : CBlockIndex}
  {tally tally' : ConnectTally}

theorem nFees_tallyValues
    {tx : CTransaction} {inputs : MapPrevTx} (hFees : tally.nFees = 0)
    (h : tallyValues true tx inputs tally = .ok tally') : tally'.nFees = 0 := by
  unfold tallyValues at h
  by_cases hSmall : tx.vin.length < 3
  · simp only [hSmall, if_true, bind_eq_ok, Except.ok.injEq] at h
    obtain ⟨-, -, -, -, rfl⟩ := h
    dsimp only
    rw [hFees, ite_self]
  · rw [if_neg hSmall] at h
    cases h
    exact hFees

theorem nFees_connectSpending
    {tx : CTransaction} {posThisTx : CDiskTxPos} (hFees : tally.nFees = 0)
    (h : connectSpending env st pindex true tx posThisTx tally = .ok (.next tally')) :
    tally'.nFees = 0 := by
  unfold connectSpending at h
  dsimp only at h
  by_cases hFetched : (!(fetchInputs env st.txdb st.mempool tx true false ∅).success) = true
  · rw [if_pos hFetched] at h
    cases h
  rw [if_neg hFetched] at h
  simp only [bind_eq_ok] at h
  obtain ⟨nP2SHSigOps, -, counted, hTally, ⟨connected, queue⟩, -, h⟩ := h
  have hCounted : counted.nFees = 0 := nFees_tallyValues (by exact hFees) hTally
  cases connected with
  | false => simp at h
  | true =>
      simp only [Bool.not_true, Bool.false_eq_true, if_false, Except.ok.injEq,
        Flow.next.injEq] at h
      rw [← h]
      exact hCounted

/-- In a proof-of-work block no fees are ever counted. -/
theorem nFees_connectTransaction
    {fJustCheck : Bool} {tx : CTransaction} (hFees : tally.nFees = 0)
    (h : connectTransaction env st pindex true fJustCheck tally tx = .ok (.next tally')) :
    tally'.nFees = 0 := by
  unfold connectTransaction at h
  dsimp only at h
  by_cases hSigOps : tally.nSigOps + tx.getLegacySigOpCount > MAX_BLOCK_SIGOPS
  · rw [if_pos hSigOps] at h
    cases h
  · rw [if_neg hSigOps] at h
    by_cases hCoinBase : tx.isCoinBase = true
    · rw [if_pos hCoinBase] at h
      simp only [bind_eq_ok, Except.ok.injEq, Flow.next.injEq] at h
      obtain ⟨-, -, rfl⟩ := h
      exact hFees
    · rw [if_neg hCoinBase] at h
      exact nFees_connectSpending (by exact hFees) h

/-- Both branches add the mint to the supply of the previous block, if that is the best
block. -/
theorem nMoneySupply_connectRewards
    {prev : CBlockIndex} (hFees : block.isProofOfWork = true → tally.nFees = 0)
    (hPrev : st.entry pindex.pprev = some prev) (hBest : st.entry st.pindexBest = some prev)
    (h : connectRewards env st block pindex tally = .ok pindex') :
    pindex'.nMoneySupply = wrap64 (prev.nMoneySupply + pindex'.nMint) := by
  unfold connectRewards at h
  split_ifs at h with hWork
  · unfold connectWork at h
    simp only [bind_eq_ok, Except.ok.injEq] at h
    obtain ⟨nReward, -, -, -, -, -, rfl⟩ := h
    dsimp only
    rw [hPrev, hFees hWork]
    simp only [Option.map_some, Option.getD_some, lt_irrefl, if_false, add_zero]
    unfold wrap64
    rw [Int.add_bmod_bmod, ← add_sub_assoc]
  · unfold connectStake at h
    simp only [bind_eq_ok, Except.ok.injEq] at h
    obtain ⟨-, -, -, -, pindexBest, hDeref, rfl⟩ := h
    rw [deref_eq_ok, hBest, Option.some.injEq] at hDeref
    rw [hDeref]

/-- A connection that runs through its transactions does the bookkeeping. -/
theorem nMoneySupply_connectBlock
    {prev : CBlockIndex} {r : ConnectResult}
    (hGoes : ∀ tx ∈ block.vtx, stopsConnection env st pindex tx = false)
    (hPrev : st.entry pindex.pprev = some prev) (hBest : st.entry st.pindexBest = some prev)
    (hConnect : connectBlock env st block pindex false = .ok r) (hSuccess : r.success = true) :
    r.pindex.nMoneySupply = wrap64 (prev.nMoneySupply + r.pindex.nMint) := by
  unfold connectBlock at hConnect
  by_cases hCheck : (!(block.checkBlock env st true true false).passed) = true
  · rw [Bool.not_false, if_pos hCheck] at hConnect
    cases hConnect
    cases hSuccess
  · rw [Bool.not_false, if_neg hCheck] at hConnect
    have hPassed : PassesCheckBlock env st block := by
      apply Verdict.passed_iff.mp
      simpa using hCheck
    rw [bind_eq_ok] at hConnect
    obtain ⟨flow, hLoop, hConnect⟩ := hConnect
    cases flow with
    | returned success =>
        cases hConnect
        rcases connectLoop_spec env st pindex block.isProofOfWork block.vtx
            ⟨0, 0, 0, 0, 0, firstTxPos pindex block false, ∅⟩
            (fun tx hTx => CBlock.checkTransaction_of_checked hPassed hTx) with
          ⟨hEarly, -⟩ | ⟨-, tally, hThrough, -⟩ | ⟨-, -, hFailed⟩
        · obtain ⟨tx, hTx, hStops⟩ := exists_stopsConnection_of_stopsEarly hEarly
          rw [hGoes tx hTx] at hStops
          cases hStops
        · rw [hThrough] at hLoop
          cases hLoop
        · cases (hFailed _ hLoop).1
          cases hSuccess
    | next tally =>
        rw [bind_eq_ok] at hConnect
        obtain ⟨entry, hRewards, hConnect⟩ := hConnect
        have hFees : block.isProofOfWork = true → tally.nFees = 0 := by
          intro hWork
          rw [hWork] at hLoop
          exact forEach_invariant (I := fun tally => tally.nFees = 0)
            (fun tally tx tally' _ hInv hRound => nFees_connectTransaction hInv hRound) rfl hLoop
        have hEntry : r.pindex = entry := by
          split at hConnect
          · cases hConnect
            rfl
          · simp only [Bool.false_eq_true, if_false] at hConnect
            cases hConnect
            rfl
        rw [hEntry]
        exact nMoneySupply_connectRewards hFees hPrev hBest hRewards

end Rewards

/-! ## The entries of the chain -/

/-- What an entry records about the supply: its previous block, its mint and its money
supply. -/
def ChainState.supplyAt (st : ChainState) (hash : ℕ) : Option (Option ℕ × ℤ × ℤ) :=
  (st.mapBlockIndex.lookup hash).map fun pindex =>
    (pindex.pprev, pindex.nMint, pindex.nMoneySupply)

/-- The mints from the first block up to a block add up to an amount. -/
inductive MintedTo (st : ChainState) : ℕ → ℤ → Prop
  | first {hash : ℕ} {nMint nMoneySupply : ℤ}
      (hEntry : st.supplyAt hash = some (none, nMint, nMoneySupply)) : MintedTo st hash nMint
  | next {hash prev : ℕ} {nMint nMoneySupply total : ℤ}
      (hEntry : st.supplyAt hash = some (some prev, nMint, nMoneySupply))
      (hBelow : MintedTo st prev total) : MintedTo st hash (total + nMint)

/-- The money supply of the tip is the sum of the mints of the chain, as a 64-bit
integer. -/
def SupplyTelescopes (st : ChainState) : Prop :=
  ∃ hash pprev nMint nMoneySupply total, st.pindexBest = some hash ∧
    st.supplyAt hash = some (pprev, nMint, nMoneySupply) ∧ MintedTo st hash total ∧
    nMoneySupply = wrap64 total

section Entries

variable {st st' : ChainState}

/-- The sum depends on the entries of the best chain alone. -/
theorem MintedTo.congr
    {hash : ℕ} {total : ℤ} (h : MintedTo st hash total) (hOn : OnBestChain st hash)
    (hSame : ∀ k, OnBestChain st k → st'.supplyAt k = st.supplyAt k) :
    MintedTo st' hash total := by
  induction h with
  | first hEntry => exact .first ((hSame _ hOn).trans hEntry)
  | @next hash prev nMint nMoneySupply total hEntry hBelow ih =>
      obtain ⟨pindex, hLookup, hFields⟩ := Option.map_eq_some_iff.mp hEntry
      have hPrev : pindex.pprev = some prev := congrArg Prod.fst hFields
      exact .next ((hSame _ hOn).trans hEntry) (ih (.pprev hOn hLookup hPrev))

end Entries

/-! ## One call of SetBestChain -/

/-- The entry with which `AddToBlockIndex` calls `SetBestChain`: it has just been entered
under the hash of its block, its previous entry is the one the block names, and its
position in the block file is the one of `WriteToDisk`, after the message start and the
size of the block. -/
structure IsNewEntry (env : Env) (st : ChainState) (block : CBlock) (pindexNew : CBlockIndex) :
    Prop where
  entered : st.mapBlockIndex.lookup (block.getHash env.prims) = some pindexNew
  phashBlock : pindexNew.phashBlock = block.getHash env.prims
  pprev : pindexNew.pprev =
    if block.hashPrevBlock ∈ st.mapBlockIndex then some block.hashPrevBlock else none
  offChain : ¬OnBestChain st (block.getHash env.prims)
  position : 1 < pindexNew.nBlockPos

/-- `ConnectBlock` returns true when `SetBestChain` calls it. -/
def ConnectsBlockTrue (env : Env) (st : ChainState) (block : CBlock) (pindexNew : CBlockIndex) :
    Prop :=
  ∃ txdb r, BatchStore.txnBegin st.txdb = .ok txdb ∧
    connectBlock env (st.withTxdb txdb) block pindexNew false = .ok r ∧ r.success = true

section Step

variable {env : Env} {st st' : ChainState} {block : CBlock} {pindexNew : CBlockIndex}

/-- The supply in the entries after a successful call. -/
theorem setBestChain_supply
    {txdb : CTxDB} {r : ConnectResult}
    (hNew : IsNewEntry env st block pindexNew) (hGenesis : ¬IsGenesisStep env st block)
    (hBegin : BatchStore.txnBegin st.txdb = .ok txdb)
    (hConnect : connectBlock env (st.withTxdb txdb) block pindexNew false = .ok r)
    (h : setBestChain env st block pindexNew = .ok (true, st')) (k : ℕ) :
    st'.supplyAt k =
      if k = block.getHash env.prims then
        some (r.pindex.pprev, r.pindex.nMint, r.pindex.nMoneySupply)
      else st.supplyAt k := by
  obtain ⟨-, -, -, -, -, pprev, -, hEntries⟩ :=
    setBestChain_entries hNew.entered hNew.phashBlock hGenesis hBegin hConnect h
  unfold ChainState.supplyAt
  rw [hEntries, Option.map_map]
  -- the link forward is no part of the supply
  have hSame : (fun pindex : CBlockIndex => (pindex.pprev, pindex.nMint, pindex.nMoneySupply)) ∘
      (fun pindex =>
        if k = pprev then { pindex with pnext := some (block.getHash env.prims) } else pindex) =
      fun pindex => (pindex.pprev, pindex.nMint, pindex.nMoneySupply) := by
    funext pindex
    rw [Function.comp_apply]
    split_ifs <;> rfl
  rw [hSame]
  split_ifs <;> rfl

end Step

/-! ## Records that point at the memory pool -/

/-- No record of the transaction index points at the memory pool. -/
def PointsToDisk (st : ChainState) : Prop := ∀ hash, recordedInPool st.txdb hash = false

section Records

variable {env : Env} {st : ChainState} {block : CBlock} {pindex : CBlockIndex}

/-- Without such a record no transaction stops a connection: no input is missing, and every
previous transaction that is looked at is a blank one. -/
theorem stopsConnection_of_pointsToDisk
    (h : PointsToDisk st) (tx : CTransaction) : stopsConnection env st pindex tx = false := by
  have hMissing : hasMissingInput st.txdb st.mempool tx = false := by
    rw [hasMissingInput_eq, missesInput, List.any_eq_false]
    intro txin _
    have hNone := h txin.prevout.hash
    unfold recordedInPool at hNone
    simp [hNone]
  have hImmature : seesImmature env st pindex tx = false := by
    unfold seesImmature hasImmatureInput
    rw [List.any_eq_false]
    intro txin _
    have hBlank : st.seenPrev env txin.prevout.hash = CTransaction.null env.adjustedTime := by
      unfold ChainState.seenPrev prevTransaction
      rw [h txin.prevout.hash]
      rfl
    unfold immature
    rw [hBlank]
    simp [CTransaction.null, CTransaction.isCoinBase, CTransaction.isCoinStake]
  rw [stopsConnection, hMissing, hImmature]
  simp

theorem nBlockPos_of_mem_positioned
    {nTxPos : ℕ} {vtx : List CTransaction} {entry : CTransaction × CDiskTxPos}
    (h : entry ∈ positioned pindex nTxPos vtx) : entry.2.nBlockPos = pindex.nBlockPos := by
  induction vtx generalizing nTxPos with
  | nil => simp [positioned] at h
  | cons tx rest ih =>
      rcases List.mem_cons.mp h with rfl | hRest
      · rfl
      · exact ih hRest

theorem pos_prevRecord
    (h : PointsToDisk st) (hash : ℕ) :
    (prevRecord st.txdb hash).pos ≠ CDiskTxPos.inMemoryPool := by
  have hRecord := h hash
  unfold recordedInPool at hRecord
  unfold prevRecord
  cases hRead : st.txdb.readTxIndex hash with
  | none => decide
  | some record =>
      rw [hRead] at hRecord
      simpa using hRecord

/-- The queue keeps the positions of the records it marks and adds positions in the block
file. -/
theorem pos_foldl_queueRound
    {entries : List (CTransaction × CDiskTxPos)} {queue : ℕ → Option CTxIndex}
    (h : PointsToDisk st) (hEntries : ∀ entry ∈ entries, 1 < entry.2.nBlockPos)
    (hQueue : ∀ hash record, queue hash = some record → record.pos ≠ CDiskTxPos.inMemoryPool)
    (hash : ℕ) (record : CTxIndex)
    (hFound : entries.foldl (queueRound env.prims (prevRecord st.txdb) (st.seenPrev env)) queue
      hash = some record) :
    record.pos ≠ CDiskTxPos.inMemoryPool := by
  induction entries generalizing queue with
  | nil => exact hQueue hash record hFound
  | cons entry rest ih =>
      apply ih (fun other hOther => hEntries other (List.mem_cons_of_mem _ hOther)) ?_ hFound
      intro k found hRound
      unfold queueRound at hRound
      split_ifs at hRound
      · rw [Option.some.injEq] at hRound
        have hPlace := hEntries entry List.mem_cons_self
        rw [← hRound]
        intro hPool
        have hPos : entry.2.nBlockPos = 1 := congrArg CDiskTxPos.nBlockPos hPool
        omega
      · rw [Option.some.injEq] at hRound
        rw [← hRound, CTxIndex.spendAll_shape.1]
        exact pos_prevRecord h k
      · exact hQueue k found hRound

/-- A connection with success writes no record that points at the memory pool. -/
theorem recordedInPool_connectBlock
    {r : ConnectResult} (hBatch : BatchStore.InBatch st.txdb) (h : PointsToDisk st)
    (hPosition : 1 < pindex.nBlockPos)
    (hConnect : connectBlock env st block pindex false = .ok r) (hSuccess : r.success = true)
    (hash : ℕ) : recordedInPool r.txdb hash = false := by
  rcases connectBlock_spec env block pindex hBatch with
    ⟨-, -, hRun⟩ | ⟨-, -, -, r', hRun, -, -, -, hIndex⟩ | ⟨-, -, hFault⟩ | ⟨-, hRun⟩
  · rw [hConnect] at hRun
    cases hRun
    exact h hash
  · rw [hConnect] at hRun
    cases hRun
    unfold recordedInPool
    rw [hIndex, indexAfter]
    cases hQueued : queuedChanges env st block pindex hash with
    | none => exact h hash
    | some record =>
        have hPos := pos_foldl_queueRound h
          (fun entry hEntry => (nBlockPos_of_mem_positioned hEntry).symm ▸ hPosition) (by simp)
          hash record hQueued
        simpa using hPos
  · exact absurd hConnect (hFault r)
  · rw [(hRun r hConnect).1] at hSuccess
    cases hSuccess

end Records

/-! ## Chains from the genesis block -/

/-- The best chain is the genesis block alone, which mints nothing, and the transaction
index is empty. -/
structure AtGenesis (st : ChainState) : Prop where
  tip : st.pindexBest = some st.hashBestChain
  genesis : st.pindexGenesisBlock = some st.hashBestChain
  entry : st.supplyAt st.hashBestChain = some (none, 0, 0)
  index : ∀ hash, st.txIndex hash = none

/-- The first call of `SetBestChain` leads there. -/
theorem atGenesis_of_genesisStep
    {env : Env} {st st' : ChainState} {block : CBlock} {pindexNew : CBlockIndex}
    (hEmpty : ∀ hash, st.txIndex hash = none)
    (hEntered : st.mapBlockIndex.lookup (block.getHash env.prims) = some pindexNew)
    (hHash : pindexNew.phashBlock = block.getHash env.prims)
    (hFresh : (pindexNew.pprev, pindexNew.nMint, pindexNew.nMoneySupply) = (none, 0, 0))
    (hGenesis : IsGenesisStep env st block)
    (h : setBestChain env st block pindexNew = .ok (true, st')) : AtGenesis st' := by
  obtain ⟨-, txdb', -, -, hRead, rfl⟩ :=
    genesis_of_setBestChain (hashPrevBlock_of_setBestChain h) hGenesis h
  constructor
  · exact congrArg some hHash
  · exact congrArg some hHash
  · change (st.mapBlockIndex.lookup (block.getHash env.prims)).map _ = _
    rw [hEntered, Option.map_some, hFresh]
  · intro hash
    have hKept : txdb'.read (.tx hash) = st.txdb.read (.tx hash) :=
      (hRead rfl (.tx hash)).trans (if_neg (by simp))
    refine Eq.trans ?_ (hEmpty hash)
    change txdb'.readTxIndex hash = st.txdb.readTxIndex hash
    rw [CTxDB.readTxIndex, CTxDB.readTxIndex, hKept]

/-- Between two calls everything may change but the tip, the transaction index and what
the entries of the chain record about the supply. -/
structure SameSupply (st st' : ChainState) : Prop where
  pindexBest : st'.pindexBest = st.pindexBest
  hashBestChain : st'.hashBestChain = st.hashBestChain
  pindexGenesisBlock : st'.pindexGenesisBlock = st.pindexGenesisBlock
  txIndex : ∀ k, st'.txIndex k = st.txIndex k
  supplyAt : ∀ k, OnBestChain st k → st'.supplyAt k = st.supplyAt k

/-- A new block becomes the tip through `SetBestChain`, and `ConnectBlock` returned true
for it. -/
def ConnectsTip (st : ChainState) (hashes : List ℕ) (st' : ChainState) : Prop :=
  ∃ env st₁ block pindexNew, SameSupply st st₁ ∧ IsNewEntry env st₁ block pindexNew ∧
    ConnectsBlockTrue env st₁ block pindexNew ∧
    setBestChain env st₁ block pindexNew = .ok (true, st') ∧
    hashes = [block.getHash env.prims]

/-- What holds of the tip and of the index along a run. -/
structure HasSupply (st : ChainState) : Prop where
  tip : st.pindexBest = some st.hashBestChain
  genesis : st.pindexGenesisBlock ≠ none
  index : PointsToDisk st
  supply : SupplyTelescopes st

theorem PointsToDisk.congr
    {st st' : ChainState} (h : PointsToDisk st) (hSame : ∀ k, st'.txIndex k = st.txIndex k) :
    PointsToDisk st' := by
  intro hash
  have hRead : st'.txdb.readTxIndex hash = st.txdb.readTxIndex hash := hSame hash
  have hRecord := h hash
  unfold recordedInPool at hRecord ⊢
  rw [hRead]
  exact hRecord

theorem AtGenesis.hasSupply {st : ChainState} (h : AtGenesis st) : HasSupply st := by
  constructor
  · exact h.tip
  · simp [h.genesis]
  · intro hash
    have hRead : st.txdb.readTxIndex hash = none := h.index hash
    unfold recordedInPool
    rw [hRead]
    rfl
  · exact ⟨_, _, _, _, _, h.tip, h.entry, .first h.entry, rfl⟩

theorem HasSupply.of_sameSupply
    {st st' : ChainState} (h : HasSupply st) (hSame : SameSupply st st') : HasSupply st' := by
  obtain ⟨hash, pprev, nMint, nMoneySupply, total, hTip, hEntry, hMinted, hTotal⟩ := h.supply
  constructor
  · rw [hSame.pindexBest, hSame.hashBestChain]
    exact h.tip
  · rw [hSame.pindexGenesisBlock]
    exact h.genesis
  · exact h.index.congr hSame.txIndex
  · exact ⟨hash, pprev, nMint, nMoneySupply, total, hSame.pindexBest.trans hTip,
      (hSame.supplyAt hash (.tip hTip)).trans hEntry, hMinted.congr (.tip hTip) hSame.supplyAt,
      hTotal⟩

/-- One call extends the chain by a block whose mint is the difference. -/
theorem HasSupply.of_setBestChain
    {env : Env} {st st' : ChainState} {block : CBlock} {pindexNew : CBlockIndex}
    (hSupply : HasSupply st) (hNew : IsNewEntry env st block pindexNew)
    (hTrue : ConnectsBlockTrue env st block pindexNew)
    (h : setBestChain env st block pindexNew = .ok (true, st')) : HasSupply st' := by
  obtain ⟨txdb, r, hBegin, hConnect, hSuccess⟩ := hTrue
  obtain ⟨hash, pprev, nMint, nMoneySupply, total, hTip, hEntry, hMinted, hTotal⟩ :=
    hSupply.supply
  have hGenesis : ¬IsGenesisStep env st block := fun hStep => hSupply.genesis hStep.1
  obtain ⟨hExtends, hBest, hHashBest, hGenesis', hRead, -⟩ :=
    setBestChain_entries hNew.entered hNew.phashBlock hGenesis hBegin hConnect h
  have hEntries := setBestChain_supply hNew hGenesis hBegin hConnect h
  have hHash : hash = st.hashBestChain := Option.some.inj (hTip.symm.trans hSupply.tip)
  obtain ⟨prev, hLookup, hFields⟩ := Option.map_eq_some_iff.mp hEntry
  have hPrev : pindexNew.pprev = some hash := by
    have hMem : block.hashPrevBlock ∈ st.mapBlockIndex := by
      rw [hExtends, ← hHash]
      exact Table.mem_iff_lookup.mpr ⟨prev, hLookup⟩
    rw [hNew.pprev, if_pos hMem, hExtends, hHash]
  have hPrevEntry : (st.withTxdb txdb).entry pindexNew.pprev = some prev := by
    rw [hPrev]
    exact hLookup
  have hBestEntry : (st.withTxdb txdb).entry (st.withTxdb txdb).pindexBest = some prev := by
    change st.entry st.pindexBest = some prev
    rw [hTip]
    exact hLookup
  have hBatch : BatchStore.InBatch (st.withTxdb txdb).txdb := BatchStore.inBatch_txnBegin hBegin
  have hIndex : PointsToDisk (st.withTxdb txdb) :=
    hSupply.index.congr (CTxDB.readTxIndex_txnBegin hBegin)
  have hMint := nMoneySupply_connectBlock (fun tx _ => stopsConnection_of_pointsToDisk hIndex tx)
    hPrevEntry hBestEntry hConnect hSuccess
  have hPrevSupply : prev.nMoneySupply = wrap64 total :=
    (congrArg (fun fields => fields.2.2) hFields).trans hTotal
  have hTop : st'.supplyAt (block.getHash env.prims) =
      some (some hash, r.pindex.nMint, r.pindex.nMoneySupply) := by
    rw [hEntries, if_pos rfl, (connectBlock_frame hBatch hConnect).2.pprev, hPrev]
  have hBelow : MintedTo st' hash total := by
    apply hMinted.congr (.tip hTip)
    intro k hOn
    rw [hEntries, if_neg]
    rintro rfl
    exact hNew.offChain hOn
  constructor
  · rw [hBest, hHashBest]
  · rw [hGenesis']
    exact hSupply.genesis
  · intro k
    have hAfter := recordedInPool_connectBlock hBatch hIndex hNew.position hConnect hSuccess k
    have hReadK : st'.txdb.readTxIndex k = r.txdb.readTxIndex k := hRead k
    unfold recordedInPool at hAfter ⊢
    rw [hReadK]
    exact hAfter
  · refine ⟨_, _, _, _, _, hBest, hTop, .next hTop hBelow, ?_⟩
    rw [hMint, hPrevSupply]
    exact Int.bmod_add_bmod

/-- On every chain built from the genesis block by calls of `SetBestChain` for which
`ConnectBlock` returned true, the money supply of the tip is the sum of the mints. -/
theorem supply_telescopes
    {st₀ st : ChainState} {hashes : List ℕ}
    (hStart : AtGenesis st₀) (hRun : Trace ConnectsTip st₀ hashes st) :
    SupplyTelescopes st := by
  have hSupply : HasSupply st := by
    refine Trace.invariant (I := fun _ st => HasSupply st) hStart.hasSupply ?_ hRun
    rintro _ st₁ _ st₂ hInv ⟨env, before, block, pindexNew, hSame, hNew, hTrue, hCall, -⟩
    exact (hInv.of_sameSupply hSame).of_setBestChain hNew hTrue hCall
  exact hSupply.supply

/-! ## A run -/

namespace Sample

/-- The best chain lies in every list that holds the tip and is closed under previous
entries. -/
theorem mem_of_onBestChain
    {st : ChainState} {hashes : List ℕ} (hTip : st.pindexBest.all (· ∈ hashes) = true)
    (hClosed : (hashes.all fun hash =>
      ((st.mapBlockIndex.lookup hash).bind CBlockIndex.pprev).all (· ∈ hashes)) = true)
    {hash : ℕ} (h : OnBestChain st hash) : hash ∈ hashes := by
  induction h with
  | tip hBest =>
      rw [hBest] at hTip
      simpa using hTip
  | pprev _ hEntry hPrev ih =>
      have hLink := List.all_eq_true.mp hClosed _ ih
      rw [hEntry, Option.bind_some, hPrev] at hLink
      simpa using hLink

/-- `ConnectBlock` with the entry of a block, in a batch of its own. -/
def connectsTrue (st : ChainState) (block : CBlock) (nBlockPos : ℕ) : Checked Bool := do
  let entered := enter st block nBlockPos
  let txdb ← BatchStore.txnBegin entered.1.txdb
  let r ← connectBlock (env 900) (entered.1.withTxdb txdb) block entered.2 false
  .ok r.success

/-- What `enter` needs of a block: its hash is not one of the best chain, and its previous
block is the tip. -/
structure IsFresh (st : ChainState) (block : CBlock) (hashes : List ℕ) : Prop where
  tip : st.pindexBest.all (· ∈ hashes) = true
  closed : (hashes.all fun hash =>
    ((st.mapBlockIndex.lookup hash).bind CBlockIndex.pprev).all (· ∈ hashes)) = true
  fresh : block.getHash prims ∉ hashes
  prev : st.pindexBest = some block.hashPrevBlock
  mem : block.hashPrevBlock ∈ st.mapBlockIndex

section Fresh

variable {st : ChainState} {block : CBlock} {nBlockPos : ℕ} {hashes : List ℕ}

theorem lookup_enter
    (st : ChainState) (block : CBlock) (nBlockPos k : ℕ) :
    (enter st block nBlockPos).1.mapBlockIndex.lookup k =
      if k = block.getHash prims then some (enter st block nBlockPos).2
      else st.mapBlockIndex.lookup k := Table.lookup_insert_ite _ _ _ _

theorem IsFresh.ne (h : IsFresh st block hashes) {hash : ℕ} (hOn : OnBestChain st hash) :
    hash ≠ block.getHash prims := by
  intro hEq
  exact h.fresh (hEq ▸ mem_of_onBestChain h.tip h.closed hOn)

theorem IsFresh.lookup_enter
    (h : IsFresh st block hashes) {hash : ℕ} (hOn : OnBestChain st hash) :
    (enter st block nBlockPos).1.mapBlockIndex.lookup hash = st.mapBlockIndex.lookup hash := by
  rw [Sample.lookup_enter, if_neg (h.ne hOn)]

theorem IsFresh.isNewEntry
    (h : IsFresh st block hashes) (hPosition : 1 < nBlockPos) :
    IsNewEntry (env 900) (enter st block nBlockPos).1 block (enter st block nBlockPos).2 := by
  have hTip : OnBestChain st block.hashPrevBlock := .tip h.prev
  constructor
  · exact (Sample.lookup_enter _ _ _ _).trans (if_pos rfl)
  · rfl
  · rw [if_pos]
    · exact h.prev
    · rw [Table.mem_iff_lookup, h.lookup_enter hTip]
      exact Table.mem_iff_lookup.mp h.mem
  · intro hOn
    have hBest : (enter st block nBlockPos).1.pindexBest.all (· ∈ hashes) = true := h.tip
    refine h.fresh (mem_of_onBestChain hBest ?_ hOn)
    rw [List.all_eq_true]
    intro hash hHash
    have hNe : hash ≠ block.getHash prims := fun hEq => h.fresh (hEq ▸ hHash)
    rw [Sample.lookup_enter, if_neg hNe]
    exact List.all_eq_true.mp h.closed hash hHash
  · exact hPosition

/-- A fresh block makes a step of a run. -/
theorem IsFresh.connectsTip
    (h : IsFresh st block hashes) (hPosition : 1 < nBlockPos)
    (hTrue : connectsTrue st block nBlockPos = .ok true)
    (hDone : (connectNext st block nBlockPos).map Prod.fst = .ok true) :
    ConnectsTip st [block.getHash prims] (stateAfter st block nBlockPos) := by
  have hSame : SameSupply st (enter st block nBlockPos).1 := by
    constructor
    · rfl
    · rfl
    · rfl
    · exact fun _ => rfl
    · intro k hChain
      unfold ChainState.supplyAt
      rw [h.lookup_enter hChain]
  refine ⟨env 900, _, block, _, hSame, h.isNewEntry hPosition, ?_, connectNext_of_done hDone, rfl⟩
  unfold connectsTrue at hTrue
  simp only [bind_eq_ok, Except.ok.injEq] at hTrue
  obtain ⟨txdb, hBegin, r, hConnect, hSuccess⟩ := hTrue
  exact ⟨txdb, r, hBegin, hConnect, hSuccess⟩

end Fresh

theorem mintingBlock_isFresh : IsFresh (nodeWith []) mintingBlock [500] := by
  constructor <;> decide +kernel

theorem firstSpend_isFresh : IsFresh minted firstSpend [500, mintingBlock.getHash prims] := by
  constructor <;> decide +kernel

theorem supply_of_two_blocks : SupplyTelescopes spentOnce := by
  have hStart : AtGenesis (nodeWith []) := by
    constructor
    · rfl
    · rfl
    · decide +kernel
    · exact fun _ => rfl
  have hMint : ConnectsTip (nodeWith []) [mintingBlock.getHash prims] minted :=
    mintingBlock_isFresh.connectsTip (by decide) (by decide +kernel) (by decide +kernel)
  have hSpend : ConnectsTip minted [firstSpend.getHash prims] spentOnce :=
    firstSpend_isFresh.connectsTip (by decide) (by decide +kernel) (by decide +kernel)
  exact supply_telescopes hStart ((Trace.start.next hMint).next hSpend)

end Sample

end SocietyGold
