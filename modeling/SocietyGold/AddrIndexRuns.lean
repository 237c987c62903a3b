import SocietyGold.AddrIndex
import SocietyGold.Support.Trace

/-!
# Runs that keep the address index

A block is connected once the batch of its connection is committed.  In a run of such batches
the address index is a staged index, and what a search finds only grows.  The search finds all
transactions of the connected blocks if every connection meets a condition, which a block that
spends an output on disk misses as a rule: the previous transaction is not read there, so that
the output is not seen.
-/

namespace SocietyGold

open Support TxnOutType

/-! ## Steps -/

/-- The database in a run, with the blocks of the open batch. -/
structure Connecting where
  txdb : CTxDB
  pending : List CBlock

/-- What happens to the database in a run, with the blocks that are committed.  The index is
kept with one set of primitives, and `ConnectBlock` meets the condition when it succeeds. -/
inductive DatabaseStep (P : ScriptPrimitives)
    (condition : Env → ChainState → CBlock → CBlockIndex → Prop) :
    Connecting → List CBlock → Connecting → Prop
  | txnBegin {txdb txdb' : CTxDB} {pending : List CBlock}
      (h : BatchStore.txnBegin txdb = .ok txdb') :
      DatabaseStep P condition ⟨txdb, pending⟩ [] ⟨txdb', []⟩
  | txnCommit {txdb txdb' : CTxDB} {pending : List CBlock}
      (h : BatchStore.txnCommit txdb = .ok (true, txdb')) :
      DatabaseStep P condition ⟨txdb, pending⟩ pending ⟨txdb', []⟩
  | txnCommitFails {txdb txdb' : CTxDB} {pending : List CBlock}
      (h : BatchStore.txnCommit txdb = .ok (false, txdb')) :
      DatabaseStep P condition ⟨txdb, pending⟩ [] ⟨txdb', []⟩
  | txnAbort {txdb : CTxDB} {pending : List CBlock} :
      DatabaseStep P condition ⟨txdb, pending⟩ [] ⟨BatchStore.txnAbort txdb, []⟩
  | update {txdb : CTxDB} {pending : List CBlock} {key : DbKey} (value : Option DbValue)
      (hKey : ∀ id, key ≠ .adr id) :
      DatabaseStep P condition ⟨txdb, pending⟩ [] ⟨(BatchStore.update txdb key value).2, pending⟩
  | connect {env : Env} {st : ChainState} {block : CBlock} {pindex : CBlockIndex}
      {r : ConnectResult} {pending : List CBlock} (hPrims : env.prims = P.toPrimitives)
      (hKeeps : env.addrIndexEnabled = true) (hBatch : BatchStore.InBatch st.txdb)
      (hRun : connectBlock env st block pindex false = .ok r) (hDone : r.success = true)
      (hCondition : condition env st block pindex) :
      DatabaseStep P condition ⟨st.txdb, pending⟩ [] ⟨r.txdb, pending ++ [block]⟩
  | connectFails {env : Env} {st : ChainState} {block : CBlock} {pindex : CBlockIndex}
      {r : ConnectResult} {pending : List CBlock} (hBatch : BatchStore.InBatch st.txdb)
      (hRun : connectBlock env st block pindex false = .ok r) (hFailed : r.success = false) :
      DatabaseStep P condition ⟨st.txdb, pending⟩ [] ⟨r.txdb, pending⟩

/-- The committed and the staged address index. -/
def CTxDB.stagedAddresses (txdb : CTxDB) : Postings.Staged ℕ ℕ :=
  ⟨txdb.committed.addresses, txdb.addresses⟩

section Step

variable {P : ScriptPrimitives} {condition : Env → ChainState → CBlock → CBlockIndex → Prop}
  {s s' : Connecting} {blocks : List CBlock} {txdb txdb' : CTxDB}

theorem CTxDB.addresses_committed_congr (h : txdb'.disk = txdb.disk) :
    txdb'.committed.addresses = txdb.committed.addresses :=
  CTxDB.addresses_congr fun id => by simp [CTxDB.committed, BatchStore.read, h]

theorem CTxDB.addresses_committed_of_closed (h : txdb.activeBatch = none) :
    txdb.committed.addresses = txdb.addresses :=
  CTxDB.addresses_congr fun id => by simp [CTxDB.committed, BatchStore.read, h]

theorem CTxDB.stagedAddresses_eq
    {committed staged : Postings ℕ ℕ} (hCommitted : txdb.committed.addresses = committed)
    (hStaged : txdb.addresses = staged) : txdb.stagedAddresses = ⟨committed, staged⟩ := by
  rw [CTxDB.stagedAddresses, hCommitted, hStaged]

/-- A closed database has one address index. -/
theorem CTxDB.stagedAddresses_of_closed
    {committed : Postings ℕ ℕ} (h : txdb.activeBatch = none)
    (hCommitted : txdb.committed.addresses = committed) :
    txdb.stagedAddresses = ⟨committed, committed⟩ :=
  CTxDB.stagedAddresses_eq hCommitted
    ((CTxDB.addresses_committed_of_closed h).symm.trans hCommitted)

theorem CTxDB.addresses_committed_update
    {key : DbKey} (hKey : ∀ id, key ≠ .adr id) (value : Option DbValue) :
    CTxDB.addresses (CTxDB.committed (BatchStore.update txdb key value).2) =
      txdb.committed.addresses := by
  by_cases hBatch : BatchStore.InBatch txdb
  · exact CTxDB.addresses_committed_congr (BatchStore.disk_update_of_inBatch hBatch _ _)
  · have hClosed : txdb.activeBatch = none := by
      simpa [BatchStore.InBatch] using hBatch
    have hStill : (BatchStore.update txdb key value).2.activeBatch = none := by
      have hNot := (BatchStore.inBatch_update txdb key value).not.mpr hBatch
      simpa [BatchStore.InBatch] using hNot
    rw [CTxDB.addresses_committed_of_closed hClosed]
    exact (CTxDB.addresses_committed_of_closed hStill).trans
      (CTxDB.addresses_update_of_ne txdb hKey value)

/-- A step on the database is a step of the staged address index. -/
theorem DatabaseStep.staged (h : DatabaseStep P condition s blocks s') :
    s.txdb.stagedAddresses.Step s'.txdb.stagedAddresses := by
  cases h with
  | @txnBegin txdb txdb' pending h =>
      obtain ⟨hClosed, rfl⟩ := BatchStore.txnBegin_eq_ok.mp h
      have hSame := CTxDB.addresses_congr fun id => BatchStore.read_txnBegin h (.adr id)
      dsimp only
      rw [CTxDB.stagedAddresses_eq rfl hSame, ← CTxDB.addresses_committed_of_closed hClosed]
      exact .drop _
  | @txnCommit txdb txdb' pending h =>
      have hSame : txdb'.addresses = txdb.addresses :=
        CTxDB.addresses_congr fun id => BatchStore.read_txnCommit h _
      have hClosed := BatchStore.txnCommit_activeBatch h
      dsimp only
      rw [CTxDB.stagedAddresses_of_closed hClosed
        ((CTxDB.addresses_committed_of_closed hClosed).trans hSame)]
      exact .commit _
  | @txnCommitFails txdb txdb' pending h =>
      dsimp only
      rw [CTxDB.stagedAddresses_of_closed (BatchStore.txnCommit_activeBatch h)
        (CTxDB.addresses_committed_congr (BatchStore.disk_txnCommit_of_failed h))]
      exact .drop _
  | @txnAbort txdb pending =>
      exact .drop _
  | @update txdb pending key value hKey =>
      dsimp only
      rw [CTxDB.stagedAddresses_eq (CTxDB.addresses_committed_update hKey value)
        (CTxDB.addresses_update_of_ne txdb hKey value)]
      exact .post _ []
  | @connect env st block pindex r pending hPrims hKeeps hBatch hRun hDone hCondition =>
      obtain ⟨entries, hPosted, -⟩ := addresses_connectBlock hBatch hRun
      have hStaged := (connectBlock_frame hBatch hRun).1
      dsimp only
      rw [CTxDB.stagedAddresses_eq (CTxDB.addresses_committed_congr hStaged.disk_eq) hPosted]
      exact .post _ entries
  | @connectFails env st block pindex r pending hBatch hRun hFailed =>
      obtain ⟨entries, hPosted, -⟩ := addresses_connectBlock hBatch hRun
      have hStaged := (connectBlock_frame hBatch hRun).1
      dsimp only
      rw [CTxDB.stagedAddresses_eq (CTxDB.addresses_committed_congr hStaged.disk_eq) hPosted]
      exact .post _ entries

/-- In a run the committed and the staged index stay in order, and the committed one only
grows. -/
theorem run_ordered
    (hOrdered : s.txdb.stagedAddresses.Ordered)
    (hRun : Trace (DatabaseStep P condition) s blocks s') :
    s'.txdb.stagedAddresses.Ordered ∧
      Postings.Extends s.txdb.committed.addresses s'.txdb.committed.addresses := by
  refine Trace.invariant (I := fun _ s' => s'.txdb.stagedAddresses.Ordered ∧
    Postings.Extends s.txdb.committed.addresses s'.txdb.committed.addresses) ?_ ?_ hRun
  · exact ⟨hOrdered, Postings.Extends.refl _⟩
  · rintro labels s₁ new s₂ ⟨hBefore, hGrown⟩ hStep
    obtain ⟨hAfter, hMore⟩ := hStep.staged.ordered hBefore
    exact ⟨hAfter, hGrown.trans hMore⟩

end Step

/-! ## What a search finds -/

section Search

variable {P : ScriptPrimitives} {txdb : CTxDB}

theorem getD_findTransactionsByDestination
    {dest : CTxDestination} (hId : dest.addrid ≠ 0) :
    (findTransactionsByDestination txdb dest).getD [] =
      txdb.committed.addresses dest.addrid := by
  rw [findTransactionsByDestination, if_neg hId, CTxDB.addresses]

theorem exists_of_mem_addresses
    {dest : CTxDestination} {hash : ℕ} (hId : dest.addrid ≠ 0)
    (hMem : hash ∈ txdb.committed.addresses dest.addrid) :
    ∃ hashes, findTransactionsByDestination txdb dest = some hashes ∧
      hashes = txdb.committed.addresses dest.addrid := by
  rw [← getD_findTransactionsByDestination hId] at hMem ⊢
  cases hFound : findTransactionsByDestination txdb dest with
  | none => simp [hFound] at hMem
  | some hashes => exact ⟨hashes, rfl, rfl⟩

/-- The transaction pays the destination or spends an output that does. -/
def Touches (P : ScriptPrimitives) (tx : CTransaction) (dest : CTxDestination) : Prop :=
  PaysTo P tx dest ∨ SpendsFrom P tx dest

/-- All transactions of the block are listed under the destinations they touch. -/
def Listed (P : ScriptPrimitives) (index : Postings ℕ ℕ) (block : CBlock) : Prop :=
  ∀ tx ∈ block.vtx, ∀ dest, Touches P tx dest →
    dest.addrid ≠ 0 ∧ tx.getHash P.toPrimitives ∈ index dest.addrid

theorem Listed.mono
    {index index' : Postings ℕ ℕ} {block : CBlock} (h : Listed P index block)
    (hGrows : Postings.Extends index index') : Listed P index' block := by
  intro tx hTx dest hTouches
  obtain ⟨hId, hMem⟩ := h tx hTx dest hTouches
  exact ⟨hId, hGrows.mem hMem⟩

/-- The condition for a block: its transaction loop runs to its end, no key has the id zero,
and a transaction pays what it spends from, unless the memory pool shows the spent output. -/
def ListsAll (P : ScriptPrimitives) (env : Env) (st : ChainState) (block : CBlock)
    (pindex : CBlockIndex) : Prop :=
  ∀ tx ∈ block.vtx, ∀ dest, Touches P tx dest →
    dest.addrid ≠ 0 ∧ ConnectRunsThrough env st block pindex ∧
      (PaysTo P tx dest ∨ ∃ txout, SeesSpent (indexAfter env st block pindex) st.mempool tx txout ∧
        Pays P txout.scriptPubKey dest)

/-- A block that meets the condition is listed when it is connected. -/
theorem listed_connectBlock
    {env : Env} {st : ChainState} {block : CBlock} {pindex : CBlockIndex} {r : ConnectResult}
    (hPrims : env.prims = P.toPrimitives) (hKeeps : env.addrIndexEnabled = true)
    (hBatch : BatchStore.InBatch st.txdb)
    (hRun : connectBlock env st block pindex false = .ok r) (hDone : r.success = true)
    (hCondition : ListsAll P env st block pindex) : Listed P r.txdb.addresses block := by
  obtain ⟨entries, hPosted, hAll⟩ := addresses_connectBlock hBatch hRun
  intro tx hTx dest hTouches
  obtain ⟨hId, hThrough, hShown⟩ := hCondition tx hTx dest hTouches
  have hFiles := hAll hDone hThrough hKeeps tx hTx
  rw [hPrims] at hFiles
  refine ⟨hId, ?_⟩
  rw [hPosted]
  refine Postings.mem_postAll.mpr (Or.inr ?_)
  rcases hShown with ⟨txout, hOut, hPays⟩ | ⟨txout, hSpent, hPays⟩
  · exact hFiles txout (Or.inl hOut) _ (addrid_mem_buildAddrIndex hPays)
  · exact hFiles txout (Or.inr hSpent) _ (addrid_mem_buildAddrIndex hPays)

/-- The connected blocks are listed in the committed index, those of the open batch in the
staged one. -/
structure AllListed (P : ScriptPrimitives) (blocks : List CBlock) (s : Connecting) : Prop where
  ordered : s.txdb.stagedAddresses.Ordered
  committed : ∀ block ∈ blocks, Listed P s.txdb.committed.addresses block
  pending : ∀ block ∈ s.pending, Listed P s.txdb.addresses block

theorem AllListed.step
    {blocks new : List CBlock} {s s' : Connecting} (h : AllListed P blocks s)
    (hStep : DatabaseStep P (ListsAll P) s new s') : AllListed P (blocks ++ new) s' := by
  obtain ⟨hOrdered, hGrows⟩ := hStep.staged.ordered h.ordered
  have hKept : ∀ block ∈ blocks, Listed P s'.txdb.committed.addresses block :=
    fun block hBlock => (h.committed block hBlock).mono hGrows
  cases hStep with
  | @txnCommit txdb txdb' pending hCommit =>
      have hSame : txdb'.committed.addresses = txdb.addresses :=
        (CTxDB.addresses_committed_of_closed (BatchStore.txnCommit_activeBatch hCommit)).trans
          (CTxDB.addresses_congr fun id => BatchStore.read_txnCommit hCommit _)
      refine ⟨hOrdered, fun block hBlock => ?_, by simp⟩
      rcases List.mem_append.mp hBlock with hOld | hNew
      · exact hKept block hOld
      · dsimp only
        rw [hSame]
        exact h.pending block hNew
  | @connect env st block pindex r pending hPrims hKeeps hBatch hRun hDone hCondition =>
      obtain ⟨entries, hPosted, -⟩ := addresses_connectBlock hBatch hRun
      refine ⟨hOrdered, by simpa using hKept, fun block' hBlock => ?_⟩
      rcases List.mem_append.mp hBlock with hOld | hNew
      · refine (h.pending block' hOld).mono ?_
        dsimp only
        rw [hPosted]
        exact Postings.extends_postAll _ entries
      · rw [List.mem_singleton.mp hNew]
        exact listed_connectBlock hPrims hKeeps hBatch hRun hDone hCondition
  | @connectFails env st block pindex r pending hBatch hRun hFailed =>
      obtain ⟨entries, hPosted, -⟩ := addresses_connectBlock hBatch hRun
      refine ⟨hOrdered, by simpa using hKept, fun block' hBlock => ?_⟩
      refine (h.pending block' hBlock).mono ?_
      dsimp only
      rw [hPosted]
      exact Postings.extends_postAll _ entries
  | @update txdb pending key value hKey =>
      refine ⟨hOrdered, by simpa using hKept, fun block hBlock => ?_⟩
      dsimp only
      rw [CTxDB.addresses_update_of_ne txdb hKey value]
      exact h.pending block hBlock
  | txnBegin => exact ⟨hOrdered, by simpa using hKept, by simp⟩
  | txnCommitFails => exact ⟨hOrdered, by simpa using hKept, by simp⟩
  | txnAbort => exact ⟨hOrdered, by simpa using hKept, by simp⟩

/-- A run that starts without an open batch and with lists free of duplicates.  If its
connections meet the condition, a search for a destination finds every transaction of the
connected blocks that touches it, once; and in whatever run follows, what a search finds only
grows. -/
theorem findTransactions_complete
    (P : ScriptPrimitives) {start s : Connecting} {blocks : List CBlock}
    (hClosed : start.txdb.activeBatch = none) (hNone : start.pending = [])
    (hDistinct : start.txdb.addresses.Distinct)
    (hRun : Trace (DatabaseStep P (ListsAll P)) start blocks s) :
    (∀ block ∈ blocks, ∀ tx ∈ block.vtx, ∀ dest, Touches P tx dest →
      ∃ hashes, findTransactionsByDestination s.txdb dest = some hashes ∧ hashes.Nodup ∧
        tx.getHash P.toPrimitives ∈ hashes) ∧
    ∀ later s', Trace (DatabaseStep P fun _ _ _ _ => True) s later s' → ∀ dest,
      (findTransactionsByDestination s.txdb dest).getD [] <+:
        (findTransactionsByDestination s'.txdb dest).getD [] := by
  have hSame := CTxDB.addresses_committed_of_closed hClosed
  have hStart : AllListed P [] start := by
    refine ⟨?_, by simp, by simp [hNone]⟩
    rw [CTxDB.stagedAddresses_of_closed hClosed hSame]
    exact ⟨Postings.Extends.refl _, hDistinct, hDistinct⟩
  have hAll : AllListed P blocks s :=
    Trace.invariant hStart (fun _ _ _ _ h hStep => h.step hStep) hRun
  constructor
  · intro block hBlock tx hTx dest hTouches
    obtain ⟨hId, hMem⟩ := hAll.committed block hBlock tx hTx dest hTouches
    obtain ⟨hashes, hFound, hList⟩ := exists_of_mem_addresses hId hMem
    rw [← hList] at hMem
    refine ⟨hashes, hFound, ?_, hMem⟩
    rw [hList]
    exact hAll.ordered.committed dest.addrid
  · intro later s' hLater dest
    by_cases hId : dest.addrid = 0
    · simp [findTransactionsByDestination, hId]
    · rw [getD_findTransactionsByDestination hId, getD_findTransactionsByDestination hId]
      exact (run_ordered hAll.ordered hLater).2 dest.addrid

end Search

/-! ## A spend that is not listed -/

namespace Sample

/-- A payment to the hash of a key. -/
def keyHashScript (b : UInt8) : CScript := [0x76, 0xa9, 20] ++ List.replicate 20 b ++ [0x88, 0xac]

def keyHash (b : UInt8) : CTxDestination := .keyID (fromBytesLE (List.replicate 20 b))

def indexEnv : Env := { env 900 with prims := scriptPrims.toPrimitives, addrIndexEnabled := true }

/-- A block that mints an output for a key. -/
def mintingToKey : CBlock :=
  sealed 500 1000 [{ coinbase 1000 11 100 with vout := [⟨100, keyHashScript 7⟩] }]

def mintedToKey : COutPoint :=
  ⟨({ coinbase 1000 11 100 with vout := [⟨100, keyHashScript 7⟩] } : CTransaction).getHash prims, 0⟩

/-- The transaction that passes the output on to another key. -/
def passingOn : CTransaction :=
  { spend 1000 mintedToKey 100 with vout := [⟨100, keyHashScript 8⟩] }

def passingBlock : CBlock := sealed 500 1000 [coinbase 1000 12 100, passingOn]

/-- The node with a given database. -/
def nodeOver (txdb : CTxDB) : ChainState := { nodeWith [] with txdb := txdb }

def indexEntry (block : CBlock) (nBlockPos : ℕ) : CBlockIndex :=
  { CBlockIndex.ofBlock 1 nBlockPos block (block.getHash prims) with
    pprev := some 500
    nHeight := 11 }

/-- The database after a block was connected. -/
def connectedOver (txdb : CTxDB) (block : CBlock) (nBlockPos : ℕ) : CTxDB :=
  match connectBlock indexEnv (nodeOver txdb) block (indexEntry block nBlockPos) false with
  | .ok r => r.txdb
  | .error _ => txdb

theorem connect_connectedOver
    {condition : Env → ChainState → CBlock → CBlockIndex → Prop} {txdb : CTxDB}
    {pending : List CBlock} {block : CBlock} {nBlockPos : ℕ}
    (hCondition : condition indexEnv (nodeOver txdb) block (indexEntry block nBlockPos))
    (hBatch : BatchStore.InBatch txdb)
    (h : (connectBlock indexEnv (nodeOver txdb) block (indexEntry block nBlockPos) false).map
      ConnectResult.success = .ok true) :
    DatabaseStep scriptPrims condition ⟨txdb, pending⟩ []
      ⟨connectedOver txdb block nBlockPos, pending ++ [block]⟩ := by
  unfold connectedOver
  cases hRun : connectBlock indexEnv (nodeOver txdb) block (indexEntry block nBlockPos) false with
  | error fault => simp [hRun, Except.map] at h
  | ok r =>
      have hDone : r.success = true := by simpa [hRun, Except.map] using h
      exact DatabaseStep.connect rfl rfl hBatch hRun hDone hCondition

/-- The database once its batch is committed. -/
def closed (txdb : CTxDB) : CTxDB :=
  { txdb with disk := BatchStore.contents txdb, activeBatch := none }

theorem txnCommit_closed
    {txdb : CTxDB} (hBatch : BatchStore.InBatch txdb) (hOutcomes : txdb.outcomes = []) :
    BatchStore.txnCommit txdb = .ok (true, closed txdb) := by
  obtain ⟨batch, hSome⟩ := Option.isSome_iff_exists.mp hBatch
  simp [BatchStore.txnCommit, closed, BatchStore.contents, BatchStore.physical, hSome, hOutcomes]

def opened : CTxDB := { (nodeWith []).txdb with activeBatch := some [] }

def mintedDb : CTxDB := connectedOver opened mintingToKey 200

def passedDb : CTxDB := connectedOver mintedDb passingBlock 600

theorem begin_opened
    {condition : Env → ChainState → CBlock → CBlockIndex → Prop} :
    Trace (DatabaseStep scriptPrims condition) ⟨(nodeWith []).txdb, []⟩ [] ⟨opened, []⟩ :=
  Trace.start.next (.txnBegin rfl)

theorem passingOn_not_found :
    Trace (DatabaseStep scriptPrims fun _ _ _ _ => True) ⟨(nodeWith []).txdb, []⟩
        [mintingToKey, passingBlock] ⟨closed passedDb, []⟩ ∧
      passingOn ∈ passingBlock.vtx ∧ Touches scriptPrims passingOn (keyHash 7) ∧
      ¬∃ hashes, findTransactionsByDestination (closed passedDb) (keyHash 7) = some hashes ∧
        passingOn.getHash scriptPrims.toPrimitives ∈ hashes := by
  refine ⟨?_, by decide +kernel, Or.inr ?_, ?_⟩
  · have hMint : DatabaseStep scriptPrims (fun _ _ _ _ => True) ⟨opened, []⟩ []
        ⟨mintedDb, [mintingToKey]⟩ :=
      connect_connectedOver trivial (by decide +kernel) (by decide +kernel)
    have hPass : DatabaseStep scriptPrims (fun _ _ _ _ => True) ⟨mintedDb, [mintingToKey]⟩ []
        ⟨passedDb, [mintingToKey, passingBlock]⟩ :=
      connect_connectedOver trivial (by decide +kernel) (by decide +kernel)
    have hCommit : BatchStore.txnCommit passedDb = .ok (true, closed passedDb) :=
      txnCommit_closed (by decide +kernel) (by decide +kernel)
    exact ((begin_opened.next hMint).next hPass).next (.txnCommit hCommit)
  · refine ⟨⟨mintedToKey, [], UINT_MAX⟩, by decide +kernel, by decide +kernel,
      { coinbase 1000 11 100 with vout := [⟨100, keyHashScript 7⟩] }, by decide +kernel,
      ⟨100, keyHashScript 7⟩, rfl, ?_⟩
    exact .pubKeyHash (by decide +kernel) (by decide +kernel)
  · rintro ⟨hashes, hFound, hMem⟩
    have hNot : (findTransactionsByDestination (closed passedDb) (keyHash 7)).all
        (fun hashes => passingOn.getHash scriptPrims.toPrimitives ∉ hashes) = true := by
      decide +kernel
    rw [hFound] at hNot
    exact absurd hMem (by simpa using hNot)

theorem addrid_ne_zero_of_keyHashScript
    {b : UInt8} {dest : CTxDestination}
    (hSolver : solver (keyHashScript b) = some (TX_PUBKEYHASH, [List.replicate 20 b]))
    (h : Pays scriptPrims (keyHashScript b) dest) : dest.addrid ≠ 0 := by
  cases h with
  | pubKey hKey => simp [hSolver] at hKey
  | pubKeyHash _ hId => exact hId
  | scriptHash _ hId => exact hId

/-- A block that only mints meets the condition. -/
theorem mintingToKey_listsAll :
    ListsAll scriptPrims indexEnv (nodeOver opened) mintingToKey (indexEntry mintingToKey 200) := by
  intro tx hTx dest hTouches
  obtain rfl := List.mem_singleton.mp hTx
  have hPays : PaysTo scriptPrims
      { coinbase 1000 11 100 with vout := [⟨100, keyHashScript 7⟩] } dest := by
    rcases hTouches with hPays | ⟨txin, hTxin, hSpends, -⟩
    · exact hPays
    · obtain rfl := List.mem_singleton.mp hTxin
      exact absurd hSpends (by decide +kernel)
  obtain ⟨txout, hOut, hScript⟩ := hPays
  obtain rfl := List.mem_singleton.mp hOut
  refine ⟨addrid_ne_zero_of_keyHashScript (by decide +kernel) hScript, ?_,
    Or.inl ⟨_, hOut, hScript⟩⟩
  exact ⟨⟨by decide +kernel, Or.inl (by decide +kernel)⟩, trivial⟩

theorem mintingToKey_found :
    ∃ hashes, findTransactionsByDestination (closed mintedDb) (keyHash 7) = some hashes ∧
      hashes.Nodup ∧ mintedToKey.hash ∈ hashes := by
  have hMint : DatabaseStep scriptPrims (ListsAll scriptPrims) ⟨opened, []⟩ []
      ⟨mintedDb, [mintingToKey]⟩ :=
    connect_connectedOver mintingToKey_listsAll (by decide +kernel) (by decide +kernel)
  have hCommit : BatchStore.txnCommit mintedDb = .ok (true, closed mintedDb) :=
    txnCommit_closed (by decide +kernel) (by decide +kernel)
  have hDistinct : (nodeWith []).txdb.addresses.Distinct := fun id => List.nodup_nil
  have hFound := findTransactions_complete scriptPrims rfl rfl hDistinct
    ((begin_opened.next hMint).next (.txnCommit hCommit))
  refine hFound.1 mintingToKey (List.mem_singleton_self _) _ (List.mem_singleton_self _)
    (keyHash 7) (Or.inl ⟨⟨100, keyHashScript 7⟩, List.mem_singleton_self _, ?_⟩)
  exact .pubKeyHash (by decide +kernel) (by decide +kernel)

end Sample

end SocietyGold
