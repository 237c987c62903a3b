import SocietyGold.ConnectedIndex
import SocietyGold.Templates
import SocietyGold.Support.Postings

/-!
# The address index

With `-addrindex` on, `ConnectBlock` files every transaction of a block under the addresses
found in the outputs it makes and in the outputs it sees being spent, and
`FindTransactionsByDestination` looks an address up.  The database is an inverted index here:
filing a transaction posts its hash.
-/

namespace SocietyGold

open Support TxnOutType

/-! ## Destinations -/

/-- `CTxDestination`. -/
inductive CTxDestination
  | noDestination
  | keyID (id : ℕ)
  | scriptID (id : ℕ)
  | stealthAddress
  deriving DecidableEq, Repr

/-- The id under which `FindTransactionsByDestination` looks. -/
def CTxDestination.addrid : CTxDestination → ℕ
  | .keyID id => id
  | .scriptID id => id
  | _ => 0

/-- The database as another object sees it, which has no part in the open batch. -/
def CTxDB.committed (txdb : CTxDB) : CTxDB := { txdb with activeBatch := none }

/-- `FindTransactionsByDestination`, which opens the database by itself. -/
def findTransactionsByDestination (txdb : CTxDB) (dest : CTxDestination) : Option (List ℕ) :=
  if dest.addrid = 0 then none else txdb.committed.readAddrIndex dest.addrid

/-- A script pays a destination: to a key, to the hash of a key or to the hash of a script. -/
inductive Pays (P : ScriptPrimitives) : CScript → CTxDestination → Prop
  | pubKey {script : CScript} {vchPubKey : Valtype}
      (hSolver : solver script = some (TX_PUBKEY, [vchPubKey]))
      (hValid : (CPubKey.ofBytes vchPubKey).isValid = true) :
      Pays P script (.keyID ((CPubKey.ofBytes vchPubKey).getID P))
  | pubKeyHash {script : CScript} {hash : Valtype}
      (hSolver : solver script = some (TX_PUBKEYHASH, [hash])) (hId : fromBytesLE hash ≠ 0) :
      Pays P script (.keyID (fromBytesLE hash))
  | scriptHash {script : CScript} {hash : Valtype}
      (hSolver : solver script = some (TX_SCRIPTHASH, [hash])) (hId : fromBytesLE hash ≠ 0) :
      Pays P script (.scriptID (fromBytesLE hash))

/-- Some output of the transaction pays the destination. -/
def PaysTo (P : ScriptPrimitives) (tx : CTransaction) (dest : CTxDestination) : Prop :=
  ∃ txout ∈ tx.vout, Pays P txout.scriptPubKey dest

/-- Some input of the transaction spends an output that pays the destination. -/
def SpendsFrom (P : ScriptPrimitives) (tx : CTransaction) (dest : CTxDestination) : Prop :=
  ∃ txin ∈ tx.vin, txin.prevout.isNull = false ∧
    ∃ txPrev : CTransaction, txPrev.getHash P.toPrimitives = txin.prevout.hash ∧
      ∃ txout, txPrev.vout[txin.prevout.n]? = some txout ∧ Pays P txout.scriptPubKey dest

/-! ## The addresses of a script -/

section BuildAddrIndex

variable {script : CScript} {op : GetOpResult}

theorem mem_buildAddrIndex
    {prims : Primitives} {id : ℕ} (hOp : op ∈ script.instructions)
    (hPush : op.opcodeRet ≤ OP_PUSHDATA4) (hLong : 8 ≤ op.vchRet.length)
    (hId : id = if op.vchRet.length ≤ 20 then fromBytesLE op.vchRet
      else prims.hash160 op.vchRet % 2 ^ 160) :
    id ∈ buildAddrIndex prims script := by
  have hData : op.vchRet ∈ (script.instructions.filter fun op =>
      op.opcodeRet ≤ OP_PUSHDATA4 && 8 ≤ op.vchRet.length).map GetOpResult.vchRet := by
    refine List.mem_map_of_mem (List.mem_filter.mpr ⟨hOp, ?_⟩)
    simp [hPush, hLong]
  unfold buildAddrIndex
  rw [if_neg (List.ne_nil_of_mem hData)]
  exact List.mem_map.mpr ⟨op.vchRet, hData, hId.symm⟩

theorem CPubKey.vch_ofBytes_of_valid
    {vch : Valtype} (h : (CPubKey.ofBytes vch).isValid = true) :
    (CPubKey.ofBytes vch).vch = vch := by
  unfold CPubKey.ofBytes at h ⊢
  split_ifs at h ⊢ with hLength
  · rfl
  · simp [CPubKey.isValid] at h

/-- The scan of a script finds the id that a search for the destination looks up. -/
theorem addrid_mem_buildAddrIndex
    {P : ScriptPrimitives} {dest : CTxDestination} (h : Pays P script dest) :
    dest.addrid ∈ buildAddrIndex P.toPrimitives script := by
  cases h with
  | pubKey hSolver hValid =>
      obtain ⟨keyOp, checkOp, hOps, ⟨hPush, hSize⟩, -, hKey⟩ := instructions_of_pubkey hSolver
      rw [List.cons.injEq] at hKey
      simp only [hasKeySize, Bool.and_eq_true, decide_eq_true_eq] at hSize
      refine mem_buildAddrIndex (show keyOp ∈ _ by simp [hOps]) hPush.2 (by omega) ?_
      rw [if_neg (by omega), CTxDestination.addrid, CPubKey.getID,
        CPubKey.vch_ofBytes_of_valid hValid, hKey.1]
  | pubKeyHash hSolver hId =>
      obtain ⟨dupOp, hashOp, pushOp, equalOp, checkOp, hOps, -, -, ⟨hPush, hSize⟩, -, -, hHash⟩ :=
        instructions_of_pubkeyhash hSolver
      rw [List.cons.injEq] at hHash
      refine mem_buildAddrIndex (show pushOp ∈ _ by simp [hOps]) hPush.2 (by omega) ?_
      rw [if_pos (by omega), CTxDestination.addrid, hHash.1]
  | scriptHash hSolver hId =>
      have hHash := (solver_scripthash_iff hSolver).mp rfl
      obtain ⟨hashOp, pushOp, equalOp, hOps, -, ⟨hPush, hData⟩, -⟩ :=
        instructions_of_scripthash hHash
      have hSize : pushOp.vchRet.length = 20 := by
        simp only [CScript.isPayToScriptHash, Bool.and_eq_true, decide_eq_true_eq] at hHash
        rw [hData, List.length_take, List.length_drop]
        omega
      unfold solver at hSolver
      rw [if_pos hHash, Option.some.injEq, Prod.mk.injEq, List.cons.injEq] at hSolver
      refine mem_buildAddrIndex (show pushOp ∈ _ by simp [hOps]) hPush.2 (by omega) ?_
      rw [if_pos (by omega), CTxDestination.addrid, hData, hSolver.2.1]

end BuildAddrIndex

/-! ## The index in the database -/

namespace CTxDB

/-- The address index as the database object reads it. -/
def addresses (txdb : CTxDB) : Postings ℕ ℕ := fun id => (txdb.readAddrIndex id).getD []

theorem addresses_congr
    {txdb txdb' : CTxDB} (h : ∀ id, txdb'.read (.adr id) = txdb.read (.adr id)) :
    txdb'.addresses = txdb.addresses := by
  funext id
  simp only [addresses, readAddrIndex, h]

/-- A write to any other key leaves the index alone. -/
theorem addresses_update_of_ne
    (txdb : CTxDB) {key : DbKey} (hKey : ∀ id, key ≠ .adr id) (value : Option DbValue) :
    addresses (BatchStore.update txdb key value).2 = txdb.addresses :=
  addresses_congr fun id => BatchStore.read_update_of_ne txdb value (hKey id).symm

/-- Inside a batch, filing a transaction posts its hash. -/
theorem addresses_writeAddrIndex
    {txdb : CTxDB} (hBatch : BatchStore.InBatch txdb) (addrHash txHash : ℕ) :
    (txdb.writeAddrIndex addrHash txHash).2.addresses =
      txdb.addresses.post addrHash txHash := by
  have hWrite (hashes : List ℕ) (id : ℕ) :
      addresses (BatchStore.write txdb (.adr addrHash) (.hashes hashes)).2 id =
        if id = addrHash then hashes else txdb.addresses id := by
    have hDone := BatchStore.update_of_inBatch hBatch (.adr addrHash) (some (.hashes hashes))
    unfold addresses readAddrIndex
    rw [BatchStore.write, BatchStore.read_update hDone]
    by_cases hId : id = addrHash
    · simp [hId]
    · simp [hId]
  funext id
  unfold writeAddrIndex Postings.post
  cases hRead : txdb.readAddrIndex addrHash with
  | none =>
      have hNone : txdb.addresses addrHash = [] := by simp [addresses, hRead]
      simp only [hWrite, hNone]
      by_cases hId : id = addrHash
      · subst hId
        simp [hNone]
      · simp [hId]
  | some hashes =>
      have hSome : txdb.addresses addrHash = hashes := by simp [addresses, hRead]
      simp only [hSome]
      by_cases hMem : txHash ∈ hashes
      · simp [hMem]
      · simp only [hMem, if_false, hWrite, not_false_eq_true, and_true]
        by_cases hId : id = addrHash
        · subst hId
          simp [hSome]
        · simp [hId]

end CTxDB

/-! ## Filing the transactions of a block -/

section Filing

variable {base txdb : CTxDB} {env : Env} {pool : CTxMemPool}

/-- The entries of a transaction for some outputs. -/
def addrEntries (prims : Primitives) (hashTx : ℕ) (vout : List CTxOut) : List (ℕ × ℕ) :=
  (vout.flatMap fun txout => buildAddrIndex prims txout.scriptPubKey).map fun id => (id, hashTx)

theorem mem_addrEntries
    {prims : Primitives} {hashTx id : ℕ} {vout : List CTxOut} {txout : CTxOut}
    (hOut : txout ∈ vout) (hId : id ∈ buildAddrIndex prims txout.scriptPubKey) :
    (id, hashTx) ∈ addrEntries prims hashTx vout :=
  List.mem_map_of_mem (List.mem_flatMap.mpr ⟨txout, hOut, hId⟩)

theorem addresses_writeAddresses
    (h : BatchStore.StagedFrom base txdb) (prims : Primitives) (hashTx : ℕ)
    (vout : List CTxOut) :
    (writeAddresses prims hashTx vout txdb).addresses =
      txdb.addresses.postAll (addrEntries prims hashTx vout) := by
  unfold writeAddresses addrEntries
  induction vout.flatMap fun txout => buildAddrIndex prims txout.scriptPubKey
    generalizing txdb with
  | nil => rfl
  | cons addrId rest ih =>
      rw [List.map_cons, Postings.postAll_cons, ← CTxDB.addresses_writeAddrIndex h.inBatch]
      exact ih (stagedFrom_writeAddrIndex h addrId hashTx)

/-- An output that the address index loop sees spent: the record of the previous transaction
says that it is in the pool, and it is there. -/
def SeesSpent (index : ℕ → Option CTxIndex) (pool : CTxMemPool) (tx : CTransaction)
    (txout : CTxOut) : Prop :=
  tx.isCoinBase = false ∧ ∃ txin ∈ tx.vin, ∃ record txPrev,
    index txin.prevout.hash = some record ∧ record.pos = CDiskTxPos.inMemoryPool ∧
      pool.lookup txin.prevout.hash = some txPrev ∧ txout ∈ txPrev.vout

/-- The fetched previous transactions have the outputs that are seen spent. -/
theorem mem_fetched_of_seesSpent
    {tx : CTransaction} {txout : CTxOut} (h : SeesSpent txdb.readTxIndex pool tx txout)
    (hFetched : (fetchInputs env txdb pool tx true false ∅).success = true) :
    txout ∈ (fetchInputs env txdb pool tx true false ∅).inputsRet.inKeyOrder.flatMap
      fun entry => entry.2.2.vout := by
  obtain ⟨hCoinBase, txin, hTxin, record, txPrev, hRecord, hPos, hPool, hOut⟩ := h
  have hLookup := lookup_fetchInputs_block hCoinBase hFetched txin.prevout.hash
  rw [if_pos ⟨txin, hTxin, rfl⟩] at hLookup
  have hPrev : prevTransaction env txdb pool txin.prevout.hash = txPrev := by
    simp [prevTransaction, recordedInPool, hRecord, hPos, hPool]
  rw [hPrev] at hLookup
  exact List.mem_flatMap.mpr ⟨_, Table.mem_inKeyOrder.mpr hLookup, hOut⟩

/-- Everything that the loop files for a transaction. -/
def Files (prims : Primitives) (index : ℕ → Option CTxIndex) (pool : CTxMemPool)
    (entries : List (ℕ × ℕ)) (tx : CTransaction) : Prop :=
  ∀ txout, txout ∈ tx.vout ∨ SeesSpent index pool tx txout →
    ∀ id ∈ buildAddrIndex prims txout.scriptPubKey, (id, tx.getHash prims) ∈ entries

theorem Files.append_right
    {prims : Primitives} {index : ℕ → Option CTxIndex} {entries : List (ℕ × ℕ)}
    {tx : CTransaction} (h : Files prims index pool entries tx) (entries' : List (ℕ × ℕ)) :
    Files prims index pool (entries ++ entries') tx :=
  fun txout hOut id hId => List.mem_append_left _ (h txout hOut id hId)

theorem Files.append_left
    {prims : Primitives} {index : ℕ → Option CTxIndex} {entries : List (ℕ × ℕ)}
    {tx : CTransaction} (h : Files prims index pool entries tx) (entries' : List (ℕ × ℕ)) :
    Files prims index pool (entries' ++ entries) tx :=
  fun txout hOut id hId => List.mem_append_right _ (h txout hOut id hId)

theorem Files.congr
    {prims : Primitives} {index index' : ℕ → Option CTxIndex} {entries : List (ℕ × ℕ)}
    {tx : CTransaction} (h : Files prims index pool entries tx)
    (hIndex : ∀ k, index' k = index k) : Files prims index' pool entries tx := by
  rwa [funext hIndex]

theorem files_addrEntries
    {prims : Primitives} {index : ℕ → Option CTxIndex} {tx : CTransaction}
    {seen : List (ℕ × ℕ)}
    (hSeen : ∀ txout, SeesSpent index pool tx txout →
      ∀ id ∈ buildAddrIndex prims txout.scriptPubKey, (id, tx.getHash prims) ∈ seen) :
    Files prims index pool (seen ++ addrEntries prims (tx.getHash prims) tx.vout) tx := by
  rintro txout (hOwn | hSpent) id hId
  · exact List.mem_append_right _ (mem_addrEntries hOwn hId)
  · exact List.mem_append_left _ (hSeen txout hSpent id hId)

/-- The loop posts entries, and if it gets to its end these are all entries of the block. -/
theorem addresses_writeAddrIndexes
    (h : BatchStore.StagedFrom base txdb) (vtx : List CTransaction) :
    ∃ entries, (writeAddrIndexes env pool vtx txdb).2.addresses = txdb.addresses.postAll entries ∧
      ((writeAddrIndexes env pool vtx txdb).1 = true →
        ∀ tx ∈ vtx, Files env.prims txdb.readTxIndex pool entries tx) := by
  induction vtx generalizing txdb with
  | nil => exact ⟨[], rfl, by simp⟩
  | cons tx rest ih =>
      -- the outputs seen spent are filed first, then the own outputs, then the rest
      have hRound {txdb' : CTxDB} {seen : List (ℕ × ℕ)} (h' : BatchStore.StagedFrom base txdb')
          (hPosted : txdb'.addresses = txdb.addresses.postAll seen)
          (hIndex : ∀ k, txdb'.readTxIndex k = txdb.readTxIndex k)
          (hSeen : ∀ txout, SeesSpent txdb.readTxIndex pool tx txout →
            ∀ id ∈ buildAddrIndex env.prims txout.scriptPubKey,
              (id, tx.getHash env.prims) ∈ seen) {written : Bool × CTxDB}
          (hWritten : written = writeAddrIndexes env pool rest
            (writeAddresses env.prims (tx.getHash env.prims) tx.vout txdb')) :
          ∃ entries, written.2.addresses = txdb.addresses.postAll entries ∧
            (written.1 = true →
              ∀ tx' ∈ tx :: rest, Files env.prims txdb.readTxIndex pool entries tx') := by
        subst hWritten
        obtain ⟨later, hLater, hAll⟩ := ih (stagedFrom_writeAddresses h')
        have hSame : (writeAddresses env.prims (tx.getHash env.prims) tx.vout txdb').readTxIndex =
            txdb.readTxIndex := by
          funext k
          rw [readTxIndex_writeAddresses, hIndex]
        rw [hSame] at hAll
        refine ⟨(seen ++ addrEntries env.prims (tx.getHash env.prims) tx.vout) ++ later, ?_, ?_⟩
        · rw [hLater, addresses_writeAddresses h', hPosted, Postings.postAll_append,
            Postings.postAll_append]
        · intro hDone tx' hTx'
          rcases List.mem_cons.mp hTx' with rfl | hRest
          · exact (files_addrEntries hSeen).append_right later
          · exact (hAll hDone tx' hRest).append_left _
      unfold writeAddrIndexes
      by_cases hCoinBase : tx.isCoinBase = true
      · simp only [hCoinBase, if_true]
        refine hRound h (show _ = txdb.addresses.postAll [] from rfl) (fun k => rfl)
          (fun txout hSpent => ?_) rfl
        exact absurd hSpent.1 (by simp [hCoinBase])
      · by_cases hFetched : (fetchInputs env txdb pool tx true false ∅).success = true
        · simp only [hCoinBase, hFetched, Bool.not_true, Bool.false_eq_true, if_false]
          refine hRound (stagedFrom_writeAddresses h) (addresses_writeAddresses h _ _ _)
            (readTxIndex_writeAddresses _ _ _ _) (fun txout hSpent id hId => ?_) rfl
          exact mem_addrEntries (mem_fetched_of_seesSpent hSpent hFetched) hId
        · simp only [hCoinBase, hFetched, Bool.false_eq_true, if_false, Bool.not_false, if_true]
          exact ⟨[], rfl, by simp⟩

end Filing

/-! ## Connecting a block -/

section Connect

variable {env : Env} {st : ChainState} {block : CBlock} {pindex : CBlockIndex}

@[simp] theorem addresses_writeQueuedChanges
    (changes : List (ℕ × CTxIndex)) (txdb : CTxDB) :
    (writeQueuedChanges changes txdb).2.addresses = txdb.addresses := by
  induction changes generalizing txdb with
  | nil => rfl
  | cons change rest ih =>
      have hWrite : (txdb.updateTxIndex change.1 change.2).2.addresses = txdb.addresses :=
        CTxDB.addresses_update_of_ne txdb (by simp) _
      rw [writeQueuedChanges]
      rcases hResult : txdb.updateTxIndex change.1 change.2 with ⟨_ | _, txdb'⟩
      · rw [hResult] at hWrite
        exact hWrite
      · rw [hResult] at hWrite
        exact (ih txdb').trans hWrite

@[simp] theorem addresses_writeBlockIndex
    (txdb : CTxDB) (prims : Primitives) (blockindex : CDiskBlockIndex) :
    (txdb.writeBlockIndex prims blockindex).2.addresses = txdb.addresses :=
  CTxDB.addresses_update_of_ne txdb (by simp) _

/-- Writing the changes of a connected block posts entries; if the address index is kept and
all goes well, these are all entries of the block. -/
theorem addresses_writeConnected
    (queue : Table ℕ CTxIndex) {base txdb : CTxDB} (h : BatchStore.StagedFrom base txdb)
    (pindex' : CBlockIndex) :
    ∃ entries, (writeConnected env st block pindex' queue txdb).2.addresses =
        txdb.addresses.postAll entries ∧
      ((writeConnected env st block pindex' queue txdb).1 = true →
        env.addrIndexEnabled = true → ∀ tx ∈ block.vtx,
          Files env.prims (writeConnected env st block pindex' queue txdb).2.readTxIndex
            st.mempool entries tx) := by
  obtain ⟨hDone, hStaged, -, -⟩ := writeQueuedChanges_spec queue.inKeyOrder txdb h
    queue.nodup_keys_inKeyOrder
  have hQueued := addresses_writeQueuedChanges queue.inKeyOrder txdb
  unfold writeConnected
  generalize writeQueuedChanges queue.inKeyOrder txdb = queued at *
  obtain ⟨done, txdb₁⟩ := queued
  obtain rfl : done = true := hDone
  cases hKeeps : env.addrIndexEnabled with
  | false =>
      refine ⟨[], ?_, by simp⟩
      simp only [Bool.false_eq_true, if_false]
      cases st.entry pindex'.pprev with
      | none => exact hQueued
      | some pprev => simpa using hQueued
  | true =>
      simp only [if_true]
      obtain ⟨entries, hPosted, hAll⟩ := @addresses_writeAddrIndexes _ _ env st.mempool hStaged
        block.vtx
      have hIndex (k : ℕ) :
          (writeAddrIndexes env st.mempool block.vtx txdb₁).2.readTxIndex k =
            txdb₁.readTxIndex k := readTxIndex_writeAddrIndexes k
      refine ⟨entries, ?_⟩
      rw [← hQueued]
      generalize writeAddrIndexes env st.mempool block.vtx txdb₁ = kept at *
      obtain ⟨kept, txdb₂⟩ := kept
      cases kept with
      | false => exact ⟨hPosted, by simp⟩
      | true =>
          cases st.entry pindex'.pprev with
          | none => exact ⟨hPosted, fun _ _ tx hTx => (hAll rfl tx hTx).congr hIndex⟩
          | some pprev =>
              refine ⟨by simpa using hPosted, fun _ _ tx hTx => (hAll rfl tx hTx).congr fun k => ?_⟩
              exact (CTxDB.readTxIndex_writeBlockIndex _ _ k).trans (hIndex k)

/-- A connection that ends with a value has left the database alone, or it has written an
index entry and the changes of the block; the latter if the block runs through. -/
theorem connectBlock_writes
    (hBatch : BatchStore.InBatch st.txdb) {r : ConnectResult}
    (h : connectBlock env st block pindex false = .ok r) :
    (r.txdb = st.txdb ∧ ¬(r.success = true ∧ ConnectRunsThrough env st block pindex)) ∨
      ∃ pindex' queue, (r.success, r.txdb) = writeConnected env st block pindex' queue
        (st.txdb.writeBlockIndex env.prims (CDiskBlockIndex.ofIndex pindex')).2 := by
  rcases connectBlock_eq_ok hBatch h with ⟨hNot, hSame, -⟩ | ⟨tally, -, -, -, hWritten⟩
  · left
    refine ⟨hSame, fun hBoth => hNot ⟨?_, hBoth.2⟩⟩
    exact ((connectBlock_succeeds_iff hBatch).mp ⟨r, h, hBoth.1⟩).1
  · exact Or.inr ⟨r.pindex, tally.mapQueuedChanges, hWritten⟩

/-- Connecting a block posts entries; if the block runs through, the connection succeeds
and the address index is kept, these are all entries of the block. -/
theorem addresses_connectBlock
    (hBatch : BatchStore.InBatch st.txdb) {r : ConnectResult}
    (h : connectBlock env st block pindex false = .ok r) :
    ∃ entries, r.txdb.addresses = st.txdb.addresses.postAll entries ∧
      (r.success = true → ConnectRunsThrough env st block pindex →
        env.addrIndexEnabled = true → ∀ tx ∈ block.vtx,
          Files env.prims (indexAfter env st block pindex) st.mempool entries tx) := by
  rcases connectBlock_writes hBatch h with ⟨hSame, hNot⟩ | ⟨pindex', queue, hWritten⟩
  · exact ⟨[], by rw [hSame]; rfl, fun hDone hThrough => absurd ⟨hDone, hThrough⟩ hNot⟩
  · have hStaged : BatchStore.StagedFrom st.txdb
        (st.txdb.writeBlockIndex env.prims (CDiskBlockIndex.ofIndex pindex')).2 :=
      (BatchStore.StagedFrom.refl hBatch).update _ _
    obtain ⟨entries, hPosted, hAll⟩ := @addresses_writeConnected env st block queue _ _ hStaged
      pindex'
    rw [← hWritten] at hPosted hAll
    rw [addresses_writeBlockIndex] at hPosted
    refine ⟨entries, hPosted, fun hDone hThrough hKeeps tx hTx => ?_⟩
    have hPassed := ((connectBlock_succeeds_iff hBatch).mp ⟨r, h, hDone⟩).1
    refine (hAll hDone hKeeps tx hTx).congr fun k => ?_
    exact (readTxIndex_of_runsThrough hBatch hPassed hThrough h k).symm

end Connect

end SocietyGold
