import SocietyGold.AcceptToMemoryPool
import SocietyGold.OrphanPool
import SocietyGold.PreviousTransaction
import Mathlib.Data.Finset.Sort

/-!
# Orphans of an accepted transaction

When a transaction is accepted, the handling of its message goes over the orphans that
spend its outputs, then over the orphans of those that are accepted, and so on.  But an
orphan of a loose transaction is never accepted: `AcceptToMemoryPool` looks for the
transactions of all its inputs in the database, where the accepted one is not.
-/

namespace SocietyGold

open Support

/-! ## The handling of a transaction message -/

def MAX_ORPHAN_TRANSACTIONS : ℕ := MAX_BLOCK_SIZE / 10000

/-- The two pools that a transaction message changes. -/
structure TxPools where
  mempool : CTxMemPool
  orphans : OrphanPool

/-- The state of the loop over the work queue. -/
structure Resolution extends TxPools where
  vWorkQueue : List ℕ
  vEraseQueue : List ℕ

section Handling

variable (env : RelayEnv) (st : ChainState)

/-- One orphan of the inner loop.  `mapOrphanTransactions[orphanTxHash]` would create an
empty transaction. -/
def resolveOrphan (s : Resolution) (orphanTxHash : ℕ) : Checked Resolution := do
  let map := s.orphans.mapOrphanTransactions.touch orphanTxHash (CTransaction.null env.adjustedTime)
  let s := { s with orphans := { s.orphans with mapOrphanTransactions := map } }
  let orphanTx := (map.lookup orphanTxHash).getD (CTransaction.null env.adjustedTime)
  let r ← acceptToMemoryPool env { st with mempool := s.mempool } orphanTx true false false
  if r.accepted then
    .ok { s with
      mempool := r.mempool
      vWorkQueue := s.vWorkQueue ++ [orphanTxHash]
      vEraseQueue := s.vEraseQueue ++ [orphanTxHash] }
  else if !r.fMissingInputs then
    .ok { s with vEraseQueue := s.vEraseQueue ++ [orphanTxHash] }
  else .ok s

/-- The inner loop, over the orphans that spend outputs of the transaction. -/
def resolveDependents (hash : ℕ) (s : Resolution) : Checked Resolution :=
  ((SetTable.valuesAt s.orphans.mapOrphanTransactionsByPrev hash).sort).foldlM
    (resolveOrphan env st) s

/-- The loop over the work queue, which grows on the way. -/
def resolveLoop : (fuel i : ℕ) → Resolution → Checked Resolution
  | 0, _, _ => .error .diverges
  | fuel + 1, i, s =>
      match s.vWorkQueue[i]? with
      | none => .ok s
      | some hash => do
          let s ← resolveDependents env st hash s
          resolveLoop fuel (i + 1) s

/-- The handling of a `tx` or `dstx` message once the transaction has been read and its
sender, if it is a masternode, verified.  An orphan enters the work queue at most once. -/
def handleTx (orphans : OrphanPool) (draws : ℕ → ℕ) (tx : CTransaction) (ignoreFees : Bool) :
    Checked TxPools := do
  let r ← acceptToMemoryPool env st tx true false ignoreFees
  if r.accepted then do
    let s ← resolveLoop env st (orphans.size + 2) 0
      ⟨⟨r.mempool, orphans⟩, [tx.getHash env.prims], []⟩
    .ok ⟨s.mempool, s.vEraseQueue.foldl OrphanPool.eraseOrphanTx s.orphans⟩
  else if r.fMissingInputs then do
    let orphans := (orphans.addOrphanTx env.prims tx).2
    let (_, orphans) ← orphans.limitOrphanTxSize draws MAX_ORPHAN_TRANSACTIONS
    .ok ⟨r.mempool, orphans⟩
  else .ok ⟨r.mempool, orphans⟩

end Handling

/-! ## What the loop does -/

section Loop

variable {env : RelayEnv} {st : ChainState} {orphans : OrphanPool} {prev : ℕ}

/-- The orphan under the hash is refused before its inputs are looked for. -/
def refusesOrphan (env : RelayEnv) (st : ChainState) (orphans : OrphanPool) (hash : ℕ) : Bool :=
  (orphans.mapOrphanTransactions.lookup hash).any (refusedAlone env st)

/-- An orphan that spends from a transaction the database has not is not accepted.  It is
queued for erasure if it was refused before. -/
theorem resolveOrphan_of_missing
    (hFormed : orphans.WellFormed env.prims) (hPrev : st.txdb.containsTx prev = false)
    {mempool : CTxMemPool} {vWorkQueue vEraseQueue : List ℕ} {hash : ℕ}
    (hMem : hash ∈ SetTable.valuesAt orphans.mapOrphanTransactionsByPrev prev) :
    resolveOrphan env st ⟨⟨mempool, orphans⟩, vWorkQueue, vEraseQueue⟩ hash =
      .ok ⟨⟨mempool, orphans⟩, vWorkQueue, vEraseQueue ++
        [hash].filter (refusesOrphan env { st with mempool := mempool } orphans)⟩ := by
  obtain ⟨tx, hLookup, hInput⟩ := (hFormed.index hash prev).mp hMem
  obtain ⟨txin, hTxin, hHash⟩ := List.mem_map.mp hInput
  have hMisses : lacksInput { st with mempool := mempool } tx = true := by
    rw [lacksInput_iff]
    exact ⟨txin, hTxin, by rw [hHash]; exact hPrev⟩
  have hPresent : hash ∈ orphans.mapOrphanTransactions := Table.mem_iff_lookup.mpr ⟨tx, hLookup⟩
  unfold resolveOrphan Table.touch refusesOrphan
  simp only [if_pos hPresent, hLookup, Option.getD_some, acceptToMemoryPool_of_lacksInput hMisses,
    ok_bind, Bool.false_eq_true, if_false, Bool.not_not]
  cases hRefused : refusedAlone env { st with mempool := mempool } tx with
  | true => simp [hLookup, hRefused]
  | false => simp [hLookup, hRefused]

theorem resolveDependents_of_missing
    (hFormed : orphans.WellFormed env.prims) (hPrev : st.txdb.containsTx prev = false)
    (mempool : CTxMemPool) (vWorkQueue vEraseQueue : List ℕ) :
    resolveDependents env st prev ⟨⟨mempool, orphans⟩, vWorkQueue, vEraseQueue⟩ =
      .ok ⟨⟨mempool, orphans⟩, vWorkQueue, vEraseQueue ++
        ((SetTable.valuesAt orphans.mapOrphanTransactionsByPrev prev).sort).filter
          (refusesOrphan env { st with mempool := mempool } orphans)⟩ := by
  have hAll : ∀ hash ∈ (SetTable.valuesAt orphans.mapOrphanTransactionsByPrev prev).sort,
      hash ∈ SetTable.valuesAt orphans.mapOrphanTransactionsByPrev prev := by
    intro hash hMem
    exact (Finset.mem_sort _).mp hMem
  unfold resolveDependents
  dsimp only
  generalize (SetTable.valuesAt orphans.mapOrphanTransactionsByPrev prev).sort = hashes at hAll ⊢
  induction hashes generalizing vEraseQueue with
  | nil => simp
  | cons hash hashes ih =>
      rw [List.foldlM_cons, resolveOrphan_of_missing hFormed hPrev (hAll hash (by simp)), ok_bind,
        ih _ fun other hOther => hAll other (by simp [hOther]), List.append_assoc,
        ← List.filter_append, List.singleton_append]

/-- After a transaction was accepted no orphan is: those that spend from it and are refused
for another reason are erased. -/
theorem handleTx_of_accepted
    {draws : ℕ → ℕ} {tx : CTransaction} {ignoreFees : Bool} {r : AcceptResult}
    (hFormed : orphans.WellFormed env.prims)
    (hAccept : acceptToMemoryPool env st tx true false ignoreFees = .ok r)
    (hAccepted : r.accepted = true) :
    handleTx env st orphans draws tx ignoreFees =
      .ok ⟨r.mempool,
        (((SetTable.valuesAt orphans.mapOrphanTransactionsByPrev
          (tx.getHash env.prims)).sort).filter
            (refusesOrphan env { st with mempool := r.mempool } orphans)).foldl
              OrphanPool.eraseOrphanTx orphans⟩ := by
  have hNew : st.txdb.containsTx (tx.getHash env.prims) = false := by
    rcases acceptToMemoryPool_eq_ok hAccept with ⟨hNot, -⟩ | ⟨-, hRefused, -, -⟩
    · rw [hAccepted] at hNot
      cases hNot
    · exact (refusedAlone_eq_false hRefused).2.2.2
  unfold handleTx
  rw [hAccept, ok_bind, if_pos hAccepted]
  -- the first round handles the orphans of the transaction, the second finds the queue done
  simp only [resolveLoop, List.getElem?_cons_zero,
    resolveDependents_of_missing hFormed hNew, ok_bind, List.getElem?_cons_succ,
    List.getElem?_nil, List.nil_append]

end Loop

/-! ## The pools stay consistent -/

section Pools

variable {env : RelayEnv} {st : ChainState}

/-- The maps of each pool agree, and there are not too many orphans. -/
structure TxPools.WellFormed (prims : Primitives) (pools : TxPools) : Prop where
  mempool : pools.mempool.Consistent prims
  orphans : pools.orphans.WellFormed prims
  size : pools.orphans.size ≤ MAX_ORPHAN_TRANSACTIONS

/-- One message keeps both pools consistent. -/
theorem wellFormed_of_handleTx
    {orphans : OrphanPool} {draws : ℕ → ℕ} {tx : CTransaction} {ignoreFees : Bool}
    {after : TxPools} (h : TxPools.WellFormed env.prims ⟨st.mempool, orphans⟩)
    (hRun : handleTx env st orphans draws tx ignoreFees = .ok after) :
    after.WellFormed env.prims := by
  cases hAccept : acceptToMemoryPool env st tx true false ignoreFees with
  | error fault =>
      unfold handleTx at hRun
      rw [hAccept] at hRun
      cases hRun
  | ok r =>
      have hPool := consistent_of_acceptToMemoryPool hAccept h.mempool
      cases hAccepted : r.accepted with
      | true =>
          rw [handleTx_of_accepted h.orphans hAccept hAccepted] at hRun
          cases hRun
          refine ⟨hPool, h.orphans.foldl_eraseOrphanTx _, le_trans ?_ h.size⟩
          exact OrphanPool.size_foldl_eraseOrphanTx_le _ _
      | false =>
          unfold handleTx at hRun
          rw [hAccept, ok_bind, if_neg (by simp [hAccepted])] at hRun
          cases hMissing : r.fMissingInputs with
          | true =>
              rw [if_pos hMissing, bind_eq_ok] at hRun
              obtain ⟨⟨nEvicted, limited⟩, hLimit, hRun⟩ := hRun
              cases hRun
              obtain ⟨n, pool', hReturns, hFormed, hSize⟩ :=
                (h.orphans.addOrphanTx tx).limitOrphanTxSize draws MAX_ORPHAN_TRANSACTIONS
              cases hReturns.symm.trans hLimit
              exact ⟨hPool, hFormed, hSize⟩
          | false =>
              rw [if_neg (by simp [hMissing])] at hRun
              cases hRun
              exact ⟨hPool, h.orphans, h.size⟩

/-- A transaction message that is handled, whatever the chain is by then. -/
def HandlesTx (prims : Primitives) (before after : TxPools) : Prop :=
  ∃ (env : RelayEnv) (st : ChainState) (draws : ℕ → ℕ) (tx : CTransaction) (ignoreFees : Bool),
    env.prims = prims ∧ st.mempool = before.mempool ∧
      handleTx env st before.orphans draws tx ignoreFees = .ok after

theorem wellFormed_of_messages
    {prims : Primitives} {before after : TxPools} (h : before.WellFormed prims)
    (hRun : Relation.ReflTransGen (HandlesTx prims) before after) : after.WellFormed prims := by
  induction hRun with
  | refl => exact h
  | tail _ hStep ih =>
      obtain ⟨env, st, draws, tx, ignoreFees, rfl, hPool, hHandle⟩ := hStep
      apply wellFormed_of_handleTx _ hHandle
      rw [hPool]
      exact ih

end Pools

/-! ## When orphans are resolved -/

/-- All inputs refer to transactions of the database or of the pool. -/
def InputsAvailable (st : ChainState) (pool : CTxMemPool) (tx : CTransaction) : Prop :=
  ∀ txin ∈ tx.vin, st.txdb.containsTx txin.prevout.hash = true ∨ txin.prevout.hash ∈ pool.mapTx

/-- No other transaction of the pool spends what the transaction spends. -/
def ConflictsWithNone (prims : Primitives) (pool : CTxMemPool) (tx : CTransaction) : Prop :=
  ∀ txin ∈ tx.vin, ∀ inPoint, pool.mapNextTx.lookup txin.prevout = some inPoint →
    inPoint.1 = tx.getHash prims

/-- The transaction can go into the pool, where `valid` is whatever else is asked of it. -/
structure Qualifies (prims : Primitives) (st : ChainState) (valid : CTransaction → Prop)
    (pool : CTxMemPool) (tx : CTransaction) : Prop where
  available : InputsAvailable st pool tx
  alone : ConflictsWithNone prims pool tx
  valid : valid tx

/-- Every orphan that can go into the memory pool has gone there. -/
def ResolvesOrphans (prims : Primitives) (st : ChainState) (valid : CTransaction → Prop)
    (orphans : OrphanPool) (after : TxPools) : Prop :=
  ∀ hash tx, orphans.mapOrphanTransactions.lookup hash = some tx →
    Qualifies prims st valid after.mempool tx →
      hash ∈ after.mempool.mapTx ∧ hash ∉ after.orphans.mapOrphanTransactions

section Resolving

variable {env : RelayEnv} {st : ChainState} {orphans : OrphanPool} {tx : CTransaction}

/-- An orphan that is in the memory pool already is erased exactly if it spends from the
accepted transaction. -/
theorem erased_iff
    {mempool : CTxMemPool} {hash : ℕ} {orphan : CTransaction}
    (hFormed : orphans.WellFormed env.prims)
    (hLookup : orphans.mapOrphanTransactions.lookup hash = some orphan)
    (hMem : hash ∈ mempool.mapTx) (prev : ℕ) :
    hash ∈ ((SetTable.valuesAt orphans.mapOrphanTransactionsByPrev prev).sort).filter
        (refusesOrphan env { st with mempool := mempool } orphans) ↔
      prev ∈ orphan.vin.map fun txin => txin.prevout.hash := by
  have hRefuses : refusesOrphan env { st with mempool := mempool } orphans hash = true := by
    unfold refusesOrphan
    rw [hLookup, Option.any_some]
    apply refusedAlone_of_mem
    rw [hFormed.filed hash orphan hLookup]
    exact hMem
  rw [List.mem_filter, Finset.mem_sort, hFormed.index]
  constructor
  · rintro ⟨⟨stored, hStored, hInput⟩, -⟩
    cases hLookup.symm.trans hStored
    exact hInput
  · exact fun hInput => ⟨⟨orphan, hLookup, hInput⟩, hRefuses⟩

theorem resolvesOrphans_of_handleTx
    (draws : ℕ → ℕ) (valid : CTransaction → Prop) {ignoreFees : Bool} {r : AcceptResult}
    (hFormed : orphans.WellFormed env.prims)
    (hAccept : acceptToMemoryPool env st tx true false ignoreFees = .ok r)
    (hAccepted : r.accepted = true) :
    ∃ after, handleTx env st orphans draws tx ignoreFees = .ok after ∧
      after.mempool = r.mempool ∧
      (ResolvesOrphans env.prims st valid orphans after ↔
        ∀ hash orphan, orphans.mapOrphanTransactions.lookup hash = some orphan →
          Qualifies env.prims st valid r.mempool orphan →
            hash ∈ r.mempool.mapTx ∧
              tx.getHash env.prims ∈ orphan.vin.map fun txin => txin.prevout.hash) := by
  refine ⟨_, handleTx_of_accepted hFormed hAccept hAccepted, rfl, ?_⟩
  have hErased : ∀ hash orphan, orphans.mapOrphanTransactions.lookup hash = some orphan →
      ∀ hashes : List ℕ,
        (hash ∉ (hashes.foldl OrphanPool.eraseOrphanTx orphans).mapOrphanTransactions ↔
          hash ∈ hashes) := by
    intro hash orphan hLookup hashes
    rw [Table.not_mem_iff_lookup, OrphanPool.lookup_foldl_eraseOrphanTx, hLookup]
    by_cases hMem : hash ∈ hashes
    · simp [hMem]
    · simp [hMem]
  constructor
  · intro hResolves hash orphan hLookup hQualifies
    obtain ⟨hMem, hGone⟩ := hResolves hash orphan hLookup hQualifies
    exact ⟨hMem, (erased_iff hFormed hLookup hMem _).mp ((hErased hash orphan hLookup _).mp hGone)⟩
  · intro hOnly hash orphan hLookup hQualifies
    obtain ⟨hMem, hInput⟩ := hOnly hash orphan hLookup hQualifies
    exact ⟨hMem, (hErased hash orphan hLookup _).mpr
      ((erased_iff hFormed hLookup hMem _).mpr hInput)⟩

/-- After a transaction was accepted the orphans that qualify have gone into the memory pool
exactly if there are none, except that an orphan may have been there before and spend from
the accepted transaction. -/
theorem resolvesOrphans_iff
    {calls : List OrphanPool.Call}
    (hOrphans : OrphanPool.runCalls env.prims calls OrphanPool.empty = .ok orphans)
    {ignoreFees fMissingInputs : Bool} {mempool : CTxMemPool}
    (hAccept : acceptToMemoryPool env st tx true false ignoreFees =
      .ok ⟨true, fMissingInputs, mempool⟩)
    (draws : ℕ → ℕ) (valid : CTransaction → Prop) :
    ∃ after, handleTx env st orphans draws tx ignoreFees = .ok after ∧
      (ResolvesOrphans env.prims st valid orphans after ↔
        ∀ hash orphan, orphans.mapOrphanTransactions.lookup hash = some orphan →
          Qualifies env.prims st valid (st.mempool.addUnchecked (tx.getHash env.prims) tx) orphan →
            hash ∈ (st.mempool.addUnchecked (tx.getHash env.prims) tx).mapTx ∧
              tx.getHash env.prims ∈ orphan.vin.map fun txin => txin.prevout.hash) := by
  obtain ⟨formed, hRun, hFormed⟩ := (OrphanPool.wellFormed_empty env.prims).runCalls calls
  cases hOrphans.symm.trans hRun
  obtain ⟨after, hHandle, -, hIff⟩ :=
    resolvesOrphans_of_handleTx draws valid hFormed hAccept rfl
  rcases acceptToMemoryPool_eq_ok hAccept with ⟨hNot, -⟩ | ⟨-, -, -, hPool⟩
  · cases hNot
  · dsimp only at hPool hIff
    rw [hPool] at hIff
    exact ⟨after, hHandle, hIff⟩

end Resolving

/-! ## An orphan that waits in vain -/

/-- The transaction under a hash: in the pool, or on disk where the index says. -/
def previousTransaction (st : ChainState) (pool : CTxMemPool) (hash : ℕ) : Option CTransaction :=
  (pool.mapTx.lookup hash).or
    ((st.txdb.readTxIndex hash).bind (CTransaction.recordedTransaction st))

/-- The output an input refers to, in a transaction that is not younger. -/
def spentOutput (st : ChainState) (pool : CTxMemPool) (tx : CTransaction) (txin : CTxIn) :
    Option CTxOut := do
  let txPrev ← previousTransaction st pool txin.prevout.hash
  if txPrev.nTime > tx.nTime then none else txPrev.vout[txin.prevout.n]?

/-- Nothing speaks against a loose transaction of the test network if its inputs are there:
it passes the checks of its own, its scripts verify and it pays the fee. -/
structure OtherwiseValid (env : RelayEnv) (st : ChainState) (pool : CTxMemPool)
    (tx : CTransaction) : Prop where
  testNet : env.fTestNet = true
  checked : tx.checkTransaction.passed = true
  loose : (!tx.isCoinBase && !tx.isCoinStake) = true
  unlocked : lockedForOther env tx = false
  fresh : st.txdb.containsTx (tx.getHash env.prims) = false
  signed : ∀ input ∈ tx.vin.zipIdx, (spentOutput st pool tx input.1).any
    (fun txout => env.verifyScript input.1.scriptSig txout.scriptPubKey tx input.2
      STANDARD_SCRIPT_VERIFY_FLAGS 0) = true
  fee : getMinFee tx tx.getSerializeSize .GMF_RELAY ≤
    ((tx.vin.filterMap (spentOutput st pool tx)).map CTxOut.nValue).sum - tx.valueOut

namespace Sample

theorem relayEnv_prims : prims = (env 900).prims := rfl

def relayEnv : RelayEnv where
  toEnv := env 900
  fTestNet := true
  mapDarksendBroadcastTxes := ∅
  scriptPrims :=
    { toPrimitives := prims
      ripemd160 := id
      sha1 := id
      sha256 := id
      checkLowS := fun _ => true }
  signatureCache := CSignatureCache.empty
  prims_eq := relayEnv_prims

/-- A node whose database has a transaction with one unspent output. -/
def nodeWithOutput : ChainState := nodeWith [(7, CTxIndex.unspent ⟨1, 8, 8⟩ 1)]

/-- A payment a masternode sends for free. -/
def freePayment : CTransaction := payment ⟨7, 0⟩ 5000

/-- It spends the free payment and pays a fee of 2000. -/
def waiting : CTransaction := payment ⟨freePayment.getHash prims, 0⟩ 3000

/-- It spends from a transaction that is nowhere. -/
def unrelated : CTransaction := payment ⟨9, 0⟩ 3000

def orphansOf (tx : CTransaction) : OrphanPool := (OrphanPool.empty.addOrphanTx prims tx).2

/-- The memory pool once the free payment is in it. -/
def freePool : CTxMemPool := emptyPool.addUnchecked (freePayment.getHash prims) freePayment

theorem freePayment_accepted :
    acceptToMemoryPool relayEnv nodeWithOutput freePayment true false true =
      .ok ⟨true, false, freePool⟩ := by
  have hDone : (acceptToMemoryPool relayEnv nodeWithOutput freePayment true false true).map
      (fun r => (r.accepted, r.fMissingInputs)) = .ok (true, false) := by decide +kernel
  cases hAccept : acceptToMemoryPool relayEnv nodeWithOutput freePayment true false true with
  | error fault =>
      rw [hAccept] at hDone
      cases hDone
  | ok r =>
      obtain ⟨accepted, fMissingInputs, mempool⟩ := r
      rw [hAccept] at hDone
      cases hDone
      rcases acceptToMemoryPool_eq_ok hAccept with ⟨hNot, -⟩ | ⟨-, -, -, hPool⟩
      · cases hNot
      · dsimp only at hPool
        rw [hPool]
        rfl

theorem waiting_otherwiseValid : OtherwiseValid relayEnv nodeWithOutput freePool waiting := by
  constructor <;> decide +kernel

/-- It qualifies, and stays an orphan. -/
theorem waiting_not_resolved :
    ∃ after, handleTx relayEnv nodeWithOutput (orphansOf waiting) (fun _ => 0) freePayment true =
        .ok after ∧
      (orphansOf waiting).mapOrphanTransactions.lookup (waiting.getHash prims) = some waiting ∧
      OtherwiseValid relayEnv nodeWithOutput after.mempool waiting ∧
      ¬ResolvesOrphans prims nodeWithOutput
        (OtherwiseValid relayEnv nodeWithOutput after.mempool) (orphansOf waiting) after := by
  have hFormed : (orphansOf waiting).WellFormed relayEnv.prims :=
    (OrphanPool.wellFormed_empty prims).addOrphanTx waiting
  obtain ⟨after, hHandle, hPool, hIff⟩ :=
    resolvesOrphans_of_handleTx (fun _ => 0) (OtherwiseValid relayEnv nodeWithOutput freePool)
      hFormed freePayment_accepted rfl
  have hLookup : (orphansOf waiting).mapOrphanTransactions.lookup (waiting.getHash prims) =
      some waiting := by decide +kernel
  have hQualifies : Qualifies prims nodeWithOutput
      (OtherwiseValid relayEnv nodeWithOutput freePool) freePool waiting := by
    refine ⟨?_, ?_, waiting_otherwiseValid⟩
    · unfold InputsAvailable
      decide +kernel
    · intro txin hInput inPoint hNext
      have hNone : ∀ input ∈ waiting.vin, freePool.mapNextTx.lookup input.prevout = none := by
        decide +kernel
      rw [hNone txin hInput] at hNext
      cases hNext
  have hAbsent : waiting.getHash prims ∉ freePool.mapTx := by decide +kernel
  have hSame : after.mempool = freePool := hPool
  refine ⟨after, hHandle, hLookup, ?_⟩
  rw [hSame]
  refine ⟨waiting_otherwiseValid, fun hResolves => ?_⟩
  exact hAbsent (hIff.mp hResolves _ waiting hLookup hQualifies).1

/-- The orphan whose input is nowhere may wait on. -/
theorem unrelated_waits :
    ∃ after, handleTx relayEnv nodeWithOutput (orphansOf unrelated) (fun _ => 0) freePayment true =
        .ok after ∧
      ResolvesOrphans prims nodeWithOutput (OtherwiseValid relayEnv nodeWithOutput freePool)
        (orphansOf unrelated) after := by
  have hOrphans : OrphanPool.runCalls relayEnv.prims [.addOrphanTx unrelated] OrphanPool.empty =
      .ok (orphansOf unrelated) := rfl
  obtain ⟨after, hHandle, hIff⟩ := resolvesOrphans_iff hOrphans freePayment_accepted
    (fun _ => 0) (OtherwiseValid relayEnv nodeWithOutput freePool)
  refine ⟨after, hHandle, hIff.mpr fun hash orphan hLookup hQualifies => ?_⟩
  have hEntries : (orphansOf unrelated).mapOrphanTransactions.entries =
      [⟨unrelated.getHash prims, unrelated⟩] := by decide +kernel
  have hMem := AList.mem_lookup_iff.mp hLookup
  rw [hEntries, List.mem_singleton, Sigma.mk.injEq] at hMem
  obtain ⟨-, hOrphan⟩ := hMem
  rw [eq_of_heq hOrphan] at hQualifies
  have hNowhere : ¬InputsAvailable nodeWithOutput freePool unrelated := by
    unfold InputsAvailable
    decide +kernel
  exact absurd hQualifies.available hNowhere

/-- The pools of the node are in order before the free payment and after it. -/
theorem wellFormed_of_freePayment :
    ∃ after, HandlesTx prims ⟨nodeWithOutput.mempool, orphansOf waiting⟩ after ∧
      after.WellFormed prims := by
  have hFormed : (orphansOf waiting).WellFormed prims :=
    (OrphanPool.wellFormed_empty prims).addOrphanTx waiting
  obtain ⟨after, hHandle, -⟩ := resolvesOrphans_of_handleTx (fun _ => 0)
    (OtherwiseValid relayEnv nodeWithOutput freePool) hFormed freePayment_accepted rfl
  have hStep : HandlesTx prims ⟨nodeWithOutput.mempool, orphansOf waiting⟩ after :=
    ⟨relayEnv, nodeWithOutput, fun _ => 0, freePayment, true, rfl, rfl, hHandle⟩
  exact ⟨after, hStep, wellFormed_of_messages
    ⟨CTxMemPool.consistent_clear prims, hFormed, by decide +kernel⟩ (.single hStep)⟩

end Sample

end SocietyGold
