import SocietyGold.Transaction
import SocietyGold.Support.SetTable

/-!
# Orphan transactions

Transactions with a missing input wait in `mapOrphanTransactions`, and
`mapOrphanTransactionsByPrev` lists under each id the orphans that spend an output of the
transaction with that id.  Both maps are changed by three functions, one of which evicts
orphans at random.
-/

namespace SocietyGold

open Support

structure OrphanPool where
  mapOrphanTransactions : Table ℕ CTransaction
  mapOrphanTransactionsByPrev : Table ℕ (Finset ℕ)

namespace OrphanPool

/-! ## Operations -/

def empty : OrphanPool := ⟨∅, ∅⟩

def size (pool : OrphanPool) : ℕ := pool.mapOrphanTransactions.keys.length

/-- `AddOrphanTx`.  Transactions of more than 5000 bytes are ignored. -/
def addOrphanTx (prims : Primitives) (pool : OrphanPool) (tx : CTransaction) :
    Bool × OrphanPool :=
  let hash := tx.getHash prims
  if hash ∈ pool.mapOrphanTransactions then (false, pool)
  else if tx.getSerializeSize > 5000 then (false, pool)
  else
    (true,
      { mapOrphanTransactions := pool.mapOrphanTransactions.insert hash tx
        mapOrphanTransactionsByPrev :=
          tx.vin.foldl (fun byPrev txin => SetTable.insertAt byPrev txin.prevout.hash hash)
            pool.mapOrphanTransactionsByPrev })

def eraseOrphanTx (pool : OrphanPool) (hash : ℕ) : OrphanPool :=
  match pool.mapOrphanTransactions.lookup hash with
  | none => pool
  | some tx =>
      { mapOrphanTransactions := pool.mapOrphanTransactions.erase hash
        mapOrphanTransactionsByPrev :=
          tx.vin.foldl (fun byPrev txin => SetTable.eraseAt byPrev txin.prevout.hash hash)
            pool.mapOrphanTransactionsByPrev }

/-- The orphan to evict: `lower_bound` of the random hash, or `begin()` if there is none. -/
def evicted (pool : OrphanPool) (randomhash : ℕ) : Option ℕ :=
  let keys := pool.mapOrphanTransactions.keys
  (keys.filter (randomhash ≤ ·)).min?.or keys.min?

/-- The loop of `LimitOrphanTxSize`; `GetRandHash()` returns the given hashes in turn. -/
def limitLoop (nMaxOrphans : ℕ) :
    (fuel : ℕ) → (draws : ℕ → ℕ) → (nEvicted : ℕ) → OrphanPool → Checked (ℕ × OrphanPool)
  | 0, _, _, _ => .error .diverges
  | fuel + 1, draws, nEvicted, pool =>
      if pool.size > nMaxOrphans then
        match pool.evicted (draws 0) with
        | none => .error .danglingReference
        | some hash =>
            limitLoop nMaxOrphans fuel (fun i => draws (i + 1)) ((nEvicted + 1) % 2 ^ 32)
              (pool.eraseOrphanTx hash)
      else .ok (nEvicted, pool)

def limitOrphanTxSize (draws : ℕ → ℕ) (nMaxOrphans : ℕ) (pool : OrphanPool) :
    Checked (ℕ × OrphanPool) :=
  limitLoop nMaxOrphans (pool.size + 1) draws 0 pool

/-! ## The two maps agree -/

/-- Orphans lie under their ids, and the second map lists exactly the ids of their
inputs. -/
structure WellFormed (prims : Primitives) (pool : OrphanPool) : Prop where
  filed : ∀ hash tx, pool.mapOrphanTransactions.lookup hash = some tx → tx.getHash prims = hash
  index : ∀ hash prev, hash ∈ SetTable.valuesAt pool.mapOrphanTransactionsByPrev prev ↔
    ∃ tx, pool.mapOrphanTransactions.lookup hash = some tx ∧
      prev ∈ tx.vin.map fun txin => txin.prevout.hash
  noEmpty : SetTable.NoEmpty pool.mapOrphanTransactionsByPrev

section Agreement

variable {prims : Primitives} {pool : OrphanPool}

theorem wellFormed_empty (prims : Primitives) : empty.WellFormed prims where
  filed := by simp [empty]
  index := by simp [empty]
  noEmpty := SetTable.noEmpty_empty

theorem WellFormed.addOrphanTx
    (h : pool.WellFormed prims) (tx : CTransaction) :
    (pool.addOrphanTx prims tx).2.WellFormed prims := by
  unfold OrphanPool.addOrphanTx
  dsimp only
  by_cases hMem : tx.getHash prims ∈ pool.mapOrphanTransactions
  · rw [if_pos hMem]
    exact h
  · rw [if_neg hMem]
    by_cases hSize : tx.getSerializeSize > 5000
    · rw [if_pos hSize]
      exact h
    · rw [if_neg hSize]
      have hAbsent := Table.not_mem_iff_lookup.mp hMem
      constructor
      · intro hash stored hLookup
        dsimp only at hLookup
        rw [Table.lookup_insert_ite] at hLookup
        split_ifs at hLookup with hHash
        · rw [← Option.some.inj hLookup, hHash]
        · exact h.filed hash stored hLookup
      · intro hash prev
        dsimp only
        rw [SetTable.mem_valuesAt_foldl_insertAt, h.index, Table.lookup_insert_ite]
        by_cases hHash : hash = tx.getHash prims
        · subst hHash
          simp [hAbsent]
        · simp [hHash]
      · exact h.noEmpty.foldl_insertAt _ _ _

theorem lookup_eraseOrphanTx (pool : OrphanPool) (hash k : ℕ) :
    (pool.eraseOrphanTx hash).mapOrphanTransactions.lookup k =
      if k = hash then none else pool.mapOrphanTransactions.lookup k := by
  unfold eraseOrphanTx
  cases hLookup : pool.mapOrphanTransactions.lookup hash with
  | none =>
      by_cases hKey : k = hash
      · rw [if_pos hKey, hKey]
        exact hLookup
      · rw [if_neg hKey]
  | some tx => exact Table.lookup_erase_ite _ _ _

theorem WellFormed.eraseOrphanTx
    (h : pool.WellFormed prims) (hash : ℕ) : (pool.eraseOrphanTx hash).WellFormed prims := by
  constructor
  · intro k tx hLookup
    rw [lookup_eraseOrphanTx] at hLookup
    split_ifs at hLookup
    exact h.filed k tx hLookup
  · intro k prev
    rw [lookup_eraseOrphanTx]
    unfold OrphanPool.eraseOrphanTx
    cases hLookup : pool.mapOrphanTransactions.lookup hash with
    | none =>
        rw [h.index]
        by_cases hKey : k = hash
        · subst hKey
          simp [hLookup]
        · simp [hKey]
    | some tx =>
        dsimp only
        rw [SetTable.mem_valuesAt_foldl_eraseAt, h.index]
        by_cases hKey : k = hash
        · subst hKey
          simp [hLookup]
        · simp [hKey]
  · unfold OrphanPool.eraseOrphanTx
    cases pool.mapOrphanTransactions.lookup hash with
    | none => exact h.noEmpty
    | some tx => exact h.noEmpty.foldl_eraseAt _ _ _

/-! ## The number of orphans -/

theorem size_eraseOrphanTx
    {hash : ℕ} (h : hash ∈ pool.mapOrphanTransactions) :
    (pool.eraseOrphanTx hash).size + 1 = pool.size := by
  have hKey := AList.mem_keys.mp h
  obtain ⟨tx, hLookup⟩ := Table.mem_iff_lookup.mp h
  have hErase : (pool.eraseOrphanTx hash).size =
      (pool.mapOrphanTransactions.keys.erase hash).length := by
    unfold eraseOrphanTx size
    rw [hLookup]
    exact congrArg List.length (AList.keys_erase hash pool.mapOrphanTransactions)
  have hPos := List.length_pos_of_mem hKey
  rw [hErase, List.length_erase_of_mem hKey]
  unfold size
  omega

theorem size_eraseOrphanTx_le (pool : OrphanPool) (hash : ℕ) :
    (pool.eraseOrphanTx hash).size ≤ pool.size := by
  by_cases hMem : hash ∈ pool.mapOrphanTransactions
  · have hSize := size_eraseOrphanTx hMem
    omega
  · unfold eraseOrphanTx
    rw [Table.not_mem_iff_lookup.mp hMem]

/-! ## Erasing several orphans -/

theorem lookup_foldl_eraseOrphanTx (hashes : List ℕ) (pool : OrphanPool) (k : ℕ) :
    (hashes.foldl OrphanPool.eraseOrphanTx pool).mapOrphanTransactions.lookup k =
      if k ∈ hashes then none else pool.mapOrphanTransactions.lookup k := by
  induction hashes generalizing pool with
  | nil => simp
  | cons hash hashes ih =>
      rw [List.foldl_cons, ih, lookup_eraseOrphanTx]
      by_cases hRest : k ∈ hashes
      · simp [hRest]
      · simp [hRest]

theorem WellFormed.foldl_eraseOrphanTx
    (h : pool.WellFormed prims) (hashes : List ℕ) :
    (hashes.foldl OrphanPool.eraseOrphanTx pool).WellFormed prims := by
  induction hashes generalizing pool with
  | nil => exact h
  | cons hash hashes ih => exact ih (h.eraseOrphanTx hash)

theorem size_foldl_eraseOrphanTx_le (hashes : List ℕ) (pool : OrphanPool) :
    (hashes.foldl OrphanPool.eraseOrphanTx pool).size ≤ pool.size := by
  induction hashes generalizing pool with
  | nil => exact le_rfl
  | cons hash hashes ih => exact (ih _).trans (size_eraseOrphanTx_le pool hash)

/-! ## Random eviction -/

/-- In a pool that is not empty some orphan is evicted, whatever the random hash. -/
theorem exists_evicted
    (hPos : 0 < pool.size) (randomhash : ℕ) :
    ∃ hash, pool.evicted randomhash = some hash ∧ hash ∈ pool.mapOrphanTransactions := by
  unfold evicted
  dsimp only
  cases hAbove : (pool.mapOrphanTransactions.keys.filter (randomhash ≤ ·)).min? with
  | some hash =>
      refine ⟨hash, rfl, AList.mem_keys.mpr ?_⟩
      exact List.mem_of_mem_filter (List.min?_mem hAbove)
  | none =>
      rw [Option.none_or]
      cases hFirst : pool.mapOrphanTransactions.keys.min? with
      | some hash => exact ⟨hash, rfl, AList.mem_keys.mpr (List.min?_mem hFirst)⟩
      | none =>
          rw [List.min?_eq_none_iff] at hFirst
          simp [size, hFirst] at hPos

/-- The loop ends, since each round evicts one orphan. -/
theorem limitLoop_spec
    {nMaxOrphans fuel : ℕ} (draws : ℕ → ℕ) (nEvicted : ℕ) (h : pool.WellFormed prims)
    (hFuel : pool.size < fuel) :
    ∃ n pool', limitLoop nMaxOrphans fuel draws nEvicted pool = .ok (n, pool') ∧
      pool'.WellFormed prims ∧ pool'.size ≤ nMaxOrphans := by
  induction fuel generalizing draws nEvicted pool with
  | zero => omega
  | succ fuel ih =>
      unfold limitLoop
      by_cases hMore : pool.size > nMaxOrphans
      · have hPos : 0 < pool.size := by omega
        obtain ⟨hash, hEvicted, hMem⟩ := exists_evicted hPos (draws 0)
        have hSize := size_eraseOrphanTx hMem
        have hLess : (pool.eraseOrphanTx hash).size < fuel := by omega
        rw [if_pos hMore, hEvicted]
        exact ih _ _ (h.eraseOrphanTx hash) hLess
      · rw [if_neg hMore]
        exact ⟨nEvicted, pool, rfl, h, by omega⟩

theorem WellFormed.limitOrphanTxSize
    (h : pool.WellFormed prims) (draws : ℕ → ℕ) (nMaxOrphans : ℕ) :
    ∃ nEvicted pool', pool.limitOrphanTxSize draws nMaxOrphans = .ok (nEvicted, pool') ∧
      pool'.WellFormed prims ∧ pool'.size ≤ nMaxOrphans :=
  limitLoop_spec draws 0 h (Nat.lt_succ_self _)

end Agreement

/-! ## Runs -/

/-- A call of one of the functions that change the orphans. -/
inductive Call
  | addOrphanTx (tx : CTransaction)
  | eraseOrphanTx (hash : ℕ)
  | limitOrphanTxSize (draws : ℕ → ℕ) (nMaxOrphans : ℕ)

def Call.run (prims : Primitives) (pool : OrphanPool) : Call → Checked OrphanPool
  | .addOrphanTx tx => .ok (pool.addOrphanTx prims tx).2
  | .eraseOrphanTx hash => .ok (pool.eraseOrphanTx hash)
  | .limitOrphanTxSize draws nMaxOrphans => do
      let (_, pool) ← pool.limitOrphanTxSize draws nMaxOrphans
      .ok pool

def runCalls (prims : Primitives) : List Call → OrphanPool → Checked OrphanPool
  | [], pool => .ok pool
  | call :: calls, pool => do
      let pool ← call.run prims pool
      runCalls prims calls pool

section Runs

variable {prims : Primitives} {pool : OrphanPool}

theorem WellFormed.run
    (h : pool.WellFormed prims) (call : Call) :
    ∃ pool', call.run prims pool = .ok pool' ∧ pool'.WellFormed prims := by
  cases call with
  | addOrphanTx tx => exact ⟨_, rfl, h.addOrphanTx tx⟩
  | eraseOrphanTx hash => exact ⟨_, rfl, h.eraseOrphanTx hash⟩
  | limitOrphanTxSize draws nMaxOrphans =>
      obtain ⟨nEvicted, pool', hLimit, hFormed, -⟩ := h.limitOrphanTxSize draws nMaxOrphans
      refine ⟨pool', ?_, hFormed⟩
      simp only [Call.run, hLimit, ok_bind]

theorem WellFormed.runCalls
    (h : pool.WellFormed prims) (calls : List Call) :
    ∃ pool', OrphanPool.runCalls prims calls pool = .ok pool' ∧ pool'.WellFormed prims := by
  induction calls generalizing pool with
  | nil => exact ⟨pool, rfl, h⟩
  | cons call calls ih =>
      obtain ⟨pool₁, hCall, hFormed⟩ := h.run call
      unfold OrphanPool.runCalls
      rw [hCall, ok_bind]
      exact ih hFormed

/-- After every sequence of calls the second map lists exactly the inputs of the orphans
and keeps no empty set, and whatever hashes are drawn, `LimitOrphanTxSize` returns with no
more orphans than it was given as the limit. -/
theorem orphanIndex_consistent
    (prims : Primitives) (calls : List Call) :
    ∃ pool, runCalls prims calls empty = .ok pool ∧
      (∀ hash prev,
        (∃ hashes, pool.mapOrphanTransactionsByPrev.lookup prev = some hashes ∧ hash ∈ hashes) ↔
          ∃ tx, pool.mapOrphanTransactions.lookup hash = some tx ∧
            ∃ txin ∈ tx.vin, txin.prevout.hash = prev) ∧
      (∀ prev hashes, pool.mapOrphanTransactionsByPrev.lookup prev = some hashes →
        hashes.Nonempty) ∧
      ∀ draws nMaxOrphans, ∃ nEvicted pool',
        pool.limitOrphanTxSize draws nMaxOrphans = .ok (nEvicted, pool') ∧
          pool'.size ≤ nMaxOrphans := by
  obtain ⟨pool, hRun, hFormed⟩ := (wellFormed_empty prims).runCalls calls
  refine ⟨pool, hRun, fun hash prev => ?_, hFormed.noEmpty, fun draws nMaxOrphans => ?_⟩
  · rw [← SetTable.mem_valuesAt, hFormed.index]
    simp only [List.mem_map]
  · obtain ⟨nEvicted, pool', hLimit, -, hSize⟩ := hFormed.limitOrphanTxSize draws nMaxOrphans
    exact ⟨nEvicted, pool', hLimit, hSize⟩

end Runs

end OrphanPool

end SocietyGold
