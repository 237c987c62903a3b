import SocietyGold.DoubleSpend
import SocietyGold.MemPool

/-!
# The memory pool after a block

`SetBestChainInner` removes the transactions of the connected block from the memory pool,
but not the transactions that conflict with them, which `Reorganize` removes as well.  A
transaction of the pool that spends an outpoint the block has spent stays there.
-/

namespace SocietyGold

open Support

/-! ## What is removed -/

theorem lookup_remove (prims : Primitives) (pool : CTxMemPool) (tx : CTransaction) (hash : ℕ) :
    (pool.remove prims tx).mapTx.lookup hash =
      if hash = tx.getHash prims then none else pool.mapTx.lookup hash := by
  rw [CTxMemPool.remove_eq_unlink]
  by_cases hMem : tx.getHash prims ∈ pool.mapTx
  · rw [if_pos hMem, CTxMemPool.lookup_unlink]
  · rw [if_neg hMem]
    by_cases hHash : hash = tx.getHash prims
    · rw [if_pos hHash, hHash, Table.not_mem_iff_lookup.mp hMem]
    · rw [if_neg hHash]

/-- The loop of `SetBestChainInner` removes exactly the transactions with the ids of the
block. -/
theorem lookup_removeFromPool
    (env : Env) (vtx : List CTransaction) (pool : CTxMemPool) (hash : ℕ) :
    (removeFromPool env vtx pool).mapTx.lookup hash =
      if hash ∈ vtx.map (CTransaction.getHash env.prims) then none else pool.mapTx.lookup hash := by
  induction vtx generalizing pool with
  | nil => rfl
  | cons tx rest ih =>
      refine (ih (pool.remove env.prims tx)).trans ?_
      rw [List.map_cons, lookup_remove]
      by_cases hRest : hash ∈ rest.map (CTransaction.getHash env.prims)
      · rw [if_pos hRest, if_pos (List.mem_cons_of_mem _ hRest)]
      · rw [if_neg hRest]
        simp only [List.mem_cons, hRest, or_false]

/-- `SetBestChain` clears the pool of the block, and leaves it alone for the genesis
block. -/
theorem mempool_of_setBestChain
    {env : Env} {st st' : ChainState} {block : CBlock} {pindexNew : CBlockIndex}
    (h : setBestChain env st block pindexNew = .ok (true, st')) :
    st'.mempool =
      if IsGenesisStep env st block then st.mempool
      else removeFromPool env block.vtx st.mempool := by
  by_cases hGenesis : IsGenesisStep env st block
  · rw [if_pos hGenesis]
    obtain ⟨-, txdb', -, -, -, rfl⟩ :=
      genesis_of_setBestChain (hashPrevBlock_of_setBestChain h) hGenesis h
    rfl
  · rw [if_neg hGenesis]
    obtain ⟨txdb, txdb', r, st₁, -, -, -, -, hAttach, rfl⟩ := attached_of_setBestChain h hGenesis
    obtain ⟨pprev, entry, -, -, rfl⟩ := attachTip_eq_ok hAttach
    rw [connectedState_frame]
    rfl

/-! ## When pool and block agree -/

/-- No transaction of the pool spends an outpoint that the block consumes, and no transaction
of the block is in the pool. -/
structure PoolAgrees (env : Env) (pool : CTxMemPool) (block : CBlock) : Prop where
  unspent : ∀ hash tx, pool.mapTx.lookup hash = some tx → ∀ txin ∈ tx.vin,
    txin.prevout ∉ block.consumed
  absent : ∀ tx ∈ block.vtx, tx.getHash env.prims ∉ pool.mapTx

/-- The transaction of the pool under the id is not one of the block, and spends nothing the
block consumes. -/
def IsBeside (env : Env) (block : CBlock) (hash : ℕ) (tx : CTransaction) : Prop :=
  hash ∉ block.vtx.map (CTransaction.getHash env.prims) ∧
    ∀ txin ∈ tx.vin, txin.prevout ∉ block.consumed

theorem poolAgrees_iff {env : Env} {pool : CTxMemPool} {block : CBlock} :
    PoolAgrees env pool block ↔
      ∀ hash tx, pool.mapTx.lookup hash = some tx → IsBeside env block hash tx := by
  constructor
  · intro hAgrees hash tx hLookup
    refine ⟨fun hMem => ?_, hAgrees.unspent hash tx hLookup⟩
    obtain ⟨own, hOwn, rfl⟩ := List.mem_map.mp hMem
    exact hAgrees.absent own hOwn (Table.mem_iff_lookup.mpr ⟨tx, hLookup⟩)
  · intro hBeside
    constructor
    · exact fun hash tx hLookup => (hBeside hash tx hLookup).2
    · intro tx hTx hMem
      obtain ⟨stored, hLookup⟩ := Table.mem_iff_lookup.mp hMem
      exact (hBeside _ stored hLookup).1 (List.mem_map_of_mem hTx)

/-- After a block was attached no transaction of the pool conflicts with it exactly if every
transaction that was in the pool was one of the block, which only the step for the genesis
block does not remove, or spent nothing the block consumes. -/
theorem poolAgrees_of_setBestChain_iff
    {env : Env} {st st' : ChainState} {block : CBlock} {pindexNew : CBlockIndex}
    (h : setBestChain env st block pindexNew = .ok (true, st')) :
    PoolAgrees env st'.mempool block ↔
      ∀ hash tx, st.mempool.mapTx.lookup hash = some tx →
        (¬IsGenesisStep env st block ∧ hash ∈ block.vtx.map (CTransaction.getHash env.prims)) ∨
          IsBeside env block hash tx := by
  rw [poolAgrees_iff, mempool_of_setBestChain h]
  by_cases hGenesis : IsGenesisStep env st block
  · simp [hGenesis]
  · rw [if_neg hGenesis]
    constructor
    · intro hBeside hash tx hLookup
      by_cases hOwn : hash ∈ block.vtx.map (CTransaction.getHash env.prims)
      · exact Or.inl ⟨hGenesis, hOwn⟩
      · apply Or.inr
        apply hBeside hash tx
        rw [lookup_removeFromPool, if_neg hOwn, hLookup]
    · intro hBefore hash tx hLookup
      rw [lookup_removeFromPool] at hLookup
      split_ifs at hLookup with hOwn
      rcases hBefore hash tx hLookup with ⟨-, hMem⟩ | hBeside
      · exact absurd hMem hOwn
      · exact hBeside

/-! ## A conflicting payment in the pool -/

namespace Sample

/-- A payment of the output that the first spend consumes. -/
def conflicting : CTransaction := payment mintedOutput 80

def poolOf (tx : CTransaction) : CTxMemPool :=
  CTxMemPool.clear.addUnchecked (tx.getHash prims) tx

def mintedWith (tx : CTransaction) : ChainState := { minted with mempool := poolOf tx }

theorem conflicting_remains :
    connectNext (mintedWith conflicting) firstSpend 400 =
        .ok (true, stateAfter (mintedWith conflicting) firstSpend 400) ∧
      ¬PoolAgrees (env 900) (stateAfter (mintedWith conflicting) firstSpend 400).mempool
        firstSpend := by
  refine ⟨connectNext_of_done (by decide +kernel), fun hAgrees => ?_⟩
  have hLeft : (stateAfter (mintedWith conflicting) firstSpend 400).mempool.mapTx.lookup
      (conflicting.getHash prims) = some conflicting := by decide +kernel
  have hInput : (⟨mintedOutput, [], UINT_MAX⟩ : CTxIn) ∈ conflicting.vin := by decide +kernel
  have hConsumed : mintedOutput ∈ firstSpend.consumed := by decide +kernel
  have hUnspent := hAgrees.unspent _ conflicting hLeft ⟨mintedOutput, [], UINT_MAX⟩ hInput
  exact hUnspent hConsumed

theorem payment_beside_block :
    PoolAgrees (env 900) (stateAfter (mintedWith firstPayment) firstSpend 400).mempool
      firstSpend := by
  have hDone : connectNext (mintedWith firstPayment) firstSpend 400 =
      .ok (true, stateAfter (mintedWith firstPayment) firstSpend 400) :=
    connectNext_of_done (by decide +kernel)
  refine (poolAgrees_of_setBestChain_iff hDone).mpr fun hash tx hLookup => Or.inr ?_
  have hEntry : (mintedWith firstPayment).mempool.mapTx.entries =
      [⟨firstPayment.getHash prims, firstPayment⟩] := by decide +kernel
  have hMem := AList.mem_lookup_iff.mp (show tx ∈ (mintedWith firstPayment).mempool.mapTx.lookup
    hash from hLookup)
  rw [hEntry, List.mem_singleton, Sigma.mk.injEq] at hMem
  obtain ⟨hHash, hTx⟩ := hMem
  rw [hHash, eq_of_heq hTx]
  unfold IsBeside
  decide +kernel

end Sample

end SocietyGold
