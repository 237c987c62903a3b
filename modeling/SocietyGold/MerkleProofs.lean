import SocietyGold.MerkleBranch
import SocietyGold.CheckBlock
import SocietyGold.GetBlocks
import SocietyGold.RoundTrips

/-!
# Merkle proofs of wallet transactions

`SetMerkleBranch` puts the block of a transaction, its position there and its Merkle branch
into the transaction.  If the caller supplies the block, the three are a proof that
`CheckMerkleBranch` accepts.  Without it the block is read from disk, but the assignment that
goes on with what was read stands behind a `return`; so nothing is filled in, and what the
transaction holds afterwards is what it held before.
-/

namespace SocietyGold

open Support

/-! ## The source -/

/-- `CBlock::ReadFromDisk(nFile, nBlockPos)`. -/
def CBlock.readFromDisk (env : Env) (sizes : ElementSizes) (st : ChainState)
    (nFile nBlockPos : ℕ) : Option CBlock := do
  let file ← st.openBlockFile nFile
  let (block, _) ← CBlock.unserialize sizes (fileFrom file nBlockPos)
  if block.isProofOfWork &&
      !(checkProofOfWork env (block.getPoWHash env.prims) block.nBits).passed then none
  else some block

/-- A transaction with the data that link it to its block. -/
structure CMerkleTx extends CTransaction where
  hashBlock : ℕ
  vMerkleBranch : List ℕ
  nIndex : ℤ
  deriving DecidableEq, Repr

/-- A block object with its cached tree. -/
structure CachedBlock (prims : Primitives) where
  block : CBlock
  cache : block.MerkleCache prims

namespace CMerkleTx

/-- `Init`. -/
def ofTransaction (tx : CTransaction) : CMerkleTx := ⟨tx, 0, [], -1⟩

/-- The end of `SetMerkleBranch`: the depth of the block `hashBlock`. -/
def depthOfBlock (st : ChainState) (this : CMerkleTx) : Checked ℤ :=
  match st.mapBlockIndex.lookup this.hashBlock with
  | none => .ok 0
  | some pindex =>
      if st.isInMainChain this.hashBlock pindex then do
        let pindexBest ← deref (st.entry st.pindexBest)
        .ok (pindexBest.nHeight - pindex.nHeight + 1)
      else .ok 0

/-- The part that fills in the proof.  Transactions are compared by their values; the number
of rounds of an output, which is not serialized, is the same in all of them. -/
def fillBranch (prims : Primitives) (this : CMerkleTx) (pblock : CachedBlock prims) :
    Checked (Bool × CMerkleTx) :=
  let hashBlock := pblock.block.getHash prims
  let nIndex := pblock.block.vtx.findIdx fun tx => tx = this.toCTransaction
  if nIndex = pblock.block.vtx.length then
    .ok (false, { this with
      hashBlock := hashBlock
      vMerkleBranch := []
      nIndex := -1 })
  else do
    let vMerkleBranch ← pblock.block.getMerkleBranch prims pblock.cache nIndex
    .ok (true, { this with
      hashBlock := hashBlock
      vMerkleBranch := vMerkleBranch
      nIndex := nIndex })

/-- `SetMerkleBranch`. -/
def setMerkleBranch (env : Env) (sizes : ElementSizes) (st : ChainState) (this : CMerkleTx)
    (pblock : Option (CachedBlock env.prims)) : Checked (ℤ × CMerkleTx) :=
  match pblock with
  | some pblock => do
      let (found, this) ← this.fillBranch env.prims pblock
      if found then do
        let depth ← this.depthOfBlock st
        .ok (depth, this)
      else .ok (0, this)
  | none =>
      match st.txdb.readTxIndex (this.toCTransaction.getHash env.prims) with
      | none => .ok (0, this)
      | some txindex =>
          match CBlock.readFromDisk env sizes st txindex.pos.nFile txindex.pos.nBlockPos with
          | none => .ok (0, this)
          | some _ => do
              -- the block that was read is dropped: `pblock` stays null
              let depth ← this.depthOfBlock st
              .ok (depth, this)

end CMerkleTx

/-! ## Proofs -/

/-- A block of the main chain, with its entry and that of the best block.  Its transactions are
distinct, and its header holds the root of their tree. -/
structure MainChainBlock (env : Env) (st : ChainState) (block : CBlock)
    (pindex pindexBest : CBlockIndex) : Prop where
  nodup : (block.txids env.prims).Nodup
  merkleRoot : block.hashMerkleRoot = block.buildMerkleTree env.prims
  indexed : st.mapBlockIndex.lookup (block.getHash env.prims) = some pindex
  inMainChain : st.isInMainChain (block.getHash env.prims) pindex = true
  best : st.entry st.pindexBest = some pindexBest

/-- A block is connected after `CheckBlock` with the Merkle root has passed. -/
theorem MainChainBlock.of_checked
    {env : Env} {st st' : ChainState} {block : CBlock} {pindex pindexBest : CBlockIndex}
    {fCheckPOW fCheckSig : Bool}
    (hChecked : block.checkBlock env st' fCheckPOW true fCheckSig = .ok ())
    (hIndexed : st.mapBlockIndex.lookup (block.getHash env.prims) = some pindex)
    (hMain : st.isInMainChain (block.getHash env.prims) pindex = true)
    (hBest : st.entry st.pindexBest = some pindexBest) :
    MainChainBlock env st block pindex pindexBest :=
  ⟨CBlock.nodup_txids_of_checked hChecked, CBlock.hashMerkleRoot_of_checked hChecked, hIndexed,
    hMain, hBest⟩

/-- The transaction holds a proof that it is in the block at an index. -/
structure CMerkleTx.Proves (prims : Primitives) (this : CMerkleTx) (block : CBlock) (i : ℕ) :
    Prop where
  hashBlock : this.hashBlock = block.getHash prims
  nIndex : this.nIndex = i
  branch : CBlock.checkMerkleBranch prims (this.toCTransaction.getHash prims) this.vMerkleBranch
    this.nIndex = block.hashMerkleRoot

/-- What a caller of `SetMerkleBranch` relies on. -/
def FillsProof (env : Env) (sizes : ElementSizes) (st : ChainState) (this : CMerkleTx)
    (pblock : Option (CachedBlock env.prims)) (block : CBlock) (i : ℕ) (depth : ℤ) : Prop :=
  ∃ this' : CMerkleTx, this.setMerkleBranch env sizes st pblock = .ok (depth, this') ∧
    this'.toCTransaction = this.toCTransaction ∧ this'.Proves env.prims block i

section Fills

variable {env : Env} {sizes : ElementSizes} {st : ChainState} {block : CBlock}
  {pindex pindexBest : CBlockIndex} {this : CMerkleTx}

theorem depthOfBlock_of_mainChainBlock
    (hMain : MainChainBlock env st block pindex pindexBest)
    (hBlock : this.hashBlock = block.getHash env.prims) :
    this.depthOfBlock st = .ok (pindexBest.nHeight - pindex.nHeight + 1) := by
  unfold CMerkleTx.depthOfBlock
  rw [hBlock, hMain.indexed]
  dsimp only
  rw [if_pos hMain.inMainChain, hMain.best, deref_some, ok_bind]

/-- A block holds a transaction once, and the search finds it there. -/
theorem findIdx_of_nodup_txids
    {i : ℕ} (hNodup : (block.txids env.prims).Nodup) {tx : CTransaction}
    (hTx : block.vtx[i]? = some tx) :
    block.vtx.findIdx (fun tx' => tx' = tx) = i := by
  obtain ⟨hi, hGet⟩ := List.getElem?_eq_some_iff.mp hTx
  apply (List.findIdx_eq hi).mpr
  refine ⟨decide_eq_true hGet, ?_⟩
  intro j hj
  rw [decide_eq_false_iff_not]
  intro hSame
  have hi' : i < (block.txids env.prims).length := by
    simpa [CBlock.txids] using hi
  have hj' : j < (block.txids env.prims).length := by
    omega
  have hIds : (block.txids env.prims)[j] = (block.txids env.prims)[i] := by
    simp only [CBlock.txids, List.getElem_map, hSame, hGet]
  have hIndex := (hNodup.getElem_inj_iff).mp hIds
  omega

/-- With the block at hand the proof is filled in. -/
theorem fillBranch_proves
    {i : ℕ} (hMain : MainChainBlock env st block pindex pindexBest)
    (hTx : block.vtx[i]? = some this.toCTransaction) (cache : block.MerkleCache env.prims) :
    ∃ this' : CMerkleTx, this.fillBranch env.prims ⟨block, cache⟩ = .ok (true, this') ∧
      this'.toCTransaction = this.toCTransaction ∧ this'.Proves env.prims block i := by
  obtain ⟨hi, hGet⟩ := List.getElem?_eq_some_iff.mp hTx
  obtain ⟨vMerkleTree, vMerkleBranch, root, hTree, hBranch, hCheck⟩ :=
    CBlock.checkMerkleBranch_getMerkleBranch env.prims block cache ⟨i, hi⟩
  rw [CBlock.buildMerkleTreeLoop_eq, Except.ok.injEq, Prod.mk.injEq] at hTree
  have hFound : block.vtx.findIdx (fun tx => tx = this.toCTransaction) = i :=
    findIdx_of_nodup_txids hMain.nodup hTx
  refine ⟨{ this with
    hashBlock := block.getHash env.prims
    vMerkleBranch := vMerkleBranch
    nIndex := i }, ?_, rfl, rfl, rfl, ?_⟩
  · unfold CMerkleTx.fillBranch
    dsimp only
    rw [hFound, if_neg (by omega), hBranch, ok_bind]
  · rw [hMain.merkleRoot, hTree.2, ← hCheck]
    simp only [List.get_eq_getElem, hGet]

theorem fillsProof_of_supplied
    {i : ℕ} (hMain : MainChainBlock env st block pindex pindexBest)
    (hTx : block.vtx[i]? = some this.toCTransaction) (cache : block.MerkleCache env.prims) :
    FillsProof env sizes st this (some ⟨block, cache⟩) block i
      (pindexBest.nHeight - pindex.nHeight + 1) := by
  obtain ⟨this', hFill, hSame, hProves⟩ := fillBranch_proves hMain hTx cache
  refine ⟨this', ?_, hSame, hProves⟩
  unfold CMerkleTx.setMerkleBranch
  dsimp only
  rw [hFill, ok_bind]
  dsimp only
  rw [if_pos rfl, depthOfBlock_of_mainChainBlock hMain hProves.hashBlock, ok_bind]

/-- The read from disk leaves everything as it was. -/
theorem fillsProof_none_iff
    {i : ℕ} (hMain : MainChainBlock env st block pindex pindexBest) {txindex : CTxIndex}
    (hIndex : st.txdb.readTxIndex (this.toCTransaction.getHash env.prims) = some txindex)
    (hRead : CBlock.readFromDisk env sizes st txindex.pos.nFile txindex.pos.nBlockPos =
      some block) :
    FillsProof env sizes st this none block i (pindexBest.nHeight - pindex.nHeight + 1) ↔
      this.Proves env.prims block i := by
  unfold FillsProof CMerkleTx.setMerkleBranch
  dsimp only
  rw [hIndex]
  dsimp only
  rw [hRead]
  dsimp only
  constructor
  · rintro ⟨this', hRun, -, hProves⟩
    obtain ⟨depth, -, hRun⟩ := bind_eq_ok.mp hRun
    obtain ⟨-, rfl⟩ := Prod.mk.inj (Except.ok.inj hRun)
    exact hProves
  · intro hProves
    refine ⟨this, ?_, rfl, hProves⟩
    rw [depthOfBlock_of_mainChainBlock hMain hProves.hashBlock, ok_bind]

/-- For a transaction at an index of a block of the main chain `SetMerkleBranch` fills in a
proof exactly if the caller supplies the block or the transaction holds the proof already;
without the block the transaction index points at it, and it can be read from disk. -/
theorem fillsProof_iff
    {i : ℕ} (hMain : MainChainBlock env st block pindex pindexBest)
    (hTx : block.vtx[i]? = some this.toCTransaction)
    (pblock : Option (block.MerkleCache env.prims))
    (hDisk : pblock = none → ∃ txindex,
      st.txdb.readTxIndex (this.toCTransaction.getHash env.prims) = some txindex ∧
        CBlock.readFromDisk env sizes st txindex.pos.nFile txindex.pos.nBlockPos = some block) :
    FillsProof env sizes st this (pblock.map fun cache => ⟨block, cache⟩) block i
        (pindexBest.nHeight - pindex.nHeight + 1) ↔
      pblock ≠ none ∨ this.Proves env.prims block i := by
  cases pblock with
  | some cache =>
      exact iff_of_true (fillsProof_of_supplied hMain hTx cache) (Or.inl (Option.some_ne_none _))
  | none =>
      obtain ⟨txindex, hIndex, hRead⟩ := hDisk rfl
      rw [Option.map_none, fillsProof_none_iff hMain hIndex hRead]
      simp

end Fills

namespace Sample

/-- A block with one transaction. -/
def confirmedBlock : CBlock := sealed 500 1000 [coinbase 1000 11 100]

def confirmedTx : CMerkleTx := CMerkleTx.ofTransaction (coinbase 1000 11 100)

def confirmedEntry : CBlockIndex :=
  { tipEntry with phashBlock := confirmedBlock.getHash prims }

/-- A node whose best block it is; its transaction index points at the block on disk. -/
def confirmedTxNode : ChainState :=
  { nodeWith [((coinbase 1000 11 100).getHash prims, CTxIndex.unspent ⟨1, 8, 90⟩ 1)] with
    mapBlockIndex := (∅ : Table ℕ CBlockIndex).insert (confirmedBlock.getHash prims)
      confirmedEntry
    pindexBest := some (confirmedBlock.getHash prims)
    blockFiles := (∅ : Table ℕ (List UInt8)).insert 1
      (List.replicate 8 0 ++ confirmedBlock.serialize) }

def diskSizes : ElementSizes where
  txIn := ⟨56, by decide, by decide⟩
  txOut := ⟨40, by decide, by decide⟩
  transaction := ⟨72, by decide, by decide⟩

theorem confirmedBlock_mainChain :
    MainChainBlock (env 900) confirmedTxNode confirmedBlock confirmedEntry confirmedEntry where
  nodup := by decide +kernel
  merkleRoot := by decide +kernel
  indexed := by decide +kernel
  inMainChain := by decide +kernel
  best := by decide +kernel

theorem confirmedBlock_onDisk :
    ∃ txindex, confirmedTxNode.txdb.readTxIndex
        (confirmedTx.toCTransaction.getHash (env 900).prims) = some txindex ∧
      CBlock.readFromDisk (env 900) diskSizes confirmedTxNode txindex.pos.nFile
        txindex.pos.nBlockPos = some confirmedBlock :=
  ⟨CTxIndex.unspent ⟨1, 8, 90⟩ 1, by decide +kernel, by decide +kernel⟩

/-- A transaction that has just been made gets no proof from disk. -/
theorem confirmedTx_notFilled :
    MainChainBlock (env 900) confirmedTxNode confirmedBlock confirmedEntry confirmedEntry ∧
      ¬FillsProof (env 900) diskSizes confirmedTxNode confirmedTx none confirmedBlock 0
        (confirmedEntry.nHeight - confirmedEntry.nHeight + 1) := by
  refine ⟨confirmedBlock_mainChain, ?_⟩
  obtain ⟨txindex, hIndex, hRead⟩ := confirmedBlock_onDisk
  intro hFills
  have hProves := (fillsProof_none_iff confirmedBlock_mainChain hIndex hRead).mp hFills
  exact absurd hProves.nIndex (by decide)

/-- With the block it does. -/
theorem confirmedTx_filled :
    FillsProof (env 900) diskSizes confirmedTxNode confirmedTx
      (some ⟨confirmedBlock, ⟨[], Or.inl rfl⟩⟩) confirmedBlock 0
      (confirmedEntry.nHeight - confirmedEntry.nHeight + 1) :=
  (fillsProof_iff confirmedBlock_mainChain rfl (some ⟨[], Or.inl rfl⟩) (by simp)).mpr
    (Or.inl (Option.some_ne_none _))

end Sample

end SocietyGold
