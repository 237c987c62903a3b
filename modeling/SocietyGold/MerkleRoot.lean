import SocietyGold.CheckBlock
import SocietyGold.MerkleBranch
import SocietyGold.Support.MerkleTree

/-!
# The transactions a merkle root commits to

`BuildMerkleTree` pads an odd level with its last node, so a root alone does not say
which transactions a block has.  `CheckBlock` refuses a block with two equal
transaction ids; with that the ids are determined by the root.
-/

namespace SocietyGold
namespace CBlock

open Support

/-- The nodes of the trees of two blocks. -/
def treeNodes (prims : Primitives) (block block' : CBlock) : List ℕ :=
  block.vMerkleTree prims ++ block'.vMerkleTree prims

/-- No two pairs of nodes of the two trees have the same hash. -/
def PairsCollisionFree (prims : Primitives) (block block' : CBlock) : Prop :=
  ∀ a ∈ treeNodes prims block block', ∀ b ∈ treeNodes prims block block',
    ∀ c ∈ treeNodes prims block block', ∀ d ∈ treeNodes prims block block',
      merkleParent prims a b = merkleParent prims c d → a = c ∧ b = d

/-- No transaction id of the blocks is the hash of a pair of nodes. -/
def IdsAreNoPairs (prims : Primitives) (block block' : CBlock) : Prop :=
  ∀ txid ∈ block.txids prims ++ block'.txids prims,
    ∀ a ∈ treeNodes prims block block', ∀ b ∈ treeNodes prims block block',
      txid ≠ merkleParent prims a b

instance (prims : Primitives) (block block' : CBlock) :
    Decidable (PairsCollisionFree prims block block') :=
  inferInstanceAs (Decidable (∀ a ∈ _, ∀ b ∈ _, ∀ c ∈ _, ∀ d ∈ _, _ → _))

instance (prims : Primitives) (block block' : CBlock) :
    Decidable (IdsAreNoPairs prims block block') :=
  inferInstanceAs (Decidable (∀ txid ∈ _, ∀ a ∈ _, ∀ b ∈ _, _))

theorem vMerkleTree_eq_levels (prims : Primitives) (block : CBlock) :
    block.vMerkleTree prims =
      levels (merkleParent prims) block.vtx.length (block.txids prims) :=
  merkleLevels_eq prims block.vtx.length (block.txids prims)

theorem length_txids (prims : Primitives) (block : CBlock) :
    (block.txids prims).length = block.vtx.length :=
  List.length_map _

theorem txids_ne_nil {prims : Primitives} {block : CBlock} (h : block.vtx ≠ []) :
    block.txids prims ≠ [] := by
  intro hNil
  have hLength := length_txids prims block
  rw [hNil] at hLength
  exact h (List.length_eq_zero_iff.mp hLength.symm)

/-- The tree of a block with transactions has a root. -/
theorem getLast?_vMerkleTree {prims : Primitives} {block : CBlock} (h : block.vtx ≠ []) :
    (block.vMerkleTree prims).getLast? = some (block.buildMerkleTree prims) := by
  have hTree : block.vMerkleTree prims ≠ [] := by
    rw [vMerkleTree_eq_levels]
    exact levels_ne_nil _ _ (txids_ne_nil h)
  have hLast := List.getLast?_eq_some_getLast hTree
  rw [buildMerkleTree, hLast]
  rfl

section Commitment

variable {prims : Primitives} {block block' : CBlock}

/-- Blocks without repeated ids and with the same root have the same ids. -/
theorem txids_eq_of_root_eq
    (hFree : PairsCollisionFree prims block block') (hIds : IdsAreNoPairs prims block block')
    (hNonempty : block.vtx ≠ []) (hNonempty' : block'.vtx ≠ [])
    (hUnique : (block.txids prims).Nodup) (hUnique' : (block'.txids prims).Nodup)
    (hRoot : block.buildMerkleTree prims = block'.buildMerkleTree prims) :
    block.txids prims = block'.txids prims := by
  have hFreeOn : CollisionFreeOn (merkleParent prims)
      {node | node ∈ treeNodes prims block block'} := hFree
  have hNodes : ∀ node ∈ levels (merkleParent prims) block.vtx.length (block.txids prims),
      node ∈ {node | node ∈ treeNodes prims block block'} := by
    intro node hNode
    rw [← vMerkleTree_eq_levels] at hNode
    exact List.mem_append_left _ hNode
  have hNodes' : ∀ node ∈ levels (merkleParent prims) block'.vtx.length (block'.txids prims),
      node ∈ {node | node ∈ treeNodes prims block block'} := by
    intro node hNode
    rw [← vMerkleTree_eq_levels] at hNode
    exact List.mem_append_right _ hNode
  have hLength := length_txids prims block
  have hLength' := length_txids prims block'
  apply eq_of_root_eq hFreeOn hNodes hNodes' hIds
  · exact txids_ne_nil hNonempty
  · exact txids_ne_nil hNonempty'
  · exact hUnique
  · exact hUnique'
  · omega
  · omega
  · rw [← vMerkleTree_eq_levels, ← vMerkleTree_eq_levels, getLast?_vMerkleTree hNonempty,
      getLast?_vMerkleTree hNonempty', hRoot]

end Commitment

/-- The root commits to the ids: they are the same for two blocks with transactions,
without repeated ids and with the same root, and so for two blocks that `CheckBlock`
accepts with the same root in their headers. -/
theorem merkleRoot_commits
    (prims : Primitives) (block block' : CBlock)
    (hFree : PairsCollisionFree prims block block') (hIds : IdsAreNoPairs prims block block') :
    (block.vtx ≠ [] → block'.vtx ≠ [] → (block.txids prims).Nodup → (block'.txids prims).Nodup →
      block.buildMerkleTree prims = block'.buildMerkleTree prims →
      block.txids prims = block'.txids prims) ∧
    ∀ env env' st st' fCheckPOW fCheckPOW' fCheckSig fCheckSig',
      env.prims = prims → env'.prims = prims →
      checkBlock env st block fCheckPOW true fCheckSig = .ok () →
      checkBlock env' st' block' fCheckPOW' true fCheckSig' = .ok () →
      block.hashMerkleRoot = block'.hashMerkleRoot →
      block.txids prims = block'.txids prims := by
  constructor
  · exact fun hNonempty hNonempty' hUnique hUnique' hRoot =>
      txids_eq_of_root_eq hFree hIds hNonempty hNonempty' hUnique hUnique' hRoot
  · rintro env env' st st' fCheckPOW fCheckPOW' fCheckSig fCheckSig' rfl hPrims hCheck hCheck'
      hHeader
    have hUnique := nodup_txids_of_checked hCheck
    have hUnique' := nodup_txids_of_checked hCheck'
    have hRoot := hashMerkleRoot_of_checked hCheck
    have hRoot' := hashMerkleRoot_of_checked hCheck'
    rw [hPrims] at hUnique' hRoot'
    exact txids_eq_of_root_eq hFree hIds (vtx_ne_nil_of_checked hCheck)
      (vtx_ne_nil_of_checked hCheck') hUnique hUnique' (by rw [← hRoot, ← hRoot', hHeader])

end CBlock

namespace Sample

/-- Two blocks with the same two transactions. -/
def pairBlock (nTime : ℕ) : CBlock :=
  sealed 500 nTime [coinbase 900 11 100, spend 900 ⟨7, 0⟩ 5, spend 900 ⟨8, 1⟩ 6]

theorem pairBlock_commits :
    CBlock.PairsCollisionFree prims (pairBlock 1000) (pairBlock 1016) ∧
      CBlock.IdsAreNoPairs prims (pairBlock 1000) (pairBlock 1016) ∧
      CBlock.checkBlock (env 1000) (nodeWith []) (pairBlock 1000) true true true = .ok () ∧
      (pairBlock 1000).txids prims = (pairBlock 1016).txids prims := by
  have hFree : CBlock.PairsCollisionFree prims (pairBlock 1000) (pairBlock 1016) := by
    decide +kernel
  have hIds : CBlock.IdsAreNoPairs prims (pairBlock 1000) (pairBlock 1016) := by
    decide +kernel
  have hCheck : CBlock.checkBlock (env 1000) (nodeWith []) (pairBlock 1000) true true true =
      .ok () := by decide +kernel
  have hCheck' : CBlock.checkBlock (env 1016) (nodeWith []) (pairBlock 1016) true true true =
      .ok () := by decide +kernel
  obtain ⟨-, hChecked⟩ := CBlock.merkleRoot_commits prims _ _ hFree hIds
  exact ⟨hFree, hIds, hCheck, hChecked _ _ _ _ _ _ _ _ rfl rfl hCheck hCheck' rfl⟩

end Sample

end SocietyGold
