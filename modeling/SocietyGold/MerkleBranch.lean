import SocietyGold.Block
import SocietyGold.Support.Checked
import SocietyGold.Support.MerkleTree

/-!
# Merkle branches

`BuildMerkleTree` fills the flat vector `vMerkleTree` level by level, reading
each level at its offset; `GetMerkleBranch` reads the siblings of a transaction
from that vector, and `CheckMerkleBranch` folds them into a root again.  The
vector is a cache of the block: `GetMerkleBranch` fills it when it is empty and
otherwise uses what it finds.

The loops over offsets are shown to fill and to read the levels of
`Support.MerkleTree`, so that a branch is an opening of its level.
-/

namespace SocietyGold
namespace CBlock

open Support

/-! ## The loops of the source -/

/-- One round of the inner loop of `BuildMerkleTree`: hash the nodes `i` and
`i2` of the level at offset `j`. -/
def pushParent (prims : Primitives) (j nSize : ℕ) (tree : List ℕ) (i : ℕ) :
    Checked (List ℕ) := do
  let i2 := min (i + 1) (nSize - 1)
  let left ← elementAt tree (j + i)
  let right ← elementAt tree (j + i2)
  return tree ++ [merkleParent prims left right]

/-- The inner loop: `i` runs through `0, 2, 4, …` below `nSize`. -/
def pushParents (prims : Primitives) (j nSize : ℕ) (tree : List ℕ) : Checked (List ℕ) :=
  ((List.range ((nSize + 1) / 2)).map (2 * ·)).foldlM (pushParent prims j nSize) tree

/-- The outer loop of `BuildMerkleTree`. -/
def pushLevels (prims : Primitives) : (fuel j nSize : ℕ) → List ℕ → Checked (List ℕ)
  | 0, _, nSize, tree => if nSize > 1 then .error .diverges else .ok tree
  | fuel + 1, j, nSize, tree =>
      if nSize > 1 then do
        let tree ← pushParents prims j nSize tree
        pushLevels prims fuel (j + nSize) ((nSize + 1) / 2) tree
      else .ok tree

/-- `BuildMerkleTree`: the vector it fills and the root it returns. -/
def buildMerkleTreeLoop (prims : Primitives) (block : CBlock) : Checked (List ℕ × ℕ) := do
  let tree ← pushLevels prims block.vtx.length 0 block.vtx.length (block.txids prims)
  return (tree, tree.getLast?.getD 0)

/-- The loop of `GetMerkleBranch`. -/
def readBranch (vMerkleTree : List ℕ) : (fuel j nSize nIndex : ℕ) → Checked (List ℕ)
  | 0, _, nSize, _ => if nSize > 1 then .error .diverges else .ok []
  | fuel + 1, j, nSize, nIndex =>
      if nSize > 1 then do
        let i := min (nIndex ^^^ 1) (nSize - 1)
        let otherside ← elementAt vMerkleTree (j + i)
        let vMerkleBranch ← readBranch vMerkleTree fuel (j + nSize) ((nSize + 1) / 2) (nIndex / 2)
        return otherside :: vMerkleBranch
      else .ok []

/-- What the mutable member `vMerkleTree` holds: nothing yet, or the tree of
this block. -/
structure MerkleCache (prims : Primitives) (block : CBlock) where
  vMerkleTree : List ℕ
  upToDate : vMerkleTree = [] ∨ ∃ root, block.buildMerkleTreeLoop prims = .ok (vMerkleTree, root)

def getMerkleBranch (prims : Primitives) (block : CBlock) (cache : MerkleCache prims block)
    (nIndex : ℕ) : Checked (List ℕ) := do
  let vMerkleTree ←
    if cache.vMerkleTree.isEmpty then (block.buildMerkleTreeLoop prims).map Prod.fst
    else .ok cache.vMerkleTree
  readBranch vMerkleTree block.vtx.length 0 block.vtx.length nIndex

/-- One round of `CheckMerkleBranch`.  The shift of a negative index rounds
down. -/
def foldOtherside (prims : Primitives) (state : ℕ × ℤ) (otherside : ℕ) : ℕ × ℤ :=
  if state.2 % 2 = 1 then (merkleParent prims otherside state.1, state.2 / 2)
  else (merkleParent prims state.1 otherside, state.2 / 2)

def checkMerkleBranch (prims : Primitives) (hash : ℕ) (vMerkleBranch : List ℕ) (nIndex : ℤ) : ℕ :=
  if nIndex = -1 then 0
  else (vMerkleBranch.foldl (foldOtherside prims) (hash, nIndex)).1

/-! ## The vector holds the levels of the tree -/

theorem merkleLevelAbove_eq (prims : Primitives) (level : List ℕ) :
    merkleLevelAbove prims level = levelAbove (merkleParent prims) level := by
  fun_induction merkleLevelAbove prims level with
  | case1 => rfl
  | case2 => rfl
  | case3 left right rest ih => rw [levelAbove, ih]

theorem merkleLevels_eq (prims : Primitives) (fuel : ℕ) (level : List ℕ) :
    merkleLevels prims fuel level = levels (merkleParent prims) fuel level := by
  induction fuel generalizing level with
  | zero => rfl
  | succ fuel ih => rw [merkleLevels, levels, ih, merkleLevelAbove_eq]

/-- Reading above a prefix. -/
theorem elementAt_append
    (lower : List ℕ) {upper : List ℕ} {i node : ℕ} (hNode : upper[i]? = some node) :
    elementAt (lower ++ upper) (lower.length + i) = .ok node := by
  rw [elementAt_eq_ok, List.getElem?_append_right (by omega), Nat.add_sub_cancel_left]
  exact hNode

/-- After `k` rounds of the inner loop the first `k` nodes of the next level have
been pushed. -/
theorem foldlM_pushParent
    (prims : Primitives) (lower level : List ℕ) (k : ℕ)
    (hk : k ≤ (level.length + 1) / 2) :
    ((List.range k).map (2 * ·)).foldlM (pushParent prims lower.length level.length)
        (lower ++ level) =
      .ok (lower ++ level ++ (levelAbove (merkleParent prims) level).take k) := by
  induction k with
  | zero => simp
  | succ k ih =>
      have hLeft : level[2 * k]? = some (level.get ⟨2 * k, by omega⟩) := by simp
      have hRight : level[min (2 * k + 1) (level.length - 1)]? =
          some (level.get ⟨min (2 * k + 1) (level.length - 1), by omega⟩) := by simp
      have hParent := getElem?_levelAbove (merkleParent prims) hLeft hRight
      -- the nodes pushed so far lie above the level that is read
      let pushed := (levelAbove (merkleParent prims) level).take k
      have hPrefix : ∀ i < level.length, (level ++ pushed)[i]? = level[i]? := by
        intro i hi
        exact List.getElem?_append_left hi
      have hReadLeft := elementAt_append lower ((hPrefix _ (by omega)).trans hLeft)
      have hReadRight := elementAt_append lower ((hPrefix _ (by omega)).trans hRight)
      rw [List.range_succ, List.map_append, List.foldlM_append, ih (by omega), ok_bind,
        List.take_add_one, hParent, List.append_assoc]
      simp only [List.map_cons, List.map_nil, List.foldlM_cons, List.foldlM_nil, pushParent]
      rw [hReadLeft, hReadRight]
      simp

theorem pushParents_eq
    (prims : Primitives) (lower level : List ℕ) :
    pushParents prims lower.length level.length (lower ++ level) =
      .ok (lower ++ level ++ levelAbove (merkleParent prims) level) := by
  rw [pushParents, foldlM_pushParent prims lower level _ le_rfl]
  rw [List.take_of_length_le (by rw [length_levelAbove])]

theorem pushLevels_eq
    (prims : Primitives) (fuel : ℕ) (lower level : List ℕ)
    (hFuel : level.length ≤ fuel + 1) :
    pushLevels prims fuel lower.length level.length (lower ++ level) =
      .ok (lower ++ levels (merkleParent prims) fuel level) := by
  induction fuel generalizing lower level with
  | zero => rw [pushLevels, if_neg (by omega), levels]
  | succ fuel ih =>
      rw [pushLevels]
      by_cases hLength : level.length > 1
      · have hAbove := length_levelAbove (merkleParent prims) level
        rw [if_pos hLength, pushParents_eq, ok_bind, ← hAbove, ← List.length_append,
          ih _ _ (by omega), levels_eq_append _ hLength, List.append_assoc]
      · rw [if_neg hLength, levels_of_le_one _ (by omega)]

/-- The loops of `BuildMerkleTree` compute the tree level by level. -/
theorem buildMerkleTreeLoop_eq (prims : Primitives) (block : CBlock) :
    block.buildMerkleTreeLoop prims =
      .ok (block.vMerkleTree prims, block.buildMerkleTree prims) := by
  have hLength : (block.txids prims).length = block.vtx.length := by simp [txids]
  have hLoop := pushLevels_eq prims block.vtx.length [] (block.txids prims) (by omega)
  rw [List.length_nil, hLength, List.nil_append, List.nil_append] at hLoop
  rw [buildMerkleTreeLoop, hLoop, ok_bind, buildMerkleTree, vMerkleTree, merkleLevels_eq]
  rfl

/-! ## A branch opens its leaf -/

theorem readBranch_opens
    (prims : Primitives) (fuel : ℕ) (lower level : List ℕ) (nIndex : ℕ)
    (hFuel : level.length ≤ fuel + 1) (hIndex : nIndex < level.length) :
    ∃ branch root,
      readBranch (lower ++ levels (merkleParent prims) fuel level) fuel lower.length
          level.length nIndex = .ok branch ∧
        OpensTo (merkleParent prims) level nIndex branch root := by
  induction fuel generalizing lower level nIndex with
  | zero =>
      obtain ⟨node, rfl⟩ := List.length_eq_one_iff.mp (show level.length = 1 by omega)
      obtain rfl : nIndex = 0 := by simpa using hIndex
      exact ⟨[], node, rfl, .top node⟩
  | succ fuel ih =>
      rw [readBranch]
      by_cases hLength : level.length > 1
      · have hAbove := length_levelAbove (merkleParent prims) level
        have hSibling : level[min (nIndex ^^^ 1) (level.length - 1)]? =
            some (level.get ⟨min (nIndex ^^^ 1) (level.length - 1), by omega⟩) := by simp
        have hRead := hSibling
        rw [← getElem?_levels (merkleParent prims) (fuel + 1) (by omega)] at hRead
        obtain ⟨branch, root, hRest, hOpens⟩ :=
          ih (lower ++ level) (levelAbove (merkleParent prims) level) (nIndex / 2)
            (by omega) (by omega)
        refine ⟨_, root, ?_, .up hLength hIndex hSibling hOpens⟩
        simp only [if_pos hLength, elementAt_append lower hRead, ok_bind]
        rw [← hAbove, ← List.length_append, levels_eq_append _ hLength, ← List.append_assoc,
          hRest]
        rfl
      · obtain ⟨node, rfl⟩ := List.length_eq_one_iff.mp (show level.length = 1 by omega)
        obtain rfl : nIndex = 0 := by simpa using hIndex
        exact ⟨[], node, rfl, .top node⟩

/-- The fold of `CheckMerkleBranch` climbs from the leaf to the root. -/
theorem checkMerkleBranch_eq_climb
    (prims : Primitives) (hash : ℕ) (vMerkleBranch : List ℕ) (nIndex : ℕ) :
    checkMerkleBranch prims hash vMerkleBranch nIndex =
      climb (merkleParent prims) hash vMerkleBranch nIndex := by
  rw [checkMerkleBranch, if_neg (by omega)]
  induction vMerkleBranch generalizing hash nIndex with
  | nil => rfl
  | cons otherside rest ih =>
      have hShift : (nIndex : ℤ) / 2 = ((nIndex / 2 : ℕ) : ℤ) := by omega
      rw [List.foldl_cons, climb, foldOtherside]
      by_cases hOdd : nIndex % 2 = 1
      · rw [if_pos (show (nIndex : ℤ) % 2 = 1 by omega), if_pos hOdd, hShift, ih]
      · rw [if_neg (show ¬(nIndex : ℤ) % 2 = 1 by omega), if_neg hOdd, hShift, ih]

/-- Whatever the cache holds, `GetMerkleBranch` reads from the tree of the
block. -/
theorem getMerkleBranch_eq
    (prims : Primitives) (block : CBlock) (cache : MerkleCache prims block) (nIndex : ℕ) :
    block.getMerkleBranch prims cache nIndex =
      readBranch (block.vMerkleTree prims) block.vtx.length 0 block.vtx.length nIndex := by
  rw [getMerkleBranch, buildMerkleTreeLoop_eq]
  rcases cache.upToDate with hEmpty | ⟨root, hBuilt⟩
  · rw [hEmpty]
    rfl
  · rw [buildMerkleTreeLoop_eq, Except.ok.injEq, Prod.mk.injEq] at hBuilt
    rw [← hBuilt.1]
    split_ifs <;> rfl

/-- Every transaction of a block has a branch, and the branch leads from the
transaction's id to the root that `BuildMerkleTree` returns. -/
theorem checkMerkleBranch_getMerkleBranch
    (prims : Primitives) (block : CBlock) (cache : MerkleCache prims block)
    (i : Fin block.vtx.length) :
    ∃ vMerkleTree vMerkleBranch root,
      block.buildMerkleTreeLoop prims = .ok (vMerkleTree, root) ∧
        block.getMerkleBranch prims cache i = .ok vMerkleBranch ∧
        checkMerkleBranch prims ((block.vtx.get i).getHash prims) vMerkleBranch (i : ℕ) = root := by
  have hLength : (block.txids prims).length = block.vtx.length := by simp [txids]
  obtain ⟨branch, root, hRead, hOpens⟩ :=
    readBranch_opens prims block.vtx.length [] (block.txids prims) i (by omega)
      (by rw [hLength]; exact i.isLt)
  have hRoot := hOpens.getLast?_levels block.vtx.length (by omega)
  refine ⟨_, branch, _, buildMerkleTreeLoop_eq prims block, ?_, ?_⟩
  · rw [getMerkleBranch_eq, vMerkleTree, merkleLevels_eq]
    simpa [hLength] using hRead
  · rw [checkMerkleBranch_eq_climb, buildMerkleTree, vMerkleTree, merkleLevels_eq, hRoot]
    exact hOpens.climb_eq (by simp [txids])

end CBlock
end SocietyGold
