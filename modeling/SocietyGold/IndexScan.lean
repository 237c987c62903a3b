import SocietyGold.PendingBlocks
import SocietyGold.ScoreHash
import SocietyGold.Support.WhileLoop

/-!
# The scan of the block index

When no block in the array extends the tip, `ProcessBlock` walks through `mapBlockIndex` to
look for entries that are higher than the best block.  The iterator is only advanced from the
other entries; the call of `erase` that went on from a higher one is commented out.  So the
scan returns exactly if it finds nothing, and never if there is an entry to be found.
-/

namespace SocietyGold

open Support

/-! ## The loop -/

/-- The test in the loop. -/
def isAboveBest (pindexBest : CBlockIndex) (entry : ℕ × CBlockIndex) : Bool :=
  entry.2.nHeight > pindexBest.nHeight

/-- A round of the loop; the state is the map and the position of `block_checker`. -/
def scanRound (pindexBest : CBlockIndex) :
    List (ℕ × CBlockIndex) × ℕ → Option (List (ℕ × CBlockIndex) × ℕ) :=
  walkRound (isAboveBest pindexBest)

/-- The loop is not entered, or it returns.  A call only comes here from a height over 1000, so
the conversion of the height to the unsigned type of the size does not matter. -/
def ScanReturns (mapBlockIndex : Table ℕ CBlockIndex) (pindexBest : CBlockIndex) : Prop :=
  (mapBlockIndex.entries.length : ℤ) > pindexBest.nHeight →
    ∃ final, LoopReturns (scanRound pindexBest) (mapBlockIndex.inKeyOrder, 0) final

theorem scanReturns_iff_forall
    {mapBlockIndex : Table ℕ CBlockIndex} {pindexBest : CBlockIndex} :
    ScanReturns mapBlockIndex pindexBest ↔
      ((mapBlockIndex.entries.length : ℤ) > pindexBest.nHeight →
        ∀ entry ∈ mapBlockIndex.inKeyOrder, isAboveBest pindexBest entry = false) := by
  unfold ScanReturns scanRound
  apply imp_congr_right
  intro hEntered
  constructor
  · rintro ⟨final, hReturns⟩
    exact ((loopReturns_walkRound_iff (Nat.zero_le _)).mp hReturns).1
  · intro hAll
    exact ⟨_, (loopReturns_walkRound_iff (Nat.zero_le _)).mpr ⟨hAll, rfl⟩⟩

/-- The scan of the block index returns exactly if the index has no more entries than the
height of the best block, or none that is higher than it. -/
theorem scanReturns_iff (mapBlockIndex : Table ℕ CBlockIndex) (pindexBest : CBlockIndex) :
    ScanReturns mapBlockIndex pindexBest ↔
      (mapBlockIndex.entries.length : ℤ) ≤ pindexBest.nHeight ∨
        ∀ hash entry, mapBlockIndex.lookup hash = some entry →
          entry.nHeight ≤ pindexBest.nHeight := by
  rw [scanReturns_iff_forall, ← not_lt, ← imp_iff_not_or]
  apply imp_congr_right
  intro hEntered
  constructor
  · intro hAll hash entry hFound
    have hNot := hAll (hash, entry) (Table.mem_inKeyOrder.mpr hFound)
    unfold isAboveBest at hNot
    rw [decide_eq_false_iff_not] at hNot
    exact not_lt.mp hNot
  · rintro hAll ⟨hash, entry⟩ hMem
    have hLe := hAll hash entry (Table.mem_inKeyOrder.mp hMem)
    unfold isAboveBest
    rw [decide_eq_false_iff_not]
    exact not_lt.mpr hLe

/-! ## The call that scans -/

/-- A call that comes to the scan does not return if the scan does not. -/
theorem processNoMatch_diverges_iff {node : Node} {pindexBest : CBlockIndex} :
    processNoMatch node pindexBest = .error .diverges ↔
      ¬ScanReturns node.chain.mapBlockIndex pindexBest := by
  rw [scanReturns_iff_forall]
  have hSame : (node.chain.mapBlockIndex.entries.any fun entry =>
      decide (entry.2.nHeight > pindexBest.nHeight)) = true ↔
        ¬∀ entry ∈ node.chain.mapBlockIndex.inKeyOrder,
          isAboveBest pindexBest entry = false := by
    simp only [List.any_eq_true, not_forall, Bool.not_eq_false, isAboveBest]
    constructor
    · rintro ⟨⟨hash, entry⟩, hMem, hAbove⟩
      exact ⟨(hash, entry), Table.mem_inKeyOrder.mpr (AList.mem_lookup_iff.mpr hMem), hAbove⟩
    · rintro ⟨⟨hash, entry⟩, hMem, hAbove⟩
      exact ⟨⟨hash, entry⟩, AList.mem_lookup_iff.mp (Table.mem_inKeyOrder.mp hMem), hAbove⟩
  rw [Classical.not_imp, ← hSame]
  unfold processNoMatch
  dsimp only
  split_ifs with hStuck hMany
  · exact iff_of_true rfl hStuck
  · refine iff_of_false ?_ hStuck
    -- the branch that gives up the array can only fault on a missing entry
    intro hRun
    cases hEntry : node.chain.entry pindexBest.pprev with
    | none =>
        rw [hEntry] at hRun
        cases hRun
    | some previousIndex =>
        rw [hEntry, deref_some, ok_bind] at hRun
        cases hBefore : node.chain.entry previousIndex.pprev with
        | none =>
            rw [hBefore] at hRun
            cases hRun
        | some entry =>
            rw [hBefore] at hRun
            cases hRun
  · refine iff_of_false ?_ hStuck
    intro hRun
    cases hRun

/-- A call that finds no block for the tip ends in a scan that does not return. -/
theorem processBuffer_diverges_of_not_scanReturns
    {env : Env} {node : Node} {pindexBest : CBlockIndex}
    (hNone : node.blockMatches env pindexBest = 0) (hHeight : pindexBest.nHeight > 1000)
    (hStuck : ¬ScanReturns node.chain.mapBlockIndex pindexBest) :
    processBuffer env node.stored pindexBest node.synchModeBufferSize = .error .diverges := by
  have hNoMatch : processNoMatch (node.scanned pindexBest) pindexBest = .error .diverges := by
    apply processNoMatch_diverges_iff.mpr
    rw [show (node.scanned pindexBest).chain = node.chain from node.chain_stored]
    exact hStuck
  unfold Node.blockMatches Node.scanned at hNone
  unfold Node.scanned at hNoMatch
  unfold processBuffer
  dsimp only at hNone ⊢
  rw [hNone, if_neg (by decide), if_pos ⟨rfl, hHeight⟩, hNoMatch]
  rfl

namespace Sample

/-- A node at a height; its index also has the entry of the next block, which could not be
connected. -/
def chainWithRefused (n : ℕ) : ChainState :=
  { nodeAtHeight (n + 1) with
    pindexBest := some (500 + n)
    hashBestChain := 500 + n
    nBestHeight := n }

/-- It is close to the height of its peers and has received another block. -/
def scanningNode (n : ℕ) : Node :=
  { freshNode with
    chain := chainWithRefused n
    blockCheckerArray := true
    bufferEntries := 1
    blockToCheck := orphan }

section Heights

variable {n : ℕ}

theorem mapBlockIndex_nodeAtHeight : (nodeAtHeight n).mapBlockIndex =
    (List.range (n + 1)).foldl
      (fun mapBlockIndex i => mapBlockIndex.insert (500 + i) (chainEntry i)) ∅ := rfl

theorem nodup_hashes : ((List.range (n + 1)).map fun i => 500 + i).Nodup := by
  refine List.nodup_range.map ?_
  intro i j h
  exact Nat.add_left_cancel h

theorem lookup_nodeAtHeight {i : ℕ} (hi : i ≤ n) :
    (nodeAtHeight n).mapBlockIndex.lookup (500 + i) = some (chainEntry i) := by
  rw [mapBlockIndex_nodeAtHeight]
  exact Table.lookup_foldl_insert_of_mem _ _ _ nodup_hashes
    (List.mem_range.mpr (Nat.lt_succ_of_le hi))

theorem not_mem_nodeAtHeight {hash : ℕ} (hHash : 500 + n < hash) :
    hash ∉ (nodeAtHeight n).mapBlockIndex := by
  have hNew : hash ∉ (List.range (n + 1)).map fun i => 500 + i := by
    intro hMem
    obtain ⟨i, hi, rfl⟩ := List.mem_map.mp hMem
    have hLt := List.mem_range.mp hi
    omega
  rw [mapBlockIndex_nodeAtHeight, Table.not_mem_iff_lookup,
    Table.lookup_foldl_insert_of_not_mem _ _ _ hNew, AList.lookup_empty]

theorem length_nodeAtHeight : n < (nodeAtHeight n).mapBlockIndex.entries.length := by
  have hLength := Table.length_le_of_nodup (nodup_hashes (n := n))
    (t := (nodeAtHeight n).mapBlockIndex) (by
      intro k hk
      obtain ⟨i, hi, rfl⟩ := List.mem_map.mp hk
      exact Table.mem_iff_lookup.mpr
        ⟨_, lookup_nodeAtHeight (Nat.le_of_lt_succ (List.mem_range.mp hi))⟩)
  rwa [List.length_map, List.length_range] at hLength

theorem nHeight_chainEntry : (chainEntry n).nHeight = n := rfl

theorem unknown_scanningNode (hHash : 501 + n < orphan.getHash (env 900).prims) :
    orphan.getHash (env 900).prims ∉ (scanningNode n).chain.mapBlockIndex :=
  not_mem_nodeAtHeight (by omega)

theorem entry_scanningNode :
    (scanningNode n).chain.entry (scanningNode n).chain.pindexBest = some (chainEntry n) :=
  lookup_nodeAtHeight (Nat.le_succ n)

theorem not_scanReturns_scanningNode :
    ¬ScanReturns (scanningNode n).chain.mapBlockIndex (chainEntry n) := by
  intro hReturns
  have hLength := length_nodeAtHeight (n := n + 1)
  have hAll := scanReturns_iff_forall.mp hReturns (by
    change (n : ℤ) < ((nodeAtHeight (n + 1)).mapBlockIndex.entries.length : ℤ)
    omega)
  have hNot := hAll _ (Table.mem_inKeyOrder.mpr (lookup_nodeAtHeight (le_refl (n + 1))))
  simp [isAboveBest, nHeight_chainEntry] at hNot

end Heights

/-- A block that does not extend the tip makes the node scan its index for ever. -/
theorem scanningNode_diverges :
    processBlock (env 900) true (scanningNode 1001) orphan = .error .diverges ∧
      ¬ScanReturns (scanningNode 1001).chain.mapBlockIndex (chainEntry 1001) := by
  have hReady : (scanningNode 1001).IsReady (env 900) orphan (chainEntry 1001) := by
    refine ⟨unknown_scanningNode ?_, rfl, entry_scanningNode, ?_⟩
    · decide +kernel
    · intro _
      decide +kernel
  refine ⟨?_, not_scanReturns_scanningNode⟩
  rw [processBlock_of_isReady hReady]
  refine processBuffer_diverges_of_not_scanReturns ?_ ?_ not_scanReturns_scanningNode
  · decide +kernel
  · rw [nHeight_chainEntry]
    decide

end Sample

end SocietyGold
