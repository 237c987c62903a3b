import SocietyGold.PendingBlocks

/-!
# The array accesses of a call

A call of `ProcessBlock` goes through `Block_Checker` in several loops and notes the slots of
the blocks that extend the tip in `marked_blocks_for_processing`.  The loops stay inside the
first array.  The second one has 25 entries and is written from the second on, once for each
different block: 24 of them fit, and a 25th is written past the end.
-/

namespace SocietyGold

open Support

/-! ## Accesses -/

inductive BufferArray
  | blockChecker
  | markedBlocksForProcessing
  deriving DecidableEq, Repr

def BufferArray.length : BufferArray → ℕ
  | .blockChecker => MAXIMUM_ARRAY_OF_BLOCKS
  | .markedBlocksForProcessing => maxMarkedBlocks

/-- A read or a write of an array element. -/
structure ArrayAccess where
  array : BufferArray
  index : ℕ
  deriving DecidableEq, Repr

def ArrayAccess.InRange (access : ArrayAccess) : Prop := access.index < access.array.length

instance (access : ArrayAccess) : Decidable access.InRange :=
  inferInstanceAs (Decidable (_ < _))

/-! ## The loops -/

/-- The array is filled with blank blocks. -/
def initAccesses (node : Node) : List ArrayAccess :=
  if node.blockCheckerArray then []
  else (List.range MAXIMUM_ARRAY_OF_BLOCKS).map fun blockTest => ⟨.blockChecker, blockTest⟩

/-- The first blank slot is looked for and gets the received block. -/
def storeAccesses : (slots : List CBlock) → (blockTest : ℕ) → List ArrayAccess
  | [], _ => []
  | block :: slots, blockTest =>
      if block.isBlank then [⟨.blockChecker, blockTest⟩, ⟨.blockChecker, blockTest⟩]
      else ⟨.blockChecker, blockTest⟩ :: storeAccesses slots (blockTest + 1)

/-- The scan; `keys` are those of `Match_Block_Map`.  The second component is the value of
`marked_entries`, which is that of `block_matches`. -/
def scanLoop (prims : Primitives) (pindexBest : CBlockIndex) :
    (slots : List CBlock) → (blockTest : ℕ) → (keys : Finset ℕ) → (markedEntries : ℕ) →
      List ArrayAccess × ℕ
  | [], _, _, markedEntries => ([], markedEntries)
  | slot :: slots, blockTest, keys, markedEntries =>
      let block := scanSlot pindexBest slot
      if !block.isBlank && decide (block.hashPrevBlock = pindexBest.phashBlock) &&
          decide (block.getHash prims ∉ keys) then
        let rest := scanLoop prims pindexBest slots (blockTest + 1)
          (insert (block.getHash prims) keys) (markedEntries + 1)
        (⟨.blockChecker, blockTest⟩ :: ⟨.markedBlocksForProcessing, markedEntries + 1⟩ :: rest.1,
          rest.2)
      else
        let rest := scanLoop prims pindexBest slots (blockTest + 1) keys markedEntries
        (⟨.blockChecker, blockTest⟩ :: rest.1, rest.2)

/-- Of several matches the late ones are blanked. -/
def blankAccesses (blockMatches : ℕ) : List ArrayAccess :=
  (List.range blockMatches).map fun matchTest => ⟨.blockChecker, matchTest⟩

/-- The loop that calls `AcceptBlock`. -/
def processAccesses (env : Env) (size : ℕ) :
    (remaining : ℕ) → (blocksProcessed : ℕ) → Node → List ArrayAccess
  | 0, _, _ => []
  | remaining + 1, blocksProcessed, node =>
      if blocksProcessed = size then []
      else
        let block := node.blockChecker.slot blocksProcessed
        ⟨.blockChecker, blocksProcessed⟩ ::
          match node.chain.entry node.chain.pindexBest with
          | none => []
          | some pindexBest =>
              if !block.isBlank && decide (pindexBest.phashBlock = block.hashPrevBlock) then
                match acceptBlock env true node.chain block with
                | .error _ => []
                | .ok (.ok _, chain) =>
                    processAccesses env size remaining (blocksProcessed + 1)
                      { node with
                        chain := chain
                        blockChecker := node.blockChecker.put blocksProcessed CBlock.blank }
                | .ok (.error _, chain) =>
                    processAccesses env size remaining blocksProcessed
                      { node with chain := chain }
              else processAccesses env size remaining (blocksProcessed + 1) node

/-- The second phase of a call. -/
def bufferAccesses (env : Env) (node : Node) (pindexBest : CBlockIndex) (size : ℕ) :
    List ArrayAccess :=
  let scan := scanLoop env.prims pindexBest (node.blockChecker.slots.take size) 0 ∅ 0
  let blockMatches := scan.2
  scan.1 ++
    if blockMatches = 0 ∧ pindexBest.nHeight > 1000 then []
    else if blockMatches > 1 then blankAccesses blockMatches
    else
      processAccesses env size (node.bufferEntries + 1) 0
        { node with blockChecker := node.blockChecker.mapFirst size (scanSlot pindexBest) }

/-- The accesses of a call to the two arrays, in order. -/
def arrayAccesses (env : Env) (fromNode : Bool) (node : Node) (pblock : CBlock) :
    List ArrayAccess :=
  if pblock.getHash env.prims ∈ node.chain.mapBlockIndex then []
  else if env.fRequestShutdown then []
  else
    match node.chain.entry node.chain.pindexBest with
    | none => []
    | some pindexBest =>
        initAccesses node ++
          if fromNode then
            let node := node.initBuffer
            let size := node.synchModeBufferSize
            if node.bufferEntries < size then
              storeAccesses (node.blockChecker.slots.take size) 0 ++
                match (node.storeReceived size).waits env pindexBest size with
                | some _ => []
                | none => bufferAccesses env (node.storeReceived size) pindexBest size
            else bufferAccesses env node pindexBest size
          else []

/-! ## The first array -/

def InArray (accesses : List ArrayAccess) : Prop := ∀ access ∈ accesses, access.InRange

theorem inArray_append {accesses accesses' : List ArrayAccess} :
    InArray (accesses ++ accesses') ↔ InArray accesses ∧ InArray accesses' :=
  List.forall_mem_append

theorem inArray_cons {access : ArrayAccess} {accesses : List ArrayAccess} :
    InArray (access :: accesses) ↔ access.InRange ∧ InArray accesses :=
  List.forall_mem_cons

theorem inArray_range {n : ℕ} (hn : n ≤ MAXIMUM_ARRAY_OF_BLOCKS) :
    InArray ((List.range n).map fun i => ⟨.blockChecker, i⟩) := by
  intro access hMem
  obtain ⟨i, hi, rfl⟩ := List.mem_map.mp hMem
  exact lt_of_lt_of_le (List.mem_range.mp hi) hn

theorem inArray_initAccesses (node : Node) : InArray (initAccesses node) := by
  unfold initAccesses
  split_ifs
  · exact List.forall_mem_nil _
  · exact inArray_range le_rfl

theorem inArray_storeAccesses
    {slots : List CBlock} {i : ℕ} (hSlots : i + slots.length ≤ MAXIMUM_ARRAY_OF_BLOCKS) :
    InArray (storeAccesses slots i) := by
  induction slots generalizing i with
  | nil => exact List.forall_mem_nil _
  | cons block slots ih =>
      rw [List.length_cons] at hSlots
      have hHead : ArrayAccess.InRange ⟨.blockChecker, i⟩ := by
        change i < MAXIMUM_ARRAY_OF_BLOCKS
        omega
      unfold storeAccesses
      split_ifs
      · exact inArray_cons.mpr ⟨hHead, inArray_cons.mpr ⟨hHead, List.forall_mem_nil _⟩⟩
      · exact inArray_cons.mpr ⟨hHead, ih (by omega)⟩

theorem inArray_processAccesses
    {env : Env} {size remaining blocksProcessed : ℕ} {node : Node}
    (hSize : size ≤ MAXIMUM_ARRAY_OF_BLOCKS) (hProcessed : blocksProcessed ≤ size) :
    InArray (processAccesses env size remaining blocksProcessed node) := by
  induction remaining generalizing blocksProcessed node with
  | zero => exact List.forall_mem_nil _
  | succ remaining ih =>
      unfold processAccesses
      by_cases hEnd : blocksProcessed = size
      · rw [if_pos hEnd]
        exact List.forall_mem_nil _
      rw [if_neg hEnd]
      refine inArray_cons.mpr ⟨?_, ?_⟩
      · change blocksProcessed < MAXIMUM_ARRAY_OF_BLOCKS
        omega
      · cases node.chain.entry node.chain.pindexBest with
        | none => exact List.forall_mem_nil _
        | some pindexBest =>
            dsimp only
            split_ifs
            · rcases acceptBlock env true node.chain _ with _ | ⟨_ | _, chain⟩
              · exact List.forall_mem_nil _
              · exact ih hProcessed
              · exact ih (by omega)
            · exact ih (by omega)

/-! ## The second array -/

/-- A block that the tests of its time keep and that extends the best block. -/
def ExtendsTip (pindexBest : CBlockIndex) (block : CBlock) : Prop :=
  (block.isBlank = false ∧ block.nTime ≠ 0 ∧ timeTooFar pindexBest block = false) ∧
    block.hashPrevBlock = pindexBest.phashBlock

instance (pindexBest : CBlockIndex) (block : CBlock) : Decidable (ExtendsTip pindexBest block) :=
  inferInstanceAs (Decidable (_ ∧ _))

/-- The hashes of the blocks in the slots that extend the best block. -/
def tipHashes (prims : Primitives) (pindexBest : CBlockIndex) (slots : List CBlock) : Finset ℕ :=
  ((slots.filter fun block => ExtendsTip pindexBest block).map (CBlock.getHash prims)).toFinset

theorem scanSlot_of_extendsTip
    {pindexBest : CBlockIndex} {block : CBlock} (hExtends : ExtendsTip pindexBest block) :
    scanSlot pindexBest block = block := by
  obtain ⟨⟨hPending, hTime, hNear⟩, -⟩ := hExtends
  rw [scanSlot_of_pending hPending, if_neg]
  rintro (hNone | hFar)
  · exact hTime hNone
  · rw [hNear] at hFar
    cases hFar

theorem matches_scanSlot_iff {pindexBest : CBlockIndex} {block : CBlock} :
    ((scanSlot pindexBest block).isBlank = false ∧
      (scanSlot pindexBest block).hashPrevBlock = pindexBest.phashBlock) ↔
      ExtendsTip pindexBest block := by
  constructor
  · rintro ⟨hPending, hPrev⟩
    by_cases hKept : block.nTime = 0 ∨ timeTooFar pindexBest block = true ∨ block.isBlank = true
    · have hBlank : scanSlot pindexBest block = CBlock.blank := by
        unfold scanSlot
        rw [if_pos (by simpa [or_assoc] using hKept)]
      rw [hBlank] at hPending
      cases hPending
    · have hSame : scanSlot pindexBest block = block := by
        unfold scanSlot
        rw [if_neg (by simpa [or_assoc] using hKept)]
      rw [hSame] at hPending hPrev
      simp only [not_or, Bool.not_eq_true] at hKept
      exact ⟨⟨hPending, hKept.1, hKept.2.1⟩, hPrev⟩
  · intro hExtends
    rw [scanSlot_of_extendsTip hExtends]
    exact ⟨hExtends.1.1, hExtends.2⟩

theorem card_insert_sdiff {hash : ℕ} {hashes keys : Finset ℕ} (hNew : hash ∉ keys) :
    (insert hash hashes \ keys).card = (hashes \ insert hash keys).card + 1 := by
  rw [Finset.insert_sdiff_of_notMem _ hNew, Finset.sdiff_insert, ← Finset.card_erase_add_one
    (Finset.mem_insert_self hash (hashes \ keys)), Finset.erase_insert_eq_erase]

section Scan

variable {prims : Primitives} {pindexBest : CBlockIndex}

theorem tipHashes_cons_of_not
    {block : CBlock} (slots : List CBlock) (hNot : ¬ExtendsTip pindexBest block) :
    tipHashes prims pindexBest (block :: slots) = tipHashes prims pindexBest slots := by
  unfold tipHashes
  rw [List.filter_cons_of_neg (by simpa using hNot)]

theorem tipHashes_cons_of_extends
    {block : CBlock} (slots : List CBlock) (hExtends : ExtendsTip pindexBest block) :
    tipHashes prims pindexBest (block :: slots) =
      insert (block.getHash prims) (tipHashes prims pindexBest slots) := by
  unfold tipHashes
  rw [List.filter_cons_of_pos (by simpa using hExtends), List.map_cons, List.toFinset_cons]

theorem scanLoop_cons_of_known
    {slot : CBlock} {keys : Finset ℕ}
    (hKnown : ExtendsTip pindexBest slot → slot.getHash prims ∈ keys)
    (slots : List CBlock) (blockTest markedEntries : ℕ) :
    scanLoop prims pindexBest (slot :: slots) blockTest keys markedEntries =
      (⟨.blockChecker, blockTest⟩ ::
          (scanLoop prims pindexBest slots (blockTest + 1) keys markedEntries).1,
        (scanLoop prims pindexBest slots (blockTest + 1) keys markedEntries).2) := by
  rw [scanLoop]
  dsimp only
  rw [if_neg]
  simp only [Bool.and_eq_true, Bool.not_eq_true', decide_eq_true_eq]
  rintro ⟨hMatches, hNew⟩
  have hExtends := matches_scanSlot_iff.mp hMatches
  rw [scanSlot_of_extendsTip hExtends] at hNew
  exact hNew (hKnown hExtends)

theorem scanLoop_cons_of_new
    {slot : CBlock} {keys : Finset ℕ} (hExtends : ExtendsTip pindexBest slot)
    (hNew : slot.getHash prims ∉ keys) (slots : List CBlock) (blockTest markedEntries : ℕ) :
    scanLoop prims pindexBest (slot :: slots) blockTest keys markedEntries =
      (⟨.blockChecker, blockTest⟩ :: ⟨.markedBlocksForProcessing, markedEntries + 1⟩ ::
          (scanLoop prims pindexBest slots (blockTest + 1) (insert (slot.getHash prims) keys)
            (markedEntries + 1)).1,
        (scanLoop prims pindexBest slots (blockTest + 1) (insert (slot.getHash prims) keys)
          (markedEntries + 1)).2) := by
  rw [scanLoop]
  dsimp only
  rw [scanSlot_of_extendsTip hExtends, if_pos]
  simp [hExtends.1.1, hExtends.2, hNew]

/-- The scan counts the different blocks that extend the tip. -/
theorem scanLoop_snd (slots : List CBlock) (blockTest : ℕ) (keys : Finset ℕ) (marked : ℕ) :
    (scanLoop prims pindexBest slots blockTest keys marked).2 =
      marked + (tipHashes prims pindexBest slots \ keys).card := by
  induction slots generalizing blockTest keys marked with
  | nil => simp [scanLoop, tipHashes]
  | cons slot slots ih =>
      by_cases hExtends : ExtendsTip pindexBest slot
      · rw [tipHashes_cons_of_extends slots hExtends]
        by_cases hKnown : slot.getHash prims ∈ keys
        · rw [scanLoop_cons_of_known (fun _ => hKnown), ih, Finset.insert_sdiff_of_mem _ hKnown]
        · rw [scanLoop_cons_of_new hExtends hKnown, ih, card_insert_sdiff hKnown]
          omega
      · rw [tipHashes_cons_of_not slots hExtends,
          scanLoop_cons_of_known (fun h => absurd h hExtends), ih]

/-- The scan stays in range exactly if it marks at most 24 blocks. -/
theorem inArray_scanLoop_iff
    {slots : List CBlock} {blockTest marked : ℕ} (keys : Finset ℕ)
    (hSlots : blockTest + slots.length ≤ MAXIMUM_ARRAY_OF_BLOCKS)
    (hMarked : marked < maxMarkedBlocks) :
    InArray (scanLoop prims pindexBest slots blockTest keys marked).1 ↔
      marked + (tipHashes prims pindexBest slots \ keys).card < maxMarkedBlocks := by
  induction slots generalizing blockTest keys marked with
  | nil =>
      refine iff_of_true (List.forall_mem_nil _) ?_
      simpa [tipHashes] using hMarked
  | cons slot slots ih =>
      rw [List.length_cons] at hSlots
      have hHead : ArrayAccess.InRange ⟨.blockChecker, blockTest⟩ := by
        change blockTest < MAXIMUM_ARRAY_OF_BLOCKS
        omega
      by_cases hExtends : ExtendsTip pindexBest slot
      · rw [tipHashes_cons_of_extends slots hExtends]
        by_cases hKnown : slot.getHash prims ∈ keys
        · rw [scanLoop_cons_of_known (fun _ => hKnown), inArray_cons, and_iff_right hHead,
            ih keys (by omega) hMarked, Finset.insert_sdiff_of_mem _ hKnown]
        · -- the write for this block decides whether those after it are in range
          rw [scanLoop_cons_of_new hExtends hKnown, inArray_cons, and_iff_right hHead,
            inArray_cons, card_insert_sdiff hKnown]
          by_cases hNext : marked + 1 < maxMarkedBlocks
          · rw [and_iff_right (show ArrayAccess.InRange ⟨.markedBlocksForProcessing, _⟩ from hNext),
              ih _ (by omega) hNext]
            omega
          · refine iff_of_false ?_ (by omega)
            rintro ⟨hWrite, -⟩
            exact hNext hWrite
      · rw [tipHashes_cons_of_not slots hExtends,
          scanLoop_cons_of_known (fun h => absurd h hExtends), inArray_cons, and_iff_right hHead,
          ih keys (by omega) hMarked]

end Scan

/-! ## Whole calls -/

/-- The hashes of the blocks of a call that extend the best block. -/
def Node.competitors (env : Env) (node : Node) (pindexBest : CBlockIndex) : Finset ℕ :=
  tipHashes env.prims pindexBest
    (node.stored.blockChecker.slots.take node.synchModeBufferSize)

theorem card_tipHashes_le (prims : Primitives) (pindexBest : CBlockIndex) (slots : List CBlock) :
    (tipHashes prims pindexBest slots).card ≤ slots.length := by
  unfold tipHashes
  refine (List.toFinset_card_le _).trans ?_
  rw [List.length_map]
  exact List.length_filter_le _ _

theorem inArray_bufferAccesses_iff
    {env : Env} {node : Node} {pindexBest : CBlockIndex} {size : ℕ}
    (hSize : size ≤ MAXIMUM_ARRAY_OF_BLOCKS) :
    InArray (bufferAccesses env node pindexBest size) ↔
      (tipHashes env.prims pindexBest (node.blockChecker.slots.take size)).card <
        maxMarkedBlocks := by
  have hTake : (node.blockChecker.slots.take size).length = size := by
    rw [List.length_take, node.blockChecker.length_slots]
    exact min_eq_left hSize
  have hScan := @inArray_scanLoop_iff env.prims pindexBest
    (node.blockChecker.slots.take size) 0 0 ∅ (by omega) (by decide)
  have hCount := @scanLoop_snd env.prims pindexBest
    (node.blockChecker.slots.take size) 0 ∅ 0
  have hCard := card_tipHashes_le env.prims pindexBest (node.blockChecker.slots.take size)
  rw [Finset.sdiff_empty, Nat.zero_add] at hScan hCount
  unfold bufferAccesses
  dsimp only
  rw [inArray_append, hScan, hCount]
  apply and_iff_left_of_imp
  intro hFew
  split_ifs
  · exact List.forall_mem_nil _
  · exact inArray_range (by omega)
  · exact inArray_processAccesses hSize (Nat.zero_le _)

/-- The accesses of a call that does not come to the second phase are in range, and the others
are in range if those of the second phase are. -/
theorem inArray_arrayAccesses
    {env : Env} {node : Node} {pblock : CBlock} {pindexBest : CBlockIndex}
    (hUnknown : pblock.getHash env.prims ∉ node.chain.mapBlockIndex)
    (hRunning : env.fRequestShutdown = false)
    (hBest : node.chain.entry node.chain.pindexBest = some pindexBest) :
    InArray (arrayAccesses env true node pblock) ↔
      (node.IsReady env pblock pindexBest →
        InArray (bufferAccesses env node.stored pindexBest node.synchModeBufferSize)) := by
  unfold arrayAccesses
  rw [if_neg hUnknown, if_neg (by rw [hRunning]; decide), hBest]
  dsimp only
  rw [if_pos rfl, inArray_append, and_iff_right (inArray_initAccesses node),
    Node.synchModeBufferSize_initBuffer]
  by_cases hRoom : node.initBuffer.bufferEntries < node.synchModeBufferSize
  · have hStored : node.stored = node.initBuffer.storeReceived node.synchModeBufferSize := by
      rw [Node.stored, if_pos hRoom]
    have hArray := node.synchModeBufferSize_le
    have hLength := node.initBuffer.blockChecker.length_slots
    rw [if_pos hRoom, ← hStored, inArray_append,
      and_iff_right (inArray_storeAccesses (by rw [List.length_take]; omega))]
    cases hWaits : node.stored.waits env pindexBest node.synchModeBufferSize with
    | some value =>
        refine iff_of_true (List.forall_mem_nil _) ?_
        intro hReady
        rw [hReady.filled hRoom] at hWaits
        cases hWaits
    | none =>
        have hReady : node.IsReady env pblock pindexBest :=
          ⟨hUnknown, hRunning, hBest, fun _ => hWaits⟩
        exact ⟨fun hIn _ => hIn, fun hIn => hIn hReady⟩
  · have hReady : node.IsReady env pblock pindexBest :=
      ⟨hUnknown, hRunning, hBest, fun hLt => absurd hLt hRoom⟩
    rw [if_neg hRoom, Node.stored, if_neg hRoom]
    exact ⟨fun hIn _ => hIn, fun hIn => hIn hReady⟩

/-- A call stays inside the two arrays exactly if at most 24 different blocks extend the tip
when it comes to the second phase. -/
theorem inArray_arrayAccesses_iff
    (env : Env) (fromNode : Bool) (node : Node) (pblock : CBlock) :
    InArray (arrayAccesses env fromNode node pblock) ↔
      ∀ pindexBest, fromNode = true → node.IsReady env pblock pindexBest →
        (node.competitors env pindexBest).card ≤ 24 := by
  by_cases hUnknown : pblock.getHash env.prims ∈ node.chain.mapBlockIndex
  · refine iff_of_true ?_ (fun _ _ hReady => absurd hUnknown hReady.unknown)
    rw [arrayAccesses, if_pos hUnknown]
    exact List.forall_mem_nil _
  cases hRunning : env.fRequestShutdown with
  | true =>
      refine iff_of_true ?_ (fun _ _ hReady => ?_)
      · rw [arrayAccesses, if_neg hUnknown, if_pos hRunning]
        exact List.forall_mem_nil _
      · rw [hReady.running] at hRunning
        cases hRunning
  | false =>
      cases hBest : node.chain.entry node.chain.pindexBest with
      | none =>
          refine iff_of_true ?_ (fun _ _ hReady => ?_)
          · rw [arrayAccesses, if_neg hUnknown, if_neg (by rw [hRunning]; decide), hBest]
            exact List.forall_mem_nil _
          · rw [hReady.best] at hBest
            cases hBest
      | some pindexBest =>
          cases fromNode with
          | false =>
              refine iff_of_true ?_ (fun _ hFrom => absurd hFrom Bool.false_ne_true)
              rw [arrayAccesses, if_neg hUnknown, if_neg (by rw [hRunning]; decide), hBest]
              exact inArray_append.mpr ⟨inArray_initAccesses node, List.forall_mem_nil _⟩
          | true =>
              rw [inArray_arrayAccesses hUnknown hRunning hBest,
                inArray_bufferAccesses_iff node.synchModeBufferSize_le]
              constructor
              · intro hReadyIn pindex _ hReady
                obtain rfl : pindexBest = pindex :=
                  Option.some.inj (hBest.symm.trans hReady.best)
                exact Nat.le_of_lt_succ (hReadyIn hReady)
              · intro hFew hReady
                exact Nat.lt_succ_of_le (hFew pindexBest rfl hReady)

namespace Sample

/-- A block on top of the tip. -/
def childOfTip (i : ℕ) : CBlock := { unsigned with nNonce := i }

/-- A node that is behind its peers and holds 29 different blocks on top of its tip. -/
def crowdedNode : Node :=
  { freshNode with
    blockChecker :=
      { slots := (List.range 29).map childOfTip ++ [CBlock.blank]
        length_slots := rfl }
    blockCheckerArray := true
    bufferEntries := 29
    lastKnownBlockHeight := 100
    blockToCheck := childOfTip 29 }

/-- The call for one more such block writes past the end of the array. -/
theorem crowdedNode_writes :
    ⟨.markedBlocksForProcessing, 25⟩ ∈ arrayAccesses (env 900) true crowdedNode (childOfTip 29) ∧
      ¬InArray (arrayAccesses (env 900) true crowdedNode (childOfTip 29)) := by
  have hMem : ⟨.markedBlocksForProcessing, 25⟩ ∈
      arrayAccesses (env 900) true crowdedNode (childOfTip 29) := by decide +kernel
  refine ⟨hMem, ?_⟩
  intro hAll
  exact absurd (hAll _ hMem) (by decide)

end Sample

end SocietyGold
