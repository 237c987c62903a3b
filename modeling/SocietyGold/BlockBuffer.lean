import SocietyGold.BlockAdmission

/-!
# The array of received blocks over a call

A call of `ProcessBlock` first sets up the array and stores the received block; it then
returns, or goes on to a second phase over the blocks in the array.  This module says
what each part does to every slot of the array.

From this it derives what happens to a block that waits in the array.  A call that finds
the array initialised keeps the block until `AcceptBlock` has returned true for it or a
test of its time removes it.  But the end of the processing loop marks the array as not
initialised, and the next call then discards whatever is left.
-/

namespace SocietyGold

open Support

/-! ## Slots -/

namespace BlockChecker

variable (checker : BlockChecker)

theorem slot_blank (i : ℕ) : blank.slot i = CBlock.blank := by
  unfold slot blank
  by_cases hi : i < MAXIMUM_ARRAY_OF_BLOCKS
  · rw [List.getD_eq_getElem _ _ (by simpa using hi), List.getElem_replicate]
  · rw [List.getD_eq_default _ _ (by simpa using hi)]

theorem slot_of_le {i : ℕ} (hi : MAXIMUM_ARRAY_OF_BLOCKS ≤ i) :
    checker.slot i = CBlock.blank := by
  unfold slot
  rw [List.getD_eq_default _ _ (by rw [checker.length_slots]; exact hi)]

theorem slot_put {i : ℕ} (hi : i < MAXIMUM_ARRAY_OF_BLOCKS) (block : CBlock) (k : ℕ) :
    (checker.put i block).slot k = if k = i then block else checker.slot k := by
  unfold slot put
  rw [List.getD_eq_getElem?_getD, List.getD_eq_getElem?_getD, List.getElem?_set]
  by_cases hk : i = k
  · subst hk
    simp [checker.length_slots, hi]
  · rw [if_neg hk, if_neg (Ne.symm hk)]

/-- Blanking a slot, also outside the array. -/
theorem slot_put_blank (i k : ℕ) :
    (checker.put i CBlock.blank).slot k = if k = i then CBlock.blank else checker.slot k := by
  by_cases hi : i < MAXIMUM_ARRAY_OF_BLOCKS
  · exact checker.slot_put hi CBlock.blank k
  · have hSame : checker.put i CBlock.blank = checker := by
      unfold put
      congr
      exact List.set_eq_of_length_le (by rw [checker.length_slots]; omega)
    rw [hSame]
    by_cases hk : k = i
    · rw [if_pos hk, hk, checker.slot_of_le (by omega)]
    · rw [if_neg hk]

theorem slot_mapFirst {f : CBlock → CBlock} (hf : f CBlock.blank = CBlock.blank) (size k : ℕ) :
    (checker.mapFirst size f).slot k =
      if k < size then f (checker.slot k) else checker.slot k := by
  have hLength := checker.length_slots
  unfold slot mapFirst
  simp only [List.getD_eq_getElem?_getD]
  by_cases hArray : k < checker.slots.length
  · by_cases hk : k < size
    · rw [if_pos hk, List.getElem?_append_left (by simp; omega)]
      simp [hk, hArray]
    · rw [if_neg hk, List.getElem?_append_right (by simp; omega), List.getElem?_drop]
      congr 2
      simp
      omega
  · have hNone : checker.slots[k]? = none := List.getElem?_eq_none (by omega)
    rw [List.getElem?_eq_none (by simp; omega), hNone]
    simp [hf]

/-- The slot that `storeReceived` picks. -/
theorem firstBlank_eq_some {size i : ℕ} (h : checker.firstBlank size = some i) :
    i < size ∧ i < MAXIMUM_ARRAY_OF_BLOCKS ∧ (checker.slot i).isBlank = true ∧
      ∀ j < i, (checker.slot j).isBlank = false := by
  unfold firstBlank at h
  obtain ⟨hi, hBlank, hBefore⟩ := List.findIdx?_eq_some_iff_getElem.mp h
  have hLength := checker.length_slots
  rw [List.length_take] at hi
  refine ⟨by omega, by omega, ?_, ?_⟩
  · unfold slot
    rw [List.getD_eq_getElem _ _ (by omega)]
    simpa using hBlank
  · intro j hj
    unfold slot
    rw [List.getD_eq_getElem _ _ (by omega)]
    simpa using hBefore j hj

theorem firstBlank_eq_none {size : ℕ} (hSize : size ≤ MAXIMUM_ARRAY_OF_BLOCKS)
    (h : checker.firstBlank size = none) (k : ℕ) (hk : k < size) :
    (checker.slot k).isBlank = false := by
  unfold firstBlank at h
  have hLength := checker.length_slots
  have hAll := List.findIdx?_eq_none_iff.mp h (checker.slot k) (by
    unfold slot
    rw [List.getD_eq_getElem _ _ (by omega)]
    exact List.mem_take_iff_getElem.mpr ⟨k, by omega, rfl⟩)
  exact hAll

end BlockChecker

/-! ## The two phases of a call -/

namespace Node

/-- The node once the array is set up and the received block stored. -/
def stored (node : Node) : Node :=
  if node.initBuffer.bufferEntries < node.synchModeBufferSize then
    node.initBuffer.storeReceived node.synchModeBufferSize
  else node.initBuffer

/-- The call goes on to the second phase: the block is new, the node does not shut down,
and the array holds enough blocks. -/
structure IsReady (env : Env) (node : Node) (pblock : CBlock) (pindexBest : CBlockIndex) :
    Prop where
  unknown : pblock.getHash env.prims ∉ node.chain.mapBlockIndex
  running : env.fRequestShutdown = false
  best : node.chain.entry node.chain.pindexBest = some pindexBest
  filled : node.initBuffer.bufferEntries < node.synchModeBufferSize →
    node.stored.waits env pindexBest node.synchModeBufferSize = none

/-- The array after the tests of the second phase that look at one block each. -/
def scanned (node : Node) (pindexBest : CBlockIndex) : Node :=
  { node.stored with
    blockChecker :=
      node.stored.blockChecker.mapFirst node.synchModeBufferSize (scanSlot pindexBest) }

/-- `block_matches`. -/
def blockMatches (env : Env) (node : Node) (pindexBest : CBlockIndex) : ℕ :=
  (matchBlockMap env.prims pindexBest
    ((node.scanned pindexBest).blockChecker.slots.take node.synchModeBufferSize)).length

@[simp] theorem synchModeBufferSize_initBuffer (node : Node) :
    node.initBuffer.synchModeBufferSize = node.synchModeBufferSize := by
  unfold initBuffer
  split_ifs <;> rfl

theorem chain_storeReceived (node : Node) (size : ℕ) :
    (node.storeReceived size).chain = node.chain := by
  unfold storeReceived
  cases node.blockChecker.firstBlank size <;> rfl

theorem chain_stored (node : Node) : node.stored.chain = node.chain := by
  unfold stored
  split_ifs
  · rw [chain_storeReceived, chain_initBuffer]
  · exact chain_initBuffer node

theorem synchModeBufferSize_le (node : Node) :
    node.synchModeBufferSize ≤ MAXIMUM_ARRAY_OF_BLOCKS := by
  unfold synchModeBufferSize
  split_ifs <;> decide

end Node

section Phases

variable {env : Env} {fromNode : Bool} {node node' : Node} {pblock : CBlock}
  {value : ReturnValue} {attempts : List Attempt} {pindexBest : CBlockIndex}

/-- A call does nothing, or only stores the received block, or runs the second phase. -/
theorem processBlock_cases
    (h : processBlock env fromNode node pblock = .ok (value, attempts, node')) :
    ((pblock.getHash env.prims ∈ node.chain.mapBlockIndex ∨ env.fRequestShutdown = true) ∧
      attempts = [] ∧ node' = node) ∨
    (pblock.getHash env.prims ∉ node.chain.mapBlockIndex ∧ env.fRequestShutdown = false ∧
      (∀ pindexBest, ¬node.IsReady env pblock pindexBest) ∧ attempts = [] ∧
      node' = node.stored) ∨
    (∃ pindexBest, node.IsReady env pblock pindexBest ∧
      processBuffer env node.stored pindexBest node.synchModeBufferSize =
        .ok (value, attempts, node')) := by
  unfold processBlock at h
  split_ifs at h with hKnown hShutdown
  · cases h
    exact Or.inl ⟨Or.inl hKnown, rfl, rfl⟩
  · cases h
    exact Or.inl ⟨Or.inr hShutdown, rfl, rfl⟩
  · right
    have hRunning : env.fRequestShutdown = false := by simpa using hShutdown
    simp only [bind_eq_ok, Node.synchModeBufferSize_initBuffer] at h
    obtain ⟨pindexBest, hBest, -, -, h⟩ := h
    rw [deref_eq_ok] at hBest
    split_ifs at h with hRoom
    · have hStored : node.stored = node.initBuffer.storeReceived node.synchModeBufferSize := by
        rw [Node.stored, if_pos hRoom]
      rw [← hStored] at h
      cases hWaits : node.stored.waits env pindexBest node.synchModeBufferSize with
      | some early =>
          rw [hWaits] at h
          cases h
          refine Or.inl ⟨hKnown, hRunning, ?_, rfl, rfl⟩
          intro pindex hReady
          obtain rfl : pindexBest = pindex := Option.some.inj (hBest.symm.trans hReady.best)
          rw [hReady.filled hRoom] at hWaits
          cases hWaits
      | none =>
          rw [hWaits] at h
          exact Or.inr ⟨pindexBest, ⟨hKnown, hRunning, hBest, fun _ => hWaits⟩, h⟩
    · have hStored : node.stored = node.initBuffer := by
        rw [Node.stored, if_neg hRoom]
      rw [← hStored] at h
      exact Or.inr ⟨pindexBest, ⟨hKnown, hRunning, hBest, fun hLt => absurd hLt hRoom⟩, h⟩

/-- A call for a block of another node that goes on to the second phase. -/
theorem processBlock_of_isReady (hReady : node.IsReady env pblock pindexBest) :
    processBlock env true node pblock =
      processBuffer env node.stored pindexBest node.synchModeBufferSize := by
  unfold processBlock
  rw [if_neg hReady.unknown, if_neg (by rw [hReady.running]; decide), hReady.best, deref_some,
    ok_bind, pushGetBlocks, if_pos rfl, ok_bind]
  dsimp only
  rw [Node.synchModeBufferSize_initBuffer]
  by_cases hRoom : node.initBuffer.bufferEntries < node.synchModeBufferSize
  · have hStored : node.stored = node.initBuffer.storeReceived node.synchModeBufferSize := by
      rw [Node.stored, if_pos hRoom]
    rw [if_pos hRoom, ← hStored, hReady.filled hRoom]
  · have hStored : node.stored = node.initBuffer := by
      rw [Node.stored, if_neg hRoom]
    rw [if_neg hRoom, hStored]

/-- The second phase finds no block that extends the tip, or several, or runs the loop. -/
theorem processBuffer_cases
    (h : processBuffer env node.stored pindexBest node.synchModeBufferSize =
      .ok (value, attempts, node')) :
    (node.blockMatches env pindexBest = 0 ∧ pindexBest.nHeight > 1000 ∧ attempts = [] ∧
      processNoMatch (node.scanned pindexBest) pindexBest = .ok node') ∨
    (1 < node.blockMatches env pindexBest ∧ attempts = [] ∧
      node' = { node.scanned pindexBest with
        blockChecker := (node.scanned pindexBest).blockChecker.mapFirst
          (node.blockMatches env pindexBest) (blankIfLate pindexBest) }) ∨
    (node.blockMatches env pindexBest ≤ 1 ∧
      ¬(node.blockMatches env pindexBest = 0 ∧ pindexBest.nHeight > 1000) ∧
      processLoop env node.synchModeBufferSize (node.stored.bufferEntries + 1) 0
        (node.scanned pindexBest) = .ok (attempts, node')) := by
  unfold processBuffer at h
  dsimp only at h
  split_ifs at h with hMarked hNone hMany
  · simp only [bind_eq_ok, Except.ok.injEq, Prod.mk.injEq] at h
    obtain ⟨node₂, hNoMatch, -, rfl, rfl⟩ := h
    exact Or.inl ⟨hNone.1, hNone.2, rfl, hNoMatch⟩
  · simp only [Except.ok.injEq, Prod.mk.injEq] at h
    obtain ⟨-, rfl, rfl⟩ := h
    exact Or.inr (Or.inl ⟨hMany, rfl, rfl⟩)
  · simp only [bind_eq_ok, Except.ok.injEq, Prod.mk.injEq] at h
    obtain ⟨⟨attempts₂, node₂⟩, hLoop, -, rfl, rfl⟩ := h
    exact Or.inr (Or.inr ⟨not_lt.mp hMany, hNone, hLoop⟩)

end Phases

/-! ## What happens to a slot -/

/-- The call of `AcceptBlock` returned true. -/
def Attempt.IsAccepted (env : Env) (attempt : Attempt) : Prop :=
  acceptBlock env true attempt.before attempt.block = .ok (.ok (), attempt.after)

/-- A test of its time removes the block in a slot: it has no time, its time is too far
from that of the best block, or it is late and several blocks extend the tip. -/
def Node.RemovesAt (env : Env) (node : Node) (pindexBest : CBlockIndex) (k : ℕ) : Prop :=
  (k < node.synchModeBufferSize ∧ ((node.stored.blockChecker.slot k).nTime = 0 ∨
    timeTooFar pindexBest (node.stored.blockChecker.slot k) = true)) ∨
  (1 < node.blockMatches env pindexBest ∧ k < node.blockMatches env pindexBest ∧
    (node.stored.blockChecker.slot k).nTime > (pindexBest.nTime + 1000) % 2 ^ 32)

theorem CBlock.isBlank_blank : CBlock.blank.isBlank = true := rfl

theorem scanSlot_blank (pindexBest : CBlockIndex) :
    scanSlot pindexBest CBlock.blank = CBlock.blank := by
  rcases scanSlot_cases pindexBest CBlock.blank with h | h <;> exact h

theorem blankIfLate_blank (pindexBest : CBlockIndex) :
    blankIfLate pindexBest CBlock.blank = CBlock.blank := by
  rcases blankIfLate_cases pindexBest CBlock.blank with h | h <;> exact h

section Slots

variable {env : Env} {node node' : Node} {attempts : List Attempt} {pindexBest : CBlockIndex}
  {value : ReturnValue}

/-- The blocks in the array stay when another one is stored. -/
theorem slot_stored
    (k : ℕ) (hPending : (node.initBuffer.blockChecker.slot k).isBlank = false) :
    node.stored.blockChecker.slot k = node.initBuffer.blockChecker.slot k := by
  unfold Node.stored
  split_ifs
  · unfold Node.storeReceived
    cases hFirst : node.initBuffer.blockChecker.firstBlank node.synchModeBufferSize with
    | none => rfl
    | some i =>
        obtain ⟨-, hi, hBlank, -⟩ := node.initBuffer.blockChecker.firstBlank_eq_some hFirst
        have hNe : k ≠ i := by
          rintro rfl
          rw [hPending] at hBlank
          cases hBlank
        exact (node.initBuffer.blockChecker.slot_put hi _ k).trans (if_neg hNe)
  · rfl

theorem initBuffer_of_initialised
    (hArray : node.blockCheckerArray = true) : node.initBuffer = node := by
  rw [Node.initBuffer, if_pos hArray]

theorem slot_scanned (node : Node) (pindexBest : CBlockIndex) (k : ℕ) :
    (node.scanned pindexBest).blockChecker.slot k =
      if k < node.synchModeBufferSize then scanSlot pindexBest (node.stored.blockChecker.slot k)
      else node.stored.blockChecker.slot k :=
  BlockChecker.slot_mapFirst _ (scanSlot_blank pindexBest) _ _

/-- The loop blanks a slot only after `AcceptBlock` has returned true for its block. -/
theorem slot_processLoop
    {size remaining blocksProcessed : ℕ}
    (h : processLoop env size remaining blocksProcessed node = .ok (attempts, node')) (k : ℕ) :
    node'.blockChecker.slot k = node.blockChecker.slot k ∨
      (node'.blockChecker.slot k = CBlock.blank ∧
        ∃ attempt ∈ attempts, attempt.IsAccepted env ∧
          attempt.block = node.blockChecker.slot k) := by
  induction remaining generalizing blocksProcessed node attempts with
  | zero =>
      cases h
      exact Or.inl rfl
  | succ remaining ih =>
      unfold processLoop at h
      by_cases hEnd : blocksProcessed = size
      · rw [if_pos hEnd] at h
        cases h
        exact Or.inl rfl
      rw [if_neg hEnd, bind_eq_ok] at h
      obtain ⟨pindexBest, -, h⟩ := h
      dsimp only at h
      split_ifs at h with hNext
      · rw [bind_eq_ok] at h
        obtain ⟨⟨verdict, chain⟩, hAccept, h⟩ := h
        cases verdict with
        | ok =>
            simp only [bind_eq_ok, Except.ok.injEq, Prod.mk.injEq] at h
            obtain ⟨⟨rest, node₂⟩, hRest, rfl, rfl⟩ := h
            have hLater := ih hRest
            rw [BlockChecker.slot_put_blank] at hLater
            by_cases hk : k = blocksProcessed
            · -- the slot of the accepted block stays blank from here on
              rw [if_pos hk] at hLater
              right
              refine ⟨hLater.elim id And.left, _, List.mem_cons_self, hAccept, ?_⟩
              rw [hk]
            · rw [if_neg hk] at hLater
              rcases hLater with hKept | ⟨hBlank, attempt, hMem, hAttempt⟩
              · exact Or.inl hKept
              · exact Or.inr ⟨hBlank, attempt, List.mem_cons_of_mem _ hMem, hAttempt⟩
        | error rejection =>
            simp only [bind_eq_ok, Except.ok.injEq, Prod.mk.injEq] at h
            obtain ⟨⟨rest, node₂⟩, hRest, rfl, rfl⟩ := h
            rcases ih hRest with hKept | ⟨hBlank, attempt, hMem, hAttempt⟩
            · exact Or.inl hKept
            · exact Or.inr ⟨hBlank, attempt, List.mem_cons_of_mem _ hMem, hAttempt⟩
      · exact ih h

/-- The scan removes a block exactly for the tests of its time. -/
theorem scanSlot_of_pending
    {block : CBlock} (hPending : block.isBlank = false) :
    scanSlot pindexBest block =
      if block.nTime = 0 ∨ timeTooFar pindexBest block = true then CBlock.blank else block := by
  unfold scanSlot
  simp [hPending]

/-- A block that waits in the array when the second phase begins is removed if a test of
its time fails, and otherwise stays or has been accepted. -/
theorem slot_processBuffer
    (h : processBuffer env node.stored pindexBest node.synchModeBufferSize =
      .ok (value, attempts, node'))
    (k : ℕ) (hPending : (node.stored.blockChecker.slot k).isBlank = false) :
    (node.RemovesAt env pindexBest k ∧ node'.blockChecker.slot k = CBlock.blank) ∨
    (¬node.RemovesAt env pindexBest k ∧
      (node'.blockChecker.slot k = node.stored.blockChecker.slot k ∨
        (node'.blockChecker.slot k = CBlock.blank ∧
          ∃ attempt ∈ attempts, attempt.IsAccepted env ∧
            attempt.block = node.stored.blockChecker.slot k))) := by
  have hScan := slot_scanned node pindexBest k
  rw [scanSlot_of_pending hPending, ← ite_and] at hScan
  unfold Node.RemovesAt
  rcases processBuffer_cases h with ⟨hNone, -, -, hNoMatch⟩ | ⟨hMany, -, rfl⟩ | ⟨hFew, -, hLoop⟩
  · rw [(processNoMatch_frame hNoMatch).2, hScan, hNone]
    split_ifs with hTime
    · exact Or.inl ⟨Or.inl hTime, rfl⟩
    · exact Or.inr ⟨by simpa using hTime, Or.inl rfl⟩
  · dsimp only
    rw [BlockChecker.slot_mapFirst _ (blankIfLate_blank pindexBest), hScan]
    split_ifs with hMatch hTime hTime
    · exact Or.inl ⟨Or.inl hTime, blankIfLate_blank pindexBest⟩
    · unfold blankIfLate
      split_ifs with hLate
      · exact Or.inl ⟨Or.inr ⟨hMany, hMatch, hLate⟩, rfl⟩
      · refine Or.inr ⟨?_, Or.inl rfl⟩
        rintro (hOld | ⟨-, -, hOld⟩)
        · exact hTime hOld
        · exact hLate hOld
    · exact Or.inl ⟨Or.inl hTime, rfl⟩
    · refine Or.inr ⟨?_, Or.inl rfl⟩
      rintro (hOld | ⟨-, hOld, -⟩)
      · exact hTime hOld
      · exact hMatch hOld
  · have hSlot := slot_processLoop hLoop k
    rw [hScan] at hSlot
    split_ifs at hSlot with hTime
    · exact Or.inl ⟨Or.inl hTime, hSlot.elim id And.left⟩
    · refine Or.inr ⟨?_, hSlot⟩
      rintro (hOld | ⟨hOld, -⟩)
      · exact hTime hOld
      · omega

end Slots

end SocietyGold
