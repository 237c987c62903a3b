import SocietyGold.PendingBlocks

/-!
# Several blocks that extend the tip

When the array holds several blocks on top of the best block, `ProcessBlock` accepts none
of them.  It looks at as many slots as there are such blocks, beginning with the first
slot whether or not it holds one of them, and blanks those whose block is late.  So the
call makes progress exactly if a test of its time removes one of the competing blocks, and
it spares the other blocks exactly if no test removes one of those.
-/

namespace SocietyGold

open Support

/-- A slot in use holds a block on top of the best block. -/
def Node.Competes (node : Node) (pindexBest : CBlockIndex) (k : ℕ) : Prop :=
  k < node.synchModeBufferSize ∧ (node.initBuffer.blockChecker.slot k).isBlank = false ∧
    (node.initBuffer.blockChecker.slot k).hashPrevBlock = pindexBest.phashBlock

/-- The array holds two distinct competing blocks, one of which `AcceptBlock` would
accept. -/
structure Contested (env : Env) (node : Node) (pindexBest : CBlockIndex) : Prop where
  best : node.chain.entry node.chain.pindexBest = some pindexBest
  distinct : ∃ i j, node.Competes pindexBest i ∧ node.Competes pindexBest j ∧
    (node.initBuffer.blockChecker.slot i).getHash env.prims ≠
      (node.initBuffer.blockChecker.slot j).getHash env.prims
  acceptable : ∃ i chain, node.Competes pindexBest i ∧
    acceptBlock env true node.chain (node.initBuffer.blockChecker.slot i) = .ok (.ok (), chain)

namespace Call

variable (call : Call)

/-- A block that was in the array when the call began has left its slot. -/
def Removes (k : ℕ) : Prop :=
  (call.before.initBuffer.blockChecker.slot k).isBlank = false ∧
    call.after.blockChecker.slot k ≠ call.before.initBuffer.blockChecker.slot k

/-- The best height grows, or a competing block leaves the array; and no other block leaves
it unless `AcceptBlock` has returned true for it. -/
def ResolvesContest (pindexBest : CBlockIndex) : Prop :=
  (call.before.chain.nBestHeight < call.after.chain.nBestHeight ∨
    ∃ k, call.before.Competes pindexBest k ∧ call.Removes k) ∧
  ∀ k, call.Removes k → call.before.Competes pindexBest k ∨
    ∃ attempt ∈ call.attempts, attempt.IsAccepted call.env ∧
      attempt.block = call.before.initBuffer.blockChecker.slot k

end Call

section Contest

variable {env : Env} {node node' : Node} {attempts : List Attempt} {pindexBest : CBlockIndex}

/-- What the loop tries stands in a slot in use. -/
theorem mem_processLoop
    {size remaining i : ℕ} {attempt : Attempt} (hi : i ≤ size)
    (h : processLoop env size remaining i node = .ok (attempts, node'))
    (hMem : attempt ∈ attempts) :
    ∃ k < size, node.blockChecker.slot k = attempt.block ∧ attempt.block.isBlank = false := by
  induction remaining generalizing i node attempts with
  | zero =>
      cases h
      cases hMem
  | succ remaining ih =>
      unfold processLoop at h
      by_cases hEnd : i = size
      · rw [if_pos hEnd] at h
        cases h
        cases hMem
      rw [if_neg hEnd, bind_eq_ok] at h
      obtain ⟨pindexBest, -, h⟩ := h
      dsimp only at h
      split_ifs at h with hNext
      · have hPending : (node.blockChecker.slot i).isBlank = false := by
          simpa using (Bool.and_eq_true_iff.mp hNext).1
        rw [bind_eq_ok] at h
        obtain ⟨⟨verdict, chain⟩, -, h⟩ := h
        cases verdict with
        | ok =>
            simp only [bind_eq_ok, Except.ok.injEq, Prod.mk.injEq] at h
            obtain ⟨⟨rest, node₂⟩, hRest, rfl, rfl⟩ := h
            rcases List.mem_cons.mp hMem with rfl | hLater
            · exact ⟨i, by omega, rfl, hPending⟩
            · obtain ⟨k, hk, hSlot, hBlock⟩ := ih (by omega) hRest hLater
              rw [BlockChecker.slot_put_blank] at hSlot
              split_ifs at hSlot
              · rw [← hSlot] at hBlock
                cases hBlock
              · exact ⟨k, hk, hSlot, hBlock⟩
        | error rejection =>
            simp only [bind_eq_ok, Except.ok.injEq, Prod.mk.injEq] at h
            obtain ⟨⟨rest, node₂⟩, hRest, rfl, rfl⟩ := h
            rcases List.mem_cons.mp hMem with rfl | hLater
            · exact ⟨i, by omega, rfl, hPending⟩
            · obtain ⟨k, hk, hSlot, hBlock⟩ := ih hi hRest hLater
              exact ⟨k, hk, hSlot, hBlock⟩
      · exact ih (by omega) h hMem

/-- If the tests of time spare the competing blocks, the call counts several of them. -/
theorem one_lt_blockMatches
    (hContested : Contested env node pindexBest)
    (hSpared : ∀ k, node.Competes pindexBest k → ¬node.RemovesAt env pindexBest k) :
    1 < node.blockMatches env pindexBest := by
  obtain ⟨i, j, hi, hj, hNe⟩ := hContested.distinct
  have hMatch : ∀ k, node.Competes pindexBest k →
      (node.initBuffer.blockChecker.slot k).getHash env.prims ∈
        matchBlockMap env.prims pindexBest
          ((node.scanned pindexBest).blockChecker.slots.take node.synchModeBufferSize) := by
    intro k hCompetes
    obtain ⟨hSize, hPending, hPrev⟩ := hCompetes
    have hStored := slot_stored k hPending
    have hScan := slot_scanned node pindexBest k
    rw [if_pos hSize, scanSlot_of_pending (by rw [hStored]; exact hPending), if_neg, hStored]
      at hScan
    · have hArray := node.synchModeBufferSize_le
      have hLength := (node.scanned pindexBest).blockChecker.length_slots
      rw [BlockChecker.slot, List.getD_eq_getElem _ _ (by omega)] at hScan
      unfold matchBlockMap
      rw [List.mem_dedup]
      apply List.mem_map_of_mem
      rw [List.mem_filter]
      constructor
      · exact List.mem_take_iff_getElem.mpr ⟨k, by omega, hScan⟩
      · simp [hPending, hPrev]
    · intro hTime
      exact hSpared k ⟨hSize, hPending, hPrev⟩ (Or.inl ⟨hSize, hTime⟩)
  by_contra hFew
  unfold Node.blockMatches at hFew
  have hFirst := hMatch i hi
  have hSecond := hMatch j hj
  revert hFew hFirst hSecond
  generalize matchBlockMap env.prims pindexBest _ = keys
  intro hFew hFirst hSecond
  rcases keys with _ | ⟨key, _ | ⟨next, keys⟩⟩
  · exact absurd hFirst List.not_mem_nil
  · exact hNe ((List.mem_singleton.mp hFirst).trans (List.mem_singleton.mp hSecond).symm)
  · simp at hFew

/-- A block that a test of its time removes is not tried in the same call. -/
theorem block_ne_of_removesAt
    {value : ReturnValue} {attempt : Attempt} {k : ℕ}
    (h : processBuffer env node.stored pindexBest node.synchModeBufferSize =
      .ok (value, attempts, node'))
    (hRemoves : node.RemovesAt env pindexBest k) (hMem : attempt ∈ attempts) :
    attempt.block ≠ node.stored.blockChecker.slot k := by
  intro hEq
  rcases processBuffer_cases h with ⟨-, -, rfl, -⟩ | ⟨-, rfl, -⟩ | ⟨hFew, -, hLoop⟩
  · cases hMem
  · cases hMem
  · obtain ⟨i, hi, hSlot, hPending⟩ := mem_processLoop (Nat.zero_le _) hLoop hMem
    obtain ⟨-, hTime⟩ | ⟨hMany, -⟩ := hRemoves
    · rw [slot_scanned, if_pos hi] at hSlot
      rcases scanSlot_cases pindexBest (node.stored.blockChecker.slot i) with hSame | hBlank
      · -- the tests look at the block alone, so they also remove it where it is tried
        rw [hSame] at hSlot
        rw [hSlot, scanSlot_of_pending hPending, if_pos (by rw [hEq]; exact hTime)] at hSame
        rw [← hSame] at hPending
        cases hPending
      · rw [hBlank] at hSlot
        rw [← hSlot] at hPending
        cases hPending
    · omega

namespace Call

variable {call : Call}

theorem not_resolvesContest
    (hHeight : call.after.chain.nBestHeight = call.before.chain.nBestHeight)
    (hStays : ∀ k, ¬call.Removes k) : ¬call.ResolvesContest pindexBest := by
  rintro ⟨hGrows | ⟨k, -, hRemoved⟩, -⟩
  · omega
  · exact hStays k hRemoved

theorem removes_of_removesAt
    {k : ℕ}
    (hBuffer : processBuffer call.env call.before.stored pindexBest
      call.before.synchModeBufferSize = .ok (call.value, call.attempts, call.after))
    (hPending : (call.before.initBuffer.blockChecker.slot k).isBlank = false)
    (hRemoves : call.before.RemovesAt call.env pindexBest k) : call.Removes k := by
  have hStored := slot_stored k hPending
  rcases slot_processBuffer hBuffer k (by rw [hStored]; exact hPending) with
    ⟨-, hBlank⟩ | ⟨hNot, -⟩
  · refine ⟨hPending, fun hSame => ?_⟩
    rw [← hSame, hBlank] at hPending
    cases hPending
  · exact absurd hRemoves hNot

theorem Removes.cases
    {k : ℕ} (h : call.Removes k)
    (hBuffer : processBuffer call.env call.before.stored pindexBest
      call.before.synchModeBufferSize = .ok (call.value, call.attempts, call.after)) :
    call.before.RemovesAt call.env pindexBest k ∨
      ∃ attempt ∈ call.attempts, attempt.IsAccepted call.env ∧
        attempt.block = call.before.initBuffer.blockChecker.slot k := by
  obtain ⟨hPending, hMoved⟩ := h
  have hStored := slot_stored k hPending
  rcases slot_processBuffer hBuffer k (by rw [hStored]; exact hPending) with
    ⟨hRemoves, -⟩ | ⟨-, hKept | ⟨-, attempt, hMem, hAccepted, hBlock⟩⟩
  · exact Or.inl hRemoves
  · exact absurd (hKept.trans hStored) hMoved
  · exact Or.inr ⟨attempt, hMem, hAccepted, hBlock.trans hStored⟩

/-- A call that makes progress in its second phase has removed a competing block for its
time. -/
theorem ResolvesContest.removesAt
    (h : call.ResolvesContest pindexBest)
    (hContested : Contested call.env call.before pindexBest)
    (hBuffer : processBuffer call.env call.before.stored pindexBest
      call.before.synchModeBufferSize = .ok (call.value, call.attempts, call.after)) :
    ∃ k, call.before.Competes pindexBest k ∧ call.before.RemovesAt call.env pindexBest k := by
  by_contra hNone
  have hMany := one_lt_blockMatches hContested fun k hCompetes hRemoves =>
    hNone ⟨k, hCompetes, hRemoves⟩
  rcases processBuffer_cases hBuffer with ⟨hZero, -⟩ | ⟨-, hAttempts, hAfter⟩ | ⟨hFew, -⟩
  · omega
  · rcases h.1 with hGrows | ⟨k, hCompetes, hRemoved⟩
    · have hChain : call.after.chain = call.before.chain := by
        rw [hAfter]
        exact call.before.chain_stored
      rw [hChain] at hGrows
      omega
    · rcases hRemoved.cases hBuffer with hRemoves | ⟨attempt, hMem, -⟩
      · exact hNone ⟨k, hCompetes, hRemoves⟩
      · rw [hAttempts] at hMem
        cases hMem
  · omega

end Call

/-- An array that has just been set up holds no competing blocks. -/
theorem Contested.initBuffer_eq
    (h : Contested env node pindexBest) : node.initBuffer = node := by
  by_cases hArray : node.blockCheckerArray = true
  · exact initBuffer_of_initialised hArray
  · obtain ⟨i, -, ⟨-, hPending, -⟩, -⟩ := h.distinct
    rw [Node.initBuffer, if_neg hArray, BlockChecker.slot_blank] at hPending
    cases hPending

end Contest

/-- Whatever the array holds when several distinct blocks in it extend the tip: the call
resolves the contest if and only if it comes to the second phase, a test of its time
removes one of these blocks, and such tests remove no other block. -/
theorem resolvesContest_iff
    (call : Call) (pindexBest : CBlockIndex)
    (hContested : Contested call.env call.before pindexBest) :
    call.ResolvesContest pindexBest ↔
      call.before.IsReady call.env call.pblock pindexBest ∧
        (∃ k, call.before.Competes pindexBest k ∧ call.before.RemovesAt call.env pindexBest k) ∧
        ∀ k, (call.before.initBuffer.blockChecker.slot k).isBlank = false →
          call.before.RemovesAt call.env pindexBest k → call.before.Competes pindexBest k := by
  rcases processBlock_cases call.returns with ⟨hIgnored, -, hAfter⟩ |
    ⟨-, -, hNotReady, -, hAfter⟩ | ⟨best, hReady, hBuffer⟩
  · apply iff_of_false
    · apply Call.not_resolvesContest (by rw [hAfter])
      rintro k ⟨-, hMoved⟩
      rw [hAfter, hContested.initBuffer_eq] at hMoved
      exact hMoved rfl
    · rintro ⟨hReady, -⟩
      rcases hIgnored with hKnown | hShutdown
      · exact hReady.unknown hKnown
      · rw [hReady.running] at hShutdown
        cases hShutdown
  · apply iff_of_false
    · apply Call.not_resolvesContest (by rw [hAfter, Node.chain_stored])
      rintro k ⟨hPending, hMoved⟩
      rw [hAfter] at hMoved
      exact hMoved (slot_stored k hPending)
    · rintro ⟨hReady, -⟩
      exact hNotReady pindexBest hReady
  · obtain rfl : best = pindexBest := Option.some.inj (hReady.best.symm.trans hContested.best)
    constructor
    · intro hResolves
      refine ⟨hReady, hResolves.removesAt hContested hBuffer, ?_⟩
      intro k hPending hRemoves
      rcases hResolves.2 k (Call.removes_of_removesAt hBuffer hPending hRemoves) with
        hCompetes | ⟨attempt, hMem, -, hBlock⟩
      · exact hCompetes
      · rw [← slot_stored k hPending] at hBlock
        exact absurd hBlock (block_ne_of_removesAt hBuffer hRemoves hMem)
    · rintro ⟨-, ⟨k, hCompetes, hRemoves⟩, hOnly⟩
      refine ⟨Or.inr ⟨k, hCompetes,
        Call.removes_of_removesAt hBuffer hCompetes.2.1 hRemoves⟩, ?_⟩
      intro i hRemoved
      rcases hRemoved.cases hBuffer with hRemoves' | hAccepted
      · exact Or.inl (hOnly i hRemoved.1 hRemoves')
      · exact Or.inr hAccepted

/-! ## Two blocks on top of the tip -/

namespace Sample

/-- A second block on top of the same block. -/
def rival : CBlock := sealed 500 1000 [coinbase 1000 14 100]

/-- A node that has received both. -/
def contestedNode : Node := afterReceipt unsignedStored rival

/-- A rival that is late. -/
def lateRival : CBlock := sealed 500 5000 [coinbase 1000 14 100]

def lateContest : Node :=
  { freshNode with
    blockChecker := (BlockChecker.blank.put 0 unsigned).put 1 lateRival
    blockCheckerArray := true
    bufferEntries := 2
    blockToCheck := orphan }

theorem rivals_received :
    (receive unsignedStored rival).isOk = true ∧ (receive contestedNode orphan).isOk = true ∧
      (receive lateContest orphan).isOk = true := by
  decide +kernel

theorem rival_received : (receive unsignedStored rival).isOk = true := rivals_received.1

theorem stalled_received : (receive contestedNode orphan).isOk = true := rivals_received.2.1

theorem lateContest_received : (receive lateContest orphan).isOk = true := rivals_received.2.2

/-- `AcceptBlock` returns true for the block. -/
def accepts (node : Node) (block : CBlock) : Bool :=
  match acceptBlock (env 900) true node.chain block with
  | .ok (.ok _, _) => true
  | _ => false

theorem exists_of_accepts (node : Node) (block : CBlock) (h : accepts node block = true) :
    ∃ chain, acceptBlock (env 900) true node.chain block = .ok (.ok (), chain) := by
  unfold accepts at h
  split at h
  · rename_i chain hAccept
    exact ⟨chain, hAccept⟩
  · cases h

theorem contest_stalls :
    ∃ calls, ∃ call : Call, ∃ pindexBest,
      Trace (Calls fun _ _ _ => True) freshNode calls contestedNode ∧
      SameArray contestedNode call.before ∧ Contested call.env call.before pindexBest ∧
      ¬call.ResolvesContest pindexBest := by
  have hFirst : Node.Competes { contestedNode with blockToCheck := orphan } tipEntry 0 := by
    refine ⟨?_, ?_, ?_⟩ <;> decide +kernel
  have hSecond : Node.Competes { contestedNode with blockToCheck := orphan } tipEntry 1 := by
    refine ⟨?_, ?_, ?_⟩ <;> decide +kernel
  refine ⟨_, callOf contestedNode orphan stalled_received, tipEntry,
    (Trace.start.next (calls_callOf unsigned_received trivial)).next
      (calls_callOf rival_received trivial), sameArray_callOf _ _ _, ?_, ?_⟩
  · constructor
    · decide +kernel
    · exact ⟨0, 1, hFirst, hSecond, by decide +kernel⟩
    · obtain ⟨chain, hAccept⟩ := exists_of_accepts { contestedNode with blockToCheck := orphan }
        ({ contestedNode with blockToCheck := orphan }.initBuffer.blockChecker.slot 0)
        (by decide +kernel)
      exact ⟨0, chain, hFirst, hAccept⟩
  · apply Call.not_resolvesContest
    · decide +kernel
    · rintro k ⟨hPending, hMoved⟩
      have hAll : ((List.range MAXIMUM_ARRAY_OF_BLOCKS).all fun k =>
          (({ contestedNode with blockToCheck := orphan } : Node).initBuffer.blockChecker.slot
            k).isBlank ||
          decide ((afterReceipt contestedNode orphan).blockChecker.slot k =
            ({ contestedNode with blockToCheck := orphan } : Node).initBuffer.blockChecker.slot
              k)) = true := by
        decide +kernel
      by_cases hk : k < MAXIMUM_ARRAY_OF_BLOCKS
      · have hSlot := List.all_eq_true.mp hAll k (List.mem_range.mpr hk)
        rcases Bool.or_eq_true_iff.mp hSlot with hBlank | hSame
        · exact absurd (hBlank.symm.trans hPending) (by decide)
        · exact hMoved (of_decide_eq_true hSame)
      · rw [BlockChecker.slot_of_le _ (not_lt.mp hk)] at hPending
        cases hPending

theorem lateContest_resolves :
    (callOf lateContest orphan lateContest_received).ResolvesContest tipEntry := by
  have hFirst : lateContest.Competes tipEntry 0 := by
    refine ⟨?_, ?_, ?_⟩ <;> decide +kernel
  have hSecond : lateContest.Competes tipEntry 1 := by
    refine ⟨?_, ?_, ?_⟩ <;> decide +kernel
  have hContested : Contested (env 900) lateContest tipEntry := by
    constructor
    · decide +kernel
    · exact ⟨0, 1, hFirst, hSecond, by decide +kernel⟩
    · obtain ⟨chain, hAccept⟩ := exists_of_accepts lateContest
        (lateContest.initBuffer.blockChecker.slot 0) (by decide +kernel)
      exact ⟨0, chain, hFirst, hAccept⟩
  have hOthers : ∀ k, (lateContest.initBuffer.blockChecker.slot k).isBlank = false →
      lateContest.Competes tipEntry k := by
    intro k hPending
    by_cases hSecondSlot : k = 1
    · exact hSecondSlot ▸ hSecond
    by_cases hFirstSlot : k = 0
    · exact hFirstSlot ▸ hFirst
    rw [initBuffer_of_initialised rfl, lateContest, BlockChecker.slot_put _ (by decide),
      if_neg hSecondSlot, BlockChecker.slot_put _ (by decide), if_neg hFirstSlot,
      BlockChecker.slot_blank] at hPending
    cases hPending
  have hReady : lateContest.IsReady (env 900) orphan tipEntry := by
    refine ⟨?_, ?_, ?_, fun _ => ?_⟩ <;> decide +kernel
  refine (resolvesContest_iff (callOf lateContest orphan lateContest_received) tipEntry
    hContested).mpr ⟨hReady, ⟨1, hSecond, Or.inr ?_⟩, ?_⟩
  · refine ⟨?_, ?_, ?_⟩ <;> decide +kernel
  · intro k hPending _
    exact hOthers k hPending

end Sample

end SocietyGold
