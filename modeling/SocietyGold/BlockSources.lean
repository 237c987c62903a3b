import SocietyGold.CompetingBlocks

/-!
# Which blocks a call handles

`ProcessBlock` gets a block but stores the global `block_to_check`, a copy of the last block
message, and `AcceptBlock` is called for blocks in the array.  For a call whose block is the
last block message, the block it stores is its own, and what it accepts is its own block or
the block of an earlier call.
-/

namespace SocietyGold

open Support

/-- The block of the call is the last block message. -/
def CopiesBlock (_ : Env) (node : Node) (pblock : CBlock) : Prop :=
  node.blockToCheck = pblock

/-! ## One call -/

theorem slot_initBuffer (node : Node) (k : ℕ) :
    node.initBuffer.blockChecker.slot k = node.blockChecker.slot k ∨
      node.initBuffer.blockChecker.slot k = CBlock.blank := by
  unfold Node.initBuffer
  split_ifs
  · exact Or.inl rfl
  · exact Or.inr (BlockChecker.slot_blank k)

theorem slot_stored_cases (node : Node) (k : ℕ) :
    node.stored.blockChecker.slot k = node.initBuffer.blockChecker.slot k ∨
      node.stored.blockChecker.slot k = node.blockToCheck := by
  have hSame : node.initBuffer.blockToCheck = node.blockToCheck := by
    unfold Node.initBuffer
    split_ifs <;> rfl
  unfold Node.stored
  split_ifs
  · unfold Node.storeReceived
    cases hFirst : node.initBuffer.blockChecker.firstBlank node.synchModeBufferSize with
    | none => exact Or.inl rfl
    | some i =>
        obtain ⟨-, hi, -, -⟩ := node.initBuffer.blockChecker.firstBlank_eq_some hFirst
        dsimp only
        rw [BlockChecker.slot_put _ hi, hSame]
        split_ifs
        · exact Or.inr rfl
        · exact Or.inl rfl
  · exact Or.inl rfl

/-- Without a sending node the call faults as soon as it asks for more blocks. -/
theorem processBlock_without_node
    {env : Env} {node : Node} {pblock : CBlock} {pindexBest : CBlockIndex}
    (hUnknown : pblock.getHash env.prims ∉ node.chain.mapBlockIndex)
    (hRunning : env.fRequestShutdown = false)
    (hBest : node.chain.entry node.chain.pindexBest = some pindexBest) :
    processBlock env false node pblock = .error .nullDereference := by
  rw [processBlock, if_neg hUnknown, if_neg (by rw [hRunning]; decide), hBest, deref_some,
    ok_bind]
  rfl

namespace Call

variable (call : Call)

/-- Of the array with the received block, each slot holds what it held before, or nothing, or
the last block message. -/
theorem slot_array_cases (k : ℕ) :
    call.array.slot k = call.before.blockChecker.slot k ∨ call.array.slot k = CBlock.blank ∨
      call.array.slot k = call.before.blockToCheck := by
  unfold array
  split_ifs
  · exact Or.inl rfl
  · rcases slot_stored_cases call.before k with hInit | hStored
    · rw [hInit]
      rcases slot_initBuffer call.before k with hKept | hBlank
      · exact Or.inl hKept
      · exact Or.inr (Or.inl hBlank)
    · exact Or.inr (Or.inr hStored)

theorem array_of_isReady
    {pindexBest : CBlockIndex}
    (hReady : call.before.IsReady call.env call.pblock pindexBest) :
    call.array = call.before.stored.blockChecker := by
  unfold array
  rw [if_neg]
  rintro (hKnown | hShutdown)
  · exact hReady.unknown hKnown
  · rw [hReady.running] at hShutdown
    cases hShutdown

/-- The second phase puts no block into the array. -/
theorem slot_after_cases (k : ℕ) :
    call.after.blockChecker.slot k = call.array.slot k ∨
      call.after.blockChecker.slot k = CBlock.blank := by
  rcases processBlock_cases call.returns with ⟨hIgnored, -, hAfter⟩ |
    ⟨hNew, hRunning, -, -, hAfter⟩ | ⟨pindexBest, hReady, hBuffer⟩
  · rw [array, if_pos (show call.IsIgnored from hIgnored), hAfter]
    exact Or.inl rfl
  · have hProceeds : ¬call.IsIgnored := by
      rintro (hKnown | hShutdown)
      · exact hNew hKnown
      · rw [hRunning] at hShutdown
        cases hShutdown
    rw [array, if_neg hProceeds, hAfter]
    exact Or.inl rfl
  · rw [call.array_of_isReady hReady]
    have hScan : (call.before.scanned pindexBest).blockChecker.slot k =
        call.before.stored.blockChecker.slot k ∨
          (call.before.scanned pindexBest).blockChecker.slot k = CBlock.blank := by
      rw [slot_scanned]
      split_ifs
      · exact scanSlot_cases _ _
      · exact Or.inl rfl
    rcases processBuffer_cases hBuffer with ⟨-, -, -, hNoMatch⟩ | ⟨-, -, hAfter⟩ | ⟨-, -, hLoop⟩
    · rw [(processNoMatch_frame hNoMatch).2]
      exact hScan
    · rw [hAfter]
      dsimp only
      rw [BlockChecker.slot_mapFirst _ (blankIfLate_blank pindexBest)]
      split_ifs
      · rcases blankIfLate_cases pindexBest
          ((call.before.scanned pindexBest).blockChecker.slot k) with hKept | hBlank
        · rw [hKept]
          exact hScan
        · exact Or.inr hBlank
      · exact hScan
    · rcases slot_processLoop hLoop k with hKept | ⟨hBlank, -⟩
      · rw [hKept]
        exact hScan
      · exact Or.inr hBlank

/-- `AcceptBlock` is only called for blocks in the array. -/
theorem attempt_mem_array {attempt : Attempt} (hMem : attempt ∈ call.attempts) :
    ∃ k, call.array.slot k = attempt.block ∧ attempt.block.isBlank = false := by
  rcases processBlock_cases call.returns with ⟨-, hNone, -⟩ | ⟨-, -, -, hNone, -⟩ |
    ⟨pindexBest, hReady, hBuffer⟩
  · rw [hNone] at hMem
    cases hMem
  · rw [hNone] at hMem
    cases hMem
  · rcases processBuffer_cases hBuffer with ⟨-, -, hNone, -⟩ | ⟨-, hNone, -⟩ | ⟨-, -, hLoop⟩
    · rw [hNone] at hMem
      cases hMem
    · rw [hNone] at hMem
      cases hMem
    · obtain ⟨k, hk, hSlot, hPending⟩ := mem_processLoop (Nat.zero_le _) hLoop hMem
      rw [slot_scanned, if_pos hk] at hSlot
      refine ⟨k, ?_, hPending⟩
      rw [call.array_of_isReady hReady]
      rcases scanSlot_cases pindexBest (call.before.stored.blockChecker.slot k) with
        hKept | hBlank
      · exact hKept.symm.trans hSlot
      · rw [← hSlot, hBlank] at hPending
        cases hPending

end Call

/-! ## Runs -/

section Runs

variable {start node node' : Node} {earlier : List Call} {call : Call}

/-- In a run of such calls every block in the array is that of one of them. -/
theorem slot_of_received_run
    (hEmpty : ∀ k, (start.blockChecker.slot k).isBlank = true)
    (hRun : Trace (Calls CopiesBlock) start earlier node) (k : ℕ)
    (hPending : (node.blockChecker.slot k).isBlank = false) :
    ∃ previous ∈ earlier, previous.pblock = node.blockChecker.slot k := by
  refine Trace.invariant (I := fun calls node => ∀ k,
    (node.blockChecker.slot k).isBlank = false →
      ∃ previous ∈ calls, previous.pblock = node.blockChecker.slot k) ?_ ?_ hRun k hPending
  · intro k hPending
    rw [hEmpty k] at hPending
    cases hPending
  · rintro calls node₁ new node₂ ih ⟨next, rfl, hSame, hCopies, rfl⟩ k hPending
    rcases next.slot_after_cases k with hKept | hBlank
    · rw [hKept] at hPending ⊢
      rcases next.slot_array_cases k with hBefore | hBlank | hStored
      · rw [hBefore, hSame.blockChecker] at hPending ⊢
        obtain ⟨previous, hMem, hBlock⟩ := ih k hPending
        exact ⟨previous, List.mem_append_left _ hMem, hBlock⟩
      · rw [hBlank] at hPending
        cases hPending
      · exact ⟨next, by simp, hCopies.symm.trans hStored.symm⟩
    · rw [hBlank] at hPending
      cases hPending

/-- A call leaves in each slot what it held before, or nothing, or its own block; and what it
has `AcceptBlock` try is its own block or the block of an earlier call. -/
theorem handles_received
    (hEmpty : ∀ k, (start.blockChecker.slot k).isBlank = true)
    (hRun : Trace (Calls CopiesBlock) start earlier node)
    (hCall : Calls CopiesBlock node [call] node') :
    (∀ k, node'.blockChecker.slot k = node.blockChecker.slot k ∨
      node'.blockChecker.slot k = CBlock.blank ∨ node'.blockChecker.slot k = call.pblock) ∧
    ∀ attempt ∈ call.attempts, attempt.block = call.pblock ∨
      ∃ previous ∈ earlier, previous.pblock = attempt.block := by
  obtain ⟨call', hEq, hSame, hCopies, rfl⟩ := hCall
  obtain rfl : call = call' := by simpa using hEq
  have hArray : ∀ k, call.array.slot k = node.blockChecker.slot k ∨
      call.array.slot k = CBlock.blank ∨ call.array.slot k = call.pblock := by
    intro k
    have hCases := call.slot_array_cases k
    rwa [hSame.blockChecker, show call.before.blockToCheck = call.pblock from hCopies] at hCases
  constructor
  · intro k
    rcases call.slot_after_cases k with hKept | hBlank
    · rw [hKept]
      exact hArray k
    · exact Or.inr (Or.inl hBlank)
  · intro attempt hMem
    obtain ⟨k, hSlot, hPending⟩ := call.attempt_mem_array hMem
    rw [← hSlot] at hPending ⊢
    rcases hArray k with hBefore | hBlank | hStored
    · rw [hBefore] at hPending ⊢
      exact Or.inr (slot_of_received_run hEmpty hRun k hPending)
    · rw [hBlank] at hPending
      cases hPending
    · exact Or.inl hStored

end Runs

namespace Sample

theorem isBlank_freshNode (k : ℕ) : (freshNode.blockChecker.slot k).isBlank = true :=
  congrArg CBlock.isBlank (BlockChecker.slot_blank k)

theorem nextFollower_received : (receive unsignedStored unsignedFollower).isOk = true :=
  blocks_received.2.2.2

/-- The second of two block messages, as a call. -/
def followerCall : Call := callOf unsignedStored unsignedFollower nextFollower_received

/-- The second of two block messages has the block of the first one accepted; and without a
sending node the call faults. -/
theorem follower_accepts_other :
    unsignedFollower.getHash prims ∉ unsignedStored.chain.mapBlockIndex ∧
      (∃ attempt ∈ followerCall.attempts,
        attempt.IsAccepted (env 900) ∧ attempt.block ≠ unsignedFollower) ∧
      processBlock (env 900) false freshNode unsigned = .error .nullDereference := by
  have hPending : (followerCall.array.slot 0).isBlank = false := by decide +kernel
  have hOther : (followerCall.array.slot 0).hashPrevBlock ≠ unsignedFollower.hashPrevBlock := by
    decide +kernel
  have hLeft : (followerCall.after.blockChecker.slot 0).isBlank = true := by decide +kernel
  have hTime : inTime followerCall.before (followerCall.array.slot 0) = true := by
    decide +kernel
  refine ⟨by decide +kernel, ?_, ?_⟩
  · rcases followerCall.slot_after 0 hPending with
      hKept | ⟨attempt, hMem, hAccepted, hBlock⟩ | ⟨pindexBest, k, hReady, hSlot, hRemoves⟩
    · rw [hKept, hPending] at hLeft
      cases hLeft
    · refine ⟨attempt, hMem, hAccepted, ?_⟩
      intro hSame
      rw [← hBlock, hSame] at hOther
      exact hOther rfl
    · rw [← hSlot] at hTime
      exact absurd hRemoves (not_removesAt_of_inTime hReady hTime)
  · exact processBlock_without_node (by decide +kernel) rfl
      (show freshNode.chain.entry _ = some tipEntry from rfl)

/-- Two block messages in a row. -/
theorem follower_handled :
    followerCall.attempts ≠ [] ∧
      ∀ attempt ∈ followerCall.attempts, attempt.block = unsignedFollower ∨
        ∃ previous ∈ [callOf freshNode unsigned unsigned_received],
          previous.pblock = attempt.block := by
  have hSome : followerCall.attempts.isEmpty = false := by decide +kernel
  refine ⟨?_, (handles_received isBlank_freshNode
    (Trace.start.next (calls_callOf unsigned_received rfl))
    (calls_callOf nextFollower_received rfl)).2⟩
  intro hNone
  rw [hNone] at hSome
  cases hSome

end Sample

end SocietyGold
