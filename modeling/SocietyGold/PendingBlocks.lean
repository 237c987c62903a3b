import SocietyGold.BlockBuffer

/-!
# Blocks that wait in the array

A run is a sequence of calls of `ProcessBlock`; between two calls everything may change
but the array with its flag and its counter, which no other function touches.

In a run whose calls find the array initialised or empty, a block waits in its slot until
it is accepted or a test of its time removes it.  And as long as every call that processes
the array empties it, `Buffer_entries` counts the blocks that wait.  Both fail as soon as
the processing loop leaves a block behind.
-/

namespace SocietyGold

open Support

/-! ## Calls -/

/-- A call of `ProcessBlock` that has returned. -/
structure Call where
  env : Env
  fromNode : Bool
  before : Node
  pblock : CBlock
  value : ReturnValue
  attempts : List Attempt
  after : Node
  returns : processBlock env fromNode before pblock = .ok (value, attempts, after)

/-- Between two calls the array, its flag and its counter stay. -/
structure SameArray (node node' : Node) : Prop where
  blockChecker : node'.blockChecker = node.blockChecker
  blockCheckerArray : node'.blockCheckerArray = node.blockCheckerArray
  bufferEntries : node'.bufferEntries = node.bufferEntries

/-- One call of a run; the condition is on its input and the state before it. -/
def Calls (condition : Env → Node → CBlock → Prop) (node : Node) (calls : List Call)
    (node' : Node) : Prop :=
  ∃ call : Call, calls = [call] ∧ SameArray node call.before ∧
    condition call.env call.before call.pblock ∧ node' = call.after

namespace Call

variable (call : Call)

/-- The call returns at once: the block is known, or the node shuts down. -/
def IsIgnored : Prop :=
  call.pblock.getHash call.env.prims ∈ call.before.chain.mapBlockIndex ∨
    call.env.fRequestShutdown = true

instance : Decidable call.IsIgnored := inferInstanceAs (Decidable (_ ∨ _))

/-- The array with the received block. -/
def array : BlockChecker :=
  if call.IsIgnored then call.before.blockChecker else call.before.stored.blockChecker

/-- The call accepts the block, or a test of its time removes it. -/
def Resolves (block : CBlock) : Prop :=
  (∃ attempt ∈ call.attempts, attempt.IsAccepted call.env ∧ attempt.block = block) ∨
    ∃ pindexBest k, call.before.IsReady call.env call.pblock pindexBest ∧
      call.before.stored.blockChecker.slot k = block ∧
      call.before.RemovesAt call.env pindexBest k

/-- A block in the array with the received block is still there after the call, or the
call has resolved it. -/
theorem slot_after
    (k : ℕ) (hPending : (call.array.slot k).isBlank = false) :
    call.after.blockChecker.slot k = call.array.slot k ∨ call.Resolves (call.array.slot k) := by
  unfold array at hPending ⊢
  rcases processBlock_cases call.returns with ⟨hIgnored, -, hAfter⟩ |
    ⟨hNew, hRunning, -, -, hAfter⟩ | ⟨pindexBest, hReady, hBuffer⟩
  · rw [if_pos (show call.IsIgnored from hIgnored), hAfter]
    exact Or.inl rfl
  · have hProceeds : ¬call.IsIgnored := by
      rintro (hKnown | hShutdown)
      · exact hNew hKnown
      · rw [hRunning] at hShutdown
        cases hShutdown
    rw [if_neg hProceeds, hAfter]
    exact Or.inl rfl
  · have hProceeds : ¬call.IsIgnored := by
      rintro (hKnown | hShutdown)
      · exact hReady.unknown hKnown
      · rw [hReady.running] at hShutdown
        cases hShutdown
    rw [if_neg hProceeds] at hPending ⊢
    rcases slot_processBuffer hBuffer k hPending with ⟨hRemoves, -⟩ | ⟨-, hKept | ⟨-, hAccepted⟩⟩
    · exact Or.inr (Or.inr ⟨pindexBest, k, hReady, rfl, hRemoves⟩)
    · exact Or.inl hKept
    · exact Or.inr (Or.inl hAccepted)

end Call

/-! ## No block is discarded while the array is initialised -/

/-- The call returns at once, or finds the array initialised or empty. -/
def KeepsArray (env : Env) (node : Node) (pblock : CBlock) : Prop :=
  pblock.getHash env.prims ∈ node.chain.mapBlockIndex ∨ env.fRequestShutdown = true ∨
    node.blockCheckerArray = true ∨ ∀ k, (node.blockChecker.slot k).isBlank = true

theorem Call.array_of_keepsArray
    (call : Call) (hKeeps : KeepsArray call.env call.before call.pblock) (k : ℕ)
    (hPending : (call.before.blockChecker.slot k).isBlank = false) :
    call.array.slot k = call.before.blockChecker.slot k := by
  unfold Call.array
  split_ifs with hIgnored
  · rfl
  · rcases hKeeps with hKnown | hShutdown | hArray | hEmpty
    · exact absurd (Or.inl hKnown) hIgnored
    · exact absurd (Or.inr hShutdown) hIgnored
    · have hInit := initBuffer_of_initialised hArray
      rw [slot_stored k (by rw [hInit]; exact hPending), hInit]
    · rw [hEmpty k] at hPending
      cases hPending

theorem slot_of_run
    {node node' : Node} {calls : List Call} {k : ℕ} {block : CBlock}
    (hRun : Trace (Calls KeepsArray) node calls node')
    (hSlot : node.blockChecker.slot k = block) (hPending : block.isBlank = false) :
    node'.blockChecker.slot k = block ∨ ∃ call ∈ calls, call.Resolves block := by
  refine Trace.invariant (I := fun calls node' => node'.blockChecker.slot k = block ∨
    ∃ call ∈ calls, call.Resolves block) (Or.inl hSlot) ?_ hRun
  rintro calls node₁ new node₂ (hKept | ⟨call, hMem, hResolves⟩)
    ⟨next, rfl, hSame, hKeeps, rfl⟩
  · have hBefore : next.before.blockChecker.slot k = block := by rw [hSame.blockChecker, hKept]
    have hArray := next.array_of_keepsArray hKeeps k (by rw [hBefore]; exact hPending)
    rw [hBefore] at hArray
    rcases next.slot_after k (by rw [hArray]; exact hPending) with hStays | hResolves
    · exact Or.inl (hStays.trans hArray)
    · rw [hArray] at hResolves
      exact Or.inr ⟨next, by simp, hResolves⟩
  · exact Or.inr ⟨call, List.mem_append_left _ hMem, hResolves⟩

/-- In a run whose calls return at once or find the array initialised or empty, a block
that a call finds in the array, or stores there, stays in its slot until a call resolves
it. -/
theorem pending_until_resolved
    {node node₁ node₂ : Node} {call : Call} {after : List Call}
    (hCall : Calls KeepsArray node [call] node₁)
    (hRun : Trace (Calls KeepsArray) node₁ after node₂)
    (k : ℕ) (block : CBlock) (hPending : block.isBlank = false)
    (hSlot : node.blockChecker.slot k = block ∨ call.array.slot k = block) :
    node₂.blockChecker.slot k = block ∨ ∃ next ∈ call :: after, next.Resolves block := by
  obtain ⟨call', hEq, hSame, hKeeps, rfl⟩ := hCall
  obtain rfl : call = call' := by simpa using hEq
  have hArray : call.array.slot k = block := by
    rcases hSlot with hBefore | hStored
    · rw [← hSame.blockChecker] at hBefore
      rw [← hBefore]
      exact call.array_of_keepsArray hKeeps k (by rw [hBefore]; exact hPending)
    · exact hStored
  rcases call.slot_after k (by rw [hArray]; exact hPending) with hStays | hResolves
  · rcases slot_of_run hRun (hStays.trans hArray) hPending with hKept | ⟨next, hMem, hResolves⟩
    · exact Or.inl hKept
    · exact Or.inr ⟨next, List.mem_cons_of_mem _ hMem, hResolves⟩
  · rw [hArray] at hResolves
    exact Or.inr ⟨call, List.mem_cons_self, hResolves⟩

/-! ## What `Buffer_entries` counts -/

/-- The slots that hold a block. -/
def Node.occupied (node : Node) : ℕ :=
  node.blockChecker.slots.countP fun block => !block.isBlank

/-- The blocks in the array fill its first `Buffer_entries` slots. -/
structure Node.IsPacked (node : Node) : Prop where
  fits : node.bufferEntries ≤ MAXIMUM_ARRAY_OF_BLOCKS
  filled : ∀ k, (node.blockChecker.slot k).isBlank = false ↔ k < node.bufferEntries

/-- The blocks extend the tip one after the other, and `AcceptBlock` returns true for each
of them. -/
def acceptsAll (env : Env) : ChainState → List CBlock → Bool
  | _, [] => true
  | chain, block :: rest =>
      match chain.entry chain.pindexBest, acceptBlock env true chain block with
      | some pindexBest, .ok (.ok _, chain') =>
          decide (pindexBest.phashBlock = block.hashPrevBlock) && acceptsAll env chain' rest
      | _, _ => false

theorem acceptsAll_cons
    {env : Env} {chain : ChainState} {block : CBlock} {rest : List CBlock}
    (h : acceptsAll env chain (block :: rest) = true) :
    ∃ pindexBest chain', chain.entry chain.pindexBest = some pindexBest ∧
      pindexBest.phashBlock = block.hashPrevBlock ∧
      acceptBlock env true chain block = .ok (.ok (), chain') ∧
      acceptsAll env chain' rest = true := by
  unfold acceptsAll at h
  split at h
  · rename_i pindexBest _ chain' hBest hAccept
    rw [Bool.and_eq_true, decide_eq_true_eq] at h
    exact ⟨pindexBest, chain', hBest, h.1, hAccept, h.2⟩
  · cases h

/-- The second phase empties the array or leaves it alone: no block in it is removed for
its time, and if the loop runs, it accepts all of them. -/
def CleansUp (env : Env) (node : Node) (pindexBest : CBlockIndex) : Prop :=
  (∀ k, (node.stored.blockChecker.slot k).isBlank = false → ¬node.RemovesAt env pindexBest k) ∧
    (node.blockMatches env pindexBest ≤ 1 →
      (node.blockMatches env pindexBest = 0 ∧ pindexBest.nHeight > 1000) ∨
        (node.stored.bufferEntries ≤ node.synchModeBufferSize ∧
          acceptsAll env node.chain
            (node.stored.blockChecker.slots.take node.stored.bufferEntries) = true))

/-- The call returns at once; or it stores no block without a previous block, and its second
phase, if it comes to it, empties the array or leaves it alone. -/
def KeepsCount (env : Env) (node : Node) (pblock : CBlock) : Prop :=
  pblock.getHash env.prims ∈ node.chain.mapBlockIndex ∨ env.fRequestShutdown = true ∨
    ((node.initBuffer.bufferEntries < node.synchModeBufferSize →
        node.blockToCheck.isBlank = false) ∧
      ∀ pindexBest, node.IsReady env pblock pindexBest → CleansUp env node pindexBest)

section Count

variable {env : Env} {node node' : Node} {attempts : List Attempt}

theorem Node.IsPacked.of_blank
    (hEntries : node.bufferEntries = 0)
    (hBlank : ∀ k, (node.blockChecker.slot k).isBlank = true) : node.IsPacked := by
  constructor
  · omega
  · intro k
    simp [hBlank k, hEntries]

theorem Node.IsPacked.occupied_eq (h : node.IsPacked) : node.occupied = node.bufferEntries := by
  have hLength := node.blockChecker.length_slots
  have hFits := h.fits
  have hSlot : ∀ k (hk : k < node.blockChecker.slots.length),
      node.blockChecker.slots[k].isBlank = false ↔ k < node.bufferEntries := by
    intro k hk
    rw [← h.filled k, BlockChecker.slot, List.getD_eq_getElem _ _ hk]
  unfold Node.occupied
  rw [← List.take_append_drop node.bufferEntries node.blockChecker.slots, List.countP_append]
  have hFirst : (node.blockChecker.slots.take node.bufferEntries).countP
      (fun block => !block.isBlank) = node.bufferEntries := by
    rw [List.countP_eq_length.mpr, List.length_take]
    · omega
    · intro block hMem
      obtain ⟨k, hk, rfl⟩ := List.mem_take_iff_getElem.mp hMem
      simpa using (hSlot k (by omega)).mpr (by omega)
  have hRest : (node.blockChecker.slots.drop node.bufferEntries).countP
      (fun block => !block.isBlank) = 0 := by
    rw [List.countP_eq_zero]
    intro block hMem
    obtain ⟨k, hk, rfl⟩ := List.mem_drop_iff_getElem.mp hMem
    have hNot := (hSlot (node.bufferEntries + k) (by omega)).not.mpr (by omega)
    simpa using hNot
  omega

theorem Node.IsPacked.initBuffer (h : node.IsPacked) : node.initBuffer.IsPacked := by
  unfold Node.initBuffer
  split_ifs
  · exact h
  · apply Node.IsPacked.of_blank
    · rfl
    · intro k
      rw [BlockChecker.slot_blank]
      rfl

/-- The received block goes into the slot after the blocks that are there. -/
theorem Node.IsPacked.storeReceived
    {size : ℕ} (h : node.IsPacked) (hSize : size ≤ MAXIMUM_ARRAY_OF_BLOCKS)
    (hRoom : node.bufferEntries < size) (hBlock : node.blockToCheck.isBlank = false) :
    (node.storeReceived size).IsPacked := by
  have hFree : (node.blockChecker.slot node.bufferEntries).isBlank = true := by
    have hNot := (h.filled node.bufferEntries).not.mpr (by omega)
    simpa using hNot
  unfold Node.storeReceived
  cases hFirst : node.blockChecker.firstBlank size with
  | none =>
      rw [node.blockChecker.firstBlank_eq_none hSize hFirst _ hRoom] at hFree
      cases hFree
  | some i =>
      obtain ⟨hi, hArray, hBlank, hBefore⟩ := node.blockChecker.firstBlank_eq_some hFirst
      have hPlace : i = node.bufferEntries := by
        have hLow : ¬i < node.bufferEntries := by
          rw [← h.filled i, hBlank]
          simp
        have hHigh : ¬node.bufferEntries < i := by
          intro hLt
          rw [hBefore _ hLt] at hFree
          cases hFree
        omega
      constructor
      · dsimp only
        omega
      · intro k
        dsimp only
        rw [BlockChecker.slot_put _ hArray]
        split_ifs with hk
        · simp only [hBlock, true_iff]
          omega
        · rw [h.filled k]
          omega

theorem Node.IsPacked.stored
    (h : node.IsPacked)
    (hBlock : node.initBuffer.bufferEntries < node.synchModeBufferSize →
      node.blockToCheck.isBlank = false) :
    node.stored.IsPacked := by
  unfold Node.stored
  split_ifs with hRoom
  · apply h.initBuffer.storeReceived node.synchModeBufferSize_le hRoom
    rw [blockToCheck_initBuffer]
    exact hBlock hRoom
  · exact h.initBuffer

theorem bufferEntries_processNoMatch
    {pindexBest : CBlockIndex} (h : processNoMatch node pindexBest = .ok node') :
    node'.bufferEntries = node.bufferEntries := by
  unfold processNoMatch at h
  dsimp only at h
  split_ifs at h
  · simp only [bind_eq_ok, Except.ok.injEq] at h
    obtain ⟨-, -, -, -, rfl⟩ := h
    rfl
  · cases h
    rfl

theorem bufferEntries_processLoop
    {size remaining blocksProcessed : ℕ}
    (h : processLoop env size remaining blocksProcessed node = .ok (attempts, node')) :
    node'.bufferEntries = 0 := by
  induction remaining generalizing blocksProcessed node attempts with
  | zero =>
      cases h
      rfl
  | succ remaining ih =>
      unfold processLoop at h
      by_cases hEnd : blocksProcessed = size
      · rw [if_pos hEnd] at h
        cases h
        rfl
      rw [if_neg hEnd, bind_eq_ok] at h
      obtain ⟨pindexBest, -, h⟩ := h
      dsimp only at h
      split_ifs at h
      · rw [bind_eq_ok] at h
        obtain ⟨⟨verdict, chain⟩, -, h⟩ := h
        cases verdict with
        | ok =>
            simp only [bind_eq_ok, Except.ok.injEq, Prod.mk.injEq] at h
            obtain ⟨⟨rest, node₂⟩, hRest, -, rfl⟩ := h
            exact ih hRest
        | error rejection =>
            simp only [bind_eq_ok, Except.ok.injEq, Prod.mk.injEq] at h
            obtain ⟨⟨rest, node₂⟩, hRest, -, rfl⟩ := h
            exact ih hRest
      · exact ih h

/-- A loop over an empty array leaves it empty. -/
theorem blank_processLoop
    {size remaining blocksProcessed : ℕ}
    (hBlank : ∀ k, (node.blockChecker.slot k).isBlank = true)
    (h : processLoop env size remaining blocksProcessed node = .ok (attempts, node')) (k : ℕ) :
    (node'.blockChecker.slot k).isBlank = true := by
  rcases slot_processLoop h k with hKept | ⟨hSlot, -⟩
  · rw [hKept]
    exact hBlank k
  · rw [hSlot]
    rfl

/-- If the blocks from slot `i` on are accepted one after the other, the loop empties the
array. -/
theorem clears_processLoop
    {size remaining m i : ℕ} (hm : m ≤ size) (hi : i ≤ m) (hRemaining : m ≤ i + remaining)
    (hFilled : ∀ k, (node.blockChecker.slot k).isBlank = false ↔ i ≤ k ∧ k < m)
    (hAccepts : acceptsAll env node.chain ((node.blockChecker.slots.take m).drop i) = true)
    (h : processLoop env size remaining i node = .ok (attempts, node')) (k : ℕ) :
    (node'.blockChecker.slot k).isBlank = true := by
  induction remaining generalizing i node attempts with
  | zero =>
      apply blank_processLoop ?_ h
      intro k
      have hNot := (hFilled k).not.mpr (by omega)
      simpa using hNot
  | succ remaining ih =>
      by_cases hDone : i = m
      · apply blank_processLoop ?_ h
        intro k
        have hNot := (hFilled k).not.mpr (by omega)
        simpa using hNot
      · have hPending : (node.blockChecker.slot i).isBlank = false :=
          (hFilled i).mpr ⟨le_rfl, by omega⟩
        have hLength := node.blockChecker.length_slots
        have hArray : i < MAXIMUM_ARRAY_OF_BLOCKS := by
          by_contra hOut
          rw [BlockChecker.slot_of_le _ (by omega)] at hPending
          cases hPending
        have hSlot : (node.blockChecker.slots.take m).drop i =
            node.blockChecker.slot i :: (node.blockChecker.slots.take m).drop (i + 1) := by
          rw [List.drop_eq_getElem_cons (by rw [List.length_take]; omega), List.getElem_take,
            BlockChecker.slot, List.getD_eq_getElem _ _ (by omega)]
        rw [hSlot] at hAccepts
        obtain ⟨pindexBest, chain, hBest, hExtends, hAccept, hLater⟩ := acceptsAll_cons hAccepts
        unfold processLoop at h
        rw [if_neg (by omega), hBest, deref_some, ok_bind] at h
        dsimp only at h
        rw [hPending, hExtends, if_pos (by simp), hAccept, ok_bind] at h
        simp only [bind_eq_ok, Except.ok.injEq, Prod.mk.injEq] at h
        obtain ⟨⟨rest, node₂⟩, hRest, -, rfl⟩ := h
        apply ih (by omega) (by omega) ?_ ?_ hRest
        · intro k
          rw [BlockChecker.slot_put_blank]
          split_ifs with hk
          · simp only [CBlock.isBlank_blank, Bool.true_eq_false, false_iff]
            omega
          · rw [hFilled k]
            omega
        · -- blanking slot `i` does not touch the slots after it
          dsimp only [BlockChecker.put]
          rw [List.take_set, List.drop_set_of_lt (by omega)]
          exact hLater

/-- The tests of the second phase leave a slot blank or not, as they find it, unless they
remove its block. -/
theorem isBlank_scanned
    {pindexBest : CBlockIndex} (hStays : ∀ k, (node.stored.blockChecker.slot k).isBlank = false →
      ¬node.RemovesAt env pindexBest k) (k : ℕ) :
    ((node.scanned pindexBest).blockChecker.slot k).isBlank =
      (node.stored.blockChecker.slot k).isBlank ∧
    ((node.stored.blockChecker.slot k).isBlank = false →
      (node.scanned pindexBest).blockChecker.slot k = node.stored.blockChecker.slot k) := by
  have hScan := slot_scanned node pindexBest k
  cases hBlank : (node.stored.blockChecker.slot k).isBlank with
  | false =>
      rw [scanSlot_of_pending hBlank, ← ite_and, if_neg] at hScan
      · rw [hScan]
        exact ⟨hBlank, fun _ => rfl⟩
      · intro hTime
        exact hStays k hBlank (Or.inl hTime)
  | true =>
      refine ⟨?_, fun h => by cases h⟩
      rw [hScan]
      split_ifs
      · rcases scanSlot_cases pindexBest (node.stored.blockChecker.slot k) with hSame | hNew
        · rw [hSame, hBlank]
        · rw [hNew]
          rfl
      · exact hBlank

theorem Node.IsPacked.scanned
    {pindexBest : CBlockIndex} (h : node.stored.IsPacked)
    (hStays : ∀ k, (node.stored.blockChecker.slot k).isBlank = false →
      ¬node.RemovesAt env pindexBest k) :
    (node.scanned pindexBest).IsPacked := by
  constructor
  · exact h.fits
  · intro k
    rw [(isBlank_scanned hStays k).1]
    exact h.filled k

/-- A second phase that cleans up leaves the blocks in the first slots. -/
theorem Node.IsPacked.processBuffer
    {pindexBest : CBlockIndex} {value : ReturnValue} (h : node.stored.IsPacked)
    (hCleans : CleansUp env node pindexBest)
    (hBuffer : processBuffer env node.stored pindexBest node.synchModeBufferSize =
      .ok (value, attempts, node')) :
    node'.IsPacked := by
  obtain ⟨hStays, hLoops⟩ := hCleans
  have hScanned := h.scanned hStays
  rcases processBuffer_cases hBuffer with ⟨-, -, -, hNoMatch⟩ | ⟨hMany, -, rfl⟩ |
    ⟨hFew, hRuns, hLoop⟩
  · constructor
    · rw [bufferEntries_processNoMatch hNoMatch]
      exact hScanned.fits
    · rw [bufferEntries_processNoMatch hNoMatch, (processNoMatch_frame hNoMatch).2]
      exact hScanned.filled
  · constructor
    · exact hScanned.fits
    · intro k
      rw [← hScanned.filled k]
      dsimp only
      rw [BlockChecker.slot_mapFirst _ (blankIfLate_blank pindexBest)]
      split_ifs with hMatch
      · obtain ⟨hBlank, hSlot⟩ := isBlank_scanned hStays k
        unfold blankIfLate
        split_ifs with hLate
        · rw [hBlank]
          cases hPending : (node.stored.blockChecker.slot k).isBlank with
          | true => simp [CBlock.isBlank_blank]
          | false =>
              -- a late block would have been removed
              rw [hSlot hPending] at hLate
              exact absurd (Or.inr ⟨hMany, hMatch, hLate⟩) (hStays k hPending)
        · rfl
      · rfl
  · obtain ⟨hNone, hHigh⟩ | ⟨hRoom, hAccepts⟩ := hLoops hFew
    · exact absurd ⟨hNone, hHigh⟩ hRuns
    · apply Node.IsPacked.of_blank (bufferEntries_processLoop hLoop)
      apply clears_processLoop hRoom (Nat.zero_le _) (by omega) ?_ ?_ hLoop
      · intro k
        rw [hScanned.filled k]
        exact (and_iff_right (Nat.zero_le k)).symm
      · have hTake : (node.scanned pindexBest).blockChecker.slots.take node.stored.bufferEntries =
            node.stored.blockChecker.slots.take node.stored.bufferEntries := by
          have hFits := h.fits
          have hLength := node.stored.blockChecker.length_slots
          have hLength' := (node.scanned pindexBest).blockChecker.length_slots
          apply List.ext_getElem
          · rw [List.length_take, List.length_take, hLength, hLength']
          · intro k hk hk'
            rw [List.length_take] at hk
            have hSlot := (isBlank_scanned hStays k).2 ((h.filled k).mpr (by omega))
            rw [BlockChecker.slot, BlockChecker.slot, List.getD_eq_getElem _ _ (by omega),
              List.getD_eq_getElem _ _ (by omega)] at hSlot
            rw [List.getElem_take, List.getElem_take, hSlot]
        rw [hTake, List.drop_zero]
        have hChain : (node.scanned pindexBest).chain = node.chain := node.chain_stored
        rw [hChain]
        exact hAccepts

theorem Call.isPacked
    (call : Call) (h : call.before.IsPacked)
    (hKeeps : KeepsCount call.env call.before call.pblock) : call.after.IsPacked := by
  rcases processBlock_cases call.returns with ⟨-, -, hAfter⟩ |
    ⟨hNew, hRunning, -, -, hAfter⟩ | ⟨pindexBest, hReady, hBuffer⟩
  · rw [hAfter]
    exact h
  · rcases hKeeps with hKnown | hShutdown | ⟨hBlock, -⟩
    · exact absurd hKnown hNew
    · rw [hRunning] at hShutdown
      cases hShutdown
    · rw [hAfter]
      exact h.stored hBlock
  · rcases hKeeps with hKnown | hShutdown | ⟨hBlock, hCleans⟩
    · exact absurd hKnown hReady.unknown
    · rw [hReady.running] at hShutdown
      cases hShutdown
    · exact (h.stored hBlock).processBuffer (hCleans pindexBest hReady) hBuffer

end Count

/-- The received block finds no slot. -/
def Node.Refuses (node : Node) : Prop :=
  node.initBuffer.bufferEntries < node.synchModeBufferSize →
    node.initBuffer.blockChecker.firstBlank node.synchModeBufferSize = none

theorem Node.IsPacked.full_of_refuses
    {node : Node} (h : node.IsPacked) (hRefuses : node.Refuses) (k : ℕ)
    (hk : k < node.synchModeBufferSize) :
    (node.initBuffer.blockChecker.slot k).isBlank = false := by
  by_cases hRoom : node.initBuffer.bufferEntries < node.synchModeBufferSize
  · exact node.initBuffer.blockChecker.firstBlank_eq_none node.synchModeBufferSize_le
      (hRefuses hRoom) k hk
  · exact (h.initBuffer.filled k).mpr (by omega)

/-- In a run from an empty array whose calls store no block without a previous block and
empty the array or leave it alone, `Buffer_entries` is the number of blocks in the array,
and a received block is refused only when all slots in use are occupied. -/
theorem bufferEntries_eq_occupied
    {node₀ node : Node} {calls : List Call}
    (hEntries : node₀.bufferEntries = 0) (hStart : node₀.blockChecker = BlockChecker.blank)
    (hRun : Trace (Calls KeepsCount) node₀ calls node) :
    node.bufferEntries = node.occupied ∧
      ∀ next, SameArray node next → next.Refuses → ∀ k < next.synchModeBufferSize,
        (next.initBuffer.blockChecker.slot k).isBlank = false := by
  have hCarry : ∀ {n n' : Node}, n.IsPacked → SameArray n n' → n'.IsPacked := by
    intro n n' hPacked hSame
    constructor
    · rw [hSame.bufferEntries]
      exact hPacked.fits
    · rw [hSame.bufferEntries, hSame.blockChecker]
      exact hPacked.filled
  have hPacked : node.IsPacked := by
    refine Trace.invariant (I := fun _ node => node.IsPacked) ?_ ?_ hRun
    · apply Node.IsPacked.of_blank hEntries
      intro k
      rw [hStart, BlockChecker.slot_blank]
      rfl
    · rintro _ node₁ _ node₂ hPacked ⟨call, -, hSame, hKeeps, rfl⟩
      exact call.isPacked (hCarry hPacked hSame) hKeeps
  refine ⟨hPacked.occupied_eq.symm, ?_⟩
  intro next hSame hRefuses
  exact (hCarry hPacked hSame).full_of_refuses hRefuses

/-! ## A block that is left behind -/

/-- A block is not removed while its time is close to that of the best block. -/
theorem not_removesAt
    {env : Env} {node : Node} {pindexBest : CBlockIndex} {k : ℕ}
    (hTime : (node.stored.blockChecker.slot k).nTime ≠ 0)
    (hNear : timeTooFar pindexBest (node.stored.blockChecker.slot k) = false)
    (hEarly : (node.stored.blockChecker.slot k).nTime ≤ (pindexBest.nTime + 1000) % 2 ^ 32) :
    ¬node.RemovesAt env pindexBest k := by
  rintro (⟨-, hZero | hFar⟩ | ⟨-, -, hLate⟩)
  · exact hTime hZero
  · rw [hNear] at hFar
    cases hFar
  · omega

namespace Sample

/-- The tests of the time of a block. -/
def inTime (node : Node) (block : CBlock) : Bool :=
  (node.chain.entry node.chain.pindexBest).all fun pindexBest =>
    block.nTime ≠ 0 && !timeTooFar pindexBest block &&
      block.nTime ≤ (pindexBest.nTime + 1000) % 2 ^ 32

theorem not_removesAt_of_inTime
    {env : Env} {node : Node} {pblock : CBlock} {pindexBest : CBlockIndex} {k : ℕ}
    (hReady : node.IsReady env pblock pindexBest)
    (hTime : inTime node (node.stored.blockChecker.slot k) = true) :
    ¬node.RemovesAt env pindexBest k := by
  rw [inTime, hReady.best] at hTime
  simp only [Option.all_some, Bool.and_eq_true, decide_eq_true_eq, Bool.not_eq_true'] at hTime
  exact not_removesAt hTime.1.1 hTime.1.2 hTime.2

def valueOn (node : Node) (block : CBlock) : ReturnValue :=
  match receive node block with
  | .ok (value, _, _) => value
  | .error _ => none

/-- A block message as a call. -/
def callOf (node : Node) (block : CBlock) (h : (receive node block).isOk = true) : Call where
  env := env 900
  fromNode := true
  before := { node with blockToCheck := block }
  pblock := block
  value := valueOn node block
  attempts := attemptsOn node block
  after := afterReceipt node block
  returns := by
    unfold valueOn attemptsOn afterReceipt
    cases hRun : receive node block with
    | error fault => simp [hRun, Except.isOk, Except.toBool] at h
    | ok out => exact hRun

theorem attempts_callOf (node : Node) (block : CBlock) (h : (receive node block).isOk = true) :
    (callOf node block h).attempts = attemptsOn node block := rfl

theorem sameArray_callOf
    (node : Node) (block : CBlock) (h : (receive node block).isOk = true) :
    SameArray node (callOf node block h).before := ⟨rfl, rfl, rfl⟩

theorem calls_callOf
    {condition : Env → Node → CBlock → Prop} {node : Node} {block : CBlock}
    (h : (receive node block).isOk = true)
    (hCondition : condition (env 900) { node with blockToCheck := block } block) :
    Calls condition node [callOf node block h] (afterReceipt node block) :=
  ⟨callOf node block h, rfl, sameArray_callOf node block h, hCondition, rfl⟩

/-- A block whose previous block is not known. -/
def orphan : CBlock := sealed 777 1000 [coinbase 1000 13 100]

/-- The loop accepts the first block and ends with the orphan still in the array. -/
def orphanLeft : Node := afterReceipt unsignedStored orphan

theorem blocks_received :
    (receive freshNode unsigned).isOk = true ∧ (receive unsignedStored orphan).isOk = true ∧
      (receive orphanLeft unsignedFollower).isOk = true ∧
      (receive unsignedStored unsignedFollower).isOk = true := by
  decide +kernel

theorem unsigned_received : (receive freshNode unsigned).isOk = true := blocks_received.1

theorem orphan_received : (receive unsignedStored orphan).isOk = true := blocks_received.2.1

theorem follower_received : (receive orphanLeft unsignedFollower).isOk = true :=
  blocks_received.2.2.1

theorem orphan_discarded :
    ∃ before after node node', Trace (Calls fun _ _ _ => True) freshNode before node ∧
      Trace (Calls fun _ _ _ => True) node after node' ∧
      (node.blockChecker.slot 1).isBlank = false ∧
      node'.blockChecker.slot 1 ≠ node.blockChecker.slot 1 ∧
      ∀ call ∈ after, ¬call.Resolves (node.blockChecker.slot 1) := by
  refine ⟨_, _, orphanLeft, afterReceipt orphanLeft unsignedFollower,
    (Trace.start.next (calls_callOf unsigned_received trivial)).next
      (calls_callOf orphan_received trivial),
    Trace.start.next (calls_callOf follower_received trivial), by decide +kernel,
    by decide +kernel, ?_⟩
  intro call hMem hResolves
  obtain rfl : call = callOf orphanLeft unsignedFollower follower_received := by simpa using hMem
  rcases hResolves with ⟨attempt, hAttempt, -⟩ | ⟨pindexBest, k, hReady, hSlot, hRemoves⟩
  · have hNone : (attemptsOn orphanLeft unsignedFollower).isEmpty = true := by decide +kernel
    rw [attempts_callOf, List.isEmpty_iff.mp hNone] at hAttempt
    cases hAttempt
  · apply not_removesAt_of_inTime hReady _ hRemoves
    rw [hSlot]
    decide +kernel

theorem unsigned_kept :
    (afterReceipt unsignedStored orphan).blockChecker.slot 0 = unsigned ∨
      ∃ next ∈ [callOf freshNode unsigned unsigned_received,
        callOf unsignedStored orphan orphan_received], next.Resolves unsigned := by
  apply pending_until_resolved
    (calls_callOf unsigned_received (Or.inr (Or.inr (Or.inr ?_))))
    (Trace.start.next (calls_callOf orphan_received (Or.inr (Or.inr (Or.inl ?_)))))
    0 unsigned (by decide +kernel) (Or.inr ?_)
  · intro k
    exact congrArg CBlock.isBlank (BlockChecker.slot_blank k)
  · decide +kernel
  · decide +kernel

theorem orphan_not_counted :
    ∃ calls node, Trace (Calls fun _ _ _ => True) freshNode calls node ∧
      node.bufferEntries ≠ node.occupied := by
  refine ⟨_, orphanLeft, (Trace.start.next (calls_callOf unsigned_received trivial)).next
      (calls_callOf orphan_received trivial), ?_⟩
  decide +kernel

/-- Two blocks that the loop accepts one after the other. -/
theorem followers_counted :
    (afterReceipt unsignedStored unsignedFollower).bufferEntries =
      (afterReceipt unsignedStored unsignedFollower).occupied := by
  have hReceived : (receive unsignedStored unsignedFollower).isOk = true := by decide +kernel
  have hFirst : KeepsCount (env 900) { freshNode with blockToCheck := unsigned } unsigned := by
    refine Or.inr (Or.inr ⟨fun _ => by decide +kernel, fun pindexBest hReady => ?_⟩)
    -- one block is not enough for the second phase
    have hWaits : ({ freshNode with blockToCheck := unsigned }.stored.waits (env 900) pindexBest
        { freshNode with blockToCheck := unsigned }.synchModeBufferSize) = none :=
      hReady.filled (by decide +kernel)
    have hTip : pindexBest = tipEntry := Option.some.inj (hReady.best.symm.trans (by rfl))
    rw [hTip] at hWaits
    exact absurd hWaits (by decide +kernel)
  have hSecond : KeepsCount (env 900) { unsignedStored with blockToCheck := unsignedFollower }
      unsignedFollower := by
    refine Or.inr (Or.inr ⟨fun _ => by decide +kernel, fun pindexBest hReady => ⟨?_, fun _ => ?_⟩⟩)
    · intro k hPending
      apply not_removesAt_of_inTime hReady
      have hAll : ({ unsignedStored with
          blockToCheck := unsignedFollower }.stored.blockChecker.slots.all fun block =>
            block.isBlank ||
              inTime { unsignedStored with blockToCheck := unsignedFollower } block) = true := by
        decide +kernel
      have hSlot := List.all_eq_true.mp hAll _ (BlockChecker.slot_mem _ k hPending)
      rw [hPending, Bool.false_or] at hSlot
      exact hSlot
    · exact Or.inr ⟨by decide +kernel, by decide +kernel⟩
  exact (bufferEntries_eq_occupied rfl rfl
    ((Trace.start.next (calls_callOf unsigned_received hFirst)).next
      (calls_callOf hReceived hSecond))).1

end Sample

end SocietyGold
