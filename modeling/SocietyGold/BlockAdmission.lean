import SocietyGold.IndexAtomicity
import SocietyGold.ProcessBlock
import SocietyGold.Support.Trace
import Mathlib.Data.List.GetD

/-!
# Checks on received blocks

Neither `ProcessBlock` nor `AcceptBlock` looks at the block signature or at the
stakes that have been seen, so a block gets into the best chain without them.  Only
if every block that comes in is signed, and its stake is not used by another block,
do the blocks of the best chain satisfy both rules.
-/

namespace SocietyGold

open Support

/-! ## One call of AcceptBlock -/

section Effect

variable {env : Env} {fromNode : Bool} {st st' : ChainState} {block : CBlock}

/-- What a call of `AcceptBlock` does to the index, the stakes and the tip: nothing, or
it enters the block and its stake, whether it succeeds or not. -/
theorem acceptBlock_effect
    {verdict : Verdict} (h : acceptBlock env fromNode st block = .ok (verdict, st')) :
    (st'.mapBlockIndex = st.mapBlockIndex ∧ st'.setStakeSeen = st.setStakeSeen ∧
      st'.pindexBest = st.pindexBest) ∨
    (block.getHash env.prims ∉ st.mapBlockIndex ∧
      (∀ k, k ∈ st'.mapBlockIndex ↔ k = block.getHash env.prims ∨ k ∈ st.mapBlockIndex) ∧
      st'.setStakeSeen = stakesWith block st.setStakeSeen) := by
  rcases acceptBlock_cases h with ⟨rfl, -⟩ | ⟨_, hNew, -, -, hNext⟩
  · exact Or.inl ⟨rfl, rfl, rfl⟩
  rcases acceptNext_cases hNext with ⟨rfl, -⟩ | ⟨_, _, -, -, -, -, -, hStore⟩
  · exact Or.inl ⟨rfl, rfl, rfl⟩
  rcases storeBlock_cases hStore with ⟨rfl, -⟩ | ⟨_, _, st₁, _, hWrite, hAdd, -⟩
  · exact Or.inl ⟨rfl, rfl, rfl⟩
  have hFrame := writeToDisk_frame hWrite
  rcases addToBlockIndex_spec isTreeView_place hAdd with
    ⟨-, -, rfl⟩ | ⟨-, -, hEntries, hSeen, -, -⟩
  · left
    rw [hFrame]
    exact ⟨rfl, rfl, rfl⟩
  · right
    rw [hFrame] at hEntries hSeen
    refine ⟨hNew, fun k => ?_, hSeen⟩
    have hEntry := congrArg Option.isSome (hEntries k)
    rw [Option.isSome_map] at hEntry
    rw [Table.mem_iff_lookup, ← Option.isSome_iff_exists, hEntry]
    by_cases hk : k = block.getHash env.prims
    · simp [hk]
    · rw [if_neg hk, Option.isSome_map, Table.mem_iff_lookup, ← Option.isSome_iff_exists]
      simp [hk]

end Effect

/-! ## Blocks that may be entered -/

/-- Blocks that satisfy both rules whenever they are new: they are signed, a stake that
has been seen belongs to a known block, and no two of them share a stake. -/
structure Admits (env : Env) (chain : ChainState) (blocks : List CBlock) : Prop where
  signed : ∀ block ∈ blocks, block.checkBlockSignature env = true
  fresh : ∀ block ∈ blocks, block.isProofOfStake = true →
    block.getProofOfStake ∈ chain.setStakeSeen →
      block.getHash env.prims ∈ chain.mapBlockIndex
  apart : ∀ block ∈ blocks, ∀ other ∈ blocks, block.isProofOfStake = true →
    other.isProofOfStake = true → block.getProofOfStake = other.getProofOfStake →
      block.getHash env.prims = other.getHash env.prims

namespace Admits

variable {env : Env} {chain chain' : ChainState} {blocks blocks' : List CBlock}

/-- Blank slots satisfy the rules. -/
theorem of_subset
    (h : Admits env chain blocks)
    (hSubset : ∀ block ∈ blocks', block ∈ blocks ∨ block = CBlock.blank) :
    Admits env chain blocks' := by
  have hStake : ∀ block ∈ blocks', block.isProofOfStake = true → block ∈ blocks := by
    intro block hMem hPos
    rcases hSubset block hMem with hOld | rfl
    · exact hOld
    · cases hPos
  constructor
  · intro block hMem
    rcases hSubset block hMem with hOld | rfl
    · exact h.signed block hOld
    · rfl
  · intro block hMem hPos
    exact h.fresh block (hStake block hMem hPos) hPos
  · intro block hMem other hOther hPos hPos'
    exact h.apart block (hStake block hMem hPos) other (hStake other hOther hPos') hPos hPos'

theorem of_blank (env : Env) (chain : ChainState)
    (hBlank : ∀ block ∈ blocks, block = CBlock.blank) : Admits env chain blocks := by
  have hNone : Admits env chain [] := ⟨by simp, by simp, by simp⟩
  exact hNone.of_subset fun block hMem => Or.inr (hBlank block hMem)

/-- The rules depend on the index and the stakes alone. -/
theorem of_chain
    (h : Admits env chain blocks) (hMap : chain'.mapBlockIndex = chain.mapBlockIndex)
    (hSeen : chain'.setStakeSeen = chain.setStakeSeen) : Admits env chain' blocks := by
  constructor
  · exact h.signed
  · intro block hMem hPos hStake
    rw [hMap]
    exact h.fresh block hMem hPos (hSeen ▸ hStake)
  · exact h.apart

/-- They depend on the primitives and script templates alone. -/
theorem of_env
    {env' : Env} (h : Admits env chain blocks) (hPrims : env'.prims = env.prims)
    (hSolver : env'.solver = env.solver) : Admits env' chain blocks := by
  constructor
  · intro block hMem
    have hSigned := h.signed block hMem
    unfold CBlock.checkBlockSignature at hSigned ⊢
    rw [hPrims, hSolver]
    exact hSigned
  · rw [hPrims]
    exact h.fresh
  · rw [hPrims]
    exact h.apart

end Admits

/-- The block signature and the rule for duplicate stakes. -/
def Attempt.IsChecked (env : Env) (attempt : Attempt) : Prop :=
  attempt.block.checkBlockSignature env = true ∧
    (attempt.block.isProofOfStake = true →
      attempt.block.getProofOfStake ∉ attempt.before.setStakeSeen)

/-- The call adds its block to the best chain. -/
def Attempt.MovesTip (attempt : Attempt) : Prop :=
  attempt.after.pindexBest ≠ attempt.before.pindexBest

instance (attempt : Attempt) : Decidable attempt.MovesTip := inferInstanceAs (Decidable (_ ≠ _))

/-- A call of `AcceptBlock` for one of the blocks keeps the rules for all of them, and
if it moves the tip, its block satisfies both. -/
theorem Admits.acceptBlock
    {env : Env} {fromNode : Bool} {st st' : ChainState} {block : CBlock} {blocks : List CBlock}
    {verdict : Verdict} (h : Admits env st blocks) (hMem : block ∈ blocks)
    (hAccept : acceptBlock env fromNode st block = .ok (verdict, st')) :
    Admits env st' blocks ∧
      (Attempt.MovesTip ⟨block, st, st'⟩ → Attempt.IsChecked env ⟨block, st, st'⟩) := by
  rcases acceptBlock_effect hAccept with ⟨hMap, hSeen, hTip⟩ | ⟨hNew, hEntries, hSeen⟩
  · exact ⟨h.of_chain hMap hSeen, fun hMoves => absurd hTip hMoves⟩
  · constructor
    · constructor
      · exact h.signed
      · intro other hOther hPos hStake
        rw [hEntries]
        rw [hSeen, stakesWith] at hStake
        split_ifs at hStake with hPosBlock
        · rcases Finset.mem_insert.mp hStake with hSame | hOld
          · exact Or.inl (h.apart other hOther block hMem hPos hPosBlock hSame)
          · exact Or.inr (h.fresh other hOther hPos hOld)
        · exact Or.inr (h.fresh other hOther hPos hStake)
      · exact h.apart
    · intro _
      exact ⟨h.signed block hMem, fun hPos hStake => hNew (h.fresh block hMem hPos hStake)⟩

/-! ## The slots of the array -/

namespace BlockChecker

variable {checker : BlockChecker} {block other : CBlock} {i size : ℕ}

theorem slot_mem
    (checker : BlockChecker) (i : ℕ) (h : (checker.slot i).isBlank = false) :
    checker.slot i ∈ checker.slots := by
  unfold slot at h ⊢
  by_cases hi : i < checker.slots.length
  · rw [List.getD_eq_getElem _ _ hi]
    exact List.getElem_mem hi
  · rw [List.getD_eq_default _ _ (not_lt.mp hi)] at h
    cases h

theorem mem_put (h : other ∈ (checker.put i block).slots) :
    other ∈ checker.slots ∨ other = block := List.mem_or_eq_of_mem_set h

theorem mem_mapFirst {f : CBlock → CBlock} (hf : ∀ b, f b = b ∨ f b = CBlock.blank)
    (h : other ∈ (checker.mapFirst size f).slots) :
    other ∈ checker.slots ∨ other = CBlock.blank := by
  rcases List.mem_append.mp h with hFirst | hRest
  · obtain ⟨b, hb, rfl⟩ := List.mem_map.mp hFirst
    rcases hf b with hSame | hBlank
    · exact Or.inl (hSame.symm ▸ List.mem_of_mem_take hb)
    · exact Or.inr hBlank
  · exact Or.inl (List.mem_of_mem_drop hRest)

theorem mem_blank (h : other ∈ blank.slots) : other = CBlock.blank := List.eq_of_mem_replicate h

end BlockChecker

theorem scanSlot_cases (pindexBest : CBlockIndex) (block : CBlock) :
    scanSlot pindexBest block = block ∨ scanSlot pindexBest block = CBlock.blank := by
  unfold scanSlot
  split_ifs <;> simp

theorem blankIfLate_cases (pindexBest : CBlockIndex) (block : CBlock) :
    blankIfLate pindexBest block = block ∨ blankIfLate pindexBest block = CBlock.blank := by
  unfold blankIfLate
  split_ifs <;> simp

/-! ## One call of ProcessBlock -/

/-- All blocks in the array may be entered. -/
def Node.Admits (env : Env) (node : Node) : Prop :=
  SocietyGold.Admits env node.chain node.blockChecker.slots

section Process

variable {env : Env} {node node' : Node} {attempts : List Attempt}

theorem processLoop_admits
    {size remaining blocksProcessed : ℕ} (hAdmits : node.Admits env)
    (h : processLoop env size remaining blocksProcessed node = .ok (attempts, node')) :
    node'.Admits env ∧ ∀ attempt ∈ attempts, attempt.MovesTip → attempt.IsChecked env := by
  induction remaining generalizing blocksProcessed node attempts with
  | zero =>
      cases h
      exact ⟨hAdmits, by simp⟩
  | succ remaining ih =>
      unfold processLoop at h
      by_cases hEnd : blocksProcessed = size
      · rw [if_pos hEnd] at h
        cases h
        exact ⟨hAdmits, by simp⟩
      rw [if_neg hEnd, bind_eq_ok] at h
      obtain ⟨pindexBest, -, h⟩ := h
      dsimp only at h
      split_ifs at h with hNext
      · rw [bind_eq_ok] at h
        obtain ⟨⟨verdict, chain⟩, hAccept, h⟩ := h
        have hMem := BlockChecker.slot_mem node.blockChecker blocksProcessed
          (by simpa using (Bool.and_eq_true_iff.mp hNext).1)
        obtain ⟨hChain, hChecked⟩ := hAdmits.acceptBlock hMem hAccept
        cases verdict with
        | ok =>
            simp only [bind_eq_ok, Except.ok.injEq, Prod.mk.injEq] at h
            obtain ⟨⟨rest, node₂⟩, hRest, rfl, rfl⟩ := h
            have hPut : Node.Admits env { node with
                chain := chain
                blockChecker := node.blockChecker.put blocksProcessed CBlock.blank } :=
              hChain.of_subset fun block => BlockChecker.mem_put
            obtain ⟨hNode, hAll⟩ := ih hPut hRest
            exact ⟨hNode, List.forall_mem_cons.mpr ⟨hChecked, hAll⟩⟩
        | error rejection =>
            simp only [bind_eq_ok, Except.ok.injEq, Prod.mk.injEq] at h
            obtain ⟨⟨rest, node₂⟩, hRest, rfl, rfl⟩ := h
            have hKept : Node.Admits env { node with chain := chain } := hChain
            obtain ⟨hNode, hAll⟩ := ih hKept hRest
            exact ⟨hNode, List.forall_mem_cons.mpr ⟨hChecked, hAll⟩⟩
      · exact ih hAdmits h

theorem processNoMatch_frame
    {pindexBest : CBlockIndex} (h : processNoMatch node pindexBest = .ok node') :
    node'.chain = node.chain ∧ node'.blockChecker = node.blockChecker := by
  unfold processNoMatch at h
  dsimp only at h
  split_ifs at h
  · simp only [bind_eq_ok, Except.ok.injEq] at h
    obtain ⟨-, -, -, -, rfl⟩ := h
    exact ⟨rfl, rfl⟩
  · cases h
    exact ⟨rfl, rfl⟩

theorem processBuffer_admits
    {pindexBest : CBlockIndex} {size : ℕ} {value : ReturnValue} (hAdmits : node.Admits env)
    (h : processBuffer env node pindexBest size = .ok (value, attempts, node')) :
    node'.Admits env ∧ ∀ attempt ∈ attempts, attempt.MovesTip → attempt.IsChecked env := by
  have hScanned : Node.Admits env { node with
      blockChecker := node.blockChecker.mapFirst size (scanSlot pindexBest) } :=
    hAdmits.of_subset fun block => BlockChecker.mem_mapFirst (scanSlot_cases pindexBest)
  unfold processBuffer at h
  dsimp only at h
  split_ifs at h with hMarked hNone hMany
  · simp only [bind_eq_ok, Except.ok.injEq, Prod.mk.injEq] at h
    obtain ⟨node₂, hNoMatch, -, rfl, rfl⟩ := h
    obtain ⟨hChain, hChecker⟩ := processNoMatch_frame hNoMatch
    refine ⟨?_, by simp⟩
    unfold Node.Admits
    rw [hChain, hChecker]
    exact hScanned
  · simp only [Except.ok.injEq, Prod.mk.injEq] at h
    obtain ⟨-, rfl, rfl⟩ := h
    refine ⟨?_, by simp⟩
    exact hScanned.of_subset fun block => BlockChecker.mem_mapFirst (blankIfLate_cases pindexBest)
  · simp only [bind_eq_ok, Except.ok.injEq, Prod.mk.injEq] at h
    obtain ⟨⟨attempts₂, node₂⟩, hLoop, -, rfl, rfl⟩ := h
    exact processLoop_admits hScanned hLoop

/-- The received block satisfies the rules together with the blocks in the array. -/
def AdmitsReceived (env : Env) (node : Node) : Prop :=
  Admits env node.chain (node.blockToCheck :: node.initBuffer.blockChecker.slots)

theorem chain_initBuffer (node : Node) : node.initBuffer.chain = node.chain := by
  unfold Node.initBuffer
  split_ifs <;> rfl

theorem blockToCheck_initBuffer (node : Node) :
    node.initBuffer.blockToCheck = node.blockToCheck := by
  unfold Node.initBuffer
  split_ifs <;> rfl

theorem storeReceived_admits
    (size : ℕ)
    (hAdmits : Admits env node.chain (node.blockToCheck :: node.blockChecker.slots)) :
    (node.storeReceived size).Admits env := by
  have hSlots : node.Admits env := hAdmits.of_subset fun block hMem =>
    Or.inl (List.mem_cons_of_mem _ hMem)
  unfold Node.storeReceived
  cases node.blockChecker.firstBlank size with
  | none => exact hSlots
  | some i =>
      refine hAdmits.of_subset fun block hMem => Or.inl ?_
      rcases BlockChecker.mem_put hMem with hOld | rfl
      · exact List.mem_cons_of_mem _ hOld
      · exact List.mem_cons_self

theorem processBlock_admits
    {fromNode : Bool} {pblock : CBlock} {value : ReturnValue} (hAdmits : node.Admits env)
    (hReceived : AdmitsReceived env node)
    (h : processBlock env fromNode node pblock = .ok (value, attempts, node')) :
    node'.Admits env ∧ ∀ attempt ∈ attempts, attempt.MovesTip → attempt.IsChecked env := by
  have hInit : Admits env node.initBuffer.chain
      (node.initBuffer.blockToCheck :: node.initBuffer.blockChecker.slots) := by
    rw [chain_initBuffer, blockToCheck_initBuffer]
    exact hReceived
  have hSlots : node.initBuffer.Admits env := hInit.of_subset fun block hMem =>
    Or.inl (List.mem_cons_of_mem _ hMem)
  unfold processBlock at h
  split_ifs at h with hKnown hShutdown
  · cases h
    exact ⟨hAdmits, by simp⟩
  · cases h
    exact ⟨hAdmits, by simp⟩
  · simp only [bind_eq_ok] at h
    obtain ⟨pindexBest, -, -, -, h⟩ := h
    split_ifs at h with hRoom
    · have hStored := storeReceived_admits node.initBuffer.synchModeBufferSize hInit
      cases hWaits : (node.initBuffer.storeReceived node.initBuffer.synchModeBufferSize).waits env
          pindexBest node.initBuffer.synchModeBufferSize with
      | some early =>
          rw [hWaits] at h
          cases h
          exact ⟨hStored, by simp⟩
      | none =>
          rw [hWaits] at h
          exact processBuffer_admits hStored h
    · exact processBuffer_admits hSlots h

end Process

/-! ## Runs -/

/-- Between two calls everything may change but the array, the block index and the
stakes. -/
structure SameBuffer (node node' : Node) : Prop where
  blockChecker : node'.blockChecker = node.blockChecker
  mapBlockIndex : node'.chain.mapBlockIndex = node.chain.mapBlockIndex
  setStakeSeen : node'.chain.setStakeSeen = node.chain.setStakeSeen

/-- A call of `ProcessBlock` for any node and any block, with the calls of `AcceptBlock`
it makes; the condition is on the state before the call. -/
def Processes (env₀ : Env) (condition : Env → Node → Prop) (node : Node)
    (attempts : List Attempt) (node' : Node) : Prop :=
  ∃ (env : Env) (fromNode : Bool) (node₁ : Node) (pblock : CBlock) (value : ReturnValue),
    env.prims = env₀.prims ∧ env.solver = env₀.solver ∧ SameBuffer node node₁ ∧
      condition env node₁ ∧
      processBlock env fromNode node₁ pblock = .ok (value, attempts, node')

theorem Attempt.IsChecked.of_env
    {env env' : Env} {attempt : Attempt} (h : attempt.IsChecked env)
    (hPrims : env'.prims = env.prims) (hSolver : env'.solver = env.solver) :
    attempt.IsChecked env' := by
  refine ⟨?_, h.2⟩
  have hSigned := h.1
  unfold CBlock.checkBlockSignature at hSigned ⊢
  rw [hPrims, hSolver]
  exact hSigned

/-- In a run from a blank array in which every block that comes in satisfies the rules
together with the blocks in the array, every block added to the best chain was signed
and had an unseen stake. -/
theorem added_isChecked
    (env₀ : Env) {node₀ node : Node} {attempts : List Attempt}
    (hStart : node₀.blockChecker = BlockChecker.blank)
    (hRun : Trace (Processes env₀ AdmitsReceived) node₀ attempts node) :
    ∀ attempt ∈ attempts, attempt.MovesTip → attempt.IsChecked env₀ := by
  have hInv : node.Admits env₀ ∧
      ∀ attempt ∈ attempts, attempt.MovesTip → attempt.IsChecked env₀ := by
    refine Trace.invariant (I := fun attempts node => node.Admits env₀ ∧
      ∀ attempt ∈ attempts, attempt.MovesTip → attempt.IsChecked env₀) ?_ ?_ hRun
    · refine ⟨Admits.of_blank env₀ node₀.chain fun block hMem => ?_, by simp⟩
      rw [hStart] at hMem
      exact BlockChecker.mem_blank hMem
    · rintro attempts node new node' ⟨hAdmits, hAll⟩
        ⟨env, fromNode, node₁, pblock, value, hPrims, hSolver, hSame, hReceived, hProcess⟩
      have hBefore : node₁.Admits env := by
        unfold Node.Admits
        rw [hSame.blockChecker]
        exact (Admits.of_chain hAdmits hSame.mapBlockIndex hSame.setStakeSeen).of_env hPrims
          hSolver
      obtain ⟨hAfter, hNew⟩ := processBlock_admits hBefore hReceived hProcess
      refine ⟨hAfter.of_env hPrims.symm hSolver.symm, fun attempt hMem hMoves => ?_⟩
      rcases List.mem_append.mp hMem with hOld | hAdded
      · exact hAll attempt hOld hMoves
      · exact (hNew attempt hAdded hMoves).of_env hPrims.symm hSolver.symm
  exact hInv.2

/-! ## Two blocks from a peer -/

namespace Sample

/-- A node that has received nothing. -/
def freshNode : Node where
  chain := nodeWith []
  blockChecker := BlockChecker.blank
  blockCheckerArray := false
  bufferEntries := 0
  synchCheck := 0
  lastKnownBlockHeight := 0
  blockToCheck := CBlock.blank

/-- A block message. -/
def receive (node : Node) (block : CBlock) : Checked (ReturnValue × List Attempt × Node) :=
  processBlock (env 900) true { node with blockToCheck := block } block

def attemptsOn (node : Node) (block : CBlock) : List Attempt :=
  match receive node block with
  | .ok (_, attempts, _) => attempts
  | .error _ => []

def afterReceipt (node : Node) (block : CBlock) : Node :=
  match receive node block with
  | .ok (_, _, node') => node'
  | .error _ => node

theorem processes_receive
    {condition : Env → Node → Prop} {node : Node} {block : CBlock}
    (hCondition : condition (env 900) { node with blockToCheck := block })
    (h : (receive node block).isOk = true) :
    Processes (env 900) condition node (attemptsOn node block) (afterReceipt node block) := by
  unfold attemptsOn afterReceipt
  cases hRun : receive node block with
  | error fault => simp [hRun, Except.isOk, Except.toBool] at h
  | ok out =>
      obtain ⟨value, attempts, node'⟩ := out
      exact ⟨env 900, true, { node with blockToCheck := block }, block, value, rfl, rfl,
        ⟨rfl, rfl, rfl⟩, hCondition, hRun⟩

/-- A proof-of-work block that has a signature. -/
def missigned : CBlock :=
  { sealed 500 1000 [coinbase 1000 11 100] with vchBlockSig := [1] }

/-- A block on top of it, whose arrival fills the array. -/
def follower : CBlock := sealed (missigned.getHash prims) 1000 [coinbase 1000 12 100]

def missignedStored : Node := afterReceipt freshNode missigned

theorem missigned_moves_tip :
    Trace (Processes (env 900) fun _ _ => True) freshNode
        ([] ++ attemptsOn freshNode missigned ++ attemptsOn missignedStored follower)
        (afterReceipt missignedStored follower) ∧
      freshNode.blockChecker = BlockChecker.blank ∧
      ∃ attempt ∈ [] ++ attemptsOn freshNode missigned ++ attemptsOn missignedStored follower,
        attempt.MovesTip ∧ ¬attempt.IsChecked (env 900) := by
  refine ⟨?_, rfl, ?_⟩
  · have hFirst : Processes (env 900) (fun _ _ => True) freshNode
        (attemptsOn freshNode missigned) missignedStored :=
      processes_receive trivial (by decide +kernel)
    have hSecond : Processes (env 900) (fun _ _ => True) missignedStored
        (attemptsOn missignedStored follower) (afterReceipt missignedStored follower) :=
      processes_receive trivial (by decide +kernel)
    exact (Trace.start.next hFirst).next hSecond
  · have hBad : (([] ++ attemptsOn freshNode missigned ++ attemptsOn missignedStored follower).any
        fun attempt => decide (attempt.after.pindexBest ≠ attempt.before.pindexBest) &&
          !attempt.block.checkBlockSignature (env 900)) = true := by
      decide +kernel
    obtain ⟨attempt, hMem, hAttempt⟩ := List.any_eq_true.mp hBad
    simp only [Bool.and_eq_true, decide_eq_true_eq, Bool.not_eq_true'] at hAttempt
    refine ⟨attempt, hMem, hAttempt.1, fun hChecked => ?_⟩
    exact absurd (hAttempt.2.symm.trans hChecked.1) (by decide)

/-- The same two blocks without a signature. -/
def unsigned : CBlock := sealed 500 1000 [coinbase 1000 11 100]

def unsignedFollower : CBlock := sealed (unsigned.getHash prims) 1000 [coinbase 1000 12 100]

def unsignedStored : Node := afterReceipt freshNode unsigned

theorem unsigned_isChecked :
    ∃ attempt ∈ [] ++ attemptsOn freshNode unsigned ++
        attemptsOn unsignedStored unsignedFollower,
      attempt.MovesTip ∧ attempt.IsChecked (env 900) := by
  have hFirst : Processes (env 900) AdmitsReceived freshNode
      (attemptsOn freshNode unsigned) unsignedStored := by
    refine processes_receive ?_ (by decide +kernel)
    constructor <;> decide +kernel
  have hSecond : Processes (env 900) AdmitsReceived unsignedStored
      (attemptsOn unsignedStored unsignedFollower)
      (afterReceipt unsignedStored unsignedFollower) := by
    refine processes_receive ?_ (by decide +kernel)
    constructor <;> decide +kernel
  have hAdds : (([] ++ attemptsOn freshNode unsigned ++
      attemptsOn unsignedStored unsignedFollower).any fun attempt =>
        decide attempt.MovesTip) = true := by
    decide +kernel
  obtain ⟨attempt, hMem, hMoves⟩ := List.any_eq_true.mp hAdds
  have hTip : attempt.MovesTip := of_decide_eq_true hMoves
  exact ⟨attempt, hMem, hTip, added_isChecked (env 900) rfl
    ((Trace.start.next hFirst).next hSecond) attempt hMem hTip⟩

end Sample

end SocietyGold
