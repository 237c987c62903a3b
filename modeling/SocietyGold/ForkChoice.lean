import SocietyGold.IndexAtomicity
import SocietyGold.Support.FirstChild

/-!
# Fork choice

`AcceptBlock`, `AddToBlockIndex` and `SetBestChain` each refuse a block whose
previous block is not the tip, so competing branches are not compared by their
trust: the first delivered successor of the tip becomes the new tip, and its
competitors are refused for good.
-/

namespace SocietyGold

open Support

section Delivery

variable {env : Env} {fromNode : Bool} {st st' : ChainState} {block : CBlock}

/-- The chain of the block would have more trust than the best chain. -/
def HeavierThanTip (env : Env) (st : ChainState) (block : CBlock) : Prop :=
  HasMoreTrust env st block 0 0 0

instance : Decidable (HeavierThanTip env st block) := inferInstanceAs (Decidable (_ < _))

/-- The trust of a new entry does not depend on where the block is on disk. -/
theorem nChainTrust_newIndexEntry
    (env : Env) (st : ChainState) (block : CBlock) (nFile nBlockPos hashProof : ℕ) :
    (newIndexEntry env st block nFile nBlockPos hashProof).nChainTrust =
      (newIndexEntry env st block 0 0 0).nChainTrust := by
  unfold newIndexEntry
  cases st.mapBlockIndex.lookup block.hashPrevBlock <;> rfl

/-- The tip is in the block index, with the trust of the best chain. -/
structure TipEntered (st : ChainState) : Prop where
  pindexBest : st.pindexBest = some st.hashBestChain
  trust : (st.mapBlockIndex.lookup st.hashBestChain).map CBlockIndex.nChainTrust =
    some st.nBestChainTrust

/-- An accepted block with more trust is the new tip, and its entry is the only new
one. -/
theorem acceptBlock_newTip
    (h : acceptBlock env fromNode st block = .ok (.ok (), st'))
    (hHeavier : HeavierThanTip env st block) :
    st'.pindexBest = some (block.getHash env.prims) ∧
      st'.hashBestChain = block.getHash env.prims ∧
      st.nBestChainTrust < st'.nBestChainTrust ∧
      ∀ k, (st'.mapBlockIndex.lookup k).map CBlockIndex.nChainTrust =
        if k = block.getHash env.prims then some st'.nBestChainTrust
        else (st.mapBlockIndex.lookup k).map CBlockIndex.nChainTrust := by
  obtain ⟨nFile, nBlockPos, hashProof, st₁, hWrite, hAdd⟩ := addToBlockIndex_of_accepted h
  rw [writeToDisk_frame hWrite] at hAdd
  rcases addToBlockIndex_spec isTreeView_place hAdd with
    ⟨-, hFalse, -⟩ | ⟨-, -, hEntries, -, -, hTip⟩
  · cases hFalse
  · have hTrust := nChainTrust_newIndexEntry env st block nFile nBlockPos hashProof
    have hMore : HasMoreTrust env st block nFile nBlockPos hashProof := by
      unfold HasMoreTrust
      rw [hTrust]
      exact hHeavier
    obtain ⟨hBest, hHash, hBestTrust⟩ := hTip rfl hMore
    refine ⟨hBest, hHash, hBestTrust ▸ hMore, fun k => ?_⟩
    have hEntry := congrArg (Option.map Prod.snd) (hEntries k)
    simp only [Option.map_map] at hEntry
    refine hEntry.trans ?_
    by_cases hk : k = block.getHash env.prims
    · rw [if_pos hk, if_pos hk, hBestTrust]
      rfl
    · rw [if_neg hk, if_neg hk]
      exact Option.map_map _ _ _

end Delivery

/-! ## Runs -/

/-- A delivery: other code may change anything but the index and the tip, then
`AcceptBlock` is called and returns.  The block is valid on its own: on top of the tip
it is accepted, and it makes a heavier chain. -/
def Delivers (prims : Primitives) (st : ChainState) (blocks : List CBlock)
    (st' : ChainState) : Prop :=
  ∃ (env : Env) (fromNode : Bool) (st₁ : ChainState) (block : CBlock) (verdict : Verdict),
    env.prims = prims ∧ SameChain st st₁ ∧ st₁.nBestChainTrust = st.nBestChainTrust ∧
      blocks = [block] ∧ acceptBlock env fromNode st₁ block = .ok (verdict, st') ∧
      (block.hashPrevBlock = st₁.hashBestChain →
        verdict = .ok () ∧ HeavierThanTip env st₁ block)

def CBlock.prevHash (block : CBlock) : ℕ := block.hashPrevBlock

/-- The tip that a list of delivered blocks leads to. -/
def deliveredTip (prims : Primitives) (tip : ℕ) (blocks : List CBlock) : ℕ :=
  FirstChild.walk CBlock.prevHash (CBlock.getHash prims) tip blocks

/-- The tip is where the deliveries lead, and no block entered since the start has
more trust. -/
structure FollowsDeliveries (prims : Primitives) (st₀ : ChainState) (blocks : List CBlock)
    (st : ChainState) : Prop where
  entered : TipEntered st
  tip : st.hashBestChain = deliveredTip prims st₀.hashBestChain blocks
  heaviest : ∀ k, k ∉ st₀.mapBlockIndex → ∀ nChainTrust,
    (st.mapBlockIndex.lookup k).map CBlockIndex.nChainTrust = some nChainTrust →
      nChainTrust ≤ st.nBestChainTrust

theorem FollowsDeliveries.step
    {prims : Primitives} {st₀ st st' : ChainState} {blocks new : List CBlock}
    (hFollows : FollowsDeliveries prims st₀ blocks st) (hStep : Delivers prims st new st') :
    FollowsDeliveries prims st₀ (blocks ++ new) st' := by
  obtain ⟨env, fromNode, st₁, block, verdict, rfl, hSame, hTrust, rfl, hAccept, hValid⟩ := hStep
  have hWalk : deliveredTip env.prims st₀.hashBestChain (blocks ++ [block]) =
      if block.hashPrevBlock = st₁.hashBestChain then block.getHash env.prims
      else st₁.hashBestChain := by
    unfold deliveredTip
    rw [FirstChild.walk_append, hSame.hashBestChain, hFollows.tip]
    rfl
  by_cases hExtends : block.hashPrevBlock = st₁.hashBestChain
  · obtain ⟨rfl, hHeavier⟩ := hValid hExtends
    obtain ⟨hBest, hHash, hMore, hEntries⟩ := acceptBlock_newTip hAccept hHeavier
    constructor
    · exact ⟨by rw [hBest, hHash], by rw [hHash, hEntries, if_pos rfl]⟩
    · rw [hWalk, if_pos hExtends, hHash]
    · intro k hNew nChainTrust hEntry
      rw [hEntries] at hEntry
      by_cases hk : k = block.getHash env.prims
      · rw [if_pos hk] at hEntry
        exact (Option.some.inj hEntry).ge
      · rw [if_neg hk, hSame.mapBlockIndex] at hEntry
        have hOld := hFollows.heaviest k hNew nChainTrust hEntry
        exact (hOld.trans hTrust.ge).trans hMore.le
  · obtain ⟨rfl, -⟩ := acceptBlock_of_not_extends hExtends hAccept
    constructor
    · constructor
      · rw [hSame.pindexBest, hSame.hashBestChain]
        exact hFollows.entered.pindexBest
      · rw [hSame.mapBlockIndex, hSame.hashBestChain, hTrust]
        exact hFollows.entered.trust
    · rw [hWalk, if_neg hExtends]
    · intro k hNew nChainTrust hEntry
      rw [hSame.mapBlockIndex] at hEntry
      rw [hTrust]
      exact hFollows.heaviest k hNew nChainTrust hEntry

theorem followsDeliveries
    {prims : Primitives} {st₀ st : ChainState} {blocks : List CBlock} (hTip : TipEntered st₀)
    (hRun : Trace (Delivers prims) st₀ blocks st) : FollowsDeliveries prims st₀ blocks st := by
  refine Trace.invariant (I := fun blocks st => FollowsDeliveries prims st₀ blocks st) ?_ ?_ hRun
  · refine ⟨hTip, rfl, fun k hNew nChainTrust hEntry => ?_⟩
    rw [Table.not_mem_iff_lookup.mp hNew] at hEntry
    cases hEntry
  · intro blocks s new s' hInv hStep
    exact hInv.step hStep

namespace Sample

/-- The state after a delivery. -/
def delivered (st : ChainState) (block : CBlock) : ChainState :=
  match acceptBlock (env 900) true st block with
  | .ok (_, st') => st'
  | .error _ => st

theorem delivers_delivered
    {st : ChainState} {block : CBlock} (verdict : Verdict)
    (h : (acceptBlock (env 900) true st block).map Prod.fst = .ok verdict)
    (hValid : block.hashPrevBlock = st.hashBestChain →
      verdict = .ok () ∧ HeavierThanTip (env 900) st block) :
    Delivers prims st [block] (delivered st block) := by
  refine ⟨env 900, true, st, block, verdict, rfl, ⟨rfl, rfl, rfl⟩, rfl, rfl, ?_, hValid⟩
  unfold delivered
  cases hRun : acceptBlock (env 900) true st block with
  | error fault => simp [hRun, Except.map] at h
  | ok out =>
      obtain ⟨verdict', st'⟩ := out
      simpa [hRun, Except.map] using h

def left : CBlock := sealed 500 1000 [coinbase 1000 11 100]

def right : CBlock := sealed 500 1000 [coinbase 1000 11 99]

def rightChild : CBlock := sealed (right.getHash prims) 1000 [coinbase 1000 12 99]

def afterLeft : ChainState := delivered (nodeWith []) left

def afterRight : ChainState := delivered (nodeWith []) right

def afterRightChild : ChainState := delivered afterRight rightChild

/-- The left block first: its competitor and the heavier chain on it are refused. -/
def leftFirst : ChainState := delivered (delivered afterLeft right) rightChild

/-- The right blocks first: the left one is refused. -/
def rightFirst : ChainState := delivered afterRightChild left

theorem delivers_blocks :
    Delivers prims (nodeWith []) [left] afterLeft ∧
      Delivers prims (nodeWith []) [right] afterRight ∧
      Delivers prims afterRight [rightChild] afterRightChild ∧
      Delivers prims afterRightChild [left] rightFirst ∧
      Delivers prims afterRight [left] (delivered afterRight left) ∧
      Delivers prims (delivered afterRight left) [rightChild]
        (delivered (delivered afterRight left) rightChild) := by
  refine ⟨delivers_delivered (.ok ()) ?_ ?_, delivers_delivered (.ok ()) ?_ ?_,
    delivers_delivered (.ok ()) ?_ ?_, delivers_delivered (.error ⟨0, ""⟩) ?_ ?_,
    delivers_delivered (.error ⟨0, ""⟩) ?_ ?_, delivers_delivered (.ok ()) ?_ ?_⟩
  all_goals decide +kernel

theorem delivers_left : Delivers prims (nodeWith []) [left] afterLeft := delivers_blocks.1

theorem delivers_right : Delivers prims (nodeWith []) [right] afterRight := delivers_blocks.2.1

theorem delivers_rightChild : Delivers prims afterRight [rightChild] afterRightChild :=
  delivers_blocks.2.2.1

theorem trace_rightFirst :
    Trace (Delivers prims) (nodeWith []) [right, rightChild, left] rightFirst :=
  ((Trace.start.next delivers_right).next delivers_rightChild).next delivers_blocks.2.2.2.1

theorem trace_rightFirst' :
    Trace (Delivers prims) (nodeWith []) [right, left, rightChild]
      (delivered (delivered afterRight left) rightChild) :=
  ((Trace.start.next delivers_right).next delivers_blocks.2.2.2.2.1).next
    delivers_blocks.2.2.2.2.2

end Sample

end SocietyGold
