import SocietyGold.AcceptBlock
import SocietyGold.TipChange
import SocietyGold.Support.Trace

/-!
# Failures of AddToBlockIndex

`AddToBlockIndex` inserts the new entry and its stake before the two commits that
may still fail, and takes neither back.  An entry also stays off the best chain
when its chain has no more trust than the tip.
-/

namespace SocietyGold

open Support

/-! ## The outcome of AddToBlockIndex -/

section Outcome

variable {env : Env} {fromNode : Bool} {st st' : ChainState} {block : CBlock}
  {nFile nBlockPos hashProof : ℕ}

/-- `AddToBlockIndex` refuses a block before it inserts anything: the block is known
already, does not extend the tip, or has no stake modifier. -/
def RefusesEntry (env : Env) (st : ChainState) (block : CBlock)
    (nFile nBlockPos hashProof : ℕ) : Prop :=
  block.getHash env.prims ∈ st.mapBlockIndex ∨ block.hashPrevBlock ≠ st.hashBestChain ∨
    computeNextStakeModifier env st
      (st.entry (newIndexEntry env st block nFile nBlockPos hashProof).pprev) = none

theorem not_refusesEntry
    (h : ¬RefusesEntry env st block nFile nBlockPos hashProof) :
    block.getHash env.prims ∉ st.mapBlockIndex ∧ block.hashPrevBlock = st.hashBestChain := by
  constructor
  · intro hMem
    exact h (Or.inl hMem)
  · by_contra hNot
    exact h (Or.inr (Or.inl hNot))

/-- The chain of the new entry has more trust than the best chain. -/
def HasMoreTrust (env : Env) (st : ChainState) (block : CBlock)
    (nFile nBlockPos hashProof : ℕ) : Prop :=
  st.nBestChainTrust < (newIndexEntry env st block nFile nBlockPos hashProof).nChainTrust

/-- The previous block of a new entry is the one the block names, if it is known. -/
theorem pprev_newIndexEntry :
    (newIndexEntry env st block nFile nBlockPos hashProof).pprev =
      if block.hashPrevBlock ∈ st.mapBlockIndex then some block.hashPrevBlock else none := by
  unfold newIndexEntry
  cases hPrev : st.mapBlockIndex.lookup block.hashPrevBlock with
  | none =>
      have hNot : block.hashPrevBlock ∉ st.mapBlockIndex := Table.not_mem_iff_lookup.mpr hPrev
      simp only [if_neg hNot]
      rfl
  | some pprev =>
      have hMem : block.hashPrevBlock ∈ st.mapBlockIndex := Table.mem_iff_lookup.mpr ⟨_, hPrev⟩
      simp only [if_pos hMem]

theorem phashBlock_newIndexEntry
    (env : Env) (st : ChainState) (block : CBlock) (nFile nBlockPos hashProof : ℕ) :
    (newIndexEntry env st block nFile nBlockPos hashProof).phashBlock =
      block.getHash env.prims := by
  unfold newIndexEntry
  cases st.mapBlockIndex.lookup block.hashPrevBlock <;> rfl

/-- The flags set later leave the bit for proof-of-stake alone. -/
theorem isProofOfStake_newIndexEntry
    (env : Env) (st : ChainState) (block : CBlock) (nFile nBlockPos hashProof nModifier : ℕ)
    (fGenerated : Bool) :
    ((newIndexEntry env st block nFile nBlockPos hashProof).setStakeModifier nModifier
      fGenerated).isProofOfStake = block.isProofOfStake := by
  have hFlags : (newIndexEntry env st block nFile nBlockPos hashProof).nFlags =
      (if block.isProofOfStake then 2 ^ BLOCK_PROOF_OF_STAKE else 0) |||
        (block.getHash env.prims % 2) * 2 ^ BLOCK_STAKE_ENTROPY := by
    unfold newIndexEntry
    cases st.mapBlockIndex.lookup block.hashPrevBlock <;> rfl
  unfold CBlockIndex.isProofOfStake CBlockIndex.setStakeModifier
  rw [hFlags]
  cases block.isProofOfStake with
  | true => simp [BLOCK_PROOF_OF_STAKE, BLOCK_STAKE_ENTROPY, BLOCK_STAKE_MODIFIER]
  | false =>
      simp only [BLOCK_PROOF_OF_STAKE, BLOCK_STAKE_ENTROPY, BLOCK_STAKE_MODIFIER]
      simp
      omega

theorem stake_newIndexEntry
    (env : Env) (st : ChainState) (block : CBlock) (nFile nBlockPos hashProof : ℕ) :
    ((newIndexEntry env st block nFile nBlockPos hashProof).prevoutStake,
      (newIndexEntry env st block nFile nBlockPos hashProof).nStakeTime) =
      block.getProofOfStake := by
  unfold newIndexEntry
  cases st.mapBlockIndex.lookup block.hashPrevBlock <;> rfl

/-- The stakes that have been seen once the block is entered. -/
def stakesWith (block : CBlock) (setStakeSeen : Finset Stake) : Finset Stake :=
  if block.isProofOfStake then insert block.getProofOfStake setStakeSeen else setStakeSeen

theorem notifyTip_eq_ok
    {pindexNew : CBlockIndex} {out : Outcome} (h : notifyTip st block pindexNew = .ok out) :
    out = (true, st) := by
  unfold notifyTip at h
  split_ifs at h
  · simp only [bind_eq_ok, Except.ok.injEq] at h
    obtain ⟨-, -, rfl⟩ := h
    rfl
  · simpa [eq_comm] using h

section Views

variable {β : Type} {view : CBlockIndex → β}

/-- The part of `AddToBlockIndex` after the insertion: it succeeds exactly when the
commits it gets to succeed, and keeps the entries either way. -/
theorem writeNewEntry_spec
    (hView : IsTreeView view) (st : ChainState) {pindexNew : CBlockIndex} {added : Bool}
    (hExtends : block.hashPrevBlock = st.hashBestChain)
    (hEntry : st.mapBlockIndex.lookup pindexNew.phashBlock = some pindexNew)
    (h : writeNewEntry env st block pindexNew = .ok (added, st')) :
    (added = true ↔ st.txdb.nextWriteOk = true ∧
        (pindexNew.nChainTrust ≤ st.nBestChainTrust ∨ st.txdb.secondWriteOk = true)) ∧
      SameViews view st st' ∧ st'.setStakeSeen = st.setStakeSeen ∧
      (added = false ∨ pindexNew.nChainTrust ≤ st.nBestChainTrust →
        st'.pindexBest = st.pindexBest ∧ st'.hashBestChain = st.hashBestChain) ∧
      (added = true → st.nBestChainTrust < pindexNew.nChainTrust →
        st'.pindexBest = some pindexNew.phashBlock ∧
          st'.hashBestChain = block.getHash env.prims ∧
          st'.nBestChainTrust = pindexNew.nChainTrust) := by
  unfold writeNewEntry at h
  rw [bind_eq_ok] at h
  obtain ⟨txdb, hBegin, h⟩ := h
  have hStaged : BatchStore.StagedFrom st.txdb
      (CTxDB.writeBlockIndex txdb env.prims (CDiskBlockIndex.ofIndex pindexNew)).2 :=
    (BatchStore.stagedFrom_txnBegin hBegin).update _ _
  obtain ⟨txdb', hCommit, hSecond, -⟩ := hStaged.commit
  simp only [hCommit, ok_bind] at h
  cases hOk : st.txdb.nextWriteOk with
  | false =>
      rw [hOk] at h
      cases h
      exact ⟨by simp, SameViews.refl st, rfl, fun _ => ⟨rfl, rfl⟩, by simp⟩
  | true =>
      rw [hOk] at h
      simp only [Bool.not_true, Bool.false_eq_true, if_false] at h
      by_cases hTrust : pindexNew.nChainTrust > st.nBestChainTrust
      · rw [if_pos hTrust, bind_eq_ok] at h
        obtain ⟨⟨best, st₁⟩, hBest, h⟩ := h
        obtain ⟨hDone, -, hViews, hSeen, hKept, hTip⟩ := setBestChain_spec
          (st.withTxdb txdb') hView hExtends hEntry hBest
        rw [ChainState.txdb_withTxdb, hSecond] at hDone
        subst hDone
        have hNotLe : ¬pindexNew.nChainTrust ≤ st.nBestChainTrust := not_le.mpr hTrust
        cases hOk' : st.txdb.secondWriteOk with
        | false =>
            rw [hOk'] at h hKept
            cases h
            exact ⟨by simp [hNotLe], hViews, hSeen, fun _ => hKept rfl, by simp⟩
        | true =>
            rw [hOk'] at h hTip
            cases notifyTip_eq_ok h
            exact ⟨by simp, hViews, hSeen, by simp [hNotLe], fun _ _ => hTip rfl⟩
      · rw [if_neg hTrust] at h
        cases notifyTip_eq_ok h
        exact ⟨by simp [not_lt.mp hTrust], SameViews.refl st, rfl, fun _ => ⟨rfl, rfl⟩,
          fun _ hMore => absurd hMore hTrust⟩

/-- `AddToBlockIndex` by its outcome: either it refuses the block and changes
nothing, or the entry is in the index whatever happens after. -/
theorem addToBlockIndex_spec
    (hView : IsTreeView view) {added : Bool}
    (h : addToBlockIndex env fromNode st block nFile nBlockPos hashProof = .ok (added, st')) :
    (RefusesEntry env st block nFile nBlockPos hashProof ∧ added = false ∧ st' = st) ∨
    (¬RefusesEntry env st block nFile nBlockPos hashProof ∧
      (added = true ↔ st.txdb.nextWriteOk = true ∧
        (¬HasMoreTrust env st block nFile nBlockPos hashProof ∨
          st.txdb.secondWriteOk = true)) ∧
      (∀ k, (st'.mapBlockIndex.lookup k).map view =
        if k = block.getHash env.prims then
          some (view (newIndexEntry env st block nFile nBlockPos hashProof))
        else (st.mapBlockIndex.lookup k).map view) ∧
      st'.setStakeSeen = stakesWith block st.setStakeSeen ∧
      (added = false ∨ ¬HasMoreTrust env st block nFile nBlockPos hashProof →
        st'.pindexBest = st.pindexBest ∧ st'.hashBestChain = st.hashBestChain) ∧
      (added = true → HasMoreTrust env st block nFile nBlockPos hashProof →
        st'.pindexBest = some (block.getHash env.prims) ∧
          st'.hashBestChain = block.getHash env.prims ∧
          st'.nBestChainTrust =
            (newIndexEntry env st block nFile nBlockPos hashProof).nChainTrust)) := by
  unfold addToBlockIndex at h
  unfold RefusesEntry HasMoreTrust
  by_cases hKnown : block.getHash env.prims ∈ st.mapBlockIndex
  · left
    simp only [hKnown, if_true, Except.ok.injEq, Prod.mk.injEq] at h
    exact ⟨Or.inl hKnown, h.1.symm, h.2.symm⟩
  · simp only [hKnown, if_false] at h
    by_cases hExtends : block.hashPrevBlock = st.hashBestChain
    · simp only [hExtends, ne_eq, not_true_eq_false, if_false] at h
      cases hModifier : computeNextStakeModifier env st
          (st.entry (newIndexEntry env st block nFile nBlockPos hashProof).pprev) with
      | none =>
          left
          simp only [hModifier, Except.ok.injEq, Prod.mk.injEq] at h
          exact ⟨Or.inr (Or.inr rfl), h.1.symm, h.2.symm⟩
      | some modifier =>
          right
          obtain ⟨nStakeModifier, fGenerated⟩ := modifier
          simp only [hModifier] at h
          set pindexNew := (newIndexEntry env st block nFile nBlockPos hashProof).setStakeModifier
            nStakeModifier fGenerated with hNew
          have hHash : pindexNew.phashBlock = block.getHash env.prims :=
            phashBlock_newIndexEntry env st block nFile nBlockPos hashProof
          have hMap : (insertEntry st (block.getHash env.prims) pindexNew).mapBlockIndex =
              st.mapBlockIndex.insert (block.getHash env.prims) pindexNew := by
            simp [insertEntry, hKnown]
          obtain ⟨hAdded, hViews, hSeen, hKept, hTip⟩ := writeNewEntry_spec hView
            (insertEntry st (block.getHash env.prims) pindexNew) hExtends
            (by rw [hHash, hMap]; simp) h
          refine ⟨by simp [hKnown, hExtends], ?_, fun k => (hViews k).trans ?_, ?_, ?_, ?_⟩
          · rw [hAdded, not_lt]
            rfl
          · rw [hMap, Table.lookup_insert_ite]
            split_ifs
            · rw [hNew, Option.map_some, hView.setStakeModifier]
            · rfl
          · rw [hSeen, insertEntry, stakesWith, hNew, isProofOfStake_newIndexEntry,
              ← stake_newIndexEntry env st block nFile nBlockPos hashProof]
            rfl
          · rw [not_lt]
            exact hKept
          · intro hTrue hMore
            rw [← hHash]
            obtain ⟨hBest, hHashBest, hTrust⟩ := hTip hTrue hMore
            exact ⟨hBest, hHashBest.trans hHash.symm, hTrust⟩
    · left
      simp only [hExtends, ne_eq, not_false_eq_true, if_true, bind_eq_ok] at h
      obtain ⟨-, -, h⟩ := h
      cases fromNode with
      | true =>
          simp only [if_true, Except.ok.injEq, Prod.mk.injEq] at h
          exact ⟨Or.inr (Or.inl hExtends), h.1.symm, h.2.symm⟩
      | false => simp at h

end Views

/-- After a call that does not refuse the block, the entry is in the index. -/
theorem hash_mem_of_inserted
    {k : ℕ} {place : Option ℕ × ℕ}
    (h : (st'.mapBlockIndex.lookup k).map CBlockIndex.place = some place) :
    k ∈ st'.mapBlockIndex := by
  obtain ⟨pindex, hLookup, -⟩ := Option.map_eq_some_iff.mp h
  exact Table.mem_iff_lookup.mpr ⟨pindex, hLookup⟩

end Outcome

/-! ## Failure without a trace -/

/-- A call that returns false leaves the entries and the stakes as they were. -/
def CleanFailure (st : ChainState) (added : Bool) (st' : ChainState) : Prop :=
  added = false → st'.mapBlockIndex = st.mapBlockIndex ∧ st'.setStakeSeen = st.setStakeSeen

/-- The call refuses the block at once, or every commit it gets to succeeds. -/
def FailsBeforeInsertion (env : Env) (st : ChainState) (block : CBlock)
    (nFile nBlockPos hashProof : ℕ) : Prop :=
  RefusesEntry env st block nFile nBlockPos hashProof ∨
    st.txdb.nextWriteOk = true ∧
      (¬HasMoreTrust env st block nFile nBlockPos hashProof ∨ st.txdb.secondWriteOk = true)

theorem cleanFailure_iff
    {env : Env} {fromNode : Bool} {st st' : ChainState} {block : CBlock}
    {nFile nBlockPos hashProof : ℕ} {added : Bool}
    (h : addToBlockIndex env fromNode st block nFile nBlockPos hashProof = .ok (added, st')) :
    CleanFailure st added st' ↔
      FailsBeforeInsertion env st block nFile nBlockPos hashProof := by
  unfold CleanFailure FailsBeforeInsertion
  rcases addToBlockIndex_spec isTreeView_place h with
    ⟨hRefuses, hAdded, rfl⟩ | ⟨hNotRefused, hAdded, hEntries, -, -, -⟩
  · exact iff_of_true (fun _ => ⟨rfl, rfl⟩) (Or.inl hRefuses)
  · rw [or_iff_right hNotRefused, ← hAdded]
    constructor
    · intro hClean
      by_contra hNot
      have hMap := (hClean (by simpa using hNot)).1
      have hMem : block.getHash env.prims ∈ st'.mapBlockIndex :=
        hash_mem_of_inserted ((hEntries _).trans (if_pos rfl))
      exact hNotRefused (Or.inl (hMap ▸ hMem))
    · intro hTrue hFalse
      exact absurd (hTrue.symm.trans hFalse) (by decide)

/-! ## Entries off the best chain -/

/-- The blocks met by following `pprev` from the tip. -/
inductive OnBestChain (st : ChainState) : ℕ → Prop
  | tip {hash : ℕ} (h : st.pindexBest = some hash) : OnBestChain st hash
  | pprev {hash prev : ℕ} {pindex : CBlockIndex} (hOn : OnBestChain st hash)
      (hEntry : st.mapBlockIndex.lookup hash = some pindex)
      (hPrev : pindex.pprev = some prev) : OnBestChain st prev

/-- The tip is in the block index under its hash, and so is nothing off the best
chain; or there is no block at all. -/
def OneChain (st : ChainState) : Prop :=
  ((st.pindexBest = none ∧ ∀ k, k ∉ st.mapBlockIndex) ∨
    (st.pindexBest = some st.hashBestChain ∧ st.hashBestChain ∈ st.mapBlockIndex)) ∧
  ∀ k ∈ st.mapBlockIndex, OnBestChain st k

/-- `OneChain` depends on the index and the tip alone. -/
structure SameChain (st st' : ChainState) : Prop where
  mapBlockIndex : st'.mapBlockIndex = st.mapBlockIndex
  pindexBest : st'.pindexBest = st.pindexBest
  hashBestChain : st'.hashBestChain = st.hashBestChain

theorem SameChain.onBestChain
    {st st' : ChainState} (h : SameChain st st') {k : ℕ} (hOn : OnBestChain st k) :
    OnBestChain st' k := by
  induction hOn with
  | tip hTip => exact .tip (h.pindexBest.trans hTip)
  | pprev _ hEntry hPrev ih => exact .pprev ih (by rw [h.mapBlockIndex]; exact hEntry) hPrev

theorem SameChain.oneChain
    {st st' : ChainState} (h : SameChain st st') (hOne : OneChain st) : OneChain st' := by
  obtain ⟨hTip, hAll⟩ := hOne
  constructor
  · rw [h.mapBlockIndex, h.pindexBest, h.hashBestChain]
    exact hTip
  · intro k hMem
    rw [h.mapBlockIndex] at hMem
    exact h.onBestChain (hAll k hMem)

/-- A new tip with the old one as its previous block keeps the old best chain. -/
theorem OnBestChain.of_newTip
    {st st' : ChainState} {hash k nChainTrust : ℕ}
    (hNew : hash ∉ st.mapBlockIndex)
    (hEntries : ∀ k, (st'.mapBlockIndex.lookup k).map CBlockIndex.place =
      if k = hash then some (st.pindexBest, nChainTrust)
      else (st.mapBlockIndex.lookup k).map CBlockIndex.place)
    (hTip : st'.pindexBest = some hash) (hOn : OnBestChain st k) : OnBestChain st' k := by
  induction hOn with
  | tip hOld =>
      have hEntry := (hEntries hash).trans (if_pos rfl)
      obtain ⟨pindex, hLookup, hPlace⟩ := Option.map_eq_some_iff.mp hEntry
      exact .pprev (.tip hTip) hLookup ((congrArg Prod.fst hPlace).trans hOld)
  | @pprev j prev pindex _ hEntry hPrev ih =>
      have hOther : j ≠ hash := by
        rintro rfl
        exact hNew (Table.mem_iff_lookup.mpr ⟨pindex, hEntry⟩)
      have hKept := (hEntries j).trans (if_neg hOther)
      rw [hEntry] at hKept
      obtain ⟨pindex', hLookup, hSame⟩ := Option.map_eq_some_iff.mp hKept
      exact .pprev ih hLookup ((congrArg Prod.fst hSame).trans hPrev)

/-- A step of a run: other code may change anything but the index and the tip, then
`AddToBlockIndex` is called and returns. -/
def AddStep (st : ChainState) (labels : List ℕ) (st' : ChainState) : Prop :=
  ∃ (env : Env) (fromNode : Bool) (st₁ : ChainState) (block : CBlock)
    (nFile nBlockPos hashProof : ℕ) (added : Bool),
    SameChain st st₁ ∧ labels = [block.getHash env.prims] ∧
      addToBlockIndex env fromNode st₁ block nFile nBlockPos hashProof = .ok (added, st') ∧
      (RefusesEntry env st₁ block nFile nBlockPos hashProof ∨
        st₁.txdb.nextWriteOk = true ∧ HasMoreTrust env st₁ block nFile nBlockPos hashProof ∧
          st₁.txdb.secondWriteOk = true)

theorem OneChain.of_addToBlockIndex
    {env : Env} {fromNode : Bool} {st st' : ChainState} {block : CBlock}
    {nFile nBlockPos hashProof : ℕ} {added : Bool} (hOne : OneChain st)
    (h : addToBlockIndex env fromNode st block nFile nBlockPos hashProof = .ok (added, st'))
    (hWrites : RefusesEntry env st block nFile nBlockPos hashProof ∨
      st.txdb.nextWriteOk = true ∧ HasMoreTrust env st block nFile nBlockPos hashProof ∧
        st.txdb.secondWriteOk = true) : OneChain st' := by
  rcases addToBlockIndex_spec isTreeView_place h with
    ⟨-, -, rfl⟩ | ⟨hNotRefused, hAdded, hEntries, -, -, hBest⟩
  · exact hOne
  · obtain ⟨hFirst, hTrust, hSecond⟩ := hWrites.resolve_left hNotRefused
    obtain ⟨hTip, hHash, -⟩ := hBest (hAdded.mpr ⟨hFirst, Or.inr hSecond⟩) hTrust
    obtain ⟨hNew, hExtends⟩ := not_refusesEntry hNotRefused
    -- the new entry hangs below the old tip, or below nothing
    have hPrev : (newIndexEntry env st block nFile nBlockPos hashProof).pprev =
        st.pindexBest := by
      rw [pprev_newIndexEntry, hExtends]
      rcases hOne.1 with ⟨hNone, hEmpty⟩ | ⟨hSome, hMem⟩
      · rw [if_neg (hEmpty _), hNone]
      · rw [if_pos hMem, hSome]
    rw [CBlockIndex.place, hPrev] at hEntries
    refine ⟨Or.inr ⟨hTip.trans (by rw [hHash]), ?_⟩, fun k hMem => ?_⟩
    · rw [hHash]
      exact hash_mem_of_inserted ((hEntries _).trans (if_pos rfl))
    · by_cases hk : k = block.getHash env.prims
      · exact .tip (hk ▸ hTip)
      · obtain ⟨pindex, hLookup⟩ := Table.mem_iff_lookup.mp hMem
        have hKept := (hEntries k).trans (if_neg hk)
        rw [hLookup] at hKept
        obtain ⟨old, hOld, -⟩ := Option.map_eq_some_iff.mp hKept.symm
        exact (hOne.2 k (Table.mem_iff_lookup.mpr ⟨old, hOld⟩)).of_newTip hNew hEntries hTip

theorem oneChain_of_empty
    {st : ChainState} (hTip : st.pindexBest = none) (hEmpty : ∀ k, k ∉ st.mapBlockIndex) :
    OneChain st :=
  ⟨Or.inl ⟨hTip, hEmpty⟩, fun k hMem => absurd hMem (hEmpty k)⟩

/-- `AddToBlockIndex` fails without a trace exactly when it refuses the block at once
or its commits succeed; and in a run from an empty index whose calls are refused at
once or make a heavier tip with both commits, no entry is off the best chain. -/
theorem addToBlockIndex_atomic_iff
    (env : Env) (fromNode : Bool) (st st' : ChainState) (block : CBlock)
    (nFile nBlockPos hashProof : ℕ) (added : Bool)
    (h : addToBlockIndex env fromNode st block nFile nBlockPos hashProof = .ok (added, st')) :
    (CleanFailure st added st' ↔ FailsBeforeInsertion env st block nFile nBlockPos hashProof) ∧
    ∀ (st₀ reached : ChainState) (labels : List ℕ), st₀.pindexBest = none →
      (∀ k, k ∉ st₀.mapBlockIndex) → Trace AddStep st₀ labels reached →
        ∀ k ∈ reached.mapBlockIndex, OnBestChain reached k := by
  constructor
  · exact cleanFailure_iff h
  · intro st₀ reached labels hTip hEmpty hRun
    have hOne : OneChain reached := by
      refine Trace.invariant (I := fun _ st => OneChain st) (oneChain_of_empty hTip hEmpty) ?_ hRun
      intro _ s _ s' hInv hStep
      obtain ⟨env, fromNode, st₁, block, nFile, nBlockPos, hashProof, added, hSame, -, hAdd,
        hWrites⟩ := hStep
      exact (hSame.oneChain hInv).of_addToBlockIndex hAdd hWrites
    exact hOne.2

/-! ## A commit that fails once -/

namespace Sample

/-- A node whose next physical write fails. -/
def failingNode : ChainState :=
  { nodeWith [] with txdb := { (nodeWith []).txdb with outcomes := [false] } }

def nextBlock : CBlock := sealed 500 1000 [coinbase 1000 11 100]

/-- The call fails, the entry stays off the best chain, and the same block is then
refused as already known. -/
theorem nextBlock_stays_after_failure :
    ∃ st', addToBlockIndex (env 900) true failingNode nextBlock 1 200 1 = .ok (false, st') ∧
      ¬CleanFailure failingNode false st' ∧
      (nextBlock.getHash prims ∈ st'.mapBlockIndex ∧ ¬OnBestChain st' (nextBlock.getHash prims)) ∧
      ∃ st'', acceptBlock (env 900) true st' nextBlock =
        .ok (.error ⟨0, "AcceptBlock() : block already in mapBlockIndex"⟩, st'') := by
  have hRun : (do
      let out ← addToBlockIndex (env 900) true failingNode nextBlock 1 200 1
      let again ← acceptBlock (env 900) true out.2 nextBlock
      .ok (out.1, out.2.pindexBest, (out.2.mapBlockIndex.lookup 500).map CBlockIndex.pprev,
        decide (nextBlock.getHash prims ∈ out.2.mapBlockIndex),
        decide (again.1 = .error ⟨0, "AcceptBlock() : block already in mapBlockIndex"⟩))) =
      (.ok (false, some 500, some none, true, true) :
        Checked (Bool × Option ℕ × Option (Option ℕ) × Bool × Bool)) := by
    decide +kernel
  simp only [bind_eq_ok, Except.ok.injEq, Prod.mk.injEq, decide_eq_true_eq] at hRun
  obtain ⟨⟨added, st'⟩, hAdd, ⟨verdict, st''⟩, hAgain, rfl, hTip, hRoot, hMem, rfl⟩ := hRun
  refine ⟨st', hAdd, ?_, ⟨hMem, ?_⟩, st'', hAgain⟩
  · intro hClean
    have hOld : nextBlock.getHash prims ∉ failingNode.mapBlockIndex := by decide +kernel
    exact hOld ((hClean rfl).1 ▸ hMem)
  · -- the best chain is the old tip alone
    have hOnly : ∀ k, OnBestChain st' k → k = 500 := by
      intro k hOn
      induction hOn with
      | tip h => exact (Option.some.inj (hTip.symm.trans h)).symm
      | pprev _ hEntry hPrev ih =>
          subst ih
          rw [hEntry] at hRoot
          simp [hPrev] at hRoot
    intro hOn
    exact absurd (hOnly _ hOn) (by decide +kernel)

/-- A first block, and the environment in which it is the genesis block. -/
def firstBlock : CBlock := sealed 0 1000 [coinbase 1000 0 100]

def firstEnv : Env := { env 900 with hashGenesisBlock := firstBlock.getHash prims }

/-- Entering the first block into an empty index meets the condition. -/
theorem firstBlock_onBestChain :
    ∃ st', addToBlockIndex firstEnv true emptyState firstBlock 1 200 1 = .ok (true, st') ∧
      CleanFailure emptyState true st' ∧ ∀ k ∈ st'.mapBlockIndex, OnBestChain st' k := by
  have hRun : (do
      let out ← addToBlockIndex firstEnv true emptyState firstBlock 1 200 1
      .ok out.1) = (.ok true : Checked Bool) := by
    decide +kernel
  simp only [bind_eq_ok, Except.ok.injEq] at hRun
  obtain ⟨⟨added, st'⟩, hAdd, rfl⟩ := hRun
  have hTrust : HasMoreTrust firstEnv emptyState firstBlock 1 200 1 := by
    unfold HasMoreTrust
    decide +kernel
  obtain ⟨hFailures, hRuns⟩ :=
    addToBlockIndex_atomic_iff firstEnv true emptyState st' firstBlock 1 200 1 true hAdd
  refine ⟨st', hAdd, ?_, ?_⟩
  · exact hFailures.mpr (Or.inr ⟨rfl, Or.inr rfl⟩)
  · refine hRuns emptyState st' ([] ++ [firstBlock.getHash prims]) rfl (by simp [emptyState]) ?_
    exact Trace.start.next ⟨firstEnv, true, emptyState, firstBlock, 1, 200, 1, true,
      ⟨rfl, rfl, rfl⟩, rfl, hAdd, Or.inr ⟨rfl, hTrust, rfl⟩⟩

end Sample

end SocietyGold
