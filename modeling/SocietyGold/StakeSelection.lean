import Mathlib.Data.List.TakeWhile
import SocietyGold.StakeModifier

/-!
# The selection rounds of the stake modifier

Each round of `ComputeNextStakeModifier` selects the best of the candidates that were not
selected before, up to its own stop time.  The stop time does not matter while nothing has
been found, so a round finds a block as long as a candidate is left, and there are never
more rounds than candidates.
-/

namespace SocietyGold

open Support

/-! ## Chains of index entries -/

/-- The entries from one back to the genesis block.  Each lies in the block index under its
hash and points to the next. -/
inductive IndexChain (st : ChainState) : List CBlockIndex → Prop
  | genesis {pindex : CBlockIndex}
      (hEntry : st.mapBlockIndex.lookup pindex.phashBlock = some pindex)
      (hPrev : pindex.pprev = none) : IndexChain st [pindex]
  | next {pindex pprev : CBlockIndex} {rest : List CBlockIndex}
      (hEntry : st.mapBlockIndex.lookup pindex.phashBlock = some pindex)
      (hPrev : pindex.pprev = some pprev.phashBlock) (hRest : IndexChain st (pprev :: rest)) :
      IndexChain st (pindex :: pprev :: rest)

section Chain

variable {st : ChainState} {chain : List CBlockIndex} {pindex : CBlockIndex}

theorem IndexChain.entry (h : IndexChain st chain) {pindex : CBlockIndex} (hMem : pindex ∈ chain) :
    st.mapBlockIndex.lookup pindex.phashBlock = some pindex := by
  induction h with
  | genesis hEntry hPrev =>
      rw [List.mem_singleton.mp hMem]
      exact hEntry
  | next hEntry hPrev hRest ih =>
      rcases List.mem_cons.mp hMem with rfl | hMem
      · exact hEntry
      · exact ih hMem

/-- Two chains from blocks with the same hash are the same. -/
theorem IndexChain.unique
    {pindex' : CBlockIndex} {rest rest' : List CBlockIndex}
    (h : IndexChain st (pindex :: rest)) (h' : IndexChain st (pindex' :: rest'))
    (hHash : pindex.phashBlock = pindex'.phashBlock) : pindex :: rest = pindex' :: rest' := by
  induction rest generalizing pindex pindex' rest' with
  | nil =>
      have hSame := h.entry List.mem_cons_self
      rw [hHash, h'.entry List.mem_cons_self] at hSame
      cases hSame
      cases h with
      | genesis _ hPrev =>
          cases h' with
          | genesis => rfl
          | next _ hPrev' _ =>
              rw [hPrev] at hPrev'
              cases hPrev'
  | cons pprev rest ih =>
      have hSame := h.entry List.mem_cons_self
      rw [hHash, h'.entry List.mem_cons_self] at hSame
      cases hSame
      cases h with
      | next _ hPrev hRest =>
          cases h' with
          | genesis _ hPrev' =>
              rw [hPrev] at hPrev'
              cases hPrev'
          | next _ hPrev' hRest' =>
              rw [hPrev, Option.some.injEq] at hPrev'
              rw [ih hRest hRest' hPrev']

theorem IndexChain.tail
    {pprev : CBlockIndex} {rest : List CBlockIndex} (h : IndexChain st (pindex :: pprev :: rest)) :
    IndexChain st (pprev :: rest) := by
  cases h with
  | next _ _ hRest => exact hRest

theorem IndexChain.of_append
    {above below : List CBlockIndex} (h : IndexChain st (above ++ pindex :: below)) :
    IndexChain st (pindex :: below) := by
  induction above with
  | nil => exact h
  | cons first above ih =>
      apply ih
      cases hRest : above ++ pindex :: below with
      | nil => simp at hRest
      | cons second rest =>
          rw [List.cons_append, hRest] at h
          exact h.tail

/-- No block comes twice: the chain from its second place would be as long as the one from
its first. -/
theorem IndexChain.nodup (h : IndexChain st chain) :
    (chain.map CBlockIndex.phashBlock).Nodup := by
  induction h with
  | genesis => exact List.nodup_singleton _
  | @next pindex pprev rest hEntry hPrev hRest ih =>
      rw [List.map_cons, List.nodup_cons]
      refine ⟨fun hMem => ?_, ih⟩
      obtain ⟨again, hAgain, hHash⟩ := List.mem_map.mp hMem
      obtain ⟨above, below, hSplit⟩ := List.append_of_mem hAgain
      have hBelow : IndexChain st (again :: below) := by
        rw [hSplit] at hRest
        exact hRest.of_append
      have hSame := (IndexChain.next hEntry hPrev hRest).unique hBelow hHash.symm
      have hLength := congrArg List.length hSame
      rw [hSplit] at hLength
      simp only [List.length_cons, List.length_append] at hLength
      omega

/-- A chain has no more blocks than the index. -/
theorem IndexChain.length_le (h : IndexChain st chain) :
    chain.length ≤ st.mapBlockIndex.entries.length := by
  rw [← List.length_map CBlockIndex.phashBlock]
  apply Table.length_le_of_nodup h.nodup
  intro hash hMem
  obtain ⟨pindex, hChain, rfl⟩ := List.mem_map.mp hMem
  exact Table.mem_iff_lookup.mpr ⟨pindex, h.entry hChain⟩

theorem IndexChain.pprevWalk
    {rest : List CBlockIndex} (h : IndexChain st (pindex :: rest)) {fuel : ℕ}
    (hFuel : rest.length ≤ fuel) : st.pprevWalk fuel pindex.pprev = rest := by
  induction rest generalizing pindex fuel with
  | nil =>
      cases h with
      | genesis hEntry hPrev =>
          rw [hPrev]
          cases fuel <;> rfl
  | cons pprev rest ih =>
      cases h with
      | next hEntry hPrev hRest =>
          obtain ⟨fuel, rfl⟩ : ∃ k, fuel = k + 1 := ⟨fuel - 1, by simp at hFuel; omega⟩
          have hFound : st.entry pindex.pprev = some pprev := by
            rw [hPrev]
            exact hRest.entry List.mem_cons_self
          unfold ChainState.pprevWalk
          rw [hFound]
          have hLess : rest.length ≤ fuel := by simpa using hFuel
          exact congrArg _ (ih hRest hLess)

/-- The walk of the model over `pprev` meets exactly the blocks of the chain. -/
theorem IndexChain.chainFrom
    {rest : List CBlockIndex} (h : IndexChain st (pindex :: rest)) :
    st.chainFrom pindex = pindex :: rest := by
  have hLength := h.length_le
  rw [List.length_cons] at hLength
  unfold ChainState.chainFrom
  rw [h.pprevWalk (by omega)]

end Chain

/-! ## One round -/

/-- Every candidate lies in the block index under its hash. -/
def Indexed (st : ChainState) (candidates : List (ℕ × ℕ)) : Prop :=
  ∀ candidate ∈ candidates, ∃ pindex, st.mapBlockIndex.lookup candidate.2 = some pindex ∧
    pindex.phashBlock = candidate.2

section Round

variable {env : Env} {st : ChainState} {mapSelectedBlocks : List ℕ}
  {nSelectionIntervalStop : ℤ} {nStakeModifierPrev : ℕ}

/-- The block is a candidate that was not selected before. -/
structure IsNewCandidate (st : ChainState) (mapSelectedBlocks : List ℕ)
    (candidates : List (ℕ × ℕ)) (pindex : CBlockIndex) : Prop where
  entry : st.mapBlockIndex.lookup pindex.phashBlock = some pindex
  mem : pindex.phashBlock ∈ candidates.map Prod.snd
  unselected : pindex.phashBlock ∉ mapSelectedBlocks

/-- One candidate: the loop ends with the block it has, or goes on with that block, or goes
on with the candidate. -/
theorem selectLoop_cons
    {nTime hash : ℕ} {pindex : CBlockIndex} {rest : List (ℕ × ℕ)}
    {selected : Option (ℕ × CBlockIndex)}
    (hEntry : st.mapBlockIndex.lookup hash = some pindex) (hHash : pindex.phashBlock = hash) :
    (selected.isSome = true ∧ selectLoop env st mapSelectedBlocks nSelectionIntervalStop
        nStakeModifierPrev ((nTime, hash) :: rest) selected = some selected) ∨
      ∃ next, selectLoop env st mapSelectedBlocks nSelectionIntervalStop nStakeModifierPrev
          ((nTime, hash) :: rest) selected =
        selectLoop env st mapSelectedBlocks nSelectionIntervalStop nStakeModifierPrev rest next ∧
        (next = selected ∧ (selected.isSome = true ∨ hash ∈ mapSelectedBlocks) ∨
          hash ∉ mapSelectedBlocks ∧ ∃ hashSelection, next = some (hashSelection, pindex)) := by
  rw [selectLoop, hEntry]
  dsimp only
  by_cases hStop : (selected.isSome && (pindex.nTime : ℤ) > nSelectionIntervalStop) = true
  · rw [if_pos hStop]
    exact Or.inl ⟨(Bool.and_eq_true_iff.mp hStop).1, rfl⟩
  · rw [if_neg hStop, hHash]
    right
    by_cases hSelected : hash ∈ mapSelectedBlocks
    · rw [if_pos hSelected]
      exact ⟨selected, rfl, Or.inl ⟨rfl, Or.inr hSelected⟩⟩
    · rw [if_neg hSelected]
      refine ⟨_, rfl, ?_⟩
      cases selected with
      | none => exact Or.inr ⟨hSelected, _, if_pos rfl⟩
      | some best =>
          by_cases hBetter : selectionHash env pindex nStakeModifierPrev < best.1
          · exact Or.inr ⟨hSelected, _, if_pos (decide_eq_true hBetter)⟩
          · exact Or.inl ⟨if_neg (by simpa using hBetter), Or.inl rfl⟩

variable (env nSelectionIntervalStop nStakeModifierPrev) in
/-- The loop does not fail on candidates of the index.  What it ends with it had from the
start or found, and it ends with a block if it had one or there is one to find. -/
theorem selectLoop_spec
    {candidates : List (ℕ × ℕ)} (hIndexed : Indexed st candidates)
    (selected : Option (ℕ × CBlockIndex)) :
    ∃ result, selectLoop env st mapSelectedBlocks nSelectionIntervalStop nStakeModifierPrev
        candidates selected = some result ∧
      (∀ best, result = some best →
        selected = some best ∨ IsNewCandidate st mapSelectedBlocks candidates best.2) ∧
      (selected.isSome = true ∨ (∃ hash ∈ candidates.map Prod.snd, hash ∉ mapSelectedBlocks) →
        result.isSome = true) := by
  induction candidates generalizing selected with
  | nil =>
      refine ⟨selected, rfl, fun best hBest => Or.inl hBest, ?_⟩
      rintro (hSome | ⟨hash, hMem, -⟩)
      · exact hSome
      · cases hMem
  | cons candidate rest ih =>
      obtain ⟨nTime, hash⟩ := candidate
      obtain ⟨pindex, hEntry, hHash⟩ := hIndexed (nTime, hash) List.mem_cons_self
      dsimp only at hEntry hHash
      have hRest : Indexed st rest :=
        fun other hOther => hIndexed other (List.mem_cons_of_mem _ hOther)
      rcases selectLoop_cons hEntry hHash with ⟨hSome, hEnds⟩ | ⟨next, hGoes, hNext⟩
      · exact ⟨selected, hEnds, fun best hBest => Or.inl hBest, fun _ => hSome⟩
      obtain ⟨result, hRun, hFound, hSome⟩ := ih hRest next
      have hLater : ∀ best, IsNewCandidate st mapSelectedBlocks rest best →
          IsNewCandidate st mapSelectedBlocks ((nTime, hash) :: rest) best :=
        fun best hBest => ⟨hBest.entry, List.mem_cons_of_mem _ hBest.mem, hBest.unselected⟩
      refine ⟨result, hGoes.trans hRun, fun best hBest => ?_, fun hLeft => hSome ?_⟩
      · rcases hNext with ⟨rfl, -⟩ | ⟨hNew, hashSelection, rfl⟩
        · exact (hFound best hBest).imp_right (hLater _)
        · rcases hFound best hBest with hThis | hOther
          · cases hThis
            exact Or.inr ⟨hHash ▸ hEntry, hHash ▸ List.mem_cons_self, hHash ▸ hNew⟩
          · exact Or.inr (hLater _ hOther)
      · rcases hNext with ⟨rfl, hHad | hPassed⟩ | ⟨-, hashSelection, rfl⟩
        · exact Or.inl hHad
        · rcases hLeft with hHad | ⟨other, hOther, hNew⟩
          · exact Or.inl hHad
          · rcases List.mem_cons.mp hOther with rfl | hOther
            · exact absurd hPassed hNew
            · exact Or.inr ⟨other, hOther, hNew⟩
        · exact Or.inl rfl

/-- What is selected is a new candidate. -/
theorem isNewCandidate_of_selectBlock
    {candidates : List (ℕ × ℕ)} {pindex : CBlockIndex} (hIndexed : Indexed st candidates)
    (hSelect : selectBlockFromCandidates env st candidates mapSelectedBlocks
      nSelectionIntervalStop nStakeModifierPrev = some pindex) :
    IsNewCandidate st mapSelectedBlocks candidates pindex := by
  obtain ⟨result, hRun, hFound, -⟩ :=
    selectLoop_spec env nSelectionIntervalStop nStakeModifierPrev hIndexed none
  unfold selectBlockFromCandidates at hSelect
  rw [hRun] at hSelect
  obtain ⟨best, hBest, rfl⟩ := Option.map_eq_some_iff.mp hSelect
  rcases hFound best hBest with hHad | hNew
  · cases hHad
  · exact hNew

/-- A round finds a block while a candidate is left. -/
theorem exists_selectBlock
    {candidates : List (ℕ × ℕ)} (hIndexed : Indexed st candidates) {hash : ℕ}
    (hMem : hash ∈ candidates.map Prod.snd) (hNew : hash ∉ mapSelectedBlocks) :
    ∃ pindex, selectBlockFromCandidates env st candidates mapSelectedBlocks
      nSelectionIntervalStop nStakeModifierPrev = some pindex := by
  obtain ⟨result, hRun, -, hSome⟩ :=
    selectLoop_spec env nSelectionIntervalStop nStakeModifierPrev hIndexed none
  obtain ⟨best, rfl⟩ := Option.isSome_iff_exists.mp (hSome (Or.inr ⟨hash, hMem, hNew⟩))
  refine ⟨best.2, ?_⟩
  unfold selectBlockFromCandidates
  rw [hRun]
  rfl

end Round

/-! ## All rounds -/

/-- The blocks that the rounds select one after the other, each from the candidates that the
rounds before it left. -/
inductive SelectedInRounds (env : Env) (st : ChainState) (vSortedByTimestamp : List (ℕ × ℕ))
    (nStakeModifier : ℕ) : List ℕ → ℤ → List ℕ → List CBlockIndex → Prop
  | done {nSelectionIntervalStop : ℤ} {mapSelectedBlocks : List ℕ} :
      SelectedInRounds env st vSortedByTimestamp nStakeModifier [] nSelectionIntervalStop
        mapSelectedBlocks []
  | round {nRound : ℕ} {rounds : List ℕ} {nSelectionIntervalStop : ℤ}
      {mapSelectedBlocks : List ℕ} {pindex : CBlockIndex} {selected : List CBlockIndex}
      (hSelect : selectBlockFromCandidates env st vSortedByTimestamp mapSelectedBlocks
        (nSelectionIntervalStop + getStakeModifierSelectionIntervalSection nRound)
        nStakeModifier = some pindex)
      (hRest : SelectedInRounds env st vSortedByTimestamp nStakeModifier rounds
        (nSelectionIntervalStop + getStakeModifierSelectionIntervalSection nRound)
        (pindex.phashBlock :: mapSelectedBlocks) selected) :
      SelectedInRounds env st vSortedByTimestamp nStakeModifier (nRound :: rounds)
        nSelectionIntervalStop mapSelectedBlocks (pindex :: selected)

section Rounds

variable {env : Env} {st : ChainState} {vSortedByTimestamp : List (ℕ × ℕ)}
  {nStakeModifier : ℕ} {rounds : List ℕ} {nSelectionIntervalStop : ℤ}
  {mapSelectedBlocks : List ℕ} {selected : List CBlockIndex}

/-- No round fails while there are as many candidates as rounds. -/
theorem exists_selectedInRounds
    (hIndexed : Indexed st vSortedByTimestamp)
    (hDistinct : (vSortedByTimestamp.map Prod.snd).Nodup)
    (hEnough : mapSelectedBlocks.length + rounds.length ≤ vSortedByTimestamp.length) :
    ∃ selected, SelectedInRounds env st vSortedByTimestamp nStakeModifier rounds
      nSelectionIntervalStop mapSelectedBlocks selected := by
  induction rounds generalizing nSelectionIntervalStop mapSelectedBlocks with
  | nil => exact ⟨[], .done⟩
  | cons nRound rounds ih =>
      have hLeft : ∃ hash ∈ vSortedByTimestamp.map Prod.snd, hash ∉ mapSelectedBlocks := by
        by_contra hNone
        push Not at hNone
        have hLength := (hDistinct.subperm hNone).length_le
        simp only [List.length_map, List.length_cons] at hLength hEnough
        omega
      obtain ⟨hash, hMem, hNew⟩ := hLeft
      obtain ⟨pindex, hSelect⟩ := exists_selectBlock hIndexed hMem hNew
      have hFewer : (pindex.phashBlock :: mapSelectedBlocks).length + rounds.length ≤
          vSortedByTimestamp.length := by
        simp only [List.length_cons] at hEnough ⊢
        omega
      obtain ⟨selected, hRest⟩ := ih hFewer
      exact ⟨pindex :: selected, .round hSelect hRest⟩

theorem SelectedInRounds.length_eq
    (h : SelectedInRounds env st vSortedByTimestamp nStakeModifier rounds
      nSelectionIntervalStop mapSelectedBlocks selected) :
    selected.length = rounds.length := by
  induction h with
  | done => rfl
  | round _ _ ih => rw [List.length_cons, List.length_cons, ih]

theorem SelectedInRounds.isNewCandidate
    (hIndexed : Indexed st vSortedByTimestamp)
    (h : SelectedInRounds env st vSortedByTimestamp nStakeModifier rounds
      nSelectionIntervalStop mapSelectedBlocks selected) :
    ∀ pindex ∈ selected, IsNewCandidate st mapSelectedBlocks vSortedByTimestamp pindex := by
  induction h with
  | done =>
      intro pindex hMem
      cases hMem
  | round hSelect _ ih =>
      intro pindex hMem
      rcases List.mem_cons.mp hMem with rfl | hMem
      · exact isNewCandidate_of_selectBlock hIndexed hSelect
      · obtain ⟨hEntry, hCandidate, hNew⟩ := ih pindex hMem
        exact ⟨hEntry, hCandidate, fun hBefore => hNew (List.mem_cons_of_mem _ hBefore)⟩

/-- A round selects no block that an earlier one has selected. -/
theorem SelectedInRounds.nodup
    (hIndexed : Indexed st vSortedByTimestamp)
    (h : SelectedInRounds env st vSortedByTimestamp nStakeModifier rounds
      nSelectionIntervalStop mapSelectedBlocks selected) :
    (selected.map CBlockIndex.phashBlock).Nodup := by
  induction h with
  | done => exact List.nodup_nil
  | round hSelect hRest ih =>
      rw [List.map_cons, List.nodup_cons]
      refine ⟨fun hMem => ?_, ih⟩
      obtain ⟨again, hAgain, hHash⟩ := List.mem_map.mp hMem
      apply (hRest.isNewCandidate hIndexed again hAgain).unselected
      rw [hHash]
      exact List.mem_cons_self

/-- The entropy bit of the block selected in a round; `false` when there was no such
round. -/
def entropyBitOfRound (selected : List CBlockIndex) (nRound : ℕ) : Bool :=
  selected[nRound]?.any fun pindex => pindex.getStakeEntropyBit == 1

theorem testBit_getStakeEntropyBit (pindex : CBlockIndex) (nRound nBit : ℕ) :
    (pindex.getStakeEntropyBit * 2 ^ nRound).testBit nBit =
      (decide (nRound = nBit) && pindex.getStakeEntropyBit == 1) := by
  unfold CBlockIndex.getStakeEntropyBit
  cases pindex.nFlags.testBit BLOCK_STAKE_ENTROPY with
  | false => simp
  | true => simp [Nat.testBit_two_pow]

/-- Each round writes the entropy bit of its block to its own place of the modifier. -/
theorem SelectedInRounds.modifier_bits
    {nFirst nRounds : ℕ} (nStakeModifierNew : ℕ)
    (h : SelectedInRounds env st vSortedByTimestamp nStakeModifier
      (List.range' nFirst nRounds) nSelectionIntervalStop mapSelectedBlocks selected) :
    ∃ nModifier, modifierRounds env st vSortedByTimestamp nStakeModifier
        (List.range' nFirst nRounds) nSelectionIntervalStop mapSelectedBlocks
        nStakeModifierNew = some nModifier ∧
      ∀ nBit, nModifier.testBit nBit = (nStakeModifierNew.testBit nBit ||
        (decide (nFirst ≤ nBit) && entropyBitOfRound selected (nBit - nFirst))) := by
  induction nRounds generalizing nFirst nSelectionIntervalStop mapSelectedBlocks selected
    nStakeModifierNew with
  | zero =>
      cases h
      refine ⟨nStakeModifierNew, rfl, fun nBit => ?_⟩
      simp [entropyBitOfRound]
  | succ nRounds ih =>
      rw [List.range'_succ] at h ⊢
      cases h with
      | @round _ _ _ _ pindex selected hSelect hRest =>
          obtain ⟨nModifier, hRun, hBits⟩ :=
            ih (nStakeModifierNew ||| pindex.getStakeEntropyBit * 2 ^ nFirst) hRest
          refine ⟨nModifier, ?_, fun nBit => ?_⟩
          · unfold modifierRounds
            dsimp only
            rw [hSelect]
            exact hRun
          · rw [hBits nBit, Nat.testBit_or, Bool.or_assoc]
            rw [testBit_getStakeEntropyBit]
            congr 1
            rcases lt_trichotomy nBit nFirst with hBelow | rfl | hAbove
            · rw [decide_eq_false (by omega), decide_eq_false (by omega),
                decide_eq_false (by omega)]
              rfl
            · rw [decide_eq_true rfl, decide_eq_false (by omega), decide_eq_true le_rfl,
                Nat.sub_self]
              simp [entropyBitOfRound]
            · obtain ⟨nAbove, rfl⟩ := Nat.exists_eq_add_of_lt hAbove
              have hLater : nFirst + nAbove + 1 - nFirst = nAbove + 1 := by omega
              have hBefore : nFirst + nAbove + 1 - (nFirst + 1) = nAbove := by omega
              rw [decide_eq_false (by omega), decide_eq_true (by omega),
                decide_eq_true (by omega), hLater, hBefore]
              rfl

end Rounds

/-! ## The next modifier -/

/-- The time from which on blocks are candidates. -/
def selectionIntervalStart (pindexPrev : CBlockIndex) : ℤ :=
  (pindexPrev.nTime / nModifierInterval * nModifierInterval : ℕ) -
    (getStakeModifierSelectionInterval : ℤ)

/-- The candidates: the blocks met on the way back before the first that is too old. -/
def stakeCandidates (pindexPrev : CBlockIndex) (chain : List CBlockIndex) : List CBlockIndex :=
  chain.takeWhile fun pindex => decide ((pindex.nTime : ℤ) ≥ selectionIntervalStart pindexPrev)

/-- The candidates in the order in which the rounds try them. -/
def sortedCandidates (pindexPrev : CBlockIndex) (chain : List CBlockIndex) : List (ℕ × ℕ) :=
  ((stakeCandidates pindexPrev chain).map fun pindex =>
    (pindex.nTime, pindex.phashBlock)).insertionSort candidateLe

/-- The modifier was generated from the blocks `selected`, the one of round `r` giving the
bit `r`. -/
structure GeneratesModifier (env : Env) (st : ChainState) (pindexPrev : CBlockIndex)
    (chain : List CBlockIndex) (selected : List CBlockIndex) (nModifier : ℕ) : Prop where
  rounds : ∃ nStakeModifier nModifierTime,
    getLastStakeModifier chain = some (nStakeModifier, nModifierTime) ∧
    SelectedInRounds env st (sortedCandidates pindexPrev chain) nStakeModifier
      (List.range (min 64 (stakeCandidates pindexPrev chain).length))
      (selectionIntervalStart pindexPrev) [] selected
  length : selected.length = min 64 (stakeCandidates pindexPrev chain).length
  distinct : (selected.map CBlockIndex.phashBlock).Nodup
  candidates : ∀ pindex ∈ selected, pindex ∈ stakeCandidates pindexPrev chain ∧
    selectionIntervalStart pindexPrev ≤ pindex.nTime
  bits : ∀ nBit, nModifier.testBit nBit = entropyBitOfRound selected nBit

section Next

variable {env : Env} {st : ChainState} {pindexPrev : CBlockIndex} {chain : List CBlockIndex}

theorem lastModifierEntry_generated
    (hNonempty : chain ≠ []) (hGenesis : (chain.getLast hNonempty).generatedStakeModifier = true) :
    ∃ pindex, lastModifierEntry chain = some pindex ∧ pindex.generatedStakeModifier = true := by
  induction chain with
  | nil => exact absurd rfl hNonempty
  | cons pindex rest ih =>
      cases rest with
      | nil => exact ⟨pindex, rfl, hGenesis⟩
      | cons pprev rest =>
          unfold lastModifierEntry
          by_cases hGenerated : pindex.generatedStakeModifier = true
          · rw [if_pos hGenerated]
            exact ⟨pindex, rfl, hGenerated⟩
          · rw [if_neg hGenerated]
            apply ih (List.cons_ne_nil _ _)
            rwa [List.getLast_cons (List.cons_ne_nil _ _)] at hGenesis

theorem sortedCandidates_perm (pindexPrev : CBlockIndex) (chain : List CBlockIndex) :
    List.Perm ((sortedCandidates pindexPrev chain).map Prod.snd)
      ((stakeCandidates pindexPrev chain).map CBlockIndex.phashBlock) := by
  have hPerm := (List.perm_insertionSort candidateLe
    ((stakeCandidates pindexPrev chain).map fun pindex =>
      (pindex.nTime, pindex.phashBlock))).map Prod.snd
  rwa [List.map_map] at hPerm

theorem sortedCandidates_length (pindexPrev : CBlockIndex) (chain : List CBlockIndex) :
    (sortedCandidates pindexPrev chain).length = (stakeCandidates pindexPrev chain).length := by
  have hLength := (sortedCandidates_perm pindexPrev chain).length_eq
  rwa [List.length_map, List.length_map] at hLength

theorem sortedCandidates_nodup (pindexPrev : CBlockIndex) (hChain : IndexChain st chain) :
    ((sortedCandidates pindexPrev chain).map Prod.snd).Nodup := by
  rw [(sortedCandidates_perm pindexPrev chain).nodup_iff]
  exact hChain.nodup.sublist ((List.takeWhile_sublist _).map _)

/-- A hash among the sorted candidates is that of a candidate. -/
theorem exists_candidate
    {hash : ℕ} (hMem : hash ∈ (sortedCandidates pindexPrev chain).map Prod.snd) :
    ∃ pindex ∈ stakeCandidates pindexPrev chain, pindex.phashBlock = hash := by
  rw [(sortedCandidates_perm pindexPrev chain).mem_iff] at hMem
  exact List.mem_map.mp hMem

theorem sortedCandidates_indexed (pindexPrev : CBlockIndex) (hChain : IndexChain st chain) :
    Indexed st (sortedCandidates pindexPrev chain) := by
  intro candidate hMem
  obtain ⟨pindex, hCandidate, hHash⟩ := exists_candidate (List.mem_map_of_mem hMem)
  have hEntry := hChain.entry ((List.takeWhile_sublist _).subset hCandidate)
  rw [hHash] at hEntry
  exact ⟨pindex, hEntry, hHash⟩

/-- What the rounds select from the candidates of a chain generates a modifier. -/
theorem generatesModifier_of_selected
    {nStakeModifier nModifierTime nModifier : ℕ} {selected : List CBlockIndex}
    (hChain : IndexChain st chain)
    (hLast : getLastStakeModifier chain = some (nStakeModifier, nModifierTime))
    (hSelected : SelectedInRounds env st (sortedCandidates pindexPrev chain) nStakeModifier
      (List.range (min 64 (stakeCandidates pindexPrev chain).length))
      (selectionIntervalStart pindexPrev) [] selected)
    (hBits : ∀ nBit, nModifier.testBit nBit = entropyBitOfRound selected nBit) :
    GeneratesModifier env st pindexPrev chain selected nModifier := by
  have hIndexed := sortedCandidates_indexed pindexPrev hChain
  refine ⟨⟨nStakeModifier, nModifierTime, hLast, hSelected⟩, ?_, hSelected.nodup hIndexed, ?_,
    hBits⟩
  · rw [hSelected.length_eq, List.length_range]
  · intro pindex hMem
    have hNew := hSelected.isNewCandidate hIndexed pindex hMem
    obtain ⟨candidate, hCandidate, hHash⟩ := exists_candidate hNew.mem
    have hEntry := hChain.entry ((List.takeWhile_sublist _).subset hCandidate)
    rw [hHash, hNew.entry] at hEntry
    cases hEntry
    exact ⟨hCandidate, by simpa using List.mem_takeWhile_imp hCandidate⟩

/-- `ComputeNextStakeModifier` always completes on a chain back to a genesis block with a
generated modifier.  A new modifier takes its bits from as many candidates as there are, up
to 64. -/
theorem computeNextStakeModifier_completes
    (env : Env) {rest : List CBlockIndex} (hChain : IndexChain st (pindexPrev :: rest))
    (hGenesis : ((pindexPrev :: rest).getLast
      (List.cons_ne_nil _ _)).generatedStakeModifier = true) :
    ∃ nModifier fGeneratedStakeModifier,
      computeNextStakeModifier env st (some pindexPrev) =
        some (nModifier, fGeneratedStakeModifier) ∧
      (fGeneratedStakeModifier = true → ∃ selected,
        GeneratesModifier env st pindexPrev (pindexPrev :: rest) selected nModifier) := by
  obtain ⟨pindex, hEntry, hGenerated⟩ := lastModifierEntry_generated _ hGenesis
  have hLast : getLastStakeModifier (pindexPrev :: rest) =
      some (pindex.nStakeModifier, pindex.nTime) := by
    unfold getLastStakeModifier
    rw [hEntry]
    exact if_pos hGenerated
  unfold computeNextStakeModifier
  dsimp only
  rw [hChain.chainFrom, hLast]
  dsimp only
  by_cases hRecent : pindex.nTime / nModifierInterval ≥ pindexPrev.nTime / nModifierInterval
  · rw [if_pos hRecent]
    exact ⟨_, false, rfl, fun hTrue => by cases hTrue⟩
  · rw [if_neg hRecent]
    have hLength := sortedCandidates_length pindexPrev (pindexPrev :: rest)
    obtain ⟨selected, hSelected⟩ : ∃ selected, SelectedInRounds env st
        (sortedCandidates pindexPrev (pindexPrev :: rest)) pindex.nStakeModifier
        (List.range (min 64 (stakeCandidates pindexPrev (pindexPrev :: rest)).length))
        (selectionIntervalStart pindexPrev) [] selected := by
      apply exists_selectedInRounds (sortedCandidates_indexed pindexPrev hChain)
        (sortedCandidates_nodup pindexPrev hChain)
      rw [List.length_nil, List.length_range, hLength]
      omega
    have hRounds := hSelected
    rw [List.range_eq_range'] at hRounds
    obtain ⟨nModifier, hRun, hBits⟩ := hRounds.modifier_bits 0
    refine ⟨nModifier, true, ?_, fun _ => ⟨selected, ?_⟩⟩
    · rw [← List.range_eq_range', ← hLength] at hRun
      exact congrArg (Option.map fun modifier => (modifier, true)) hRun
    · apply generatesModifier_of_selected hChain hLast hSelected
      intro nBit
      simpa using hBits nBit

end Next

namespace Sample

/-- A block nine intervals after the tip of the sample node. -/
def laterEntry : CBlockIndex :=
  { tipEntry with phashBlock := 501, pprev := some 500, nHeight := 11, nTime := 5000, nFlags := 2 }

/-- The sample node with that block on top. -/
def twoBlocks : ChainState :=
  { nodeWith [] with mapBlockIndex := (nodeWith []).mapBlockIndex.insert 501 laterEntry }

theorem twoBlocks_chain : IndexChain twoBlocks [laterEntry, tipEntry] :=
  .next (by decide +kernel) rfl (.genesis (by decide +kernel) rfl)

/-- The first round ends with the old block, so the entropy bit of the block on top goes to
the second place. -/
theorem modifier_of_twoBlocks :
    computeNextStakeModifier (env 6000) twoBlocks (some laterEntry) = some (2, true) ∧
      ∃ selected, GeneratesModifier (env 6000) twoBlocks laterEntry [laterEntry, tipEntry]
        selected 2 := by
  have hModifier : computeNextStakeModifier (env 6000) twoBlocks (some laterEntry) =
      some (2, true) := by decide +kernel
  obtain ⟨nModifier, fGenerated, hRun, hGenerates⟩ :=
    computeNextStakeModifier_completes (env 6000) twoBlocks_chain rfl
  obtain ⟨rfl, rfl⟩ : 2 = nModifier ∧ true = fGenerated := by
    rw [hModifier, Option.some.injEq, Prod.mk.injEq] at hRun
    exact hRun
  exact ⟨hModifier, hGenerates rfl⟩

end Sample

end SocietyGold
