import SocietyGold.State

/-!
# The stake modifier

`ComputeNextStakeModifier` collects one bit from each of up to 64 blocks that it
selects from a recent interval of the chain.
-/

namespace SocietyGold

/-- Time to elapse before a new modifier is computed, in seconds. -/
def nModifierInterval : ℕ := 8 * 60

/-- Ratio of the last to the first group interval. -/
def MODIFIER_INTERVAL_RATIO : ℕ := 3

section Modifier

variable (env : Env) (st : ChainState)

/-- The entry at which `GetLastStakeModifier` stops: the first with a generated
modifier, or the end of the chain. -/
def lastModifierEntry : (chain : List CBlockIndex) → Option CBlockIndex
  | [] => none
  | [pindex] => some pindex
  | pindex :: pprev :: rest =>
      if pindex.generatedStakeModifier then some pindex
      else lastModifierEntry (pprev :: rest)

/-- The last generated modifier with the time of its block. -/
def getLastStakeModifier (chain : List CBlockIndex) : Option (ℕ × ℕ) :=
  match lastModifierEntry chain with
  | none => none
  | some pindex =>
      if pindex.generatedStakeModifier then some (pindex.nStakeModifier, pindex.nTime)
      else none

def getStakeModifierSelectionIntervalSection (nSection : ℕ) : ℕ :=
  nModifierInterval * 63 / (63 + (63 - nSection) * ( MODIFIER_INTERVAL_RATIO - 1))

def getStakeModifierSelectionInterval : ℕ :=
  ((List.range 64).map getStakeModifierSelectionIntervalSection).sum

/-- The hash by which a candidate is judged. -/
def selectionHash (pindex : CBlockIndex) (nStakeModifierPrev : ℕ) : ℕ :=
  let hashSelection :=
    env.prims.hash (toBytesLE 32 pindex.hashProof ++ toBytesLE 8 nStakeModifierPrev)
  -- proof-of-stake blocks are favoured
  if pindex.isProofOfStake then hashSelection / 2 ^ 32 else hashSelection

/-- The loop of `SelectBlockFromCandidates`; `none` when a candidate is missing
from the block index. -/
def selectLoop (mapSelectedBlocks : List ℕ) (nSelectionIntervalStop : ℤ)
    (nStakeModifierPrev : ℕ) :
    (candidates : List (ℕ × ℕ)) → (selected : Option (ℕ × CBlockIndex)) →
      Option (Option (ℕ × CBlockIndex))
  | [], selected => some selected
  | (_, hash) :: rest, selected =>
      match st.mapBlockIndex.lookup hash with
      | none => none
      | some pindex =>
          if selected.isSome && (pindex.nTime : ℤ) > nSelectionIntervalStop then some selected
          else if pindex.phashBlock ∈ mapSelectedBlocks then
            selectLoop mapSelectedBlocks nSelectionIntervalStop nStakeModifierPrev rest selected
          else
            let hashSelection := selectionHash env pindex nStakeModifierPrev
            let better :=
              match selected with
              | none => true
              | some (hashBest, _) => hashSelection < hashBest
            selectLoop mapSelectedBlocks nSelectionIntervalStop nStakeModifierPrev rest
              (if better then some (hashSelection, pindex) else selected)

/-- `SelectBlockFromCandidates`. -/
def selectBlockFromCandidates (vSortedByTimestamp : List (ℕ × ℕ)) (mapSelectedBlocks : List ℕ)
    (nSelectionIntervalStop : ℤ) (nStakeModifierPrev : ℕ) : Option CBlockIndex :=
  ((selectLoop env st mapSelectedBlocks nSelectionIntervalStop nStakeModifierPrev
    vSortedByTimestamp none).bind id).map Prod.snd

/-- The selection rounds of `ComputeNextStakeModifier`. -/
def modifierRounds (vSortedByTimestamp : List (ℕ × ℕ)) (nStakeModifier : ℕ) :
    (rounds : List ℕ) → (nSelectionIntervalStop : ℤ) → (mapSelectedBlocks : List ℕ) →
      (nStakeModifierNew : ℕ) → Option ℕ
  | [], _, _, nStakeModifierNew => some nStakeModifierNew
  | nRound :: rounds, nSelectionIntervalStop, mapSelectedBlocks, nStakeModifierNew =>
      let stop := nSelectionIntervalStop + getStakeModifierSelectionIntervalSection nRound
      match selectBlockFromCandidates env st vSortedByTimestamp mapSelectedBlocks stop
          nStakeModifier with
      | none => none
      | some pindex =>
          modifierRounds vSortedByTimestamp nStakeModifier rounds stop
            (pindex.phashBlock :: mapSelectedBlocks)
            (nStakeModifierNew ||| pindex.getStakeEntropyBit * 2 ^ nRound)

/-- Candidates are sorted by time, then by hash. -/
def candidateLe (a b : ℕ × ℕ) : Prop := a.1 < b.1 ∨ a.1 = b.1 ∧ a.2 ≤ b.2

instance : DecidableRel candidateLe := fun a b =>
  inferInstanceAs (Decidable (a.1 < b.1 ∨ a.1 = b.1 ∧ a.2 ≤ b.2))

/-- `ComputeNextStakeModifier`: the next modifier and whether it was generated
here. -/
def computeNextStakeModifier (pindexPrev : Option CBlockIndex) : Option (ℕ × Bool) :=
  match pindexPrev with
  | none => some (0, true)
  | some pindexPrev =>
      let chain := st.chainFrom pindexPrev
      match getLastStakeModifier chain with
      | none => none
      | some (nStakeModifier, nModifierTime) =>
          if nModifierTime / nModifierInterval ≥ pindexPrev.nTime / nModifierInterval then
            some (nStakeModifier, false)
          else
            let nSelectionIntervalStart : ℤ :=
              (pindexPrev.nTime / nModifierInterval * nModifierInterval : ℕ) -
                (getStakeModifierSelectionInterval : ℤ)
            let candidates := chain.takeWhile fun pindex =>
              decide ((pindex.nTime : ℤ) ≥ nSelectionIntervalStart)
            let vSortedByTimestamp :=
              (candidates.map fun pindex => (pindex.nTime, pindex.phashBlock)).insertionSort
                candidateLe
            let rounds := List.range (min 64 vSortedByTimestamp.length)
            (modifierRounds env st vSortedByTimestamp nStakeModifier rounds
              nSelectionIntervalStart [] 0).map fun modifier => (modifier, true)

end Modifier

end SocietyGold
