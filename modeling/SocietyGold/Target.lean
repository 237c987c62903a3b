import SocietyGold.State

/-!
# Difficulty targets

`GetNextTargetRequired` moves the target of each kind of block towards the
intended spacing.
-/

namespace SocietyGold

def TARGET_SPACING : ℤ := 4 * 60

def nTargetTimespan : ℤ := 1 * 24 * 60 * 60

def bnProofOfStakeLimit : CBigNum := (2 ^ 256 - 1) / 2 ^ 20

/-- `GetLastBlockIndex`: the chain from the last block of the wanted kind. -/
def getLastBlockIndex (fProofOfStake : Bool) : (chain : List CBlockIndex) → List CBlockIndex
  | [] => []
  | [pindex] => [pindex]
  | pindex :: pprev :: rest =>
      if pindex.isProofOfStake ≠ fProofOfStake then getLastBlockIndex fProofOfStake (pprev :: rest)
      else pindex :: pprev :: rest

/-- The target after a block with the given bits that took the given time. -/
def retarget (bnTargetLimit : CBigNum) (nBits : ℕ) (nActualSpacing : ℤ) : CBigNum :=
  let spacing := if nActualSpacing < 0 then TARGET_SPACING else nActualSpacing
  let nInterval := nTargetTimespan / TARGET_SPACING
  let scaled := CBigNum.setCompact nBits * ((nInterval - 1) * TARGET_SPACING + spacing + spacing)
  let bnNew := scaled.tdiv ((nInterval + 1) * TARGET_SPACING)
  if bnNew ≤ 0 ∨ bnNew > bnTargetLimit then bnTargetLimit else bnNew

/-- `GetNextTargetRequired` after the last block of a chain. -/
def getNextTargetRequired (env : Env) (chain : List CBlockIndex) (fProofOfStake : Bool) : ℕ :=
  let bnTargetLimit := if fProofOfStake then bnProofOfStakeLimit else env.proofOfWorkLimit
  match getLastBlockIndex fProofOfStake chain with
  | pindexPrev :: pprev :: rest =>
      match getLastBlockIndex fProofOfStake (pprev :: rest) with
      | pindexPrevPrev :: _ :: _ =>
          let nActualSpacing : ℤ := pindexPrev.nTime - pindexPrevPrev.nTime
          (retarget bnTargetLimit pindexPrev.nBits nActualSpacing).getCompact
      | _ => bnTargetLimit.getCompact
  | _ => bnTargetLimit.getCompact

end SocietyGold
