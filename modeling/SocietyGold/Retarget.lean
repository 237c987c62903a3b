import SocietyGold.CheckBlock
import SocietyGold.Compact
import SocietyGold.Target

/-!
# Targets stay usable

`GetNextTargetRequired` rescales the target of the last block of a kind, puts the
limit in its place when the result leaves the range, and rounds in the compact
encoding.  The rounding cannot reach zero, since it keeps the leading bytes.
-/

namespace SocietyGold

open Support

/-! ## Rounding in the compact encoding -/

/-- The encoding of a positive number below 2^256 decodes to a positive number that is not
greater. -/
theorem setCompact_getCompact_pos
    {bn : CBigNum} (hPos : 0 < bn) (hBelow : bn < 2 ^ 256) :
    0 < CBigNum.setCompact bn.getCompact ∧ CBigNum.setCompact bn.getCompact ≤ bn := by
  obtain ⟨n, rfl⟩ := Int.eq_ofNat_of_zero_le hPos.le
  have hSmall : n < 2 ^ 256 := by exact_mod_cast hBelow
  have hNonzero : n ≠ 0 := by
    rintro rfl
    exact absurd hPos (lt_irrefl _)
  rw [CBigNum.setCompact_getCompact_nat (CBigNum.mpiLength_lt_of_bits (by norm_num) hSmall)]
  have hLower := CBigNum.le_of_mpiLength hNonzero
  set k := CBigNum.mpiLength n - 3 with hk
  have hCut : 256 ^ k ≤ n := by
    by_cases hShort : CBigNum.mpiLength n ≤ 3
    · rw [hk, show CBigNum.mpiLength n - 3 = 0 by omega, pow_zero]
      omega
    · rw [show CBigNum.mpiLength n - 1 = k + 2 by omega, pow_add] at hLower
      omega
  have hQuotient : 0 < n / 256 ^ k := Nat.div_pos hCut (by positivity)
  constructor
  · have hProduct : 0 < n / 256 ^ k * 256 ^ k := Nat.mul_pos hQuotient (by positivity)
    exact_mod_cast hProduct
  · exact_mod_cast Nat.div_mul_le_self n (256 ^ k)

/-! ## One retargeting step -/

/-- The limit for the targets of a kind of block. -/
def targetLimit (env : Env) (fProofOfStake : Bool) : CBigNum :=
  if fProofOfStake then bnProofOfStakeLimit else env.proofOfWorkLimit

/-- The rescaled target, before the limit is applied. -/
def rescaledTarget (nBits : ℕ) (nActualSpacing : ℤ) : CBigNum :=
  let spacing := if nActualSpacing < 0 then TARGET_SPACING else nActualSpacing
  let nInterval := nTargetTimespan / TARGET_SPACING
  (CBigNum.setCompact nBits * ((nInterval - 1) * TARGET_SPACING + spacing + spacing)).tdiv
    ((nInterval + 1) * TARGET_SPACING)

theorem retarget_eq (limit : CBigNum) (nBits : ℕ) (nActualSpacing : ℤ) :
    retarget limit nBits nActualSpacing =
      if rescaledTarget nBits nActualSpacing ≤ 0 ∨ rescaledTarget nBits nActualSpacing > limit
      then limit else rescaledTarget nBits nActualSpacing := rfl

theorem retarget_inRange
    {limit : CBigNum} (hLimit : 0 < limit) (nBits : ℕ) (nActualSpacing : ℤ) :
    0 < retarget limit nBits nActualSpacing ∧ retarget limit nBits nActualSpacing ≤ limit := by
  rw [retarget_eq]
  split_ifs with hOut
  · exact ⟨hLimit, le_refl limit⟩
  · rw [not_or, not_le, not_lt] at hOut
    exact hOut

/-- Blocks that come in time do not make the target easier. -/
theorem rescaledTarget_le
    {nBits : ℕ} (hTarget : 0 < CBigNum.setCompact nBits) {nActualSpacing : ℤ}
    (hSpacing : nActualSpacing ≤ TARGET_SPACING) :
    rescaledTarget nBits nActualSpacing ≤ CBigNum.setCompact nBits := by
  set target : ℤ := CBigNum.setCompact nBits
  have hFactor : (nTargetTimespan / TARGET_SPACING - 1) * TARGET_SPACING +
      (if nActualSpacing < 0 then TARGET_SPACING else nActualSpacing) +
      (if nActualSpacing < 0 then TARGET_SPACING else nActualSpacing) ≤
        (nTargetTimespan / TARGET_SPACING + 1) * TARGET_SPACING := by
    split_ifs
    · unfold nTargetTimespan TARGET_SPACING
      norm_num
    · unfold nTargetTimespan TARGET_SPACING at *
      norm_num
      omega
  have hDivisor : (0 : ℤ) < (nTargetTimespan / TARGET_SPACING + 1) * TARGET_SPACING := by
    decide
  have hProduct := mul_le_mul_of_nonneg_left hFactor hTarget.le
  unfold rescaledTarget
  calc (target * _).tdiv _ ≤
      (target * ((nTargetTimespan / TARGET_SPACING + 1) * TARGET_SPACING)).tdiv
        ((nTargetTimespan / TARGET_SPACING + 1) * TARGET_SPACING) :=
        Int.tdiv_le_tdiv hDivisor hProduct
    _ = target := Int.mul_tdiv_cancel _ hDivisor.ne'

/-! ## GetNextTargetRequired -/

/-- The last block of a kind with a block below it, and the last block of the kind below that,
when that one has a block below it as well. -/
def retargetsFrom (chain : List CBlockIndex) (fProofOfStake : Bool) :
    Option (CBlockIndex × CBlockIndex) :=
  match getLastBlockIndex fProofOfStake chain with
  | pindexPrev :: pprev :: rest =>
      match getLastBlockIndex fProofOfStake (pprev :: rest) with
      | pindexPrevPrev :: _ :: _ => some (pindexPrev, pindexPrevPrev)
      | _ => none
  | _ => none

/-- The bits are those of the limit, or of the retargeted bits of the last block of the kind. -/
theorem getNextTargetRequired_eq
    (env : Env) (chain : List CBlockIndex) (fProofOfStake : Bool) :
    getNextTargetRequired env chain fProofOfStake =
      match retargetsFrom chain fProofOfStake with
      | some (pindexPrev, pindexPrevPrev) =>
          (retarget (targetLimit env fProofOfStake) pindexPrev.nBits
            (pindexPrev.nTime - pindexPrevPrev.nTime)).getCompact
      | none => (targetLimit env fProofOfStake).getCompact := by
  unfold getNextTargetRequired retargetsFrom targetLimit
  rcases getLastBlockIndex fProofOfStake chain with _ | ⟨pindexPrev, _ | ⟨pprev, rest⟩⟩
  · rfl
  · rfl
  · dsimp only
    rcases getLastBlockIndex fProofOfStake (pprev :: rest) with _ | ⟨_, _ | ⟨_, _⟩⟩ <;> rfl

/-- The search ends in the chain, and at a block of the kind unless it reaches the first one. -/
theorem getLastBlockIndex_head
    {fProofOfStake : Bool} {chain : List CBlockIndex} {pindex pprev : CBlockIndex}
    {rest : List CBlockIndex}
    (h : getLastBlockIndex fProofOfStake chain = pindex :: pprev :: rest) :
    pindex ∈ chain ∧ pindex.isProofOfStake = fProofOfStake := by
  induction chain with
  | nil => cases h
  | cons first below ih =>
      cases below with
      | nil => cases h
      | cons second below =>
          rw [getLastBlockIndex] at h
          by_cases hKind : first.isProofOfStake = fProofOfStake
          · rw [if_neg (not_not.mpr hKind)] at h
            cases h
            exact ⟨List.mem_cons_self, hKind⟩
          · rw [if_pos hKind] at h
            obtain ⟨hMem, hFound⟩ := ih h
            exact ⟨List.mem_cons_of_mem _ hMem, hFound⟩

theorem retargetsFrom_eq_some
    {chain : List CBlockIndex} {fProofOfStake : Bool} {pindexPrev pindexPrevPrev : CBlockIndex}
    (h : retargetsFrom chain fProofOfStake = some (pindexPrev, pindexPrevPrev)) :
    pindexPrev ∈ chain ∧ pindexPrev.isProofOfStake = fProofOfStake := by
  unfold retargetsFrom at h
  rcases hLast : getLastBlockIndex fProofOfStake chain with _ | ⟨first, _ | ⟨pprev, rest⟩⟩
  · rw [hLast] at h
    cases h
  · rw [hLast] at h
    cases h
  · rw [hLast] at h
    dsimp only at h
    have hFound := getLastBlockIndex_head hLast
    rcases hSecond : getLastBlockIndex fProofOfStake (pprev :: rest) with _ | ⟨second, _ | ⟨_, _⟩⟩
    · rw [hSecond] at h
      cases h
    · rw [hSecond] at h
      cases h
    · rw [hSecond] at h
      cases h
      exact hFound

/-- The target of a block lies within the limit for its kind. -/
def TargetInRange (env : Env) (pindex : CBlockIndex) : Prop :=
  0 < CBigNum.setCompact pindex.nBits ∧
    CBigNum.setCompact pindex.nBits ≤ targetLimit env pindex.isProofOfStake

/-- The chain parameters: the limit for proof of work is the wider one, and both are numbers
of 256 bits. -/
structure LimitsFit (env : Env) : Prop where
  stake_le : bnProofOfStakeLimit ≤ env.proofOfWorkLimit
  work_lt : env.proofOfWorkLimit < 2 ^ 256

theorem LimitsFit.limit_inRange
    {env : Env} (h : LimitsFit env) (fProofOfStake : Bool) :
    0 < targetLimit env fProofOfStake ∧ targetLimit env fProofOfStake ≤ env.proofOfWorkLimit := by
  have hStake : 0 < bnProofOfStakeLimit := by decide
  unfold targetLimit
  cases fProofOfStake with
  | false => exact ⟨hStake.trans_le h.stake_le, le_refl _⟩
  | true => exact ⟨hStake, h.stake_le⟩

/-- `GetNextTargetRequired` returns bits of a target within the limit, which the range check
of `CheckProofOfWork` accepts; and when it rescales to a positive target after blocks that
came in time, the new target is not above the last one of the kind. -/
theorem getNextTargetRequired_usable
    (env : Env) (pindexLast : CBlockIndex) (below : List CBlockIndex) (fProofOfStake : Bool)
    (hLimits : LimitsFit env) (hChain : ∀ pindex ∈ pindexLast :: below, TargetInRange env pindex) :
    (0 < CBigNum.setCompact (getNextTargetRequired env (pindexLast :: below) fProofOfStake) ∧
      CBigNum.setCompact (getNextTargetRequired env (pindexLast :: below) fProofOfStake) ≤
        targetLimit env fProofOfStake) ∧
    (∀ hash, checkProofOfWork env hash
        (getNextTargetRequired env (pindexLast :: below) fProofOfStake) ≠
      .error ⟨0, "CheckProofOfWork() : nBits below minimum work"⟩) ∧
    ∀ pindexPrev pindexPrevPrev,
      retargetsFrom (pindexLast :: below) fProofOfStake = some (pindexPrev, pindexPrevPrev) →
      (pindexPrev.nTime : ℤ) - pindexPrevPrev.nTime ≤ TARGET_SPACING →
      0 < rescaledTarget pindexPrev.nBits (pindexPrev.nTime - pindexPrevPrev.nTime) →
      pindexPrev.isProofOfStake = fProofOfStake ∧
        CBigNum.setCompact (getNextTargetRequired env (pindexLast :: below) fProofOfStake) ≤
          CBigNum.setCompact pindexPrev.nBits := by
  obtain ⟨hPositive, hWork⟩ := hLimits.limit_inRange fProofOfStake
  have hRange : 0 < CBigNum.setCompact
      (getNextTargetRequired env (pindexLast :: below) fProofOfStake) ∧
      CBigNum.setCompact (getNextTargetRequired env (pindexLast :: below) fProofOfStake) ≤
        targetLimit env fProofOfStake := by
    rw [getNextTargetRequired_eq]
    cases retargetsFrom (pindexLast :: below) fProofOfStake with
    | none => exact setCompact_getCompact_pos hPositive (hWork.trans_lt hLimits.work_lt)
    | some pair =>
        obtain ⟨hNew, hBelow⟩ := retarget_inRange hPositive pair.1.nBits
          (pair.1.nTime - pair.2.nTime)
        obtain ⟨hPos, hLe⟩ := setCompact_getCompact_pos hNew
          ((hBelow.trans hWork).trans_lt hLimits.work_lt)
        exact ⟨hPos, hLe.trans hBelow⟩
  refine ⟨hRange, ?_, ?_⟩
  · intro hash hError
    have hAccepted : (decide (CBigNum.setCompact
          (getNextTargetRequired env (pindexLast :: below) fProofOfStake) ≤ 0) ||
        decide (CBigNum.setCompact
          (getNextTargetRequired env (pindexLast :: below) fProofOfStake) >
            env.proofOfWorkLimit)) = false := by
      rw [Bool.or_eq_false_iff, decide_eq_false_iff_not, decide_eq_false_iff_not, not_le, not_lt]
      exact ⟨hRange.1, hRange.2.trans hWork⟩
    unfold checkProofOfWork at hError
    dsimp only at hError
    rw [hAccepted] at hError
    unfold refuseIf at hError
    rw [if_neg (by simp), ok_bind] at hError
    split_ifs at hError
    simp at hError
  · intro pindexPrev pindexPrevPrev hFrom hSpacing hRescaled
    obtain ⟨hMem, hKind⟩ := retargetsFrom_eq_some hFrom
    refine ⟨hKind, ?_⟩
    have hPrev := (hChain pindexPrev hMem).1
    obtain ⟨hNew, hBelow⟩ := retarget_inRange hPositive pindexPrev.nBits
      (pindexPrev.nTime - pindexPrevPrev.nTime)
    rw [getNextTargetRequired_eq, hFrom]
    calc CBigNum.setCompact (retarget (targetLimit env fProofOfStake) pindexPrev.nBits
          (pindexPrev.nTime - pindexPrevPrev.nTime)).getCompact
        ≤ retarget (targetLimit env fProofOfStake) pindexPrev.nBits
          (pindexPrev.nTime - pindexPrevPrev.nTime) :=
          (setCompact_getCompact_pos hNew ((hBelow.trans hWork).trans_lt hLimits.work_lt)).2
      _ ≤ rescaledTarget pindexPrev.nBits (pindexPrev.nTime - pindexPrevPrev.nTime) := by
          rw [retarget_eq]
          split_ifs with hOut
          · exact (hOut.resolve_left (not_le.mpr hRescaled)).le
          · exact le_refl _
      _ ≤ CBigNum.setCompact pindexPrev.nBits := rescaledTarget_le hPrev hSpacing

namespace Sample

/-- An entry with the given kind, time and bits. -/
def timedEntry (stake : Bool) (nTime nBits : ℕ) : CBlockIndex :=
  { tipEntry with nFlags := stake.toNat, nTime := nTime, nBits := nBits }

/-- A chain of blocks of both kinds, with its first block at the end. -/
def mixedChain : List CBlockIndex :=
  [timedEntry true 1500 0x1e00ffff, timedEntry false 1400 0x1d00ffff,
    timedEntry true 1350 0x1e00ffff, timedEntry false 1300 0x1d00ffff,
    timedEntry false 1000 0x1e00ffff]

theorem mixedChain_usable :
    LimitsFit (env 2000) ∧ (∀ pindex ∈ mixedChain, TargetInRange (env 2000) pindex) ∧
      CBigNum.setCompact (getNextTargetRequired (env 2000) mixedChain false) ≤
        CBigNum.setCompact 0x1d00ffff := by
  have hLimits : LimitsFit (env 2000) := ⟨by decide, by decide⟩
  have hChain : ∀ pindex ∈ mixedChain, TargetInRange (env 2000) pindex := by
    unfold TargetInRange mixedChain
    decide +kernel
  refine ⟨hLimits, hChain, ?_⟩
  have hUsable := getNextTargetRequired_usable (env 2000) _ _ false hLimits hChain
  exact (hUsable.2.2 (timedEntry false 1400 0x1d00ffff) (timedEntry false 1300 0x1d00ffff)
    (by decide +kernel) (by decide) (by decide +kernel)).2

end Sample

end SocietyGold
