import SocietyGold.MasternodeAdmission
import SocietyGold.Support.Ranking

/-!
# Ranks of masternodes

Three functions score the masternodes for a block and sort the scores: one looks for the rank
of an input, one numbers them all and one looks for the masternode of a rank.  Where no two
masternodes share an outpoint or a score, they agree, and the order of the list does not
matter.
-/

namespace SocietyGold

open Support

namespace CMasternodeMan

/-! ## The code -/

/-- What `sort` promises about `CompareValueOnlyMN` on reverse iterators. -/
structure MasternodeScoreSort where
  sort : List (ℕ × CMasternode) → List (ℕ × CMasternode)
  perm : ∀ scores, (sort scores).Perm scores
  sorted : ∀ scores, (sort scores).Pairwise fun first second => second.1 ≤ first.1

section Code

variable (env : MasternodeEnv) (st : ChainState)

/-- The loop of `GetMasternodeRanks` that collects copies of the masternodes. -/
def ranksLoop (nBlockHeight minProtocol : ℤ) :
    List CMasternode → (cache : Table ℤ ℕ) →
      Checked (List CMasternode × List (ℕ × CMasternode) × Table ℤ ℕ)
  | [], cache => .ok ([], [], cache)
  | mn :: rest, cache => do
      let mn ← mn.check env st
      if mn.protocolVersion < minProtocol ∨ !mn.isEnabled then do
        let (rest, scores, cache) ← ranksLoop nBlockHeight minProtocol rest cache
        .ok (mn :: rest, scores, cache)
      else do
        let (n2, cache) ← mn.shortScore env.prims st cache nBlockHeight
        let (rest, scores, cache) ← ranksLoop nBlockHeight minProtocol rest cache
        .ok (mn :: rest, (n2, mn.copy env.adjustedTime) :: scores, cache)

/-- The loop that numbers the sorted masternodes. -/
def numberRanks : List (ℕ × CMasternode) → (rank : ℤ) → List (ℤ × CMasternode)
  | [], _ => []
  | s :: rest, rank => (rank + 1, s.2) :: numberRanks rest (rank + 1)

/-- `GetMasternodeRanks`. -/
def getMasternodeRanks (scoreSort : MasternodeScoreSort) (vMasternodes : List CMasternode)
    (cache : Table ℤ ℕ) (nBlockHeight minProtocol : ℤ) :
    Checked (List CMasternode × Table ℤ ℕ × List (ℤ × CMasternode)) := do
  let (found, cache) ← getBlockHash st cache (wrap32 nBlockHeight)
  match found with
  | none => .ok (vMasternodes, cache, [])
  | some _ => do
      let (vMasternodes, scores, cache) ←
        ranksLoop env st nBlockHeight minProtocol vMasternodes cache
      .ok (vMasternodes, cache, numberRanks (scoreSort.sort scores) 0)

/-- The loop that looks for a rank. -/
def vinOfRank (nRank : ℤ) : List (ℕ × CTxIn) → (rank : ℤ) → Option CTxIn
  | [], _ => none
  | s :: rest, rank => if rank + 1 = nRank then some s.2 else vinOfRank nRank rest (rank + 1)

/-- `GetMasternodeByRank`: the position of the entry that it points to. -/
def getMasternodeByRank (vMasternodes : List CMasternode) (cache : Table ℤ ℕ)
    (nRank nBlockHeight minProtocol : ℤ) (fOnlyActive : Bool) :
    Checked (List CMasternode × Table ℤ ℕ × Option ℕ) := do
  let (vMasternodes, scores, cache) ←
    rankLoop env st nBlockHeight minProtocol fOnlyActive vMasternodes cache
  .ok (vMasternodes, cache,
    (vinOfRank nRank (env.scoreSort.sort scores) 0).bind (findIdx vMasternodes))

end Code

theorem vinOfRank_eq
    (scores : List (ℕ × CTxIn)) (i : ℕ) (rank : ℤ) :
    vinOfRank (rank + 1 + i) scores rank = scores[i]?.map Prod.snd := by
  induction scores generalizing i rank with
  | nil => rfl
  | cons s rest ih =>
      cases i with
      | zero =>
          rw [vinOfRank, if_pos (by push_cast; ring)]
          rfl
      | succ i =>
          have hNext : rank + 1 + ((i + 1 : ℕ) : ℤ) = rank + 1 + 1 + i := by
            push_cast
            ring
          rw [vinOfRank, if_neg (by omega), hNext, ih, List.getElem?_cons_succ]

theorem getElem?_numberRanks
    (scores : List (ℕ × CMasternode)) (i : ℕ) (rank : ℤ) :
    (numberRanks scores rank)[i]? = scores[i]?.map fun s => (rank + 1 + i, s.2) := by
  induction scores generalizing i rank with
  | nil => rfl
  | cons s rest ih =>
      cases i with
      | zero => simp [numberRanks]
      | succ i =>
          rw [numberRanks, List.getElem?_cons_succ, ih, List.getElem?_cons_succ]
          congr 1
          funext s
          congr 1
          push_cast
          ring

/-! ## Scores and eligible masternodes -/

/-- The low 32 bits of the score for a block. -/
def scoreOf (prims : Primitives) (hash : ℕ) (mn : CMasternode) : ℕ :=
  let aux := (mn.vin.prevout.hash + mn.vin.prevout.n) % 2 ^ 256
  let hash2 := prims.hash (toBytesLE 32 hash)
  let hash3 := prims.hash (toBytesLE 32 hash ++ toBytesLE 32 aux)
  (if hash3 > hash2 then hash3 - hash2 else hash2 - hash3) % 2 ^ 32

section Eligible

variable (env : MasternodeEnv) (st : ChainState) (minProtocol : ℤ) (fOnlyActive : Bool)

/-- The masternode as its check leaves it. -/
def checkedOf (mn : CMasternode) : CMasternode := (mn.check env st).toOption.getD mn

/-- A masternode takes part in the ranking. -/
def isEligible (mn : CMasternode) : Bool :=
  !(mn.protocolVersion < minProtocol) && (!fOnlyActive || (checkedOf env st mn).isEnabled)

/-- A masternode as the loop of `GetMasternodeRank` leaves it. -/
def visited (mn : CMasternode) : CMasternode :=
  if mn.protocolVersion < minProtocol then mn
  else if fOnlyActive then checkedOf env st mn else mn

end Eligible

section Loops

variable {env : MasternodeEnv} {st : ChainState} {cache cache' : Table ℤ ℕ} {hash : ℕ}
  {nBlockHeight minProtocol : ℤ} {fOnlyActive : Bool} {vMasternodes : List CMasternode}

/-- A height that is known stays known. -/
theorem getBlockHash_again {n : ℤ} (h : getBlockHash st cache n = .ok (some hash, cache')) :
    getBlockHash st cache' n = .ok (some hash, cache') := by
  unfold getBlockHash at h ⊢
  cases hBest : st.entry st.pindexBest with
  | none =>
      rw [hBest] at h
      cases h
  | some pindexBest =>
      simp only [hBest] at h ⊢
      generalize (if n = 0 then pindexBest.nHeight else n) = height at h ⊢
      cases hCached : cache.lookup height with
      | some known =>
          simp only [hCached, Except.ok.injEq, Prod.mk.injEq, Option.some.injEq] at h
          obtain ⟨rfl, rfl⟩ := h
          rw [hCached]
      | none =>
          simp only [hCached] at h
          by_cases hUnknown : pindexBest.nHeight = 0 ∨ pindexBest.nHeight + 1 < height
          · rw [if_pos hUnknown] at h
            cases h
          · rw [if_neg hUnknown] at h
            obtain ⟨-, -, h⟩ := bind_eq_ok.mp h
            split at h
            · simp only [Except.ok.injEq, Prod.mk.injEq, Option.some.injEq] at h
              obtain ⟨rfl, rfl⟩ := h
              rw [Table.lookup_insert_ite, if_pos rfl]
            · cases h

theorem shortScore_eq
    (h : getBlockHash st cache (wrap32 nBlockHeight) = .ok (some hash, cache))
    (mn : CMasternode) :
    mn.shortScore env.prims st cache nBlockHeight = .ok (scoreOf env.prims hash mn, cache) := by
  unfold CMasternode.shortScore CMasternode.calculateScore
  cases hBest : st.entry st.pindexBest with
  | none =>
      unfold getBlockHash at h
      rw [hBest] at h
      cases h
  | some pindexBest =>
      simp only [h, ok_bind]
      rfl

theorem scoreOf_eq_of_vin
    (prims : Primitives) {mn mn' : CMasternode} (h : mn.vin = mn'.vin) :
    scoreOf prims hash mn = scoreOf prims hash mn' := by
  unfold scoreOf
  rw [h]

theorem checkedOf_eq {mn checked : CMasternode} (h : mn.check env st = .ok checked) :
    checkedOf env st mn = checked := by
  rw [checkedOf, h]
  rfl

theorem check_checkedOf
    {mn : CMasternode} (h : ∃ checked, mn.check env st = .ok checked) :
    mn.check env st = .ok (checkedOf env st mn) := by
  obtain ⟨checked, hChecked⟩ := h
  rw [checkedOf_eq hChecked, hChecked]

/-- A check changes the state only. -/
theorem checkedOf_activeState (mn : CMasternode) :
    ∃ activeState, checkedOf env st mn = { mn with activeState := activeState } := by
  cases h : mn.check env st with
  | error fault => exact ⟨mn.activeState, by rw [checkedOf, h]; rfl⟩
  | ok checked => exact checkedOf_eq h ▸ check_eq_activeState h

theorem vin_checkedOf (mn : CMasternode) : (checkedOf env st mn).vin = mn.vin := by
  obtain ⟨activeState, h⟩ := @checkedOf_activeState env st mn
  rw [h]

theorem protocolVersion_checkedOf (mn : CMasternode) :
    (checkedOf env st mn).protocolVersion = mn.protocolVersion := by
  obtain ⟨activeState, h⟩ := @checkedOf_activeState env st mn
  rw [h]

/-- The scores that `GetMasternodeRank` collects. -/
theorem rankLoop_eq
    (hKnown : getBlockHash st cache (wrap32 nBlockHeight) = .ok (some hash, cache))
    (hChecks : ∀ mn ∈ vMasternodes, ∃ checked, mn.check env st = .ok checked) :
    rankLoop env st nBlockHeight minProtocol fOnlyActive vMasternodes cache =
      .ok (vMasternodes.map (visited env st minProtocol fOnlyActive),
        (vMasternodes.filter (isEligible env st minProtocol fOnlyActive)).map
          fun mn => (scoreOf env.prims hash mn, mn.vin), cache) := by
  induction vMasternodes with
  | nil => rfl
  | cons mn rest ih =>
      have hRest := ih fun other hMem => hChecks other (List.mem_cons_of_mem mn hMem)
      have hCheck := check_checkedOf (hChecks mn List.mem_cons_self)
      rw [rankLoop, List.map_cons]
      by_cases hOld : mn.protocolVersion < minProtocol
      · have hNot : isEligible env st minProtocol fOnlyActive mn = false := by
          simp [isEligible, hOld]
        have hSame : visited env st minProtocol fOnlyActive mn = mn := by
          rw [visited, if_pos hOld]
        rw [if_pos hOld, hRest, ok_bind, List.filter_cons_of_neg (by simp [hNot]), hSame]
      · rw [if_neg hOld]
        cases fOnlyActive with
        | false =>
            have hIs : isEligible env st minProtocol false mn = true := by
              simp [isEligible, hOld]
            have hSame : visited env st minProtocol false mn = mn := by
              simp [visited, hOld]
            rw [List.filter_cons_of_pos hIs, List.map_cons, hSame]
            simp only [Bool.false_eq_true, if_false, Bool.false_and, ok_bind,
              shortScore_eq hKnown, hRest]
        | true =>
            have hSame : visited env st minProtocol true mn = checkedOf env st mn := by
              simp [visited, hOld]
            have hIs : isEligible env st minProtocol true mn = (checkedOf env st mn).isEnabled := by
              simp [isEligible, hOld]
            rw [hSame]
            cases hEnabled : (checkedOf env st mn).isEnabled with
            | false =>
                rw [List.filter_cons_of_neg (by simp [hIs, hEnabled])]
                simp only [if_true, hCheck, ok_bind, hEnabled, Bool.not_false, Bool.and_self,
                  hRest]
            | true =>
                rw [List.filter_cons_of_pos (hIs.trans hEnabled), List.map_cons]
                simp only [if_true, hCheck, ok_bind, hEnabled, Bool.not_true, Bool.and_false,
                  Bool.false_eq_true, if_false, shortScore_eq hKnown, hRest, vin_checkedOf,
                  scoreOf_eq_of_vin env.prims (vin_checkedOf mn)]

/-- The masternodes that `GetMasternodeRanks` collects. -/
theorem ranksLoop_eq
    (hKnown : getBlockHash st cache (wrap32 nBlockHeight) = .ok (some hash, cache))
    (hChecks : ∀ mn ∈ vMasternodes, ∃ checked, mn.check env st = .ok checked) :
    ranksLoop env st nBlockHeight minProtocol vMasternodes cache =
      .ok (vMasternodes.map (checkedOf env st),
        (vMasternodes.filter (isEligible env st minProtocol true)).map fun mn =>
          (scoreOf env.prims hash mn, (checkedOf env st mn).copy env.adjustedTime), cache) := by
  induction vMasternodes with
  | nil => rfl
  | cons mn rest ih =>
      have hRest := ih fun other hMem => hChecks other (List.mem_cons_of_mem mn hMem)
      have hCheck := check_checkedOf (hChecks mn List.mem_cons_self)
      have hIs : isEligible env st minProtocol true mn = true ↔
          ¬((checkedOf env st mn).protocolVersion < minProtocol ∨
            (!(checkedOf env st mn).isEnabled) = true) := by
        simp [isEligible, protocolVersion_checkedOf]
      rw [ranksLoop, hCheck, ok_bind, List.map_cons]
      by_cases hEligible : isEligible env st minProtocol true mn = true
      · rw [if_neg (hIs.mp hEligible), List.filter_cons_of_pos hEligible, List.map_cons]
        simp only [shortScore_eq hKnown, ok_bind, hRest,
          scoreOf_eq_of_vin env.prims (vin_checkedOf mn)]
      · rw [if_pos (not_not.mp (mt hIs.mpr hEligible)), hRest, ok_bind,
          List.filter_cons_of_neg hEligible]

end Loops

/-! ## A second look -/

section Again

variable {env : MasternodeEnv} {st : ChainState} {minProtocol : ℤ} {fOnlyActive : Bool}

/-- Without a shutdown a check returns if the test of the collateral does. -/
theorem check_eq_ok_iff
    {mn checked : CMasternode} (hShutdown : env.fRequestShutdown = false) :
    mn.check env st = .ok checked ↔
      checked = { mn with activeState := MASTERNODE_ENABLED } ∧
        (mn.unitTest = true ∨ ∃ acceptable, acceptsCollateral env st mn.vin = .ok acceptable) := by
  obtain ⟨unseenState, hUnseen⟩ := CMasternode.markUnseen_eq env.adjustedTime mn
  unfold CMasternode.check CMasternode.markSpent
  rw [hUnseen]
  simp only [hShutdown, Bool.false_eq_true, if_false]
  by_cases hTest : mn.unitTest = true
  · simp only [hTest, if_true, ok_bind, Except.ok.injEq, true_or, and_true]
    exact eq_comm
  · simp only [hTest, Bool.false_eq_true, if_false, false_or]
    cases acceptsCollateral env st mn.vin with
    | error fault =>
        constructor
        · intro h
          cases h
        · rintro ⟨-, acceptable, h⟩
          cases h
    | ok acceptable =>
        simp only [ok_bind, Except.ok.injEq, exists_eq', and_true]
        rw [eq_comm]
        cases acceptable <;> rfl

/-- A second check leaves the masternode as it is. -/
theorem check_again
    {mn checked : CMasternode} (h : mn.check env st = .ok checked) :
    checked.check env st = .ok checked := by
  cases hShutdown : env.fRequestShutdown with
  | true =>
      unfold CMasternode.check
      rw [hShutdown, if_pos rfl]
  | false =>
      obtain ⟨rfl, hReturns⟩ := (check_eq_ok_iff hShutdown).mp h
      exact (check_eq_ok_iff hShutdown).mpr ⟨rfl, hReturns⟩

theorem check_visited
    {mn : CMasternode} (h : ∃ checked, mn.check env st = .ok checked) :
    ∃ checked, (visited env st minProtocol fOnlyActive mn).check env st = .ok checked := by
  unfold visited
  split_ifs
  · exact h
  · exact ⟨_, check_again (check_checkedOf h)⟩
  · exact h

theorem vin_visited (mn : CMasternode) :
    (visited env st minProtocol fOnlyActive mn).vin = mn.vin := by
  unfold visited
  split_ifs
  · rfl
  · exact vin_checkedOf mn
  · rfl

theorem isEligible_visited
    {mn : CMasternode} (h : ∃ checked, mn.check env st = .ok checked) :
    isEligible env st minProtocol fOnlyActive (visited env st minProtocol fOnlyActive mn) =
      isEligible env st minProtocol fOnlyActive mn := by
  have hTwice : checkedOf env st (checkedOf env st mn) = checkedOf env st mn :=
    checkedOf_eq (check_again (check_checkedOf h))
  unfold visited
  split_ifs with hOld hActive
  · rfl
  · unfold isEligible
    rw [protocolVersion_checkedOf, hTwice]
  · rfl

end Again

/-! ## Ranks -/

section Ranks

variable {env : MasternodeEnv} {st : ChainState} {hash : ℕ} {minProtocol : ℤ}
  {fOnlyActive : Bool} {vMasternodes : List CMasternode} {mn : CMasternode}

/-- The number of eligible masternodes with a greater score. -/
def betterCount (env : MasternodeEnv) (st : ChainState) (hash : ℕ) (minProtocol : ℤ)
    (fOnlyActive : Bool) (vMasternodes : List CMasternode) (mn : CMasternode) : ℕ :=
  vMasternodes.countP fun other => isEligible env st minProtocol fOnlyActive other &&
    scoreOf env.prims hash mn < scoreOf env.prims hash other

/-- What is collected of the eligible masternodes stands at the rank in the sorted list. -/
theorem getElem?_rank
    {γ : Type} {collect : CMasternode → γ} {sorted : List (ℕ × γ)}
    (hPerm : sorted.Perm ((vMasternodes.filter (isEligible env st minProtocol fOnlyActive)).map
      fun mn => (scoreOf env.prims hash mn, collect mn)))
    (hSorted : sorted.Pairwise fun first second => second.1 ≤ first.1)
    (hScores : (vMasternodes.map (scoreOf env.prims hash)).Nodup) (hMem : mn ∈ vMasternodes)
    (hEligible : isEligible env st minProtocol fOnlyActive mn = true) :
    sorted[betterCount env st hash minProtocol fOnlyActive vMasternodes mn]? =
      some (scoreOf env.prims hash mn, collect mn) := by
  have hNodup : (((vMasternodes.filter (isEligible env st minProtocol fOnlyActive)).map
      fun mn => (scoreOf env.prims hash mn, collect mn)).map Prod.fst).Nodup := by
    rw [List.map_map]
    exact hScores.sublist (List.filter_sublist.map _)
  have hIn : (scoreOf env.prims hash mn, collect mn) ∈
      (vMasternodes.filter (isEligible env st minProtocol fOnlyActive)).map
        fun mn => (scoreOf env.prims hash mn, collect mn) :=
    List.mem_map_of_mem (List.mem_filter.mpr ⟨hMem, hEligible⟩)
  have hAt := getElem?_sorted hPerm hSorted hNodup hIn
  rw [List.countP_map, List.countP_filter] at hAt
  rw [← hAt, betterCount]
  congr 1
  apply List.countP_congr
  intro other _
  simp [and_comm]

/-- Outpoints that differ belong to inputs that differ. -/
theorem nodup_collected
    {γ : Type} {collect : CMasternode → γ} {sorted : List (ℕ × γ)} (prevoutOf : γ → COutPoint)
    (hPerm : sorted.Perm ((vMasternodes.filter (isEligible env st minProtocol fOnlyActive)).map
      fun mn => (scoreOf env.prims hash mn, collect mn)))
    (hCollect : ∀ mn, prevoutOf (collect mn) = mn.vin.prevout)
    (hPrevouts : (vMasternodes.map fun mn => mn.vin.prevout).Nodup) :
    (sorted.map fun s => prevoutOf s.2).Nodup := by
  rw [(hPerm.map fun s => prevoutOf s.2).nodup_iff, List.map_map]
  have hSame : ((fun s : ℕ × γ => prevoutOf s.2) ∘
      fun mn => (scoreOf env.prims hash mn, collect mn)) = fun mn => mn.vin.prevout := by
    funext mn
    exact hCollect mn
  rw [hSame]
  exact hPrevouts.sublist (List.filter_sublist.map _)

/-- Positions with the same key are the same. -/
theorem eq_of_getElem?_of_nodup
    {α κ : Type} {f : α → κ} {l : List α} (hNodup : (l.map f).Nodup) {i j : ℕ} {x y : α}
    (hx : l[i]? = some x) (hy : l[j]? = some y) (hSame : f x = f y) : i = j := by
  obtain ⟨hi, -⟩ := List.getElem?_eq_some_iff.mp hx
  refine (List.getElem?_inj (by simpa using hi) hNodup).mp ?_
  rw [List.getElem?_map, List.getElem?_map, hx, hy, Option.map_some, Option.map_some, hSame]

theorem rankOf_eq
    (hPrevouts : (vMasternodes.map fun mn => mn.vin.prevout).Nodup)
    (hScores : (vMasternodes.map (scoreOf env.prims hash)).Nodup) (hMem : mn ∈ vMasternodes)
    (hEligible : isEligible env st minProtocol fOnlyActive mn = true) :
    rankOf mn.vin (env.scoreSort.sort ((vMasternodes.filter
      (isEligible env st minProtocol fOnlyActive)).map
        fun mn => (scoreOf env.prims hash mn, mn.vin))) =
      betterCount env st hash minProtocol fOnlyActive vMasternodes mn + 1 := by
  have hPerm := env.scoreSort.perm ((vMasternodes.filter
    (isEligible env st minProtocol fOnlyActive)).map
      fun mn => (scoreOf env.prims hash mn, mn.vin))
  have hAt := getElem?_rank hPerm (env.scoreSort.sorted _) hScores hMem hEligible
  have hNodup := nodup_collected CTxIn.prevout hPerm (fun _ => rfl) hPrevouts
  have hFound := findIdx?_eq_some_of_unique (p := fun s => decide (s.2 = mn.vin)) hAt
    (decide_eq_true rfl) (by
      intro j s hs hVin
      apply eq_of_getElem?_of_nodup hNodup hs hAt
      exact congrArg CTxIn.prevout (of_decide_eq_true hVin))
  unfold rankOf
  rw [hFound]

theorem betterCount_perm {permuted : List CMasternode} (h : permuted.Perm vMasternodes) :
    betterCount env st hash minProtocol fOnlyActive permuted mn =
      betterCount env st hash minProtocol fOnlyActive vMasternodes mn :=
  h.countP_eq _

variable {cache cache' : Table ℤ ℕ} {nBlockHeight : ℤ}

/-- `GetMasternodeRank` counts the eligible masternodes with a greater score. -/
theorem getMasternodeRank_eq
    (hKnown : getBlockHash st cache (wrap32 nBlockHeight) = .ok (some hash, cache'))
    (hChecks : ∀ mn ∈ vMasternodes, ∃ checked, mn.check env st = .ok checked)
    (hPrevouts : (vMasternodes.map fun mn => mn.vin.prevout).Nodup)
    (hScores : (vMasternodes.map (scoreOf env.prims hash)).Nodup) (hMem : mn ∈ vMasternodes)
    (hEligible : isEligible env st minProtocol fOnlyActive mn = true) :
    getMasternodeRank env st vMasternodes cache mn.vin nBlockHeight minProtocol fOnlyActive =
      .ok (vMasternodes.map (visited env st minProtocol fOnlyActive), cache',
        betterCount env st hash minProtocol fOnlyActive vMasternodes mn + 1) := by
  unfold getMasternodeRank
  simp only [hKnown, ok_bind, rankLoop_eq (getBlockHash_again hKnown) hChecks,
    rankOf_eq hPrevouts hScores hMem hEligible]

/-- The scores of the masternodes after a first call are those of before. -/
theorem rankLoop_visited
    (hKnown : getBlockHash st cache (wrap32 nBlockHeight) = .ok (some hash, cache))
    (hChecks : ∀ mn ∈ vMasternodes, ∃ checked, mn.check env st = .ok checked) :
    rankLoop env st nBlockHeight minProtocol fOnlyActive
        (vMasternodes.map (visited env st minProtocol fOnlyActive)) cache =
      .ok ((vMasternodes.map (visited env st minProtocol fOnlyActive)).map
          (visited env st minProtocol fOnlyActive),
        (vMasternodes.filter (isEligible env st minProtocol fOnlyActive)).map
          fun mn => (scoreOf env.prims hash mn, mn.vin), cache) := by
  have hAgain : ∀ mn ∈ vMasternodes.map (visited env st minProtocol fOnlyActive),
      ∃ checked, mn.check env st = .ok checked := by
    intro mn hMem
    obtain ⟨old, hOld, rfl⟩ := List.mem_map.mp hMem
    exact check_visited (hChecks old hOld)
  have hFilter : (vMasternodes.map (visited env st minProtocol fOnlyActive)).filter
      (isEligible env st minProtocol fOnlyActive) =
        (vMasternodes.filter (isEligible env st minProtocol fOnlyActive)).map
          (visited env st minProtocol fOnlyActive) := by
    rw [List.filter_map]
    congr 1
    apply List.filter_congr
    intro mn hMem
    exact isEligible_visited (hChecks mn hMem)
  have hCollected : ((fun mn : CMasternode => (scoreOf env.prims hash mn, mn.vin)) ∘
      visited env st minProtocol fOnlyActive) =
        fun mn => (scoreOf env.prims hash mn, mn.vin) := by
    funext mn
    have hVin := @vin_visited env st minProtocol fOnlyActive mn
    show (scoreOf env.prims hash (visited env st minProtocol fOnlyActive mn), _) = _
    rw [scoreOf_eq_of_vin env.prims hVin, hVin]
  rw [rankLoop_eq hKnown hAgain, hFilter, List.map_map, List.map_map, hCollected]

/-- `GetMasternodeByRank` of a rank points to the masternode that has the rank. -/
theorem getMasternodeByRank_eq
    (hKnown : getBlockHash st cache (wrap32 nBlockHeight) = .ok (some hash, cache))
    (hChecks : ∀ mn ∈ vMasternodes, ∃ checked, mn.check env st = .ok checked)
    (hPrevouts : (vMasternodes.map fun mn => mn.vin.prevout).Nodup)
    (hScores : (vMasternodes.map (scoreOf env.prims hash)).Nodup) (hMem : mn ∈ vMasternodes)
    (hEligible : isEligible env st minProtocol fOnlyActive mn = true) :
    ∃ after i, getMasternodeByRank env st
        (vMasternodes.map (visited env st minProtocol fOnlyActive)) cache
        (betterCount env st hash minProtocol fOnlyActive vMasternodes mn + 1) nBlockHeight
        minProtocol fOnlyActive = .ok (after, cache, some i) ∧ vMasternodes[i]? = some mn := by
  obtain ⟨i, hAt⟩ := List.mem_iff_getElem?.mp hMem
  have hVin : vinOfRank (betterCount env st hash minProtocol fOnlyActive vMasternodes mn + 1)
      (env.scoreSort.sort ((vMasternodes.filter (isEligible env st minProtocol fOnlyActive)).map
        fun mn => (scoreOf env.prims hash mn, mn.vin))) 0 = some mn.vin := by
    have hPerm := env.scoreSort.perm ((vMasternodes.filter
      (isEligible env st minProtocol fOnlyActive)).map
        fun mn => (scoreOf env.prims hash mn, mn.vin))
    have hRank := getElem?_rank hPerm (env.scoreSort.sorted _) hScores hMem hEligible
    have hFound := vinOfRank_eq (env.scoreSort.sort ((vMasternodes.filter
      (isEligible env st minProtocol fOnlyActive)).map fun mn =>
        (scoreOf env.prims hash mn, mn.vin)))
      (betterCount env st hash minProtocol fOnlyActive vMasternodes mn) 0
    rw [hRank, zero_add, add_comm 1] at hFound
    exact hFound
  have hFind : findIdx ((vMasternodes.map (visited env st minProtocol fOnlyActive)).map
      (visited env st minProtocol fOnlyActive)) mn.vin = some i := by
    unfold findIdx
    rw [List.findIdx?_map, List.findIdx?_map]
    apply findIdx?_eq_some_of_unique hAt
    · simp [vin_visited]
    · intro j other hOther hSame
      simp only [Function.comp_apply, vin_visited, decide_eq_true_eq] at hSame
      exact eq_of_getElem?_of_nodup hPrevouts hOther hAt hSame
  have hRun : getMasternodeByRank env st
      (vMasternodes.map (visited env st minProtocol fOnlyActive)) cache
      (betterCount env st hash minProtocol fOnlyActive vMasternodes mn + 1) nBlockHeight
      minProtocol fOnlyActive = .ok ((vMasternodes.map (visited env st minProtocol
        fOnlyActive)).map (visited env st minProtocol fOnlyActive), cache, some i) := by
    unfold getMasternodeByRank
    simp only [rankLoop_visited hKnown hChecks, ok_bind, hVin, Option.bind_some, hFind]
  exact ⟨_, i, hRun, hAt⟩

/-- `GetMasternodeRanks` lists the masternode with its rank, and its input with no other. -/
theorem getMasternodeRanks_eq
    (scoreSort : MasternodeScoreSort)
    (hKnown : getBlockHash st cache (wrap32 nBlockHeight) = .ok (some hash, cache'))
    (hChecks : ∀ mn ∈ vMasternodes, ∃ checked, mn.check env st = .ok checked)
    (hPrevouts : (vMasternodes.map fun mn => mn.vin.prevout).Nodup)
    (hScores : (vMasternodes.map (scoreOf env.prims hash)).Nodup) (hMem : mn ∈ vMasternodes)
    (hEligible : isEligible env st minProtocol true mn = true) :
    ∃ after ranks, getMasternodeRanks env st scoreSort vMasternodes cache nBlockHeight
        minProtocol = .ok (after, cache', ranks) ∧
      ranks[betterCount env st hash minProtocol true vMasternodes mn]? =
        some ((betterCount env st hash minProtocol true vMasternodes mn : ℤ) + 1,
          (checkedOf env st mn).copy env.adjustedTime) ∧
      ∀ s ∈ ranks, s.2.vin.prevout = mn.vin.prevout →
        s.1 = betterCount env st hash minProtocol true vMasternodes mn + 1 := by
  have hPerm := scoreSort.perm ((vMasternodes.filter (isEligible env st minProtocol true)).map
    fun mn => (scoreOf env.prims hash mn, (checkedOf env st mn).copy env.adjustedTime))
  have hAt := getElem?_rank hPerm (scoreSort.sorted _) hScores hMem hEligible
  have hVin : ∀ mn : CMasternode,
      ((checkedOf env st mn).copy env.adjustedTime).vin.prevout = mn.vin.prevout := by
    intro mn
    exact congrArg CTxIn.prevout (vin_checkedOf mn)
  have hNodup := nodup_collected (fun mn : CMasternode => mn.vin.prevout) hPerm hVin hPrevouts
  have hRun : getMasternodeRanks env st scoreSort vMasternodes cache nBlockHeight minProtocol =
      .ok (vMasternodes.map (checkedOf env st), cache', numberRanks (scoreSort.sort
        ((vMasternodes.filter (isEligible env st minProtocol true)).map fun mn =>
          (scoreOf env.prims hash mn, (checkedOf env st mn).copy env.adjustedTime))) 0) := by
    unfold getMasternodeRanks
    simp only [hKnown, ok_bind, ranksLoop_eq (getBlockHash_again hKnown) hChecks]
  refine ⟨_, _, hRun, ?_, ?_⟩
  · rw [getElem?_numberRanks, hAt, Option.map_some, zero_add, add_comm 1]
  · intro s hIn hSame
    obtain ⟨j, hj⟩ := List.mem_iff_getElem?.mp hIn
    rw [getElem?_numberRanks, Option.map_eq_some_iff] at hj
    obtain ⟨scored, hScored, rfl⟩ := hj
    have hEq := eq_of_getElem?_of_nodup hNodup hScored hAt (hSame.trans (hVin mn).symm)
    rw [hEq]
    ring

/-- With outpoints and scores that differ, the rank of an eligible masternode is one more than
the number of eligible ones with a greater score, in whatever order they are listed.  It is
the number that `GetMasternodeRanks` gives to the masternode and no other, and
`GetMasternodeByRank` finds the masternode by it. -/
theorem masternodeRank_consistent
    (scoreSort : MasternodeScoreSort)
    (hKnown : getBlockHash st cache (wrap32 nBlockHeight) = .ok (some hash, cache'))
    (hChecks : ∀ mn ∈ vMasternodes, ∃ checked, mn.check env st = .ok checked)
    (hPrevouts : (vMasternodes.map fun mn => mn.vin.prevout).Nodup)
    (hScores : (vMasternodes.map (scoreOf env.prims hash)).Nodup) (hMem : mn ∈ vMasternodes)
    (hEligible : isEligible env st minProtocol fOnlyActive mn = true) :
    ∃ rank : ℤ,
      rank = 1 + (vMasternodes.countP fun other =>
        isEligible env st minProtocol fOnlyActive other &&
          scoreOf env.prims hash mn < scoreOf env.prims hash other : ℕ) ∧
      ∀ permuted, permuted.Perm vMasternodes →
        (∃ after, getMasternodeRank env st permuted cache mn.vin nBlockHeight minProtocol
            fOnlyActive = .ok (after, cache', rank) ∧
          ∃ again i, getMasternodeByRank env st after cache' rank nBlockHeight minProtocol
              fOnlyActive = .ok (again, cache', some i) ∧ permuted[i]? = some mn) ∧
        (fOnlyActive = true → ∃ after ranks, getMasternodeRanks env st scoreSort permuted cache
            nBlockHeight minProtocol = .ok (after, cache', ranks) ∧
          (∃ position : ℕ, (position : ℤ) + 1 = rank ∧
            ranks[position]? = some (rank, (checkedOf env st mn).copy env.adjustedTime)) ∧
          ∀ s ∈ ranks, s.2.vin.prevout = mn.vin.prevout → s.1 = rank) := by
  refine ⟨betterCount env st hash minProtocol fOnlyActive vMasternodes mn + 1, add_comm _ _, ?_⟩
  intro permuted hPerm
  have hChecks' : ∀ mn ∈ permuted, ∃ checked, mn.check env st = .ok checked :=
    fun mn hIn => hChecks mn (hPerm.mem_iff.mp hIn)
  have hPrevouts' := (hPerm.map fun mn => mn.vin.prevout).nodup_iff.mpr hPrevouts
  have hScores' := (hPerm.map (scoreOf env.prims hash)).nodup_iff.mpr hScores
  have hMem' := hPerm.mem_iff.mpr hMem
  rw [← betterCount_perm hPerm]
  refine ⟨?_, ?_⟩
  · refine ⟨_, getMasternodeRank_eq hKnown hChecks' hPrevouts' hScores' hMem' hEligible, ?_⟩
    exact getMasternodeByRank_eq (getBlockHash_again hKnown) hChecks' hPrevouts' hScores' hMem'
      hEligible
  · rintro rfl
    obtain ⟨after, ranks, hRun, hAt, hOnly⟩ := getMasternodeRanks_eq scoreSort hKnown hChecks'
      hPrevouts' hScores' hMem' hEligible
    exact ⟨after, ranks, hRun, ⟨_, rfl, hAt⟩, hOnly⟩

end Ranks

end CMasternodeMan

/-! ## Two ranks -/

namespace Sample

open CMasternodeMan

/-- Masternodes sorted by insertion. -/
def insertionMasternodeSort : MasternodeScoreSort where
  sort scores := scores.insertionSort fun first second => second.1 ≤ first.1
  perm scores := List.perm_insertionSort _ scores
  sorted scores := by
    have : Std.Total fun first second : ℕ × CMasternode => second.1 ≤ first.1 :=
      ⟨fun first second => Nat.le_total second.1 first.1⟩
    have : IsTrans (ℕ × CMasternode) fun first second => second.1 ≤ first.1 :=
      ⟨fun _ _ _ hFirst hSecond => Nat.le_trans hSecond hFirst⟩
    exact List.pairwise_insertionSort _ scores

def rankedMasternodes : List CMasternode :=
  [masternodeSeen 900 true, { masternodeSeen 900 true with vin := ⟨⟨8, 0⟩, [], UINT_MAX⟩ }]

def rankedHashes : Table ℤ ℕ := (∅ : Table ℤ ℕ).insert 4 503

theorem checks_rankedMasternodes :
    ∀ mn ∈ rankedMasternodes,
      ∃ checked, mn.check (masternodeEnv 900) (nodeWith []) = .ok checked := by
  intro mn hMem
  have hAll : ∀ mn ∈ rankedMasternodes,
      mn.check (masternodeEnv 900) (nodeWith []) = .ok mn := by decide +kernel
  exact ⟨mn, hAll mn hMem⟩

/-- The first masternode is found by its rank. -/
theorem rankedMasternodes_found :
    ∃ rank : ℤ, ∃ after again i,
      getMasternodeRank (masternodeEnv 900) (nodeWith []) rankedMasternodes rankedHashes
        (masternodeSeen 900 true).vin 4 0 true = .ok (after, rankedHashes, rank) ∧
      getMasternodeByRank (masternodeEnv 900) (nodeWith []) after rankedHashes rank 4 0 true =
        .ok (again, rankedHashes, some i) ∧
      rankedMasternodes[i]? = some (masternodeSeen 900 true) := by
  have hKnown : getBlockHash (nodeWith []) rankedHashes (wrap32 4) =
      .ok (some 503, rankedHashes) := by rfl
  obtain ⟨rank, -, hRanks⟩ := masternodeRank_consistent insertionMasternodeSort hKnown
    checks_rankedMasternodes (by decide +kernel) (by decide +kernel)
    (show masternodeSeen 900 true ∈ rankedMasternodes by decide +kernel)
    (show isEligible (masternodeEnv 900) (nodeWith []) 0 true (masternodeSeen 900 true) = true by
      decide +kernel)
  obtain ⟨⟨after, hRank, again, i, hFound, hAt⟩, -⟩ := hRanks _ (List.Perm.refl _)
  exact ⟨rank, after, again, i, hRank, hFound, hAt⟩

end Sample

end SocietyGold
