import SocietyGold.MasternodeMan

/-!
# Dead masternodes

A masternode is dead when it has not been seen within the expiration time or when its
collateral is refused.  The check is to take the rights of a masternode away: to be selected,
ranked and counted.  It leaves every entry enabled, so a dead masternode loses its rights
exactly when its port is known to be closed.
-/

namespace SocietyGold

open Support

/-- Not seen for too long, or without a collateral that may be spent. -/
def CMasternode.Dead (env : MasternodeEnv) (st : ChainState) (mn : CMasternode) : Prop :=
  mn.updatedWithin env.adjustedTime MASTERNODE_EXPIRATION_SECONDS = false ∨
    acceptsCollateral env st mn.vin = .ok false

instance (env : MasternodeEnv) (st : ChainState) (mn : CMasternode) :
    Decidable (mn.Dead env st) :=
  inferInstanceAs (Decidable (_ ∨ _))

namespace CMasternodeMan

section Rights

variable (env : MasternodeEnv) (st : ChainState)

/-- The masternodes of a list that are not dead. -/
def living (vMasternodes : List CMasternode) : List CMasternode :=
  vMasternodes.filter fun mn => !decide (mn.Dead env st)

/-- The check takes the rights of every dead masternode of a list away. -/
structure DeadLoseRights (vMasternodes : List CMasternode) : Prop where
  disabled : ∀ mn ∈ vMasternodes, mn.Dead env st →
    ∀ checked, mn.check env st = .ok checked → checked.isEnabled = false
  notSelected : ∀ vVins nMinimumAge after pos,
    findOldestNotInVec env st vMasternodes vVins nMinimumAge = .ok (after, some pos) →
      ∃ mn, vMasternodes[pos]? = some mn ∧ ¬mn.Dead env st
  notRanked : ∀ cache vin nBlockHeight minProtocol after cacheAfter rank,
    getMasternodeRank env st vMasternodes cache vin nBlockHeight minProtocol true =
        .ok (after, cacheAfter, rank) →
      rank ≠ -1 → ∃ mn ∈ vMasternodes, mn.vin = vin ∧ ¬mn.Dead env st
  notCounted : ∀ protocolVersion after i,
    countEnabled env st vMasternodes protocolVersion = .ok (after, i) →
      ∃ rest, countEnabled env st (living env st vMasternodes) protocolVersion = .ok (rest, i)

end Rights

/-! ## What the functions of the list look at -/

section Specs

variable {env : MasternodeEnv} {st : ChainState}

/-- An entry that `CountEnabled` counts. -/
def counts (protocolVersion : ℤ) (mn : CMasternode) : Bool :=
  protocolVersion ≤ mn.protocolVersion && mn.isPortOpen

/-- Where all checks return, `CountEnabled` counts the open ports. -/
theorem countEnabledLoop_eq
    (hShutdown : env.fRequestShutdown = false) (protocolVersion : ℤ)
    {vMasternodes : List CMasternode}
    (hChecks : ∀ mn ∈ vMasternodes, ∃ checked, mn.check env st = .ok checked) (i : ℕ) :
    ∃ after, countEnabledLoop env st protocolVersion vMasternodes i =
      .ok (after, i + vMasternodes.countP (counts protocolVersion)) := by
  induction vMasternodes generalizing i with
  | nil => exact ⟨[], rfl⟩
  | cons mn rest ih =>
      obtain ⟨checked, hChecked⟩ := hChecks mn (by simp)
      have hProtocol : checked.protocolVersion = mn.protocolVersion := by
        rw [CMasternode.check_eq_ok hShutdown hChecked]
      have hEnabled := CMasternode.isEnabled_of_check hShutdown hChecked
      obtain ⟨after, hRest⟩ := ih (fun mn hMem => hChecks mn (by simp [hMem]))
        (if checked.protocolVersion < protocolVersion ∨ !checked.isEnabled then i else i + 1)
      refine ⟨checked :: after, ?_⟩
      rw [countEnabledLoop, hChecked, ok_bind]
      dsimp only
      rw [hRest, ok_bind, List.countP_cons]
      have hCount : (if checked.protocolVersion < protocolVersion ∨ !checked.isEnabled then i
          else i + 1) = i + if counts protocolVersion mn = true then 1 else 0 := by
        rw [hProtocol, hEnabled]
        cases hPort : mn.isPortOpen with
        | false => simp [counts, hPort]
        | true =>
            by_cases hOld : mn.protocolVersion < protocolVersion
            · simp [counts, hPort, hOld]
            · simp [counts, hPort, hOld, not_lt.mp hOld]
      rw [hCount]
      congr 2
      omega

/-- What `FindOldestNotInVec` may select has its port open. -/
theorem isPortOpen_of_testOldest
    (hShutdown : env.fRequestShutdown = false) {vVins : List CTxIn} {nMinimumAge : ℤ}
    {mn after : CMasternode}
    (h : testOldest env st vVins nMinimumAge mn = .ok (after, true)) : mn.isPortOpen = true := by
  unfold testOldest at h
  obtain ⟨checked, hChecked, h⟩ := bind_eq_ok.mp h
  rw [← CMasternode.isEnabled_of_check hShutdown hChecked]
  cases hEnabled : checked.isEnabled with
  | true => rfl
  | false => simp [hEnabled] at h

/-- The entry the loop of `FindOldestNotInVec` ends with is the one it started with or one
with an open port. -/
theorem findOldestLoop_spec
    (hShutdown : env.fRequestShutdown = false) {vVins : List CTxIn} {nMinimumAge : ℤ}
    {vMasternodes after : List CMasternode} {pos : ℕ}
    {pOldest found : Option (ℕ × CMasternode)}
    (h : findOldestLoop env st vVins nMinimumAge vMasternodes pos pOldest = .ok (after, found)) :
    found = pOldest ∨
      ∃ n mn, vMasternodes[n]? = some mn ∧ mn.isPortOpen = true ∧
        found.map Prod.fst = some (pos + n) := by
  induction vMasternodes generalizing pos pOldest after with
  | nil =>
      simp only [findOldestLoop, Except.ok.injEq, Prod.mk.injEq] at h
      exact Or.inl h.2.symm
  | cons mn rest ih =>
      rw [findOldestLoop] at h
      obtain ⟨⟨tested, eligible⟩, hTested, h⟩ := bind_eq_ok.mp h
      obtain ⟨⟨restAfter, found'⟩, hRest, h⟩ := bind_eq_ok.mp h
      simp only [Except.ok.injEq, Prod.mk.injEq] at h
      obtain ⟨-, rfl⟩ := h
      rcases ih hRest with hSame | ⟨n, mn', hGet, hPort, hPos⟩
      · cases eligible with
        | false => exact Or.inl (by simpa using hSame)
        | true =>
            split_ifs at hSame
            · refine Or.inr ⟨0, mn, rfl, isPortOpen_of_testOldest hShutdown hTested, ?_⟩
              simp [hSame]
            · exact Or.inl hSame
      · refine Or.inr ⟨n + 1, mn', by simpa using hGet, hPort, ?_⟩
        rw [hPos]
        congr 1
        omega

/-- The scores `GetMasternodeRank` sorts are those of entries with an open port. -/
theorem rankLoop_spec
    (hShutdown : env.fRequestShutdown = false) {nBlockHeight minProtocol : ℤ}
    {vMasternodes after : List CMasternode} {cache cacheAfter : Table ℤ ℕ}
    {scores : List (ℕ × CTxIn)}
    (h : rankLoop env st nBlockHeight minProtocol true vMasternodes cache =
      .ok (after, scores, cacheAfter)) :
    ∀ score ∈ scores, ∃ mn ∈ vMasternodes, mn.vin = score.2 ∧ mn.isPortOpen = true := by
  induction vMasternodes generalizing cache after scores cacheAfter with
  | nil =>
      simp only [rankLoop, Except.ok.injEq, Prod.mk.injEq] at h
      simp [← h.2.1]
  | cons mn rest ih =>
      have hLift : ∀ score : ℕ × CTxIn,
          (∃ mn ∈ rest, mn.vin = score.2 ∧ mn.isPortOpen = true) →
            ∃ mn' ∈ mn :: rest, mn'.vin = score.2 ∧ mn'.isPortOpen = true := by
        rintro score ⟨mn', hMem, hVin, hPort⟩
        exact ⟨mn', by simp [hMem], hVin, hPort⟩
      rw [rankLoop] at h
      by_cases hOld : mn.protocolVersion < minProtocol
      · rw [if_pos hOld] at h
        obtain ⟨⟨restAfter, restScores, restCache⟩, hRest, h⟩ := bind_eq_ok.mp h
        simp only [Except.ok.injEq, Prod.mk.injEq] at h
        obtain ⟨-, rfl, -⟩ := h
        intro score hMem
        exact hLift score (ih hRest score hMem)
      · rw [if_neg hOld] at h
        obtain ⟨checked, hChecked, h⟩ := bind_eq_ok.mp h
        dsimp only at h
        have hVin : checked.vin = mn.vin := by
          rw [CMasternode.check_eq_ok hShutdown hChecked]
        have hEnabled := CMasternode.isEnabled_of_check hShutdown hChecked
        cases hPort : mn.isPortOpen with
        | false =>
            rw [if_pos (by simp [hEnabled, hPort])] at h
            obtain ⟨⟨restAfter, restScores, restCache⟩, hRest, h⟩ := bind_eq_ok.mp h
            simp only [Except.ok.injEq, Prod.mk.injEq] at h
            obtain ⟨-, rfl, -⟩ := h
            intro score hMem
            exact hLift score (ih hRest score hMem)
        | true =>
            rw [if_neg (by simp [hEnabled, hPort])] at h
            obtain ⟨⟨n2, scored⟩, -, h⟩ := bind_eq_ok.mp h
            obtain ⟨⟨restAfter, restScores, restCache⟩, hRest, h⟩ := bind_eq_ok.mp h
            simp only [Except.ok.injEq, Prod.mk.injEq] at h
            obtain ⟨-, rfl, -⟩ := h
            intro score hMem
            rcases List.mem_cons.mp hMem with rfl | hMem
            · exact ⟨mn, by simp, hVin.symm, hPort⟩
            · exact hLift score (ih hRest score hMem)

/-- A rank is the position of one of the scores. -/
theorem mem_of_rankOf {vin : CTxIn} {scores : List (ℕ × CTxIn)}
    (h : rankOf vin scores ≠ -1) : ∃ score ∈ scores, score.2 = vin := by
  unfold rankOf at h
  cases hFound : scores.findIdx? (fun s => s.2 = vin) with
  | none => simp [hFound] at h
  | some i =>
      obtain ⟨hLt, hVin, -⟩ := List.findIdx?_eq_some_iff_getElem.mp hFound
      exact ⟨scores[i], List.getElem_mem hLt, by simpa using hVin⟩

end Specs

/-! ## When dead masternodes lose their rights -/

section Rights

variable {env : MasternodeEnv} {st : ChainState} {vMasternodes : List CMasternode}

theorem notSelected_of_closed
    (hShutdown : env.fRequestShutdown = false)
    (hClosed : ∀ mn ∈ vMasternodes, mn.Dead env st → mn.isPortOpen = false)
    {vVins : List CTxIn} {nMinimumAge : ℤ} {after : List CMasternode} {pos : ℕ}
    (h : findOldestNotInVec env st vMasternodes vVins nMinimumAge = .ok (after, some pos)) :
    ∃ mn, vMasternodes[pos]? = some mn ∧ ¬mn.Dead env st := by
  unfold findOldestNotInVec at h
  obtain ⟨⟨loopAfter, found⟩, hLoop, h⟩ := bind_eq_ok.mp h
  simp only [Except.ok.injEq, Prod.mk.injEq] at h
  rcases findOldestLoop_spec hShutdown hLoop with hNone | ⟨n, mn, hGet, hPort, hPos⟩
  · simp [hNone] at h
  · rw [h.2] at hPos
    simp only [zero_add, Option.some.injEq] at hPos
    subst hPos
    refine ⟨mn, hGet, ?_⟩
    intro hDead
    have hShut := hClosed mn (List.mem_of_getElem? hGet) hDead
    simp [hShut] at hPort

theorem notRanked_of_closed
    (hShutdown : env.fRequestShutdown = false)
    (hClosed : ∀ mn ∈ vMasternodes, mn.Dead env st → mn.isPortOpen = false)
    {cache cacheAfter : Table ℤ ℕ} {vin : CTxIn} {nBlockHeight minProtocol rank : ℤ}
    {after : List CMasternode}
    (h : getMasternodeRank env st vMasternodes cache vin nBlockHeight minProtocol true =
      .ok (after, cacheAfter, rank))
    (hRank : rank ≠ -1) : ∃ mn ∈ vMasternodes, mn.vin = vin ∧ ¬mn.Dead env st := by
  unfold getMasternodeRank at h
  obtain ⟨⟨found, foundCache⟩, -, h⟩ := bind_eq_ok.mp h
  cases found with
  | none =>
      simp only [Except.ok.injEq, Prod.mk.injEq] at h
      exact absurd h.2.2.symm hRank
  | some hash =>
      obtain ⟨⟨loopAfter, scores, loopCache⟩, hLoop, h⟩ := bind_eq_ok.mp h
      simp only [Except.ok.injEq, Prod.mk.injEq] at h
      rw [← h.2.2] at hRank
      obtain ⟨score, hMem, hVin⟩ := mem_of_rankOf hRank
      have hScore := (env.scoreSort.perm scores).mem_iff.mp hMem
      obtain ⟨mn, hMn, hSame, hPort⟩ := rankLoop_spec hShutdown hLoop score hScore
      refine ⟨mn, hMn, hSame.trans hVin, ?_⟩
      intro hDead
      simp [hClosed mn hMn hDead] at hPort

theorem notCounted_of_closed
    (hShutdown : env.fRequestShutdown = false)
    (hChecks : ∀ mn ∈ vMasternodes, ∃ checked, mn.check env st = .ok checked)
    (hClosed : ∀ mn ∈ vMasternodes, mn.Dead env st → mn.isPortOpen = false)
    {protocolVersion : ℤ} {after : List CMasternode} {i : ℕ}
    (h : countEnabled env st vMasternodes protocolVersion = .ok (after, i)) :
    ∃ rest, countEnabled env st (living env st vMasternodes) protocolVersion = .ok (rest, i) := by
  unfold countEnabled at h ⊢
  generalize (if protocolVersion = -1 then MIN_MASTERNODE_PAYMENT_PROTO_VERSION_1
    else protocolVersion) = minimum at h ⊢
  obtain ⟨allAfter, hAll⟩ := countEnabledLoop_eq hShutdown minimum hChecks 0
  obtain ⟨rest, hLiving⟩ := countEnabledLoop_eq hShutdown minimum
    (show ∀ mn ∈ living env st vMasternodes, ∃ checked, mn.check env st = .ok checked from
      fun mn hMem => hChecks mn (List.mem_filter.mp hMem).1) 0
  have hSame : (living env st vMasternodes).countP (counts minimum) =
      vMasternodes.countP (counts minimum) := by
    unfold living
    rw [List.countP_filter]
    apply List.countP_congr
    intro mn hMem
    rw [Bool.and_eq_true]
    constructor
    · intro hBoth
      exact hBoth.1
    · intro hCounts
      refine ⟨hCounts, ?_⟩
      have hPort : mn.isPortOpen = true := by
        unfold counts at hCounts
        rw [Bool.and_eq_true] at hCounts
        exact hCounts.2
      have hAlive : ¬mn.Dead env st := by
        intro hDead
        simp [hClosed mn hMem hDead] at hPort
      simpa using hAlive
  rw [hAll, Except.ok.injEq, Prod.mk.injEq] at h
  refine ⟨rest, ?_⟩
  rw [hLiving, hSame, h.2]

/-- Dead masternodes lose their rights exactly when the port of each of them is marked as
closed before the check. -/
theorem deadLoseRights_iff
    (hShutdown : env.fRequestShutdown = false)
    (hChecks : ∀ mn ∈ vMasternodes, ∃ checked, mn.check env st = .ok checked) :
    DeadLoseRights env st vMasternodes ↔
      ∀ mn ∈ vMasternodes, mn.Dead env st → mn.isPortOpen = false := by
  constructor
  · intro hRights mn hMem hDead
    obtain ⟨checked, hChecked⟩ := hChecks mn hMem
    rw [← CMasternode.isEnabled_of_check hShutdown hChecked]
    exact hRights.disabled mn hMem hDead checked hChecked
  · intro hClosed
    constructor
    · intro mn hMem hDead checked hChecked
      rw [CMasternode.isEnabled_of_check hShutdown hChecked]
      exact hClosed mn hMem hDead
    · intro vVins nMinimumAge after pos h
      exact notSelected_of_closed hShutdown hClosed h
    · intro cache vin nBlockHeight minProtocol after cacheAfter rank h hRank
      exact notRanked_of_closed hShutdown hClosed h hRank
    · intro protocolVersion after i h
      exact notCounted_of_closed hShutdown hChecks hClosed h

end Rights

/-! ## A masternode that was never seen again -/

end CMasternodeMan

namespace Sample

open CMasternodeMan

/-- A node whose database has the unspent collateral. -/
def collateralNode : ChainState := nodeWith [(7, CTxIndex.unspent ⟨1, 8, 8⟩ 1)]

/-- The check of a masternode with an open port returns. -/
theorem check_masternodeSeen :
    (masternodeSeen 0 true).check (masternodeEnv 100000) collateralNode =
      .ok (masternodeSeen 0 true) := by
  decide +kernel

/-- A masternode that was last seen more than a day ago stays enabled and is selected. -/
theorem expired_selected :
    (masternodeSeen 0 true).Dead (masternodeEnv 100000) collateralNode ∧
      findOldestNotInVec (masternodeEnv 100000) collateralNode [masternodeSeen 0 true] [] 0 =
        .ok ([{ masternodeSeen 0 true with cacheInputAgeBlock := 10 }], some 0) ∧
      ¬DeadLoseRights (masternodeEnv 100000) collateralNode [masternodeSeen 0 true] := by
  have hDead : (masternodeSeen 0 true).Dead (masternodeEnv 100000) collateralNode :=
    Or.inl (by decide +kernel)
  refine ⟨hDead, by decide +kernel, ?_⟩
  intro hRights
  have hDisabled := hRights.disabled _ (by simp) hDead _ check_masternodeSeen
  exact absurd hDisabled (by decide +kernel)

/-- With its port closed it has no rights, and the living masternode beside it keeps its own. -/
theorem closed_not_selected :
    DeadLoseRights (masternodeEnv 100000) collateralNode
      [masternodeSeen 0 false, masternodeSeen 99990 true] := by
  apply (deadLoseRights_iff rfl ?_).mpr
  · decide +kernel
  · intro mn hMem
    rcases List.mem_pair.mp hMem with rfl | rfl
    · exact ⟨masternodeSeen 0 false, by decide +kernel⟩
    · exact ⟨masternodeSeen 99990 true, by decide +kernel⟩

end Sample

end SocietyGold
