import SocietyGold.DeadMasternodes
import SocietyGold.Support.OrderedMatch
import SocietyGold.Support.WhileLoop

/-!
# Upkeep of the masternode list

The maintenance thread removes masternodes in `CheckAndRemove` and prunes the list of the
masternodes it has used.  Both loops go on after an element was erased, but the statements
that erase are commented out, so a loop that meets an element to erase does not return.
-/

namespace SocietyGold

open Support

/-! ## Removing masternodes -/

/-- The list and the maps of who asked whom.  They are variables of the program, which all
`CMasternodeMan` objects share. -/
structure MasternodeLists where
  vMasternodes : List CMasternode
  mAskedUsForMasternodeList : Table CNetAddr ℤ
  mWeAskedForMasternodeList : Table CNetAddr ℤ
  mWeAskedForMasternodeListEntry : Table COutPoint ℤ

/-- Erase the entries whose time is over. -/
def removeExpired {K : Type} [DecidableEq K] (now : ℤ) (asked : Table K ℤ) : Table K ℤ :=
  (asked.keys.filter fun k => (asked.lookup k).any (· < now)).foldl
    (fun asked k => asked.erase k) asked

/-- The lists without what has expired in the maps. -/
def MasternodeLists.expire (lists : MasternodeLists) (now : ℤ) : MasternodeLists where
  vMasternodes := lists.vMasternodes
  mAskedUsForMasternodeList := removeExpired now lists.mAskedUsForMasternodeList
  mWeAskedForMasternodeList := removeExpired now lists.mWeAskedForMasternodeList
  mWeAskedForMasternodeListEntry := removeExpired now lists.mWeAskedForMasternodeListEntry

namespace CMasternodeMan

section Upkeep

variable (env : MasternodeEnv) (st : ChainState) (nMasternodeMinProtocol : ℤ)

/-- `CMasternodeMan::Check`. -/
def checkAll : List CMasternode → Checked (List CMasternode)
  | [] => .ok []
  | mn :: rest => do
      let mn ← mn.check env st
      let rest ← checkAll rest
      .ok (mn :: rest)

/-- An entry that `CheckAndRemove` is to remove. -/
def isRemovable (mn : CMasternode) : Bool :=
  mn.activeState = MASTERNODE_REMOVE || mn.activeState = MASTERNODE_VIN_SPENT ||
    mn.protocolVersion < nMasternodeMinProtocol

/-- `CheckAndRemove`, with a bound on the rounds of its first loop: nothing if they do not
suffice.  The loop stays where it is at an entry to remove. -/
def checkAndRemove (fuel : ℕ) (lists : MasternodeLists) : Checked (Option MasternodeLists) := do
  let vMasternodes ← checkAll env st lists.vMasternodes
  .ok ((runLoop (walkRound (isRemovable nMasternodeMinProtocol)) fuel (vMasternodes, 0)).map
    fun walk => { lists.expire env.time with vMasternodes := walk.1 })

end Upkeep

/-! ## Pruning the used masternodes -/

/-- Nine tenths of the enabled masternodes, rounded down. -/
def usedThreshold (nEnabled : ℕ) : ℕ := nEnabled * 9 / 10

/-- One round of the loop of `DoAutomaticDenominating` over `vecMasternodesUsed`, from which
nothing is erased. -/
def pruneRound (nThreshold : ℕ) (vecMasternodesUsed : List CTxIn) : Option (List CTxIn) :=
  if nThreshold < vecMasternodesUsed.length then some vecMasternodesUsed else none

theorem loopReturns_pruneRound_iff
    {nThreshold : ℕ} {used left : List CTxIn} :
    LoopReturns (pruneRound nThreshold) used left ↔ used.length ≤ nThreshold ∧ left = used := by
  by_cases hMany : nThreshold < used.length
  · have hStuck : pruneRound nThreshold used = some used := if_pos hMany
    refine iff_of_false (not_loopReturns_of_stuck hStuck) ?_
    rintro ⟨hFew, -⟩
    omega
  · have hDone : pruneRound nThreshold used = none := if_neg hMany
    rw [loopReturns_of_none hDone]
    simp [not_lt.mp hMany]

/-! ## When the maintenance thread comes through -/

section Upkeep

variable {env : MasternodeEnv} {st : ChainState} {nMasternodeMinProtocol : ℤ}

theorem checkAll_eq_ok
    {vMasternodes checked : List CMasternode} :
    checkAll env st vMasternodes = .ok checked ↔
      List.Forall₂ (fun mn mn' => mn.check env st = .ok mn') vMasternodes checked := by
  induction vMasternodes generalizing checked with
  | nil => simp [checkAll, eq_comm]
  | cons mn rest ih =>
      rw [checkAll, List.forall₂_cons_left_iff]
      simp only [bind_eq_ok, Except.ok.injEq, ih]
      constructor
      · rintro ⟨mn', hMn, rest', hRest, rfl⟩
        exact ⟨mn', rest', hMn, hRest, rfl⟩
      · rintro ⟨mn', rest', hMn, hRest, rfl⟩
        exact ⟨mn', hMn, rest', hRest, rfl⟩

theorem exists_checkAll
    {vMasternodes : List CMasternode}
    (h : ∀ mn ∈ vMasternodes, ∃ checked, mn.check env st = .ok checked) :
    ∃ checked, checkAll env st vMasternodes = .ok checked := by
  induction vMasternodes with
  | nil => exact ⟨[], rfl⟩
  | cons mn rest ih =>
      obtain ⟨mn', hMn⟩ := h mn List.mem_cons_self
      obtain ⟨rest', hRest⟩ := ih fun mn hMem => h mn (List.mem_cons_of_mem _ hMem)
      exact ⟨mn' :: rest', by rw [checkAll, hMn, ok_bind, hRest, ok_bind]⟩

/-- What the check leaves is removable for an old protocol, and for its state only if the
check did nothing. -/
theorem isRemovable_of_check
    {mn checked : CMasternode} (h : mn.check env st = .ok checked) :
    isRemovable nMasternodeMinProtocol checked = false ↔
      nMasternodeMinProtocol ≤ mn.protocolVersion ∧
        (env.fRequestShutdown = true →
          mn.activeState ≠ MASTERNODE_REMOVE ∧ mn.activeState ≠ MASTERNODE_VIN_SPENT) := by
  cases hShutdown : env.fRequestShutdown with
  | true =>
      have hSame : checked = mn := by
        rw [CMasternode.check, if_pos hShutdown] at h
        exact (Except.ok.inj h).symm
      rw [hSame]
      simp [isRemovable]
      tauto
  | false =>
      rw [CMasternode.check_eq_ok hShutdown h]
      simp [isRemovable, MASTERNODE_ENABLED, MASTERNODE_REMOVE, MASTERNODE_VIN_SPENT]

/-- The loop of `CheckAndRemove` removes nothing, and it returns only where there is nothing to
remove. -/
theorem checkAndRemove_returns_iff
    {lists after : MasternodeLists} {checked : List CMasternode}
    (hChecked : checkAll env st lists.vMasternodes = .ok checked) :
    (∃ fuel, checkAndRemove env st nMasternodeMinProtocol fuel lists = .ok (some after)) ↔
      (∀ mn ∈ checked, isRemovable nMasternodeMinProtocol mn = false) ∧
        after = { lists.expire env.time with vMasternodes := checked } := by
  have hWalk := @loopReturns_walkRound_iff _ (isRemovable nMasternodeMinProtocol) checked 0
    (Nat.zero_le _)
  rw [List.drop_zero] at hWalk
  unfold checkAndRemove
  simp only [hChecked, ok_bind, Except.ok.injEq, Option.map_eq_some_iff]
  constructor
  · rintro ⟨fuel, walk, hRun, rfl⟩
    obtain ⟨hAll, rfl⟩ := hWalk.mp ⟨fuel, hRun⟩
    exact ⟨hAll, rfl⟩
  · rintro ⟨hAll, rfl⟩
    obtain ⟨fuel, hRun⟩ := hWalk.mpr ⟨hAll, rfl⟩
    exact ⟨fuel, _, hRun, rfl⟩

variable (env st nMasternodeMinProtocol)

/-- One pass of the maintenance thread comes through these loops: `CheckAndRemove` returns and
leaves the checked entries that are not to be removed, and the pruning returns and leaves no
more than nine tenths of the number of enabled masternodes. -/
structure UpkeepReturns (lists : MasternodeLists) (vecMasternodesUsed : List CTxIn)
    (nEnabled : ℕ) : Prop where
  removes : ∃ fuel checked after, checkAll env st lists.vMasternodes = .ok checked ∧
    checkAndRemove env st nMasternodeMinProtocol fuel lists = .ok (some after) ∧
    after.vMasternodes = checked.filter fun mn => !isRemovable nMasternodeMinProtocol mn
  prunes : ∃ left, LoopReturns (pruneRound (usedThreshold nEnabled)) vecMasternodesUsed left ∧
    10 * left.length ≤ 9 * nEnabled

variable {env st nMasternodeMinProtocol}

/-- It comes through exactly when there is nothing to remove and nothing to prune. -/
theorem upkeepReturns_iff
    {lists : MasternodeLists} {vecMasternodesUsed : List CTxIn} {nEnabled : ℕ} :
    UpkeepReturns env st nMasternodeMinProtocol lists vecMasternodesUsed nEnabled ↔
      (∀ mn ∈ lists.vMasternodes, (∃ checked, mn.check env st = .ok checked) ∧
        nMasternodeMinProtocol ≤ mn.protocolVersion ∧
        (env.fRequestShutdown = true →
          mn.activeState ≠ MASTERNODE_REMOVE ∧ mn.activeState ≠ MASTERNODE_VIN_SPENT)) ∧
      10 * vecMasternodesUsed.length ≤ 9 * nEnabled := by
  constructor
  · rintro ⟨⟨fuel, checked, after, hChecked, hRun, -⟩, ⟨left, hPrune, -⟩⟩
    obtain ⟨hFew, -⟩ := loopReturns_pruneRound_iff.mp hPrune
    obtain ⟨hNone, -⟩ := (checkAndRemove_returns_iff hChecked).mp ⟨fuel, hRun⟩
    refine ⟨?_, by unfold usedThreshold at hFew; omega⟩
    intro mn hMem
    obtain ⟨mn', hMem', hCheck⟩ := exists_right_of_forall₂ (checkAll_eq_ok.mp hChecked) hMem
    exact ⟨⟨mn', hCheck⟩, (isRemovable_of_check hCheck).mp (hNone mn' hMem')⟩
  · rintro ⟨hAll, hFew⟩
    obtain ⟨checked, hChecked⟩ := exists_checkAll fun mn hMem => (hAll mn hMem).1
    have hNone : ∀ mn ∈ checked, isRemovable nMasternodeMinProtocol mn = false := by
      intro mn' hMem'
      obtain ⟨mn, hMem, hCheck⟩ := exists_left_of_forall₂ (checkAll_eq_ok.mp hChecked) hMem'
      exact (isRemovable_of_check hCheck).mpr (hAll mn hMem).2
    constructor
    · obtain ⟨fuel, hRun⟩ := (checkAndRemove_returns_iff hChecked).mpr ⟨hNone, rfl⟩
      refine ⟨fuel, checked, _, hChecked, hRun, ?_⟩
      refine (List.filter_eq_self.mpr ?_).symm
      intro mn hMem
      rw [hNone mn hMem, Bool.not_false]
    · refine ⟨vecMasternodesUsed, loopReturns_pruneRound_iff.mpr ⟨?_, rfl⟩, hFew⟩
      unfold usedThreshold
      omega

end Upkeep

end CMasternodeMan

/-! ## An old masternode -/

namespace Sample

/-- One masternode with the protocol before the least that is paid. -/
def oldProtocolLists : MasternodeLists where
  vMasternodes := [{ masternodeSeen 100000 true with protocolVersion := 10006 }]
  mAskedUsForMasternodeList := ∅
  mWeAskedForMasternodeList := ∅
  mWeAskedForMasternodeListEntry := ∅

/-- The maintenance thread hangs on it. -/
theorem oldProtocol_hangs :
    ¬CMasternodeMan.UpkeepReturns (masternodeEnv 100000) collateralNode
      CMasternodeMan.MIN_MASTERNODE_PAYMENT_PROTO_VERSION_1 oldProtocolLists [] 1 := by
  rintro ⟨⟨fuel, checked, after, hChecked, hRun, -⟩, -⟩
  obtain ⟨hNone, -⟩ := (CMasternodeMan.checkAndRemove_returns_iff hChecked).mp ⟨fuel, hRun⟩
  have hFound : (CMasternodeMan.checkAll (masternodeEnv 100000) collateralNode
      oldProtocolLists.vMasternodes).toOption.map (fun checked =>
        checked.map fun mn => mn.protocolVersion) = some [10006] := by
    decide +kernel
  rw [hChecked] at hFound
  cases checked with
  | nil => cases hFound
  | cons mn rest =>
      have hProtocol : mn.protocolVersion = 10006 :=
        (List.cons.inj (Option.some.inj hFound)).1
      have hNot := hNone mn List.mem_cons_self
      simp [CMasternodeMan.isRemovable, hProtocol,
        CMasternodeMan.MIN_MASTERNODE_PAYMENT_PROTO_VERSION_1] at hNot

end Sample

end SocietyGold
