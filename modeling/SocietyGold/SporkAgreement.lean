import SocietyGold.SporkAuthority
import SocietyGold.Support.LastWriter

/-!
# Agreement on sporks

The active spork of an id is a register with the time of signature as its stamp.
`ProcessSpork` follows the rule that the last writer wins.  `UpdateSpork` follows it only when
the clock is not behind the time of the active spork; a node that updates with a late clock
goes back to an older time, and disagrees with the nodes that receive its spork.
-/

namespace SocietyGold

open Support

section Agreement

variable (signer : CDarkSendSigner) (events : List (SporkContext × SporkAction))

/-- The sporks that come to a node in a run. -/
def sporksOf : List CSporkMessage := events.filterMap (sporkOfEvent signer)

/-- No step lowers the time of signature of an active spork. -/
def NeverDecreases : Prop :=
  ∀ before event, before ++ [event] <+: events →
    ∀ nSporkID active, (sporksAfter signer before).mapSporksActive.lookup nSporkID = some active →
      ∃ active', (sporksAfter signer (before ++ [event])).mapSporksActive.lookup nSporkID =
          some active' ∧ active.nTimeSigned ≤ active'.nTimeSigned

/-- Each call of `UpdateSpork` that makes a spork comes at a time that is not before the time
of the active spork with its id. -/
def KeepsClock : Prop :=
  ∀ before ctx nSporkID nValue,
    before ++ [(ctx, SporkAction.updated nSporkID nValue)] <+: events →
    (sporkOfUpdate signer ctx nSporkID nValue).isSome →
    ∀ active, (sporksAfter signer before).mapSporksActive.lookup nSporkID = some active →
      active.nTimeSigned ≤ ctx.time

/-- The node takes part: it is not in lite mode and has a best block. -/
def Listens : Prop :=
  ∀ event ∈ events, event.1.fLiteMode = false ∧ event.1.hasBestBlock = true

/-- Among the sporks with one id, the time of signature tells them apart. -/
def DistinctTimes (sporks : List CSporkMessage) : Prop :=
  ∀ first ∈ sporks, ∀ second ∈ sporks, first.nSporkID = second.nSporkID →
    first.nTimeSigned = second.nTimeSigned → first = second

/-- The sporks of a list with an id. -/
def withID (sporks : List CSporkMessage) (nSporkID : ℤ) : Set CSporkMessage :=
  {spork | spork ∈ sporks ∧ spork.nSporkID = nSporkID}

end Agreement

section Results

variable {signer : CDarkSendSigner} {events before : List (SporkContext × SporkAction)}
  {event : SporkContext × SporkAction} {st : SporkState}

/-! ## One step -/

/-- What comes to a node that takes part is written by the rule, provided a call of
`UpdateSpork` is not behind the active spork. -/
theorem lastWriterStep
    {spork : CSporkMessage} (hSpork : sporkOfEvent signer event = some spork)
    (hListens : event.1.fLiteMode = false ∧ event.1.hasBestBlock = true)
    (hClock : ∀ nSporkID nValue, event.2 = .updated nSporkID nValue → ∀ active,
      st.mapSporksActive.lookup nSporkID = some active → active.nTimeSigned ≤ event.1.time) :
    LastWriterStep CSporkMessage.nTimeSigned
      (st.mapSporksActive.lookup spork.nSporkID) spork
      ((st.step signer event).mapSporksActive.lookup spork.nSporkID) := by
  obtain ⟨ctx, action⟩ := event
  obtain ⟨hFull, hBest⟩ : ctx.fLiteMode = false ∧ ctx.hasBestBlock = true := hListens
  cases action with
  | received received =>
      cases hSpork
      simp only [SporkState.step, processSpork_eq]
      cases hActive : st.mapSporksActive.lookup spork.nSporkID with
      | none =>
          have hPasses : st.passesTests ctx spork = true := by
            simp [SporkState.passesTests, hFull, hBest, hActive]
          rw [if_pos hPasses, store_lookup, if_pos rfl]
          exact .replaced (by simp)
      | some active =>
          by_cases hNewer : active.nTimeSigned < spork.nTimeSigned
          · have hPasses : st.passesTests ctx spork = true := by
              simp [SporkState.passesTests, hFull, hBest, hActive, hNewer]
            rw [if_pos hPasses, store_lookup, if_pos rfl]
            refine .replaced ?_
            rintro c hc
            cases hc
            exact hNewer.le
          · have hStopped : st.passesTests ctx spork = false := by
              simp [SporkState.passesTests, hFull, hBest, hActive, not_lt.mp hNewer]
            simp only [hStopped, Bool.false_eq_true, if_false, hActive]
            exact .kept active rfl (not_lt.mp hNewer)
  | updated nSporkID nValue =>
      obtain ⟨hID, -, hTime⟩ := sporkOfUpdate_eq_some (show sporkOfUpdate signer ctx nSporkID
        nValue = some spork from hSpork)
      have hStep : st.step signer (ctx, .updated nSporkID nValue) =
          st.store signer ctx spork := by
        simp only [sporkOfEvent] at hSpork
        simp only [SporkState.step, updateSpork, hSpork]
      rw [hStep, store_lookup, if_pos rfl]
      refine .replaced ?_
      intro active hActive
      rw [hTime]
      exact hClock nSporkID nValue rfl active (by rw [← hID]; exact hActive)

/-- Ids other than that of the spork are left alone. -/
theorem step_lookup_of_ne
    {nSporkID : ℤ} (hOther : ∀ spork, sporkOfEvent signer event = some spork →
      nSporkID ≠ spork.nSporkID) :
    (st.step signer event).mapSporksActive.lookup nSporkID =
      st.mapSporksActive.lookup nSporkID := by
  rcases @step_cases signer st event with hSame | ⟨spork, hSpork, hStore⟩
  · rw [hSame]
  · rw [hStore, store_lookup, if_neg (hOther spork hSpork)]

/-! ## Runs -/

theorem withID_concat (nSporkID : ℤ) :
    withID (sporksOf signer (before ++ [event])) nSporkID =
      match sporkOfEvent signer event with
      | none => withID (sporksOf signer before) nSporkID
      | some spork =>
          if spork.nSporkID = nSporkID then
            insert spork (withID (sporksOf signer before) nSporkID)
          else withID (sporksOf signer before) nSporkID := by
  ext message
  simp only [sporksOf, withID, List.filterMap_append, List.mem_append, Set.mem_ofPred_eq]
  cases hSpork : sporkOfEvent signer event with
  | none => simp [hSpork]
  | some spork =>
      simp only [List.filterMap_cons, hSpork, List.filterMap_nil, List.mem_singleton]
      split_ifs with hID
      · rw [Set.mem_insert_iff, Set.mem_ofPred_eq]
        constructor
        · rintro ⟨hMem | rfl, hSame⟩
          · exact Or.inr ⟨hMem, hSame⟩
          · exact Or.inl rfl
        · rintro (rfl | ⟨hMem, hSame⟩)
          · exact ⟨Or.inr rfl, hID⟩
          · exact ⟨Or.inl hMem, hSame⟩
      · rw [Set.mem_ofPred_eq]
        constructor
        · rintro ⟨hMem | rfl, hSame⟩
          · exact ⟨hMem, hSame⟩
          · exact absurd hSame hID
        · rintro ⟨hMem, hSame⟩
          exact ⟨Or.inl hMem, hSame⟩

/-- With clocks that are not behind, the active spork of each id is the latest that came. -/
theorem isLatest_sporksAfter
    (hListens : Listens events) (hClock : KeepsClock signer events)
    (hBefore : before <+: events) (nSporkID : ℤ) :
    IsLatest CSporkMessage.nTimeSigned (withID (sporksOf signer before) nSporkID)
      ((sporksAfter signer before).mapSporksActive.lookup nSporkID) := by
  induction before using List.reverseRecOn with
  | nil =>
      have hNone : withID (sporksOf signer []) nSporkID = ∅ := by
        simp [withID, sporksOf]
      rw [hNone]
      exact isLatest_empty
  | append_singleton before event ih =>
      have hOld := ih ((List.prefix_append _ _).trans hBefore)
      rw [withID_concat, sporksAfter_concat]
      cases hSpork : sporkOfEvent signer event with
      | none =>
          rw [step_lookup_of_ne (by simp [hSpork])]
          exact hOld
      | some spork =>
          dsimp only
          by_cases hID : spork.nSporkID = nSporkID
          · rw [if_pos hID]
            subst hID
            apply hOld.write
            apply lastWriterStep hSpork (hListens event (hBefore.subset (by simp)))
            intro nSporkID nValue hUpdated active hActive
            obtain ⟨ctx, action⟩ := event
            cases hUpdated
            exact hClock before ctx nSporkID nValue hBefore
              (by rw [show sporkOfUpdate signer ctx nSporkID nValue = some spork from hSpork]; rfl)
              active hActive
          · rw [if_neg hID, step_lookup_of_ne]
            · exact hOld
            · intro spork' hSpork' hEq
              rw [hSpork, Option.some.injEq] at hSpork'
              exact hID (by rw [hSpork', hEq])

/-- The times of the active sporks never decrease exactly if no call of `UpdateSpork` is
behind the active spork. -/
theorem neverDecreases_iff : NeverDecreases signer events ↔ KeepsClock signer events := by
  constructor
  · intro hNever before ctx nSporkID nValue hBefore hMade active hActive
    obtain ⟨msg, hMsg⟩ := Option.isSome_iff_exists.mp hMade
    obtain ⟨hID, -, hTime⟩ := sporkOfUpdate_eq_some hMsg
    obtain ⟨active', hActive', hLe⟩ := hNever before _ hBefore nSporkID active hActive
    rw [sporksAfter_concat] at hActive'
    simp only [SporkState.step, updateSpork, hMsg] at hActive'
    rw [store_lookup, if_pos hID.symm, Option.some.injEq] at hActive'
    rw [← hActive', hTime] at hLe
    exact hLe
  · intro hClock before event hBefore nSporkID active hActive
    rw [sporksAfter_concat]
    obtain ⟨ctx, action⟩ := event
    cases action with
    | received spork =>
        simp only [SporkState.step, processSpork_eq]
        split_ifs with hPasses
        · rw [store_lookup]
          split_ifs with hID
          · subst hID
            refine ⟨spork, rfl, ?_⟩
            simp only [SporkState.passesTests, hActive, Option.any_some, ge_iff_le,
              Bool.and_eq_true, Bool.not_eq_true', decide_eq_false_iff_not, not_le] at hPasses
            exact hPasses.2.le
          · exact ⟨active, hActive, le_rfl⟩
        · exact ⟨active, hActive, le_rfl⟩
    | updated nUpdated nValue =>
        simp only [SporkState.step, updateSpork]
        cases hMsg : sporkOfUpdate signer ctx nUpdated nValue with
        | none => exact ⟨active, hActive, le_rfl⟩
        | some msg =>
            obtain ⟨hMsgID, -, hTime⟩ := sporkOfUpdate_eq_some hMsg
            dsimp only
            rw [store_lookup]
            split_ifs with hID
            · refine ⟨msg, rfl, ?_⟩
              rw [hTime]
              refine hClock before ctx nUpdated nValue hBefore (by rw [hMsg]; rfl) active ?_
              rw [← hMsgID, ← hID]
              exact hActive
            · exact ⟨active, hActive, le_rfl⟩

/-- Two nodes to which the same sporks come, in any orders and any number of times, agree on
the active sporks: for each id it is the one that was signed last. -/
theorem sporks_agree
    {events' : List (SporkContext × SporkAction)}
    (hListens : Listens events) (hListens' : Listens events')
    (hClock : KeepsClock signer events) (hClock' : KeepsClock signer events')
    (hSame : ∀ spork, spork ∈ sporksOf signer events ↔ spork ∈ sporksOf signer events')
    (hDistinct : DistinctTimes (sporksOf signer events)) :
    (∀ nSporkID, (sporksAfter signer events).mapSporksActive.lookup nSporkID =
        (sporksAfter signer events').mapSporksActive.lookup nSporkID) ∧
      (∀ nSporkID, IsLatest CSporkMessage.nTimeSigned
        (withID (sporksOf signer events) nSporkID)
        ((sporksAfter signer events).mapSporksActive.lookup nSporkID)) ∧
      NeverDecreases signer events ∧ NeverDecreases signer events' := by
  have hLatest := isLatest_sporksAfter hListens hClock (List.prefix_refl events)
  have hLatest' := isLatest_sporksAfter hListens' hClock' (List.prefix_refl events')
  refine ⟨?_, hLatest, neverDecreases_iff.mpr hClock, neverDecreases_iff.mpr hClock'⟩
  intro nSporkID
  have hSets : withID (sporksOf signer events') nSporkID =
      withID (sporksOf signer events) nSporkID := by
    ext spork
    simp only [withID, Set.mem_ofPred_eq, hSame]
  have hOther := hLatest' nSporkID
  rw [hSets] at hOther
  refine (hLatest nSporkID).unique ?_ hOther
  intro first hFirst second hSecond hTime
  exact hDistinct first hFirst.1 second hSecond.1 (hFirst.2.trans hSecond.2.symm) hTime

end Results

/-! ## A clock that is late -/

namespace Sample

/-- What the holder of the master key makes at a time. -/
def updatedSpork (time : ℤ) : CSporkMessage :=
  let spork : CSporkMessage := ⟨[], 10007, 5, time⟩
  { spork with vchSig := toBytesLE 32 (sporkSigner.messageHash spork.strMessage) }

/-- The node that receives a spork and then updates it by its own clock. -/
def updatingRun (time : ℤ) : List (SporkContext × SporkAction) :=
  [(sporkContext 0, .received (signedSpork 1600000000)), (sporkContext time, .updated 10007 5)]

/-- The node that receives the two sporks, the second one first. -/
def receivingRun (time : ℤ) : List (SporkContext × SporkAction) :=
  [(sporkContext 0, .received (updatedSpork time)),
    (sporkContext 0, .received (signedSpork 1600000000))]

theorem sporksOf_updatingRun (time : ℤ) :
    sporksOf sporkSigner (updatingRun time) = [signedSpork 1600000000, updatedSpork time] := by
  have hMade : sporkOfUpdate sporkSigner (sporkContext time) 10007 5 =
      some (updatedSpork time) := by
    simp [sporkOfUpdate, signSpork, sporkSigner, sporkContext, CDarkSendSigner.signMessage,
      updatedSpork, CSporkMessage.strMessage, CDarkSendSigner.messageHash]
  simp [sporksOf, updatingRun, sporkOfEvent, hMade]

theorem sporksOf_receivingRun (time : ℤ) :
    sporksOf sporkSigner (receivingRun time) = [updatedSpork time, signedSpork 1600000000] := by
  rfl

/-- The node with the late clock goes back to an older spork, which the other node ignores. -/
theorem lateUpdate_disagrees :
    (∀ spork ∈ sporksOf sporkSigner (updatingRun 1500000000), spork.ValidlySigned sporkSigner) ∧
      (∀ spork, spork ∈ sporksOf sporkSigner (updatingRun 1500000000) ↔
        spork ∈ sporksOf sporkSigner (receivingRun 1500000000)) ∧
      DistinctTimes (sporksOf sporkSigner (updatingRun 1500000000)) ∧
      (sporksAfter sporkSigner (updatingRun 1500000000)).mapSporksActive.lookup 10007 =
        some (updatedSpork 1500000000) ∧
      (sporksAfter sporkSigner (receivingRun 1500000000)).mapSporksActive.lookup 10007 =
        some (signedSpork 1600000000) ∧
      ¬NeverDecreases sporkSigner (updatingRun 1500000000) := by
  have hLate : (sporksAfter sporkSigner (updatingRun 1500000000)).mapSporksActive.lookup 10007 =
      some (updatedSpork 1500000000) := by
    decide +kernel
  refine ⟨by decide +kernel, ?_, ?_, hLate, by decide +kernel, ?_⟩
  · intro spork
    rw [sporksOf_updatingRun, sporksOf_receivingRun]
    simp only [List.mem_cons, List.not_mem_nil, or_false]
    exact or_comm
  · unfold DistinctTimes
    decide +kernel
  · intro hNever
    have hFirst : (sporksAfter sporkSigner [(sporkContext 0,
        SporkAction.received (signedSpork 1600000000))]).mapSporksActive.lookup 10007 =
          some (signedSpork 1600000000) := by
      decide +kernel
    obtain ⟨active, hActive, hLe⟩ := hNever
      [(sporkContext 0, .received (signedSpork 1600000000))]
      (sporkContext 1500000000, .updated 10007 5) (List.prefix_refl _) 10007 _ hFirst
    have hAfter : some (updatedSpork 1500000000) = some active := hLate.symm.trans hActive
    rw [Option.some.injEq] at hAfter
    rw [← hAfter] at hLe
    exact absurd hLe (by decide +kernel)

/-- With a clock that is not behind, the two nodes agree. -/
theorem updates_agree :
    (sporksAfter sporkSigner (updatingRun 1600000001)).mapSporksActive.lookup 10007 =
      (sporksAfter sporkSigner (receivingRun 1600000001)).mapSporksActive.lookup 10007 := by
  refine (sporks_agree ?_ ?_ ?_ ?_ ?_ ?_).1 10007
  · intro event hMem
    rcases List.mem_pair.mp hMem with rfl | rfl <;> exact ⟨rfl, rfl⟩
  · intro event hMem
    rcases List.mem_pair.mp hMem with rfl | rfl <;> exact ⟨rfl, rfl⟩
  · intro before ctx nSporkID nValue hBefore _ active hActive
    have hLength := hBefore.length_le
    simp only [updatingRun, List.length_append, List.length_cons, List.length_nil] at hLength
    obtain ⟨rest, hRest⟩ := hBefore
    rcases before with _ | ⟨first, _ | ⟨second, more⟩⟩
    · cases hRest
    · cases hRest
      have hFirst : (sporksAfter sporkSigner [(sporkContext 0,
          SporkAction.received (signedSpork 1600000000))]).mapSporksActive.lookup 10007 =
            some (signedSpork 1600000000) := by
        decide +kernel
      rw [hFirst, Option.some.injEq] at hActive
      rw [← hActive]
      decide +kernel
    · simp at hLength
  · intro before ctx nSporkID nValue hBefore _
    have hMem := hBefore.subset (List.mem_append_right before (List.mem_singleton_self _))
    simp [receivingRun] at hMem
  · intro spork
    rw [sporksOf_updatingRun, sporksOf_receivingRun]
    simp only [List.mem_cons, List.not_mem_nil, or_false]
    exact or_comm
  · unfold DistinctTimes
    decide +kernel

end Sample

end SocietyGold
