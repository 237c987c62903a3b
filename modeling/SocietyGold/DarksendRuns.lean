import SocietyGold.DarksendSession
import SocietyGold.Support.Trace

/-!
# What holds in every mixing session

Entries are compared with each other when one is added, but not with the denominations of the
session, and inputs are compared as a whole, with their sequence numbers and scripts.  The entries
of a session have the session's denominations and distinct outpoints if every new entry does.
-/

namespace SocietyGold

open Support PoolStatus

/-! ## Sessions -/

/-- A session as it should be. -/
structure MixingSession (pool : CDarksendPool) : Prop where
  count : (pool.entries.length : ℤ) ≤ nPoolMaxTransactions
  distinct : (pool.inputs.map fun s => s.prevout).Nodup
  denominations : ∀ e ∈ pool.entries,
    (∀ out ∈ e.vout, out.nValue ∈ darkSendDenominations) ∧
      getDenominations e.vout = pool.sessionDenom

/-- A masternode takes an entry: it passes all tests of `dsi` and `AddEntry`. -/
structure DarksendContext.Admits (ctx : DarksendContext) (pool : CDarksendPool) (nVersion : ℤ)
    (vin : List CTxIn) (nAmount : ℤ) (txCollateral : CTransaction) (vout : List CTxOut) :
    Prop where
  enabled : ctx.enabled = true
  version : MIN_POOL_PEER_PROTO_VERSION ≤ nVersion
  ready : pool.isSessionReady = true
  compatible : pool.isCompatibleWithEntries vout = true
  passed : ctx.checkLikeTransaction vin vout = .ok true
  valid : ∀ txin ∈ vin, txin.prevout.isNull = false ∧ 0 ≤ nAmount
  collateral : ctx.isCollateralValid txCollateral = .ok true
  room : (pool.entries.length : ℤ) < nPoolMaxTransactions
  fresh : ∀ txin ∈ vin, txin ∉ pool.vin

/-- An entry that the masternode takes spends no outpoint of another one, and has the
denominations of the session. -/
def KeepsSession (pool : CDarksendPool) : DarksendContext × DarksendEvent → Prop
  | (ctx, .dsi nVersion vin nAmount txCollateral vout) =>
      ctx.Admits pool nVersion vin nAmount txCollateral vout →
        (∀ txin ∈ vin, ∀ s ∈ pool.inputs, s.prevout ≠ txin.prevout) ∧
          getDenominations vout = pool.sessionDenom
  | _ => True

/-! ## What signatures leave alone -/

/-- The outpoints and the outputs of an entry. -/
def CDarkSendEntry.shape (e : CDarkSendEntry) : List COutPoint × List CTxOut :=
  (e.sev.map fun s => s.prevout, e.vout)

def CDarksendPool.shapes (pool : CDarksendPool) : List (List COutPoint × List CTxOut) :=
  pool.entries.map CDarkSendEntry.shape

theorem prevouts_of_signFirst
    {vin : CTxIn} {sev sev' : List CTxDSIn} (h : signFirst vin sev = some sev') :
    (sev'.map fun s => s.prevout) = sev.map fun s => s.prevout := by
  obtain ⟨before, s, after, rfl, -, -, rfl⟩ := marksSigned_of_signFirst h
  simp [CTxDSIn.signedBy]

theorem shapes_of_addSigToEntries
    {newVin : CTxIn} {entries entries' : List CDarkSendEntry}
    (h : addSigToEntries newVin entries = some entries') :
    entries'.map CDarkSendEntry.shape = entries.map CDarkSendEntry.shape := by
  induction entries generalizing entries' with
  | nil => cases h
  | cons e entries ih =>
      unfold addSigToEntries at h
      cases hAdd : e.addSig newVin with
      | some e' =>
          rw [hAdd] at h
          obtain ⟨sev, hFirst, rfl⟩ := Option.map_eq_some_iff.mp hAdd
          rw [← Option.some.inj h, List.map_cons, List.map_cons]
          simp only [CDarkSendEntry.shape, prevouts_of_signFirst hFirst]
      | none =>
          rw [hAdd] at h
          obtain ⟨rest, hRest, rfl⟩ := Option.map_eq_some_iff.mp h
          rw [List.map_cons, List.map_cons, ih hRest]

/-! ## Steps that only take away -/

/-- The session ends and leaves nothing, or it loses entries and keeps its denominations, its
users and their collaterals. -/
def Shrinks (pool pool' : CDarksendPool) : Prop :=
  (pool'.entries = [] ∧ pool'.sessionUsers = 0 ∧ pool'.vecSessionCollateral = []) ∨
    (pool'.shapes.Sublist pool.shapes ∧ pool'.sessionDenom = pool.sessionDenom ∧
      pool'.sessionUsers = pool.sessionUsers ∧
      pool'.vecSessionCollateral = pool.vecSessionCollateral)

namespace Shrinks

variable {pool pool' pool'' : CDarksendPool}

theorem refl (pool : CDarksendPool) : Shrinks pool pool :=
  Or.inr ⟨List.Sublist.refl _, rfl, rfl, rfl⟩

theorem trans (h : Shrinks pool pool') (h' : Shrinks pool' pool'') : Shrinks pool pool'' := by
  rcases h' with hEnded | ⟨hShapes', hDenom', hUsers', hCollateral'⟩
  · exact Or.inl hEnded
  · rcases h with ⟨hEmpty, hUsers, hCollateral⟩ | ⟨hShapes, hDenom, hUsers, hCollateral⟩
    · left
      rw [CDarksendPool.shapes, CDarksendPool.shapes, hEmpty, List.map_nil,
        List.sublist_nil, List.map_eq_nil_iff] at hShapes'
      exact ⟨hShapes', hUsers'.trans hUsers, hCollateral'.trans hCollateral⟩
    · exact Or.inr ⟨hShapes'.trans hShapes, hDenom'.trans hDenom, hUsers'.trans hUsers,
        hCollateral'.trans hCollateral⟩

theorem setNull (nTimeMillis : ℤ) : Shrinks pool (pool.setNull nTimeMillis) :=
  Or.inl ⟨rfl, rfl, rfl⟩

theorem updateState (nTimeMillis : ℤ) (newState : PoolStatus) :
    Shrinks pool (pool.updateState nTimeMillis newState) := by
  unfold CDarksendPool.updateState
  split_ifs <;> exact refl _

theorem addScriptSig
    (P : ScriptPrimitives) (cache : CSignatureCache P) (adjustedTime : ℕ) (newVin : CTxIn) :
    Shrinks pool (pool.addScriptSig P cache adjustedTime newVin).2 := by
  cases hNew : pool.hasScriptSig newVin.scriptSig with
  | true =>
      rw [addScriptSig_of_old P cache adjustedTime hNew]
      exact refl pool
  | false =>
      rw [(addScriptSig_of_new P cache adjustedTime hNew).2]
      cases hAdd : addSigToEntries newVin pool.entries with
      | none => exact refl pool
      | some entries =>
          right
          refine ⟨?_, rfl, rfl, rfl⟩
          have hShapes := shapes_of_addSigToEntries hAdd
          rw [CDarksendPool.shapes, CDarksendPool.shapes, Option.getD_some, hShapes]

variable (ctx : DarksendContext)

theorem addSignatures (sigs : List CTxIn) : Shrinks pool (ctx.addSignatures sigs pool).2 := by
  unfold DarksendContext.addSignatures
  induction sigs using List.reverseRecOn with
  | nil => exact refl pool
  | append_singleton sigs item ih =>
      rw [List.foldl_concat]
      exact ih.trans (addScriptSig _ _ _ item)

theorem closeEntries : Shrinks pool (ctx.closeEntries pool) := by
  unfold DarksendContext.closeEntries
  split_ifs
  · exact updateState _ _
  · exact refl pool

theorem finalize : Shrinks pool (ctx.finalize pool).1 := by
  have hClose : Shrinks pool (ctx.closeEntries pool) := closeEntries ctx
  unfold DarksendContext.finalize
  dsimp only
  split_ifs
  · exact hClose.trans (updateState _ _)
  · exact hClose

theorem checkFinalTransaction (h : ctx.checkFinalTransaction pool = .ok pool') :
    Shrinks pool pool' := by
  unfold DarksendContext.checkFinalTransaction at h
  obtain ⟨r, -, h⟩ := bind_eq_ok.mp h
  split_ifs at h
  · rw [← Except.ok.inj h]
    exact (setNull _).trans (updateState _ _)
  · dsimp only at h
    split at h
    · rw [← Except.ok.inj h]
      exact refl pool
    · split_ifs at h <;> rw [← Except.ok.inj h]
      · exact refl pool
      · exact refl pool
      · exact setNull _

theorem resetOld : Shrinks pool (ctx.resetOld pool) := by
  unfold DarksendContext.resetOld
  split_ifs
  · exact setNull _
  · exact refl pool

theorem compileTransaction (h : ctx.compileTransaction pool = .ok pool') :
    Shrinks pool pool' := by
  unfold DarksendContext.compileTransaction at h
  split_ifs at h
  · exact (updateState _ _).trans (checkFinalTransaction ctx h)
  · rw [← Except.ok.inj h]
    exact refl pool

theorem check {relayed : Option CTransaction} (h : ctx.check pool = .ok (pool', relayed)) :
    Shrinks pool pool' := by
  unfold DarksendContext.check at h
  obtain ⟨signed, hSigned, h⟩ := bind_eq_ok.mp h
  rw [Except.ok.injEq, Prod.mk.injEq] at h
  rw [← h.1]
  exact ((finalize ctx).trans (compileTransaction ctx hSigned)).trans (resetOld ctx)

theorem endAfter (seconds : ℤ) : Shrinks pool (ctx.endAfter seconds pool) := by
  unfold DarksendContext.endAfter
  split_ifs
  · exact setNull _
  · exact refl pool

theorem removeExpired : Shrinks pool (ctx.removeExpired pool) := by
  unfold DarksendContext.removeExpired
  dsimp only
  split_ifs
  · exact setNull _
  · exact Or.inr ⟨List.filter_sublist.map _, rfl, rfl, rfl⟩

theorem endQueue : Shrinks pool (ctx.endQueue pool) := by
  unfold DarksendContext.endQueue
  split_ifs
  · exact (removeExpired ctx).trans (endAfter ctx _)
  · exact endAfter ctx _

theorem checkTimeout : Shrinks pool (ctx.checkTimeout pool) := by
  unfold DarksendContext.checkTimeout
  dsimp only
  split_ifs
  · exact (endQueue ctx).trans (endAfter ctx _)
  · exact endQueue ctx

theorem checkForCompleteQueue : Shrinks pool (ctx.checkForCompleteQueue pool) := by
  unfold DarksendContext.checkForCompleteQueue
  split_ifs
  · exact updateState _ _
  · exact refl pool

end Shrinks

/-- The session ends, or it loses entries and keeps its denominations and its users. -/
def Narrows (pool pool' : CDarksendPool) : Prop :=
  pool'.entries = [] ∨
    (pool'.shapes.Sublist pool.shapes ∧ pool'.sessionDenom = pool.sessionDenom ∧
      pool.sessionUsers ≤ pool'.sessionUsers)

namespace Narrows

variable {pool pool' : CDarksendPool}

theorem of_shrinks (h : Shrinks pool pool') : Narrows pool pool' := by
  rcases h with ⟨hEmpty, -⟩ | ⟨hShapes, hDenom, hUsers, -⟩
  · exact Or.inl hEmpty
  · exact Or.inr ⟨hShapes, hDenom, hUsers.ge⟩

end Narrows

/-! ## What a step does -/

section Steps

variable {ctx : DarksendContext} {pool pool' : CDarksendPool}

/-- The pool with one more entry. -/
def CDarksendPool.withEntry (pool : CDarksendPool) (e : CDarkSendEntry) : CDarksendPool :=
  { pool with entries := pool.entries ++ [e] }

/-- A client joins: it is counted, and its collateral is kept. -/
structure Joins (txCollateral : CTransaction) (pool pool' : CDarksendPool) : Prop where
  entries : pool'.entries = pool.entries
  users : pool'.sessionUsers = max pool.sessionUsers 0 + 1
  collateral : pool'.vecSessionCollateral = pool.vecSessionCollateral ++ [txCollateral]
  denom : 0 < pool.sessionUsers → pool'.sessionDenom = pool.sessionDenom

theorem isCompatibleWithSession_cases
    {nDenom : ℤ} {txCollateral : CTransaction} {joined : Bool}
    (h : ctx.isCompatibleWithSession nDenom txCollateral pool = .ok (joined, pool')) :
    pool' = pool ∨ pool' = { pool with sessionUsers := max pool.sessionUsers 0 } ∨
      Joins txCollateral pool pool' := by
  unfold DarksendContext.isCompatibleWithSession at h
  split_ifs at h with hDenom
  · rw [Except.ok.injEq, Prod.mk.injEq] at h
    exact Or.inl h.2.symm
  · obtain ⟨valid, -, h⟩ := bind_eq_ok.mp h
    dsimp only at h
    split_ifs at h with hInvalid hFirst hMode hOther <;>
      rw [Except.ok.injEq, Prod.mk.injEq] at h <;> rw [← h.2]
    · exact Or.inl rfl
    · refine Or.inr (Or.inr ⟨?_, ?_, ?_, fun hSome => by omega⟩)
      · rw [CDarksendPool.entries_updateState]
      · simp [CDarksendPool.updateState]
      · simp [CDarksendPool.updateState]
    · exact Or.inr (Or.inl rfl)
    · exact Or.inr (Or.inl rfl)
    · exact Or.inr (Or.inr ⟨rfl, rfl, rfl, fun _ => rfl⟩)

theorem processDsa_cases
    {nVersion nDenom : ℤ} {txCollateral : CTransaction}
    (h : ctx.processDsa nVersion nDenom txCollateral pool = .ok pool') :
    pool' = pool ∨ pool' = { pool with sessionUsers := max pool.sessionUsers 0 } ∨
      Joins txCollateral pool pool' := by
  unfold DarksendContext.processDsa at h
  split_ifs at h
  · exact Or.inl (Except.ok.inj h).symm
  · split at h
    · exact Or.inl (Except.ok.inj h).symm
    · split_ifs at h
      · exact Or.inl (Except.ok.inj h).symm
      · obtain ⟨⟨joined, joinedPool⟩, hJoin, h⟩ := bind_eq_ok.mp h
        rw [← Except.ok.inj h]
        exact isCompatibleWithSession_cases hJoin

/-- A test of `AddEntry` that an entry fails. -/
def DarksendContext.Refuses (ctx : DarksendContext) (pool : CDarksendPool) (vin : List CTxIn)
    (nAmount : ℤ) (txCollateral : CTransaction) : Prop :=
  (∃ txin ∈ vin, txin.prevout.isNull = true ∨ nAmount < 0) ∨
    ctx.isCollateralValid txCollateral = .ok false ∨
    nPoolMaxTransactions ≤ (pool.entries.length : ℤ) ∨ ∃ txin ∈ vin, txin ∈ pool.vin

/-- A submission passes the tests of `dsi` before `AddEntry`. -/
structure DarksendContext.Submits (ctx : DarksendContext) (pool : CDarksendPool) (nVersion : ℤ)
    (vin : List CTxIn) (vout : List CTxOut) : Prop where
  enabled : ctx.enabled = true
  version : MIN_POOL_PEER_PROTO_VERSION ≤ nVersion
  ready : pool.isSessionReady = true
  compatible : pool.isCompatibleWithEntries vout = true
  passed : ctx.checkLikeTransaction vin vout = .ok true

/-- A refused entry takes a user with it; one that is added has passed the tests. -/
theorem addEntry_cases
    {newInput : List CTxIn} {nAmount : ℤ} {txCollateral : CTransaction}
    {newOutput : List CTxOut} {added : Bool}
    (h : ctx.addEntry newInput nAmount txCollateral newOutput pool = .ok (added, pool')) :
    (added = false ∧ ctx.Refuses pool newInput nAmount txCollateral ∧
        pool' = { pool with sessionUsers := pool.sessionUsers - 1 }) ∨
      (added = true ∧
        pool' = pool.withEntry
          (CDarkSendEntry.add newInput nAmount txCollateral newOutput ctx.env.time) ∧
        (∀ txin ∈ newInput, txin.prevout.isNull = false ∧ 0 ≤ nAmount) ∧
        ctx.isCollateralValid txCollateral = .ok true ∧
        (pool.entries.length : ℤ) < nPoolMaxTransactions ∧
        ∀ txin ∈ newInput, txin ∉ pool.vin) := by
  unfold DarksendContext.addEntry at h
  dsimp only at h
  by_cases hNull : (newInput.any fun txin => txin.prevout.isNull || decide (nAmount < 0)) = true
  · rw [if_pos hNull, Except.ok.injEq, Prod.mk.injEq] at h
    refine Or.inl ⟨h.1.symm, Or.inl ?_, h.2.symm⟩
    simpa [List.any_eq_true] using hNull
  · rw [if_neg hNull] at h
    obtain ⟨valid, hValid, h⟩ := bind_eq_ok.mp h
    split_ifs at h with hInvalid hFull hFound
    · rw [Except.ok.injEq, Prod.mk.injEq] at h
      refine Or.inl ⟨h.1.symm, Or.inr (Or.inl ?_), h.2.symm⟩
      rw [hValid]
      simpa using hInvalid
    · rw [Except.ok.injEq, Prod.mk.injEq] at h
      exact Or.inl ⟨h.1.symm, Or.inr (Or.inr (Or.inl hFull)), h.2.symm⟩
    · rw [Except.ok.injEq, Prod.mk.injEq] at h
      refine Or.inl ⟨h.1.symm, Or.inr (Or.inr (Or.inr ?_)), h.2.symm⟩
      simpa [List.any_eq_true] using hFound
    · obtain ⟨first, -, h⟩ := bind_eq_ok.mp h
      rw [Except.ok.injEq, Prod.mk.injEq] at h
      refine Or.inr ⟨h.1.symm, h.2.symm, ?_, ?_, by omega, ?_⟩
      · simpa [List.any_eq_true] using hNull
      · rw [hValid]
        simpa using hInvalid
      · simpa [List.any_eq_true] using hFound

theorem processDsi_cases
    {nVersion : ℤ} {vin : List CTxIn} {nAmount : ℤ} {txCollateral : CTransaction}
    {vout : List CTxOut} (hEnabled : ctx.enabled = true)
    (h : ctx.processDsi nVersion vin nAmount txCollateral vout pool = .ok pool') :
    pool' = pool ∨
      (ctx.Submits pool nVersion vin vout ∧ ctx.Refuses pool vin nAmount txCollateral ∧
        pool' = { pool with sessionUsers := pool.sessionUsers - 1 }) ∨
      (ctx.Admits pool nVersion vin nAmount txCollateral vout ∧
        Shrinks (pool.withEntry (CDarkSendEntry.add vin nAmount txCollateral vout ctx.env.time))
          pool') := by
  unfold DarksendContext.processDsi at h
  split_ifs at h with hVersion hReady hCompatible
  · exact Or.inl (Except.ok.inj h).symm
  · exact Or.inl (Except.ok.inj h).symm
  · exact Or.inl (Except.ok.inj h).symm
  · obtain ⟨passed, hPassed, h⟩ := bind_eq_ok.mp h
    cases passed with
    | false => exact Or.inl (Except.ok.inj h).symm
    | true =>
        have hSubmits : ctx.Submits pool nVersion vin vout :=
          { enabled := hEnabled
            version := not_lt.mp hVersion
            ready := by simpa using hReady
            compatible := by simpa using hCompatible
            passed := hPassed }
        rw [if_neg (by simp)] at h
        obtain ⟨⟨added, addedPool⟩, hAdd, h⟩ := bind_eq_ok.mp h
        rcases addEntry_cases hAdd with
          ⟨rfl, hRefuses, hRefused⟩ | ⟨rfl, hAdded, hValid, hCollateral, hRoom, hFresh⟩
        · exact Or.inr (Or.inl ⟨hSubmits, hRefuses, (Except.ok.inj h).symm.trans hRefused⟩)
        · dsimp only at h
          rw [if_pos rfl] at h
          obtain ⟨⟨checked, relayed⟩, hCheck, h⟩ := bind_eq_ok.mp h
          have hShrinks := Shrinks.check ctx hCheck
          obtain rfl : checked = pool' := Except.ok.inj h
          rw [hAdded] at hShrinks
          refine Or.inr (Or.inr ⟨?_, hShrinks⟩)
          exact {
            enabled := hEnabled
            version := hSubmits.version
            ready := hSubmits.ready
            compatible := hSubmits.compatible
            passed := hPassed
            valid := hValid
            collateral := hCollateral
            room := hRoom
            fresh := hFresh }

/-- Signatures add no users and no entries. -/
theorem Shrinks.processDss
    {nVersion : ℤ} {sigs : List CTxIn} (h : ctx.processDss nVersion sigs pool = .ok pool') :
    Shrinks pool pool' := by
  unfold DarksendContext.processDss at h
  have hSigned : Shrinks pool (ctx.addSignatures sigs pool).2 := Shrinks.addSignatures ctx sigs
  split_ifs at h
  · rw [← Except.ok.inj h]
    exact Shrinks.refl pool
  · dsimp only at h
    split_ifs at h
    · obtain ⟨⟨checked, relayed⟩, hCheck, h⟩ := bind_eq_ok.mp h
      rw [← Except.ok.inj h]
      exact hSigned.trans (Shrinks.check ctx hCheck)
    · rw [← Except.ok.inj h]
      exact hSigned

/-- What an event can do to a session. -/
theorem darksendStep_cases
    {event : DarksendEvent} (h : darksendStep (ctx, event) pool = .ok pool') :
    Shrinks pool pool' ∨
      pool' = { pool with sessionUsers := max pool.sessionUsers 0 } ∨
      (∃ txCollateral, Joins txCollateral pool pool') ∨
      ∃ nVersion vin nAmount txCollateral vout,
        event = .dsi nVersion vin nAmount txCollateral vout ∧
        ((ctx.Submits pool nVersion vin vout ∧ ctx.Refuses pool vin nAmount txCollateral ∧
            pool' = { pool with sessionUsers := pool.sessionUsers - 1 }) ∨
          (ctx.Admits pool nVersion vin nAmount txCollateral vout ∧
            Shrinks (pool.withEntry (CDarkSendEntry.add vin nAmount txCollateral vout
              ctx.env.time)) pool')) := by
  cases event with
  | dsa nVersion nDenom txCollateral =>
      rw [darksendStep] at h
      split_ifs at h
      · rcases processDsa_cases h with rfl | hReset | hJoins
        · exact Or.inl (Shrinks.refl _)
        · exact Or.inr (Or.inl hReset)
        · exact Or.inr (Or.inr (Or.inl ⟨txCollateral, hJoins⟩))
      · rw [← Except.ok.inj h]
        exact Or.inl (Shrinks.refl pool)
  | dsi nVersion vin nAmount txCollateral vout =>
      rw [darksendStep] at h
      split_ifs at h with hEnabled
      · rcases processDsi_cases hEnabled h with rfl | hOutcome
        · exact Or.inl (Shrinks.refl _)
        · exact Or.inr (Or.inr (Or.inr ⟨_, _, _, _, _, rfl, hOutcome⟩))
      · rw [← Except.ok.inj h]
        exact Or.inl (Shrinks.refl pool)
  | dss nVersion sigs =>
      rw [darksendStep] at h
      left
      split_ifs at h
      · exact Shrinks.processDss h
      · rw [← Except.ok.inj h]
        exact Shrinks.refl pool
  | checkTimeout =>
      rw [← Except.ok.inj h]
      exact Or.inl (Shrinks.checkTimeout ctx)
  | checkForCompleteQueue =>
      rw [← Except.ok.inj h]
      exact Or.inl (Shrinks.checkForCompleteQueue ctx)
  | check =>
      obtain ⟨⟨checked, relayed⟩, hCheck, h⟩ := bind_eq_ok.mp h
      rw [← Except.ok.inj h]
      exact Or.inl (Shrinks.check ctx hCheck)
  | reset =>
      rw [← Except.ok.inj h]
      exact Or.inl (Shrinks.setNull _)

end Steps

/-! ## Runs -/

section Runs

variable {ctx : DarksendContext} {pool pool' : CDarksendPool}

/-- A session as it should be whose entries have users, so that no client starts another one
over them. -/
structure RunningSession (pool : CDarksendPool) : Prop extends MixingSession pool where
  users : pool.entries ≠ [] → 2 ≤ pool.sessionUsers

theorem prevouts_eq_shapes (pool : CDarksendPool) :
    (pool.inputs.map fun s => s.prevout) = pool.shapes.flatMap Prod.fst := by
  simp [CDarksendPool.inputs, CDarksendPool.shapes, List.map_flatMap, List.flatMap_map,
    CDarkSendEntry.shape]

theorem runningSession_of_empty (h : pool.entries = []) : RunningSession pool where
  count := by simp [h, nPoolMaxTransactions]
  distinct := by simp [CDarksendPool.inputs, h]
  denominations := by simp [h]
  users := fun hSome => absurd h hSome

theorem Narrows.runningSession (h : Narrows pool pool') (hRunning : RunningSession pool) :
    RunningSession pool' := by
  rcases h with hEmpty | ⟨hShapes, hDenom, hUsers⟩
  · exact runningSession_of_empty hEmpty
  · constructor
    · constructor
      · have hLength := hShapes.length_le
        simp only [CDarksendPool.shapes, List.length_map] at hLength
        have hCount := hRunning.count
        omega
      · have hDistinct := hRunning.distinct
        rw [prevouts_eq_shapes] at hDistinct ⊢
        exact hDistinct.sublist (hShapes.flatMap Prod.fst)
      · intro e hMem
        have hShape : e.shape ∈ pool.shapes := hShapes.subset (List.mem_map_of_mem hMem)
        obtain ⟨e₀, hMem₀, hSame⟩ := List.mem_map.mp hShape
        have hVout : e₀.vout = e.vout := congrArg Prod.snd hSame
        rw [← hVout, hDenom]
        exact hRunning.denominations e₀ hMem₀
    · intro hSome
      have hBefore : pool.entries ≠ [] := by
        intro hNone
        rw [CDarksendPool.shapes, CDarksendPool.shapes, hNone, List.map_nil,
          List.sublist_nil, List.map_eq_nil_iff] at hShapes
        exact hSome hShapes
      exact (hRunning.users hBefore).trans hUsers

theorem mem_of_getDenominations {vout : List CTxOut} (h : getDenominations vout ≠ 0) :
    ∀ out ∈ vout, out.nValue ∈ darkSendDenominations := by
  unfold getDenominations at h
  intro out hMem
  by_contra hNone
  apply h
  exact if_pos (List.any_eq_true.mpr ⟨out, hMem, decide_eq_true hNone⟩)

/-- The inputs that pass for a transaction have distinct outpoints. -/
theorem nodup_of_checkLikeTransaction
    {vin : List CTxIn} {vout : List CTxOut}
    (h : ctx.checkLikeTransaction vin vout = .ok true) :
    (vin.map CTxIn.prevout).Nodup := by
  unfold DarksendContext.checkLikeTransaction at h
  have hAccepted : acceptableInputs ctx.env ctx.st (ctx.testTransaction vin vout)
      false false true = .ok true := by
    dsimp only at h
    split at h
    · cases h
    · split at h
      · cases h
      · split at h
        · cases h
        · split at h
          · cases h
          · exact h
  have hAlone : unacceptableAlone ctx.env ctx.st (ctx.testTransaction vin vout) = false := by
    by_contra hRefused
    unfold acceptableInputs at hAccepted
    rw [if_pos (by simpa using hRefused)] at hAccepted
    cases hAccepted
  have hPassed : (ctx.testTransaction vin vout).checkTransaction.passed = true := by
    by_contra hFailed
    unfold unacceptableAlone at hAlone
    simp [hFailed] at hAlone
  exact (ctx.testTransaction vin vout).nodup_prevouts_of_checked (Verdict.passed_iff.mp hPassed)

/-- An entry that the masternode takes and that keeps the session. -/
theorem RunningSession.withEntry
    {nVersion : ℤ} {vin : List CTxIn} {nAmount : ℤ} {txCollateral : CTransaction}
    {vout : List CTxOut} (hRunning : RunningSession pool)
    (hAdmits : ctx.Admits pool nVersion vin nAmount txCollateral vout)
    (hFresh : ∀ txin ∈ vin, ∀ s ∈ pool.inputs, s.prevout ≠ txin.prevout)
    (hDenom : getDenominations vout = pool.sessionDenom) :
    RunningSession
      (pool.withEntry (CDarkSendEntry.add vin nAmount txCollateral vout ctx.env.time)) := by
  constructor
  · constructor
    · have hRoom := hAdmits.room
      simp only [CDarksendPool.withEntry, List.length_append, List.length_singleton]
      omega
    · have hInputs : ((pool.withEntry
            (CDarkSendEntry.add vin nAmount txCollateral vout ctx.env.time)).inputs.map
              fun s => s.prevout) =
          (pool.inputs.map fun s => s.prevout) ++ vin.map CTxIn.prevout := by
        simp [CDarksendPool.inputs, CDarksendPool.withEntry, CDarkSendEntry.add,
          CTxDSIn.ofTxIn]
      rw [hInputs, List.nodup_append]
      refine ⟨hRunning.distinct, nodup_of_checkLikeTransaction hAdmits.passed, ?_⟩
      intro prevout hOld prevout' hNew
      obtain ⟨s, hInput, rfl⟩ := List.mem_map.mp hOld
      obtain ⟨txin, hMem, rfl⟩ := List.mem_map.mp hNew
      exact hFresh txin hMem s hInput
    · intro e hMem
      rcases List.mem_append.mp hMem with hOld | hNew
      · exact hRunning.denominations e hOld
      · obtain rfl := List.mem_singleton.mp hNew
        refine ⟨mem_of_getDenominations ?_, hDenom⟩
        intro (hNone : getDenominations vout = 0)
        have hCompatible := hAdmits.compatible
        unfold CDarksendPool.isCompatibleWithEntries at hCompatible
        rw [if_pos hNone] at hCompatible
        cases hCompatible
  · intro _
    have hReady : nPoolMaxTransactions ≤ pool.sessionUsers := of_decide_eq_true hAdmits.ready
    unfold nPoolMaxTransactions at hReady
    exact le_trans (by omega) hReady

theorem RunningSession.step
    {event : DarksendContext × DarksendEvent} (hRunning : RunningSession pool)
    (hKeeps : KeepsSession pool event) (h : darksendStep event pool = .ok pool') :
    RunningSession pool' := by
  obtain ⟨ctx, event⟩ := event
  rcases darksendStep_cases h with
    hShrinks | rfl | ⟨txCollateral, hJoins⟩ |
      ⟨nVersion, vin, nAmount, txCollateral, vout, rfl,
        ⟨hSubmits, -, rfl⟩ | ⟨hAdmits, hShrinks⟩⟩
  · exact (Narrows.of_shrinks hShrinks).runningSession hRunning
  · refine ⟨⟨hRunning.count, hRunning.distinct, hRunning.denominations⟩, ?_⟩
    intro hSome
    exact (hRunning.users hSome).trans (le_max_left _ _)
  · by_cases hNobody : pool.sessionUsers ≤ 0
    · apply runningSession_of_empty
      rw [hJoins.entries]
      by_contra hSome
      have hUsers := hRunning.users hSome
      omega
    · apply Narrows.runningSession _ hRunning
      refine Or.inr ⟨?_, hJoins.denom (not_le.mp hNobody), ?_⟩
      · rw [CDarksendPool.shapes, hJoins.entries]
        exact List.Sublist.refl _
      · rw [hJoins.users]
        omega
  · refine ⟨⟨hRunning.count, hRunning.distinct, hRunning.denominations⟩, ?_⟩
    intro _
    have hReady : nPoolMaxTransactions ≤ pool.sessionUsers := of_decide_eq_true hSubmits.ready
    unfold nPoolMaxTransactions at hReady
    dsimp only
    omega
  · obtain ⟨hFresh, hDenom⟩ := hKeeps hAdmits
    exact (Narrows.of_shrinks hShrinks).runningSession
      (hRunning.withEntry hAdmits hFresh hDenom)

theorem entries_closeEntries : (ctx.closeEntries pool).entries = pool.entries := by
  unfold DarksendContext.closeEntries
  split_ifs
  · exact pool.entries_updateState _ _
  · rfl

theorem check_relayed
    {relayed : CTransaction} (h : ctx.check pool = .ok (pool', some relayed)) :
    relayed.vin.Perm pool.vin ∧ relayed.vout.Perm pool.vout := by
  unfold DarksendContext.check at h
  obtain ⟨signed, -, h⟩ := bind_eq_ok.mp h
  rw [Except.ok.injEq, Prod.mk.injEq] at h
  have hRelayed : (ctx.finalize pool).2 = some relayed := h.2
  unfold DarksendContext.finalize at hRelayed
  dsimp only at hRelayed
  split_ifs at hRelayed
  rw [← Option.some.inj hRelayed, CDarksendPool.vin, CDarksendPool.vout,
    CDarksendPool.entries_updateState, entries_closeEntries]
  exact ⟨ctx.shuffleIn_perm _, ctx.shuffleOut_perm _⟩

/-- In a run whose steps keep the session, the session is always as it should be; and what
`Check` broadcasts has the inputs and the outputs of the entries, in some order. -/
theorem mixingSession_of_run
    {finalTransaction : CTransaction} {nTimeMillis : ℤ}
    {events : List (DarksendContext × DarksendEvent)}
    (hKeeps : ∀ past event rest before, events = past ++ event :: rest →
      runEvents darksendStep past (CDarksendPool.new finalTransaction nTimeMillis) = .ok before →
      KeepsSession before event)
    (hRun : runEvents darksendStep events (CDarksendPool.new finalTransaction nTimeMillis) =
      .ok pool) :
    MixingSession pool ∧
      ∀ (ctx : DarksendContext) (pool pool' : CDarksendPool) (relayed : CTransaction),
        ctx.check pool = .ok (pool', some relayed) →
        relayed.vin.Perm pool.vin ∧ relayed.vout.Perm pool.vout := by
  refine ⟨RunningSession.toMixingSession ?_, fun ctx pool pool' relayed => check_relayed⟩
  refine runEvents_invariant (runningSession_of_empty rfl) ?_ hRun
  intro past event rest before after hSplit hPast hRunning hStep
  exact hRunning.step (hKeeps past event rest before hSplit hPast) hStep

end Runs

/-! ## A session of one denomination, and one of another -/

namespace Sample

/-- A payment with an output to mix and one for a collateral. -/
def mixingFunds : CTransaction where
  nVersion := 1
  nTime := 700
  vin := [⟨⟨7, 0⟩, [], UINT_MAX⟩]
  vout := [⟨COIN + 1000, normalScript⟩, ⟨40 * COIN, normalScript⟩]
  nLockTime := 0

/-- It leaves a fee of eleven coins. -/
def mixingCollateral : CTransaction where
  nVersion := 1
  nTime := 800
  vin := [⟨⟨mixingFunds.getHash prims, 1⟩, [], UINT_MAX⟩]
  vout := [⟨29 * COIN, normalScript⟩]
  nLockTime := 0

/-- A node with the payment in the memory pool. -/
def mixingNode : ChainState :=
  { nodeWith [(mixingFunds.getHash prims, CTxIndex.unspent CDiskTxPos.inMemoryPool 2)] with
    mempool := emptyPool.addUnchecked (mixingFunds.getHash prims) mixingFunds }

def mixingContext : DarksendContext where
  env := (masternodeEnv 900).toRelayEnv
  st := mixingNode
  enabled := true
  nTimeMillis := 900000
  nRand := 4
  shuffleIn := id
  shuffleIn_perm := List.Perm.refl
  shuffleOut := id
  shuffleOut_perm := List.Perm.refl
  vMasternodes := [masternodeSeen 900 true]
  nMasternodesAboveProtocol := 1
  nDsqCount := 0
  activeVin := ⟨⟨7, 0⟩, [], UINT_MAX⟩
  signer := voteSigner
  strMasterNodePrivKey := []
  feesTooHigh nValueIn nValueOut := 100 * (nValueIn - nValueOut) > nValueIn

def newPool : CDarksendPool := CDarksendPool.new (CTransaction.null 0) 0

/-- Three clients join, and the session opens for entries. -/
def joinings (nDenom : ℤ) : List (DarksendContext × DarksendEvent) :=
  List.replicate 3 (mixingContext, .dsa MIN_POOL_PEER_PROTO_VERSION nDenom mixingCollateral) ++
    [(mixingContext, .checkForCompleteQueue)]

/-- An entry with one output of one coin, whose bit is 8. -/
def submission (nSequence : ℕ) : DarksendContext × DarksendEvent :=
  (mixingContext, .dsi MIN_POOL_PEER_PROTO_VERSION
    [⟨⟨mixingFunds.getHash prims, 0⟩, [], nSequence⟩] (COIN + 1000) mixingCollateral
    [⟨COIN + 1000, normalScript⟩])

theorem keepsSession_submission :
    ∀ past event rest before, joinings 8 ++ [submission UINT_MAX] = past ++ event :: rest →
      runEvents darksendStep past newPool = .ok before → KeepsSession before event := by
  intro past event rest before hSplit hPast
  rcases List.eq_nil_or_concat rest with rfl | ⟨rest, last, rfl⟩
  · obtain ⟨rfl, hEvent⟩ := List.append_inj' hSplit rfl
    obtain rfl := List.singleton_inj.mp hEvent
    have hOpen : (runEvents darksendStep (joinings 8) newPool).toOption.map
        (fun pool => (pool.inputs, pool.sessionDenom)) = some ([], 8) := by decide +kernel
    rw [hPast] at hOpen
    have hBoth := Prod.mk.inj (Option.some.inj hOpen)
    intro _
    rw [hBoth.1, hBoth.2]
    exact ⟨by simp, by decide +kernel⟩
  · rw [List.concat_eq_append, ← List.cons_append, ← List.append_assoc] at hSplit
    have hJoining : event ∈ joinings 8 := by
      rw [(List.append_inj' hSplit rfl).1]
      simp
    unfold joinings at hJoining
    rcases List.mem_append.mp hJoining with hDsa | hQueue
    · rw [List.eq_of_mem_replicate hDsa]
      trivial
    · rw [List.mem_singleton.mp hQueue]
      trivial

/-- A session for one coin takes an entry of one coin. -/
theorem submission_mixes :
    ∃ pool, runEvents darksendStep (joinings 8 ++ [submission UINT_MAX]) newPool = .ok pool ∧
      pool.entries.length = 1 ∧ MixingSession pool := by
  have hLength : (runEvents darksendStep (joinings 8 ++ [submission UINT_MAX])
      newPool).toOption.map (fun pool => pool.entries.length) = some 1 := by decide +kernel
  generalize hRun : runEvents darksendStep (joinings 8 ++ [submission UINT_MAX]) newPool = run
    at hLength ⊢
  cases run with
  | error fault => cases hLength
  | ok pool =>
      exact ⟨pool, rfl, Option.some.inj hLength,
        (mixingSession_of_run keepsSession_submission hRun).1⟩

/-- A session for a tenth of a coin takes an entry of one coin, and then another one with the
same outpoint. -/
theorem mismatchedSubmissions_mixed :
    ∃ pool,
      runEvents darksendStep (joinings 16 ++ [submission UINT_MAX, submission 0]) newPool =
        .ok pool ∧
      ¬(pool.inputs.map fun s => s.prevout).Nodup ∧
      ∃ e ∈ pool.entries, getDenominations e.vout ≠ pool.sessionDenom := by
  have hBoth : (runEvents darksendStep (joinings 16 ++ [submission UINT_MAX, submission 0])
      newPool).toOption.map (fun pool => (decide (pool.inputs.map fun s => s.prevout).Nodup,
        pool.entries.any fun e => getDenominations e.vout ≠ pool.sessionDenom)) =
      some (false, true) := by decide +kernel
  generalize runEvents darksendStep (joinings 16 ++ [submission UINT_MAX, submission 0])
    newPool = run at hBoth ⊢
  cases run with
  | error fault => cases hBoth
  | ok pool =>
      have hFacts := Prod.mk.inj (Option.some.inj hBoth)
      obtain ⟨e, hMem, hDenom⟩ := List.any_eq_true.mp hFacts.2
      exact ⟨pool, rfl, of_decide_eq_false hFacts.1, e, hMem, of_decide_eq_true hDenom⟩

end Sample

end SocietyGold
