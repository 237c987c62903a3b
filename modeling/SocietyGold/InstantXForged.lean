import SocietyGold.InstantX

/-!
# Forged votes

A vote is remembered by a hash that covers neither its height nor its signature, and before it
is tested.  So a vote that fails the tests suppresses a genuine one with the same masternode and
transaction that comes later; where no failing vote does so, it makes no difference.
-/

namespace SocietyGold

open Support

/-! ## Failing votes -/

/-- The event is a vote that fails the rank or the signature test. -/
def failsTests (event : InstantXContext × InstantXEvent) : Bool :=
  match event.2 with
  | .txlvote vote => event.1.enabled && (event.1.acceptsVote vote).toOption = some false
  | _ => false

/-- The vote is among those of its transaction. -/
def Counted (s : InstantXState) (vote : CConsensusVote) : Prop := vote ∈ s.votesOf vote.txHash

/-- If the first event is a failing vote and the second a vote that does not fail, their hashes
differ. -/
def Harmless (first second : InstantXContext × InstantXEvent) : Prop :=
  ∀ forged vote, first.2 = .txlvote forged → failsTests first = true →
    second.2 = .txlvote vote → failsTests second = false → forged.getHash ≠ vote.getHash

/-! ## States with other votes -/

namespace InstantXState

variable {s : InstantXState}

def withVotes (s : InstantXState) (votes : Table ℕ CConsensusVote) : InstantXState :=
  { s with mapTxLockVote := votes }

theorem expireLock_withVotes (time : ℤ) (txHash : ℕ) (votes : Table ℕ CConsensusVote) :
    (s.withVotes votes).expireLock time txHash = (s.expireLock time txHash).withVotes votes := by
  have hLocks : (s.withVotes votes).mapTxLocks = s.mapTxLocks := rfl
  unfold expireLock
  rw [hLocks]
  cases s.mapTxLocks.lookup txHash <;> rfl

theorem checkForConflictingLocks_withVotes
    (prims : Primitives) (time : ℤ) (tx : CTransaction) (votes : Table ℕ CConsensusVote) :
    (s.withVotes votes).checkForConflictingLocks prims time tx =
      ((s.checkForConflictingLocks prims time tx).1,
        (s.checkForConflictingLocks prims time tx).2.withVotes votes) := by
  have hConflict : (s.withVotes votes).conflictingLock (tx.getHash prims) tx.vin =
      s.conflictingLock (tx.getHash prims) tx.vin := rfl
  unfold checkForConflictingLocks
  rw [hConflict]
  cases s.conflictingLock (tx.getHash prims) tx.vin with
  | none => rfl
  | some other => simp only [expireLock_withVotes]

end InstantXState

namespace InstantXContext

variable {ctx : InstantXContext} {s s' : InstantXState} {tx : CTransaction}
  {vote : CConsensusVote}

theorem createNewLock_withVotes (votes : Table ℕ CConsensusVote) {nBlockHeight : ℤ}
    (h : ctx.createNewLock tx s = .ok (nBlockHeight, s')) :
    ctx.createNewLock tx (s.withVotes votes) = .ok (nBlockHeight, s'.withVotes votes) := by
  unfold createNewLock at h ⊢
  obtain ⟨found, hHeight, h⟩ := bind_eq_ok.mp h
  rw [hHeight, ok_bind]
  cases found with
  | none =>
      simp only [Except.ok.injEq, Prod.mk.injEq] at h ⊢
      exact ⟨h.1, by rw [h.2]⟩
  | some height =>
      simp only [Except.ok.injEq, Prod.mk.injEq] at h ⊢
      exact ⟨h.1, by rw [← h.2]; rfl⟩

theorem rejectRequest_withVotes (votes : Table ℕ CConsensusVote)
    (h : ctx.rejectRequest tx s = .ok s') :
    ctx.rejectRequest tx (s.withVotes votes) = .ok (s'.withVotes votes) := by
  have hBase : ctx.rejectedState tx (s.withVotes votes) =
      (ctx.rejectedState tx s).withVotes votes := rfl
  unfold rejectRequest at h ⊢
  rw [hBase]
  generalize ctx.rejectedState tx s = base at h ⊢
  have hLocks : (base.withVotes votes).mapTxLocks = base.mapTxLocks := rfl
  dsimp only at h ⊢
  rw [hLocks, InstantXState.checkForConflictingLocks_withVotes]
  cases hLock : base.mapTxLocks.lookup (tx.getHash ctx.env.prims) with
  | none =>
      rw [hLock] at h
      rw [← Except.ok.inj h]
  | some lock =>
      rw [hLock] at h
      dsimp only at h ⊢
      split_ifs at h ⊢
      · rw [← Except.ok.inj h]
      · obtain ⟨done, hDone, h⟩ := bind_eq_ok.mp h
        rw [hDone, ok_bind, ← Except.ok.inj h]
      · rw [← Except.ok.inj h]

theorem completeLock_withVotes {lock : CTransactionLock} (votes : Table ℕ CConsensusVote)
    (h : ctx.completeLock vote lock s = .ok s') :
    ctx.completeLock vote lock (s.withVotes votes) = .ok (s'.withVotes votes) := by
  have hRequest : ctx.withRequest vote.txHash (s.withVotes votes) =
      (ctx.withRequest vote.txHash s).withVotes votes := rfl
  unfold completeLock at h ⊢
  rw [hRequest]
  generalize ctx.withRequest vote.txHash s = base at h ⊢
  have hOf : ctx.requestOf vote.txHash (base.withVotes votes) =
      ctx.requestOf vote.txHash base := rfl
  dsimp only at h ⊢
  rw [hOf, InstantXState.checkForConflictingLocks_withVotes]
  generalize base.checkForConflictingLocks ctx.env.prims ctx.env.time
    (ctx.requestOf vote.txHash base) = checked at h ⊢
  have hRejected : ((checked.2.withVotes votes).lockInputs (ctx.requestOf vote.txHash base).vin
      vote.txHash).mapTxLockReqRejected =
        (checked.2.lockInputs (ctx.requestOf vote.txHash base).vin
          vote.txHash).mapTxLockReqRejected := rfl
  rw [hRejected]
  split_ifs at h ⊢
  · rw [← Except.ok.inj h]
  · obtain ⟨done, hDone, h⟩ := bind_eq_ok.mp h
    rw [hDone, ok_bind, ← Except.ok.inj h]
    rfl
  · rw [← Except.ok.inj h]
    rfl
  · rw [← Except.ok.inj h]

end InstantXContext

/-! ## One event in two states -/

/-- States that differ at most in the remembered votes, and not in whether votes with the given
hashes are remembered. -/
structure AgreesOn (hashes : ℕ → Prop) (s s' : InstantXState) : Prop where
  same : s' = s.withVotes s'.mapTxLockVote
  votes : ∀ k, hashes k → (k ∈ s.mapTxLockVote ↔ k ∈ s'.mapTxLockVote)

section Agree

variable {hashes : ℕ → Prop} {ctx : InstantXContext} {s s' t : InstantXState}

theorem AgreesOn.refl : AgreesOn hashes s s := ⟨rfl, fun _ _ => Iff.rfl⟩

theorem agreesOn_withVotes {votes : Table ℕ CConsensusVote}
    (h : ∀ k, hashes k → (k ∈ s.mapTxLockVote ↔ k ∈ votes)) :
    AgreesOn hashes s (s.withVotes votes) := ⟨rfl, h⟩

theorem acceptRequest_agrees
    {tx : CTransaction} {nBlockHeight : ℤ} (h : AgreesOn hashes s s')
    (hStep : ctx.acceptRequest tx nBlockHeight s = .ok t) :
    ∃ t', ctx.acceptRequest tx nBlockHeight s' = .ok t' ∧ AgreesOn hashes t t' := by
  obtain ⟨own, hOwn, rfl⟩ := InstantXContext.acceptRequest_cases hStep
  refine ⟨_, InstantXContext.acceptRequest_eq_ok hOwn, ?_, ?_⟩
  · rw [h.same]
    rfl
  · intro k hk
    dsimp only
    rw [InstantXContext.mem_withOwnVote, InstantXContext.mem_withOwnVote, h.votes k hk]

theorem processTxlreq_agrees
    {tx : CTransaction} (h : AgreesOn hashes s s') (hStep : ctx.processTxlreq tx s = .ok t) :
    ∃ t', ctx.processTxlreq tx s' = .ok t' ∧ AgreesOn hashes t t' := by
  have hReq : s'.mapTxLockReq = s.mapTxLockReq := by
    rw [h.same]
    rfl
  have hRejected : s'.mapTxLockReqRejected = s.mapTxLockReqRejected := by
    rw [h.same]
    rfl
  unfold InstantXContext.processTxlreq at hStep ⊢
  dsimp only at hStep ⊢
  rw [hReq, hRejected]
  split_ifs at hStep ⊢ with hKnown hValid hScripts
  · exact ⟨s', rfl, Except.ok.inj hStep ▸ h⟩
  · exact ⟨s', rfl, Except.ok.inj hStep ▸ h⟩
  · exact ⟨s', rfl, Except.ok.inj hStep ▸ h⟩
  · obtain ⟨⟨nBlockHeight, s₁⟩, hCreate, hStep⟩ := bind_eq_ok.mp hStep
    obtain ⟨r, hAccept, hStep⟩ := bind_eq_ok.mp hStep
    have hCreate' := InstantXContext.createNewLock_withVotes s'.mapTxLockVote hCreate
    rw [← h.same] at hCreate'
    have hVotes : s₁.mapTxLockVote = s.mapTxLockVote := by
      rcases InstantXContext.createNewLock_cases hCreate with ⟨-, rfl⟩ | ⟨-, rfl⟩ <;> rfl
    have hAgree : AgreesOn hashes s₁ (s₁.withVotes s'.mapTxLockVote) := by
      refine agreesOn_withVotes ?_
      rw [hVotes]
      exact h.votes
    rw [hCreate', ok_bind]
    dsimp only at hAccept hStep ⊢
    rw [show ctx.relayEnv (s₁.withVotes s'.mapTxLockVote) = ctx.relayEnv s₁ from rfl, hAccept,
      ok_bind]
    split_ifs at hStep ⊢
    · exact acceptRequest_agrees hAgree hStep
    · refine ⟨_, InstantXContext.rejectRequest_withVotes s'.mapTxLockVote hStep, ?_⟩
      refine agreesOn_withVotes ?_
      rw [InstantXContext.mapTxLockVote_of_rejectRequest hStep, hVotes]
      exact h.votes

theorem processTxlvote_agrees
    {vote : CConsensusVote} (h : AgreesOn hashes s s') (hHash : hashes vote.getHash)
    (hPasses : ctx.acceptsVote vote ≠ .ok false) (hStep : ctx.processTxlvote vote s = .ok t) :
    ∃ t', ctx.processTxlvote vote s' = .ok t' ∧ AgreesOn hashes t t' := by
  rcases InstantXContext.processTxlvote_cases hStep with
    ⟨hKnown, rfl⟩ | ⟨hNew, ⟨hFails, -⟩ | ⟨hAccepts, hComplete⟩⟩
  · refine ⟨s', ?_, h⟩
    unfold InstantXContext.processTxlvote
    rw [if_pos ((h.votes _ hHash).mp hKnown)]
  · exact absurd hFails hPasses
  · obtain ⟨hSame, hVotes⟩ := h
    generalize s'.mapTxLockVote = votes at hSame hVotes
    subst hSame
    have hNew' : vote.getHash ∉ votes := fun hKnown => hNew ((hVotes _ hHash).mpr hKnown)
    refine ⟨t.withVotes (votes.touch vote.getHash vote), ?_, agreesOn_withVotes ?_⟩
    · exact InstantXContext.processTxlvote_eq_ok hNew' hAccepts
        (InstantXContext.completeLock_withVotes _ hComplete)
    · intro k hk
      rw [InstantXContext.mapTxLockVote_of_completeLock hComplete]
      show k ∈ s.mapTxLockVote.touch vote.getHash vote ↔ _
      rw [Table.mem_touch, Table.mem_touch, hVotes k hk]

theorem AgreesOn.cleanLock
    (h : AgreesOn hashes s s') (time : ℤ) (lock : ℕ × CTransactionLock) :
    AgreesOn hashes (s.cleanLock time lock) (s'.cleanLock time lock) := by
  have hReq : s'.mapTxLockReq = s.mapTxLockReq := by
    rw [h.same]
    rfl
  unfold InstantXState.cleanLock
  rw [hReq]
  split_ifs
  · cases s.mapTxLockReq.lookup lock.2.txHash with
    | none =>
        refine ⟨?_, h.votes⟩
        rw [h.same]
        rfl
    | some tx =>
        refine ⟨?_, ?_⟩
        · rw [h.same]
          rfl
        · intro k hk
          have hMem := h.votes k hk
          simp only [← AList.lookup_isSome] at hMem ⊢
          rw [Table.lookup_foldl_erase, Table.lookup_foldl_erase]
          split_ifs
          · rfl
          · exact hMem
  · exact h

theorem AgreesOn.clean (h : AgreesOn hashes s s') :
    AgreesOn hashes (ctx.cleanTransactionLocksList s) (ctx.cleanTransactionLocksList s') := by
  have hLocks : s'.mapTxLocks = s.mapTxLocks := by
    rw [h.same]
    rfl
  unfold InstantXContext.cleanTransactionLocksList
  rw [hLocks]
  cases ctx.st.entry ctx.st.pindexBest with
  | none => exact h
  | some pindexBest =>
      dsimp only
      generalize s.mapTxLocks.inKeyOrder = locks
      clear hLocks
      induction locks generalizing s s' with
      | nil => exact h
      | cons lock locks ih => exact ih (h.cleanLock _ lock)

end Agree

/-! ## Runs with and without failing votes -/

/-- The hash of a vote that does not fail is among those of the events. -/
def GenuineHash (events : List (InstantXContext × InstantXEvent)) (k : ℕ) : Prop :=
  ∃ event ∈ events, ∃ vote, event.2 = .txlvote vote ∧ failsTests event = false ∧
    vote.getHash = k

section Runs

variable {event : InstantXContext × InstantXEvent}
  {rest : List (InstantXContext × InstantXEvent)} {s s' t : InstantXState}

theorem AgreesOn.tail (h : AgreesOn (GenuineHash (event :: rest)) s s') :
    AgreesOn (GenuineHash rest) s s' where
  same := h.same
  votes := by
    rintro k ⟨other, hMem, hOther⟩
    exact h.votes k ⟨other, List.mem_cons_of_mem event hMem, hOther⟩

theorem failsTests_iff
    (event : InstantXContext × InstantXEvent) {vote : CConsensusVote}
    (hVote : event.2 = .txlvote vote) :
    failsTests event = true ↔
      event.1.enabled = true ∧ event.1.acceptsVote vote = .ok false := by
  unfold failsTests
  rw [hVote]
  dsimp only
  cases event.1.acceptsVote vote with
  | error e => simp [Except.toOption]
  | ok b => simp [Except.toOption]

/-- An event that is no failing vote does the same in both states. -/
theorem instantXStep_agrees
    (h : AgreesOn (GenuineHash (event :: rest)) s s') (hPasses : failsTests event = false)
    (hStep : instantXStep event s = .ok t) :
    ∃ t', instantXStep event s' = .ok t' ∧ AgreesOn (GenuineHash rest) t t' := by
  obtain ⟨ctx, what⟩ := event
  unfold instantXStep at hStep ⊢
  cases what with
  | txlreq tx =>
      dsimp only at hStep ⊢
      split_ifs at hStep ⊢
      · obtain ⟨t', hStep', hAgree⟩ := processTxlreq_agrees h hStep
        exact ⟨t', hStep', hAgree.tail⟩
      · exact ⟨s', rfl, Except.ok.inj hStep ▸ h.tail⟩
  | txlvote vote =>
      dsimp only at hStep ⊢
      split_ifs at hStep ⊢ with hEnabled
      · have hNotFailed : ctx.acceptsVote vote ≠ .ok false := by
          intro hFails
          rw [(failsTests_iff (ctx, .txlvote vote) rfl).mpr
            ⟨hEnabled, hFails⟩] at hPasses
          cases hPasses
        obtain ⟨t', hStep', hAgree⟩ := processTxlvote_agrees h
          ⟨_, List.mem_cons_self, vote, rfl, hPasses, rfl⟩ hNotFailed hStep
        exact ⟨t', hStep', hAgree.tail⟩
      · exact ⟨s', rfl, Except.ok.inj hStep ▸ h.tail⟩
  | clean =>
      rw [← Except.ok.inj hStep]
      exact ⟨_, rfl, h.clean.tail⟩

/-- A failing vote leaves a hash behind that no later vote needs. -/
theorem instantXStep_failing
    (h : AgreesOn (GenuineHash (event :: rest)) s s') (hFails : failsTests event = true)
    (hHarmless : ∀ later ∈ rest, Harmless event later) (hStep : instantXStep event s = .ok t) :
    AgreesOn (GenuineHash rest) t s' := by
  obtain ⟨ctx, what⟩ := event
  cases what with
  | txlreq tx => cases hFails
  | clean => cases hFails
  | txlvote forged =>
      obtain ⟨hEnabled, hRefused⟩ :=
        (failsTests_iff (ctx, .txlvote forged) rfl).mp hFails
      unfold instantXStep at hStep
      dsimp only at hEnabled hRefused hStep
      rw [if_pos hEnabled] at hStep
      rcases InstantXContext.processTxlvote_cases hStep with
        ⟨-, rfl⟩ | ⟨hNew, ⟨-, rfl⟩ | ⟨hAccepts, -⟩⟩
      · exact h.tail
      · refine ⟨h.same, ?_⟩
        rintro k ⟨later, hMem, vote, hVote, hPasses, rfl⟩
        have hOld := h.votes vote.getHash
          ⟨later, List.mem_cons_of_mem _ hMem, vote, hVote, hPasses, rfl⟩
        have hNe := hHarmless later hMem forged vote rfl hFails hVote hPasses
        rw [← hOld]
        show vote.getHash ∈ s.mapTxLockVote.touch forged.getHash forged ↔ _
        rw [Table.mem_touch]
        constructor
        · rintro (hSame | hKnown)
          · exact absurd hSame.symm hNe
          · exact hKnown
        · exact Or.inr
      · rw [hRefused] at hAccepts
        cases hAccepts

end Runs

/-- The relation between a run and the one without failing votes, before the remaining events. -/
def Related (rest : List (InstantXContext × InstantXEvent)) (s s' : InstantXState) : Prop :=
  AgreesOn (GenuineHash rest) s s' ∧ rest.Pairwise Harmless

/-- If no failing vote has the hash of a later vote that does not fail, a valid vote that
arrives after the events is counted exactly if it is counted after the events without the
failing votes, and the locks are the same. -/
theorem counted_iff_without_failing
    {events : List (InstantXContext × InstantXEvent)} {ctx : InstantXContext}
    {vote : CConsensusVote} {s₀ s : InstantXState}
    (hValid : ctx.acceptsVote vote = .ok true)
    (hRun : runEvents instantXStep (events ++ [(ctx, .txlvote vote)]) s₀ = .ok s)
    (hHarmless : (events ++ [(ctx, InstantXEvent.txlvote vote)]).Pairwise Harmless) :
    ∃ s', runEvents instantXStep
        (events.filter (fun event => !failsTests event) ++ [(ctx, .txlvote vote)]) s₀ = .ok s' ∧
      s'.mapTxLocks = s.mapTxLocks ∧ (Counted s vote ↔ Counted s' vote) := by
  have hPasses : failsTests (ctx, InstantXEvent.txlvote vote) = false := by
    simp [failsTests, hValid, Except.toOption]
  have hKept : ∀ (event : InstantXContext × InstantXEvent) rest u u' v,
      (!failsTests event) = true → Related (event :: rest) u u' → instantXStep event u = .ok v →
        ∃ v', instantXStep event u' = .ok v' ∧ Related rest v v' := by
    rintro event rest u u' v hKeep ⟨hAgree, hPairwise⟩ hStep
    obtain ⟨v', hStep', hNext⟩ := instantXStep_agrees hAgree (by simpa using hKeep) hStep
    exact ⟨v', hStep', hNext, hPairwise.tail⟩
  have hRemoved : ∀ (event : InstantXContext × InstantXEvent) rest u u' v,
      (!failsTests event) = false → Related (event :: rest) u u' → instantXStep event u = .ok v →
        Related rest v u' := by
    rintro event rest u u' v hKeep ⟨hAgree, hPairwise⟩ hStep
    have hFirst := (List.pairwise_cons.mp hPairwise).1
    exact ⟨instantXStep_failing hAgree (by simpa using hKeep) hFirst hStep, hPairwise.tail⟩
  obtain ⟨s', hRun', hAgree, -⟩ := runEvents_filter hKept hRemoved ⟨AgreesOn.refl, hHarmless⟩
    hRun
  rw [List.filter_append, List.filter_cons_of_pos (by simp [hPasses]), List.filter_nil] at hRun'
  have hLocks : s'.mapTxLocks = s.mapTxLocks := by
    rw [hAgree.same]
    rfl
  refine ⟨s', hRun', hLocks, ?_⟩
  unfold Counted InstantXState.votesOf
  rw [hLocks]

/-! ## A forged vote and a genuine one -/

namespace Sample

/-- A vote for a height that is far off, so its masternode has no rank there. -/
def forgedVote (i : ℕ) : InstantXContext × InstantXEvent :=
  (instantXContext requestNode, .txlvote (unsignedVote i 9999))

def genuineVote (i : ℕ) : InstantXContext × InstantXEvent :=
  (instantXContext requestNode, .txlvote (signedVote i 4))

theorem failsTests_forgedVote {i : ℕ} (h : i < 2) : failsTests (forgedVote i) = true := by
  have hAll : ∀ i < 2, failsTests (forgedVote i) = true := by decide +kernel
  exact hAll i h

theorem acceptsVote_signedVote :
    (instantXContext requestNode).acceptsVote (signedVote 0 4) = .ok true := by
  decide +kernel

/-- A forged vote in the name of another masternode does no harm. -/
theorem otherVote_harmless :
    ∃ s s', runEvents instantXStep [forgedVote 1, genuineVote 0] .empty = .ok s ∧
      runEvents instantXStep [genuineVote 0] .empty = .ok s' ∧
      s'.mapTxLocks = s.mapTxLocks ∧
      (Counted s (signedVote 0 4) ↔ Counted s' (signedVote 0 4)) := by
  cases hRun : runEvents instantXStep [forgedVote 1, genuineVote 0] .empty with
  | error e =>
      have hOk : (runEvents instantXStep [forgedVote 1, genuineVote 0]
          .empty).toOption.isSome = true := by decide +kernel
      rw [hRun] at hOk
      cases hOk
  | ok s =>
      have hHarmless : [forgedVote 1, genuineVote 0].Pairwise Harmless := by
        refine List.pairwise_pair.mpr ?_
        intro forged vote hForged hFails hVote hPasses
        cases hForged
        cases hVote
        decide +kernel
      have hRunSplit : runEvents instantXStep ([forgedVote 1] ++ [genuineVote 0]) .empty =
          .ok s := hRun
      obtain ⟨s', hRun', hSame⟩ := counted_iff_without_failing acceptsVote_signedVote hRunSplit
        hHarmless
      rw [List.filter_cons_of_neg (by simp [failsTests_forgedVote])] at hRun'
      exact ⟨s, s', rfl, hRun', hSame⟩

/-- A forged vote in the name of the same masternode suppresses the genuine one. -/
theorem sameVote_suppressed :
    failsTests (forgedVote 0) = true ∧
      (instantXContext requestNode).acceptsVote (signedVote 0 4) = .ok true ∧
      ∃ s s', runEvents instantXStep [forgedVote 0, genuineVote 0] .empty = .ok s ∧
        runEvents instantXStep [genuineVote 0] .empty = .ok s' ∧
        ¬Counted s (signedVote 0 4) ∧ Counted s' (signedVote 0 4) := by
  refine ⟨failsTests_forgedVote (by decide), acceptsVote_signedVote, ?_⟩
  have hWith : (runEvents instantXStep [forgedVote 0, genuineVote 0] .empty).toOption.map
      (fun s => s.votesOf (lockRequest.getHash prims)) = some [] := by decide +kernel
  have hWithout : (runEvents instantXStep [genuineVote 0] .empty).toOption.map
      (fun s => s.votesOf (lockRequest.getHash prims)) = some [signedVote 0 4] := by
    decide +kernel
  cases hRun : runEvents instantXStep [forgedVote 0, genuineVote 0] .empty with
  | error e =>
      rw [hRun] at hWith
      cases hWith
  | ok s =>
      cases hRun' : runEvents instantXStep [genuineVote 0] .empty with
      | error e =>
          rw [hRun'] at hWithout
          cases hWithout
      | ok s' =>
          rw [hRun] at hWith
          rw [hRun'] at hWithout
          refine ⟨s, s', rfl, rfl, ?_, ?_⟩
          · unfold Counted
            rw [show s.votesOf (signedVote 0 4).txHash = [] from Option.some.inj hWith]
            exact List.not_mem_nil
          · unfold Counted
            rw [show s'.votesOf (signedVote 0 4).txHash = [signedVote 0 4] from
              Option.some.inj hWithout]
            exact List.mem_singleton.mpr rfl

end Sample

end SocietyGold
