import SocietyGold.DarksendRuns

/-!
# The users of a mixing session

A masternode counts the clients that have joined and keeps their collaterals, from which it
charges fees.  `AddEntry` takes one from the count whenever it refuses an entry, whoever has
sent it, and leaves the collaterals alone.  Count and collaterals agree as long as it refuses
none.
-/

namespace SocietyGold

open Support PoolStatus

/-! ## Fees -/

namespace CDarksendPool

variable (pool : CDarksendPool)

/-- The collaterals that no entry has come for. -/
def missingCollaterals : List CTransaction :=
  pool.vecSessionCollateral.filter fun txCollateral =>
    !pool.entries.any fun v => v.collateral = txCollateral

/-- The collaterals of the inputs that are not signed, one for each input. -/
def unsignedCollaterals : List CTransaction :=
  pool.entries.flatMap fun v => (v.sev.filter fun s => !s.fHasSig).map fun _ => v.collateral

/-- The offences that `ChargeFees` finds. -/
def feeOffences : List CTransaction :=
  if pool.state = POOL_STATUS_ACCEPTING_ENTRIES then pool.missingCollaterals
  else if pool.state = POOL_STATUS_SIGNING then pool.unsignedCollaterals
  else []

/-- `ChargeFees` with its three random numbers: the collateral it charges. -/
def chargeFees (rand : Fin 3 → ℕ) : Option CTransaction :=
  let offences : ℤ := pool.feeOffences.length
  let target := if offences > 1 then 50 else 0
  if rand 0 % 100 > 33 then none
  else if offences ≥ nPoolMaxTransactions - 1 ∧ rand 1 % 100 > 33 then none
  else if offences ≥ nPoolMaxTransactions then none
  else if rand 2 % 100 > target then pool.feeOffences.head?
  else none

/-- `ChargeRandomFees` with a random number for each collateral: those it charges. -/
def chargeRandomFees (rand : ℕ → ℕ) : List CTransaction :=
  (pool.vecSessionCollateral.zipIdx.filter fun s => rand s.2 % 100 ≤ 10).map Prod.fst

end CDarksendPool

/-! ## Users and collaterals -/

/-- There is a collateral for each user, and no more entries than users. -/
structure CountsParticipants (pool : CDarksendPool) : Prop where
  users : pool.sessionUsers = pool.vecSessionCollateral.length
  entries : (pool.entries.length : ℤ) ≤ pool.sessionUsers

/-- A submission that reaches `AddEntry` is not refused by it. -/
def KeepsUsers (pool : CDarksendPool) : DarksendContext × DarksendEvent → Prop
  | (ctx, .dsi nVersion vin nAmount txCollateral vout) =>
      ctx.Submits pool nVersion vin vout → ¬ctx.Refuses pool vin nAmount txCollateral
  | _ => True

section Users

variable {ctx : DarksendContext} {pool pool' : CDarksendPool}

theorem length_shapes (pool : CDarksendPool) : pool.shapes.length = pool.entries.length :=
  List.length_map _

theorem CountsParticipants.shrinks
    (h : CountsParticipants pool) (hShrinks : Shrinks pool pool') : CountsParticipants pool' := by
  rcases hShrinks with ⟨hEntries, hUsers, hCollateral⟩ | ⟨hShapes, -, hUsers, hCollateral⟩
  · constructor
    · rw [hUsers, hCollateral]
      rfl
    · rw [hEntries, hUsers]
      rfl
  · have hLength := hShapes.length_le
    rw [length_shapes, length_shapes] at hLength
    constructor
    · rw [hUsers, hCollateral, h.users]
    · rw [hUsers]
      have hEntries := h.entries
      omega

theorem CountsParticipants.joins
    {txCollateral : CTransaction} (h : CountsParticipants pool)
    (hJoins : Joins txCollateral pool pool') : CountsParticipants pool' := by
  have hUsers := h.users
  have hEntries := h.entries
  have hNonneg : max pool.sessionUsers 0 = pool.sessionUsers := max_eq_left (by omega)
  constructor
  · rw [hJoins.users, hJoins.collateral, hNonneg, hUsers, List.length_append]
    simp
  · rw [hJoins.users, hJoins.entries, hNonneg]
    omega

/-- An entry is only added while there are more users than entries. -/
theorem CountsParticipants.withEntry
    {nVersion : ℤ} {vin : List CTxIn} {nAmount : ℤ} {txCollateral : CTransaction}
    {vout : List CTxOut} (h : CountsParticipants pool)
    (hAdmits : ctx.Admits pool nVersion vin nAmount txCollateral vout) (e : CDarkSendEntry) :
    CountsParticipants (pool.withEntry e) := by
  have hReady : nPoolMaxTransactions ≤ pool.sessionUsers := of_decide_eq_true hAdmits.ready
  have hRoom := hAdmits.room
  constructor
  · exact h.users
  · unfold CDarksendPool.withEntry
    rw [List.length_append, List.length_singleton]
    push_cast
    omega

theorem CountsParticipants.step
    {event : DarksendContext × DarksendEvent} (h : CountsParticipants pool)
    (hKeeps : KeepsUsers pool event) (hStep : darksendStep event pool = .ok pool') :
    CountsParticipants pool' := by
  obtain ⟨ctx, event⟩ := event
  rcases darksendStep_cases hStep with
    hShrinks | rfl | ⟨txCollateral, hJoins⟩ |
      ⟨nVersion, vin, nAmount, txCollateral, vout, rfl,
        ⟨hSubmits, hRefuses, -⟩ | ⟨hAdmits, hShrinks⟩⟩
  · exact h.shrinks hShrinks
  · have hUsers := h.users
    have hNonneg : max pool.sessionUsers 0 = pool.sessionUsers := max_eq_left (by omega)
    rw [hNonneg]
    exact h
  · exact h.joins hJoins
  · exact absurd hRefuses (hKeeps hSubmits)
  · exact (h.withEntry hAdmits _).shrinks hShrinks

/-- With count and collaterals in agreement, `CheckForCompleteQueue` opens the session exactly
when the last client has joined. -/
theorem CountsParticipants.checkForCompleteQueue
    (h : CountsParticipants pool) (ctx : DarksendContext)
    (hState : pool.state = POOL_STATUS_QUEUE) :
    (ctx.checkForCompleteQueue pool).state = POOL_STATUS_ACCEPTING_ENTRIES ↔
      (pool.vecSessionCollateral.length : ℤ) = nPoolMaxTransactions := by
  unfold DarksendContext.checkForCompleteQueue
  rw [← h.users]
  by_cases hComplete : pool.sessionUsers = nPoolMaxTransactions
  · rw [if_pos ⟨hState, hComplete⟩]
    exact iff_of_true (by simp [CDarksendPool.updateState]) hComplete
  · rw [if_neg fun hBoth => hComplete hBoth.2, hState]
    exact iff_of_false (by decide) hComplete

/-- No more collaterals are charged than there are users. -/
theorem CountsParticipants.chargeRandomFees
    (h : CountsParticipants pool) (rand : ℕ → ℕ) :
    ((pool.chargeRandomFees rand).length : ℤ) ≤ pool.sessionUsers ∧
      ∀ tx ∈ pool.chargeRandomFees rand, tx ∈ pool.vecSessionCollateral := by
  have hSublist : (pool.chargeRandomFees rand).Sublist pool.vecSessionCollateral := by
    have hMap := (List.filter_sublist (p := fun s : CTransaction × ℕ => rand s.2 % 100 ≤ 10)
      (l := pool.vecSessionCollateral.zipIdx)).map Prod.fst
    rwa [List.zipIdx_map_fst] at hMap
  refine ⟨?_, fun tx hMem => hSublist.subset hMem⟩
  rw [h.users]
  exact_mod_cast hSublist.length_le

/-- `ChargeFees` charges a collateral of the session or that of an entry. -/
theorem mem_of_chargeFees {rand : Fin 3 → ℕ} {tx : CTransaction}
    (h : pool.chargeFees rand = some tx) :
    tx ∈ pool.vecSessionCollateral ∨ ∃ v ∈ pool.entries, v.collateral = tx := by
  have hHead : pool.feeOffences.head? = some tx := by
    unfold CDarksendPool.chargeFees at h
    dsimp only at h
    split_ifs at h <;> exact h
  have hMem : tx ∈ pool.feeOffences := List.mem_of_mem_head? hHead
  unfold CDarksendPool.feeOffences at hMem
  split_ifs at hMem
  · exact Or.inl (List.mem_filter.mp hMem).1
  · obtain ⟨v, hEntry, hTx⟩ := List.mem_flatMap.mp hMem
    obtain ⟨s, -, hSame⟩ := List.mem_map.mp hTx
    exact Or.inr ⟨v, hEntry, hSame⟩
  · cases hMem

/-- In a run in which `AddEntry` refuses no submission that reaches it, there is always a
collateral for each user, and there are no more entries than users.  So fees are charged from
collaterals of that many users, and the session opens when the last client has joined. -/
theorem sessionUsers_of_run
    {finalTransaction : CTransaction} {nTimeMillis : ℤ}
    {events : List (DarksendContext × DarksendEvent)}
    (hKeeps : ∀ past event rest before, events = past ++ event :: rest →
      runEvents darksendStep past (CDarksendPool.new finalTransaction nTimeMillis) = .ok before →
      KeepsUsers before event)
    (hRun : runEvents darksendStep events (CDarksendPool.new finalTransaction nTimeMillis) =
      .ok pool) :
    (pool.sessionUsers = pool.vecSessionCollateral.length ∧
      (pool.entries.length : ℤ) ≤ pool.sessionUsers) ∧
    (∀ rand, ((pool.chargeRandomFees rand).length : ℤ) ≤ pool.sessionUsers ∧
      ∀ tx ∈ pool.chargeRandomFees rand, tx ∈ pool.vecSessionCollateral) ∧
    (∀ rand tx, pool.chargeFees rand = some tx →
      tx ∈ pool.vecSessionCollateral ∨ ∃ v ∈ pool.entries, v.collateral = tx) ∧
    (pool.state = POOL_STATUS_QUEUE → ∀ ctx : DarksendContext,
      (ctx.checkForCompleteQueue pool).state = POOL_STATUS_ACCEPTING_ENTRIES ↔
        (pool.vecSessionCollateral.length : ℤ) = nPoolMaxTransactions) := by
  have hCounts : CountsParticipants pool := by
    refine runEvents_invariant ⟨rfl, le_rfl⟩ ?_ hRun
    intro past event rest before after hSplit hPast hBefore hStep
    exact hBefore.step (hKeeps past event rest before hSplit hPast) hStep
  exact ⟨⟨hCounts.users, hCounts.entries⟩, hCounts.chargeRandomFees,
    fun rand tx => mem_of_chargeFees, fun hState ctx => hCounts.checkForCompleteQueue ctx hState⟩

end Users

/-! ## A refused entry -/

namespace Sample

/-- Three clients join. -/
def threeUsers : List (DarksendContext × DarksendEvent) :=
  List.replicate 3 (mixingContext, .dsa MIN_POOL_PEER_PROTO_VERSION 8 mixingCollateral)

/-- A submission with a negative amount. -/
def negativeSubmission : DarksendContext × DarksendEvent :=
  (mixingContext, .dsi MIN_POOL_PEER_PROTO_VERSION
    [⟨⟨mixingFunds.getHash prims, 0⟩, [], UINT_MAX⟩] (-1) mixingCollateral
    [⟨COIN + 1000, normalScript⟩])

/-- The message is one of `dsa` and `dsi`. -/
def isJoinOrSubmission : DarksendEvent → Bool
  | .dsa _ _ _ => true
  | .dsi _ _ _ _ _ => true
  | _ => false

/-- A submission that is refused, from any peer, takes one of three users and leaves three
collaterals. -/
theorem refusedSubmission_uncounts :
    ¬∀ (finalTransaction : CTransaction) (nTimeMillis : ℤ)
      (events : List (DarksendContext × DarksendEvent)) (pool : CDarksendPool),
      (∀ event ∈ events, isJoinOrSubmission event.2 = true) →
      runEvents darksendStep events (CDarksendPool.new finalTransaction nTimeMillis) = .ok pool →
      pool.sessionUsers = pool.vecSessionCollateral.length ∧
        (pool.entries.length : ℤ) ≤ pool.sessionUsers := by
  intro h
  have hFacts : (runEvents darksendStep (threeUsers ++ [negativeSubmission]) newPool).toOption.map
      (fun pool => (pool.sessionUsers, pool.vecSessionCollateral.length)) = some (2, 3) := by
    decide +kernel
  cases hRun : runEvents darksendStep (threeUsers ++ [negativeSubmission]) newPool with
  | error fault =>
      rw [hRun] at hFacts
      cases hFacts
  | ok pool =>
      rw [hRun] at hFacts
      obtain ⟨hUsers, hCollateral⟩ := Prod.mk.inj (Option.some.inj hFacts)
      have hAll : ∀ event ∈ threeUsers ++ [negativeSubmission],
          isJoinOrSubmission event.2 = true := by
        intro event hMem
        rcases List.mem_append.mp hMem with hJoin | hSubmit
        · rw [List.eq_of_mem_replicate hJoin]
          rfl
        · rw [List.mem_singleton.mp hSubmit]
          rfl
      have hSame := (h _ _ _ pool hAll hRun).1
      rw [hUsers, hCollateral] at hSame
      cases hSame

theorem keepsUsers_submission :
    ∀ past event rest before, joinings 8 ++ [submission UINT_MAX] = past ++ event :: rest →
      runEvents darksendStep past newPool = .ok before → KeepsUsers before event := by
  intro past event rest before hSplit hPast
  rcases List.eq_nil_or_concat rest with rfl | ⟨rest, last, rfl⟩
  · obtain ⟨rfl, hEvent⟩ := List.append_inj' hSplit rfl
    obtain rfl := List.singleton_inj.mp hEvent
    have hOpen : (runEvents darksendStep (joinings 8) newPool).toOption.map
        (fun pool => pool.entries) = some [] := by decide +kernel
    rw [hPast] at hOpen
    have hEmpty : before.entries = [] := Option.some.inj hOpen
    have hValid : mixingContext.isCollateralValid mixingCollateral = .ok true := by
      decide +kernel
    rintro - (⟨txin, hMem, hNull | hNegative⟩ | hInvalid | hFull | ⟨txin, -, hIn⟩)
    · rw [List.mem_singleton.mp hMem] at hNull
      exact absurd hNull (by decide +kernel)
    · exact absurd hNegative (by decide)
    · rw [hValid] at hInvalid
      cases hInvalid
    · rw [hEmpty] at hFull
      exact absurd hFull (by decide)
    · rw [CDarksendPool.vin, hEmpty] at hIn
      cases hIn
  · rw [List.concat_eq_append, ← List.cons_append, ← List.append_assoc] at hSplit
    have hJoining : event ∈ joinings 8 := by
      rw [(List.append_inj' hSplit rfl).1]
      simp
    unfold joinings at hJoining
    rcases List.mem_append.mp hJoining with hDsa | hQueue
    · rw [List.eq_of_mem_replicate hDsa]
      trivial
    · rw [List.mem_singleton.mp hQueue]
      trivial

/-- A session with three users and one entry. -/
theorem submission_counted :
    ∃ pool, runEvents darksendStep (joinings 8 ++ [submission UINT_MAX]) newPool = .ok pool ∧
      pool.entries.length = 1 ∧ pool.sessionUsers = pool.vecSessionCollateral.length := by
  have hLength : (runEvents darksendStep (joinings 8 ++ [submission UINT_MAX])
      newPool).toOption.map (fun pool => pool.entries.length) = some 1 := by decide +kernel
  generalize hRun : runEvents darksendStep (joinings 8 ++ [submission UINT_MAX]) newPool = run
    at hLength ⊢
  cases run with
  | error fault => cases hLength
  | ok pool =>
      exact ⟨pool, rfl, Option.some.inj hLength,
        (sessionUsers_of_run keepsUsers_submission hRun).1.1⟩

end Sample

end SocietyGold
