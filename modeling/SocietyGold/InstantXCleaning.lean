import SocietyGold.InstantXLocks

/-!
# What is left when locks expire

`CleanTransactionLocksList` removes the locks that have expired, and with each of them its
request, its votes and the inputs it has locked.  It finds the inputs through the request
and the votes through the lock.  What a lock has left behind is therefore found only if its
request is known and its votes have been counted, and inputs that two requests share are
unlocked with the first of them.
-/

namespace SocietyGold

open Support

/-! ## What one cleaning removes -/

/-- A state after the removal of some locks of the state before. -/
structure InstantXState.Removed (s : InstantXState) (gone : ℕ × CTransactionLock → Prop)
    (u : InstantXState) : Prop where
  locks : s.mapTxLocks.Without (fun hash => ∃ lock, gone (hash, lock)) u.mapTxLocks
  requests : s.mapTxLockReq.Without (fun hash => ∃ lock, gone (hash, lock)) u.mapTxLockReq
  rejected : s.mapTxLockReqRejected.Without
    (fun hash => (∃ lock, gone (hash, lock)) ∧ hash ∈ s.mapTxLockReq) u.mapTxLockReqRejected
  votes : s.mapTxLockVote.Without
    (fun k => ∃ lock, gone lock ∧ lock.1 ∈ s.mapTxLockReq ∧
      k ∈ lock.2.vecConsensusVotes.map CConsensusVote.getHash) u.mapTxLockVote
  inputs : s.mapLockedInputs.Without
    (fun prevout => ∃ lock, gone lock ∧ ∃ tx, s.mapTxLockReq.lookup lock.1 = some tx ∧
      prevout ∈ tx.vin.map CTxIn.prevout) u.mapLockedInputs

namespace InstantXState

variable {s u : InstantXState} {time : ℤ}

theorem removed_none (s : InstantXState) : s.Removed (fun _ => False) s where
  locks := (Table.Without.refl _).congr (by simp)
  requests := (Table.Without.refl _).congr (by simp)
  rejected := (Table.Without.refl _).congr (by simp)
  votes := (Table.Without.refl _).congr (by simp)
  inputs := (Table.Without.refl _).congr (by simp)

/-- A lock that has not expired stays. -/
theorem cleanLock_of_unexpired
    {lock : ℕ × CTransactionLock} (h : ¬time > lock.2.nExpiration) : s.cleanLock time lock = s := by
  unfold cleanLock
  rw [if_neg h]

/-- One more lock is removed. -/
theorem Removed.cleanLock
    {gone : ℕ × CTransactionLock → Prop} {lock : ℕ × CTransactionLock}
    (h : s.Removed gone u) (hKey : lock.2.txHash = lock.1) (hNew : ∀ found, ¬gone (lock.1, found))
    (hExpired : time > lock.2.nExpiration) :
    s.Removed (fun l => gone l ∨ l = lock) (u.cleanLock time lock) := by
  have hKeys (hash : ℕ) : ((∃ l, gone (hash, l)) ∨ hash = lock.1) ↔
      ∃ l, gone (hash, l) ∨ (hash, l) = lock := by
    simp [exists_or, Prod.ext_iff]
  have hReq : u.mapTxLockReq.lookup lock.1 = s.mapTxLockReq.lookup lock.1 :=
    h.requests.lookup_of_not_gone fun ⟨found, hGone⟩ => hNew found hGone
  unfold InstantXState.cleanLock
  rw [if_pos hExpired, hKey, hReq]
  cases hKnown : s.mapTxLockReq.lookup lock.1 with
  | none =>
      have hUnknown : lock.1 ∉ s.mapTxLockReq := Table.not_mem_iff_lookup.mpr hKnown
      constructor
      · exact (h.locks.trans (Table.Without.erase _ _)).congr fun hash _ => hKeys hash
      · refine h.requests.congr ?_
        intro hash hMem
        have hNe : hash ≠ lock.1 := by
          rintro rfl
          exact hUnknown hMem
        rw [← hKeys, or_iff_left hNe]
      · refine h.rejected.congr ?_
        intro hash _
        rw [← hKeys, or_and_right, or_iff_left]
        rintro ⟨rfl, hMem⟩
        exact hUnknown hMem
      · refine h.votes.congr ?_
        intro k _
        simp [or_and_right, exists_or, hUnknown]
      · refine h.inputs.congr ?_
        intro prevout _
        simp [or_and_right, exists_or, hKnown]
  | some tx =>
      have hMem : lock.1 ∈ s.mapTxLockReq := Table.mem_iff_lookup.mpr ⟨tx, hKnown⟩
      constructor
      · exact (h.locks.trans (Table.Without.erase _ _)).congr fun hash _ => hKeys hash
      · exact (h.requests.trans (Table.Without.erase _ _)).congr fun hash _ => hKeys hash
      · refine (h.rejected.trans (Table.Without.erase _ _)).congr ?_
        intro hash _
        rw [← hKeys, or_and_right]
        apply or_congr_right
        constructor
        · rintro rfl
          exact ⟨rfl, hMem⟩
        · exact And.left
      · refine (h.votes.trans (Table.without_foldl_erase _ _ _)).congr ?_
        intro k _
        simp [or_and_right, exists_or, hMem]
      · refine (h.inputs.trans (Table.without_foldl_erase _ _ _)).congr ?_
        intro prevout _
        simp [or_and_right, exists_or, hKnown]

theorem Removed.congr
    {gone later : ℕ × CTransactionLock → Prop} (h : s.Removed gone u)
    (hSame : ∀ lock, gone lock ↔ later lock) : s.Removed later u := by
  have hEq : gone = later := funext fun lock => propext (hSame lock)
  exact hEq ▸ h

/-- The expired locks among some of the table are removed. -/
theorem removed_foldl
    {locks : List (ℕ × CTransactionLock)} (hNodup : (locks.map Prod.fst).Nodup)
    (hKey : ∀ lock ∈ locks, lock.2.txHash = lock.1) :
    s.Removed (fun lock => lock ∈ locks ∧ time > lock.2.nExpiration)
      (locks.foldl (fun u lock => u.cleanLock time lock) s) := by
  induction locks using List.reverseRecOn with
  | nil => exact s.removed_none.congr (by simp)
  | append_singleton locks lock ih =>
      rw [List.map_append, List.nodup_append] at hNodup
      have hNew : lock.1 ∉ locks.map Prod.fst := by
        intro hMem
        exact hNodup.2.2 _ hMem lock.1 (by simp) rfl
      have hPast := ih hNodup.1 fun l hMem => hKey l (List.mem_append_left _ hMem)
      rw [List.foldl_append, List.foldl_cons, List.foldl_nil]
      by_cases hExpired : time > lock.2.nExpiration
      · refine (hPast.cleanLock (hKey lock (by simp)) ?_ hExpired).congr ?_
        · rintro found ⟨hMem, -⟩
          exact hNew (List.mem_map.mpr ⟨_, hMem, rfl⟩)
        · intro l
          rw [List.mem_append, List.mem_singleton, or_and_right]
          apply or_congr_right
          constructor
          · rintro rfl
            exact ⟨rfl, hExpired⟩
          · exact And.left
      · rw [cleanLock_of_unexpired hExpired]
        refine hPast.congr ?_
        intro l
        rw [List.mem_append, List.mem_singleton, or_and_right, or_iff_left]
        rintro ⟨rfl, hTime⟩
        exact hExpired hTime

end InstantXState

/-- The locks of the state that have expired. -/
def InstantXState.Expired (s : InstantXState) (time : ℤ) (lock : ℕ × CTransactionLock) : Prop :=
  s.mapTxLocks.lookup lock.1 = some lock.2 ∧ time > lock.2.nExpiration

/-- With a best block, cleaning removes the expired locks. -/
theorem removed_cleanTransactionLocksList
    {ctx : InstantXContext} {s : InstantXState} {pindexBest : CBlockIndex}
    (hBest : ctx.st.entry ctx.st.pindexBest = some pindexBest) (hKey : KeyedLocks s) :
    s.Removed (s.Expired ctx.env.time) (ctx.cleanTransactionLocksList s) := by
  unfold InstantXContext.cleanTransactionLocksList
  rw [hBest]
  refine (InstantXState.removed_foldl s.mapTxLocks.nodup_keys_inKeyOrder ?_).congr ?_
  · intro lock hMem
    exact hKey (Table.mem_inKeyOrder.mp hMem)
  · intro lock
    rw [InstantXState.Expired, Table.mem_inKeyOrder]

/-! ## What cleaning is for, and when it does it -/

/-- Expired locks are removed completely, and nothing else is. -/
structure CleanedUp (time : ℤ) (s s' : InstantXState) : Prop where
  backed : ∀ prevout hash, s'.mapLockedInputs.lookup prevout = some hash →
    ∃ lock, s'.mapTxLocks.lookup hash = some lock ∧ ¬time > lock.nExpiration
  kept : ∀ prevout hash lock, s.mapLockedInputs.lookup prevout = some hash →
    s.mapTxLocks.lookup hash = some lock → ¬time > lock.nExpiration →
      s'.mapLockedInputs.lookup prevout = some hash
  forgotten : ∀ hash ∈ s.mapTxLocks, hash ∉ s'.mapTxLocks →
    hash ∉ s'.mapTxLockReq ∧ hash ∉ s'.mapTxLockReqRejected ∧
      ∀ k v, s'.mapTxLockVote.lookup k = some v → v.txHash ≠ hash

/-- The expired locks have left nothing that their removal would not find, and share nothing
with others. -/
structure InstantXState.Removable (s : InstantXState) (time : ℤ) : Prop where
  requested : ∀ lock, s.Expired time lock → lock.1 ∈ s.mapTxLockReq
  unshared : ∀ lock tx, s.Expired time lock → s.mapTxLockReq.lookup lock.1 = some tx →
    ∀ txin ∈ tx.vin, ∀ hash other, s.mapLockedInputs.lookup txin.prevout = some hash →
      s.mapTxLocks.lookup hash = some other → time > other.nExpiration
  counted : ∀ lock, s.Expired time lock → ∀ k v, s.mapTxLockVote.lookup k = some v →
    v.txHash = lock.1 → k ∈ lock.2.vecConsensusVotes.map CConsensusVote.getHash

namespace InstantXContext

variable (ctx : InstantXContext)

/-- The memory pool rejects a request that has no lock, and an input of it is not locked. -/
structure LocksUntracked (tx : CTransaction) (s : InstantXState) : Prop where
  fresh : tx.getHash ctx.env.prims ∉ s.mapTxLockReq ∧
    tx.getHash ctx.env.prims ∉ s.mapTxLockReqRejected
  valid : ctx.isIXTXValid tx = true ∧ paysNormally tx = true
  rejected : ∃ nBlockHeight s₁ r, ctx.createNewLock tx s = .ok (nBlockHeight, s₁) ∧
    acceptToMemoryPool (ctx.relayEnv s₁) ctx.st tx true false false = .ok r ∧
    r.accepted = false ∧ tx.getHash ctx.env.prims ∉ s₁.mapTxLocks
  unlocked : ∃ txin ∈ tx.vin, txin.prevout ∉ s.mapLockedInputs

/-- The vote completes a lock whose request is not known, while an input is locked for it. -/
structure CompletesUnknown (vote : CConsensusVote) (s : InstantXState) : Prop where
  fresh : vote.getHash ∉ s.mapTxLockVote
  accepted : ctx.acceptsVote vote = .ok true
  complete : INSTANTX_SIGNATURES_REQUIRED ≤ (ctx.lockWithVote vote s).countSignatures
  unknown : vote.txHash ∉ s.mapTxLockReq
  locked : ∃ prevout, s.mapLockedInputs.lookup prevout = some vote.txHash

/-- The condition on an event under which the tables can be cleaned.  Without a best block
nothing is removed, and then no input may be locked for an expired lock. -/
def KeepsTidy (s : InstantXState) : InstantXEvent → Prop
  | .txlreq tx => ctx.enabled = true → ¬ctx.LocksUntracked tx s
  | .txlvote vote => ctx.enabled = true → ¬ctx.CompletesUnknown vote s
  | .clean =>
      if (ctx.st.entry ctx.st.pindexBest).isSome then s.Removable ctx.env.time
      else ∀ prevout lock, s.Expired ctx.env.time lock →
        s.mapLockedInputs.lookup prevout ≠ some lock.1

end InstantXContext

/-! ## What locked inputs refer to -/

/-- Every locked input is locked for a request that has a lock, has been accepted or
rejected, and spends it if it is known. -/
structure TracksInputs (s : InstantXState) : Prop where
  key : KeyedLocks s
  tracked : ∀ ⦃prevout hash⦄, s.mapLockedInputs.lookup prevout = some hash → hash ∈ s.mapTxLocks
  seen : ∀ ⦃prevout hash⦄, s.mapLockedInputs.lookup prevout = some hash →
    hash ∈ s.mapTxLockReq ∨ hash ∈ s.mapTxLockReqRejected
  spent : ∀ ⦃prevout hash tx⦄, s.mapLockedInputs.lookup prevout = some hash →
    s.mapTxLockReq.lookup hash = some tx → prevout ∈ tx.vin.map CTxIn.prevout

namespace TracksInputs

variable {ctx : InstantXContext} {s s' : InstantXState}

/-- Steps that leave the inputs and the requests alone, and remove nothing. -/
theorem of_same
    (h : TracksInputs s) (hKey : KeyedLocks s') (hInputs : s'.mapLockedInputs = s.mapLockedInputs)
    (hLocks : ∀ hash ∈ s.mapTxLocks, hash ∈ s'.mapTxLocks)
    (hReq : s'.mapTxLockReq = s.mapTxLockReq)
    (hRejected : ∀ hash ∈ s.mapTxLockReqRejected, hash ∈ s'.mapTxLockReqRejected) :
    TracksInputs s' := by
  refine ⟨hKey, ?_, ?_, ?_⟩
  · intro prevout hash hLocked
    exact hLocks hash (h.tracked (hInputs ▸ hLocked))
  · intro prevout hash hLocked
    rw [hReq]
    exact (h.seen (hInputs ▸ hLocked)).imp_right (hRejected hash)
  · intro prevout hash tx hLocked hKnown
    rw [hInputs] at hLocked
    rw [hReq] at hKnown
    exact h.spent hLocked hKnown

theorem expireLock (h : TracksInputs s) (time : ℤ) (txHash : ℕ) :
    TracksInputs (s.expireLock time txHash) := by
  refine h.of_same (keyedLocks_expireLock h.key time txHash) ?_ ?_ ?_ ?_
  · rw [InstantXState.expireLock_eq]
  · intro hash hMem
    rw [← AList.lookup_isSome] at hMem ⊢
    rw [InstantXState.lookup_expireLock, Option.isSome_map]
    exact hMem
  · rw [InstantXState.expireLock_eq]
  · intro hash hMem
    rw [InstantXState.expireLock_eq]
    exact hMem

/-- A request that is not there yet is entered under a hash for which nothing is locked. -/
theorem touchRequest
    {txHash : ℕ} {tx : CTransaction} (h : TracksInputs s)
    (hFree : txHash ∉ s.mapTxLockReq → ∀ prevout,
      s.mapLockedInputs.lookup prevout ≠ some txHash) (votes : Table ℕ CConsensusVote) :
    TracksInputs { s with
      mapTxLockReq := s.mapTxLockReq.touch txHash tx
      mapTxLockVote := votes } := by
  refine ⟨h.key, h.tracked, ?_, ?_⟩
  · intro prevout hash hLocked
    exact (h.seen hLocked).imp_left fun hMem => Table.mem_touch.mpr (Or.inr hMem)
  · intro prevout hash found hLocked hFound
    dsimp only at hFound
    rw [Table.lookup_touch] at hFound
    cases hOld : s.mapTxLockReq.lookup hash with
    | some old =>
        rw [hOld, Option.some_or] at hFound
        exact h.spent hLocked (hOld.trans hFound)
    | none =>
        rw [hOld, Option.none_or] at hFound
        split_ifs at hFound with hHash
        rw [← hHash] at hLocked hOld
        exact absurd hLocked (hFree (Table.not_mem_iff_lookup.mpr hOld) prevout)

/-- Inputs are locked for a request that has a lock and spends them. -/
theorem lockInputs
    {vin : List CTxIn} {txHash : ℕ} (h : TracksInputs s)
    (hNew : (∃ txin ∈ vin, txin.prevout ∉ s.mapLockedInputs) → txHash ∈ s.mapTxLocks)
    (hSeen : txHash ∈ s.mapTxLockReq ∨ txHash ∈ s.mapTxLockReqRejected)
    (hSpent : ∀ tx, s.mapTxLockReq.lookup txHash = some tx → tx.vin = vin) :
    TracksInputs (s.lockInputs vin txHash) := by
  have hCases : ∀ {prevout hash},
      (s.lockInputs vin txHash).mapLockedInputs.lookup prevout = some hash →
        s.mapLockedInputs.lookup prevout = some hash ∨
          (s.mapLockedInputs.lookup prevout = none ∧ prevout ∈ vin.map CTxIn.prevout ∧
            hash = txHash) := by
    intro prevout hash hLocked
    rw [InstantXState.lookup_lockInputs] at hLocked
    cases hOld : s.mapLockedInputs.lookup prevout with
    | some old =>
        rw [hOld, Option.some_or] at hLocked
        exact Or.inl hLocked
    | none =>
        rw [hOld, Option.none_or] at hLocked
        split_ifs at hLocked with hMem
        exact Or.inr ⟨rfl, hMem, (Option.some.inj hLocked).symm⟩
  refine ⟨h.key, ?_, ?_, ?_⟩
  · intro prevout hash hLocked
    rcases hCases hLocked with hOld | ⟨hNone, hMem, rfl⟩
    · exact h.tracked hOld
    · obtain ⟨txin, hTxin, rfl⟩ := List.mem_map.mp hMem
      exact hNew ⟨txin, hTxin, Table.not_mem_iff_lookup.mpr hNone⟩
  · intro prevout hash hLocked
    rcases hCases hLocked with hOld | ⟨-, -, rfl⟩
    · exact h.seen hOld
    · exact hSeen
  · intro prevout hash tx hLocked hKnown
    rcases hCases hLocked with hOld | ⟨-, hMem, rfl⟩
    · exact h.spent hOld hKnown
    · rw [hSpent tx hKnown]
      exact hMem

/-- The state after `CreateNewLock`. -/
theorem createNewLock
    {tx : CTransaction} {nBlockHeight : ℤ} (h : TracksInputs s)
    (hCreate : ctx.createNewLock tx s = .ok (nBlockHeight, s')) :
    TracksInputs s' ∧ s'.mapLockedInputs = s.mapLockedInputs ∧
      s'.mapTxLockReq = s.mapTxLockReq ∧
      s'.mapTxLockReqRejected = s.mapTxLockReqRejected := by
  rcases InstantXContext.createNewLock_cases hCreate with ⟨-, rfl⟩ | ⟨-, rfl⟩
  · exact ⟨h, rfl, rfl, rfl⟩
  · refine ⟨?_, rfl, rfl, rfl⟩
    refine h.of_same (keyedLocks_createLock h.key _ _ _) rfl ?_ rfl fun _ hMem => hMem
    intro hash hMem
    rw [← AList.lookup_isSome] at hMem ⊢
    rw [InstantXState.lookup_createLock]
    split_ifs
    · rfl
    · exact hMem

theorem processTxlreq
    {tx : CTransaction} (h : TracksInputs s) (hCondition : ¬ctx.LocksUntracked tx s)
    (hStep : ctx.processTxlreq tx s = .ok s') : TracksInputs s' := by
  rcases InstantXContext.processTxlreq_cases hStep with
    rfl | ⟨hNew, hNotRejected, hValid, hScripts, nBlockHeight, s₁, r, hCreate, hPool, hRest⟩
  · exact h
  · obtain ⟨hTracks, hInputs, hReq, hRejectedSame⟩ := h.createNewLock hCreate
    rcases hRest with ⟨-, hAccept⟩ | ⟨hRejected, hReject⟩
    · obtain ⟨own, -, rfl⟩ := InstantXContext.acceptRequest_cases hAccept
      apply hTracks.touchRequest
      intro _ prevout hLocked
      rw [hInputs] at hLocked
      exact (h.seen hLocked).elim hNew hNotRejected
    · have hBase : TracksInputs (ctx.rejectedState tx s₁) := by
        have hRemembered : TracksInputs { s₁ with
            mapTxLockReqRejected :=
              s₁.mapTxLockReqRejected.touch (tx.getHash ctx.env.prims) tx } :=
          hTracks.of_same hTracks.key rfl (fun _ hMem => hMem) rfl
            fun _ hMem => Table.mem_touch.mpr (Or.inr hMem)
        apply hRemembered.lockInputs
        · rintro ⟨txin, hMem, hUnlocked⟩
          by_contra hNoLock
          exact hCondition ⟨⟨hNew, hNotRejected⟩, ⟨hValid, hScripts⟩,
            ⟨nBlockHeight, s₁, r, hCreate, hPool, hRejected, hNoLock⟩, txin, hMem,
            hInputs ▸ hUnlocked⟩
        · exact Or.inr (Table.mem_touch.mpr (Or.inl rfl))
        · intro found hFound
          have hOld : s.mapTxLockReq.lookup (tx.getHash ctx.env.prims) = some found :=
            hReq ▸ hFound
          exact absurd (Table.mem_iff_lookup.mpr ⟨found, hOld⟩) hNew
      rcases InstantXContext.rejectRequest_cases hReject with rfl | ⟨hash, other, rfl⟩
      · exact hBase
      · exact (hBase.expireLock _ _).expireLock _ _

theorem processTxlvote
    {vote : CConsensusVote} (h : TracksInputs s) (hCondition : ¬ctx.CompletesUnknown vote s)
    (hStep : ctx.processTxlvote vote s = .ok s') : TracksInputs s' := by
  have hRemembered : TracksInputs (s.remember vote) :=
    h.of_same h.key rfl (fun _ hMem => hMem) rfl fun _ hMem => hMem
  rcases InstantXContext.processTxlvote_cases hStep with
    ⟨-, rfl⟩ | ⟨hNew, ⟨-, rfl⟩ | ⟨hAccepts, hComplete⟩⟩
  · exact h
  · exact hRemembered
  · have hLookup (hash : ℕ) := InstantXState.lookup_countVote (s := s.remember vote)
      ctx.env.time vote hash
    have hCounted : TracksInputs ((s.remember vote).countVote ctx.env.time vote) := by
      refine hRemembered.of_same (keyedLocks_countVote hRemembered.key _ _) rfl ?_ rfl
        fun _ hMem => hMem
      intro hash hMem
      rw [← AList.lookup_isSome] at hMem ⊢
      rw [hLookup]
      split_ifs
      · rfl
      · exact hMem
    rcases InstantXContext.completeLock_cases hComplete with ⟨-, rfl⟩ | ⟨hCount, hRest⟩
    · exact hCounted
    · have hRequested : TracksInputs
          (ctx.withRequest vote.txHash ((s.remember vote).countVote ctx.env.time vote)) := by
        apply hCounted.touchRequest
        intro hUnknown prevout hLocked
        exact hCondition ⟨hNew, hAccepts, hCount, hUnknown, prevout, hLocked⟩
      rcases hRest with ⟨hash, other, rfl⟩ | rfl
      · exact (hRequested.expireLock _ _).expireLock _ _
      · apply hRequested.lockInputs
        · intro _
          rw [← AList.lookup_isSome]
          exact (congrArg Option.isSome (hLookup vote.txHash)).trans (by simp)
        · exact Or.inl (Table.mem_touch.mpr (Or.inl rfl))
        · intro tx hKnown
          rw [InstantXContext.lookup_withRequest] at hKnown
          rw [← Option.some.inj hKnown]

/-- What is locked after the removal of the expired locks is locked for an unexpired one. -/
theorem backed_of_removed
    {time : ℤ} (h : TracksInputs s) (hRemovable : s.Removable time)
    (hRemoved : s.Removed (s.Expired time) s') {prevout : COutPoint} {hash : ℕ}
    (hLocked : s'.mapLockedInputs.lookup prevout = some hash) :
    s.mapLockedInputs.lookup prevout = some hash ∧
      ∃ lock, s'.mapTxLocks.lookup hash = some lock ∧ s.mapTxLocks.lookup hash = some lock ∧
        ¬time > lock.nExpiration := by
  obtain ⟨hOld, hStays⟩ := (hRemoved.inputs prevout hash).mp hLocked
  obtain ⟨lock, hLock⟩ := Table.mem_iff_lookup.mp (h.tracked hOld)
  have hUnexpired : ¬time > lock.nExpiration := by
    intro hTime
    obtain ⟨tx, hKnown⟩ :=
      Table.mem_iff_lookup.mp (hRemovable.requested (hash, lock) ⟨hLock, hTime⟩)
    exact hStays ⟨(hash, lock), ⟨hLock, hTime⟩, tx, hKnown, h.spent hOld hKnown⟩
  refine ⟨hOld, lock, (hRemoved.locks hash lock).mpr ⟨hLock, ?_⟩, hLock, hUnexpired⟩
  rintro ⟨found, hFound, hTime⟩
  rw [Option.some.inj (hLock.symm.trans hFound)] at hUnexpired
  exact hUnexpired hTime

/-- The removal of the expired locks keeps the invariant. -/
theorem of_removed
    {time : ℤ} (h : TracksInputs s) (hRemovable : s.Removable time)
    (hRemoved : s.Removed (s.Expired time) s') : TracksInputs s' := by
  have hBacked {prevout : COutPoint} {hash : ℕ}
      (hLocked : s'.mapLockedInputs.lookup prevout = some hash) :=
    h.backed_of_removed hRemovable hRemoved hLocked
  have hStays {prevout : COutPoint} {hash : ℕ}
      (hLocked : s'.mapLockedInputs.lookup prevout = some hash) :
      ¬∃ lock, s.Expired time (hash, lock) := by
    obtain ⟨-, lock, -, hLock, hUnexpired⟩ := hBacked hLocked
    rintro ⟨found, hFound, hTime⟩
    rw [Option.some.inj (hLock.symm.trans hFound)] at hUnexpired
    exact hUnexpired hTime
  refine ⟨?_, ?_, ?_, ?_⟩
  · intro hash lock hLock
    exact h.key ((hRemoved.locks hash lock).mp hLock).1
  · intro prevout hash hLocked
    obtain ⟨-, lock, hLock, -⟩ := hBacked hLocked
    exact Table.mem_iff_lookup.mpr ⟨lock, hLock⟩
  · intro prevout hash hLocked
    rcases h.seen (hBacked hLocked).1 with hMem | hMem
    · exact Or.inl (hRemoved.requests.mem_iff.mpr ⟨hMem, hStays hLocked⟩)
    · refine Or.inr (hRemoved.rejected.mem_iff.mpr ⟨hMem, ?_⟩)
      rintro ⟨hExpired, -⟩
      exact hStays hLocked hExpired
  · intro prevout hash tx hLocked hKnown
    exact h.spent (hBacked hLocked).1 ((hRemoved.requests hash tx).mp hKnown).1

/-- Where the expired locks can be removed, their removal cleans up. -/
theorem cleanedUp_of_removed
    {time : ℤ} (h : TracksInputs s) (hRemovable : s.Removable time)
    (hRemoved : s.Removed (s.Expired time) s') : CleanedUp time s s' where
  backed prevout hash hLocked := by
    obtain ⟨-, lock, hLock, -, hUnexpired⟩ := h.backed_of_removed hRemovable hRemoved hLocked
    exact ⟨lock, hLock, hUnexpired⟩
  kept prevout hash lock hLocked hLock hUnexpired := by
    refine (hRemoved.inputs prevout hash).mpr ⟨hLocked, ?_⟩
    rintro ⟨expired, hExpired, tx, hKnown, hMem⟩
    obtain ⟨txin, hTxin, rfl⟩ := List.mem_map.mp hMem
    exact hUnexpired (hRemovable.unshared expired tx hExpired hKnown txin hTxin hash lock
      hLocked hLock)
  forgotten hash hMem hGone := by
    obtain ⟨lock, hExpired⟩ : ∃ lock, s.Expired time (hash, lock) := by
      by_contra hStays
      exact hGone (hRemoved.locks.mem_iff.mpr ⟨hMem, hStays⟩)
    have hKnown := hRemovable.requested _ hExpired
    refine ⟨hRemoved.requests.not_mem_of_gone ⟨lock, hExpired⟩,
      hRemoved.rejected.not_mem_of_gone ⟨⟨lock, hExpired⟩, hKnown⟩, ?_⟩
    intro k v hVote hHash
    obtain ⟨hOld, hStays⟩ := (hRemoved.votes k v).mp hVote
    exact hStays ⟨(hash, lock), hExpired, hKnown, hRemovable.counted _ hExpired k v hOld hHash⟩

/-- Cleaning under the condition keeps the invariant and cleans up. -/
theorem cleanTransactionLocksList
    (h : TracksInputs s) (hCondition : ctx.KeepsTidy s .clean) :
    TracksInputs (ctx.cleanTransactionLocksList s) ∧
      CleanedUp ctx.env.time s (ctx.cleanTransactionLocksList s) := by
  unfold InstantXContext.KeepsTidy at hCondition
  cases hBest : ctx.st.entry ctx.st.pindexBest with
  | none =>
      rw [hBest, if_neg (by simp)] at hCondition
      have hSame : ctx.cleanTransactionLocksList s = s := by
        unfold InstantXContext.cleanTransactionLocksList
        rw [hBest]
      rw [hSame]
      refine ⟨h, ?_, fun _ _ _ hLocked _ _ => hLocked, fun _ hMem hGone => absurd hMem hGone⟩
      intro prevout hash hLocked
      obtain ⟨lock, hLock⟩ := Table.mem_iff_lookup.mp (h.tracked hLocked)
      exact ⟨lock, hLock, fun hTime => hCondition prevout (hash, lock) ⟨hLock, hTime⟩ hLocked⟩
  | some pindexBest =>
      rw [hBest, if_pos (by simp)] at hCondition
      have hRemoved := removed_cleanTransactionLocksList hBest h.key
      exact ⟨h.of_removed hCondition hRemoved, h.cleanedUp_of_removed hCondition hRemoved⟩

theorem instantXStep
    {event : InstantXEvent} (h : TracksInputs s) (hCondition : ctx.KeepsTidy s event)
    (hStep : instantXStep (ctx, event) s = .ok s') : TracksInputs s' := by
  unfold SocietyGold.instantXStep at hStep
  cases event with
  | txlreq tx =>
      dsimp only at hStep
      split_ifs at hStep with hEnabled
      · exact h.processTxlreq (hCondition hEnabled) hStep
      · exact Except.ok.inj hStep ▸ h
  | txlvote vote =>
      dsimp only at hStep
      split_ifs at hStep with hEnabled
      · exact h.processTxlvote (hCondition hEnabled) hStep
      · exact Except.ok.inj hStep ▸ h
  | clean =>
      rw [← Except.ok.inj hStep]
      exact (h.cleanTransactionLocksList hCondition).1

end TracksInputs

/-! ## Runs -/

/-- An event that meets the condition. -/
def TidyStep (s : InstantXState) (new : List (InstantXContext × InstantXEvent))
    (s' : InstantXState) : Prop :=
  ∃ event, new = [event] ∧ event.1.KeepsTidy s event.2 ∧ instantXStep event s = .ok s'

theorem tracksInputs_of_run
    {events : List (InstantXContext × InstantXEvent)} {s : InstantXState}
    (hRun : Trace TidyStep .empty events s) : TracksInputs s := by
  refine Trace.invariant (I := fun _ s => TracksInputs s) ?_ ?_ hRun
  · constructor
    · intro _ _ h
      cases h
    · intro _ _ h
      cases h
    · intro _ _ h
      cases h
    · intro _ _ _ h
      cases h
  · rintro _ s new s' hTracks ⟨⟨ctx, event⟩, rfl, hCondition, hStep⟩
    exact hTracks.instantXStep hCondition hStep

/-- In a run whose events meet the condition, each cleaning removes the expired locks
completely and nothing else. -/
theorem locksCleaned_of_run
    {events : List (InstantXContext × InstantXEvent)} {s : InstantXState}
    (hRun : Trace TidyStep .empty events s)
    (ctx : InstantXContext) (hCondition : ctx.KeepsTidy s .clean) :
    CleanedUp ctx.env.time s (ctx.cleanTransactionLocksList s) :=
  ((tracksInputs_of_run hRun).cleanTransactionLocksList hCondition).2

/-! ## A lock that is removed, and an input that stays locked -/

namespace Sample

/-- A request and a vote for it. -/
def cleanableRun : List (InstantXContext × InstantXEvent) :=
  [(instantXContext requestNode, .txlreq lockRequest),
    (instantXContext requestNode, .txlvote (signedVote 0 4))]

/-- The node more than twenty minutes later. -/
def laterContext : InstantXContext :=
  { instantXContext requestNode with env := masternodeEnv 2200 }

/-- The expired lock has its request and its vote, and nothing is locked. -/
theorem removable_of_keys
    {s : InstantXState} {hash : ℕ} (hLocks : s.mapTxLocks.keys = [hash])
    (hReq : s.mapTxLockReq.keys = [hash]) (hInputs : s.mapLockedInputs.keys = [])
    (hVotes : s.mapTxLockVote.keys ⊆ (s.votesOf hash).map CConsensusVote.getHash) (time : ℤ) :
    s.Removable time := by
  have hOnly {lock : ℕ × CTransactionLock} (hExpired : s.Expired time lock) : lock.1 = hash := by
    have hMem : lock.1 ∈ s.mapTxLocks.keys :=
      AList.mem_keys.mp (Table.mem_iff_lookup.mpr ⟨lock.2, hExpired.1⟩)
    simpa [hLocks] using hMem
  constructor
  · intro lock hExpired
    rw [hOnly hExpired, AList.mem_keys, hReq]
    exact List.mem_singleton_self hash
  · intro lock tx _ _ txin _ other found hLocked
    have hMem : txin.prevout ∈ s.mapLockedInputs.keys :=
      AList.mem_keys.mp (Table.mem_iff_lookup.mpr ⟨other, hLocked⟩)
    rw [hInputs] at hMem
    cases hMem
  · intro lock hExpired k v hVote _
    have hMem := hVotes (AList.mem_keys.mp (Table.mem_iff_lookup.mpr ⟨v, hVote⟩))
    rw [InstantXState.votesOf, ← hOnly hExpired, hExpired.1] at hMem
    exact hMem

theorem cleanableRun_tidy :
    ∃ s, Trace TidyStep .empty cleanableRun s ∧ lockRequest.getHash prims ∈ s.mapTxLocks ∧
      laterContext.KeepsTidy s .clean := by
  have hCreates : ((instantXContext requestNode).createNewLock lockRequest .empty).toOption.map
      (fun created => decide (lockRequest.getHash prims ∈ created.2.mapTxLocks)) = some true := by
    decide +kernel
  have hFirst : (runEvents instantXStep (cleanableRun.take 1) .empty).toOption.map
      (fun s => decide (lockRequest.getHash prims ∈ s.mapTxLockReq)) = some true := by
    decide +kernel
  have hFacts : (runEvents instantXStep cleanableRun .empty).toOption.map (fun s =>
      (s.mapTxLocks.keys, s.mapTxLockReq.keys, s.mapLockedInputs.keys,
        decide (s.mapTxLockVote.keys ⊆
          (s.votesOf (lockRequest.getHash prims)).map CConsensusVote.getHash))) =
      some ([lockRequest.getHash prims], [lockRequest.getHash prims], [], true) := by
    decide +kernel
  have hBest : (laterContext.st.entry laterContext.st.pindexBest).isSome = true := by
    decide +kernel
  cases hRun : runEvents instantXStep cleanableRun .empty with
  | error e =>
      rw [hRun] at hFacts
      cases hFacts
  | ok s =>
      rw [hRun] at hFacts
      simp only [Except.toOption, Option.map_some, Option.some.injEq, Prod.mk.injEq] at hFacts
      obtain ⟨hLocks, hReq, hInputs, hVotes⟩ := hFacts
      obtain ⟨u, hRequest, hRest⟩ := runEvents_cons_eq_ok.mp hRun
      obtain ⟨t, hVote, hEnd⟩ := runEvents_cons_eq_ok.mp hRest
      have hSame : t = s := Except.ok.inj hEnd
      have hKnown : lockRequest.getHash prims ∈ u.mapTxLockReq := by
        have hShort : runEvents instantXStep (cleanableRun.take 1) .empty = .ok u :=
          runEvents_cons_eq_ok.mpr ⟨u, hRequest, rfl⟩
        rw [hShort] at hFirst
        exact of_decide_eq_true (Option.some.inj hFirst)
      have hTracked : (instantXContext requestNode).KeepsTidy .empty (.txlreq lockRequest) := by
        rintro - ⟨-, -, ⟨nBlockHeight, s₁, r, hCreate, -, -, hNoLock⟩, -⟩
        rw [hCreate] at hCreates
        exact hNoLock (of_decide_eq_true (Option.some.inj hCreates))
      have hCounted : (instantXContext requestNode).KeepsTidy u (.txlvote (signedVote 0 4)) := by
        rintro - ⟨-, -, -, hUnknown, -⟩
        exact hUnknown hKnown
      have hAfterRequest : Trace TidyStep .empty
          [(instantXContext requestNode, .txlreq lockRequest)] u := by
        exact Trace.start.next ⟨_, rfl, hTracked, hRequest⟩
      have hAfterVote : Trace TidyStep .empty cleanableRun s := by
        exact hAfterRequest.next ⟨_, rfl, hCounted, hSame ▸ hVote⟩
      refine ⟨s, hAfterVote, ?_, ?_⟩
      · rw [AList.mem_keys, hLocks]
        exact List.mem_singleton_self _
      · unfold InstantXContext.KeepsTidy
        rw [if_pos hBest]
        exact removable_of_keys hLocks hReq hInputs (of_decide_eq_true hVotes) _

/-- Cleaning removes the lock with its request and its vote. -/
theorem cleanableRun_cleaned :
    ∃ s, lockRequest.getHash prims ∈ s.mapTxLocks ∧
      CleanedUp 2200 s (laterContext.cleanTransactionLocksList s) := by
  obtain ⟨s, hRun, hLock, hCondition⟩ := cleanableRun_tidy
  exact ⟨s, hLock, locksCleaned_of_run hRun laterContext hCondition⟩

/-- Nothing removes the input that a rejected request has locked. -/
theorem rejectedRequest_staysLocked :
    ∃ s, runEvents instantXStep rejectedRun .empty = .ok s ∧
      ¬CleanedUp 900 s ((instantXContext (nodeWith [])).cleanTransactionLocksList s) := by
  have hFacts : (runEvents instantXStep rejectedRun .empty).toOption.map (fun s =>
      (((instantXContext (nodeWith [])).cleanTransactionLocksList s).mapLockedInputs.lookup
          ⟨fundingPayment.getHash prims, 0⟩,
        (((instantXContext (nodeWith [])).cleanTransactionLocksList s).mapTxLocks.lookup
          (lockRequest.getHash prims)).isSome)) =
      some (some (lockRequest.getHash prims), false) := by decide +kernel
  cases hRun : runEvents instantXStep rejectedRun .empty with
  | error e =>
      rw [hRun] at hFacts
      cases hFacts
  | ok s =>
      rw [hRun] at hFacts
      obtain ⟨hLocked, hNoLock⟩ := Prod.mk.inj (Option.some.inj hFacts)
      refine ⟨s, rfl, ?_⟩
      intro hCleaned
      obtain ⟨lock, hLock, -⟩ := hCleaned.backed _ _ hLocked
      rw [hLock] at hNoLock
      cases hNoLock

end Sample

end SocietyGold
