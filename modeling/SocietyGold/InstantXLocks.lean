import SocietyGold.InstantX
import SocietyGold.Support.Trace

/-!
# What locked inputs stand for

Two handlers lock inputs: that of a vote which completes a lock, and that of a request which
the memory pool rejects.  The second one asks for no votes.  Where it locks nothing, and where
votes carry genuine signatures, every locked input belongs to a request for which enough
masternodes have voted.
-/

namespace SocietyGold

open Support

/-! ## Consensus -/

namespace InstantXContext

variable (ctx : InstantXContext)

/-- The signature of the vote is one by its masternode. -/
def Signed (vote : CConsensusVote) : Prop :=
  ∃ mn ∈ ctx.vMasternodes, mn.vin.prevout = vote.vinMasternode.prevout ∧
    ctx.signer.Recovers mn.pubkey2 vote.vchMasterNodeSignature vote.strMessage

/-- A signed vote of a masternode among the first ones at its height. -/
def Elects (vote : CConsensusVote) : Prop :=
  ctx.Signed vote ∧ ∃ vMasternodes n, ctx.rank vote.vinMasternode vote.nBlockHeight =
    .ok (vMasternodes, n) ∧ 1 ≤ n ∧ n ≤ INSTANTX_SIGNATURES_TOTAL

/-- The request is rejected although one of its inputs is not locked. -/
structure LocksUnvoted (tx : CTransaction) (s : InstantXState) : Prop where
  fresh : tx.getHash ctx.env.prims ∉ s.mapTxLockReq ∧
    tx.getHash ctx.env.prims ∉ s.mapTxLockReqRejected
  valid : ctx.isIXTXValid tx = true ∧ paysNormally tx = true
  rejected : ∃ r, acceptToMemoryPool (ctx.relayEnv s) ctx.st tx true false false = .ok r ∧
    r.accepted = false
  unlocked : ∃ txin ∈ tx.vin, txin.prevout ∉ s.mapLockedInputs

/-- The condition on an event under which locks come from votes only: no request is rejected
while one of its inputs is not locked, and a vote that is counted is signed. -/
def LocksByVotes (s : InstantXState) (event : InstantXEvent) : Prop :=
  ctx.enabled = true →
    match event with
    | .txlreq tx => ¬ctx.LocksUnvoted tx s
    | .txlvote vote => vote.getHash ∉ s.mapTxLockVote → ctx.acceptsVote vote = .ok true →
        ctx.Signed vote
    | .clean => True

end InstantXContext

/-- The vote has arrived, signed and from a masternode among the first ones. -/
def Received (events : List (InstantXContext × InstantXEvent)) (vote : CConsensusVote) : Prop :=
  ∃ ctx : InstantXContext, (ctx, .txlvote vote) ∈ events ∧ ctx.Elects vote

/-- Enough votes of the lock, for its own height and from different masternodes, have arrived
signed and from masternodes among the first ones at that height. -/
structure CTransactionLock.Elected (events : List (InstantXContext × InstantXEvent))
    (lock : CTransactionLock) (votes : List CConsensusVote) : Prop where
  held : votes.Sublist lock.vecConsensusVotes
  enough : INSTANTX_SIGNATURES_REQUIRED ≤ votes.length
  distinct : (votes.map fun v => v.vinMasternode.prevout).Nodup
  height : ∀ v ∈ votes, v.nBlockHeight = lock.nBlockHeight
  received : ∀ v ∈ votes, Received events v

/-- A known request with the hash spends the outpoint, and enough masternodes have voted for
it. -/
structure Consensus (prims : Primitives) (events : List (InstantXContext × InstantXEvent))
    (s : InstantXState) (prevout : COutPoint) (hash : ℕ) : Prop where
  request : ∃ tx, s.mapTxLockReq.lookup hash = some tx ∧ tx.getHash prims = hash ∧
    prevout ∈ tx.vin.map CTxIn.prevout
  votes : ∃ lock votes, s.mapTxLocks.lookup hash = some lock ∧ lock.Elected events votes

/-! ## Votes -/

/-- Each lock stands under its transaction. -/
def KeyedLocks (s : InstantXState) : Prop :=
  ∀ ⦃hash lock⦄, s.mapTxLocks.lookup hash = some lock → lock.txHash = hash

/-- Each lock holds votes that have arrived for its transaction, and no two votes of any locks
have the same hash. -/
structure VotesSound (events : List (InstantXContext × InstantXEvent)) (s : InstantXState) :
    Prop where
  key : KeyedLocks s
  votes : ∀ {hash}, ∀ v ∈ s.votesOf hash, v.txHash = hash ∧ Received events v
  known : ∀ {hash}, ∀ v ∈ s.votesOf hash, v.getHash ∈ s.mapTxLockVote
  nodup : ∀ hash, ((s.votesOf hash).map CConsensusVote.getHash).Nodup
  apart : ∀ {hash hash'}, hash ≠ hash' → ∀ v ∈ s.votesOf hash, ∀ v' ∈ s.votesOf hash',
    v.getHash ≠ v'.getHash

section Votes

variable {events new : List (InstantXContext × InstantXEvent)} {s s' : InstantXState}

theorem Received.append {vote : CConsensusVote} (h : Received events vote) :
    Received (events ++ new) vote := by
  obtain ⟨ctx, hMem, hElects⟩ := h
  exact ⟨ctx, List.mem_append_left new hMem, hElects⟩

theorem VotesSound.append (h : VotesSound events s) : VotesSound (events ++ new) s where
  key := h.key
  votes v hMem := ⟨(h.votes v hMem).1, (h.votes v hMem).2.append⟩
  known := h.known
  nodup := h.nodup
  apart := h.apart

theorem keyedLocks_createLock (h : KeyedLocks s) (time nBlockHeight : ℤ) (txHash : ℕ) :
    KeyedLocks (s.createLock time nBlockHeight txHash) := by
  intro hash lock hLock
  rw [InstantXState.lookup_createLock] at hLock
  split_ifs at hLock with hHash
  · rw [Option.some.injEq] at hLock
    cases hOld : s.mapTxLocks.lookup txHash with
    | none => simp [← hLock, hOld, hHash, CTransactionLock.new]
    | some old => simp [← hLock, hOld, hHash, h hOld]
  · exact h hLock

theorem keyedLocks_countVote (h : KeyedLocks s) (time : ℤ) (vote : CConsensusVote) :
    KeyedLocks (s.countVote time vote) := by
  intro hash lock hLock
  rw [InstantXState.lookup_countVote] at hLock
  split_ifs at hLock with hHash
  · rw [Option.some.injEq] at hLock
    cases hOld : s.mapTxLocks.lookup vote.txHash with
    | none => simp [← hLock, hOld, hHash, CTransactionLock.new, CTransactionLock.addSignature]
    | some old => simp [← hLock, hOld, hHash, h hOld, CTransactionLock.addSignature]
  · exact h hLock

theorem keyedLocks_expireLock (h : KeyedLocks s) (time : ℤ) (txHash : ℕ) :
    KeyedLocks (s.expireLock time txHash) := by
  intro hash lock hLock
  rw [InstantXState.lookup_expireLock, Option.map_eq_some_iff] at hLock
  obtain ⟨old, hOld, rfl⟩ := hLock
  have hKey : old.txHash = hash := h hOld
  split_ifs <;> exact hKey

/-- Steps that leave the votes of all locks and forget none. -/
theorem VotesSound.of_same
    (h : VotesSound events s) (hKey : KeyedLocks s')
    (hVotes : ∀ hash, s'.votesOf hash = s.votesOf hash)
    (hKnown : ∀ k ∈ s.mapTxLockVote, k ∈ s'.mapTxLockVote) : VotesSound events s' where
  key := hKey
  votes := by
    intro hash v hMem
    rw [hVotes] at hMem
    exact h.votes v hMem
  known := by
    intro hash v hMem
    rw [hVotes] at hMem
    exact hKnown _ (h.known v hMem)
  nodup hash := by
    rw [hVotes]
    exact h.nodup hash
  apart := by
    intro hash hash' hNe
    rw [hVotes, hVotes]
    exact h.apart hNe

/-- A new vote is counted. -/
theorem VotesSound.countVote
    {vote : CConsensusVote} (h : VotesSound events s) (hNew : vote.getHash ∉ s.mapTxLockVote)
    (hReceived : Received events vote) (time : ℤ) :
    VotesSound events ((s.remember vote).countVote time vote) := by
  -- the votes of a lock afterwards are old ones or the new one
  have hVotes : ∀ hash, ((s.remember vote).countVote time vote).votesOf hash =
      if hash = vote.txHash then s.votesOf hash ++ [vote] else s.votesOf hash :=
    InstantXState.votesOf_countVote time vote
  have hMem : ∀ {hash v}, v ∈ ((s.remember vote).countVote time vote).votesOf hash →
      v ∈ s.votesOf hash ∨ (hash = vote.txHash ∧ v = vote) := by
    intro hash v hIn
    rw [hVotes] at hIn
    split_ifs at hIn with hHash
    · simpa [hHash] using hIn
    · exact Or.inl hIn
  have hOther : ∀ {hash}, ∀ v ∈ s.votesOf hash, v.getHash ≠ vote.getHash := by
    intro hash v hIn hSame
    exact hNew (hSame ▸ h.known v hIn)
  constructor
  · exact keyedLocks_countVote (s := s.remember vote) h.key time vote
  · intro hash v hIn
    rcases hMem hIn with hOld | ⟨rfl, rfl⟩
    · exact h.votes v hOld
    · exact ⟨rfl, hReceived⟩
  · intro hash v hIn
    refine Table.mem_touch.mpr ?_
    rcases hMem hIn with hOld | ⟨rfl, rfl⟩
    · exact Or.inr (h.known v hOld)
    · exact Or.inl rfl
  · intro hash
    rw [hVotes]
    split_ifs
    · rw [List.map_append, List.nodup_append]
      refine ⟨h.nodup hash, by simp, ?_⟩
      intro k hk k' hk'
      obtain ⟨v, hIn, rfl⟩ := List.mem_map.mp hk
      rw [List.map_singleton, List.mem_singleton] at hk'
      rw [hk']
      exact hOther v hIn
    · exact h.nodup hash
  · intro hash hash' hNe v hIn v' hIn'
    rcases hMem hIn with hOld | ⟨rfl, rfl⟩
    · rcases hMem hIn' with hOld' | ⟨rfl, rfl⟩
      · exact h.apart hNe v hOld v' hOld'
      · exact hOther v hOld
    · rcases hMem hIn' with hOld' | ⟨rfl, rfl⟩
      · exact (hOther v' hOld').symm
      · exact absurd rfl hNe

/-- A lock is removed, and its votes are forgotten if its request is known. -/
theorem VotesSound.cleanLock
    {time : ℤ} {lock : ℕ × CTransactionLock} (h : VotesSound events s)
    (hLock : s.mapTxLocks.lookup lock.1 = some lock.2) :
    VotesSound events (s.cleanLock time lock) := by
  by_cases hExpired : time > lock.2.nExpiration
  · have hLocks : (s.cleanLock time lock).mapTxLocks = s.mapTxLocks.erase lock.1 := by
      unfold InstantXState.cleanLock
      rw [if_pos hExpired]
      cases s.mapTxLockReq.lookup lock.2.txHash <;> rfl
    have hVotes := InstantXState.votesOf_eraseLock hLocks
    have hMem : ∀ {hash v}, v ∈ (s.cleanLock time lock).votesOf hash →
        hash ≠ lock.1 ∧ v ∈ s.votesOf hash := by
      intro hash v hIn
      rw [hVotes] at hIn
      split_ifs at hIn with hHash
      · cases hIn
      · exact ⟨hHash, hIn⟩
    constructor
    · intro hash found hFound
      rw [hLocks, Table.lookup_erase_ite] at hFound
      split_ifs at hFound
      exact h.key hFound
    · intro hash v hIn
      exact h.votes v (hMem hIn).2
    · intro hash v hIn
      obtain ⟨hNe, hOld⟩ := hMem hIn
      have hKnown := h.known v hOld
      unfold InstantXState.cleanLock
      rw [if_pos hExpired]
      cases s.mapTxLockReq.lookup lock.2.txHash with
      | none => exact hKnown
      | some tx =>
          have hForgotten : v.getHash ∉
              lock.2.vecConsensusVotes.map CConsensusVote.getHash := by
            intro hIn'
            obtain ⟨v', hHeld, hSame⟩ := List.mem_map.mp hIn'
            have hHeld' : v' ∈ s.votesOf lock.1 := by
              rw [InstantXState.votesOf, hLock]
              exact hHeld
            exact h.apart hNe v hOld v' hHeld' hSame.symm
          obtain ⟨kept, hKept⟩ := Table.mem_iff_lookup.mp hKnown
          refine Table.mem_iff_lookup.mpr ⟨kept, ?_⟩
          rw [Table.lookup_foldl_erase, if_neg hForgotten, hKept]
    · intro hash
      rw [hVotes]
      split_ifs
      · simp
      · exact h.nodup hash
    · intro hash hash' hNe v hIn v' hIn'
      exact h.apart hNe v (hMem hIn).2 v' (hMem hIn').2
  · unfold InstantXState.cleanLock
    rw [if_neg hExpired]
    exact h

end Votes

/-! ## Locked inputs -/

/-- A request with inputs stands under its hash. -/
def KeyedRequests (prims : Primitives) (s : InstantXState) : Prop :=
  ∀ ⦃hash tx⦄, s.mapTxLockReq.lookup hash = some tx → tx.vin ≠ [] → tx.getHash prims = hash

/-- Each locked input is one of a known request whose lock is complete. -/
def LocksBacked (s : InstantXState) : Prop :=
  ∀ ⦃prevout hash⦄, s.mapLockedInputs.lookup prevout = some hash →
    ∃ tx lock, s.mapTxLockReq.lookup hash = some tx ∧ prevout ∈ tx.vin.map CTxIn.prevout ∧
      s.mapTxLocks.lookup hash = some lock ∧
      INSTANTX_SIGNATURES_REQUIRED ≤ lock.countSignatures

/-- Requests stay, and so do complete locks of known requests. -/
structure Grows (s s' : InstantXState) : Prop where
  requests : ∀ {hash tx}, s.mapTxLockReq.lookup hash = some tx →
    s'.mapTxLockReq.lookup hash = some tx
  locks : ∀ {hash lock}, hash ∈ s.mapTxLockReq → s.mapTxLocks.lookup hash = some lock →
    INSTANTX_SIGNATURES_REQUIRED ≤ lock.countSignatures →
    ∃ lock', s'.mapTxLocks.lookup hash = some lock' ∧
      INSTANTX_SIGNATURES_REQUIRED ≤ lock'.countSignatures

section Backed

variable {s s' s'' : InstantXState}

theorem Grows.of_same
    (hReq : s'.mapTxLockReq = s.mapTxLockReq) (hLocks : s'.mapTxLocks = s.mapTxLocks) :
    Grows s s' where
  requests h := by
    rw [hReq]
    exact h
  locks := by
    intro hash lock _ hLock hCount
    rw [hLocks]
    exact ⟨lock, hLock, hCount⟩

theorem Grows.trans (h : Grows s s') (h' : Grows s' s'') : Grows s s'' where
  requests hReq := h'.requests (h.requests hReq)
  locks := by
    intro hash lock hKnown hLock hCount
    obtain ⟨tx, hReq⟩ := Table.mem_iff_lookup.mp hKnown
    obtain ⟨lock', hLock', hCount'⟩ := h.locks hKnown hLock hCount
    exact h'.locks (Table.mem_iff_lookup.mpr ⟨tx, h.requests hReq⟩) hLock' hCount'

theorem lookup_touch_of_some
    {K V : Type} [DecidableEq K] {t : Table K V} {k k' : K} {v v' : V}
    (h : t.lookup k = some v) : (t.touch k' v').lookup k = some v := by
  rw [Table.lookup_touch, h, Option.some_or]

theorem grows_expireLock (time : ℤ) (txHash : ℕ) : Grows s (s.expireLock time txHash) where
  requests hReq := by
    rw [InstantXState.expireLock_eq]
    exact hReq
  locks := by
    intro hash lock _ hLock hCount
    rw [InstantXState.lookup_expireLock, hLock, Option.map_some]
    refine ⟨_, rfl, ?_⟩
    split_ifs <;> exact hCount

theorem countSignatures_le_addSignature (lock : CTransactionLock) (vote : CConsensusVote) :
    lock.countSignatures ≤ (lock.addSignature vote).countSignatures := by
  unfold CTransactionLock.countSignatures CTransactionLock.addSignature
  dsimp only
  split_ifs
  · exact le_rfl
  · rw [List.countP_append]
    omega

theorem grows_countVote (time : ℤ) (vote : CConsensusVote) :
    Grows s (s.countVote time vote) where
  requests hReq := hReq
  locks := by
    intro hash lock _ hLock hCount
    rw [InstantXState.lookup_countVote]
    split_ifs with hHash
    · rw [← hHash, hLock, Option.getD_some]
      exact ⟨_, rfl, le_trans hCount (countSignatures_le_addSignature lock vote)⟩
    · exact ⟨lock, hLock, hCount⟩

theorem grows_createLock
    {txHash : ℕ} (h : txHash ∉ s.mapTxLockReq) (time nBlockHeight : ℤ) :
    Grows s (s.createLock time nBlockHeight txHash) where
  requests hReq := hReq
  locks := by
    intro hash lock hKnown hLock hCount
    have hNe : hash ≠ txHash := by
      rintro rfl
      exact h hKnown
    rw [InstantXState.lookup_createLock, if_neg hNe]
    exact ⟨lock, hLock, hCount⟩

theorem LocksBacked.of_grows
    (h : LocksBacked s) (hGrows : Grows s s')
    (hLocked : ∀ prevout, s'.mapLockedInputs.lookup prevout =
      s.mapLockedInputs.lookup prevout) : LocksBacked s' := by
  intro prevout hash hLookup
  rw [hLocked] at hLookup
  obtain ⟨tx, lock, hReq, hSpent, hLock, hCount⟩ := h hLookup
  obtain ⟨lock', hLock', hCount'⟩ :=
    hGrows.locks (Table.mem_iff_lookup.mpr ⟨tx, hReq⟩) hLock hCount
  exact ⟨tx, lock', hGrows.requests hReq, hSpent, hLock', hCount'⟩

/-- The inputs of a request whose lock is complete may be locked. -/
theorem LocksBacked.lockInputs
    {hash : ℕ} {tx : CTransaction} {lock : CTransactionLock} (h : LocksBacked s)
    (hReq : s.mapTxLockReq.lookup hash = some tx) (hLock : s.mapTxLocks.lookup hash = some lock)
    (hCount : INSTANTX_SIGNATURES_REQUIRED ≤ lock.countSignatures) :
    LocksBacked (s.lockInputs tx.vin hash) := by
  intro prevout other hLookup
  rw [InstantXState.lookup_lockInputs] at hLookup
  cases hOld : s.mapLockedInputs.lookup prevout with
  | some old =>
      rw [hOld, Option.some_or] at hLookup
      exact h (hOld.trans hLookup)
  | none =>
      rw [hOld, Option.none_or] at hLookup
      split_ifs at hLookup with hSpent
      rw [Option.some.injEq] at hLookup
      rw [← hLookup]
      exact ⟨tx, lock, hReq, hSpent, hLock, hCount⟩

/-- Removing a lock unlocks the inputs of its request. -/
theorem LocksBacked.cleanLock
    {time : ℤ} {lock : ℕ × CTransactionLock} (h : LocksBacked s)
    (hKey : lock.2.txHash = lock.1) : LocksBacked (s.cleanLock time lock) := by
  intro prevout hash hLookup
  unfold InstantXState.cleanLock at hLookup ⊢
  by_cases hExpired : time > lock.2.nExpiration
  · rw [if_pos hExpired, hKey] at hLookup ⊢
    cases hReq : s.mapTxLockReq.lookup lock.1 with
    | none =>
        rw [hReq] at hLookup
        obtain ⟨tx, found, hFound, hSpent, hLock, hCount⟩ := h hLookup
        have hNe : hash ≠ lock.1 := by
          rintro rfl
          rw [hReq] at hFound
          cases hFound
        exact ⟨tx, found, hFound, hSpent, (AList.lookup_erase_ne hNe).trans hLock, hCount⟩
    | some tx =>
        rw [hReq] at hLookup
        dsimp only at hLookup ⊢
        rw [Table.lookup_foldl_erase] at hLookup
        split_ifs at hLookup with hErased
        obtain ⟨tx', found, hFound, hSpent, hLock, hCount⟩ := h hLookup
        have hNe : hash ≠ lock.1 := by
          rintro rfl
          rw [hReq, Option.some.injEq] at hFound
          exact hErased (hFound ▸ hSpent)
        rw [AList.lookup_erase_ne hNe, AList.lookup_erase_ne hNe]
        exact ⟨tx', found, hFound, hSpent, hLock, hCount⟩
  · rw [if_neg hExpired] at hLookup ⊢
    exact h hLookup

/-- If all inputs are locked, locking them changes nothing. -/
theorem lookup_lockInputs_of_locked
    {vin : List CTxIn} (h : ∀ txin ∈ vin, txin.prevout ∈ s.mapLockedInputs) (txHash : ℕ)
    (prevout : COutPoint) :
    (s.lockInputs vin txHash).mapLockedInputs.lookup prevout =
      s.mapLockedInputs.lookup prevout := by
  rw [InstantXState.lookup_lockInputs]
  split_ifs with hSpent
  · obtain ⟨txin, hMem, rfl⟩ := List.mem_map.mp hSpent
    obtain ⟨hash, hLookup⟩ := Table.mem_iff_lookup.mp (h txin hMem)
    rw [hLookup, Option.some_or]
  · rw [Option.or_none]

theorem KeyedRequests.touch
    {prims : Primitives} {hash : ℕ} {tx : CTransaction} (h : KeyedRequests prims s)
    (hTx : tx.vin ≠ [] → tx.getHash prims = hash)
    (hReq : s'.mapTxLockReq = s.mapTxLockReq.touch hash tx) : KeyedRequests prims s' := by
  intro other found hFound hInputs
  rw [hReq, Table.lookup_touch] at hFound
  cases hOld : s.mapTxLockReq.lookup other with
  | some old =>
      rw [hOld, Option.some_or, Option.some.injEq] at hFound
      exact h (hFound ▸ hOld) hInputs
  | none =>
      rw [hOld, Option.none_or] at hFound
      split_ifs at hFound with hHash
      rw [Option.some.injEq] at hFound
      rw [← hHash, ← hFound]
      exact hTx (hFound ▸ hInputs)

end Backed

/-! ## One event -/

/-- The invariant of runs whose events meet the condition. -/
structure LocksSound (prims : Primitives) (events : List (InstantXContext × InstantXEvent))
    (s : InstantXState) : Prop where
  votes : VotesSound events s
  requests : KeyedRequests prims s
  backed : LocksBacked s

section Step

variable {prims : Primitives} {events : List (InstantXContext × InstantXEvent)}
  {ctx : InstantXContext} {s s' : InstantXState}

/-- The state after `CreateNewLock` for a request that is not known. -/
theorem LocksSound.createNewLock
    {tx : CTransaction} {nBlockHeight : ℤ} (h : LocksSound prims events s)
    (hFresh : tx.getHash ctx.env.prims ∉ s.mapTxLockReq)
    (hCreate : ctx.createNewLock tx s = .ok (nBlockHeight, s')) :
    LocksSound prims events s' ∧ s'.mapLockedInputs = s.mapLockedInputs ∧
      s'.mapTxLockReq = s.mapTxLockReq := by
  rcases InstantXContext.createNewLock_cases hCreate with ⟨-, rfl⟩ | ⟨-, rfl⟩
  · exact ⟨h, rfl, rfl⟩
  · refine ⟨⟨?_, h.requests, ?_⟩, rfl, rfl⟩
    · exact h.votes.of_same (keyedLocks_createLock h.votes.key _ _ _)
        (InstantXState.votesOf_createLock _ _ _) fun _ hk => hk
    · exact h.backed.of_grows (grows_createLock hFresh _ _) fun _ => rfl

theorem LocksSound.acceptRequest
    {tx : CTransaction} {nBlockHeight : ℤ} (h : LocksSound ctx.env.prims events s)
    (hAccept : ctx.acceptRequest tx nBlockHeight s = .ok s') :
    LocksSound ctx.env.prims events s' := by
  obtain ⟨own, -, rfl⟩ := InstantXContext.acceptRequest_cases hAccept
  refine ⟨h.votes.of_same h.votes.key (fun _ => rfl) ?_, ?_, ?_⟩
  · exact fun k hk => InstantXContext.mem_withOwnVote.mpr (Or.inl hk)
  · exact h.requests.touch (fun _ => rfl) rfl
  · exact h.backed.of_grows
      ⟨lookup_touch_of_some, fun _ hLock hCount => ⟨_, hLock, hCount⟩⟩ fun _ => rfl

/-- Letting locks expire keeps the invariant. -/
theorem LocksSound.expireLock (h : LocksSound prims events s) (time : ℤ) (txHash : ℕ) :
    LocksSound prims events (s.expireLock time txHash) := by
  refine ⟨?_, ?_, ?_⟩
  · refine h.votes.of_same (keyedLocks_expireLock h.votes.key _ _)
      (InstantXState.votesOf_expireLock _ _) ?_
    intro k hk
    rw [InstantXState.expireLock_eq]
    exact hk
  · intro hash tx hReq
    rw [InstantXState.expireLock_eq] at hReq
    exact h.requests hReq
  · refine h.backed.of_grows (grows_expireLock _ _) ?_
    intro prevout
    rw [InstantXState.expireLock_eq]

theorem LocksSound.rejectRequest
    {tx : CTransaction} (h : LocksSound prims events s)
    (hLocked : ∀ txin ∈ tx.vin, txin.prevout ∈ s.mapLockedInputs)
    (hReject : ctx.rejectRequest tx s = .ok s') : LocksSound prims events s' := by
  have hBase : LocksSound prims events (ctx.rejectedState tx s) := by
    refine ⟨h.votes.of_same h.votes.key (fun _ => rfl) fun k hk => hk, h.requests, ?_⟩
    exact h.backed.of_grows (Grows.of_same rfl rfl)
      (lookup_lockInputs_of_locked (s := s) hLocked _)
  rcases InstantXContext.rejectRequest_cases hReject with rfl | ⟨hash, other, rfl⟩
  · exact hBase
  · exact (hBase.expireLock _ _).expireLock _ _

theorem LocksSound.processTxlreq
    {tx : CTransaction} (h : LocksSound ctx.env.prims events s)
    (hCondition : ¬ctx.LocksUnvoted tx s) (hStep : ctx.processTxlreq tx s = .ok s') :
    LocksSound ctx.env.prims events s' := by
  rcases InstantXContext.processTxlreq_cases hStep with
    rfl | ⟨hNew, hNotRejected, hValid, hScripts, nBlockHeight, s₁, r, hCreate, hPool, hRest⟩
  · exact h
  · obtain ⟨hSound, hSame, -⟩ := h.createNewLock hNew hCreate
    rcases hRest with ⟨-, hAccept⟩ | ⟨hRejected, hReject⟩
    · exact hSound.acceptRequest hAccept
    · refine hSound.rejectRequest ?_ hReject
      have hEnv : ctx.relayEnv s₁ = ctx.relayEnv s := by
        unfold InstantXContext.relayEnv
        rw [hSame]
      intro txin hMem
      rw [hSame]
      by_contra hUnlocked
      exact hCondition ⟨⟨hNew, hNotRejected⟩, ⟨hValid, hScripts⟩,
        ⟨r, hEnv ▸ hPool, hRejected⟩, txin, hMem, hUnlocked⟩

theorem one_le_of_rank
    {vin : CTxIn} {nBlockHeight n : ℤ} {vMasternodes : List CMasternode}
    (h : ctx.rank vin nBlockHeight = .ok (vMasternodes, n)) (hFound : n ≠ -1) : 1 ≤ n := by
  unfold InstantXContext.rank CMasternodeMan.getMasternodeRank at h
  obtain ⟨⟨after, cache, rank⟩, hRank, h⟩ := bind_eq_ok.mp h
  simp only [Except.ok.injEq, Prod.mk.injEq] at h
  obtain ⟨⟨found, cache₁⟩, -, hRank⟩ := bind_eq_ok.mp hRank
  cases found with
  | none =>
      simp only [Except.ok.injEq, Prod.mk.injEq] at hRank
      exact absurd (h.2.symm.trans hRank.2.2.symm) hFound
  | some hash =>
      obtain ⟨⟨list, scores, cache₂⟩, -, hRank⟩ := bind_eq_ok.mp hRank
      simp only [Except.ok.injEq, Prod.mk.injEq] at hRank
      rw [← h.2, ← hRank.2.2] at hFound ⊢
      unfold CMasternodeMan.rankOf at hFound ⊢
      cases hPos : (ctx.env.scoreSort.sort scores).findIdx? fun s => s.2 = vin with
      | none =>
          rw [hPos] at hFound
          exact absurd rfl hFound
      | some i =>
          dsimp only
          omega

/-- A signed vote that is accepted elects. -/
theorem elects_of_acceptsVote
    {vote : CConsensusVote} (hAccepts : ctx.acceptsVote vote = .ok true)
    (hSigned : ctx.Signed vote) : ctx.Elects vote := by
  unfold InstantXContext.acceptsVote at hAccepts
  obtain ⟨⟨vMasternodes, n⟩, hRank, hAccepts⟩ := bind_eq_ok.mp hAccepts
  dsimp only at hAccepts
  split_ifs at hAccepts with hNone hBelow
  · exact absurd (Except.ok.inj hAccepts) Bool.false_ne_true
  · exact absurd (Except.ok.inj hAccepts) Bool.false_ne_true
  · exact ⟨hSigned, vMasternodes, n, hRank, one_le_of_rank hRank hNone, not_lt.mp hBelow⟩

theorem LocksSound.withRequest (h : LocksSound prims events s) (txHash : ℕ) :
    LocksSound prims events (ctx.withRequest txHash s) := by
  refine ⟨h.votes.of_same h.votes.key (fun _ => rfl) fun k hk => hk, ?_, ?_⟩
  · exact h.requests.touch (fun hInputs => absurd rfl hInputs) rfl
  · exact h.backed.of_grows
      ⟨lookup_touch_of_some, fun _ hLock hCount => ⟨_, hLock, hCount⟩⟩ fun _ => rfl

theorem LocksSound.completeLock
    {vote : CConsensusVote} {lock : CTransactionLock} (h : LocksSound prims events s)
    (hLock : s.mapTxLocks.lookup vote.txHash = some lock)
    (hStep : ctx.completeLock vote lock s = .ok s') : LocksSound prims events s' := by
  rcases InstantXContext.completeLock_cases hStep with
    ⟨-, rfl⟩ | ⟨hCount, ⟨hash, other, rfl⟩ | rfl⟩
  · exact h
  · exact ((h.withRequest _).expireLock _ _).expireLock _ _
  · have hBase : LocksSound prims events (ctx.withRequest vote.txHash s) :=
      h.withRequest vote.txHash
    refine ⟨hBase.votes.of_same hBase.votes.key (fun _ => rfl) fun k hk => hk,
      hBase.requests, ?_⟩
    exact hBase.backed.lockInputs
      (InstantXContext.lookup_withRequest ctx vote.txHash s) hLock hCount

theorem LocksSound.processTxlvote
    {vote : CConsensusVote} (h : LocksSound prims events s)
    (hCondition : vote.getHash ∉ s.mapTxLockVote → ctx.acceptsVote vote = .ok true →
      ctx.Signed vote)
    (hStep : ctx.processTxlvote vote s = .ok s') :
    LocksSound prims (events ++ [(ctx, .txlvote vote)]) s' := by
  have hVotes : VotesSound (events ++ [(ctx, .txlvote vote)]) s := h.votes.append
  rcases InstantXContext.processTxlvote_cases hStep with
    ⟨-, rfl⟩ | ⟨hNew, ⟨-, rfl⟩ | ⟨hAccepts, hComplete⟩⟩
  · exact ⟨hVotes, h.requests, h.backed⟩
  · refine ⟨?_, h.requests, h.backed.of_grows (Grows.of_same rfl rfl) fun _ => rfl⟩
    exact hVotes.of_same hVotes.key (fun _ => rfl) fun k hk => Table.mem_touch.mpr (Or.inr hk)
  · have hReceived : Received (events ++ [(ctx, .txlvote vote)]) vote :=
      ⟨ctx, by simp, elects_of_acceptsVote hAccepts (hCondition hNew hAccepts)⟩
    have hCounted : LocksSound prims (events ++ [(ctx, .txlvote vote)])
        ((s.remember vote).countVote ctx.env.time vote) := by
      refine ⟨hVotes.countVote hNew hReceived _, h.requests, ?_⟩
      have hRemembered : Grows s (s.remember vote) := Grows.of_same rfl rfl
      exact h.backed.of_grows (hRemembered.trans (grows_countVote _ _)) fun _ => rfl
    refine hCounted.completeLock ?_ hComplete
    rw [InstantXState.lookup_countVote, if_pos rfl]
    rfl

theorem LocksSound.cleanLock
    {time : ℤ} {lock : ℕ × CTransactionLock} (h : LocksSound prims events s)
    (hLock : s.mapTxLocks.lookup lock.1 = some lock.2) :
    LocksSound prims events (s.cleanLock time lock) := by
  refine ⟨h.votes.cleanLock hLock, ?_, h.backed.cleanLock (h.votes.key hLock)⟩
  intro hash tx hReq
  unfold InstantXState.cleanLock at hReq
  split_ifs at hReq
  · cases hKnown : s.mapTxLockReq.lookup lock.2.txHash with
    | none =>
        rw [hKnown] at hReq
        exact h.requests hReq
    | some known =>
        rw [hKnown] at hReq
        dsimp only at hReq
        rw [Table.lookup_erase_ite] at hReq
        split_ifs at hReq
        exact h.requests hReq
  · exact h.requests hReq

theorem LocksSound.append
    {new : List (InstantXContext × InstantXEvent)} (h : LocksSound prims events s) :
    LocksSound prims (events ++ new) s :=
  ⟨h.votes.append, h.requests, h.backed⟩

theorem LocksSound.instantXStep
    {event : InstantXEvent} (h : LocksSound ctx.env.prims events s)
    (hCondition : ctx.LocksByVotes s event) (hStep : instantXStep (ctx, event) s = .ok s') :
    LocksSound ctx.env.prims (events ++ [(ctx, event)]) s' := by
  unfold SocietyGold.instantXStep at hStep
  cases event with
  | txlreq tx =>
      dsimp only at hStep
      split_ifs at hStep with hEnabled
      · exact (h.processTxlreq (hCondition hEnabled) hStep).append
      · exact Except.ok.inj hStep ▸ h.append
  | txlvote vote =>
      dsimp only at hStep
      split_ifs at hStep with hEnabled
      · exact h.processTxlvote (hCondition hEnabled) hStep
      · exact Except.ok.inj hStep ▸ h.append
  | clean =>
      rw [← Except.ok.inj hStep]
      exact InstantXContext.cleanTransactionLocksList_invariant
        (fun u lock hSound hLock => hSound.cleanLock hLock) h.append

end Step

/-! ## Runs -/

/-- An event that meets the condition. -/
def VotedStep (prims : Primitives) (s : InstantXState)
    (new : List (InstantXContext × InstantXEvent)) (s' : InstantXState) : Prop :=
  ∃ event, new = [event] ∧ event.1.env.prims = prims ∧ event.1.LocksByVotes s event.2 ∧
    instantXStep event s = .ok s'

section Runs

variable {prims : Primitives} {events : List (InstantXContext × InstantXEvent)}
  {s : InstantXState}

theorem locksSound_empty : LocksSound prims [] .empty where
  votes :=
    { key := fun _ _ h => by cases h
      votes := fun v h => by cases h
      known := fun v h => by cases h
      nodup := fun _ => List.nodup_nil
      apart := fun _ v h => by cases h }
  requests := fun _ _ h => by cases h
  backed := fun _ _ h => by cases h

theorem locksSound_of_run (hRun : Trace (VotedStep prims) .empty events s) :
    LocksSound prims events s := by
  refine Trace.invariant (I := LocksSound prims) locksSound_empty ?_ hRun
  rintro past u new v hSound ⟨⟨ctx, event⟩, rfl, rfl, hCondition, hStep⟩
  exact hSound.instantXStep hCondition hStep

/-- Votes of one lock with different hashes come from different masternodes. -/
theorem nodup_masternodes
    {hash : ℕ} {votes : List CConsensusVote}
    (hNodup : (votes.map CConsensusVote.getHash).Nodup) (hHash : ∀ v ∈ votes, v.txHash = hash) :
    (votes.map fun v => v.vinMasternode.prevout).Nodup := by
  rw [List.Nodup, List.pairwise_map] at hNodup ⊢
  refine hNodup.imp_of_mem ?_
  intro v v' hMem hMem' hNe hSame
  apply hNe
  unfold CConsensusVote.getHash
  rw [hSame, hHash v hMem, hHash v' hMem']

/-- A locked input has the consensus of the masternodes. -/
theorem LocksSound.consensus
    {prevout : COutPoint} {hash : ℕ} (h : LocksSound prims events s)
    (hLocked : s.mapLockedInputs.lookup prevout = some hash) :
    Consensus prims events s prevout hash := by
  obtain ⟨tx, lock, hReq, hSpent, hLock, hCount⟩ := h.backed hLocked
  have hInputs : tx.vin ≠ [] := by
    intro hNone
    simp [hNone] at hSpent
  have hVotes : s.votesOf hash = lock.vecConsensusVotes := by
    rw [InstantXState.votesOf, hLock]
    rfl
  have hSub := List.filter_sublist (l := lock.vecConsensusVotes)
    (p := fun v => v.nBlockHeight = lock.nBlockHeight)
  refine ⟨⟨tx, hReq, h.requests hReq hInputs, hSpent⟩, lock, _, hLock, hSub, ?_, ?_, ?_, ?_⟩
  · unfold CTransactionLock.countSignatures at hCount
    split_ifs at hCount
    · exact absurd hCount (by decide)
    · rwa [List.countP_eq_length_filter] at hCount
  · have hHash : ∀ v ∈ lock.vecConsensusVotes.filter fun v =>
        v.nBlockHeight = lock.nBlockHeight, v.txHash = hash := by
      intro v hMem
      exact (h.votes.votes v (hVotes ▸ hSub.subset hMem)).1
    exact nodup_masternodes ((hVotes ▸ h.votes.nodup hash).sublist (hSub.map _)) hHash
  · intro v hMem
    simpa using (List.mem_filter.mp hMem).2
  · intro v hMem
    exact (h.votes.votes v (hVotes ▸ hSub.subset hMem)).2

/-- In a run whose events meet the condition, every locked input has the consensus of the
masternodes, and the memory pool and `CheckBlock` refuse a transaction for a lock only where
there is consensus for another one. -/
theorem locked_by_consensus (hRun : Trace (VotedStep prims) .empty events s) :
    (∀ prevout hash, s.mapLockedInputs.lookup prevout = some hash →
        Consensus prims events s prevout hash) ∧
      (∀ (env : RelayEnv) tx, env.mapLockedInputs = s.mapLockedInputs.lookup →
        lockedForOther env tx = true →
        ∃ txin ∈ tx.vin, ∃ hash, hash ≠ tx.getHash env.prims ∧
          Consensus prims events s txin.prevout hash) ∧
      (∀ (env : Env) block, env.mapLockedInputs = s.mapLockedInputs.lookup →
        CBlock.conflictsWithLock env block = true →
        ∃ tx ∈ block.vtx, ∃ txin ∈ tx.vin, ∃ hash, hash ≠ tx.getHash env.prims ∧
          Consensus prims events s txin.prevout hash) := by
  have hSound := locksSound_of_run hRun
  refine ⟨fun prevout hash => hSound.consensus, ?_, ?_⟩
  · intro env tx hEnv hLocked
    unfold lockedForOther at hLocked
    obtain ⟨txin, hMem, hTest⟩ := List.any_eq_true.mp hLocked
    split at hTest
    · next hash hLookup =>
        rw [hEnv] at hLookup
        exact ⟨txin, hMem, hash, of_decide_eq_true hTest, hSound.consensus hLookup⟩
    · cases hTest
  · intro env block hEnv hConflict
    unfold CBlock.conflictsWithLock at hConflict
    obtain ⟨tx, hTx, hAny⟩ := List.any_eq_true.mp hConflict
    obtain ⟨txin, hMem, hTest⟩ := List.any_eq_true.mp (Bool.and_eq_true_iff.mp hAny).2
    split at hTest
    · next hash hLookup =>
        rw [hEnv] at hLookup
        exact ⟨tx, hTx, txin, hMem, hash, of_decide_eq_true hTest, hSound.consensus hLookup⟩
    · cases hTest

end Runs

/-! ## A lock with votes and one without -/

namespace Sample

/-- A request and ten votes for it. -/
def votedRun : List (InstantXContext × InstantXEvent) :=
  (instantXContext requestNode, .txlreq lockRequest) ::
    (List.range 10).map fun i => (instantXContext requestNode, .txlvote (signedVote i 4))

/-- A signature repeats the hash that is checked. -/
theorem recovers_voteSigner (k : UInt8) (strMessage : List UInt8) :
    voteSigner.Recovers (CPubKey.ofBytes (compressedKey k))
      (k :: toBytesLE 32 (voteSigner.messageHash strMessage)) strMessage := by
  unfold CDarkSendSigner.Recovers
  generalize voteSigner.messageHash strMessage = hash
  exact if_pos rfl

theorem signed_signedVote {i : ℕ} (h : i < 10) (st : ChainState) :
    (instantXContext st).Signed (signedVote i 4) := by
  refine ⟨voter i, List.mem_map_of_mem (List.mem_range.mpr h), rfl, ?_⟩
  exact recovers_voteSigner (UInt8.ofNat i) (unsignedVote i 4).strMessage

/-- Signed votes may come in any number. -/
theorem trace_votes
    {st : ChainState} {past : List (InstantXContext × InstantXEvent)} {s t : InstantXState}
    {votes : List ℕ} (hBelow : ∀ i ∈ votes, i < 10)
    (hPast : Trace (VotedStep prims) .empty past s)
    (hRun : runEvents instantXStep
      (votes.map fun i => (instantXContext st, .txlvote (signedVote i 4))) s = .ok t) :
    Trace (VotedStep prims) .empty
      (past ++ votes.map fun i => (instantXContext st, .txlvote (signedVote i 4))) t := by
  induction votes generalizing past s with
  | nil =>
      rw [List.map_nil, runEvents_nil, Except.ok.injEq] at hRun
      rw [List.map_nil, List.append_nil, ← hRun]
      exact hPast
  | cons i votes ih =>
      obtain ⟨u, hStep, hRest⟩ := runEvents_cons_eq_ok.mp hRun
      have hSigned := signed_signedVote (hBelow i (by simp)) st
      have hNext : Trace (VotedStep prims) .empty
          (past ++ [(instantXContext st, .txlvote (signedVote i 4))]) u :=
        hPast.next ⟨_, rfl, rfl, fun _ _ _ => hSigned, hStep⟩
      have hAll := ih (fun j hMem => hBelow j (by simp [hMem])) hNext hRest
      rwa [List.append_assoc] at hAll

/-- Ten votes lock the input of an accepted request. -/
theorem tenVotes_lock :
    ∃ s, Trace (VotedStep prims) .empty votedRun s ∧
      s.mapLockedInputs.lookup ⟨fundingPayment.getHash prims, 0⟩ =
        some (lockRequest.getHash prims) ∧
      Consensus prims votedRun s ⟨fundingPayment.getHash prims, 0⟩
        (lockRequest.getHash prims) := by
  have hLocked : (runEvents instantXStep votedRun .empty).toOption.map
      (fun s => s.mapLockedInputs.lookup ⟨fundingPayment.getHash prims, 0⟩) =
        some (some (lockRequest.getHash prims)) := by decide +kernel
  cases hRun : runEvents instantXStep votedRun .empty with
  | error e =>
      rw [hRun] at hLocked
      cases hLocked
  | ok s =>
      rw [hRun] at hLocked
      have hLookup := Option.some.inj hLocked
      obtain ⟨u, hStep, hVotes⟩ := runEvents_cons_eq_ok.mp hRun
      have hAccepted : (acceptToMemoryPool ((instantXContext requestNode).relayEnv .empty)
          requestNode lockRequest true false false).toOption.map AcceptResult.accepted =
            some true := by decide +kernel
      have hRequest : Trace (VotedStep prims) .empty
          [(instantXContext requestNode, .txlreq lockRequest)] u := by
        refine Trace.start.next ⟨_, rfl, rfl, ?_, hStep⟩
        rintro - ⟨-, -, ⟨r, hPool, hRejected⟩, -⟩
        have hSame : some r.accepted = some true := by
          rw [← hAccepted, show acceptToMemoryPool
            ((instantXContext requestNode).relayEnv .empty) requestNode lockRequest true false
              false = .ok r from hPool]
          rfl
        rw [hRejected] at hSame
        cases hSame
      have hTrace := trace_votes (fun i hMem => List.mem_range.mp hMem) hRequest hVotes
      exact ⟨s, hTrace, hLookup, (locked_by_consensus hTrace).1 _ _ hLookup⟩

/-- A node without the transaction a request spends. -/
def rejectedRun : List (InstantXContext × InstantXEvent) :=
  [(instantXContext (nodeWith []), .txlreq lockRequest)]

/-- Another transaction that spends from the same output. -/
def rivalRequest : CTransaction := { lockRequest with vout := [⟨1, normalScript⟩] }

/-- A request that is rejected locks its input without a single vote, and another transaction
is refused for it. -/
theorem rejectedRequest_locks :
    ∃ s, runEvents instantXStep rejectedRun .empty = .ok s ∧
      s.mapLockedInputs.lookup ⟨fundingPayment.getHash prims, 0⟩ =
        some (lockRequest.getHash prims) ∧
      ¬Consensus prims rejectedRun s ⟨fundingPayment.getHash prims, 0⟩
        (lockRequest.getHash prims) ∧
      lockedForOther ((instantXContext (nodeWith [])).relayEnv s) rivalRequest = true := by
  have hFacts : (runEvents instantXStep rejectedRun .empty).toOption.map (fun s =>
      (s.mapLockedInputs.lookup ⟨fundingPayment.getHash prims, 0⟩,
        (s.mapTxLocks.lookup (lockRequest.getHash prims)).isSome,
        lockedForOther ((instantXContext (nodeWith [])).relayEnv s) rivalRequest)) =
          some (some (lockRequest.getHash prims), false, true) := by decide +kernel
  cases hRun : runEvents instantXStep rejectedRun .empty with
  | error e =>
      rw [hRun] at hFacts
      cases hFacts
  | ok s =>
      rw [hRun] at hFacts
      have hState := Option.some.inj hFacts
      simp only [Prod.mk.injEq] at hState
      refine ⟨s, rfl, hState.1, ?_, hState.2.2⟩
      rintro ⟨-, lock, votes, hLock, -⟩
      have hNone := hState.2.1
      rw [hLock] at hNone
      cases hNone

end Sample

end SocietyGold
