import SocietyGold.InstantX
import Mathlib.Data.Finset.Option

/-!
# The order of a request and its votes

A request and the votes for it may arrive in any order.  Votes that come first wait in a lock
without a height, and nothing looks at them again when the request arrives: inputs are locked
only when a further vote does.  A vote of the node itself counts only before the request, since
the node remembers it when it votes.  And a request that is dropped gets no lock at all.
-/

namespace SocietyGold

open Support

/-! ## Evaluating the handlers -/

/-- The hashes of votes. -/
def hashesOf (votes : List CConsensusVote) : Finset ℕ :=
  (votes.map CConsensusVote.getHash).toFinset

/-- What `CountSignatures` says about the lock of a transaction, if there is one. -/
def InstantXState.signatureCount (s : InstantXState) (txHash : ℕ) : Option ℤ :=
  (s.mapTxLocks.lookup txHash).map CTransactionLock.countSignatures

namespace InstantXContext

section Evaluate

variable {ctx : InstantXContext} {s s' : InstantXState} {tx : CTransaction}
  {vote : CConsensusVote} {lock : CTransactionLock}

theorem processTxlvote_of_known (h : vote.getHash ∈ s.mapTxLockVote) :
    ctx.processTxlvote vote s = .ok s := by
  unfold processTxlvote
  rw [if_pos h]

theorem completeLock_of_incomplete
    (h : lock.countSignatures < INSTANTX_SIGNATURES_REQUIRED) :
    ctx.completeLock vote lock s = .ok s := by
  unfold completeLock
  rw [if_neg (not_le.mpr h)]

/-- A complete lock of a known request without conflicts locks its inputs. -/
theorem completeLock_of_complete
    (h : INSTANTX_SIGNATURES_REQUIRED ≤ lock.countSignatures)
    (hReq : s.mapTxLockReq.lookup vote.txHash = some tx)
    (hFree : s.conflictingLock (tx.getHash ctx.env.prims) tx.vin = none)
    (hRejected : lock.txHash ∉ s.mapTxLockReqRejected) :
    ctx.completeLock vote lock s = .ok (s.lockInputs tx.vin vote.txHash) := by
  have hSame : ctx.withRequest vote.txHash s = s := by
    unfold withRequest Table.touch
    rw [if_pos (Table.mem_iff_lookup.mpr ⟨tx, hReq⟩)]
  have hOf : ctx.requestOf vote.txHash s = tx := by
    rw [requestOf, hReq, Option.getD_some]
  have hCheck : s.checkForConflictingLocks ctx.env.prims ctx.env.time tx = (false, s) := by
    unfold InstantXState.checkForConflictingLocks
    rw [hFree]
  have hNot : lock.txHash ∉ (s.lockInputs tx.vin vote.txHash).mapTxLockReqRejected := hRejected
  unfold completeLock
  simp only [if_pos h, hSame, hOf, hCheck, Bool.false_eq_true, if_false, if_neg hNot]

end Evaluate

end InstantXContext

/-! ## The votes counted so far -/

/-- The votes for a transaction after some messages that started in the first state: the lock
stands at a height, votes with some hashes are remembered and those with others counted. -/
structure Tallied (s u : InstantXState) (txHash : ℕ) (h height : ℤ) (known counted : Finset ℕ) :
    Prop where
  rejected : txHash ∉ u.mapTxLockReqRejected
  remembered : ∀ k, k ∈ u.mapTxLockVote ↔ k ∈ s.mapTxLockVote ∨ k ∈ known
  hashes : hashesOf (u.votesOf txHash) = counted
  nodup : ((u.votesOf txHash).map CConsensusVote.getHash).Nodup
  heights : ∀ v ∈ u.votesOf txHash, v.nBlockHeight = h
  lock : ∀ lock, u.mapTxLocks.lookup txHash = some lock →
    lock.txHash = txHash ∧ lock.nBlockHeight = height
  absent : u.mapTxLocks.lookup txHash = none ↔ counted = ∅ ∧ height = 0

section Tally

variable {s u u' : InstantXState} {txHash : ℕ} {h height : ℤ} {known counted : Finset ℕ}

/-- Without a height the count is -1, and otherwise all votes are counted. -/
theorem Tallied.signatureCount
    (hTally : Tallied s u txHash h height known counted) (hHeight : height = 0 ∨ height = h) :
    u.signatureCount txHash =
      if height = 0 then (if counted = ∅ then none else some (-1))
      else some (counted.card : ℤ) := by
  have hAbsent := hTally.absent
  have hHashes := hTally.hashes
  have hNodup := hTally.nodup
  have hHeights := hTally.heights
  have hLocks := hTally.lock
  unfold InstantXState.signatureCount
  unfold InstantXState.votesOf at hHashes hNodup hHeights
  cases hLock : u.mapTxLocks.lookup txHash with
  | none =>
      obtain ⟨hNone, hZero⟩ := hAbsent.mp hLock
      rw [if_pos hZero, if_pos hNone, Option.map_none]
  | some lock =>
      rw [hLock] at hHashes hNodup hHeights
      simp only [Option.elim_some] at hHashes hNodup hHeights
      have hAt := (hLocks lock hLock).2
      rw [Option.map_some]
      unfold CTransactionLock.countSignatures
      rw [hAt]
      by_cases hZero : height = 0
      · have hSome : counted ≠ ∅ := by
          intro hNone
          rw [hAbsent.mpr ⟨hNone, hZero⟩] at hLock
          cases hLock
        rw [if_pos hZero, if_pos hZero, if_neg hSome]
      · have hAll : (lock.vecConsensusVotes.countP fun v => v.nBlockHeight = height) =
            lock.vecConsensusVotes.length := by
          rw [List.countP_eq_length]
          intro v hMem
          rw [hHeights v hMem]
          exact decide_eq_true (hHeight.resolve_left hZero).symm
        rw [if_neg hZero, if_neg hZero, hAll, ← hHashes, hashesOf,
          List.toFinset_card_of_nodup hNodup, List.length_map]

/-- A new vote is remembered and counted. -/
theorem Tallied.countVote
    {vote : CConsensusVote} (hTally : Tallied s u txHash h height known counted)
    (hNew : vote.getHash ∉ u.mapTxLockVote) (hKept : counted ⊆ known)
    (hVote : vote.txHash = txHash) (hAt : vote.nBlockHeight = h) (time : ℤ) :
    Tallied s ((u.remember vote).countVote time vote) txHash h height
      (insert vote.getHash known) (insert vote.getHash counted) := by
  have hVotes : ((u.remember vote).countVote time vote).votesOf txHash =
      u.votesOf txHash ++ [vote] := by
    rw [InstantXState.votesOf_countVote, if_pos hVote.symm]
    rfl
  have hLookup : ((u.remember vote).countVote time vote).mapTxLocks.lookup txHash =
      some (((u.mapTxLocks.lookup txHash).getD (.new time 0 txHash)).addSignature vote) := by
    rw [InstantXState.lookup_countVote, if_pos hVote.symm, hVote]
    rfl
  have hFresh : vote.getHash ∉ counted := fun hMem =>
    hNew ((hTally.remembered _).mpr (Or.inr (hKept hMem)))
  constructor
  · exact hTally.rejected
  · intro k
    show k ∈ u.mapTxLockVote.touch vote.getHash vote ↔ _
    rw [Table.mem_touch, hTally.remembered k, Finset.mem_insert, or_left_comm]
  · rw [hVotes, ← hTally.hashes]
    ext k
    simp [hashesOf]
  · rw [hVotes, List.map_append, List.nodup_append]
    refine ⟨hTally.nodup, by simp, ?_⟩
    intro k hk k' hk'
    rw [List.map_singleton, List.mem_singleton] at hk'
    rw [hk']
    rintro rfl
    apply hFresh
    rw [← hTally.hashes, hashesOf, List.mem_toFinset]
    exact hk
  · intro v hMem
    rw [hVotes, List.mem_append, List.mem_singleton] at hMem
    rcases hMem with hOld | rfl
    · exact hTally.heights v hOld
    · exact hAt
  · intro lock hLock
    rw [hLookup, Option.some.injEq] at hLock
    rw [← hLock]
    cases hOld : u.mapTxLocks.lookup txHash with
    | none => exact ⟨rfl, (hTally.absent.mp hOld).2.symm⟩
    | some old => exact hTally.lock old hOld
  · simp [hLookup]

theorem Tallied.lockInputs
    (hTally : Tallied s u txHash h height known counted) (vin : List CTxIn) (hash : ℕ) :
    Tallied s (u.lockInputs vin hash) txHash h height known counted :=
  ⟨hTally.rejected, hTally.remembered, hTally.hashes, hTally.nodup, hTally.heights, hTally.lock,
    hTally.absent⟩

/-- The inputs of the request are free or locked for it. -/
def FreeInputs (u : InstantXState) (tx : CTransaction) (txHash : ℕ) : Prop :=
  ∀ txin ∈ tx.vin, ∀ other, u.mapLockedInputs.lookup txin.prevout = some other → other = txHash

variable {ctx : InstantXContext} {vote : CConsensusVote} {tx : CTransaction}

/-- One accepted vote.  It locks the inputs of the request if it is new and the lock has a
height and enough votes. -/
theorem Tallied.processTxlvote
    (hTally : Tallied s u txHash h height known counted) (hHeight : height = 0 ∨ height = h)
    (hKept : counted ⊆ known) (hNew : vote.getHash ∉ s.mapTxLockVote)
    (hVote : vote.txHash = txHash) (hAt : vote.nBlockHeight = h)
    (hAccepts : ctx.acceptsVote vote = .ok true)
    (hTx : tx.getHash ctx.env.prims = txHash) (hFree : FreeInputs u tx txHash)
    (hReq : height ≠ 0 → u.mapTxLockReq.lookup txHash = some tx) :
    ∃ u', ctx.processTxlvote vote u = .ok u' ∧
      Tallied s u' txHash h height (insert vote.getHash known)
        (counted ∪ ({vote.getHash} \ known)) ∧
      u'.mapTxLockReq = u.mapTxLockReq ∧
      u'.mapLockedInputs =
        if height ≠ 0 ∧ vote.getHash ∉ known ∧
            INSTANTX_SIGNATURES_REQUIRED ≤ ((insert vote.getHash counted).card : ℤ) then
          (u.lockInputs tx.vin txHash).mapLockedInputs
        else u.mapLockedInputs := by
  by_cases hKnown : vote.getHash ∈ known
  · have hMem : vote.getHash ∈ u.mapTxLockVote :=
      (hTally.remembered _).mpr (Or.inr hKnown)
    refine ⟨u, InstantXContext.processTxlvote_of_known hMem, ?_, rfl, ?_⟩
    · rw [Finset.insert_eq_of_mem hKnown, Finset.sdiff_eq_empty_iff_subset.mpr
        (Finset.singleton_subset_iff.mpr hKnown), Finset.union_empty]
      exact hTally
    · rw [if_neg fun hAll => hAll.2.1 hKnown]
  · have hMem : vote.getHash ∉ u.mapTxLockVote := by
      rw [hTally.remembered]
      exact fun hOr => hOr.elim hNew hKnown
    have hNext := hTally.countVote hMem hKept hVote hAt ctx.env.time
    have hUnion : counted ∪ ({vote.getHash} \ known) = insert vote.getHash counted := by
      rw [Finset.sdiff_eq_self_of_disjoint (Finset.disjoint_singleton_left.mpr hKnown),
        Finset.union_comm, Finset.insert_eq]
    rw [hUnion]
    have hLock : ((u.remember vote).countVote ctx.env.time vote).mapTxLocks.lookup txHash =
        some (ctx.lockWithVote vote u) := by
      rw [InstantXState.lookup_countVote, if_pos hVote.symm]
      rfl
    have hCount := hNext.signatureCount hHeight
    rw [InstantXState.signatureCount, hLock, Option.map_some] at hCount
    by_cases hZero : height = 0
    · rw [if_pos hZero, if_neg (Finset.insert_ne_empty _ _), Option.some.injEq] at hCount
      refine ⟨_, InstantXContext.processTxlvote_eq_ok hMem hAccepts
        (InstantXContext.completeLock_of_incomplete (by rw [hCount]; decide)), hNext, rfl, ?_⟩
      rw [if_neg fun hAll => hAll.1 hZero]
      rfl
    · rw [if_neg hZero, Option.some.injEq] at hCount
      by_cases hEnough : INSTANTX_SIGNATURES_REQUIRED ≤ ((insert vote.getHash counted).card : ℤ)
      · have hFreeNow : ((u.remember vote).countVote ctx.env.time vote).conflictingLock
            (tx.getHash ctx.env.prims) tx.vin = none := by
          rw [InstantXState.conflictingLock_eq_none, hTx]
          exact hFree
        have hReqNow : ((u.remember vote).countVote ctx.env.time vote).mapTxLockReq.lookup
            vote.txHash = some tx := by
          rw [hVote]
          exact hReq hZero
        have hNotRejected : (ctx.lockWithVote vote u).txHash ∉
            ((u.remember vote).countVote ctx.env.time vote).mapTxLockReqRejected := by
          rw [(hNext.lock _ hLock).1]
          exact hTally.rejected
        refine ⟨_, InstantXContext.processTxlvote_eq_ok hMem hAccepts
          (InstantXContext.completeLock_of_complete (hCount ▸ hEnough) hReqNow hFreeNow
            hNotRejected), hNext.lockInputs _ _, rfl, ?_⟩
        rw [if_pos ⟨hZero, hKnown, hEnough⟩, hVote]
        rfl
      · refine ⟨_, InstantXContext.processTxlvote_eq_ok hMem hAccepts
          (InstantXContext.completeLock_of_incomplete (by rw [hCount]; omega)), hNext, rfl, ?_⟩
        rw [if_neg fun hAll => hEnough hAll.2.2]
        rfl

end Tally

/-! ## Several votes -/

/-- The messages of votes. -/
def voteEvents (votes : List (InstantXContext × CConsensusVote)) :
    List (InstantXContext × InstantXEvent) :=
  votes.map fun v => (v.1, .txlvote v.2)

/-- Each vote is for the transaction and the height, is accepted where it arrives, and is not
remembered in the first state. -/
def ValidVotes (prims : Primitives) (s : InstantXState) (txHash : ℕ) (h : ℤ)
    (votes : List (InstantXContext × CConsensusVote)) : Prop :=
  ∀ v ∈ votes, v.1.env.prims = prims ∧ v.1.enabled = true ∧ v.1.acceptsVote v.2 = .ok true ∧
    v.2.txHash = txHash ∧ v.2.nBlockHeight = h ∧ v.2.getHash ∉ s.mapTxLockVote

/-- The hashes of the votes that arrive with a context. -/
def arrivedHashes (votes : List (InstantXContext × CConsensusVote)) : Finset ℕ :=
  hashesOf (votes.map Prod.snd)

/-- The inputs of the request are locked for it if the condition holds. -/
def LockedIf (u u' : InstantXState) (tx : CTransaction) (txHash : ℕ) (P : Prop) [Decidable P] :
    Prop :=
  ∀ prevout, u'.mapLockedInputs.lookup prevout = (u.mapLockedInputs.lookup prevout).or
    (if P ∧ prevout ∈ tx.vin.map CTxIn.prevout then some txHash else none)

section Votes

variable {prims : Primitives} {s u : InstantXState} {txHash : ℕ} {h height : ℤ}
  {known counted : Finset ℕ} {tx : CTransaction}

theorem FreeInputs.of_lockedIf
    {u' : InstantXState} {P : Prop} [Decidable P] (hFree : FreeInputs u tx txHash)
    (hLocked : LockedIf u u' tx txHash P) : FreeInputs u' tx txHash := by
  intro txin hMem other hLookup
  rw [hLocked] at hLookup
  cases hOld : u.mapLockedInputs.lookup txin.prevout with
  | some old =>
      rw [hOld, Option.some_or] at hLookup
      exact hFree txin hMem other (hOld.trans hLookup)
  | none =>
      rw [hOld, Option.none_or] at hLookup
      split_ifs at hLookup
      exact (Option.some.inj hLookup).symm

/-- Inputs that were locked under one condition are locked once more under another one. -/
theorem LockedIf.of_lockInputs
    {u' u'' : InstantXState} {P Q R : Prop} [Decidable P] [Decidable Q] [Decidable R]
    (hLocked : LockedIf u u' tx txHash P)
    (hNext : u''.mapLockedInputs =
      if Q then (u'.lockInputs tx.vin txHash).mapLockedInputs else u'.mapLockedInputs)
    (hIff : R ↔ Q ∨ P) : LockedIf u u'' tx txHash R := by
  intro prevout
  rw [hNext]
  by_cases hLocks : Q
  · have hAlways : R := hIff.mpr (Or.inl hLocks)
    rw [if_pos hLocks, InstantXState.lookup_lockInputs, hLocked]
    by_cases hSpent : prevout ∈ tx.vin.map CTxIn.prevout
    · conv_rhs => rw [if_pos ⟨hAlways, hSpent⟩]
      rw [if_pos hSpent]
      cases u.mapLockedInputs.lookup prevout with
      | some other => rfl
      | none =>
          rw [Option.none_or, Option.none_or]
          split_ifs <;> rfl
    · rw [if_neg hSpent, if_neg fun hAll => hSpent hAll.2, if_neg fun hAll => hSpent hAll.2,
        Option.or_none]
  · rw [if_neg hLocks, hLocked]
    simp only [hIff, hLocks, false_or]

/-- The condition for locks with one more hash: the new vote locks, or the others did. -/
theorem enough_insert_iff
    {arrived : Finset ℕ} {k : ℕ} :
    ((insert k arrived \ known).Nonempty ∧ INSTANTX_SIGNATURES_REQUIRED ≤
        ((counted ∪ (insert k arrived \ known)).card : ℤ)) ↔
      (k ∉ known ∪ arrived ∧ INSTANTX_SIGNATURES_REQUIRED ≤
          ((insert k (counted ∪ (arrived \ known))).card : ℤ)) ∨
        ((arrived \ known).Nonempty ∧ INSTANTX_SIGNATURES_REQUIRED ≤
          ((counted ∪ (arrived \ known)).card : ℤ)) := by
  by_cases hOld : k ∈ known ∪ arrived
  · have hSame : insert k arrived \ known = arrived \ known := by
      ext j
      simp only [Finset.mem_union] at hOld
      simp only [Finset.mem_sdiff, Finset.mem_insert]
      constructor
      · rintro ⟨rfl | hMem, hNot⟩
        · exact ⟨hOld.resolve_left hNot, hNot⟩
        · exact ⟨hMem, hNot⟩
      · rintro ⟨hMem, hNot⟩
        exact ⟨Or.inr hMem, hNot⟩
    rw [hSame]
    simp [hOld]
  · have hNotKnown : k ∉ known := fun hMem => hOld (Finset.mem_union_left _ hMem)
    have hInsert : counted ∪ (insert k arrived \ known) =
        insert k (counted ∪ (arrived \ known)) := by
      rw [Finset.insert_sdiff_of_notMem _ hNotKnown, Finset.union_insert]
    have hNonempty : (insert k arrived \ known).Nonempty :=
      ⟨k, Finset.mem_sdiff.mpr ⟨Finset.mem_insert_self k arrived, hNotKnown⟩⟩
    have hMono := Finset.card_le_card
      (Finset.subset_insert k (counted ∪ (arrived \ known)))
    rw [hInsert]
    constructor
    · rintro ⟨-, hEnough⟩
      exact Or.inl ⟨hOld, hEnough⟩
    · rintro (⟨-, hEnough⟩ | ⟨-, hEnough⟩)
      · exact ⟨hNonempty, hEnough⟩
      · exact ⟨hNonempty, by omega⟩

/-- After accepted votes those with new hashes are counted, and the inputs are locked if the
lock has a height, some vote was new and there are enough of them. -/
theorem Tallied.processVotes
    (hTally : Tallied s u txHash h height known counted) (hHeight : height = 0 ∨ height = h)
    (hKept : counted ⊆ known) (hTx : tx.getHash prims = txHash)
    (hFree : FreeInputs u tx txHash)
    (hReq : height ≠ 0 → u.mapTxLockReq.lookup txHash = some tx)
    {votes : List (InstantXContext × CConsensusVote)}
    (hVotes : ValidVotes prims s txHash h votes) :
    ∃ u', runEvents instantXStep (voteEvents votes) u = .ok u' ∧
      Tallied s u' txHash h height (known ∪ arrivedHashes votes)
        (counted ∪ (arrivedHashes votes \ known)) ∧
      u'.mapTxLockReq = u.mapTxLockReq ∧
      LockedIf u u' tx txHash (height ≠ 0 ∧ (arrivedHashes votes \ known).Nonempty ∧
        INSTANTX_SIGNATURES_REQUIRED ≤
          ((counted ∪ (arrivedHashes votes \ known)).card : ℤ)) := by
  induction votes using List.reverseRecOn with
  | nil =>
      refine ⟨u, rfl, ?_, rfl, ?_⟩
      · simpa [arrivedHashes, hashesOf] using hTally
      · intro prevout
        simp [arrivedHashes, hashesOf]
  | append_singleton votes last ih =>
      obtain ⟨u₁, hRun, hTally₁, hReq₁, hLocked₁⟩ := ih fun v hMem => hVotes v (by simp [hMem])
      obtain ⟨ctx, vote⟩ := last
      obtain ⟨hPrims, hEnabled, hAccepts, hHash, hAt, hNew⟩ := hVotes (ctx, vote) (by simp)
      have hKept₁ : counted ∪ (arrivedHashes votes \ known) ⊆ known ∪ arrivedHashes votes :=
        Finset.union_subset_union hKept Finset.sdiff_subset
      obtain ⟨u₂, hStep, hTally₂, hReq₂, hLocked₂⟩ := hTally₁.processTxlvote hHeight hKept₁ hNew
        hHash hAt hAccepts (by rw [hPrims]; exact hTx) (hFree.of_lockedIf hLocked₁)
        fun hZero => by rw [hReq₁]; exact hReq hZero
      have hArrived : arrivedHashes (votes ++ [(ctx, vote)]) =
          insert vote.getHash (arrivedHashes votes) := by
        ext k
        simp [arrivedHashes, hashesOf]
      have hKnown₂ : known ∪ arrivedHashes (votes ++ [(ctx, vote)]) =
          insert vote.getHash (known ∪ arrivedHashes votes) := by
        rw [hArrived, Finset.union_insert]
      have hCounted₂ : counted ∪ (arrivedHashes (votes ++ [(ctx, vote)]) \ known) =
          counted ∪ (arrivedHashes votes \ known) ∪
            ({vote.getHash} \ (known ∪ arrivedHashes votes)) := by
        rw [hArrived]
        ext k
        simp only [Finset.mem_union, Finset.mem_sdiff, Finset.mem_insert, Finset.mem_singleton]
        grind
      refine ⟨u₂, ?_, ?_, hReq₂.trans hReq₁, ?_⟩
      · unfold voteEvents at hRun ⊢
        rw [List.map_append]
        refine runEvents_concat_eq_ok.mpr ⟨u₁, hRun, ?_⟩
        show (if ctx.enabled then ctx.processTxlvote vote u₁ else .ok u₁) = _
        rw [if_pos hEnabled, hStep]
      · rw [hKnown₂, hCounted₂]
        exact hTally₂
      · refine hLocked₁.of_lockInputs hLocked₂ ?_
        rw [hArrived, enough_insert_iff, and_or_left]

end Votes

/-! ## The request -/

namespace InstantXContext

variable (ctx : InstantXContext)

/-- The hash of the vote that this node remembers as its own once it has the request. -/
def ownHashes (tx : CTransaction) (h : ℤ) : Finset ℕ :=
  if ctx.isIXTXValid tx then
    match ctx.ownVote (tx.getHash ctx.env.prims) h with
    | .ok (some vote) => {vote.getHash}
    | _ => ∅
  else ∅

/-- A lock request with inputs of the required age, which belong to blocks at a height that
gives the lock the height `h`.  If its fee is found sufficient, the memory pool accepts it. -/
structure ValidRequest (s : InstantXState) (tx : CTransaction) (h : ℤ) : Prop where
  enabled : ctx.enabled = true
  scripts : paysNormally tx = true
  inputs : tx.vin ≠ []
  height : ctx.lockHeight tx = .ok (some h)
  heights : ∀ hash pindex, ctx.st.mapBlockIndex.lookup hash = some pindex →
    0 ≤ pindex.nHeight ∧ pindex.nHeight < 2 ^ 31
  accepted : ctx.isIXTXValid tx = true →
    ∃ r, acceptToMemoryPool (ctx.relayEnv s) ctx.st tx true false false = .ok r ∧
      r.accepted = true
  votes : ∃ own, ctx.ownVote (tx.getHash ctx.env.prims) h = .ok own

variable {ctx}

/-- An input found on disk only adds nothing to the sum of the inputs. -/
theorem knownInputs_of_confirmed
    {vin : List CTxIn} (hPool : ∀ i ∈ vin, ctx.st.mempool.lookup i.prevout.hash = none)
    (hFound : ∀ i ∈ vin, (getTransaction ctx.env.toEnv ctx.st i.prevout.hash
      (CTransaction.null ctx.env.adjustedTime) 0).fFound = true) :
    ctx.knownInputs vin = (0, false) := by
  unfold knownInputs
  induction vin with
  | nil => rfl
  | cons i rest ih =>
      have hNull : (getTransaction ctx.env.toEnv ctx.st i.prevout.hash
          (CTransaction.null ctx.env.adjustedTime) 0).tx =
            CTransaction.null ctx.env.adjustedTime := by
        unfold getTransaction
        dsimp only
        rw [hPool i (by simp)]
        dsimp only
        split_ifs
        · split <;> exact CTransaction.readFromDiskHash_this _ _ _ _
        · exact CTransaction.readFromDiskHash_this _ _ _ _
      have hRest := ih (fun j hMem => hPool j (by simp [hMem])) fun j hMem =>
        hFound j (by simp [hMem])
      refine (congrArg (fun found => List.foldl _ found rest) ?_).trans hRest
      dsimp only
      rw [if_pos (hFound i (by simp)), hNull]
      rfl

/-- A request whose inputs are all on disk is dropped, since its fee is taken for negative. -/
theorem isIXTXValid_of_confirmed
    {tx : CTransaction} (hPool : ∀ i ∈ tx.vin, ctx.st.mempool.lookup i.prevout.hash = none)
    (hFound : ∀ i ∈ tx.vin, (getTransaction ctx.env.toEnv ctx.st i.prevout.hash
      (CTransaction.null ctx.env.adjustedTime) 0).fFound = true)
    (hValueOut : 0 ≤ tx.vout.foldl (fun sum o => wrap64 (sum + o.nValue)) 0) :
    ctx.isIXTXValid tx = false := by
  unfold isIXTXValid
  dsimp only
  rw [knownInputs_of_confirmed hPool hFound]
  have hBelow : tx.vout.foldl (fun sum o => wrap64 (sum + o.nValue)) 0 < 2 ^ 63 := by
    induction tx.vout using List.reverseRecOn with
    | nil => decide
    | append_singleton rest o _ =>
        rw [List.foldl_concat]
        exact Int.bmod_lt (by decide)
  generalize tx.vout.foldl (fun sum o => wrap64 (sum + o.nValue)) 0 = nValueOut at *
  have hFee : wrap64 (0 - nValueOut) < COIN / 100 := by
    unfold wrap64 COIN
    rw [Int.bmod_eq_of_le (by omega) (by omega)]
    omega
  simp only [hFee, if_true, Bool.false_eq_true, if_false, ite_self]

/-- The age of old inputs is the difference of two heights. -/
theorem inputAge_eq_some
    {vin : List CTxIn} {nTxAge age : ℤ} (h : ctx.inputAge vin nTxAge = .ok (some age)) :
    (vin = [] ∧ age = nTxAge) ∨ ∃ hash pindex pindexBest,
      ctx.st.mapBlockIndex.lookup hash = some pindex ∧
      ctx.st.entry ctx.st.pindexBest = some pindexBest ∧
      age = pindexBest.nHeight - pindex.nHeight := by
  induction vin generalizing nTxAge with
  | nil => exact Or.inl ⟨rfl, (Option.some.inj (Except.ok.inj h)).symm⟩
  | cons i rest ih =>
      obtain ⟨found, hAge, h⟩ := bind_eq_ok.mp h
      split_ifs at h with hNew
      · cases h
      rcases ih h with ⟨-, rfl⟩ | hHeights
      · refine Or.inr ?_
        unfold getInputAge at hAge
        dsimp only at hAge
        split_ifs at hAge
        · split at hAge
          · next pindex hLookup =>
              obtain ⟨pindexBest, hBest, hAge⟩ := bind_eq_ok.mp hAge
              exact ⟨_, pindex, pindexBest, hLookup, deref_eq_ok.mp hBest,
                (Except.ok.inj hAge).symm⟩
          · have := Except.ok.inj hAge
            omega
        · have := Except.ok.inj hAge
          omega
      · exact Or.inr hHeights

/-- A lock gets a height, since blocks have heights that are not negative. -/
theorem ValidRequest.height_ne_zero
    {s : InstantXState} {tx : CTransaction} {h : ℤ} (hRequest : ctx.ValidRequest s tx h) :
    h ≠ 0 := by
  obtain ⟨found, hAge, hRest⟩ := bind_eq_ok.mp hRequest.height
  cases found with
  | none => cases hRest
  | some age =>
      obtain ⟨pindexBest, hBest, hRest⟩ := bind_eq_ok.mp hRest
      have hHeight := Option.some.inj (Except.ok.inj hRest)
      rcases inputAge_eq_some hAge with ⟨hNone, -⟩ | ⟨hash, pindex, best, hLookup, hBest', hEq⟩
      · exact absurd (List.reverse_eq_nil_iff.mp hNone) hRequest.inputs
      · obtain rfl : pindexBest = best :=
          Option.some.inj ((deref_eq_ok.mp hBest).symm.trans hBest')
        obtain ⟨hNonneg, hBelow⟩ := hRequest.heights hash pindex hLookup
        rw [← hHeight, hEq, show pindexBest.nHeight - (pindexBest.nHeight - pindex.nHeight) + 4 =
          pindex.nHeight + 4 by omega]
        intro hZero
        have hDvd := Int.dvd_of_bmod_eq_zero hZero
        omega

end InstantXContext

/-- Nothing is known about the transaction, and none of its inputs is locked. -/
structure Unknown (s : InstantXState) (tx : CTransaction) (txHash : ℕ) : Prop where
  request : txHash ∉ s.mapTxLockReq
  rejected : txHash ∉ s.mapTxLockReqRejected
  lock : s.mapTxLocks.lookup txHash = none
  inputs : ∀ txin ∈ tx.vin, s.mapLockedInputs.lookup txin.prevout = none

section Request

variable {prims : Primitives} {s u : InstantXState} {tx : CTransaction} {txHash : ℕ} {h : ℤ}
  {known counted : Finset ℕ} {ctx : InstantXContext}

theorem Unknown.tallied (hUnknown : Unknown s tx txHash) : Tallied s s txHash h 0 ∅ ∅ := by
  have hVotes : s.votesOf txHash = [] := by
    rw [InstantXState.votesOf, hUnknown.lock]
    rfl
  constructor
  · exact hUnknown.rejected
  · simp
  · rw [hVotes]
    rfl
  · rw [hVotes]
    exact List.nodup_nil
  · rw [hVotes]
    simp
  · intro lock hLock
    rw [hUnknown.lock] at hLock
    cases hLock
  · simp [hUnknown.lock]

theorem InstantXContext.ownHashes_eq
    {own : Option CConsensusVote} (hValid : ctx.isIXTXValid tx = true)
    (hOwn : ctx.ownVote (tx.getHash ctx.env.prims) h = .ok own) :
    ctx.ownHashes tx h = (own.map CConsensusVote.getHash).toFinset := by
  unfold ownHashes
  rw [if_pos hValid, hOwn]
  cases own <;> rfl

/-- The lock that a request makes has a height; the votes are those that were there. -/
theorem Tallied.createLock
    (hTally : Tallied s u txHash h 0 known counted) (hHeight : h ≠ 0) (time : ℤ) :
    Tallied s (u.createLock time h txHash) txHash h h known counted := by
  have hVotes : (u.createLock time h txHash).votesOf txHash = u.votesOf txHash :=
    InstantXState.votesOf_createLock _ _ _ _
  have hLookup := InstantXState.lookup_createLock (s := u) time h txHash txHash
  rw [if_pos rfl] at hLookup
  constructor
  · exact hTally.rejected
  · exact hTally.remembered
  · exact hVotes ▸ hTally.hashes
  · exact hVotes ▸ hTally.nodup
  · exact hVotes ▸ hTally.heights
  · intro lock hLock
    rw [hLookup, Option.some.injEq] at hLock
    rw [← hLock]
    cases hOld : u.mapTxLocks.lookup txHash with
    | none => exact ⟨rfl, rfl⟩
    | some old => exact ⟨(hTally.lock old hOld).1, rfl⟩
  · rw [hLookup]
    constructor
    · intro hNone
      cases hNone
    · exact fun hAll => absurd hAll.2 hHeight

/-- A request that is accepted gives the lock its height, and one that is dropped changes
nothing. -/
theorem Tallied.processTxlreq
    (hTally : Tallied s u txHash h 0 known counted) (hUnknown : Unknown s tx txHash)
    (hReq : u.mapTxLockReq = s.mapTxLockReq)
    (hLocked : u.mapLockedInputs.lookup = s.mapLockedInputs.lookup)
    (hTx : tx.getHash ctx.env.prims = txHash) (hRequest : ctx.ValidRequest s tx h) :
    ∃ u', ctx.processTxlreq tx u = .ok u' ∧
      Tallied s u' txHash h (if ctx.isIXTXValid tx then h else 0) (known ∪ ctx.ownHashes tx h)
        counted ∧
      (ctx.isIXTXValid tx = true → u'.mapTxLockReq.lookup txHash = some tx) ∧
      u'.mapLockedInputs.lookup = s.mapLockedInputs.lookup := by
  have hNew : ¬(tx.getHash ctx.env.prims ∈ u.mapTxLockReq ∨
      tx.getHash ctx.env.prims ∈ u.mapTxLockReqRejected) := by
    rw [hTx, hReq]
    exact fun hOr => hOr.elim hUnknown.request hTally.rejected
  unfold InstantXContext.processTxlreq
  dsimp only
  rw [if_neg hNew]
  cases hValid : ctx.isIXTXValid tx with
  | false =>
      refine ⟨u, rfl, ?_, fun hNot => Bool.noConfusion hNot, hLocked⟩
      unfold InstantXContext.ownHashes
      simpa [hValid] using hTally
  | true =>
      obtain ⟨r, hPool, hAccepted⟩ := hRequest.accepted hValid
      obtain ⟨own, hOwn⟩ := hRequest.votes
      have hCreate : ctx.createNewLock tx u =
          .ok (h, u.createLock ctx.env.time h (tx.getHash ctx.env.prims)) := by
        unfold InstantXContext.createNewLock
        rw [hRequest.height]
        rfl
      have hEnv : ctx.relayEnv (u.createLock ctx.env.time h (tx.getHash ctx.env.prims)) =
          ctx.relayEnv s := by
        unfold InstantXContext.relayEnv
        rw [show (u.createLock ctx.env.time h (tx.getHash ctx.env.prims)).mapLockedInputs.lookup =
          s.mapLockedInputs.lookup from hLocked]
      simp only [Bool.not_true, Bool.false_eq_true, if_false, hRequest.scripts, hCreate, ok_bind,
        hEnv, hPool, hAccepted, if_true, InstantXContext.acceptRequest_eq_ok hOwn]
      refine ⟨_, rfl, ?_, fun _ => ?_, hLocked⟩
      · rw [hTx, InstantXContext.ownHashes_eq hValid hOwn]
        have hLock := hTally.createLock hRequest.height_ne_zero ctx.env.time
        refine ⟨hLock.rejected, ?_, hLock.hashes, hLock.nodup, hLock.heights, hLock.lock,
          hLock.absent⟩
        intro k
        rw [Finset.mem_union, Option.mem_toFinset, ← or_assoc, ← hTally.remembered k]
        exact InstantXContext.mem_withOwnVote
      · rw [Table.lookup_touch, hTx, if_pos rfl]
        show (u.mapTxLockReq.lookup txHash).or (some tx) = some tx
        rw [hReq, Table.not_mem_iff_lookup.mp hUnknown.request, Option.none_or]

end Request

/-! ## Orders -/

/-- An order in which a request and votes arrive, each with what it finds. -/
structure VoteOrder where
  before : List (InstantXContext × CConsensusVote)
  request : InstantXContext
  after : List (InstantXContext × CConsensusVote)

namespace VoteOrder

variable (o : VoteOrder) (tx : CTransaction) (h : ℤ)

def events : List (InstantXContext × InstantXEvent) :=
  voteEvents o.before ++ (o.request, .txlreq tx) :: voteEvents o.after

def votes : List CConsensusVote := (o.before ++ o.after).map Prod.snd

/-- The hashes of the votes that are new after the request. -/
def lateHashes : Finset ℕ :=
  arrivedHashes o.after \ (arrivedHashes o.before ∪ o.request.ownHashes tx h)

/-- The hashes of the votes that are counted: all before the request, and after it those that
are new and not the node's own. -/
def countedHashes : Finset ℕ := arrivedHashes o.before ∪ o.lateHashes tx h

/-- The request gets a lock, enough votes are counted, and one of them comes after it. -/
structure Completes : Prop where
  valid : o.request.isIXTXValid tx = true
  late : (o.lateHashes tx h).Nonempty
  enough : INSTANTX_SIGNATURES_REQUIRED ≤ ((o.countedHashes tx h).card : ℤ)

instance : Decidable (o.Completes tx h) :=
  decidable_of_iff (o.request.isIXTXValid tx = true ∧ (o.lateHashes tx h).Nonempty ∧
      INSTANTX_SIGNATURES_REQUIRED ≤ ((o.countedHashes tx h).card : ℤ))
    ⟨fun ⟨hValid, hLate, hEnough⟩ => ⟨hValid, hLate, hEnough⟩,
      fun ⟨hValid, hLate, hEnough⟩ => ⟨hValid, hLate, hEnough⟩⟩

/-- The request and the votes are valid where they arrive. -/
structure Valid (prims : Primitives) (s : InstantXState) : Prop where
  hashes : o.request.env.prims = prims
  request : o.request.ValidRequest s tx h
  before : ValidVotes prims s (tx.getHash prims) h o.before
  after : ValidVotes prims s (tx.getHash prims) h o.after

variable {o} {tx} {h} {prims : Primitives} {s : InstantXState}

theorem card_countedHashes_le : (o.countedHashes tx h).card ≤ o.votes.length := by
  have hSub : o.countedHashes tx h ⊆ hashesOf o.votes := by
    intro k hMem
    unfold countedHashes lateHashes arrivedHashes at hMem
    unfold hashesOf votes
    simp only [hashesOf, Finset.mem_union, Finset.mem_sdiff, List.mem_toFinset] at hMem
    rw [List.mem_toFinset, List.map_append, List.map_append, List.mem_append]
    rcases hMem with hBefore | ⟨hAfter, -⟩
    · exact Or.inl hBefore
    · exact Or.inr hAfter
  calc (o.countedHashes tx h).card ≤ (hashesOf o.votes).card := Finset.card_le_card hSub
    _ ≤ (o.votes.map CConsensusVote.getHash).length := List.toFinset_card_le _
    _ = o.votes.length := List.length_map _

/-- What a node ends with: the number of counted votes if the request gets a lock, and the
inputs locked if the order completes it. -/
theorem outcome
    (hUnknown : Unknown s tx (tx.getHash prims)) (hValid : o.Valid tx h prims s) :
    ∃ u, runEvents instantXStep (o.events tx) s = .ok u ∧
      u.signatureCount (tx.getHash prims) =
        (if o.request.isIXTXValid tx then some ((o.countedHashes tx h).card : ℤ)
        else if o.countedHashes tx h = ∅ then none else some (-1)) ∧
      LockedIf s u tx (tx.getHash prims) (o.Completes tx h) := by
  have hTx : tx.getHash o.request.env.prims = tx.getHash prims := by rw [hValid.hashes]
  have hHeight : h ≠ 0 := hValid.request.height_ne_zero
  have hFree : FreeInputs s tx (tx.getHash prims) := by
    intro txin hMem other hLookup
    rw [hUnknown.inputs txin hMem] at hLookup
    cases hLookup
  have hStart : Tallied s s (tx.getHash prims) h 0 ∅ ∅ := hUnknown.tallied
  obtain ⟨u₁, hBefore, hTally₁, hReq₁, hLocked₁⟩ := hStart.processVotes (Or.inl rfl)
    (Finset.Subset.refl _) rfl hFree (fun hNot => absurd rfl hNot) hValid.before
  simp only [Finset.empty_union, Finset.sdiff_empty] at hTally₁
  have hSame₁ : u₁.mapLockedInputs.lookup = s.mapLockedInputs.lookup := by
    funext prevout
    rw [hLocked₁, if_neg fun hAll => hAll.1.1 rfl, Option.or_none]
  obtain ⟨u₂, hRequest, hTally₂, hReq₂, hSame₂⟩ :=
    hTally₁.processTxlreq hUnknown hReq₁ hSame₁ hTx hValid.request
  have hFree₂ : FreeInputs u₂ tx (tx.getHash prims) := by
    intro txin hMem other hLookup
    exact hFree txin hMem other ((congrFun hSame₂ txin.prevout).symm.trans hLookup)
  have hAt : (if o.request.isIXTXValid tx then h else 0) = 0 ∨
      (if o.request.isIXTXValid tx then h else 0) = h := by
    split_ifs
    · exact Or.inr rfl
    · exact Or.inl rfl
  have hNonzero : (if o.request.isIXTXValid tx then h else 0) ≠ 0 ↔
      o.request.isIXTXValid tx = true := by
    split_ifs with hYes
    · simp [hYes, hHeight]
    · simp [hYes]
  obtain ⟨u₃, hAfter, hTally₃, -, hLocked₃⟩ := hTally₂.processVotes hAt
    Finset.subset_union_left rfl hFree₂ (fun hNot => hReq₂ (hNonzero.mp hNot)) hValid.after
  refine ⟨u₃, ?_, ?_, ?_⟩
  · refine runEvents_append_eq_ok.mpr ⟨u₁, hBefore, runEvents_cons_eq_ok.mpr ⟨u₂, ?_, hAfter⟩⟩
    show (if o.request.enabled then o.request.processTxlreq tx u₁ else .ok u₁) = _
    rw [if_pos hValid.request.enabled, hRequest]
  · rw [hTally₃.signatureCount hAt]
    unfold countedHashes lateHashes
    by_cases hYes : o.request.isIXTXValid tx = true
    · rw [if_neg (hNonzero.mpr hYes), if_pos hYes]
    · rw [if_pos (not_ne_iff.mp fun hNot => hYes (hNonzero.mp hNot)), if_neg hYes]
  · intro prevout
    have hIff : ((if o.request.isIXTXValid tx then h else 0) ≠ 0 ∧
        (arrivedHashes o.after \ (arrivedHashes o.before ∪ o.request.ownHashes tx h)).Nonempty ∧
        INSTANTX_SIGNATURES_REQUIRED ≤ ((arrivedHashes o.before ∪ (arrivedHashes o.after \
          (arrivedHashes o.before ∪ o.request.ownHashes tx h))).card : ℤ)) ↔
        o.Completes tx h := by
      rw [hNonzero]
      exact ⟨fun ⟨hYes, hLate, hEnough⟩ => ⟨hYes, hLate, hEnough⟩,
        fun ⟨hYes, hLate, hEnough⟩ => ⟨hYes, hLate, hEnough⟩⟩
    rw [hLocked₃, congrFun hSame₂ prevout]
    simp only [hIff]

end VoteOrder

/-! ## When the order makes no difference -/

/-- Both orders end with the same count and the same locked inputs, and if there are enough
votes, the inputs of the request are locked for it. -/
def OrderIndependent (s : InstantXState) (tx : CTransaction) (txHash votes : ℕ)
    (o₁ o₂ : VoteOrder) : Prop :=
  ∃ u₁ u₂, runEvents instantXStep (o₁.events tx) s = .ok u₁ ∧
    runEvents instantXStep (o₂.events tx) s = .ok u₂ ∧
    u₁.signatureCount txHash = u₂.signatureCount txHash ∧
    u₁.mapLockedInputs.lookup = u₂.mapLockedInputs.lookup ∧
    (INSTANTX_SIGNATURES_REQUIRED ≤ (votes : ℤ) →
      ∀ txin ∈ tx.vin, u₁.mapLockedInputs.lookup txin.prevout = some txHash ∧
        u₂.mapLockedInputs.lookup txin.prevout = some txHash)

/-- The condition under which two orders lead to the same result. -/
structure OrdersAgree (tx : CTransaction) (h : ℤ) (votes : ℕ) (o₁ o₂ : VoteOrder) : Prop where
  alike : o₁.request.isIXTXValid tx = o₂.request.isIXTXValid tx
  counts : (o₁.countedHashes tx h).card = (o₂.countedHashes tx h).card ∨
    (o₁.request.isIXTXValid tx = false ∧ (o₁.countedHashes tx h).Nonempty ∧
      (o₂.countedHashes tx h).Nonempty)
  complete : INSTANTX_SIGNATURES_REQUIRED ≤ (votes : ℤ) → o₁.Completes tx h ∧ o₂.Completes tx h

section Independence

variable {s : InstantXState} {tx : CTransaction} {h : ℤ} {votes : List CConsensusVote}
  {o₁ o₂ : VoteOrder}

/-- The count of a dropped request says only whether there are votes. -/
theorem dropped_counts_eq_iff
    {c₁ c₂ : Finset ℕ} :
    ((if c₁ = ∅ then none else some (-1 : ℤ)) = if c₂ = ∅ then none else some (-1)) ↔
      c₁.card = c₂.card ∨ (c₁.Nonempty ∧ c₂.Nonempty) := by
  rcases c₁.eq_empty_or_nonempty with rfl | hSome₁ <;>
    rcases c₂.eq_empty_or_nonempty with rfl | hSome₂
  · simp
  · simp [hSome₂.ne_empty, hSome₂.card_ne_zero.symm]
  · simp [hSome₁.ne_empty]
  · simp [hSome₁, hSome₂, hSome₁.ne_empty, hSome₂.ne_empty]

theorem accepted_count_ne_dropped
    {c₁ c₂ : Finset ℕ} : some (c₁.card : ℤ) ≠ if c₂ = ∅ then none else some (-1) := by
  split_ifs
  · exact Option.some_ne_none _
  · intro hSame
    have := Option.some.inj hSame
    omega

/-- Equal counts are those of requests that are treated alike. -/
theorem counts_eq_iff :
    ((if o₁.request.isIXTXValid tx then some ((o₁.countedHashes tx h).card : ℤ)
      else if o₁.countedHashes tx h = ∅ then none else some (-1)) =
      (if o₂.request.isIXTXValid tx then some ((o₂.countedHashes tx h).card : ℤ)
      else if o₂.countedHashes tx h = ∅ then none else some (-1))) ↔
      o₁.request.isIXTXValid tx = o₂.request.isIXTXValid tx ∧
        ((o₁.countedHashes tx h).card = (o₂.countedHashes tx h).card ∨
          (o₁.request.isIXTXValid tx = false ∧ (o₁.countedHashes tx h).Nonempty ∧
            (o₂.countedHashes tx h).Nonempty)) := by
  cases o₁.request.isIXTXValid tx <;> cases o₂.request.isIXTXValid tx
  · simp [dropped_counts_eq_iff]
  · simp [accepted_count_ne_dropped.symm]
  · simp
  · simp

theorem VoteOrder.not_completes_of_few
    {o : VoteOrder} (hVotes : o.votes.length = votes.length)
    (hFew : ¬INSTANTX_SIGNATURES_REQUIRED ≤ (votes.length : ℤ)) : ¬o.Completes tx h := by
  intro hCompletes
  have hLe : (o.countedHashes tx h).card ≤ o.votes.length := o.card_countedHashes_le
  have := hCompletes.enough
  omega

/-- The inputs of a completed request are locked for it. -/
theorem lookup_of_lockedIf
    {u : InstantXState} {txHash : ℕ} {P : Prop} [Decidable P]
    (hLocked : LockedIf s u tx txHash P) {txin : CTxIn} (hMem : txin ∈ tx.vin)
    (hFree : s.mapLockedInputs.lookup txin.prevout = none) :
    u.mapLockedInputs.lookup txin.prevout = some txHash ↔ P := by
  rw [hLocked, hFree, Option.none_or]
  simp [show ∃ a ∈ tx.vin, a.prevout = txin.prevout from ⟨txin, hMem, rfl⟩]

/-- Two orders of a request without conflicts and the same valid votes lead to the same count
and the same locked inputs, which are those of the request if there are enough votes, exactly if
both orders treat the request alike, count as many votes, and count one of enough votes after the
request. -/
theorem orderIndependent_iff
    {prims : Primitives} (hUnknown : Unknown s tx (tx.getHash prims))
    (hValid₁ : o₁.Valid tx h prims s) (hValid₂ : o₂.Valid tx h prims s)
    (hVotes₁ : o₁.votes.Perm votes) (hVotes₂ : o₂.votes.Perm votes) :
    OrderIndependent s tx (tx.getHash prims) votes.length o₁ o₂ ↔
      OrdersAgree tx h votes.length o₁ o₂ := by
  obtain ⟨u₁, hRun₁, hCount₁, hLocked₁⟩ := VoteOrder.outcome hUnknown hValid₁
  obtain ⟨u₂, hRun₂, hCount₂, hLocked₂⟩ := VoteOrder.outcome hUnknown hValid₂
  constructor
  · rintro ⟨v₁, v₂, hRun₁', hRun₂', hCounts, -, hEnough⟩
    obtain rfl : u₁ = v₁ := by
      rw [hRun₁] at hRun₁'
      exact Except.ok.inj hRun₁'
    obtain rfl : u₂ = v₂ := by
      rw [hRun₂] at hRun₂'
      exact Except.ok.inj hRun₂'
    rw [hCount₁, hCount₂, counts_eq_iff] at hCounts
    refine ⟨hCounts.1, hCounts.2, fun hMany => ?_⟩
    obtain ⟨txin, hMem⟩ := List.exists_mem_of_ne_nil _ hValid₁.request.inputs
    have hFree := hUnknown.inputs txin hMem
    obtain ⟨hLock₁, hLock₂⟩ := hEnough hMany txin hMem
    exact ⟨(lookup_of_lockedIf hLocked₁ hMem hFree).mp hLock₁,
      (lookup_of_lockedIf hLocked₂ hMem hFree).mp hLock₂⟩
  · intro hAgree
    have hSame : o₁.Completes tx h ↔ o₂.Completes tx h := by
      by_cases hMany : INSTANTX_SIGNATURES_REQUIRED ≤ (votes.length : ℤ)
      · exact iff_of_true (hAgree.complete hMany).1 (hAgree.complete hMany).2
      · exact iff_of_false (VoteOrder.not_completes_of_few hVotes₁.length_eq hMany)
          (VoteOrder.not_completes_of_few hVotes₂.length_eq hMany)
    refine ⟨u₁, u₂, hRun₁, hRun₂, ?_, ?_, fun hMany txin hMem => ?_⟩
    · rw [hCount₁, hCount₂, counts_eq_iff]
      exact ⟨hAgree.alike, hAgree.counts⟩
    · funext prevout
      rw [hLocked₁, hLocked₂]
      simp only [hSame]
    · have hFree := hUnknown.inputs txin hMem
      exact ⟨(lookup_of_lockedIf hLocked₁ hMem hFree).mpr (hAgree.complete hMany).1,
        (lookup_of_lockedIf hLocked₂ hMem hFree).mpr (hAgree.complete hMany).2⟩

end Independence

/-! ## Ten votes before a request -/

namespace Sample

/-- The header of the block with the funding payment. -/
def fundingHeader : CBlockHeader := ⟨7, 0, 0, 700, 0x1e00ffff, 0⟩

/-- A node whose block at height 1 holds the funding payment. -/
def confirmedNode : ChainState :=
  { nodeWith [(fundingPayment.getHash prims, CTxIndex.unspent ⟨1, 8, 88⟩ 1)] with
    mapBlockIndex := ((∅ : Table ℕ CBlockIndex).insert 500 tipEntry).insert
      (fundingHeader.getHash prims)
      { tipEntry with phashBlock := fundingHeader.getHash prims, nHeight := 1 }
    blockFiles := (∅ : Table ℕ (List UInt8)).insert 1
      (List.replicate 8 0 ++ fundingHeader.serialize ++ fundingPayment.serialize) }

/-- The votes of some masternodes. -/
def votesOn (st : ChainState) (h : ℤ) (voters : List ℕ) :
    List (InstantXContext × CConsensusVote) :=
  voters.map fun i => (instantXContext st, signedVote i h)

/-- The request of the sample, with votes before and after it. -/
def requestBetween (st : ChainState) (h : ℤ) (before after : List ℕ) : VoteOrder :=
  ⟨votesOn st h before, instantXContext st, votesOn st h after⟩

theorem unknown_lockRequest : Unknown .empty lockRequest (lockRequest.getHash prims) where
  request := by decide
  rejected := by decide
  lock := rfl
  inputs _ _ := rfl

theorem validVotes_votesOn
    {st : ChainState} {h : ℤ} {voters : List ℕ}
    (hAccepts : ∀ i ∈ voters, (instantXContext st).acceptsVote (signedVote i h) = .ok true) :
    ValidVotes prims .empty (lockRequest.getHash prims) h (votesOn st h voters) := by
  intro v hMem
  obtain ⟨i, hVoter, rfl⟩ := List.mem_map.mp hMem
  exact ⟨rfl, rfl, hAccepts i hVoter, rfl, rfl, List.not_mem_nil⟩

def voterVins : List CTxIn := (List.range 10).map fun i => (voter i).vin

/-- Every masternode gets a place among the ten scores. -/
theorem rank_of_scores
    {st : ChainState} {h : ℤ} {hash i : ℕ} {vMasternodes : List CMasternode}
    {scores : List (ℕ × CTxIn)} {cache : Table ℤ ℕ}
    (hBlock : getBlockHash st (instantXContext st).mapCacheBlockHashes (wrap32 h) =
      .ok (some hash, (instantXContext st).mapCacheBlockHashes))
    (hLoop : CMasternodeMan.rankLoop (instantXContext st).env st h MIN_INSTANTX_PROTO_VERSION true
      (instantXContext st).vMasternodes (instantXContext st).mapCacheBlockHashes =
        .ok (vMasternodes, scores, cache))
    (hScores : scores.map Prod.snd = voterVins) (hi : i ∈ List.range 10) :
    ∃ k : ℕ, k < 10 ∧
      (instantXContext st).rank (voter i).vin h = .ok (vMasternodes, (k : ℤ) + 1) := by
  have hSorted := (instantXContext st).env.scoreSort.perm scores
  have hVin : (voter i).vin ∈ voterVins := List.mem_map_of_mem hi
  obtain ⟨score, hScore, hSame⟩ := List.mem_map.mp (hScores ▸ hVin)
  have hAny : ((instantXContext st).env.scoreSort.sort scores).any
      (fun s => s.2 = (voter i).vin) = true :=
    List.any_eq_true.mpr ⟨score, hSorted.mem_iff.mpr hScore, decide_eq_true hSame⟩
  rw [← List.findIdx?_isSome] at hAny
  obtain ⟨k, hk⟩ := Option.isSome_iff_exists.mp hAny
  refine ⟨k, ?_, ?_⟩
  · have hLt := (List.findIdx?_eq_some_iff_getElem.mp hk).1
    have hLength := congrArg List.length hScores
    rw [voterVins, List.length_map, List.length_map, List.length_range] at hLength
    rwa [hSorted.length_eq, hLength] at hLt
  · unfold InstantXContext.rank CMasternodeMan.getMasternodeRank CMasternodeMan.rankOf
    rw [show (instantXContext st).st = st from rfl, hBlock, ok_bind]
    dsimp only
    rw [hLoop, ok_bind, hk]
    rfl

theorem signatureValid_signedVote
    {st : ChainState} {h : ℤ} {i : ℕ} {vMasternodes : List CMasternode}
    (hVins : vMasternodes.map CMasternode.vin = voterVins) (hi : i ∈ List.range 10) :
    (signedVote i h).signatureValid (instantXContext st).signer vMasternodes = true := by
  have hVin : (voter i).vin ∈ voterVins := List.mem_map_of_mem hi
  obtain ⟨mn, hMn, hIs⟩ := List.mem_map.mp (hVins ▸ hVin)
  have hAny : vMasternodes.any (fun mn => mn.vin.prevout = (voter i).vin.prevout) = true :=
    List.any_eq_true.mpr ⟨mn, hMn, decide_eq_true (congrArg CTxIn.prevout hIs)⟩
  rw [← List.findIdx?_isSome] at hAny
  obtain ⟨j, hj⟩ := Option.isSome_iff_exists.mp hAny
  have hLt := (List.findIdx?_eq_some_iff_getElem.mp hj).1
  have hPmn : (CMasternodeMan.findIdx vMasternodes (signedVote i h).vinMasternode).bind
      (vMasternodes[·]?) = some vMasternodes[j] := by
    rw [CMasternodeMan.findIdx, show (signedVote i h).vinMasternode = (voter i).vin from rfl, hj,
      Option.bind_some, List.getElem?_eq_getElem hLt]
  unfold CConsensusVote.signatureValid
  rw [hPmn]
  exact CDarkSendSigner.verifyMessage_fst _ _ _ _

/-- The masternodes, which are scored once for all votes, have scores. -/
theorem accepts_of_scores
    {st : ChainState} {h : ℤ} {hash : ℕ} (hBest : (st.entry st.pindexBest).isSome = true)
    (hHeight : wrap32 h ≠ 0)
    (hCached : (instantXContext st).mapCacheBlockHashes.lookup (wrap32 h) = some hash)
    (hScored : ∃ scored, CMasternodeMan.rankLoop (instantXContext st).env st h
        MIN_INSTANTX_PROTO_VERSION true (instantXContext st).vMasternodes
        (instantXContext st).mapCacheBlockHashes = .ok scored ∧
      scored.1.map CMasternode.vin = voterVins ∧ scored.2.1.map Prod.snd = voterVins) :
    ∀ i ∈ List.range 10, (instantXContext st).acceptsVote (signedVote i h) = .ok true := by
  intro i hi
  have hBlock : getBlockHash st (instantXContext st).mapCacheBlockHashes (wrap32 h) =
      .ok (some hash, (instantXContext st).mapCacheBlockHashes) := by
    obtain ⟨pindexBest, hEntry⟩ := Option.isSome_iff_exists.mp hBest
    unfold getBlockHash
    rw [hEntry]
    dsimp only
    rw [if_neg hHeight, hCached]
  obtain ⟨⟨vMasternodes, scores, cache⟩, hLoop, hVins, hScores⟩ := hScored
  obtain ⟨k, hBelow, hRank⟩ := rank_of_scores hBlock hLoop hScores hi
  have hRank' : (instantXContext st).rank (signedVote i h).vinMasternode
      (signedVote i h).nBlockHeight = .ok (vMasternodes, (k : ℤ) + 1) := hRank
  unfold InstantXContext.acceptsVote INSTANTX_SIGNATURES_TOTAL
  rw [hRank', ok_bind]
  dsimp only
  rw [if_neg (by omega), if_neg (by omega), signatureValid_signedVote hVins hi]

theorem accepts_nodes :
    (∀ i ∈ List.range 10,
      (instantXContext confirmedNode).acceptsVote (signedVote i 5) = .ok true) ∧
      ∀ i ∈ List.range 10,
        (instantXContext requestNode).acceptsVote (signedVote i 4) = .ok true := by
  refine ⟨@accepts_of_scores _ _ 504 ?_ (by decide) rfl (exists_ok_of_test ?_),
    @accepts_of_scores _ _ 503 ?_ (by decide) rfl (exists_ok_of_test ?_)⟩
  all_goals decide +kernel

theorem accepts_confirmedNode :
    ∀ i ∈ List.range 10,
      (instantXContext confirmedNode).acceptsVote (signedVote i 5) = .ok true :=
  accepts_nodes.1

theorem accepts_requestNode :
    ∀ i ∈ List.range 10,
      (instantXContext requestNode).acceptsVote (signedVote i 4) = .ok true :=
  accepts_nodes.2

theorem heights_insert
    {entries : Table ℕ CBlockIndex} {key : ℕ} {pindex : CBlockIndex}
    (hEntries : ∀ hash entry, entries.lookup hash = some entry →
      0 ≤ entry.nHeight ∧ entry.nHeight < 2 ^ 31)
    (hHeight : 0 ≤ pindex.nHeight ∧ pindex.nHeight < 2 ^ 31) :
    ∀ hash entry, (entries.insert key pindex).lookup hash = some entry →
      0 ≤ entry.nHeight ∧ entry.nHeight < 2 ^ 31 := by
  intro hash entry hLookup
  rw [Table.lookup_insert_ite] at hLookup
  split_ifs at hLookup
  · rw [← Option.some.inj hLookup]
    exact hHeight
  · exact hEntries hash entry hLookup

/-- The request of the confirmed payment is dropped. -/
theorem isIXTXValid_lockRequest :
    (instantXContext confirmedNode).isIXTXValid lockRequest = false :=
  InstantXContext.isIXTXValid_of_confirmed (by decide +kernel) (by decide +kernel)
    (by decide +kernel)

theorem validRequest_confirmedNode :
    (instantXContext confirmedNode).ValidRequest .empty lockRequest 5 where
  enabled := rfl
  scripts := by decide
  inputs := List.cons_ne_nil _ _
  height := by decide +kernel
  heights := heights_insert (heights_insert (fun _ _ hNone => by cases hNone) (by decide))
    (by decide)
  accepted hValid := by
    have hDropped : (instantXContext confirmedNode).isIXTXValid lockRequest = false := by
      decide +kernel
    rw [hDropped] at hValid
    cases hValid
  votes := ⟨none, rfl⟩

theorem validRequest_requestNode :
    (instantXContext requestNode).ValidRequest .empty lockRequest 4 where
  enabled := rfl
  scripts := by decide
  inputs := List.cons_ne_nil _ _
  height := by decide +kernel
  heights := heights_insert (heights_insert (fun _ _ hNone => by cases hNone) (by decide))
    (by decide)
  accepted _ := by
    have hAccepted : (acceptToMemoryPool ((instantXContext requestNode).relayEnv .empty)
        requestNode lockRequest true false false).toOption.map AcceptResult.accepted =
          some true := by decide +kernel
    cases hPool : acceptToMemoryPool ((instantXContext requestNode).relayEnv .empty)
        requestNode lockRequest true false false with
    | error fault =>
        rw [hPool] at hAccepted
        cases hAccepted
    | ok r =>
        rw [hPool] at hAccepted
        exact ⟨r, hPool, Option.some.inj hAccepted⟩
  votes := ⟨none, rfl⟩

theorem valid_requestBetween
    {st : ChainState} {h : ℤ} {before after : List ℕ}
    (hRequest : (instantXContext st).ValidRequest .empty lockRequest h)
    (hAccepts : ∀ i ∈ List.range 10,
      (instantXContext st).acceptsVote (signedVote i h) = .ok true)
    (hBefore : ∀ i ∈ before, i < 10) (hAfter : ∀ i ∈ after, i < 10) :
    (requestBetween st h before after).Valid lockRequest h prims .empty where
  hashes := rfl
  request := hRequest
  before := validVotes_votesOn fun i hMem => hAccepts i (List.mem_range.mpr (hBefore i hMem))
  after := validVotes_votesOn fun i hMem => hAccepts i (List.mem_range.mpr (hAfter i hMem))

theorem votes_requestBetween (st : ChainState) (h : ℤ) (before after : List ℕ) :
    (requestBetween st h before after).votes = (before ++ after).map (signedVote · h) := by
  unfold requestBetween VoteOrder.votes votesOn
  rw [← List.map_append, List.map_map]
  rfl

/-- The votes of all ten masternodes. -/
def tenVotes (h : ℤ) : List CConsensusVote := (List.range 10).map (signedVote · h)

theorem perm_tenVotes
    {st : ChainState} {h : ℤ} {before after : List ℕ}
    (hVoters : (before ++ after).Perm (List.range 10)) :
    (requestBetween st h before after).votes.Perm (tenVotes h) := by
  rw [votes_requestBetween]
  exact hVoters.map _

/-- Two votes before the request and eight after it lock the input as ten votes after it do. -/
theorem twoVotesFirst_independent :
    OrderIndependent .empty lockRequest (lockRequest.getHash prims) (tenVotes 4).length
      (requestBetween requestNode 4 [] (List.range 10))
      (requestBetween requestNode 4 [0, 1] [2, 3, 4, 5, 6, 7, 8, 9]) := by
  have hValid₁ : (requestBetween requestNode 4 [] (List.range 10)).Valid lockRequest 4 prims
      .empty :=
    valid_requestBetween validRequest_requestNode accepts_requestNode (by decide) (by decide)
  have hValid₂ : (requestBetween requestNode 4 [0, 1] [2, 3, 4, 5, 6, 7, 8, 9]).Valid lockRequest
      4 prims .empty :=
    valid_requestBetween validRequest_requestNode accepts_requestNode (by decide) (by decide)
  refine (orderIndependent_iff unknown_lockRequest hValid₁ hValid₂ (perm_tenVotes (by decide))
    (perm_tenVotes (by decide))).mpr ⟨rfl, Or.inl ?_, fun _ => ⟨?_, ?_⟩⟩
  · decide +kernel
  · decide +kernel
  · decide +kernel

/-- Two orders of a request and all ten votes lead to different results. -/
structure OrderMatters (st : ChainState) (h : ℤ) (o₁ o₂ : VoteOrder) : Prop where
  request : (instantXContext st).ValidRequest .empty lockRequest h
  valid₁ : o₁.Valid lockRequest h prims .empty
  valid₂ : o₂.Valid lockRequest h prims .empty
  votes₁ : o₁.votes.Perm (tenVotes h)
  votes₂ : o₂.votes.Perm (tenVotes h)
  differs : ¬OrderIndependent .empty lockRequest (lockRequest.getHash prims)
    (tenVotes h).length o₁ o₂

/-- An order without a vote after the request locks nothing. -/
theorem not_independent_of_unlocked
    {st : ChainState} {h : ℤ} {before : List ℕ} {votes : ℕ} {o : VoteOrder}
    (hMany : INSTANTX_SIGNATURES_REQUIRED ≤ (votes : ℤ))
    (hValid : (requestBetween st h before []).Valid lockRequest h prims .empty) :
    ¬OrderIndependent .empty lockRequest (lockRequest.getHash prims) votes o
      (requestBetween st h before []) := by
  obtain ⟨u, hRun, -, hLocked⟩ := VoteOrder.outcome unknown_lockRequest hValid
  rintro ⟨_, u', -, hRun', -, -, hEnough⟩
  obtain rfl := Except.ok.inj (hRun.symm.trans hRun')
  obtain ⟨txin, hMem⟩ := List.exists_mem_of_ne_nil _ hValid.request.inputs
  have hCompletes := (lookup_of_lockedIf hLocked hMem rfl).mp (hEnough hMany txin hMem).2
  obtain ⟨k, hLate⟩ := hCompletes.late
  have hArrived : k ∈ arrivedHashes (requestBetween st h before []).after :=
    (Finset.mem_sdiff.mp hLate).1
  exact absurd hArrived (Finset.notMem_empty k)

/-- Ten votes before a request lock nothing, whether it is dropped, as one with a confirmed
input is, or accepted. -/
theorem tenVotesFirst_lock_nothing :
    (OrderMatters confirmedNode 5 (requestBetween confirmedNode 5 [] (List.range 10))
        (requestBetween confirmedNode 5 (List.range 10) [])) ∧
      OrderMatters requestNode 4 (requestBetween requestNode 4 [] (List.range 10))
        (requestBetween requestNode 4 (List.range 10) []) := by
  have hBelow : ∀ i ∈ List.range 10, i < 10 := fun i => List.mem_range.mp
  have hNone : ∀ i ∈ ([] : List ℕ), i < 10 := fun i hMem => absurd hMem List.not_mem_nil
  constructor
  · have hValid :=
      valid_requestBetween validRequest_confirmedNode accepts_confirmedNode hBelow hNone
    exact ⟨validRequest_confirmedNode,
      valid_requestBetween validRequest_confirmedNode accepts_confirmedNode hNone hBelow, hValid,
      perm_tenVotes (.refl _), perm_tenVotes (.of_eq (List.append_nil _)),
      not_independent_of_unlocked (by decide) hValid⟩
  · have hValid :=
      valid_requestBetween validRequest_requestNode accepts_requestNode hBelow hNone
    exact ⟨validRequest_requestNode,
      valid_requestBetween validRequest_requestNode accepts_requestNode hNone hBelow, hValid,
      perm_tenVotes (.refl _), perm_tenVotes (.of_eq (List.append_nil _)),
      not_independent_of_unlocked (by decide) hValid⟩

end Sample

end SocietyGold
