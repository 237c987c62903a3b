import SocietyGold.AcceptToMemoryPool
import SocietyGold.DarkSendSigner
import SocietyGold.MasternodeMan
import SocietyGold.Support.Trace

/-!
# InstantX

A transaction may be announced by a lock request.  Masternodes vote for it, and when enough
votes have arrived its inputs are locked: the memory pool and `CheckBlock` then refuse other
transactions that spend them.

The tables of this file are those of the source but for `mapUnknownVotes`, which only decides
about the relay of votes.  The memory pool and the masternode list change between messages, so
each message comes with its own.
-/

namespace SocietyGold

open Support

def INSTANTX_SIGNATURES_REQUIRED : ℤ := 10

def INSTANTX_SIGNATURES_TOTAL : ℤ := 15

def MIN_INSTANTX_PROTO_VERSION : ℤ := 10007

/-! ## Votes and locks -/

structure CConsensusVote where
  vinMasternode : CTxIn
  txHash : ℕ
  nBlockHeight : ℤ
  vchMasterNodeSignature : List UInt8
  deriving DecidableEq

/-- `uint256::ToString`: 64 hexadecimal digits. -/
def uint256ToString (hash : ℕ) : List UInt8 :=
  (toBytesLE 32 hash).reverse.flatMap fun b =>
    [UInt8.ofNat (Nat.digitChar (b.toNat / 16)).toNat,
      UInt8.ofNat (Nat.digitChar (b.toNat % 16)).toNat]

namespace CConsensusVote

variable (vote : CConsensusVote)

def getHash : ℕ :=
  (vote.vinMasternode.prevout.hash + vote.vinMasternode.prevout.n + vote.txHash) % 2 ^ 256

/-- The text that a vote signs. -/
def strMessage : List UInt8 := uint256ToString vote.txHash ++ lexicalCast vote.nBlockHeight

/-- `SignatureValid`. -/
def signatureValid (signer : CDarkSendSigner) (vMasternodes : List CMasternode) : Bool :=
  match (CMasternodeMan.findIdx vMasternodes vote.vinMasternode).bind (vMasternodes[·]?) with
  | none => false
  | some pmn =>
      (signer.verifyMessage pmn.pubkey2 vote.vchMasterNodeSignature vote.strMessage).1

end CConsensusVote

structure CTransactionLock where
  nBlockHeight : ℤ
  txHash : ℕ
  vecConsensusVotes : List CConsensusVote
  nExpiration : ℤ
  nTimeout : ℤ

namespace CTransactionLock

variable (lock : CTransactionLock)

/-- A lock that is made now: it expires after 20 minutes. -/
def new (time : ℤ) (nBlockHeight : ℤ) (txHash : ℕ) : CTransactionLock where
  nBlockHeight := nBlockHeight
  txHash := txHash
  vecConsensusVotes := []
  nExpiration := wrap32 (time + 20 * 60)
  nTimeout := wrap32 (time + 60 * 5)

def addSignature (cv : CConsensusVote) : CTransactionLock :=
  { lock with vecConsensusVotes := lock.vecConsensusVotes ++ [cv] }

/-- `CountSignatures`: the votes for the height of the lock, or -1 without a height. -/
def countSignatures : ℤ :=
  if lock.nBlockHeight = 0 then -1
  else (lock.vecConsensusVotes.countP fun v => v.nBlockHeight = lock.nBlockHeight : ℕ)

end CTransactionLock

/-! ## State and context -/

structure InstantXState where
  mapTxLockReq : Table ℕ CTransaction
  mapTxLockReqRejected : Table ℕ CTransaction
  mapTxLockVote : Table ℕ CConsensusVote
  mapTxLocks : Table ℕ CTransactionLock
  mapLockedInputs : Table COutPoint ℕ

def InstantXState.empty : InstantXState := ⟨∅, ∅, ∅, ∅, ∅⟩

/-- What a message finds when it arrives. -/
structure InstantXContext where
  env : MasternodeEnv
  st : ChainState
  vMasternodes : List CMasternode
  mapCacheBlockHashes : Table ℤ ℕ
  signer : CDarkSendSigner
  /-- The handler neither runs in lite mode, nor without the spork, nor before the chain is
  synchronised. -/
  enabled : Bool
  /-- `GetSporkValue(SPORK_5_MAX_VALUE)`. -/
  maxValue : ℤ
  fMasterNode : Bool
  /-- `activeMasternode.vin`. -/
  activeVin : CTxIn
  strMasterNodePrivKey : List UInt8
  /-- Whether `DisconnectBlock` survives the index pointer, which is not initialised. -/
  disconnects : Checked Unit

namespace InstantXContext

variable (ctx : InstantXContext)

/-- The memory pool is asked with the locks of the state. -/
def relayEnv (s : InstantXState) : RelayEnv :=
  { ctx.env.toRelayEnv with mapLockedInputs := s.mapLockedInputs.lookup }

/-- `GetMasternodeRank`, with the list after its checks. -/
def rank (vin : CTxIn) (nBlockHeight : ℤ) : Checked (List CMasternode × ℤ) := do
  let (vMasternodes, _, n) ← CMasternodeMan.getMasternodeRank ctx.env ctx.st ctx.vMasternodes
    ctx.mapCacheBlockHashes vin nBlockHeight MIN_INSTANTX_PROTO_VERSION true
  .ok (vMasternodes, n)

/-! ## Lock requests -/

/-- The sum of the inputs of a request as far as they are known, and whether all are. -/
def knownInputs (vin : List CTxIn) : ℤ × Bool :=
  vin.foldl (fun found i =>
    let tx2 := getTransaction ctx.env.toEnv ctx.st i.prevout.hash
      (CTransaction.null ctx.env.adjustedTime) 0
    if tx2.fFound then
      match tx2.tx.vout[i.prevout.n]? with
      | some txout => (wrap64 (found.1 + txout.nValue), found.2)
      | none => found
    else (found.1, true)) (0, false)

/-- `IsIXTXValid`: a request with unknown inputs is taken for valid. -/
def isIXTXValid (txCollateral : CTransaction) : Bool :=
  let nValueOut := txCollateral.vout.foldl (fun sum o => wrap64 (sum + o.nValue)) 0
  let (nValueIn, missingTx) := ctx.knownInputs txCollateral.vin
  if txCollateral.vout.length < 1 then false
  else if txCollateral.nLockTime ≠ 0 then false
  else if nValueOut > wrap64 (ctx.maxValue * COIN) then false
  else if missingTx then true
  else if wrap64 (nValueIn - nValueOut) < COIN / 100 then false
  else true

/-- The scripts a request may pay to. -/
def paysNormally (tx : CTransaction) : Bool :=
  tx.vout.all fun o => o.scriptPubKey.isNormalPaymentScript || o.scriptPubKey.isUnspendable

/-- The loop of `CreateNewLock`: the age of the last input it looks at, nothing if an input is
too new. -/
def inputAge : List CTxIn → (nTxAge : ℤ) → Checked (Option ℤ)
  | [], nTxAge => .ok (some nTxAge)
  | i :: rest, _ => do
      let nTxAge ← getInputAge ctx.env.toEnv ctx.st i
      if nTxAge < 9 then .ok none else inputAge rest nTxAge

/-- The height `CreateNewLock` finds for a request. -/
def lockHeight (tx : CTransaction) : Checked (Option ℤ) := do
  match ← ctx.inputAge tx.vin.reverse 0 with
  | none => .ok none
  | some nTxAge => do
      let pindexBest ← deref (ctx.st.entry ctx.st.pindexBest)
      .ok (some (wrap32 (pindexBest.nHeight - nTxAge + 4)))

/-- The vote of this node in `DoConsensusVote`, if it has one. -/
def ownVote (txHash : ℕ) (nBlockHeight : ℤ) : Checked (Option CConsensusVote) :=
  if !ctx.fMasterNode then .ok none
  else do
    let (vMasternodes, n) ← ctx.rank ctx.activeVin nBlockHeight
    if n = -1 then .ok none
    else if n > INSTANTX_SIGNATURES_TOTAL then .ok none
    else
      match ctx.signer.setKey ctx.strMasterNodePrivKey with
      | none => .ok none
      | some (key2, _) =>
          let vote : CConsensusVote := ⟨ctx.activeVin, txHash, nBlockHeight, []⟩
          let vote := { vote with
            vchMasterNodeSignature := (ctx.signer.signMessage vote.strMessage [] key2).2 }
          .ok (if vote.signatureValid ctx.signer vMasternodes then some vote else none)

/-- The tests of `ProcessConsensusVote` on a vote. -/
def acceptsVote (vote : CConsensusVote) : Checked Bool := do
  let (vMasternodes, n) ← ctx.rank vote.vinMasternode vote.nBlockHeight
  if n = -1 then .ok false
  else if n > INSTANTX_SIGNATURES_TOTAL then .ok false
  else .ok (vote.signatureValid ctx.signer vMasternodes)

end InstantXContext

/-! ## Updates of the tables -/

namespace InstantXState

variable (s : InstantXState)

/-- The table update of `CreateNewLock`. -/
def createLock (time : ℤ) (nBlockHeight : ℤ) (txHash : ℕ) : InstantXState :=
  { s with
    mapTxLocks :=
      match s.mapTxLocks.lookup txHash with
      | none => s.mapTxLocks.insert txHash (.new time nBlockHeight txHash)
      | some lock => s.mapTxLocks.insert txHash { lock with nBlockHeight := nBlockHeight } }

/-- Lock the inputs that are not locked yet. -/
def lockInputs (vin : List CTxIn) (txHash : ℕ) : InstantXState :=
  { s with
    mapLockedInputs := vin.foldl (fun locked txin => locked.touch txin.prevout txHash)
      s.mapLockedInputs }

/-- Add an accepted vote to its lock, which is made without a height if there is none. -/
def countVote (time : ℤ) (vote : CConsensusVote) : InstantXState :=
  { s with
    mapTxLocks := s.mapTxLocks.insert vote.txHash
      (((s.mapTxLocks.lookup vote.txHash).getD (.new time 0 vote.txHash)).addSignature vote) }

/-- The votes for a transaction. -/
def votesOf (txHash : ℕ) : List CConsensusVote :=
  (s.mapTxLocks.lookup txHash).elim [] CTransactionLock.vecConsensusVotes

/-- Remember a vote. -/
def remember (vote : CConsensusVote) : InstantXState :=
  { s with mapTxLockVote := s.mapTxLockVote.touch vote.getHash vote }

/-- Let a lock expire. -/
def expireLock (time : ℤ) (txHash : ℕ) : InstantXState :=
  match s.mapTxLocks.lookup txHash with
  | none => s
  | some lock =>
      { s with mapTxLocks := s.mapTxLocks.insert txHash { lock with nExpiration := wrap32 time } }

/-- The first other transaction for which an input is locked. -/
def conflictingLock (hash : ℕ) (vin : List CTxIn) : Option ℕ :=
  vin.findSome? fun txin =>
    (s.mapLockedInputs.lookup txin.prevout).filter (· ≠ hash)

/-- `CheckForConflictingLocks`: whether there is a conflict, and the state in which both locks
expire. -/
def checkForConflictingLocks (prims : Primitives) (time : ℤ) (tx : CTransaction) :
    Bool × InstantXState :=
  match s.conflictingLock (tx.getHash prims) tx.vin with
  | none => (false, s)
  | some other => (true, (s.expireLock time (tx.getHash prims)).expireLock time other)

/-- The steps of `CleanTransactionLocksList` for one lock. -/
def cleanLock (time : ℤ) (lock : ℕ × CTransactionLock) : InstantXState :=
  if time > lock.2.nExpiration then
    match s.mapTxLockReq.lookup lock.2.txHash with
    | none => { s with mapTxLocks := s.mapTxLocks.erase lock.1 }
    | some tx =>
        { mapTxLockReq := s.mapTxLockReq.erase lock.2.txHash
          mapTxLockReqRejected := s.mapTxLockReqRejected.erase lock.2.txHash
          mapTxLockVote := lock.2.vecConsensusVotes.foldl
            (fun votes v => votes.erase v.getHash) s.mapTxLockVote
          mapTxLocks := s.mapTxLocks.erase lock.1
          mapLockedInputs := tx.vin.foldl
            (fun locked txin => locked.erase txin.prevout) s.mapLockedInputs }
  else s

end InstantXState

/-! ## The handlers -/

namespace InstantXContext

variable (ctx : InstantXContext)

/-- `CreateNewLock`. -/
def createNewLock (tx : CTransaction) (s : InstantXState) : Checked (ℤ × InstantXState) := do
  match ← ctx.lockHeight tx with
  | none => .ok (0, s)
  | some nBlockHeight =>
      .ok (nBlockHeight, s.createLock ctx.env.time nBlockHeight (tx.getHash ctx.env.prims))

/-- `DoConsensusVote`. -/
def doConsensusVote (txHash : ℕ) (nBlockHeight : ℤ) (s : InstantXState) :
    Checked InstantXState := do
  match ← ctx.ownVote txHash nBlockHeight with
  | none => .ok s
  | some vote => .ok { s with mapTxLockVote := s.mapTxLockVote.insert vote.getHash vote }

/-- The steps of the `txlreq` handler for a request that the memory pool has accepted. -/
def acceptRequest (tx : CTransaction) (nBlockHeight : ℤ) (s : InstantXState) :
    Checked InstantXState := do
  let hash := tx.getHash ctx.env.prims
  let s ← ctx.doConsensusVote hash nBlockHeight s
  .ok { s with mapTxLockReq := s.mapTxLockReq.touch hash tx }

/-- A rejected request is remembered and its inputs are locked, votes or no votes. -/
def rejectedState (tx : CTransaction) (s : InstantXState) : InstantXState :=
  let hash := tx.getHash ctx.env.prims
  InstantXState.lockInputs
    { s with mapTxLockReqRejected := s.mapTxLockReqRejected.touch hash tx } tx.vin hash

/-- The steps for a request that the memory pool has rejected. -/
def rejectRequest (tx : CTransaction) (s : InstantXState) : Checked InstantXState :=
  let hash := tx.getHash ctx.env.prims
  let s := ctx.rejectedState tx s
  match s.mapTxLocks.lookup hash with
  | none => .ok s
  | some lock =>
      if lock.countSignatures ≥ INSTANTX_SIGNATURES_REQUIRED then
        let (conflict, s) := s.checkForConflictingLocks ctx.env.prims ctx.env.time tx
        if conflict then .ok s
        else do
          let _ ← ctx.disconnects
          .ok s
      else .ok s

/-- The `txlreq` handler. -/
def processTxlreq (tx : CTransaction) (s : InstantXState) : Checked InstantXState :=
  let hash := tx.getHash ctx.env.prims
  if hash ∈ s.mapTxLockReq ∨ hash ∈ s.mapTxLockReqRejected then .ok s
  else if !ctx.isIXTXValid tx then .ok s
  else if !paysNormally tx then .ok s
  else do
    let (nBlockHeight, s) ← ctx.createNewLock tx s
    let r ← acceptToMemoryPool (ctx.relayEnv s) ctx.st tx true false false
    if r.accepted then ctx.acceptRequest tx nBlockHeight s else ctx.rejectRequest tx s

/-- Looking up a request that is not there makes an empty one. -/
def withRequest (txHash : ℕ) (s : InstantXState) : InstantXState :=
  { s with
    mapTxLockReq := s.mapTxLockReq.touch txHash (CTransaction.null ctx.env.adjustedTime) }

/-- The request for a transaction. -/
def requestOf (txHash : ℕ) (s : InstantXState) : CTransaction :=
  (s.mapTxLockReq.lookup txHash).getD (CTransaction.null ctx.env.adjustedTime)

/-- The steps of `ProcessConsensusVote` once the vote is counted: a complete lock locks the
inputs of its request. -/
def completeLock (vote : CConsensusVote) (lock : CTransactionLock) (s : InstantXState) :
    Checked InstantXState :=
  if lock.countSignatures ≥ INSTANTX_SIGNATURES_REQUIRED then
    let s := ctx.withRequest vote.txHash s
    let tx := ctx.requestOf vote.txHash s
    let (conflict, s) := s.checkForConflictingLocks ctx.env.prims ctx.env.time tx
    if conflict then .ok s
    else
      let s := s.lockInputs tx.vin vote.txHash
      if lock.txHash ∈ s.mapTxLockReqRejected then do
        let _ ← ctx.disconnects
        .ok s
      else .ok s
  else .ok s

/-- `ProcessConsensusVote`. -/
def processConsensusVote (vote : CConsensusVote) (s : InstantXState) :
    Checked (Bool × InstantXState) := do
  let accepted ← ctx.acceptsVote vote
  if !accepted then .ok (false, s)
  else
    let s := s.countVote ctx.env.time vote
    match s.mapTxLocks.lookup vote.txHash with
    | none => .ok (false, s)
    | some lock => do
        let s ← ctx.completeLock vote lock s
        .ok (true, s)

/-- The `txlvote` handler.  A vote is remembered before it is tested. -/
def processTxlvote (vote : CConsensusVote) (s : InstantXState) : Checked InstantXState :=
  if vote.getHash ∈ s.mapTxLockVote then .ok s
  else do
    let (_, s) ← ctx.processConsensusVote vote (s.remember vote)
    .ok s

/-- `CleanTransactionLocksList`. -/
def cleanTransactionLocksList (s : InstantXState) : InstantXState :=
  match ctx.st.entry ctx.st.pindexBest with
  | none => s
  | some _ => s.mapTxLocks.inKeyOrder.foldl (fun s lock => s.cleanLock ctx.env.time lock) s

end InstantXContext

/-- What happens to the tables. -/
inductive InstantXEvent
  | txlreq (tx : CTransaction)
  | txlvote (vote : CConsensusVote)
  | clean

/-- One event, with the context in which it happens. -/
def instantXStep (event : InstantXContext × InstantXEvent) (s : InstantXState) :
    Checked InstantXState :=
  let ctx := event.1
  match event.2 with
  | .txlreq tx => if ctx.enabled then ctx.processTxlreq tx s else .ok s
  | .txlvote vote => if ctx.enabled then ctx.processTxlvote vote s else .ok s
  | .clean => .ok (ctx.cleanTransactionLocksList s)

/-! ## Lookups after an update -/

namespace InstantXState

variable {s : InstantXState}

theorem lookup_lockInputs (vin : List CTxIn) (txHash : ℕ) (prevout : COutPoint) :
    (s.lockInputs vin txHash).mapLockedInputs.lookup prevout =
      (s.mapLockedInputs.lookup prevout).or
        (if prevout ∈ vin.map CTxIn.prevout then some txHash else none) := by
  unfold lockInputs
  rw [Table.lookup_foldl_touch CTxIn.prevout (fun _ => txHash)]
  congr 1
  cases hFind : vin.find? fun txin => txin.prevout = prevout with
  | none =>
      rw [if_neg]
      · rfl
      · intro hMem
        obtain ⟨txin, hTxin, hPrevout⟩ := List.mem_map.mp hMem
        exact absurd hPrevout (by simpa using List.find?_eq_none.mp hFind txin hTxin)
  | some txin =>
      have hPrevout : txin.prevout = prevout := by simpa using List.find?_some hFind
      rw [if_pos (List.mem_map.mpr ⟨txin, List.mem_of_find?_eq_some hFind, hPrevout⟩)]
      rfl

theorem lookup_createLock (time nBlockHeight : ℤ) (txHash hash : ℕ) :
    (s.createLock time nBlockHeight txHash).mapTxLocks.lookup hash =
      if hash = txHash then
        some ((s.mapTxLocks.lookup txHash).elim (.new time nBlockHeight txHash) fun lock =>
          { lock with nBlockHeight := nBlockHeight })
      else s.mapTxLocks.lookup hash := by
  unfold createLock
  cases s.mapTxLocks.lookup txHash <;> exact Table.lookup_insert_ite _ _ _ _

theorem lookup_countVote (time : ℤ) (vote : CConsensusVote) (hash : ℕ) :
    (s.countVote time vote).mapTxLocks.lookup hash =
      if hash = vote.txHash then
        some (((s.mapTxLocks.lookup vote.txHash).getD
          (.new time 0 vote.txHash)).addSignature vote)
      else s.mapTxLocks.lookup hash :=
  Table.lookup_insert_ite _ _ _ _

theorem lookup_expireLock (time : ℤ) (txHash hash : ℕ) :
    (s.expireLock time txHash).mapTxLocks.lookup hash =
      (s.mapTxLocks.lookup hash).map fun lock =>
        if hash = txHash then { lock with nExpiration := wrap32 time } else lock := by
  unfold expireLock
  cases hLock : s.mapTxLocks.lookup txHash with
  | none =>
      by_cases hHash : hash = txHash
      · rw [hHash, hLock, Option.map_none]
      · simp [hHash]
  | some lock =>
      dsimp only
      rw [Table.lookup_insert_ite]
      by_cases hHash : hash = txHash
      · rw [if_pos hHash, hHash, hLock, Option.map_some, if_pos rfl]
      · simp [hHash]

@[simp] theorem votesOf_createLock (time nBlockHeight : ℤ) (txHash hash : ℕ) :
    (s.createLock time nBlockHeight txHash).votesOf hash = s.votesOf hash := by
  unfold votesOf
  rw [lookup_createLock]
  split_ifs with hHash
  · rw [hHash]
    cases s.mapTxLocks.lookup txHash <;> rfl
  · rfl

theorem votesOf_countVote (time : ℤ) (vote : CConsensusVote) (hash : ℕ) :
    (s.countVote time vote).votesOf hash =
      if hash = vote.txHash then s.votesOf hash ++ [vote] else s.votesOf hash := by
  unfold votesOf
  rw [lookup_countVote]
  split_ifs with hHash
  · rw [hHash]
    cases s.mapTxLocks.lookup vote.txHash <;> rfl
  · rfl

@[simp] theorem votesOf_expireLock (time : ℤ) (txHash hash : ℕ) :
    (s.expireLock time txHash).votesOf hash = s.votesOf hash := by
  unfold votesOf
  rw [lookup_expireLock]
  cases s.mapTxLocks.lookup hash with
  | none => rfl
  | some lock =>
      rw [Option.map_some]
      split_ifs <;> rfl

/-- Letting a lock expire changes nothing else. -/
theorem expireLock_eq (time : ℤ) (txHash : ℕ) :
    s.expireLock time txHash =
      { s with mapTxLocks := (s.expireLock time txHash).mapTxLocks } := by
  unfold expireLock
  cases s.mapTxLocks.lookup txHash <;> rfl

theorem votesOf_eraseLock {s' : InstantXState} {txHash : ℕ}
    (h : s'.mapTxLocks = s.mapTxLocks.erase txHash) (hash : ℕ) :
    s'.votesOf hash = if hash = txHash then [] else s.votesOf hash := by
  unfold votesOf
  rw [h, Table.lookup_erase_ite]
  split_ifs <;> rfl

/-- Removing one lock leaves the others. -/
theorem lookup_cleanLock_of_ne
    {time : ℤ} {lock : ℕ × CTransactionLock} {hash : ℕ} (h : hash ≠ lock.1) :
    (s.cleanLock time lock).mapTxLocks.lookup hash = s.mapTxLocks.lookup hash := by
  unfold cleanLock
  split_ifs
  · cases s.mapTxLockReq.lookup lock.2.txHash with
    | none => exact AList.lookup_erase_ne h
    | some tx => exact AList.lookup_erase_ne h
  · rfl

theorem conflictingLock_eq_none {hash : ℕ} {vin : List CTxIn} :
    s.conflictingLock hash vin = none ↔
      ∀ txin ∈ vin, ∀ other, s.mapLockedInputs.lookup txin.prevout = some other →
        other = hash := by
  simp [conflictingLock, Option.filter_eq_none_iff]

end InstantXState

/-! ## What the handlers do -/

namespace InstantXContext

section Cases

variable {ctx : InstantXContext} {s s' : InstantXState} {tx : CTransaction}
  {vote : CConsensusVote}

theorem createNewLock_cases {nBlockHeight : ℤ}
    (h : ctx.createNewLock tx s = .ok (nBlockHeight, s')) :
    (nBlockHeight = 0 ∧ s' = s) ∨
      (ctx.lockHeight tx = .ok (some nBlockHeight) ∧
        s' = s.createLock ctx.env.time nBlockHeight (tx.getHash ctx.env.prims)) := by
  unfold createNewLock at h
  obtain ⟨found, hHeight, h⟩ := bind_eq_ok.mp h
  cases found with
  | none =>
      simp only [Except.ok.injEq, Prod.mk.injEq] at h
      exact Or.inl ⟨h.1.symm, h.2.symm⟩
  | some height =>
      simp only [Except.ok.injEq, Prod.mk.injEq] at h
      obtain ⟨rfl, rfl⟩ := h
      exact Or.inr ⟨hHeight, rfl⟩

/-- The votes known once this node has voted. -/
def withOwnVote (own : Option CConsensusVote) (votes : Table ℕ CConsensusVote) :
    Table ℕ CConsensusVote :=
  own.elim votes fun vote => votes.insert vote.getHash vote

/-- What every removal of a lock preserves, `CleanTransactionLocksList` preserves. -/
theorem cleanTransactionLocksList_invariant
    {I : InstantXState → Prop}
    (hStep : ∀ u lock, I u → u.mapTxLocks.lookup lock.1 = some lock.2 →
      I (u.cleanLock ctx.env.time lock))
    (hStart : I s) : I (ctx.cleanTransactionLocksList s) := by
  unfold cleanTransactionLocksList
  cases ctx.st.entry ctx.st.pindexBest with
  | none => exact hStart
  | some pindexBest =>
      have hAll : ∀ locks : List (ℕ × CTransactionLock), (locks.map Prod.fst).Nodup →
          ∀ u, I u → (∀ lock ∈ locks, u.mapTxLocks.lookup lock.1 = some lock.2) →
            I (locks.foldl (fun u lock => u.cleanLock ctx.env.time lock) u) := by
        intro locks
        induction locks with
        | nil =>
            intro _ u hInv _
            exact hInv
        | cons lock locks ih =>
            intro hNodup u hInv hLookup
            rw [List.map_cons, List.nodup_cons] at hNodup
            refine ih hNodup.2 _ (hStep u lock hInv (hLookup lock (by simp))) ?_
            intro other hMem
            rw [InstantXState.lookup_cleanLock_of_ne, hLookup other (by simp [hMem])]
            intro hSame
            exact hNodup.1 (hSame ▸ List.mem_map_of_mem hMem)
      exact hAll _ s.mapTxLocks.nodup_keys_inKeyOrder s hStart fun lock hMem =>
        Table.mem_inKeyOrder.mp hMem

theorem mem_withOwnVote {own : Option CConsensusVote} {votes : Table ℕ CConsensusVote} {k : ℕ} :
    k ∈ withOwnVote own votes ↔ k ∈ votes ∨ k ∈ own.map CConsensusVote.getHash := by
  cases own with
  | none => simp [withOwnVote]
  | some vote =>
      simp only [withOwnVote, Option.elim_some, AList.mem_insert, Option.map_some,
        Option.mem_some]
      rw [or_comm, eq_comm]

/-- An accepted request is remembered, and so is the vote of this node. -/
theorem acceptRequest_cases {nBlockHeight : ℤ}
    (h : ctx.acceptRequest tx nBlockHeight s = .ok s') :
    ∃ own, ctx.ownVote (tx.getHash ctx.env.prims) nBlockHeight = .ok own ∧
      s' = { s with
        mapTxLockReq := s.mapTxLockReq.touch (tx.getHash ctx.env.prims) tx
        mapTxLockVote := withOwnVote own s.mapTxLockVote } := by
  unfold acceptRequest doConsensusVote at h
  obtain ⟨s₁, hVote, h⟩ := bind_eq_ok.mp h
  obtain ⟨own, hOwn, hVote⟩ := bind_eq_ok.mp hVote
  refine ⟨own, hOwn, ?_⟩
  cases own with
  | none =>
      rw [← Except.ok.inj h, ← Except.ok.inj hVote]
      rfl
  | some vote =>
      rw [← Except.ok.inj h, ← Except.ok.inj hVote]
      rfl

theorem acceptRequest_eq_ok {own : Option CConsensusVote} {nBlockHeight : ℤ}
    (h : ctx.ownVote (tx.getHash ctx.env.prims) nBlockHeight = .ok own) :
    ctx.acceptRequest tx nBlockHeight s = .ok { s with
      mapTxLockReq := s.mapTxLockReq.touch (tx.getHash ctx.env.prims) tx
      mapTxLockVote := withOwnVote own s.mapTxLockVote } := by
  unfold acceptRequest doConsensusVote
  dsimp only
  rw [h]
  cases own <;> rfl

theorem checkForConflictingLocks_cases
    {prims : Primitives} {time : ℤ} {conflict : Bool}
    (h : s.checkForConflictingLocks prims time tx = (conflict, s')) :
    (conflict = false ∧ s.conflictingLock (tx.getHash prims) tx.vin = none ∧ s' = s) ∨
      (conflict = true ∧ ∃ other,
        s' = (s.expireLock time (tx.getHash prims)).expireLock time other) := by
  unfold InstantXState.checkForConflictingLocks at h
  cases hOther : s.conflictingLock (tx.getHash prims) tx.vin with
  | none =>
      simp only [hOther, Prod.mk.injEq] at h
      exact Or.inl ⟨h.1.symm, rfl, h.2.symm⟩
  | some other =>
      simp only [hOther, Prod.mk.injEq] at h
      exact Or.inr ⟨h.1.symm, other, h.2.symm⟩

theorem rejectRequest_cases (h : ctx.rejectRequest tx s = .ok s') :
    s' = ctx.rejectedState tx s ∨ ∃ hash other,
      s' = ((ctx.rejectedState tx s).expireLock ctx.env.time hash).expireLock
        ctx.env.time other := by
  unfold rejectRequest at h
  dsimp only at h
  generalize ctx.rejectedState tx s = base at h ⊢
  cases hLock : base.mapTxLocks.lookup (tx.getHash ctx.env.prims) with
  | none =>
      simp only [hLock, Except.ok.injEq] at h
      exact Or.inl h.symm
  | some lock =>
      simp only [hLock] at h
      by_cases hComplete : lock.countSignatures ≥ INSTANTX_SIGNATURES_REQUIRED
      · rw [if_pos hComplete] at h
        rcases hCheck : base.checkForConflictingLocks ctx.env.prims ctx.env.time tx with
          ⟨conflict, s₁⟩
        rw [hCheck] at h
        rcases checkForConflictingLocks_cases hCheck with ⟨rfl, -, rfl⟩ | ⟨rfl, other, rfl⟩
        · simp only [Bool.false_eq_true, if_false] at h
          obtain ⟨-, -, h⟩ := bind_eq_ok.mp h
          exact Or.inl (Except.ok.inj h).symm
        · simp only [if_true, Except.ok.injEq] at h
          exact Or.inr ⟨_, other, h.symm⟩
      · rw [if_neg hComplete] at h
        exact Or.inl (Except.ok.inj h).symm

theorem mapTxLockVote_of_rejectRequest (h : ctx.rejectRequest tx s = .ok s') :
    s'.mapTxLockVote = s.mapTxLockVote := by
  rcases rejectRequest_cases h with rfl | ⟨hash, other, rfl⟩
  · rfl
  · rw [InstantXState.expireLock_eq, InstantXState.expireLock_eq]
    rfl

/-- A request that is not dropped is given a lock, unless its inputs are too new, and then
accepted or rejected. -/
theorem processTxlreq_cases (h : ctx.processTxlreq tx s = .ok s') :
    s' = s ∨
      (tx.getHash ctx.env.prims ∉ s.mapTxLockReq ∧
        tx.getHash ctx.env.prims ∉ s.mapTxLockReqRejected ∧
        ctx.isIXTXValid tx = true ∧ paysNormally tx = true ∧
        ∃ nBlockHeight s₁ r, ctx.createNewLock tx s = .ok (nBlockHeight, s₁) ∧
          acceptToMemoryPool (ctx.relayEnv s₁) ctx.st tx true false false = .ok r ∧
          ((r.accepted = true ∧ ctx.acceptRequest tx nBlockHeight s₁ = .ok s') ∨
            (r.accepted = false ∧ ctx.rejectRequest tx s₁ = .ok s'))) := by
  unfold processTxlreq at h
  dsimp only at h
  by_cases hKnown : tx.getHash ctx.env.prims ∈ s.mapTxLockReq ∨
      tx.getHash ctx.env.prims ∈ s.mapTxLockReqRejected
  · rw [if_pos hKnown] at h
    exact Or.inl (Except.ok.inj h).symm
  · rw [if_neg hKnown] at h
    rw [not_or] at hKnown
    cases hValid : ctx.isIXTXValid tx with
    | false =>
        simp only [hValid, Bool.not_false, if_true] at h
        exact Or.inl (Except.ok.inj h).symm
    | true =>
        cases hScripts : paysNormally tx with
        | false =>
            simp only [hValid, hScripts, Bool.not_false, Bool.not_true, Bool.false_eq_true,
              if_true, if_false] at h
            exact Or.inl (Except.ok.inj h).symm
        | true =>
            simp only [hValid, hScripts, Bool.not_true, Bool.false_eq_true, if_false] at h
            obtain ⟨⟨nBlockHeight, s₁⟩, hCreate, h⟩ := bind_eq_ok.mp h
            obtain ⟨r, hAccept, h⟩ := bind_eq_ok.mp h
            refine Or.inr ⟨hKnown.1, hKnown.2, rfl, rfl, nBlockHeight, s₁, r, hCreate,
              hAccept, ?_⟩
            cases hAccepted : r.accepted with
            | true =>
                rw [hAccepted, if_pos rfl] at h
                exact Or.inl ⟨rfl, h⟩
            | false =>
                rw [hAccepted, if_neg Bool.false_ne_true] at h
                exact Or.inr ⟨rfl, h⟩

theorem lookup_withRequest (ctx : InstantXContext) (txHash : ℕ) (s : InstantXState) :
    ((ctx.withRequest txHash s).mapTxLockReq.lookup txHash) =
      some (ctx.requestOf txHash s) := by
  unfold withRequest requestOf
  rw [Table.lookup_touch, if_pos rfl]
  cases s.mapTxLockReq.lookup txHash <;> rfl

theorem requestOf_withRequest (ctx : InstantXContext) (txHash : ℕ) (s : InstantXState) :
    ctx.requestOf txHash (ctx.withRequest txHash s) = ctx.requestOf txHash s := by
  rw [requestOf, lookup_withRequest, Option.getD_some]

/-- An incomplete lock locks nothing, and a complete one locks the inputs of its request if
none is locked for another transaction. -/
theorem completeLock_cases {lock : CTransactionLock}
    (h : ctx.completeLock vote lock s = .ok s') :
    (lock.countSignatures < INSTANTX_SIGNATURES_REQUIRED ∧ s' = s) ∨
      (INSTANTX_SIGNATURES_REQUIRED ≤ lock.countSignatures ∧
        ((∃ hash other,
            s' = ((ctx.withRequest vote.txHash s).expireLock ctx.env.time hash).expireLock
              ctx.env.time other) ∨
          s' = (ctx.withRequest vote.txHash s).lockInputs (ctx.requestOf vote.txHash s).vin
            vote.txHash)) := by
  unfold completeLock at h
  dsimp only at h
  by_cases hComplete : lock.countSignatures ≥ INSTANTX_SIGNATURES_REQUIRED
  · refine Or.inr ⟨hComplete, ?_⟩
    rw [if_pos hComplete, requestOf_withRequest] at h
    rcases hCheck : (ctx.withRequest vote.txHash s).checkForConflictingLocks ctx.env.prims
      ctx.env.time (ctx.requestOf vote.txHash s) with ⟨conflict, s₁⟩
    rw [hCheck] at h
    rcases checkForConflictingLocks_cases hCheck with ⟨rfl, -, rfl⟩ | ⟨rfl, other, rfl⟩
    · refine Or.inr ?_
      simp only [Bool.false_eq_true, if_false] at h
      split_ifs at h
      · obtain ⟨-, -, h⟩ := bind_eq_ok.mp h
        exact (Except.ok.inj h).symm
      · exact (Except.ok.inj h).symm
    · simp only [if_true, Except.ok.injEq] at h
      exact Or.inl ⟨_, other, h.symm⟩
  · rw [if_neg hComplete] at h
    exact Or.inl ⟨not_le.mp hComplete, (Except.ok.inj h).symm⟩

theorem mapTxLockVote_of_completeLock {lock : CTransactionLock}
    (h : ctx.completeLock vote lock s = .ok s') : s'.mapTxLockVote = s.mapTxLockVote := by
  rcases completeLock_cases h with ⟨-, rfl⟩ | ⟨-, ⟨hash, other, rfl⟩ | rfl⟩
  · rfl
  · rw [InstantXState.expireLock_eq, InstantXState.expireLock_eq]
    rfl
  · rfl

/-- The lock of a vote, with the vote. -/
def lockWithVote (ctx : InstantXContext) (vote : CConsensusVote) (s : InstantXState) :
    CTransactionLock :=
  ((s.mapTxLocks.lookup vote.txHash).getD (.new ctx.env.time 0 vote.txHash)).addSignature vote

/-- A vote whose hash is known is dropped.  Another one is remembered, and counted if it is
accepted. -/
theorem processTxlvote_cases (h : ctx.processTxlvote vote s = .ok s') :
    (vote.getHash ∈ s.mapTxLockVote ∧ s' = s) ∨
      (vote.getHash ∉ s.mapTxLockVote ∧
        ((ctx.acceptsVote vote = .ok false ∧ s' = s.remember vote) ∨
          (ctx.acceptsVote vote = .ok true ∧
            ctx.completeLock vote (ctx.lockWithVote vote s)
              ((s.remember vote).countVote ctx.env.time vote) = .ok s'))) := by
  unfold processTxlvote at h
  dsimp only at h
  by_cases hKnown : vote.getHash ∈ s.mapTxLockVote
  · rw [if_pos hKnown] at h
    exact Or.inl ⟨hKnown, (Except.ok.inj h).symm⟩
  · refine Or.inr ⟨hKnown, ?_⟩
    rw [if_neg hKnown] at h
    obtain ⟨⟨done, s₁⟩, hProcess, h⟩ := bind_eq_ok.mp h
    unfold processConsensusVote at hProcess
    obtain ⟨accepted, hAccepts, hProcess⟩ := bind_eq_ok.mp hProcess
    cases accepted with
    | false =>
        simp only [Bool.not_false, if_true, Except.ok.injEq, Prod.mk.injEq] at hProcess
        rw [← hProcess.2] at h
        exact Or.inl ⟨hAccepts, (Except.ok.inj h).symm⟩
    | true =>
        simp only [Bool.not_true, Bool.false_eq_true, if_false,
          InstantXState.lookup_countVote, if_true] at hProcess
        obtain ⟨s₂, hComplete, hProcess⟩ := bind_eq_ok.mp hProcess
        simp only [Except.ok.injEq, Prod.mk.injEq] at hProcess
        have hSame : s₁ = s' := Except.ok.inj h
        rw [hProcess.2, hSame] at hComplete
        exact Or.inr ⟨hAccepts, hComplete⟩

theorem processTxlvote_eq_ok
    (hNew : vote.getHash ∉ s.mapTxLockVote) (hAccepts : ctx.acceptsVote vote = .ok true)
    (hComplete : ctx.completeLock vote (ctx.lockWithVote vote s)
      ((s.remember vote).countVote ctx.env.time vote) = .ok s') :
    ctx.processTxlvote vote s = .ok s' := by
  have hLock : ((s.remember vote).countVote ctx.env.time vote).mapTxLocks.lookup vote.txHash =
      some (ctx.lockWithVote vote s) := by
    rw [InstantXState.lookup_countVote, if_pos rfl]
    rfl
  unfold processTxlvote processConsensusVote
  rw [if_neg hNew, hAccepts]
  simp only [ok_bind, Bool.not_true, Bool.false_eq_true, if_false, hLock, hComplete]

end Cases

end InstantXContext

/-! ## Ten masternodes and a request -/

namespace Sample

/-- A script that pays to a key hash. -/
def normalScript : CScript :=
  [OP_DUP, OP_HASH160, 20] ++ List.replicate 20 0 ++ [OP_EQUALVERIFY, OP_CHECKSIG]

def fundingPayment : CTransaction where
  nVersion := 1
  nTime := 700
  vin := [⟨⟨7, 0⟩, [], UINT_MAX⟩]
  vout := [⟨2 * COIN, [0x51]⟩]
  nLockTime := 0

/-- It spends the funding payment and leaves a fee of one coin. -/
def lockRequest : CTransaction where
  nVersion := 1
  nTime := 800
  vin := [⟨⟨fundingPayment.getHash prims, 0⟩, [], UINT_MAX⟩]
  vout := [⟨COIN, normalScript⟩]
  nLockTime := 0

def voter (i : ℕ) : CMasternode :=
  { masternodeSeen 900 true with
    vin := ⟨⟨100 + i, 0⟩, [], UINT_MAX⟩
    pubkey2 := CPubKey.ofBytes (compressedKey (UInt8.ofNat i)) }

/-- A signature names its key and repeats the hash. -/
def voteSigner : CDarkSendSigner where
  prims := (masternodeEnv 900).scriptPrims
  recoverCompact hash vchSig :=
    match vchSig with
    | [] => none
    | k :: rest =>
        if rest = toBytesLE 32 hash then some (CPubKey.ofBytes (compressedKey k)) else none
  signCompact key hash := some (key ++ toBytesLE 32 hash)
  setKey _ := none

def unsignedVote (i : ℕ) (nBlockHeight : ℤ) : CConsensusVote :=
  ⟨(voter i).vin, lockRequest.getHash prims, nBlockHeight, []⟩

def signedVote (i : ℕ) (nBlockHeight : ℤ) : CConsensusVote :=
  { unsignedVote i nBlockHeight with
    vchMasterNodeSignature := UInt8.ofNat i ::
      toBytesLE 32 (voteSigner.messageHash (unsignedVote i nBlockHeight).strMessage) }

/-- The masternodes are known, and so are the hashes for two heights. -/
def instantXContext (st : ChainState) : InstantXContext where
  env := { masternodeEnv 900 with mapDarksendBroadcastTxes := {lockRequest.getHash prims} }
  st := st
  vMasternodes := (List.range 10).map voter
  mapCacheBlockHashes := ((∅ : Table ℤ ℕ).insert 4 503).insert 5 504
  signer := voteSigner
  enabled := true
  maxValue := 1000
  fMasterNode := false
  activeVin := ⟨COutPoint.null, [], UINT_MAX⟩
  strMasterNodePrivKey := []
  disconnects := .ok ()

/-- A node whose genesis block lies ten blocks below the tip.  The funding payment is in the
database and still in the memory pool. -/
def requestNode : ChainState :=
  { nodeWith [(fundingPayment.getHash prims, CTxIndex.unspent ⟨1, 8, 88⟩ 1)] with
    mapBlockIndex := ((∅ : Table ℕ CBlockIndex).insert 500 tipEntry).insert 0
      { tipEntry with phashBlock := 0, nHeight := 0 }
    mempool := emptyPool.addUnchecked (fundingPayment.getHash prims) fundingPayment }

end Sample

end SocietyGold
