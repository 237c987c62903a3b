import SocietyGold.TipChange
import SocietyGold.Support.Descendants

/-!
# Loading the block index

`CTxDB::LoadBlockIndex` makes entries from the records of the database, with those
entries that the records only name.  The trust of a chain is in no record; it is
computed in a pass over the entries by height, in which a block comes after its
previous block.  When memory and database are in step, what is loaded is what was
in memory.

After that the function verifies blocks on disk, which changes no entry, since
`SetBestChain` refuses a block that does not extend the tip.
-/

namespace SocietyGold

open Support

/-! ## The function -/

/-- The constructor without arguments; the pointer to the hash is set by the caller. -/
def CBlockIndex.new (hash : ℕ) : CBlockIndex where
  phashBlock := hash
  pprev := none
  pnext := none
  nFile := 0
  nBlockPos := 0
  nChainTrust := 0
  nHeight := 0
  nMint := 0
  nMoneySupply := 0
  nLastReward := 0
  nFlags := 0
  nStakeModifier := 0
  prevoutStake := COutPoint.null
  nStakeTime := 0
  hashProof := 0
  nVersion := 0
  hashMerkleRoot := 0
  nTime := 0
  nBits := 0
  nNonce := 0

/-- `InsertBlockIndex`: the entry of a hash, which is created if need be; no entry
for zero. -/
def insertBlockIndex (mapBlockIndex : Table ℕ CBlockIndex) (hash : ℕ) :
    Option ℕ × Table ℕ CBlockIndex :=
  if hash = 0 then (none, mapBlockIndex)
  else (some hash, mapBlockIndex.touch hash (CBlockIndex.new hash))

/-- The assignments of a round of the scan. -/
def CBlockIndex.fillIn (pindexNew : CBlockIndex) (diskindex : CDiskBlockIndex)
    (pprev pnext : Option ℕ) : CBlockIndex :=
  { pindexNew with
    pprev := pprev
    pnext := pnext
    nFile := diskindex.nFile
    nBlockPos := diskindex.nBlockPos
    nHeight := diskindex.nHeight
    nMint := diskindex.nMint
    nMoneySupply := diskindex.nMoneySupply
    nLastReward := diskindex.nLastReward
    nFlags := diskindex.nFlags
    nStakeModifier := diskindex.nStakeModifier
    prevoutStake := diskindex.prevoutStake
    nStakeTime := diskindex.nStakeTime
    hashProof := diskindex.hashProof
    nVersion := diskindex.header.nVersion
    hashMerkleRoot := diskindex.header.hashMerkleRoot
    nTime := diskindex.header.nTime
    nBits := diskindex.header.nBits
    nNonce := diskindex.header.nNonce }

/-- A round of the scan over the records. -/
def loadRecord (env : Env) (st : ChainState) (diskindex : CDiskBlockIndex) :
    Checked ChainState := do
  let blockHash := diskindex.getBlockHash env.prims
  let inserted := insertBlockIndex st.mapBlockIndex blockHash
  let prev := insertBlockIndex inserted.2 diskindex.header.hashPrevBlock
  let next := insertBlockIndex prev.2 diskindex.hashNext
  let pindexNew ← deref inserted.1
  let st := { st with mapBlockIndex := next.2 }.updateEntry pindexNew
    fun pindexNew => pindexNew.fillIn diskindex prev.1 next.1
  .ok { st with
    -- watch for the genesis block
    pindexGenesisBlock :=
      if st.pindexGenesisBlock = none ∧ blockHash = env.hashGenesisBlock then some pindexNew
      else st.pindexGenesisBlock
    setStakeSeen :=
      if diskindex.nFlags.testBit BLOCK_PROOF_OF_STAKE then
        insert (diskindex.prevoutStake, diskindex.nStakeTime) st.setStakeSeen
      else st.setStakeSeen }

/-- A record of a block index entry, with its hash. -/
def blockIndexRecord : (_ : DbKey) × DbValue → Option (ℕ × CDiskBlockIndex)
  | ⟨.blockindex hash, .diskindex diskindex⟩ => some (hash, diskindex)
  | _ => none

/-- The records of the block index, in the order of the bytes of their keys. -/
def blockIndexRecords (disk : Table DbKey DbValue) : List CDiskBlockIndex :=
  ((disk.entries.filterMap blockIndexRecord).insertionSort fun a b =>
    fromBytesLE (toBytesLE 32 a.1).reverse ≤ fromBytesLE (toBytesLE 32 b.1).reverse).map Prod.snd

/-- The order of pairs of a height and a pointer, which is compared as a number.  The hash that
the pointer stands for comes third. -/
def HeightOrder (a b : ℤ × ℕ × ℕ) : Prop := toLex (a.1, a.2.1) ≤ toLex (b.1, b.2.1)

instance : DecidableRel HeightOrder := fun _ _ => inferInstanceAs (Decidable (_ ≤ _))

/-- `vSortedByHeight`. -/
def sortedByHeight (address : ℕ → ℕ) (mapBlockIndex : Table ℕ CBlockIndex) : List ℕ :=
  ((mapBlockIndex.entries.map fun e => (e.2.nHeight, address e.1, e.1)).insertionSort
    HeightOrder).map fun item => item.2.2

/-- A round of the pass that computes the trust of the chains. -/
def addTrust (st : ChainState) (hash : ℕ) : ChainState :=
  st.updateEntry hash fun pindex =>
    { pindex with
      nChainTrust := (((st.entry pindex.pprev).map CBlockIndex.nChainTrust).getD 0 +
        pindex.getBlockTrust) % 2 ^ 256 }

def CTxDB.readBestInvalidTrust (txdb : CTxDB) : CBigNum :=
  match txdb.read .bnBestInvalidTrust with
  | some (.bignum bn) => bn
  | _ => 0

/-- The end of the load, where the tip is found. -/
def loadTip (st : ChainState) : Outcome :=
  match st.txdb.readHashBestChain with
  | none => (st.pindexGenesisBlock = none, st)
  | some hashBestChain =>
      match st.mapBlockIndex.lookup hashBestChain with
      | none => (false, { st with hashBestChain := hashBestChain })
      | some pindexBest =>
          (true, { st with
            hashBestChain := hashBestChain
            pindexBest := some hashBestChain
            nBestHeight := pindexBest.nHeight
            nBestChainTrust := pindexBest.nChainTrust
            nBestInvalidTrust := CBigNum.getuint256 st.txdb.readBestInvalidTrust })

/-- `LoadBlockIndex`, up to the verification of blocks. -/
def loadBlockIndex (env : Env) (address : ℕ → ℕ) (st : ChainState) : Checked Outcome :=
  if st.mapBlockIndex.entries ≠ [] then .ok (true, st)
  else do
    let st ← (blockIndexRecords st.txdb.disk).foldlM (loadRecord env) st
    .ok (loadTip ((sortedByHeight address st.mapBlockIndex).foldl addTrust st))

/-- The globals of a process that has just started, with the disk of another one. -/
def restarted (st : ChainState) : ChainState where
  mapBlockIndex := ∅
  setStakeSeen := ∅
  pindexGenesisBlock := none
  pindexBest := none
  hashBestChain := 0
  nBestHeight := -1
  nBestChainTrust := 0
  nBestInvalidTrust := 0
  nTimeBestReceived := 0
  mempool := ⟨∅, ∅⟩
  txdb := { st.txdb with activeBatch := none }
  blockFiles := st.blockFiles
  nCurrentBlockFile := st.nCurrentBlockFile

/-! ## Memory and database in step -/

section InStep

variable (P : Primitives) (st : ChainState)

/-- An entry of the index that its record and those below it determine. -/
structure SoundEntry (k : ℕ) (pindex : CBlockIndex) : Prop where
  phashBlock : pindex.phashBlock = k
  ne_zero : k ≠ 0
  getBlockHash : (CDiskBlockIndex.ofIndex pindex).getBlockHash P = k
  stake : pindex.isProofOfStake = false →
    pindex.prevoutStake = COutPoint.null ∧ pindex.nStakeTime = 0
  nChainTrust : pindex.nChainTrust =
    (((st.entry pindex.pprev).map CBlockIndex.nChainTrust).getD 0 + pindex.getBlockTrust) % 2 ^ 256
  pprev : ∀ p, pindex.pprev = some p →
    ∃ parent, st.mapBlockIndex.lookup p = some parent ∧ pindex.nHeight = parent.nHeight + 1

/-- A block is the tip, in memory and on disk, or there is none. -/
def TipInStep : Prop :=
  (st.pindexBest = none ∧ st.hashBestChain = 0 ∧ st.nBestChainTrust = 0 ∧
      st.txdb.disk.lookup .hashBestChain = none) ∨
    (st.pindexBest = some st.hashBestChain ∧
      (∃ pindexBest, st.mapBlockIndex.lookup st.hashBestChain = some pindexBest ∧
        st.nBestChainTrust = pindexBest.nChainTrust) ∧
      st.txdb.disk.lookup .hashBestChain = some (.hash st.hashBestChain))

/-- The stakes of the entries. -/
def IsEntryStake (stake : Stake) : Prop :=
  ∃ k pindex, st.mapBlockIndex.lookup k = some pindex ∧ pindex.isProofOfStake = true ∧
    (pindex.prevoutStake, pindex.nStakeTime) = stake

/-- The database has the block index and the tip that are in memory. -/
structure InStep : Prop where
  closed : st.txdb.activeBatch = none
  sound : ∀ k pindex, st.mapBlockIndex.lookup k = some pindex → SoundEntry P st k pindex
  pnext : ∀ k pindex n, st.mapBlockIndex.lookup k = some pindex → pindex.pnext = some n →
    n ∈ st.mapBlockIndex
  records : ∀ k, st.txdb.disk.lookup (.blockindex k) =
    (st.mapBlockIndex.lookup k).map fun pindex => .diskindex (CDiskBlockIndex.ofIndex pindex)
  stakes : ∀ stake, stake ∈ st.setStakeSeen ↔ IsEntryStake st stake
  tip : TipInStep st

/-- A node that starts again with the disk has the block index that it had; the load fails
at most when there was no tip. -/
def RestartRebuilds : Prop :=
  ∀ env : Env, env.prims = P → ∀ address : ℕ → ℕ,
    ∃ loaded st', loadBlockIndex env address (restarted st) = .ok (loaded, st') ∧
      (st.pindexBest ≠ none → loaded = true) ∧
      (∀ k, st'.mapBlockIndex.lookup k = st.mapBlockIndex.lookup k) ∧
      st'.setStakeSeen = st.setStakeSeen ∧ st'.pindexBest = st.pindexBest ∧
      st'.nBestChainTrust = st.nBestChainTrust

end InStep

/-! ## The scan over the records -/

section Scan

variable {P : Primitives} {env : Env} {st : ChainState}

theorem mem_blockIndexRecords {disk : Table DbKey DbValue} {diskindex : CDiskBlockIndex} :
    diskindex ∈ blockIndexRecords disk ↔
      ∃ hash, disk.lookup (.blockindex hash) = some (.diskindex diskindex) := by
  unfold blockIndexRecords
  simp only [List.mem_map, List.mem_insertionSort, List.mem_filterMap]
  constructor
  · rintro ⟨⟨hash, _⟩, ⟨⟨key, value⟩, hMem, hRecord⟩, rfl⟩
    cases key <;> cases value <;> cases hRecord
    exact ⟨hash, AList.mem_lookup_iff.mpr hMem⟩
  · rintro ⟨hash, hLookup⟩
    exact ⟨(hash, diskindex), ⟨_, AList.mem_lookup_iff.mp hLookup, rfl⟩, rfl⟩

/-- An entry before its trust is computed. -/
def CBlockIndex.untrusted (pindex : CBlockIndex) : CBlockIndex := { pindex with nChainTrust := 0 }

/-- The record of a sound entry fills in all but the trust. -/
theorem fillIn_ofIndex
    {k : ℕ} {pindex pindexNew : CBlockIndex} (hSound : SoundEntry P st k pindex)
    (hHash : pindexNew.phashBlock = k) (hTrust : pindexNew.nChainTrust = 0) :
    pindexNew.fillIn (CDiskBlockIndex.ofIndex pindex) pindex.pprev pindex.pnext =
      pindex.untrusted := by
  have hStake := hSound.stake
  have hKey := hSound.phashBlock
  unfold CBlockIndex.fillIn CDiskBlockIndex.ofIndex CBlockIndex.untrusted
  cases hProof : pindex.isProofOfStake with
  | true => simp [hHash, hKey, hTrust]
  | false =>
      obtain ⟨hOut, hTime⟩ := hStake hProof
      simp [hHash, hKey, hTrust, hOut, hTime]

/-- The pointer that `InsertBlockIndex` finds for a stored pointer, and the index after it. -/
theorem insertBlockIndex_getD
    (mapBlockIndex : Table ℕ CBlockIndex) {p : Option ℕ} (hNonzero : ∀ n, p = some n → n ≠ 0) :
    (insertBlockIndex mapBlockIndex (p.getD 0)).1 = p ∧
      ∀ k, (insertBlockIndex mapBlockIndex (p.getD 0)).2.lookup k =
        (mapBlockIndex.lookup k).or (if p = some k then some (CBlockIndex.new k) else none) := by
  unfold insertBlockIndex
  cases p with
  | none =>
      rw [Option.getD_none, if_pos rfl]
      exact ⟨rfl, fun k => by simp⟩
  | some n =>
      rw [Option.getD_some, if_neg (hNonzero n rfl)]
      refine ⟨rfl, fun k => ?_⟩
      rw [Table.lookup_touch]
      by_cases hk : n = k
      · rw [if_pos hk, if_pos (congrArg some hk), hk]
      · rw [if_neg hk, if_neg (fun h => hk (Option.some.inj h))]

/-- What a scan has loaded that has come across the records of some entries: these are filled
in, and others may have been made because they are named. -/
structure Scanned (st : ChainState) (done : Set ℕ) (s : ChainState) : Prop where
  listed : ∀ k ∈ done, k ∈ st.mapBlockIndex
  filled : ∀ k ∈ done, s.mapBlockIndex.lookup k =
    (st.mapBlockIndex.lookup k).map CBlockIndex.untrusted
  others : ∀ k, k ∉ done → s.mapBlockIndex.lookup k = none ∨
    s.mapBlockIndex.lookup k = some (CBlockIndex.new k) ∧ k ∈ st.mapBlockIndex
  stakes : ∀ stake, stake ∈ s.setStakeSeen ↔
    ∃ k ∈ done, ∃ pindex, st.mapBlockIndex.lookup k = some pindex ∧
      pindex.isProofOfStake = true ∧ (pindex.prevoutStake, pindex.nStakeTime) = stake
  frame : s = { restarted st with
    mapBlockIndex := s.mapBlockIndex
    setStakeSeen := s.setStakeSeen
    pindexGenesisBlock := s.pindexGenesisBlock }

theorem scanned_restarted (st : ChainState) : Scanned st ∅ (restarted st) where
  listed := fun k hk => absurd hk (Set.notMem_empty k)
  filled := fun k hk => absurd hk (Set.notMem_empty k)
  others := fun k _ => Or.inl rfl
  stakes := by
    intro stake
    constructor
    · intro h
      exact absurd h (Finset.notMem_empty stake)
    · rintro ⟨k, hk, -⟩
      exact absurd hk (Set.notMem_empty k)
  frame := rfl

/-- The index after the three insertions of a round. -/
theorem lookup_inserted
    (hStep : InStep P st) {k : ℕ} {pindex : CBlockIndex}
    (hEntry : st.mapBlockIndex.lookup k = some pindex) (mapBlockIndex : Table ℕ CBlockIndex) :
    (insertBlockIndex mapBlockIndex k).1 = some k ∧
    (insertBlockIndex (insertBlockIndex mapBlockIndex k).2 (pindex.pprev.getD 0)).1 =
      pindex.pprev ∧
    (insertBlockIndex (insertBlockIndex (insertBlockIndex mapBlockIndex k).2
      (pindex.pprev.getD 0)).2 (pindex.pnext.getD 0)).1 = pindex.pnext ∧
    ∀ j, (insertBlockIndex (insertBlockIndex (insertBlockIndex mapBlockIndex k).2
        (pindex.pprev.getD 0)).2 (pindex.pnext.getD 0)).2.lookup j =
      (mapBlockIndex.lookup j).or
        (if k = j ∨ pindex.pprev = some j ∨ pindex.pnext = some j then some (CBlockIndex.new j)
          else none) := by
  have hSound := hStep.sound k pindex hEntry
  have hKey : ∀ n, some k = some n → n ≠ 0 := by
    rintro n h
    obtain rfl := Option.some.inj h
    exact hSound.ne_zero
  have hPrev : ∀ n, pindex.pprev = some n → n ≠ 0 := by
    intro n h
    obtain ⟨parent, hParent, -⟩ := hSound.pprev n h
    exact (hStep.sound n parent hParent).ne_zero
  have hNext : ∀ n, pindex.pnext = some n → n ≠ 0 := by
    intro n h
    obtain ⟨next, hLookup⟩ := Table.mem_iff_lookup.mp (hStep.pnext k pindex n hEntry h)
    exact (hStep.sound n next hLookup).ne_zero
  obtain ⟨hFirst, hFirst'⟩ := insertBlockIndex_getD mapBlockIndex hKey
  rw [Option.getD_some] at hFirst hFirst'
  obtain ⟨hSecond, hSecond'⟩ :=
    insertBlockIndex_getD (insertBlockIndex mapBlockIndex k).2 hPrev
  obtain ⟨hThird, hThird'⟩ := insertBlockIndex_getD
    (insertBlockIndex (insertBlockIndex mapBlockIndex k).2 (pindex.pprev.getD 0)).2 hNext
  refine ⟨hFirst, hSecond, hThird, fun j => ?_⟩
  rw [hThird', hSecond', hFirst']
  cases mapBlockIndex.lookup j with
  | some pindex => rfl
  | none =>
      simp only [Option.none_or, Option.some.injEq]
      by_cases hk : k = j
      · simp [hk]
      · by_cases hp : pindex.pprev = some j
        · simp [hk, hp]
        · by_cases hn : pindex.pnext = some j <;> simp [hk, hp, hn]

theorem ofIndex_stake (pindex : CBlockIndex) (setStakeSeen : Finset Stake) :
    (if pindex.isProofOfStake then
      insert ((CDiskBlockIndex.ofIndex pindex).prevoutStake,
        (CDiskBlockIndex.ofIndex pindex).nStakeTime) setStakeSeen else setStakeSeen) =
      if pindex.isProofOfStake then
        insert (pindex.prevoutStake, pindex.nStakeTime) setStakeSeen
      else setStakeSeen := by
  unfold CDiskBlockIndex.ofIndex
  cases pindex.isProofOfStake <;> rfl

/-- What a round for the record of an entry does: the entry is filled in, and the ones it names
are made. -/
structure Fills (s : ChainState) (k : ℕ) (pindex : CBlockIndex) (s' : ChainState) : Prop where
  filled : s'.mapBlockIndex.lookup k = some pindex.untrusted
  others : ∀ j, j ≠ k → s'.mapBlockIndex.lookup j = (s.mapBlockIndex.lookup j).or
    (if pindex.pprev = some j ∨ pindex.pnext = some j then some (CBlockIndex.new j) else none)
  setStakeSeen : s'.setStakeSeen =
    if pindex.isProofOfStake then insert (pindex.prevoutStake, pindex.nStakeTime) s.setStakeSeen
    else s.setStakeSeen
  frame : s' = { s with
    mapBlockIndex := s'.mapBlockIndex
    setStakeSeen := s'.setStakeSeen
    pindexGenesisBlock := s'.pindexGenesisBlock }

/-- The entry for a record, new or filled in before. -/
theorem exists_pindexNew
    (hStep : InStep P st) {done : Set ℕ} {s : ChainState} (h : Scanned st done s) {k : ℕ}
    {pindex : CBlockIndex} (hEntry : st.mapBlockIndex.lookup k = some pindex) :
    ∃ pindexNew, (s.mapBlockIndex.lookup k).or (some (CBlockIndex.new k)) = some pindexNew ∧
      pindexNew.phashBlock = k ∧ pindexNew.nChainTrust = 0 := by
  by_cases hDone : k ∈ done
  · rw [h.filled k hDone, hEntry]
    exact ⟨pindex.untrusted, rfl, (hStep.sound k pindex hEntry).phashBlock, rfl⟩
  · rcases h.others k hDone with hNone | ⟨hFresh, -⟩
    · rw [hNone]
      exact ⟨CBlockIndex.new k, rfl, rfl, rfl⟩
    · rw [hFresh]
      exact ⟨CBlockIndex.new k, rfl, rfl, rfl⟩

theorem fills_loadRecord
    (hStep : InStep env.prims st) {done : Set ℕ} {s : ChainState} (h : Scanned st done s) {k : ℕ}
    {pindex : CBlockIndex} (hEntry : st.mapBlockIndex.lookup k = some pindex) :
    ∃ s', loadRecord env s (CDiskBlockIndex.ofIndex pindex) = .ok s' ∧ Fills s k pindex s' := by
  have hSound := hStep.sound k pindex hEntry
  obtain ⟨hInserted, hPrev, hNext, hLookup⟩ := lookup_inserted hStep hEntry s.mapBlockIndex
  obtain ⟨pindexNew, hNew, hHash, hTrust⟩ := exists_pindexNew hStep h hEntry
  have hFill := fillIn_ofIndex hSound hHash hTrust
  set map := (insertBlockIndex (insertBlockIndex (insertBlockIndex s.mapBlockIndex k).2
    (pindex.pprev.getD 0)).2 (pindex.pnext.getD 0)).2 with hMap
  set s₁ := { s with mapBlockIndex := map }.updateEntry k fun pindexNew =>
    pindexNew.fillIn (CDiskBlockIndex.ofIndex pindex) pindex.pprev pindex.pnext with hs₁
  have hAfter : ∀ j, s₁.mapBlockIndex.lookup j =
      if j = k then (map.lookup k).map fun pindexNew =>
        pindexNew.fillIn (CDiskBlockIndex.ofIndex pindex) pindex.pprev pindex.pnext
      else map.lookup j := by
    intro j
    rw [hs₁, ChainState.lookup_updateEntry]
  have hFrame : s₁ = { s with mapBlockIndex := s₁.mapBlockIndex } := by
    rw [hs₁]
    exact ChainState.updateEntry_frame _ _ _
  have hSeen : s₁.setStakeSeen = s.setStakeSeen := by rw [hFrame]
  refine ⟨{ s₁ with
    pindexGenesisBlock :=
      if s₁.pindexGenesisBlock = none ∧ k = env.hashGenesisBlock then some k
      else s₁.pindexGenesisBlock
    setStakeSeen :=
      if pindex.isProofOfStake then insert (pindex.prevoutStake, pindex.nStakeTime) s₁.setStakeSeen
      else s₁.setStakeSeen }, ?_, ?_, ?_, ?_, ?_⟩
  · have hBlockHash : (CDiskBlockIndex.ofIndex pindex).getBlockHash env.prims = k :=
      hSound.getBlockHash
    have hPrevHash : (CDiskBlockIndex.ofIndex pindex).header.hashPrevBlock =
        pindex.pprev.getD 0 := rfl
    have hNextHash : (CDiskBlockIndex.ofIndex pindex).hashNext = pindex.pnext.getD 0 := rfl
    have hFlags : (CDiskBlockIndex.ofIndex pindex).nFlags.testBit BLOCK_PROOF_OF_STAKE =
        pindex.isProofOfStake := rfl
    unfold loadRecord
    dsimp only
    rw [hBlockHash, hPrevHash, hNextHash, hFlags, hInserted, deref_some, ok_bind, hPrev, hNext,
      ← hMap, ← hs₁, ofIndex_stake]
  · change s₁.mapBlockIndex.lookup k = _
    rw [hAfter, if_pos rfl, hLookup, if_pos (Or.inl rfl), hNew, Option.map_some, hFill]
  · intro j hj
    change s₁.mapBlockIndex.lookup j = _
    have hNot : ¬k = j := fun hEq => hj hEq.symm
    rw [hAfter, if_neg hj, hLookup]
    simp only [hNot, false_or]
  · change (if pindex.isProofOfStake then
      insert (pindex.prevoutStake, pindex.nStakeTime) s₁.setStakeSeen else s₁.setStakeSeen) = _
    rw [hSeen]
  · rw [hFrame]

/-- After the round one entry more is done. -/
theorem Scanned.of_fills
    (hStep : InStep P st) {done : Set ℕ} {s s' : ChainState} (h : Scanned st done s) {k : ℕ}
    {pindex : CBlockIndex} (hEntry : st.mapBlockIndex.lookup k = some pindex)
    (hFills : Fills s k pindex s') : Scanned st (insert k done) s' := by
  constructor
  · intro j hj
    rcases Set.mem_insert_iff.mp hj with rfl | hDone
    · exact Table.mem_iff_lookup.mpr ⟨pindex, hEntry⟩
    · exact h.listed j hDone
  · intro j hj
    by_cases hjk : j = k
    · rw [hjk, hFills.filled, hEntry, Option.map_some]
    · have hDone : j ∈ done := (Set.mem_insert_iff.mp hj).resolve_left hjk
      obtain ⟨other, hOther⟩ := Table.mem_iff_lookup.mp (h.listed j hDone)
      rw [hFills.others j hjk, h.filled j hDone, hOther, Option.map_some, Option.some_or]
  · intro j hj
    rw [Set.mem_insert_iff, not_or] at hj
    rw [hFills.others j hj.1]
    rcases h.others j hj.2 with hNone | ⟨hFresh, hMem⟩
    · rw [hNone, Option.none_or]
      by_cases hNamed : pindex.pprev = some j ∨ pindex.pnext = some j
      · rw [if_pos hNamed]
        refine Or.inr ⟨rfl, ?_⟩
        rcases hNamed with hp | hn
        · obtain ⟨parent, hParent, -⟩ := (hStep.sound k pindex hEntry).pprev j hp
          exact Table.mem_iff_lookup.mpr ⟨parent, hParent⟩
        · exact hStep.pnext k pindex j hEntry hn
      · rw [if_neg hNamed]
        exact Or.inl rfl
    · rw [hFresh, Option.some_or]
      exact Or.inr ⟨rfl, hMem⟩
  · intro stake
    rw [hFills.setStakeSeen]
    cases hProof : pindex.isProofOfStake with
    | true =>
        rw [if_pos rfl, Finset.mem_insert, h.stakes]
        constructor
        · rintro (rfl | ⟨j, hj, other, hOther⟩)
          · exact ⟨k, Set.mem_insert k done, pindex, hEntry, hProof, rfl⟩
          · exact ⟨j, Set.mem_insert_of_mem k hj, other, hOther⟩
        · rintro ⟨j, hj, other, hOther, hOtherProof, rfl⟩
          rcases Set.mem_insert_iff.mp hj with rfl | hDone
          · obtain rfl := Option.some.inj (hOther.symm.trans hEntry)
            exact Or.inl rfl
          · exact Or.inr ⟨j, hDone, other, hOther, hOtherProof, rfl⟩
    | false =>
        rw [if_neg Bool.false_ne_true, h.stakes]
        constructor
        · rintro ⟨j, hj, other, hOther⟩
          exact ⟨j, Set.mem_insert_of_mem k hj, other, hOther⟩
        · rintro ⟨j, hj, other, hOther, hOtherProof, rfl⟩
          rcases Set.mem_insert_iff.mp hj with rfl | hDone
          · obtain rfl := Option.some.inj (hOther.symm.trans hEntry)
            exact absurd (hOtherProof.symm.trans hProof) (by decide)
          · exact ⟨j, hDone, other, hOther, hOtherProof, rfl⟩
  · rw [hFills.frame, h.frame]

/-- The scan loads all entries. -/
theorem scanned_blockIndexRecords (hStep : InStep env.prims st) :
    ∃ s, (blockIndexRecords st.txdb.disk).foldlM (loadRecord env) (restarted st) = .ok s ∧
      Scanned st {k | k ∈ st.mapBlockIndex} s := by
  have hRecord : ∀ diskindex ∈ blockIndexRecords st.txdb.disk, ∃ k pindex,
      st.mapBlockIndex.lookup k = some pindex ∧ diskindex = CDiskBlockIndex.ofIndex pindex := by
    intro diskindex hMem
    obtain ⟨k, hLookup⟩ := mem_blockIndexRecords.mp hMem
    rw [hStep.records, Option.map_eq_some_iff] at hLookup
    obtain ⟨pindex, hEntry, hSame⟩ := hLookup
    exact ⟨k, pindex, hEntry, (DbValue.diskindex.inj hSame).symm⟩
  have hRound : ∀ pre, ∀ diskindex ∈ blockIndexRecords st.txdb.disk, ∀ s,
      Scanned st
        {k | ∃ diskindex ∈ pre, diskindex.getBlockHash env.prims = k} s →
      ∃ s', loadRecord env s diskindex = .ok s' ∧ Scanned st
        {k | ∃ diskindex' ∈ pre ++ [diskindex], diskindex'.getBlockHash env.prims = k} s' := by
    intro pre diskindex hMem s hScanned
    obtain ⟨k, pindex, hEntry, rfl⟩ := hRecord diskindex hMem
    have hHash := (hStep.sound k pindex hEntry).getBlockHash
    obtain ⟨s', hRun, hFills⟩ := fills_loadRecord hStep hScanned hEntry
    refine ⟨s', hRun, ?_⟩
    have hNext := hScanned.of_fills hStep hEntry hFills
    have hSame : insert k {k | ∃ diskindex ∈ pre, diskindex.getBlockHash env.prims = k} =
        {k | ∃ diskindex ∈ pre ++ [CDiskBlockIndex.ofIndex pindex],
          diskindex.getBlockHash env.prims = k} := by
      ext j
      simp only [Set.mem_insert_iff, Set.mem_ofPred_eq, List.mem_append, List.mem_singleton,
        or_and_right, exists_or, exists_eq_left, hHash]
      rw [or_comm, eq_comm (a := k)]
    rw [← hSame]
    exact hNext
  have hStart : Scanned st
      {k | ∃ diskindex ∈ [], CDiskBlockIndex.getBlockHash env.prims diskindex = k}
      (restarted st) := by
    simpa using scanned_restarted st
  obtain ⟨s, hRun, hScanned⟩ := foldlM_ok (I := fun (pre : List CDiskBlockIndex) s =>
    Scanned st
      {k | ∃ diskindex ∈ pre, diskindex.getBlockHash env.prims = k} s) hRound hStart
  refine ⟨s, hRun, ?_⟩
  have hAll : {k | ∃ diskindex ∈ blockIndexRecords st.txdb.disk,
      diskindex.getBlockHash env.prims = k} = {k | k ∈ st.mapBlockIndex} := by
    ext k
    constructor
    · rintro ⟨diskindex, hMem, rfl⟩
      obtain ⟨k, pindex, hEntry, rfl⟩ := hRecord diskindex hMem
      rw [(hStep.sound k pindex hEntry).getBlockHash]
      exact Table.mem_iff_lookup.mpr ⟨pindex, hEntry⟩
    · intro hMem
      obtain ⟨pindex, hEntry⟩ := Table.mem_iff_lookup.mp hMem
      refine ⟨CDiskBlockIndex.ofIndex pindex, ?_, (hStep.sound k pindex hEntry).getBlockHash⟩
      apply mem_blockIndexRecords.mpr
      exact ⟨k, by rw [hStep.records, hEntry]; rfl⟩
  rw [← hAll]
  exact hScanned

end Scan

/-! ## The pass that computes trust -/

section Trust

variable {P : Primitives} {st : ChainState}

theorem mem_sortedByHeight {address : ℕ → ℕ} {mapBlockIndex : Table ℕ CBlockIndex} {k : ℕ} :
    k ∈ sortedByHeight address mapBlockIndex ↔ k ∈ mapBlockIndex := by
  unfold sortedByHeight
  simp only [List.mem_map, List.mem_insertionSort]
  constructor
  · rintro ⟨_, ⟨⟨k', pindex⟩, hMem, rfl⟩, rfl⟩
    exact Table.mem_iff_lookup.mpr ⟨pindex, AList.mem_lookup_iff.mpr hMem⟩
  · intro hMem
    obtain ⟨pindex, hLookup⟩ := Table.mem_iff_lookup.mp hMem
    exact ⟨_, ⟨⟨k, pindex⟩, AList.mem_lookup_iff.mp hLookup, rfl⟩, rfl⟩

instance : Std.Total HeightOrder := ⟨fun _ _ => le_total _ _⟩

instance : IsTrans (ℤ × ℕ × ℕ) HeightOrder := ⟨fun _ _ _ => le_trans⟩

/-- The height of the entry of a hash. -/
def heightAt (mapBlockIndex : Table ℕ CBlockIndex) (k : ℕ) : ℤ :=
  ((mapBlockIndex.lookup k).map CBlockIndex.nHeight).getD 0

theorem pairwise_sortedByHeight (address : ℕ → ℕ) (mapBlockIndex : Table ℕ CBlockIndex) :
    (sortedByHeight address mapBlockIndex).Pairwise fun a b =>
      heightAt mapBlockIndex a ≤ heightAt mapBlockIndex b := by
  have hSorted := List.pairwise_insertionSort HeightOrder
    (mapBlockIndex.entries.map fun e => (e.2.nHeight, address e.1, e.1))
  have hHeights : ∀ item ∈ (mapBlockIndex.entries.map fun e =>
      (e.2.nHeight, address e.1, e.1)).insertionSort HeightOrder,
      heightAt mapBlockIndex item.2.2 = item.1 := by
    intro item hItem
    obtain ⟨⟨k, pindex⟩, hMem, rfl⟩ := List.mem_map.mp ((List.mem_insertionSort _).mp hItem)
    have hLookup : mapBlockIndex.lookup k = some pindex := AList.mem_lookup_iff.mpr hMem
    simp only [heightAt, hLookup, Option.map_some, Option.getD_some]
  unfold sortedByHeight
  rw [List.pairwise_map]
  apply hSorted.imp_of_mem
  intro a b ha hb hLe
  rw [hHeights a ha, hHeights b hb]
  rcases Prod.Lex.toLex_le_toLex.mp hLe with hLt | ⟨hEq, -⟩
  · exact le_of_lt hLt
  · exact le_of_eq hEq

/-- What a pass has computed that has come across some entries. -/
structure Trusted (st : ChainState) (done : Set ℕ) (s : ChainState) : Prop where
  computed : ∀ k ∈ done, s.mapBlockIndex.lookup k = st.mapBlockIndex.lookup k
  pending : ∀ k, k ∉ done → s.mapBlockIndex.lookup k =
    (st.mapBlockIndex.lookup k).map CBlockIndex.untrusted

/-- The previous block of the entry of a hash. -/
def prevAt (st : ChainState) (k : ℕ) : Option ℕ :=
  (st.mapBlockIndex.lookup k).bind CBlockIndex.pprev

/-- A round for an entry whose previous block is done. -/
theorem trusted_addTrust
    (hStep : InStep P st) {done : Set ℕ} {s : ChainState} (h : Trusted st done s) {k : ℕ}
    (hMem : k ∈ st.mapBlockIndex) (hPrev : ∀ p, prevAt st k = some p → p ∈ done) :
    Trusted st (insert k done) (addTrust s k) := by
  obtain ⟨pindex, hEntry⟩ := Table.mem_iff_lookup.mp hMem
  have hSound := hStep.sound k pindex hEntry
  have hParent : s.entry pindex.pprev = st.entry pindex.pprev := by
    cases hp : pindex.pprev with
    | none => rfl
    | some p => exact h.computed p (hPrev p (by rw [prevAt, hEntry]; exact hp))
  -- the entry has its trust already, or gets it
  have hRound : (addTrust s k).mapBlockIndex.lookup k = some pindex := by
    rw [addTrust, ChainState.lookup_updateEntry, if_pos rfl]
    by_cases hDone : k ∈ done
    · rw [h.computed k hDone, hEntry, Option.map_some, hParent, ← hSound.nChainTrust]
    · rw [h.pending k hDone, hEntry, Option.map_some, Option.map_some]
      change some { pindex with nChainTrust := (((s.entry pindex.pprev).map
        CBlockIndex.nChainTrust).getD 0 + pindex.getBlockTrust) % 2 ^ 256 } = _
      rw [hParent, ← hSound.nChainTrust]
  have hOther : ∀ j, j ≠ k → (addTrust s k).mapBlockIndex.lookup j = s.mapBlockIndex.lookup j := by
    intro j hj
    rw [addTrust, ChainState.lookup_updateEntry, if_neg hj]
  constructor
  · intro j hj
    rcases Set.mem_insert_iff.mp hj with rfl | hDone
    · rw [hRound, hEntry]
    · by_cases hjk : j = k
      · rw [hjk, hRound, hEntry]
      · rw [hOther j hjk, h.computed j hDone]
  · intro j hj
    rw [Set.mem_insert_iff, not_or] at hj
    rw [hOther j hj.1, h.pending j hj.2]

/-- Every other part of the state is left alone. -/
theorem foldl_addTrust_frame (order : List ℕ) (s : ChainState) :
    order.foldl addTrust s =
      { s with mapBlockIndex := (order.foldl addTrust s).mapBlockIndex } := by
  induction order generalizing s with
  | nil => rfl
  | cons k rest ih =>
      rw [List.foldl_cons, ih, addTrust, ChainState.updateEntry_frame]

/-- The pass restores the trust of all entries. -/
theorem trusted_foldl
    (hStep : InStep P st) (address : ℕ → ℕ) {s : ChainState} (h : Trusted st ∅ s) (k : ℕ) :
    ((sortedByHeight address s.mapBlockIndex).foldl addTrust s).mapBlockIndex.lookup k =
      st.mapBlockIndex.lookup k := by
  have hLookup : ∀ j, s.mapBlockIndex.lookup j =
      (st.mapBlockIndex.lookup j).map CBlockIndex.untrusted :=
    fun j => h.pending j (Set.notMem_empty j)
  have hMem : ∀ j, j ∈ sortedByHeight address s.mapBlockIndex ↔ j ∈ st.mapBlockIndex := by
    intro j
    rw [mem_sortedByHeight, ← AList.lookup_isSome, ← AList.lookup_isSome, hLookup,
      Option.isSome_map]
  have hHeight : ∀ j, heightAt s.mapBlockIndex j = heightAt st.mapBlockIndex j := by
    intro j
    unfold heightAt
    rw [hLookup, Option.map_map]
    rfl
  have hPrev : ∀ j ∈ sortedByHeight address s.mapBlockIndex, ∀ p, prevAt st j = some p →
      heightAt st.mapBlockIndex p < heightAt st.mapBlockIndex j ∧ p ∈ st.mapBlockIndex := by
    intro j hj p hp
    obtain ⟨pindex, hEntry⟩ := Table.mem_iff_lookup.mp ((hMem j).mp hj)
    rw [prevAt, hEntry, Option.bind_some] at hp
    obtain ⟨parent, hParent, hAbove⟩ := (hStep.sound j pindex hEntry).pprev p hp
    refine ⟨?_, Table.mem_iff_lookup.mpr ⟨parent, hParent⟩⟩
    simp only [heightAt, hEntry, hParent, Option.map_some, Option.getD_some, hAbove]
    omega
  have hSorted := pairwise_sortedByHeight address s.mapBlockIndex
  simp only [hHeight] at hSorted
  have hOrder : ParentsFirst (prevAt st) ∅ (sortedByHeight address s.mapBlockIndex) := by
    apply parentsFirst_of_sorted (heightAt st.mapBlockIndex) hSorted
    · exact fun j hj p hp => (hPrev j hj p hp).1
    · exact fun j hj p hp => Or.inr ((hMem p).mpr (hPrev j hj p hp).2)
  have hDone := hOrder.foldl_invariant (I := Trusted st) (fun done s' j hj hParents hTrusted =>
    trusted_addTrust hStep hTrusted ((hMem j).mp hj) hParents) h
  by_cases hk : k ∈ st.mapBlockIndex
  · exact hDone.computed k (Or.inr ((hMem k).mpr hk))
  · have hAbsent : k ∉ ∅ ∪ {j | j ∈ sortedByHeight address s.mapBlockIndex} := by
      rintro (hEmpty | hListed)
      · exact Set.notMem_empty k hEmpty
      · exact hk ((hMem k).mp hListed)
    rw [hDone.pending k hAbsent, Table.not_mem_iff_lookup.mp hk]
    rfl

end Trust

/-! ## The whole load -/

/-- What is loaded is what was in memory. -/
theorem restartRebuilds_of_inStep
    {P : Primitives} {st : ChainState} (hStep : InStep P st) : RestartRebuilds P st := by
  rintro env rfl address
  obtain ⟨s, hScan, hScanned⟩ := scanned_blockIndexRecords hStep
  have hUntrusted : Trusted st ∅ s := by
    refine ⟨fun k hk => absurd hk (Set.notMem_empty k), fun k _ => ?_⟩
    by_cases hk : k ∈ st.mapBlockIndex
    · exact hScanned.filled k hk
    · rcases hScanned.others k hk with hNone | ⟨-, hMem⟩
      · rw [hNone, Table.not_mem_iff_lookup.mp hk]
        rfl
      · exact absurd hMem hk
  set s' := (sortedByHeight address s.mapBlockIndex).foldl addTrust s with hs'
  have hIndex : ∀ k, s'.mapBlockIndex.lookup k = st.mapBlockIndex.lookup k :=
    trusted_foldl hStep address hUntrusted
  -- the pass changes nothing but the entries, nor does the scan beside what it loads
  have hPass : s' = { s with mapBlockIndex := s'.mapBlockIndex } := foldl_addTrust_frame _ s
  have hSeen : s'.setStakeSeen = s.setStakeSeen := by rw [hPass]
  have hDb : s'.txdb = (restarted st).txdb := by
    rw [hPass]
    change s.txdb = _
    rw [hScanned.frame]
  have hNoTip : s'.pindexBest = none ∧ s'.nBestChainTrust = 0 := by
    rw [hPass]
    change s.pindexBest = none ∧ s.nBestChainTrust = 0
    rw [hScanned.frame]
    exact ⟨rfl, rfl⟩
  have hStakes : s.setStakeSeen = st.setStakeSeen := by
    ext stake
    rw [hScanned.stakes, hStep.stakes]
    constructor
    · rintro ⟨k, -, hStake⟩
      exact ⟨k, hStake⟩
    · rintro ⟨k, pindex, hEntry, hStake⟩
      exact ⟨k, Table.mem_iff_lookup.mpr ⟨pindex, hEntry⟩, pindex, hEntry, hStake⟩
  have hLoad : loadBlockIndex env address (restarted st) = .ok (loadTip s') := by
    have hEmpty : ¬(restarted st).mapBlockIndex.entries ≠ [] := fun h => h rfl
    rw [loadBlockIndex, if_neg hEmpty]
    change (List.foldlM (loadRecord env) (restarted st) (blockIndexRecords st.txdb.disk) >>= _) = _
    rw [hScan]
    rfl
  have hRead : s'.txdb.read .hashBestChain = st.txdb.disk.lookup .hashBestChain := by
    rw [hDb]
    rfl
  rw [hLoad]
  rcases hStep.tip with ⟨hBest, -, hTrust, hDisk⟩ | ⟨hBest, ⟨pindexBest, hTip, hTrust⟩, hDisk⟩
  · rw [hDisk] at hRead
    have hLoaded : loadTip s' = (decide (s'.pindexGenesisBlock = none), s') := by
      rw [loadTip, CTxDB.readHashBestChain, hRead]
    refine ⟨_, _, congrArg Except.ok hLoaded, fun h => absurd hBest h, hIndex, ?_, ?_, ?_⟩
    · exact hSeen.trans hStakes
    · rw [hNoTip.1, hBest]
    · rw [hNoTip.2, hTrust]
  · rw [hDisk] at hRead
    have hLoaded : loadTip s' = (true, { s' with
        hashBestChain := st.hashBestChain
        pindexBest := some st.hashBestChain
        nBestHeight := pindexBest.nHeight
        nBestChainTrust := pindexBest.nChainTrust
        nBestInvalidTrust := CBigNum.getuint256 s'.txdb.readBestInvalidTrust }) := by
      rw [loadTip, CTxDB.readHashBestChain, hRead]
      dsimp only
      rw [hIndex, hTip]
    exact ⟨_, _, congrArg Except.ok hLoaded, fun _ => rfl, hIndex, hSeen.trans hStakes,
      hBest.symm, hTrust.symm⟩

end SocietyGold
