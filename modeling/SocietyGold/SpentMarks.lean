import SocietyGold.Inputs

/-!
# What fetching and connecting inputs leaves behind

For a block connection `FetchInputs` collects, for each previous transaction
hash, the record on disk and a previous transaction that is known only for
records pointing at the memory pool.  `ConnectInputs` then turns the records of
all inputs whose timestamps allow it into records with spent marks.  Both are
described here by their lookups.
-/

namespace SocietyGold

open Support

/-! ## The collected inputs -/

/-- The record of a transaction, or an empty one when it is not indexed. -/
def prevRecord (txdb : CTxDB) (hash : ℕ) : CTxIndex :=
  (txdb.readTxIndex hash).getD CTxIndex.null

/-- The record points at the memory pool. -/
def recordedInPool (txdb : CTxDB) (hash : ℕ) : Bool :=
  (txdb.readTxIndex hash).any fun record => record.pos = CDiskTxPos.inMemoryPool

/-- The previous transaction that a block connection sees: the pool's for a
record that points there, a default one otherwise. -/
def prevTransaction (env : Env) (txdb : CTxDB) (pool : CTxMemPool) (hash : ℕ) :
    CTransaction :=
  if recordedInPool txdb hash then
    (pool.lookup hash).getD (CTransaction.null env.adjustedTime)
  else CTransaction.null env.adjustedTime

/-- The record points at the memory pool, but the pool has no such transaction. -/
def missingFromPool (txdb : CTxDB) (pool : CTxMemPool) (hash : ℕ) : Bool :=
  recordedInPool txdb hash && (pool.lookup hash).isNone

section Fetch

variable {env : Env} {txdb : CTxDB} {pool : CTxMemPool}

/-- Every collected entry is the record on disk with the transaction a block
connection sees. -/
def Collected (env : Env) (txdb : CTxDB) (pool : CTxMemPool) (inputs : MapPrevTx) : Prop :=
  ∀ hash entry, inputs.lookup hash = some entry →
    entry = (prevRecord txdb hash, prevTransaction env txdb pool hash)

theorem collected_empty (env : Env) (txdb : CTxDB) (pool : CTxMemPool) :
    Collected env txdb pool ∅ := by
  intro hash entry h
  simp at h

theorem Collected.insert
    {inputs : MapPrevTx} (h : Collected env txdb pool inputs) (hash : ℕ) :
    Collected env txdb pool
      (inputs.insert hash (prevRecord txdb hash, prevTransaction env txdb pool hash)) := by
  intro hash' entry hLookup
  rw [Table.lookup_insert_ite] at hLookup
  split_ifs at hLookup with hEq
  · subst hEq
    exact (Option.some.inj hLookup).symm
  · exact h hash' entry hLookup

theorem Collected.fetchedEntry_snd
    {inputs : MapPrevTx} (h : Collected env txdb pool inputs) {hash : ℕ}
    (hPool : recordedInPool txdb hash = false) :
    (fetchedEntry env inputs hash).2 = prevTransaction env txdb pool hash := by
  unfold fetchedEntry
  cases hLookup : inputs.lookup hash with
  | none => simp [prevTransaction, hPool]
  | some entry => simp [h hash entry hLookup]

theorem Collected.fetchedEntry_of_mem
    {inputs : MapPrevTx} (h : Collected env txdb pool inputs) {hash : ℕ}
    (hMem : hash ∈ inputs) :
    (fetchedEntry env inputs hash).2 = prevTransaction env txdb pool hash := by
  obtain ⟨entry, hLookup⟩ := Table.mem_iff_lookup.mp hMem
  simp [fetchedEntry, hLookup, h hash entry hLookup]

/-- The first loop fails exactly when a pool transaction is missing, and collects
the entries of all inputs otherwise. -/
theorem fetchRecords_block
    (fMiner : Bool) (vin : List CTxIn) {inputs : MapPrevTx}
    (h : Collected env txdb pool inputs) :
    (fetchRecords env txdb pool true fMiner vin inputs).1 =
        !vin.any (fun txin => missingFromPool txdb pool txin.prevout.hash) ∧
      ((fetchRecords env txdb pool true fMiner vin inputs).1 = true →
        Collected env txdb pool (fetchRecords env txdb pool true fMiner vin inputs).2 ∧
        ∀ hash, hash ∈ (fetchRecords env txdb pool true fMiner vin inputs).2 ↔
          hash ∈ inputs ∨ ∃ txin ∈ vin, txin.prevout.hash = hash) := by
  induction vin generalizing inputs with
  | nil => simpa [fetchRecords] using h
  | cons txin rest ih =>
      set hash := txin.prevout.hash with hHash
      -- each surviving branch inserts the entry a block connection sees
      suffices hStep :
          (fetchRecords env txdb pool true fMiner (txin :: rest) inputs).1 = false ∧
              missingFromPool txdb pool hash = true ∨
            fetchRecords env txdb pool true fMiner (txin :: rest) inputs =
              fetchRecords env txdb pool true fMiner rest
                (inputs.insert hash
                  (prevRecord txdb hash, prevTransaction env txdb pool hash)) ∧
              missingFromPool txdb pool hash = false by
        rcases hStep with ⟨hFalse, hMissing⟩ | ⟨hNext, hMissing⟩
        · simp [hFalse, ← hHash, hMissing]
        · obtain ⟨hResult, hCollected⟩ := ih (h.insert hash)
          rw [hNext]
          refine ⟨by simp [hResult, ← hHash, hMissing], fun hTrue => ?_⟩
          obtain ⟨hAll, hKeys⟩ := hCollected hTrue
          refine ⟨hAll, fun k => ?_⟩
          rw [hKeys k, AList.mem_insert]
          simp only [List.mem_cons, exists_eq_or_imp, ← hHash]
          tauto
      cases hFound : txdb.readTxIndex hash with
      | none =>
          right
          have hPool : recordedInPool txdb hash = false := by simp [recordedInPool, hFound]
          refine ⟨?_, by simp [missingFromPool, hPool]⟩
          have hPrev := h.fetchedEntry_snd hPool
          simp [fetchRecords, ← hHash, hFound, hPrev, prevRecord]
      | some record =>
          by_cases hPos : record.pos = CDiskTxPos.inMemoryPool
          · have hPool : recordedInPool txdb hash = true := by
              simp [recordedInPool, hFound, hPos]
            cases hTx : pool.lookup hash with
            | none =>
                left
                simp [fetchRecords, ← hHash, hFound, hPos, hTx, missingFromPool, hPool]
            | some txPrev =>
                right
                refine ⟨?_, by simp [missingFromPool, hTx]⟩
                simp [fetchRecords, ← hHash, hFound, hPos, hTx, prevRecord,
                  prevTransaction, hPool, AList.insert_insert]
          · right
            have hPool : recordedInPool txdb hash = false := by
              simp [recordedInPool, hFound, hPos]
            refine ⟨?_, by simp [missingFromPool, hPool]⟩
            have hPrev := h.fetchedEntry_snd hPool
            simp [fetchRecords, ← hHash, hFound, hPos, hPrev, prevRecord]

/-- The second loop collects the same entries once more. -/
theorem checkPrevoutIndexes_collected
    (nOutputs : ℕ) (fInvalid : Bool) {vin : List CTxIn} {inputs : MapPrevTx}
    (h : Collected env txdb pool inputs)
    (hMem : ∀ txin ∈ vin, txin.prevout.hash ∈ inputs) :
    Collected env txdb pool (checkPrevoutIndexes env txdb nOutputs vin inputs fInvalid).1 ∧
      ∀ hash, hash ∈ (checkPrevoutIndexes env txdb nOutputs vin inputs fInvalid).1 ↔
        hash ∈ inputs := by
  induction vin generalizing inputs fInvalid with
  | nil => simpa [checkPrevoutIndexes] using h
  | cons txin rest ih =>
      have hHead : txin.prevout.hash ∈ inputs := hMem txin (by simp)
      have hPrev := h.fetchedEntry_of_mem hHead
      simp only [checkPrevoutIndexes, hPrev]
      have hRest : ∀ other ∈ rest, other.prevout.hash ∈
          inputs.insert txin.prevout.hash
            (prevRecord txdb txin.prevout.hash,
              prevTransaction env txdb pool txin.prevout.hash) := by
        intro other hOther
        exact (AList.mem_insert _).mpr (Or.inr (hMem other (by simp [hOther])))
      obtain ⟨hAll, hKeys⟩ := ih _ (h.insert txin.prevout.hash) hRest
      refine ⟨hAll, fun hash => ?_⟩
      refine (hKeys hash).trans ?_
      rw [AList.mem_insert]
      constructor
      · rintro (rfl | hIn)
        · exact hHead
        · exact hIn
      · exact Or.inr

end Fetch

/-- An input of the transaction has its record in the memory pool, but the pool
has no such transaction. -/
def hasMissingInput (txdb : CTxDB) (pool : CTxMemPool) (tx : CTransaction) : Bool :=
  tx.vin.any fun txin => missingFromPool txdb pool txin.prevout.hash

section FetchBlock

variable {env : Env} {txdb : CTxDB} {pool : CTxMemPool} {tx : CTransaction} {fMiner : Bool}

/-- For a block, `FetchInputs` fails exactly when a pool transaction is missing. -/
theorem fetchInputs_block_success
    (env : Env) (txdb : CTxDB) (pool : CTxMemPool) (fMiner : Bool)
    (hCoinBase : tx.isCoinBase = false) :
    (fetchInputs env txdb pool tx true fMiner ∅).success = !hasMissingInput txdb pool tx := by
  have hFetch := (fetchRecords_block fMiner tx.vin (collected_empty env txdb pool)).1
  unfold fetchInputs hasMissingInput
  rw [← hFetch]
  simp only [hCoinBase, Bool.false_eq_true, if_false]
  rcases fetchRecords env txdb pool true fMiner tx.vin ∅ with ⟨_ | _, inputsRet⟩ <;> rfl

/-- For a block, `FetchInputs` collects exactly the entries of the inputs. -/
theorem lookup_fetchInputs_block
    (hCoinBase : tx.isCoinBase = false)
    (hFetched : (fetchInputs env txdb pool tx true fMiner ∅).success = true) (hash : ℕ) :
    (fetchInputs env txdb pool tx true fMiner ∅).inputsRet.lookup hash =
      if ∃ txin ∈ tx.vin, txin.prevout.hash = hash then
        some (prevRecord txdb hash, prevTransaction env txdb pool hash)
      else none := by
  have hLoop := (fetchRecords_block fMiner tx.vin (collected_empty env txdb pool)).2
  unfold fetchInputs at hFetched ⊢
  simp only [hCoinBase, Bool.false_eq_true, if_false] at hFetched ⊢
  rcases hRecords : fetchRecords env txdb pool true fMiner tx.vin ∅ with ⟨success, inputsRet⟩
  rw [hRecords] at hFetched hLoop
  cases success with
  | false => simp at hFetched
  | true =>
      obtain ⟨hCollected, hKeys⟩ := hLoop rfl
      have hMem : ∀ txin ∈ tx.vin, txin.prevout.hash ∈ inputsRet := fun txin hTxin =>
        (hKeys _).mpr (Or.inr ⟨txin, hTxin, rfl⟩)
      obtain ⟨hAll, hSame⟩ := checkPrevoutIndexes_collected tx.vout.length false hCollected
        hMem
      simp only
      split_ifs with hUsed
      · have hIn := (hSame hash).mpr ((hKeys hash).mpr (Or.inr hUsed))
        obtain ⟨entry, hEntry⟩ := Table.mem_iff_lookup.mp hIn
        rw [hEntry, hAll hash entry hEntry]
      · refine Table.not_mem_iff_lookup.mp fun hIn => hUsed ?_
        rcases (hKeys hash).mp ((hSame hash).mp hIn) with hEmpty | hUsed'
        · exact absurd hEmpty (AList.notMem_empty hash)
        · exact hUsed'

end FetchBlock

/-! ## Marks on one record -/

/-- The record of a previous transaction after all inputs that refer to it have
been marked. -/
def CTxIndex.spendAll (txindex : CTxIndex) (vin : List CTxIn) (hash : ℕ)
    (posThisTx : CDiskTxPos) : CTxIndex :=
  vin.foldl (fun record txin =>
    if txin.prevout.hash = hash then record.spend txin.prevout.n posThisTx else record) txindex

section SpendAll

variable {txindex : CTxIndex} {vin : List CTxIn} {hash : ℕ} {posThisTx : CDiskTxPos}

@[simp] theorem CTxIndex.spendAll_nil :
    txindex.spendAll [] hash posThisTx = txindex := rfl

theorem CTxIndex.spendAll_cons (txin : CTxIn) :
    txindex.spendAll (txin :: vin) hash posThisTx =
      (if txin.prevout.hash = hash then txindex.spend txin.prevout.n posThisTx
        else txindex).spendAll vin hash posThisTx := rfl

theorem CTxIndex.spendAll_of_not_mem
    (h : ∀ txin ∈ vin, txin.prevout.hash ≠ hash) :
    txindex.spendAll vin hash posThisTx = txindex := by
  induction vin with
  | nil => rfl
  | cons txin rest ih =>
      rw [spendAll_cons, if_neg (h txin (by simp))]
      exact ih fun other hOther => h other (by simp [hOther])

/-- Marks move no record and change no number of outputs. -/
theorem CTxIndex.spendAll_shape :
    (txindex.spendAll vin hash posThisTx).pos = txindex.pos ∧
      (txindex.spendAll vin hash posThisTx).vSpent.length = txindex.vSpent.length := by
  induction vin generalizing txindex with
  | nil => simp
  | cons txin rest ih =>
      rw [spendAll_cons]
      obtain ⟨hPos, hLength⟩ := @ih (if txin.prevout.hash = hash then
        txindex.spend txin.prevout.n posThisTx else txindex)
      rw [hPos, hLength]
      split_ifs <;> simp [spend]

/-- The marked outputs are exactly those the inputs refer to. -/
theorem CTxIndex.getElem?_spendAll (n : ℕ) :
    (txindex.spendAll vin hash posThisTx).vSpent[n]? =
      if (∃ txin ∈ vin, txin.prevout = ⟨hash, n⟩) ∧ n < txindex.vSpent.length then
        some posThisTx
      else txindex.vSpent[n]? := by
  induction vin generalizing txindex with
  | nil => simp
  | cons txin rest ih =>
      rw [spendAll_cons, ih]
      by_cases hHash : txin.prevout.hash = hash
      · by_cases hn : txin.prevout.n = n
        · have hSame : txin.prevout = ⟨hash, n⟩ := by
            cases hPrev : txin.prevout
            simp_all
          by_cases hLt : n < txindex.vSpent.length
          · simp [spend, hSame, hLt]
          · simp [hHash, hn, spend, hLt]
        · have hOther : txin.prevout ≠ ⟨hash, n⟩ := fun h => hn (by rw [h])
          simp [hHash, spend, hOther, hn]
      · have hOther : txin.prevout ≠ ⟨hash, n⟩ := fun h => hHash (by rw [h])
        simp [hHash, hOther]

/-- Marking leaves a record as it is exactly when its marks are there already. -/
theorem CTxIndex.spendAll_eq_self_iff
    (hFit : ∀ txin ∈ vin, txin.prevout.hash = hash →
      txin.prevout.n < txindex.vSpent.length) :
    txindex.spendAll vin hash posThisTx = txindex ↔
      ∀ txin ∈ vin, txin.prevout.hash = hash →
        txindex.vSpent[txin.prevout.n]? = some posThisTx := by
  constructor
  · intro hSame txin hTxin hHash
    have hMark := @getElem?_spendAll txindex vin hash posThisTx txin.prevout.n
    have hUsed : ∃ other ∈ vin, other.prevout = ⟨hash, txin.prevout.n⟩ :=
      ⟨txin, hTxin, by rw [← hHash]⟩
    rwa [hSame, if_pos ⟨hUsed, hFit txin hTxin hHash⟩] at hMark
  · intro hMarked
    have hSpent : (txindex.spendAll vin hash posThisTx).vSpent = txindex.vSpent := by
      refine List.ext_getElem? fun n => ?_
      rw [getElem?_spendAll]
      split_ifs with hUsed
      · obtain ⟨⟨txin, hTxin, hPrevout⟩, -⟩ := hUsed
        have hMark := hMarked txin hTxin (by rw [hPrevout])
        rw [hPrevout] at hMark
        exact hMark.symm
      · rfl
    calc
      txindex.spendAll vin hash posThisTx
          = ⟨(txindex.spendAll vin hash posThisTx).pos,
              (txindex.spendAll vin hash posThisTx).vSpent⟩ := rfl
      _ = txindex := by rw [spendAll_shape.1, hSpent]

end SpendAll

/-! ## The records after connecting -/

section Connect

variable {env : Env} {st : ChainState} {tx : CTransaction} {ctx : ConnectContext}

/-- `prev` gives the transaction part of every entry. -/
def HasPrev (prev : ℕ → CTransaction) (inputs : MapPrevTx) : Prop :=
  ∀ hash entry, inputs.lookup hash = some entry → entry.2 = prev hash

/-- The outcome of one round that goes on. -/
theorem connectInput_eq_next
    {s s' : ConnectState} {input : CTxIn × ℕ}
    (h : connectInput env tx ctx s input = .ok (.next s')) :
    ∃ txindex txPrev, s.inputs.lookup input.1.prevout.hash = some (txindex, txPrev) ∧
      (txPrev.nTime > tx.nTime ∧ s' = s ∨
        txPrev.nTime ≤ tx.nTime ∧ input.1.prevout.n < txindex.vSpent.length ∧
        s'.inputs = s.inputs.insert input.1.prevout.hash
          (txindex.spend input.1.prevout.n ctx.posThisTx, txPrev) ∧
        s'.mapTestPool =
          if ctx.fBlock || ctx.fMiner then
            s.mapTestPool.insert input.1.prevout.hash
              (txindex.spend input.1.prevout.n ctx.posThisTx)
          else s.mapTestPool) := by
  unfold connectInput at h
  cases hLookup : s.inputs.lookup input.1.prevout.hash with
  | none => simp [hLookup] at h
  | some entry =>
      obtain ⟨txindex, txPrev⟩ := entry
      refine ⟨txindex, txPrev, rfl, ?_⟩
      simp only [hLookup] at h
      by_cases hTime : txPrev.nTime > tx.nTime
      · left
        rw [if_pos hTime] at h
        simpa [hTime, eq_comm] using h
      · right
        rw [if_neg hTime] at h
        simp only [bind_eq_ok] at h
        obtain ⟨spent, hSpent, refused, -, h⟩ := h
        have hLt := elementAt_isOk_iff.mp ⟨spent, hSpent⟩
        cases refused with
        | true => simp at h
        | false =>
            simp only [Bool.false_eq_true, if_false, bind_eq_ok, Except.ok.injEq,
              Flow.next.injEq] at h
            obtain ⟨-, -, rfl⟩ := h
            exact ⟨not_lt.mp hTime, hLt, rfl, rfl⟩

/-- After the second loop `mapTestPool` holds the marked record of every input
whose previous transaction is not younger, and is unchanged elsewhere. -/
theorem connectLoop_lookup
    {prev : ℕ → CTransaction} {vin : List CTxIn} {k : ℕ} {s s' : ConnectState}
    (hBlock : ctx.fBlock = true)
    (hPrev : HasPrev prev s.inputs)
    (hRun : forEach (connectInput env tx ctx) (vin.zipIdx k) s = .ok (.next s')) (hash : ℕ) :
    s'.mapTestPool.lookup hash =
      if (∃ txin ∈ vin, txin.prevout.hash = hash) ∧ (prev hash).nTime ≤ tx.nTime then
        (s.inputs.lookup hash).map fun entry => entry.1.spendAll vin hash ctx.posThisTx
      else s.mapTestPool.lookup hash := by
  induction vin generalizing k s with
  | nil =>
      simp only [List.zipIdx_nil, forEach_nil, Except.ok.injEq, Flow.next.injEq] at hRun
      simp [hRun]
  | cons txin rest ih =>
      obtain ⟨s₁, hHead, hRest⟩ := forEach_cons_eq_next.mp hRun
      obtain ⟨txindex, txPrev, hLookup, hOutcome⟩ := connectInput_eq_next hHead
      simp only at hLookup hOutcome
      have hTxPrev : txPrev = prev txin.prevout.hash := hPrev _ _ hLookup
      rcases hOutcome with ⟨hTime, rfl⟩ | ⟨hTime, -, hInputs, hPool⟩
      · -- a younger previous transaction: the round leaves no trace
        rw [ih hPrev hRest]
        by_cases hHash : txin.prevout.hash = hash
        · have hYounger : ¬(prev hash).nTime ≤ tx.nTime := by
            rw [← hHash, ← hTxPrev]
            exact not_le.mpr hTime
          simp [hYounger]
        · simp [CTxIndex.spendAll_cons, hHash]
      · have hPrev₁ : HasPrev prev s₁.inputs := by
          intro hash' entry hEntry
          rw [hInputs, Table.lookup_insert_ite] at hEntry
          split_ifs at hEntry with hSame
          · rw [← Option.some.inj hEntry, hSame, hTxPrev]
          · exact hPrev hash' entry hEntry
        rw [ih hPrev₁ hRest, hInputs, hPool]
        simp only [hBlock, Bool.true_or, if_true, Table.lookup_insert_ite]
        by_cases hHash : txin.prevout.hash = hash
        · subst hHash
          have hOlder : (prev txin.prevout.hash).nTime ≤ tx.nTime := hTxPrev ▸ hTime
          by_cases hUsed : ∃ other ∈ rest, other.prevout.hash = txin.prevout.hash
          · simp [hUsed, hOlder, hLookup, CTxIndex.spendAll_cons]
          · have hUnused : ∀ other ∈ rest, other.prevout.hash ≠ txin.prevout.hash :=
              fun other hOther hEq => hUsed ⟨other, hOther, hEq⟩
            simp [hUsed, hOlder, hLookup, CTxIndex.spendAll_cons,
              CTxIndex.spendAll_of_not_mem hUnused]
        · simp [CTxIndex.spendAll_cons, hHash, Ne.symm hHash]

/-- A transaction marks a previous one: one of its inputs refers to it and the
previous transaction, as far as it is known, is not younger. -/
def marks (prev : ℕ → CTransaction) (tx : CTransaction) (hash : ℕ) : Prop :=
  (∃ txin ∈ tx.vin, txin.prevout.hash = hash) ∧ (prev hash).nTime ≤ tx.nTime

instance (prev : ℕ → CTransaction) (tx : CTransaction) (hash : ℕ) :
    Decidable (marks prev tx hash) :=
  inferInstanceAs (Decidable (_ ∧ _))

/-- A round returns only to refuse. -/
theorem connectInput_eq_returned
    {s : ConnectState} {input : CTxIn × ℕ} {r : Bool}
    (h : connectInput env tx ctx s input = .ok (.returned r)) :
    r = false := by
  unfold connectInput at h
  cases hLookup : s.inputs.lookup input.1.prevout.hash with
  | none => simp [hLookup] at h
  | some entry =>
      obtain ⟨txindex, txPrev⟩ := entry
      simp only [hLookup] at h
      by_cases hTime : txPrev.nTime > tx.nTime
      · simp [hTime] at h
      · rw [if_neg hTime] at h
        simp only [bind_eq_ok] at h
        obtain ⟨-, -, refused, -, h⟩ := h
        cases refused with
        | true => simpa using h.symm
        | false => simp [bind_eq_ok] at h

/-- A successful `ConnectInputs` ran its second loop to the end. -/
theorem connectInputs_eq_true
    {inputs : MapPrevTx} {mapTestPool mapTestPool' : Table ℕ CTxIndex}
    (hCoinBase : tx.isCoinBase = false)
    (h : connectInputs env st tx ctx inputs mapTestPool = .ok (true, mapTestPool')) :
    ∃ s, forEach (connectInput env tx ctx) tx.vin.zipIdx ⟨inputs, mapTestPool⟩ =
        .ok (.next s) ∧ s.mapTestPool = mapTestPool' := by
  unfold connectInputs at h
  simp only [hCoinBase, Bool.false_eq_true, if_false] at h
  by_cases hImmature : (tx.vin.any fun txin => spendsImmature env st tx ctx inputs txin) = true
  · simp [hImmature] at h
  · rw [if_neg hImmature] at h
    simp only [bind_eq_ok] at h
    obtain ⟨flow, hLoop, h⟩ := h
    cases flow with
    | returned success =>
        have hFalse : success = false :=
          forEach_returned (P := fun r => r = false)
            (fun _ _ _ _ hBody => connectInput_eq_returned hBody) hLoop
        simp [hFalse] at h
    | next s =>
        refine ⟨s, hLoop, ?_⟩
        by_cases hStake : tx.isCoinStake = true
        · simpa [hStake] using h
        · simp only [hStake, Bool.false_eq_true, if_false, bind_eq_ok, Except.ok.injEq,
            Prod.mk.injEq, true_and] at h
          exact h.choose_spec.2

/-- What a successful `ConnectInputs` writes into `mapTestPool`. -/
theorem connectInputs_lookup
    {prev : ℕ → CTransaction} {inputs : MapPrevTx} {mapTestPool mapTestPool' : Table ℕ CTxIndex}
    (hBlock : ctx.fBlock = true) (hCoinBase : tx.isCoinBase = false)
    (hPrev : HasPrev prev inputs)
    (h : connectInputs env st tx ctx inputs mapTestPool = .ok (true, mapTestPool'))
    (hash : ℕ) :
    mapTestPool'.lookup hash =
      if marks prev tx hash then
        (inputs.lookup hash).map fun entry => entry.1.spendAll tx.vin hash ctx.posThisTx
      else mapTestPool.lookup hash := by
  obtain ⟨s, hLoop, rfl⟩ := connectInputs_eq_true hCoinBase h
  exact connectLoop_lookup hBlock hPrev hLoop hash

end Connect

end SocietyGold
