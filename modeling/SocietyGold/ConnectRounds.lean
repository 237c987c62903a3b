import SocietyGold.ConnectGuards
import SocietyGold.Connect

/-!
# The transaction loop of a block connection

Each round of the loop in `ConnectBlock` ends in one of three ways: it stops the
connection with success, it goes on to the next transaction, or it does neither.
The conditions look at signature operations, at lookups and at missing or
immature inputs; no round compares amounts.  What the rounds that go on leave in
`mapQueuedChanges` is described by its lookups.
-/

namespace SocietyGold

open Support

/-- The previous transaction that connecting a block sees. -/
abbrev ChainState.seenPrev (env : Env) (st : ChainState) : ℕ → CTransaction :=
  prevTransaction env st.txdb st.mempool

/-! ## Conditions of one round -/

/-- The lookups before the inputs are connected stay in range. -/
def LookupsFit (prev : ℕ → CTransaction) (tx : CTransaction) : Prop :=
  (∀ txin ∈ tx.vin, txin.prevout.n ≤ tx.vout.length) ∧
    (tx.vin.length < 3 → ∀ txin ∈ tx.vin, CTransaction.valueKnown prev txin)

/-- Every input that is not skipped for its time has its mark in the record. -/
def MarksFit (record : ℕ → CTxIndex) (prev : ℕ → CTransaction) (tx : CTransaction) : Prop :=
  ∀ txin ∈ tx.vin, (prev txin.prevout.hash).nTime ≤ tx.nTime →
    txin.prevout.n < (record txin.prevout.hash).vSpent.length

/-- The signature operations of redeemed scripts, as far as they are counted. -/
def CTransaction.p2shSigOps (tx : CTransaction) : ℕ :=
  match tx.getP2SHSigOpCount with
  | .ok nSigOps => nSigOps
  | .error _ => 0

/-- The running count of signature operations after a transaction. -/
def sigOpsAfter (nSigOps : ℕ) (tx : CTransaction) : ℕ :=
  nSigOps + tx.getLegacySigOpCount + tx.p2shSigOps

section Conditions

variable (env : Env) (st : ChainState) (pindex : CBlockIndex)

/-- An input of a transaction that the block connection finds immature. -/
def seesImmature (tx : CTransaction) : Bool :=
  hasImmatureInput env st tx pindex (prevRecord st.txdb) (st.seenPrev env)

/-- An input of a transaction for which the connection stops as soon as it meets
the transaction. -/
def stopsConnection (tx : CTransaction) : Bool :=
  !tx.isCoinBase && (hasMissingInput st.txdb st.mempool tx || seesImmature env st pindex tx)

/-- The transaction ends the connection, with success. -/
def StopsAt (nSigOps : ℕ) (tx : CTransaction) : Prop :=
  nSigOps + tx.getLegacySigOpCount ≤ MAX_BLOCK_SIGOPS ∧ tx.isCoinBase = false ∧
    (hasMissingInput st.txdb st.mempool tx = true ∨
      LookupsFit (st.seenPrev env) tx ∧ seesImmature env st pindex tx = true ∧
        3 ≤ tx.vin.length)

/-- The connection goes on after the transaction. -/
def PassesRound (nSigOps : ℕ) (tx : CTransaction) : Prop :=
  nSigOps + tx.getLegacySigOpCount ≤ MAX_BLOCK_SIGOPS ∧
    (tx.isCoinBase = true ∨
      tx.isCoinBase = false ∧ stopsConnection env st pindex tx = false ∧
        LookupsFit (st.seenPrev env) tx ∧
        MarksFit (prevRecord st.txdb) (st.seenPrev env) tx)

/-- Some transaction ends the connection with success, after others that let it go
on. -/
def StopsEarly : (nSigOps : ℕ) → List CTransaction → Prop
  | _, [] => False
  | nSigOps, tx :: rest =>
      StopsAt env st pindex nSigOps tx ∨
        PassesRound env st pindex nSigOps tx ∧ StopsEarly (sigOpsAfter nSigOps tx) rest

/-- Every transaction lets the connection go on. -/
def RunsThrough : (nSigOps : ℕ) → List CTransaction → Prop
  | _, [] => True
  | nSigOps, tx :: rest =>
      PassesRound env st pindex nSigOps tx ∧ RunsThrough (sigOpsAfter nSigOps tx) rest

/-- The running count of signature operations stays within the limit. -/
def WithinSigOps : (nSigOps : ℕ) → List CTransaction → Prop
  | _, [] => True
  | nSigOps, tx :: rest =>
      nSigOps + tx.getLegacySigOpCount ≤ MAX_BLOCK_SIGOPS ∧
        WithinSigOps (sigOpsAfter nSigOps tx) rest

instance decidableWithinSigOps :
    (nSigOps : ℕ) → (vtx : List CTransaction) → Decidable (WithinSigOps nSigOps vtx)
  | _, [] => isTrue trivial
  | nSigOps, tx :: rest =>
      have := decidableWithinSigOps (sigOpsAfter nSigOps tx) rest
      inferInstanceAs (Decidable (_ ∧ _))

variable {env st pindex}

/-- A connection that stopped early met a transaction that stops it. -/
theorem exists_stopsConnection_of_stopsEarly
    {nSigOps : ℕ} {vtx : List CTransaction} (h : StopsEarly env st pindex nSigOps vtx) :
    ∃ tx ∈ vtx, stopsConnection env st pindex tx = true := by
  induction vtx generalizing nSigOps with
  | nil => exact h.elim
  | cons tx rest ih =>
      rcases h with ⟨-, hCoinBase, hStop⟩ | ⟨-, hRest⟩
      · refine ⟨tx, by simp, ?_⟩
        rcases hStop with hMissing | ⟨-, hImmature, -⟩
        · simp [stopsConnection, hCoinBase, hMissing]
        · simp [stopsConnection, hCoinBase, hImmature]
      · obtain ⟨other, hOther, hStop⟩ := ih hRest
        exact ⟨other, by simp [hOther], hStop⟩

/-- The conditions a connection that ran through found at each transaction. -/
theorem passes_of_runsThrough
    {nSigOps : ℕ} {vtx : List CTransaction} (h : RunsThrough env st pindex nSigOps vtx) :
    ∀ tx ∈ vtx, tx.isCoinBase = false →
      stopsConnection env st pindex tx = false ∧ LookupsFit (st.seenPrev env) tx ∧
        MarksFit (prevRecord st.txdb) (st.seenPrev env) tx := by
  induction vtx generalizing nSigOps with
  | nil => simp
  | cons tx rest ih =>
      obtain ⟨⟨-, hPass⟩, hRest⟩ := h
      intro other hOther hSpends
      rcases List.mem_cons.mp hOther with rfl | hOther
      · rcases hPass with hCoinBase | ⟨-, hConditions⟩
        · rw [hCoinBase] at hSpends
          cases hSpends
        · exact hConditions
      · exact ih hRest other hOther hSpends

/-- A connection that ran through met no transaction that stops it. -/
theorem stopsConnection_eq_false_of_runsThrough
    {nSigOps : ℕ} {vtx : List CTransaction} (h : RunsThrough env st pindex nSigOps vtx) :
    ∀ tx ∈ vtx, stopsConnection env st pindex tx = false := by
  intro tx hTx
  cases hCoinBase : tx.isCoinBase with
  | true => simp [stopsConnection, hCoinBase]
  | false => exact (passes_of_runsThrough h tx hTx hCoinBase).1

theorem not_stopsEarly_of_runsThrough
    {nSigOps nSigOps' : ℕ} {vtx : List CTransaction}
    (h : RunsThrough env st pindex nSigOps vtx) : ¬StopsEarly env st pindex nSigOps' vtx := by
  intro hEarly
  obtain ⟨tx, hTx, hStop⟩ := exists_stopsConnection_of_stopsEarly hEarly
  rw [stopsConnection_eq_false_of_runsThrough h tx hTx] at hStop
  cases hStop

end Conditions

/-! ## Positions and the queue -/

/-- The transactions of a block with the positions `ConnectBlock` gives them. -/
def positioned (pindex : CBlockIndex) :
    (nTxPos : ℕ) → List CTransaction → List (CTransaction × CDiskTxPos)
  | _, [] => []
  | nTxPos, tx :: rest =>
      (tx, ⟨pindex.nFile, pindex.nBlockPos, nTxPos⟩) ::
        positioned pindex ((nTxPos + tx.getSerializeSize) % 2 ^ 32) rest

theorem map_fst_positioned (pindex : CBlockIndex) (nTxPos : ℕ) (vtx : List CTransaction) :
    (positioned pindex nTxPos vtx).map Prod.fst = vtx := by
  induction vtx generalizing nTxPos with
  | nil => rfl
  | cons tx rest ih => simp [positioned, ih]

theorem mem_of_mem_positioned
    {pindex : CBlockIndex} {nTxPos : ℕ} {vtx : List CTransaction}
    {entry : CTransaction × CDiskTxPos} (h : entry ∈ positioned pindex nTxPos vtx) :
    entry.1 ∈ vtx := by
  rw [← map_fst_positioned pindex nTxPos vtx]
  exact List.mem_map_of_mem h

theorem nFile_of_mem_positioned
    {pindex : CBlockIndex} {nTxPos : ℕ} {vtx : List CTransaction}
    {entry : CTransaction × CDiskTxPos} (h : entry ∈ positioned pindex nTxPos vtx) :
    entry.2.nFile = pindex.nFile := by
  induction vtx generalizing nTxPos with
  | nil => simp [positioned] at h
  | cons tx rest ih =>
      rcases List.mem_cons.mp h with rfl | hRest
      · rfl
      · exact ih hRest

/-- What the round of one transaction does to the queued record of a hash. -/
def queueRound (prims : Primitives) (record : ℕ → CTxIndex) (prev : ℕ → CTransaction)
    (queue : ℕ → Option CTxIndex) (entry : CTransaction × CDiskTxPos) : ℕ → Option CTxIndex :=
  fun hash =>
    if hash = entry.1.getHash prims then
      some (CTxIndex.unspent entry.2 entry.1.vout.length)
    else if entry.1.isCoinBase = false ∧ marks prev entry.1 hash then
      some ((record hash).spendAll entry.1.vin hash entry.2)
    else queue hash

/-- The queue of a block connection, by hash. -/
def queuedChanges (env : Env) (st : ChainState) (block : CBlock) (pindex : CBlockIndex) :
    ℕ → Option CTxIndex :=
  (positioned pindex (firstTxPos pindex block false) block.vtx).foldl
    (queueRound env.prims (prevRecord st.txdb) (st.seenPrev env)) fun _ => none

/-- The last transaction that marks a previous one, with its position. -/
def lastMarking (prev : ℕ → CTransaction) (entries : List (CTransaction × CDiskTxPos))
    (hash : ℕ) : Option (CTransaction × CDiskTxPos) :=
  entries.reverse.find? fun entry => !entry.1.isCoinBase && decide (marks prev entry.1 hash)

theorem lastMarking_eq_some
    {prev : ℕ → CTransaction} {entries : List (CTransaction × CDiskTxPos)} {hash : ℕ}
    {entry : CTransaction × CDiskTxPos} (h : lastMarking prev entries hash = some entry) :
    entry ∈ entries ∧ entry.1.isCoinBase = false ∧ marks prev entry.1 hash := by
  have hProperty := List.find?_some h
  simp only [Bool.and_eq_true, Bool.not_eq_true', decide_eq_true_eq] at hProperty
  exact ⟨List.mem_reverse.mp (List.mem_of_find?_eq_some h), hProperty⟩

theorem exists_lastMarking
    {prev : ℕ → CTransaction} (pindex : CBlockIndex) (nTxPos : ℕ) {vtx : List CTransaction}
    {tx : CTransaction} {hash : ℕ} (hTx : tx ∈ vtx) (hSpends : tx.isCoinBase = false)
    (hMarks : marks prev tx hash) :
    ∃ entry, lastMarking prev (positioned pindex nTxPos vtx) hash = some entry := by
  rw [← map_fst_positioned pindex nTxPos vtx] at hTx
  obtain ⟨entry, hEntry, rfl⟩ := List.mem_map.mp hTx
  rw [← Option.isSome_iff_exists, lastMarking, List.find?_isSome]
  exact ⟨entry, List.mem_reverse.mpr hEntry, by simp [hSpends, hMarks]⟩

/-- For a hash that is no transaction id of the block, the queue holds the record
that the last transaction to mark it leaves: the marks of earlier ones are lost. -/
theorem foldl_queueRound_of_not_txid
    {prims : Primitives} {record : ℕ → CTxIndex} {prev : ℕ → CTransaction}
    {entries : List (CTransaction × CDiskTxPos)} {queue : ℕ → Option CTxIndex} {hash : ℕ}
    (hTxid : ∀ entry ∈ entries, entry.1.getHash prims ≠ hash) :
    entries.foldl (queueRound prims record prev) queue hash =
      ((lastMarking prev entries hash).map fun entry =>
        (record hash).spendAll entry.1.vin hash entry.2).or (queue hash) := by
  induction entries generalizing queue with
  | nil => rfl
  | cons entry rest ih =>
      rw [List.foldl_cons, ih fun other hOther => hTxid other (by simp [hOther])]
      have hHead : queueRound prims record prev queue entry hash =
          if entry.1.isCoinBase = false ∧ marks prev entry.1 hash then
            some ((record hash).spendAll entry.1.vin hash entry.2)
          else queue hash := by
        rw [queueRound, if_neg (hTxid entry (by simp)).symm]
      have hLast : lastMarking prev (entry :: rest) hash =
          (lastMarking prev rest hash).or
            (if entry.1.isCoinBase = false ∧ marks prev entry.1 hash then some entry
              else none) := by
        unfold lastMarking
        rw [List.reverse_cons, List.find?_append, List.find?_singleton]
        simp only [Bool.and_eq_true, Bool.not_eq_true', decide_eq_true_eq]
      rw [hHead, hLast]
      cases lastMarking prev rest hash with
      | some last => rfl
      | none => split_ifs <;> rfl

/-! ## One round -/

section Round

variable {env : Env} {st : ChainState} {pindex : CBlockIndex} {fProofOfWork : Bool}
  {tx : CTransaction} {tally : ConnectTally}

theorem blockContext_mandatory (posThisTx : CDiskTxPos) :
    (blockContext pindex posThisTx).flags &&& STANDARD_NOT_MANDATORY_VERIFY_FLAGS = 0 :=
  (by decide : SCRIPT_VERIFY_NOCACHE &&& STANDARD_NOT_MANDATORY_VERIFY_FLAGS = 0)

/-- With the flags of a block connection no round of `ConnectInputs` returns. -/
theorem connectInput_ne_returned
    {ctx : ConnectContext} (hFlags : ctx.flags &&& STANDARD_NOT_MANDATORY_VERIFY_FLAGS = 0)
    {s : ConnectState} {input : CTxIn × ℕ} (hIndex : input.2 < tx.vin.length) (r : Bool) :
    connectInput env tx ctx s input ≠ .ok (.returned r) := by
  intro h
  unfold connectInput at h
  cases hLookup : s.inputs.lookup input.1.prevout.hash with
  | none => simp [hLookup] at h
  | some entry =>
      obtain ⟨txindex, txPrev⟩ := entry
      simp only [hLookup] at h
      by_cases hTime : txPrev.nTime > tx.nTime
      · simp [hTime] at h
      · rw [if_neg hTime] at h
        simp only [bind_eq_ok, refusesSignature_eq_false hFlags hIndex, Except.ok.injEq] at h
        obtain ⟨-, -, refused, rfl, h⟩ := h
        simp [bind_eq_ok] at h

/-- `ConnectInputs` in a block returns false exactly for an immature input. -/
theorem connectInputs_block_result
    {posThisTx : CDiskTxPos} {inputs : MapPrevTx} {queue queue' : Table ℕ CTxIndex}
    {connected : Bool} {record : ℕ → CTxIndex} {prev : ℕ → CTransaction}
    (hCoinBase : tx.isCoinBase = false)
    (hLookup : ∀ txin ∈ tx.vin, inputs.lookup txin.prevout.hash =
      some (record txin.prevout.hash, prev txin.prevout.hash))
    (h : connectInputs env st tx (blockContext pindex posThisTx) inputs queue =
      .ok (connected, queue')) :
    connected = !hasImmatureInput env st tx pindex record prev := by
  unfold connectInputs at h
  simp only [hCoinBase, Bool.false_eq_true, if_false,
    any_spendsImmature_eq (blockContext pindex posThisTx) hLookup] at h
  by_cases hImmature : hasImmatureInput env st tx pindex record prev = true
  · rw [if_pos (by simpa [blockContext] using hImmature)] at h
    simp only [Except.ok.injEq, Prod.mk.injEq] at h
    simp [← h.1, hImmature]
  · rw [if_neg (by simpa [blockContext] using hImmature)] at h
    simp only [bind_eq_ok] at h
    obtain ⟨flow, hLoop, h⟩ := h
    have hTrue : connected = true := by
      cases flow with
      | returned success =>
          refine (forEach_returned (P := fun _ => False) ?_ hLoop).elim
          intro s input r hMem hBody
          have hIndex : input.2 < tx.vin.length := by
            simpa using List.snd_lt_of_mem_zipIdx hMem
          exact connectInput_ne_returned (blockContext_mandatory posThisTx) hIndex r hBody
      | next s =>
          by_cases hStake : tx.isCoinStake = true
          · simp only [hStake, if_true, Except.ok.injEq, Prod.mk.injEq] at h
            exact h.1.symm
          · simp only [hStake, Bool.false_eq_true, if_false, bind_eq_ok, Except.ok.injEq,
              Prod.mk.injEq] at h
            exact h.choose_spec.2.1.symm
    simp [hTrue, hImmature]

/-- In a block the marks are in range exactly when the marks of all inputs that
are not skipped are. -/
theorem marksInRange_block
    {posThisTx : CDiskTxPos} {record : ℕ → CTxIndex} {prev : ℕ → CTransaction} {k : ℕ}
    {vin : List CTxIn} (hLength : vin.length + k ≤ tx.vin.length) :
    MarksInRange env tx (blockContext pindex posThisTx) record prev (vin.zipIdx k) ↔
      ∀ txin ∈ vin, (prev txin.prevout.hash).nTime ≤ tx.nTime →
        txin.prevout.n < (record txin.prevout.hash).vSpent.length := by
  induction vin generalizing k with
  | nil => simp [MarksInRange]
  | cons txin rest ih =>
      have hRest := ih (k := k + 1) (by simp only [List.length_cons] at hLength; omega)
      have hIndex : k < tx.vin.length := by
        simp only [List.length_cons] at hLength
        omega
      rw [List.zipIdx_cons, MarksInRange, hRest,
        refusesSignature_eq_false (blockContext_mandatory posThisTx) hIndex]
      by_cases hTime : (prev txin.prevout.hash).nTime > tx.nTime
      · have hSkip : ¬(prev txin.prevout.hash).nTime ≤ tx.nTime := not_le.mpr hTime
        simp [hTime, hSkip]
      · simp [not_lt.mp hTime]

/-- The value totals are computed exactly when the previous values are known, and
change neither the counts nor the queue. -/
theorem tallyValues_inRange
    (fProofOfWork : Bool) (tally : ConnectTally) {record : ℕ → CTxIndex}
    {prev : ℕ → CTransaction} {inputs : MapPrevTx}
    (hChecked : tx.checkTransaction = .ok ()) (hCoinBase : tx.isCoinBase = false)
    (hLookup : ∀ txin ∈ tx.vin, inputs.lookup txin.prevout.hash =
      some (record txin.prevout.hash, prev txin.prevout.hash)) :
    InRangeIff (tx.vin.length < 3 → ∀ txin ∈ tx.vin, CTransaction.valueKnown prev txin)
      (tallyValues fProofOfWork tx inputs tally) := by
  have hIn : tx.vin ≠ [] := CTransaction.vin_ne_nil_of_checked hChecked
  have hOut : tx.vout ≠ [] := CTransaction.vout_ne_nil_of_checked hChecked
  unfold tallyValues
  by_cases hSmall : tx.vin.length < 3
  · rw [if_pos hSmall, CTransaction.getValueOut_of_checked hChecked]
    have hValueIn := CTransaction.getValueIn_inRange hIn hOut hCoinBase hLookup
    refine (hValueIn.bind (Q := True) fun nTxValueIn _ => ?_).congr (by simp [hSmall])
    exact inRangeIff_ok _
  · rw [if_neg hSmall]
    exact (inRangeIff_ok _).congr (by simp [hSmall])

theorem tallyValues_frame
    {inputs : MapPrevTx} {tally' : ConnectTally}
    (h : tallyValues fProofOfWork tx inputs tally = .ok tally') :
    tally'.nSigOps = tally.nSigOps ∧ tally'.nTxPos = tally.nTxPos ∧
      tally'.mapQueuedChanges = tally.mapQueuedChanges := by
  unfold tallyValues at h
  by_cases hSmall : tx.vin.length < 3
  · simp only [hSmall, if_true, bind_eq_ok, Except.ok.injEq] at h
    obtain ⟨-, -, -, -, rfl⟩ := h
    exact ⟨rfl, rfl, rfl⟩
  · rw [if_neg hSmall] at h
    cases h
    exact ⟨rfl, rfl, rfl⟩

/-- The outcome of connecting the inputs of a transaction. -/
theorem connectInputs_block
    (env : Env) (st : ChainState) (pindex : CBlockIndex) (posThisTx : CDiskTxPos)
    (queue : Table ℕ CTxIndex)
    (hChecked : tx.checkTransaction = .ok ()) (hCoinBase : tx.isCoinBase = false)
    (hFetched : (fetchInputs env st.txdb st.mempool tx true false ∅).success = true) :
    (seesImmature env st pindex tx = true ∧ ∃ queue',
      connectInputs env st tx (blockContext pindex posThisTx)
        (fetchInputs env st.txdb st.mempool tx true false ∅).inputsRet queue =
          .ok (false, queue')) ∨
    (seesImmature env st pindex tx = false ∧
      MarksFit (prevRecord st.txdb) (st.seenPrev env) tx ∧ ∃ queue',
        connectInputs env st tx (blockContext pindex posThisTx)
          (fetchInputs env st.txdb st.mempool tx true false ∅).inputsRet queue =
            .ok (true, queue') ∧
        ∀ hash, queue'.lookup hash =
          if marks (st.seenPrev env) tx hash then
            some ((prevRecord st.txdb hash).spendAll tx.vin hash posThisTx)
          else queue.lookup hash) ∨
    (seesImmature env st pindex tx = false ∧
      ¬MarksFit (prevRecord st.txdb) (st.seenPrev env) tx ∧
      connectInputs env st tx (blockContext pindex posThisTx)
        (fetchInputs env st.txdb st.mempool tx true false ∅).inputsRet queue =
          .error .outOfRange) := by
  set inputs := (fetchInputs env st.txdb st.mempool tx true false ∅).inputsRet with hInputs
  have hLookup : ∀ hash, inputs.lookup hash =
      if ∃ txin ∈ tx.vin, txin.prevout.hash = hash then
        some (prevRecord st.txdb hash, st.seenPrev env hash)
      else none := lookup_fetchInputs_block hCoinBase hFetched
  have hEntry : ∀ txin ∈ tx.vin, inputs.lookup txin.prevout.hash =
      some (prevRecord st.txdb txin.prevout.hash, st.seenPrev env txin.prevout.hash) := by
    intro txin hTxin
    rw [hLookup, if_pos ⟨txin, hTxin, rfl⟩]
  have hMarks : MarksInRange env tx (blockContext pindex posThisTx) (prevRecord st.txdb)
      (st.seenPrev env) tx.vin.zipIdx ↔ MarksFit (prevRecord st.txdb) (st.seenPrev env) tx :=
    marksInRange_block (by simp)
  rcases connectInputs_inRange env st (blockContext pindex posThisTx) queue hChecked hCoinBase
      hLookup with
    ⟨hFits, ⟨connected, queue'⟩, hOk⟩ | ⟨hNot, hError⟩
  · have hResult := connectInputs_block_result hCoinBase hEntry hOk
    by_cases hImmature : seesImmature env st pindex tx = true
    · have hFalse : connected = false := by
        rw [hResult, Bool.not_eq_false']
        exact hImmature
      subst hFalse
      exact Or.inl ⟨hImmature, queue', hOk⟩
    · have hNotImmature : seesImmature env st pindex tx = false := by simpa using hImmature
      have hTrue : connected = true := by
        rw [hResult, Bool.not_eq_true']
        exact hNotImmature
      subst hTrue
      have hFit : MarksFit (prevRecord st.txdb) (st.seenPrev env) tx := by
        rcases hFits with hSeen | hFits
        · exact absurd hSeen hImmature
        · exact hMarks.mp hFits
      refine Or.inr (Or.inl ⟨hNotImmature, hFit, queue', hOk, fun hash => ?_⟩)
      have hPrev : HasPrev (st.seenPrev env) inputs := by
        intro hash entry hFound
        rw [hLookup] at hFound
        split_ifs at hFound
        rw [← Option.some.inj hFound]
      rw [connectInputs_lookup rfl hCoinBase hPrev hOk]
      by_cases hMark : marks (st.seenPrev env) tx hash
      · rw [if_pos hMark, if_pos hMark, hLookup, if_pos hMark.1]
        rfl
      · rw [if_neg hMark, if_neg hMark]
  · refine Or.inr (Or.inr ⟨?_, fun hFit => hNot (Or.inr (hMarks.mpr hFit)), hError⟩)
    exact Bool.eq_false_of_not_eq_true fun hSeen => hNot (Or.inl hSeen)

/-- When the inputs are found the lookups are made first, and then the inputs are
connected. -/
theorem connectSpending_of_found
    (env : Env) (st : ChainState) (pindex : CBlockIndex) (fProofOfWork : Bool)
    (posThisTx : CDiskTxPos) (tally : ConnectTally)
    (hChecked : tx.checkTransaction = .ok ()) (hCoinBase : tx.isCoinBase = false)
    (hFetched : (fetchInputs env st.txdb st.mempool tx true false ∅).success = true) :
    (LookupsFit (st.seenPrev env) tx ∧ ∃ tally₁ : ConnectTally,
      tally₁.nSigOps = tally.nSigOps + tx.p2shSigOps ∧ tally₁.nTxPos = tally.nTxPos ∧
      connectSpending env st pindex fProofOfWork tx posThisTx tally = (do
        let (connected, queue) ← connectInputs env st tx (blockContext pindex posThisTx)
          (fetchInputs env st.txdb st.mempool tx true false ∅).inputsRet tally.mapQueuedChanges
        if !connected then .ok (.returned (decide (3 ≤ tx.vin.length)))
        else .ok (.next (({ tally₁ with mapQueuedChanges := queue } : ConnectTally).queueRecord
          env tx posThisTx)))) ∨
    (¬LookupsFit (st.seenPrev env) tx ∧
      ∀ flow, connectSpending env st pindex fProofOfWork tx posThisTx tally ≠ .ok flow) := by
  have hIn : tx.vin ≠ [] := CTransaction.vin_ne_nil_of_checked hChecked
  have hOut : tx.vout ≠ [] := CTransaction.vout_ne_nil_of_checked hChecked
  have hEntry : ∀ txin ∈ tx.vin,
      (fetchInputs env st.txdb st.mempool tx true false ∅).inputsRet.lookup txin.prevout.hash =
        some (prevRecord st.txdb txin.prevout.hash, st.seenPrev env txin.prevout.hash) := by
    intro txin hTxin
    rw [lookup_fetchInputs_block hCoinBase hFetched, if_pos ⟨txin, hTxin, rfl⟩]
  unfold connectSpending
  simp only [hFetched, Bool.not_true, Bool.false_eq_true, if_false]
  rcases CTransaction.getP2SHSigOpCount_inRange hIn hOut hCoinBase with
    ⟨hOwn, nP2SHSigOps, hCount⟩ | ⟨hOwn, hCount⟩
  · have hSigOps : tx.p2shSigOps = nP2SHSigOps := by simp [CTransaction.p2shSigOps, hCount]
    simp only [hCount, ok_bind]
    rcases tallyValues_inRange fProofOfWork
        { tally with nSigOps := tally.nSigOps + nP2SHSigOps } hChecked hCoinBase hEntry with
      ⟨hValues, tally₁, hTally⟩ | ⟨hValues, hTally⟩
    · obtain ⟨hSig, hPos, hQueue⟩ := tallyValues_frame hTally
      dsimp only at hSig hPos hQueue
      refine Or.inl ⟨⟨hOwn, hValues⟩, tally₁, by rw [hSig, hSigOps], hPos, ?_⟩
      simp only [hTally, ok_bind, hQueue]
    · refine Or.inr ⟨fun hFit => hValues hFit.2, fun flow hFlow => ?_⟩
      simp [hTally] at hFlow
  · refine Or.inr ⟨fun hFit => hOwn hFit.1, fun flow hFlow => ?_⟩
    simp [hCount] at hFlow

/-- A round for a transaction that is not a coinbase, by its outcome. -/
theorem connectSpending_spec
    (env : Env) (st : ChainState) (pindex : CBlockIndex) (fProofOfWork : Bool)
    (posThisTx : CDiskTxPos) (tally : ConnectTally)
    (hChecked : tx.checkTransaction = .ok ()) (hCoinBase : tx.isCoinBase = false) :
    ((hasMissingInput st.txdb st.mempool tx = true ∨
        LookupsFit (st.seenPrev env) tx ∧ seesImmature env st pindex tx = true ∧
          3 ≤ tx.vin.length) ∧
      connectSpending env st pindex fProofOfWork tx posThisTx tally = .ok (.returned true)) ∨
    (stopsConnection env st pindex tx = false ∧ LookupsFit (st.seenPrev env) tx ∧
      MarksFit (prevRecord st.txdb) (st.seenPrev env) tx ∧
      ∃ tally',
        connectSpending env st pindex fProofOfWork tx posThisTx tally = .ok (.next tally') ∧
        tally'.nSigOps = tally.nSigOps + tx.p2shSigOps ∧ tally'.nTxPos = tally.nTxPos ∧
        ∀ hash, tally'.mapQueuedChanges.lookup hash =
          queueRound env.prims (prevRecord st.txdb) (st.seenPrev env)
            tally.mapQueuedChanges.lookup (tx, posThisTx) hash) ∨
    (¬(hasMissingInput st.txdb st.mempool tx = true ∨
        LookupsFit (st.seenPrev env) tx ∧ seesImmature env st pindex tx = true ∧
          3 ≤ tx.vin.length) ∧
      ¬(stopsConnection env st pindex tx = false ∧ LookupsFit (st.seenPrev env) tx ∧
        MarksFit (prevRecord st.txdb) (st.seenPrev env) tx) ∧
      ∀ flow, connectSpending env st pindex fProofOfWork tx posThisTx tally = .ok flow →
        flow = .returned false ∧ stopsConnection env st pindex tx = true) := by
  have hSuccess := fetchInputs_block_success env st.txdb st.mempool false hCoinBase
  by_cases hMissing : hasMissingInput st.txdb st.mempool tx = true
  · left
    exact ⟨Or.inl hMissing, by simp [connectSpending, hSuccess, hMissing]⟩
  have hFetched : (fetchInputs env st.txdb st.mempool tx true false ∅).success = true := by
    simp [hSuccess, hMissing]
  simp only [hMissing, Bool.false_eq_true, false_or]
  rcases connectSpending_of_found env st pindex fProofOfWork posThisTx tally hChecked hCoinBase
      hFetched with
    ⟨hFit, tally₁, hSig, hPos, hRun⟩ | ⟨hNotFit, hNever⟩
  · rw [hRun]
    rcases connectInputs_block env st pindex posThisTx tally.mapQueuedChanges hChecked
        hCoinBase hFetched with
      ⟨hImmature, queue', hConnect⟩ | ⟨hImmature, hMarks, queue', hConnect, hLookup⟩ |
        ⟨hImmature, hMarks, hConnect⟩
    · simp only [hConnect, ok_bind, Bool.not_false, if_true]
      by_cases hMany : 3 ≤ tx.vin.length
      · left
        exact ⟨⟨hFit, hImmature, hMany⟩, by simp [hMany]⟩
      · right; right
        refine ⟨fun h => hMany h.2.2, fun h => ?_, ?_⟩
        · simp [stopsConnection, hCoinBase, hImmature] at h
        · intro flow hFlow
          refine ⟨by simpa [hMany, eq_comm] using hFlow, ?_⟩
          simp [stopsConnection, hCoinBase, hImmature]
    · right; left
      have hGo : stopsConnection env st pindex tx = false := by
        simp [stopsConnection, hImmature, hMissing]
      refine ⟨hGo, hFit, hMarks,
        ({ tally₁ with mapQueuedChanges := queue' } : ConnectTally).queueRecord env tx posThisTx,
        ?_, hSig, hPos, fun hash => ?_⟩
      · simp only [hConnect, ok_bind, Bool.not_true, Bool.false_eq_true, if_false]
      · simp only [ConnectTally.queueRecord, Table.lookup_insert_ite, hLookup, queueRound,
          hCoinBase, true_and]
    · right; right
      refine ⟨fun h => ?_, fun h => hMarks h.2.2, ?_⟩
      · simp [hImmature] at h
      · intro flow hFlow
        simp [hConnect] at hFlow
  · right; right
    exact ⟨fun h => hNotFit h.1, fun h => hNotFit h.2.1, fun flow hFlow =>
      absurd hFlow (hNever flow)⟩

/-- A round of `ConnectBlock`, by its outcome. -/
theorem connectTransaction_spec
    (env : Env) (st : ChainState) (pindex : CBlockIndex) (fProofOfWork : Bool)
    (tally : ConnectTally) (hChecked : tx.checkTransaction = .ok ()) :
    (StopsAt env st pindex tally.nSigOps tx ∧
      connectTransaction env st pindex fProofOfWork false tally tx = .ok (.returned true)) ∨
    (PassesRound env st pindex tally.nSigOps tx ∧
      ∃ tally',
        connectTransaction env st pindex fProofOfWork false tally tx = .ok (.next tally') ∧
        tally'.nSigOps = sigOpsAfter tally.nSigOps tx ∧
        tally'.nTxPos = (tally.nTxPos + tx.getSerializeSize) % 2 ^ 32 ∧
        ∀ hash, tally'.mapQueuedChanges.lookup hash =
          queueRound env.prims (prevRecord st.txdb) (st.seenPrev env)
            tally.mapQueuedChanges.lookup
            (tx, ⟨pindex.nFile, pindex.nBlockPos, tally.nTxPos⟩) hash) ∨
    (¬StopsAt env st pindex tally.nSigOps tx ∧
      ¬PassesRound env st pindex tally.nSigOps tx ∧
      ∀ flow, connectTransaction env st pindex fProofOfWork false tally tx = .ok flow →
        flow = .returned false ∧
          (MAX_BLOCK_SIGOPS < tally.nSigOps + tx.getLegacySigOpCount ∨
            stopsConnection env st pindex tx = true)) := by
  unfold connectTransaction StopsAt PassesRound
  by_cases hLimit : tally.nSigOps + tx.getLegacySigOpCount > MAX_BLOCK_SIGOPS
  · right; right
    have hOver : ¬tally.nSigOps + tx.getLegacySigOpCount ≤ MAX_BLOCK_SIGOPS := not_le.mpr hLimit
    refine ⟨fun h => hOver h.1, fun h => hOver h.1, ?_⟩
    intro flow hFlow
    exact ⟨by simpa [hLimit, eq_comm] using hFlow, Or.inl hLimit⟩
  · have hWithin : tally.nSigOps + tx.getLegacySigOpCount ≤ MAX_BLOCK_SIGOPS := not_lt.mp hLimit
    simp only [hLimit, if_false, hWithin, true_and, Bool.false_eq_true]
    by_cases hCoinBase : tx.isCoinBase = true
    · right; left
      refine ⟨Or.inl hCoinBase, ?_⟩
      simp only [hCoinBase, if_true, CTransaction.getValueOut_of_checked hChecked, ok_bind]
      refine ⟨_, rfl, ?_, rfl, ?_⟩
      · simp [ConnectTally.queueRecord, sigOpsAfter, CTransaction.p2shSigOps,
          CTransaction.getP2SHSigOpCount, hCoinBase]
      · intro hash
        simp [ConnectTally.queueRecord, Table.lookup_insert_ite, queueRound, hCoinBase]
    · have hSpends : tx.isCoinBase = false := by simpa using hCoinBase
      simp only [hSpends, Bool.false_eq_true, if_false, true_and, false_or]
      rcases connectSpending_spec env st pindex fProofOfWork
          ⟨pindex.nFile, pindex.nBlockPos, tally.nTxPos⟩
          { tally with
            nSigOps := tally.nSigOps + tx.getLegacySigOpCount
            nTxPos := (tally.nTxPos + tx.getSerializeSize) % 2 ^ 32 }
          hChecked hSpends with
        hStop | ⟨hGo, hFit, hMarks, tally', hNext, hSig, hPos, hQueue⟩ | hNeither
      · exact Or.inl hStop
      · exact Or.inr (Or.inl ⟨⟨hGo, hFit, hMarks⟩, tally', hNext, hSig, hPos, hQueue⟩)
      · exact Or.inr (Or.inr hNeither)

end Round

/-! ## The whole loop -/

section Loop

variable {env : Env} {st : ChainState} {pindex : CBlockIndex} {fProofOfWork : Bool}

/-- A transaction that lets the connection go on does not end it. -/
theorem PassesRound.not_stopsAt
    {nSigOps : ℕ} {tx : CTransaction} (hPass : PassesRound env st pindex nSigOps tx) :
    ¬StopsAt env st pindex nSigOps tx := by
  rintro ⟨-, hSpends, hStop⟩
  rcases hPass with ⟨-, hCoinBase | ⟨hCoinBase, hGo, -, -⟩⟩
  · exact absurd hSpends (by simp [hCoinBase])
  · rcases hStop with hMissing | ⟨-, hImmature, -⟩
    · simp [stopsConnection, hCoinBase, hMissing] at hGo
    · simp [stopsConnection, hCoinBase, hImmature] at hGo

/-- The loop over the transactions, by its outcome. -/
theorem connectLoop_spec
    (env : Env) (st : ChainState) (pindex : CBlockIndex) (fProofOfWork : Bool)
    (vtx : List CTransaction) (tally : ConnectTally)
    (hChecked : ∀ tx ∈ vtx, tx.checkTransaction = .ok ()) :
    (StopsEarly env st pindex tally.nSigOps vtx ∧
      forEach (connectTransaction env st pindex fProofOfWork false) vtx tally =
        .ok (.returned true)) ∨
    (RunsThrough env st pindex tally.nSigOps vtx ∧
      ∃ tally',
        forEach (connectTransaction env st pindex fProofOfWork false) vtx tally =
          .ok (.next tally') ∧
        ∀ hash, tally'.mapQueuedChanges.lookup hash =
          (positioned pindex tally.nTxPos vtx).foldl
            (queueRound env.prims (prevRecord st.txdb) (st.seenPrev env))
            tally.mapQueuedChanges.lookup hash) ∨
    (¬StopsEarly env st pindex tally.nSigOps vtx ∧
      ¬RunsThrough env st pindex tally.nSigOps vtx ∧
      ∀ flow, forEach (connectTransaction env st pindex fProofOfWork false) vtx tally =
        .ok flow → flow = .returned false ∧
          (WithinSigOps tally.nSigOps vtx →
            ∃ tx ∈ vtx, stopsConnection env st pindex tx = true)) := by
  induction vtx generalizing tally with
  | nil =>
      right; left
      exact ⟨trivial, tally, rfl, fun hash => rfl⟩
  | cons tx rest ih =>
      have hRest : ∀ other ∈ rest, other.checkTransaction = .ok () :=
        fun other hOther => hChecked other (by simp [hOther])
      simp only [StopsEarly, RunsThrough]
      rcases connectTransaction_spec env st pindex fProofOfWork tally
          (hChecked tx (by simp)) with
        ⟨hStop, hReturned⟩ | ⟨hPass, tally₁, hNext, hSig, hPos, hQueue⟩ |
          ⟨hNoStop, hNoPass, hReturned⟩
      · left
        exact ⟨Or.inl hStop, forEach_cons_of_returned hReturned⟩
      · rw [forEach_cons_of_next hNext]
        rcases ih tally₁ hRest with
          ⟨hEarly, hRun⟩ | ⟨hThrough, tally', hRun, hLookup⟩ | ⟨hNotEarly, hNotThrough, hRun⟩
        · left
          exact ⟨Or.inr ⟨hPass, hSig ▸ hEarly⟩, hRun⟩
        · right; left
          refine ⟨⟨hPass, hSig ▸ hThrough⟩, tally', hRun, fun hash => ?_⟩
          rw [hLookup, hPos, funext hQueue, positioned, List.foldl_cons]
        · right; right
          refine ⟨?_, fun h => hNotThrough (hSig ▸ h.2), ?_⟩
          · rintro (hStop | ⟨-, hEarly⟩)
            · exact hPass.not_stopsAt hStop
            · exact hNotEarly (hSig ▸ hEarly)
          · intro flow hFlow
            obtain ⟨hFalse, hWhy⟩ := hRun flow hFlow
            refine ⟨hFalse, fun hWithin => ?_⟩
            obtain ⟨other, hOther, hStops⟩ := hWhy (hSig ▸ hWithin.2)
            exact ⟨other, by simp [hOther], hStops⟩
      · right; right
        refine ⟨?_, fun h => hNoPass h.1, ?_⟩
        · rintro (hStop | ⟨hPass, -⟩)
          · exact hNoStop hStop
          · exact hNoPass hPass
        · intro flow hRun
          rcases forEach_cons_eq_ok.mp hRun with ⟨r, hBody, rfl⟩ | ⟨tally₁, hBody, -⟩
          · obtain ⟨hFalse, hWhy⟩ := hReturned _ hBody
            refine ⟨hFalse, fun hWithin => ⟨tx, by simp, ?_⟩⟩
            exact hWhy.resolve_left (not_lt.mpr hWithin.1)
          · cases (hReturned _ hBody).1

end Loop

end SocietyGold
