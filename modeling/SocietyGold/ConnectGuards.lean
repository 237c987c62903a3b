import SocietyGold.SpentMarks

/-!
# When connecting inputs gets through

The lookups of `GetP2SHSigOpCount`, `GetValueIn` and `ConnectInputs` index
vectors with numbers that the sender of a transaction chooses.  This file says
exactly when each of them stays in range, and when `ConnectInputs` returns false.
-/

namespace SocietyGold

open Support

namespace CTransaction

/-! ## Own outputs -/

variable {tx : CTransaction}

/-- A lookup in the transaction's own outputs is in range up to and including
their number. -/
theorem getOutputFor_inRange
    (hIn : tx.vin ≠ []) (hOut : tx.vout ≠ []) (txin : CTxIn) :
    InRangeIff (txin.prevout.n ≤ tx.vout.length) (tx.getOutputFor txin) := by
  have hPos : 0 < tx.vout.length := List.length_pos_of_ne_nil hOut
  unfold getOutputFor
  rw [if_neg (by simp [hIn, hOut])]
  by_cases hEq : txin.prevout.n = tx.vout.length
  · rw [if_pos hEq]
    exact (inRangeIff_elementAt tx.vout 0).congr (by omega)
  · rw [if_neg hEq]
    exact (inRangeIff_elementAt tx.vout txin.prevout.n).congr (by omega)

theorem p2shSigOpCountLoop_inRange
    (hIn : tx.vin ≠ []) (hOut : tx.vout ≠ []) (vin : List CTxIn) (nSigOps : ℕ) :
    InRangeIff (∀ txin ∈ vin, txin.prevout.n ≤ tx.vout.length)
      (tx.p2shSigOpCountLoop vin nSigOps) := by
  induction vin generalizing nSigOps with
  | nil => exact (inRangeIff_ok nSigOps).congr (by simp)
  | cons txin rest ih =>
      have hLoop := (getOutputFor_inRange hIn hOut txin).bind
        (f := fun prevout => p2shSigOpCountLoop tx rest
          (nSigOps + if prevout.scriptPubKey.isPayToScriptHash then
            prevout.scriptPubKey.getSigOpCountFor txin.scriptSig else 0))
        (fun prevout _ => ih _)
      exact hLoop.congr (by simp)

/-- `GetP2SHSigOpCount` stays in range exactly when no output number exceeds the
number of the transaction's own outputs. -/
theorem getP2SHSigOpCount_inRange
    (hIn : tx.vin ≠ []) (hOut : tx.vout ≠ []) (hCoinBase : tx.isCoinBase = false) :
    InRangeIff (∀ txin ∈ tx.vin, txin.prevout.n ≤ tx.vout.length) tx.getP2SHSigOpCount := by
  simpa [getP2SHSigOpCount, hCoinBase] using p2shSigOpCountLoop_inRange hIn hOut tx.vin 0

/-! ## Values of previous outputs -/

/-- The value lookup of an input is in range: the previous transaction is unknown
or has the output. -/
def valueKnown (prev : ℕ → CTransaction) (txin : CTxIn) : Prop :=
  (prev txin.prevout.hash).vin.length = 0 ∨ (prev txin.prevout.hash).vout.length = 0 ∨
    txin.prevout.n < (prev txin.prevout.hash).vout.length

theorem getOutputFor_Other_inRange
    {prev : ℕ → CTransaction} {inputs : MapPrevTx} {txin : CTxIn} {txindex : CTxIndex}
    (hIn : tx.vin ≠ []) (hOut : tx.vout ≠ [])
    (hLookup : inputs.lookup txin.prevout.hash =
      some (txindex, prev txin.prevout.hash)) :
    InRangeIff (valueKnown prev txin) (tx.getOutputFor_Other txin inputs) := by
  have hOwn : ¬(tx.vin.length = 0 ∨ tx.vout.length = 0) := by simp [hIn, hOut]
  unfold getOutputFor_Other valueKnown
  simp only [hLookup]
  by_cases hEmpty : (prev txin.prevout.hash).vin.length = 0 ∨
      (prev txin.prevout.hash).vout.length = 0
  · rw [if_pos hEmpty]
    exact (inRangeIff_ok _).congr (by tauto)
  · rw [if_neg hEmpty, if_neg hOwn]
    have hLookupValue := (inRangeIff_elementAt (prev txin.prevout.hash).vout
      txin.prevout.n).bind (f := fun txout => .ok txout.nValue) (fun _ _ => inRangeIff_ok _)
    exact hLookupValue.congr (by tauto)

/-- `GetValueIn` stays in range exactly when every value lookup does. -/
theorem getValueIn_inRange
    {prev : ℕ → CTransaction} {record : ℕ → CTxIndex} {inputs : MapPrevTx}
    (hIn : tx.vin ≠ []) (hOut : tx.vout ≠ []) (hCoinBase : tx.isCoinBase = false)
    (hLookup : ∀ txin ∈ tx.vin, inputs.lookup txin.prevout.hash =
      some (record txin.prevout.hash, prev txin.prevout.hash)) :
    InRangeIff (∀ txin ∈ tx.vin, valueKnown prev txin) (tx.getValueIn inputs) := by
  suffices hLoop : ∀ vin : List CTxIn, (∀ txin ∈ vin, txin ∈ tx.vin) → ∀ nResult,
      InRangeIff (∀ txin ∈ vin, valueKnown prev txin) (tx.valueInLoop inputs vin nResult) by
    simpa [getValueIn, hCoinBase] using hLoop tx.vin (fun _ h => h) 0
  intro vin
  induction vin with
  | nil =>
      intro _ nResult
      exact (inRangeIff_ok nResult).congr (by simp)
  | cons txin rest ih =>
      intro hSub nResult
      have hHead := getOutputFor_Other_inRange hIn hOut (hLookup txin (hSub txin (by simp)))
      have hRound := hHead.bind
        (f := fun value => tx.valueInLoop inputs rest ((nResult + value).bmod (2 ^ 64)))
        (fun _ _ => ih (fun other hOther => hSub other (by simp [hOther])) _)
      exact hRound.congr (by simp)

end CTransaction

/-! ## Signatures -/

section Signatures

variable {env : Env} {tx txPrev : CTransaction} {ctx : ConnectContext} {i : ℕ}

theorem verifySignature_isOk
    (env : Env) (txPrev : CTransaction) (flags : ℕ) (nHashType : ℤ) (h : i < tx.vin.length) :
    ∃ verified, verifySignature env txPrev tx i flags nHashType = .ok verified := by
  unfold verifySignature
  rw [List.getElem?_eq_getElem h]
  simp only
  cases txPrev.vout[tx.vin[i].prevout.n]? with
  | none => exact ⟨false, rfl⟩
  | some txout =>
      simp only
      split_ifs
      · exact ⟨false, rfl⟩
      · exact ⟨_, rfl⟩

theorem refusesSignature_isOk
    (env : Env) (ctx : ConnectContext) (txPrev : CTransaction) (h : i < tx.vin.length) :
    ∃ refused, refusesSignature env tx ctx txPrev i = .ok refused := by
  unfold refusesSignature
  split_ifs
  · obtain ⟨verified, hVerified⟩ := verifySignature_isOk env txPrev ctx.flags 0 h
    rw [hVerified, ok_bind]
    split_ifs
    · exact verifySignature_isOk env txPrev _ _ h
    · exact ⟨false, rfl⟩
  · exact ⟨false, rfl⟩

/-- With flags that are all mandatory no signature makes `ConnectInputs` fail. -/
theorem refusesSignature_eq_false
    (hFlags : ctx.flags &&& STANDARD_NOT_MANDATORY_VERIFY_FLAGS = 0) (h : i < tx.vin.length) :
    refusesSignature env tx ctx txPrev i = .ok false := by
  unfold refusesSignature
  split_ifs
  · obtain ⟨verified, hVerified⟩ := verifySignature_isOk env txPrev ctx.flags 0 h
    rw [hVerified, ok_bind]
    simp [hFlags]
  · rfl

end Signatures

/-! ## Accesses to the spent marks -/

section Marks

variable {env : Env} {st : ChainState} {tx : CTransaction} {ctx : ConnectContext}

/-- The marks that the second loop of `ConnectInputs` reads and writes exist, for
every input it reaches: an input whose previous transaction is younger is
skipped, and none is reached after a refused signature. -/
def MarksInRange (env : Env) (tx : CTransaction) (ctx : ConnectContext)
    (record : ℕ → CTxIndex) (prev : ℕ → CTransaction) : List (CTxIn × ℕ) → Prop
  | [] => True
  | (txin, i) :: rest =>
      if (prev txin.prevout.hash).nTime > tx.nTime then MarksInRange env tx ctx record prev rest
      else
        txin.prevout.n < (record txin.prevout.hash).vSpent.length ∧
          (refusesSignature env tx ctx (prev txin.prevout.hash) i = .ok true ∨
            MarksInRange env tx ctx record prev rest)

/-- Every entry of the inputs has the given previous transaction and as many
marks as the given record. -/
def HasShape (record : ℕ → CTxIndex) (prev : ℕ → CTransaction) (inputs : MapPrevTx) : Prop :=
  ∀ hash entry, inputs.lookup hash = some entry →
    entry.2 = prev hash ∧ entry.1.vSpent.length = (record hash).vSpent.length

theorem connectLoop_inRange
    (env : Env) (ctx : ConnectContext) {record : ℕ → CTxIndex} {prev : ℕ → CTransaction}
    {l : List (CTxIn × ℕ)} {s : ConnectState}
    (hIndex : ∀ input ∈ l, input.2 < tx.vin.length)
    (hMem : ∀ input ∈ l, input.1.prevout.hash ∈ s.inputs)
    (hShape : HasShape record prev s.inputs) :
    InRangeIff (MarksInRange env tx ctx record prev l)
      (forEach (connectInput env tx ctx) l s) := by
  induction l generalizing s with
  | nil => exact inRangeIff_ok _
  | cons input rest ih =>
      obtain ⟨txin, i⟩ := input
      obtain ⟨entry, hLookup⟩ := Table.mem_iff_lookup.mp (hMem (txin, i) (by simp))
      obtain ⟨txindex, txPrev⟩ := entry
      obtain ⟨hTxPrev, hLength⟩ := hShape _ _ hLookup
      simp only at hLookup hTxPrev hLength
      have hIndexRest : ∀ input ∈ rest, input.2 < tx.vin.length :=
        fun input hInput => hIndex input (by simp [hInput])
      unfold MarksInRange
      rw [← hTxPrev, ← hLength]
      by_cases hTime : txPrev.nTime > tx.nTime
      · have hNext : connectInput env tx ctx s (txin, i) = .ok (.next s) := by
          simp [connectInput, hLookup, hTime]
        rw [forEach_cons_of_next hNext, if_pos hTime]
        exact ih hIndexRest (fun input hInput => hMem input (by simp [hInput])) hShape
      · rw [if_neg hTime]
        by_cases hLt : txin.prevout.n < txindex.vSpent.length
        · obtain ⟨refused, hRefused⟩ := refusesSignature_isOk env ctx txPrev
            (hIndex (txin, i) (by simp))
          simp only at hRefused
          cases refused with
          | true =>
              have hReturned : connectInput env tx ctx s (txin, i) = .ok (.returned false) := by
                simp [connectInput, hLookup, hTime, elementAt_of_lt hLt, hRefused]
              rw [forEach_cons_of_returned hReturned]
              exact (inRangeIff_ok _).congr (by simp [hLt, hRefused])
          | false =>
              set s₁ : ConnectState :=
                { inputs := s.inputs.insert txin.prevout.hash
                    (txindex.spend txin.prevout.n ctx.posThisTx, txPrev)
                  mapTestPool :=
                    if ctx.fBlock || ctx.fMiner then
                      s.mapTestPool.insert txin.prevout.hash
                        (txindex.spend txin.prevout.n ctx.posThisTx)
                    else s.mapTestPool } with hs₁
              have hNext : connectInput env tx ctx s (txin, i) = .ok (.next s₁) := by
                simp [connectInput, hLookup, hTime, elementAt_of_lt hLt, hRefused, storeAt, hLt,
                  hs₁]
              rw [forEach_cons_of_next hNext]
              have hMem₁ : ∀ input ∈ rest, input.1.prevout.hash ∈ s₁.inputs := by
                intro input hInput
                exact (AList.mem_insert _).mpr (Or.inr (hMem input (by simp [hInput])))
              have hShape₁ : HasShape record prev s₁.inputs := by
                intro hash entry hEntry
                rw [hs₁] at hEntry
                simp only [Table.lookup_insert_ite] at hEntry
                split_ifs at hEntry with hSame
                · rw [← Option.some.inj hEntry, hSame]
                  exact ⟨hTxPrev, by simp [CTxIndex.spend, hLength]⟩
                · exact hShape hash entry hEntry
              exact (ih hIndexRest hMem₁ hShape₁).congr (by simp [hLt, hRefused])
        · have hError : elementAt txindex.vSpent txin.prevout.n = .error .outOfRange :=
            elementAt_of_le (not_lt.mp hLt)
          have hFault : connectInput env tx ctx s (txin, i) = .error .outOfRange := by
            simp [connectInput, hLookup, hTime, hError]
          exact Or.inr ⟨fun h => hLt h.1, by simp [forEach, hFault]⟩

/-- An input of a transaction is immature, judged by record and previous
transaction. -/
def immature (env : Env) (st : ChainState) (tx : CTransaction) (pindexBlock : CBlockIndex)
    (record : ℕ → CTxIndex) (prev : ℕ → CTransaction) (txin : CTxIn) : Bool :=
  let txPrev := prev txin.prevout.hash
  txPrev.nTime ≤ tx.nTime && (txPrev.isCoinBase || txPrev.isCoinStake) &&
    (isConfirmedInNPrevBlocks (record txin.prevout.hash) pindexBlock env.nCoinbaseMaturity
      (st.chainFrom pindexBlock)).isSome

theorem spendsImmature_eq
    {record : ℕ → CTxIndex} {prev : ℕ → CTransaction} {inputs : MapPrevTx} {txin : CTxIn}
    (hLookup : inputs.lookup txin.prevout.hash =
      some (record txin.prevout.hash, prev txin.prevout.hash)) :
    spendsImmature env st tx ctx inputs txin =
      immature env st tx ctx.pindexBlock record prev txin := by
  simp [spendsImmature, immature, hLookup]

/-- An immature input among the inputs of a transaction. -/
def hasImmatureInput (env : Env) (st : ChainState) (tx : CTransaction)
    (pindexBlock : CBlockIndex) (record : ℕ → CTxIndex) (prev : ℕ → CTransaction) : Bool :=
  tx.vin.any fun txin => immature env st tx pindexBlock record prev txin

section ConnectInputs

variable {record : ℕ → CTxIndex} {prev : ℕ → CTransaction} {inputs : MapPrevTx}
  {mapTestPool : Table ℕ CTxIndex}

theorem any_spendsImmature_eq
    (ctx : ConnectContext) (hLookup : ∀ txin ∈ tx.vin, inputs.lookup txin.prevout.hash =
      some (record txin.prevout.hash, prev txin.prevout.hash)) :
    (tx.vin.any fun txin => spendsImmature env st tx ctx inputs txin) =
      hasImmatureInput env st tx ctx.pindexBlock record prev := by
  rw [hasImmatureInput, Bool.eq_iff_iff, List.any_eq_true, List.any_eq_true]
  constructor
  · rintro ⟨txin, hTxin, h⟩
    exact ⟨txin, hTxin, by rwa [← spendsImmature_eq (hLookup txin hTxin)]⟩
  · rintro ⟨txin, hTxin, h⟩
    exact ⟨txin, hTxin, by rwa [spendsImmature_eq (hLookup txin hTxin)]⟩

/-- Exactly when `ConnectInputs` stays in range: an immature input stops it before
any mark is touched, and otherwise the marks it reaches must exist. -/
theorem connectInputs_inRange
    (env : Env) (st : ChainState) (ctx : ConnectContext) (mapTestPool : Table ℕ CTxIndex)
    (hChecked : tx.checkTransaction = .ok ()) (hCoinBase : tx.isCoinBase = false)
    (hLookup : ∀ hash, inputs.lookup hash =
      if ∃ txin ∈ tx.vin, txin.prevout.hash = hash then some (record hash, prev hash)
      else none) :
    InRangeIff
      (hasImmatureInput env st tx ctx.pindexBlock record prev = true ∨
        MarksInRange env tx ctx record prev tx.vin.zipIdx)
      (connectInputs env st tx ctx inputs mapTestPool) := by
  have hEntry : ∀ txin ∈ tx.vin, inputs.lookup txin.prevout.hash =
      some (record txin.prevout.hash, prev txin.prevout.hash) := by
    intro txin hTxin
    rw [hLookup, if_pos ⟨txin, hTxin, rfl⟩]
  have hIndex : ∀ input ∈ tx.vin.zipIdx, input.2 < tx.vin.length := by
    intro input hInput
    simpa using List.snd_lt_of_mem_zipIdx hInput
  have hMem : ∀ input ∈ tx.vin.zipIdx, input.1.prevout.hash ∈ inputs := by
    intro input hInput
    exact Table.mem_iff_lookup.mpr ⟨_, hEntry input.1 (List.fst_mem_of_mem_zipIdx hInput)⟩
  have hShape : HasShape record prev inputs := by
    intro hash entry hFound
    rw [hLookup] at hFound
    split_ifs at hFound
    rw [← Option.some.inj hFound]
    exact ⟨rfl, rfl⟩
  have hLoop := connectLoop_inRange env ctx
    (s := ⟨inputs, mapTestPool⟩) hIndex hMem hShape
  unfold connectInputs
  simp only [hCoinBase, Bool.false_eq_true, if_false, any_spendsImmature_eq ctx hEntry]
  by_cases hAny : hasImmatureInput env st tx ctx.pindexBlock record prev = true
  · rw [if_pos hAny]
    exact (inRangeIff_ok _).congr (by simp [hAny])
  · rw [if_neg hAny]
    refine (hLoop.bind (Q := True) fun flow _ => ?_).congr (by simp [hAny])
    cases flow with
    | returned success => exact inRangeIff_ok _
    | next s =>
        simp only [CTransaction.getValueOut_of_checked hChecked, ok_bind]
        split_ifs
        · exact inRangeIff_ok _
        · exact inRangeIff_ok _

end ConnectInputs

end Marks

end SocietyGold
