import SocietyGold.StandardTx
import SocietyGold.DbTransaction
import SocietyGold.MemPool

/-!
# Acceptance of loose transactions

`AcceptToMemoryPool` refuses a transaction for reasons of its own, then looks whether the
database has the transactions its inputs refer to, and only then collects the inputs and
checks fees and signatures.
-/

namespace SocietyGold

open Support

/-! ## Fees -/

def MIN_TX_FEE : ℤ := 1000

def MIN_RELAY_TX_FEE : ℤ := MIN_TX_FEE

inductive GetMinFee_mode
  | GMF_BLOCK
  | GMF_RELAY
  | GMF_SEND
  deriving DecidableEq, Repr

open GetMinFee_mode

def getMinFee (tx : CTransaction) (nBytes : ℕ) (mode : GetMinFee_mode) : ℤ :=
  let nBaseFee := if mode = GMF_RELAY then MIN_RELAY_TX_FEE else MIN_TX_FEE
  let nMinFee := (1 + (nBytes : ℤ) / 1000) * nBaseFee
  let nMinFee :=
    if nMinFee < nBaseFee ∧ mode = GMF_SEND ∧ tx.vout.any fun txout => txout.nValue < CENT then
      nBaseFee
    else nMinFee
  if !moneyRange nMinFee then MAX_MONEY else nMinFee

theorem minRelayTxFee_le_getMinFee (tx : CTransaction) (nBytes : ℕ) :
    MIN_RELAY_TX_FEE ≤ getMinFee tx nBytes GMF_RELAY := by
  have hBytes : 0 ≤ (nBytes : ℤ) / 1000 := by omega
  unfold getMinFee
  simp only [reduceCtorEq, false_and, and_false, if_false, if_true]
  split_ifs
  · decide
  · unfold MIN_RELAY_TX_FEE MIN_TX_FEE
    omega

section Accept

variable (env : RelayEnv) (st : ChainState) (tx : CTransaction)

/-! ## The function -/

/-- `ContainsTx`. -/
def CTxDB.containsTx (txdb : CTxDB) (hash : ℕ) : Bool := txdb.existsKey (.tx hash)

/-- An input is locked for another transaction. -/
def lockedForOther : Bool :=
  tx.vin.any fun txin =>
    match env.mapLockedInputs txin.prevout with
    | some hash => hash ≠ tx.getHash env.prims
    | none => false

/-- The refusals before any input is looked for. -/
def refusedAlone : Bool :=
  !tx.checkTransaction.passed || tx.isCoinBase || tx.isCoinStake ||
    (!env.fTestNet && !(isStandardTx env.toEnv st tx).isOk) ||
    tx.getHash env.prims ∈ st.mempool.mapTx ||
    lockedForOther env tx ||
    (tx.vin.any fun txin => txin.prevout ∈ st.mempool.mapNextTx) ||
    st.txdb.containsTx (tx.getHash env.prims)

/-- The database does not have the transaction an input refers to. -/
def lacksInput : Bool := tx.vin.any fun txin => !st.txdb.containsTx txin.prevout.hash

/-- The fee does not pay for the relay.  The rate limiter for free transactions, which comes
next in the source, sees no fee below the relay fee. -/
def lacksFee (nFees : ℤ) (fLimitFree ignoreFees : Bool) : Bool :=
  tx.getHash env.prims ∉ env.mapDarksendBroadcastTxes && !ignoreFees && fLimitFree &&
    nFees < getMinFee tx tx.getSerializeSize GMF_RELAY

/-- The arguments of `ConnectInputs` for a loose transaction. -/
def looseContext (pindexBest : CBlockIndex) (flags : ℕ) : ConnectContext where
  posThisTx := CDiskTxPos.inMemoryPool
  pindexBlock := pindexBest
  fBlock := false
  fMiner := false
  flags := flags
  fValidateSig := true

/-- The checks of the transaction against its inputs. -/
def passesInputs (fLimitFree fRejectInsaneFee ignoreFees : Bool) : Checked Bool :=
  let fetched := fetchInputs env.toEnv st.txdb st.mempool tx false false ∅
  if !fetched.success then .ok false
  else do
    let standard ← if env.fTestNet then .ok true else areInputsStandard env tx
    if !standard then .ok false
    else do
      -- the number of signature operations is only logged
      let _ ← tx.getP2SHSigOpCount
      let nValueIn ← tx.getValueIn fetched.inputsRet
      let nValueOut ← tx.getValueOut
      let nFees := wrap64 (nValueIn - nValueOut)
      if lacksFee env tx nFees fLimitFree ignoreFees then .ok false
      else if fRejectInsaneFee && nFees > MIN_RELAY_TX_FEE * 10000 then .ok false
      else do
        let pindexBest ← deref (st.entry st.pindexBest)
        let (standardOk, _) ← connectInputs env.toEnv st tx
          (looseContext pindexBest STANDARD_SCRIPT_VERIFY_FLAGS) fetched.inputsRet ∅
        if !standardOk then .ok false
        else do
          let (mandatoryOk, _) ← connectInputs env.toEnv st tx
            (looseContext pindexBest MANDATORY_SCRIPT_VERIFY_FLAGS) fetched.inputsRet ∅
          .ok mandatoryOk

/-- What `AcceptToMemoryPool` returns and leaves behind. -/
structure AcceptResult where
  accepted : Bool
  fMissingInputs : Bool
  mempool : CTxMemPool

def acceptToMemoryPool (fLimitFree fRejectInsaneFee ignoreFees : Bool) : Checked AcceptResult :=
  if refusedAlone env st tx then .ok ⟨false, false, st.mempool⟩
  else if lacksInput st tx then .ok ⟨false, true, st.mempool⟩
  else do
    let passed ← passesInputs env st tx fLimitFree fRejectInsaneFee ignoreFees
    if !passed then .ok ⟨false, false, st.mempool⟩
    else .ok ⟨true, false, st.mempool.addUnchecked (tx.getHash env.prims) tx⟩

end Accept

/-! ## What acceptance says -/

section Results

variable {env : RelayEnv} {st : ChainState} {tx : CTransaction}
  {fLimitFree fRejectInsaneFee ignoreFees : Bool} {r : AcceptResult}

theorem lacksInput_iff :
    lacksInput st tx = true ↔ ∃ txin ∈ tx.vin, st.txdb.containsTx txin.prevout.hash = false := by
  simp [lacksInput]

/-- A transaction with an input whose transaction the database has not is not accepted, and
the pool stays as it is; the input is reported as missing unless the transaction was
refused before. -/
theorem acceptToMemoryPool_of_lacksInput
    (h : lacksInput st tx = true) :
    acceptToMemoryPool env st tx fLimitFree fRejectInsaneFee ignoreFees =
      .ok ⟨false, !refusedAlone env st tx, st.mempool⟩ := by
  unfold acceptToMemoryPool
  cases refusedAlone env st tx with
  | true => rfl
  | false => simp [h]

theorem refusedAlone_eq_false (h : refusedAlone env st tx = false) :
    tx.checkTransaction = .ok () ∧ tx.getHash env.prims ∉ st.mempool.mapTx ∧
      (∀ txin ∈ tx.vin, txin.prevout ∉ st.mempool.mapNextTx) ∧
      st.txdb.containsTx (tx.getHash env.prims) = false := by
  unfold refusedAlone at h
  simp only [Bool.or_eq_false_iff, Bool.not_eq_false', decide_eq_false_iff_not, List.any_eq_false,
    decide_eq_true_eq] at h
  obtain ⟨⟨⟨⟨⟨⟨⟨hChecked, -⟩, -⟩, -⟩, hAbsent⟩, -⟩, hUnspent⟩, hNew⟩ := h
  exact ⟨Verdict.passed_iff.mp hChecked, hAbsent, hUnspent, hNew⟩

theorem refusedAlone_of_mem (h : tx.getHash env.prims ∈ st.mempool.mapTx) :
    refusedAlone env st tx = true := by
  cases hRefused : refusedAlone env st tx with
  | true => rfl
  | false => exact absurd h (refusedAlone_eq_false hRefused).2.1

/-- The pool changes only when the transaction is accepted.  Then nothing refused it, the
database has the transactions of all its inputs, and it has been added. -/
theorem acceptToMemoryPool_eq_ok
    (h : acceptToMemoryPool env st tx fLimitFree fRejectInsaneFee ignoreFees = .ok r) :
    (r.accepted = false ∧ r.mempool = st.mempool) ∨
      (r.accepted = true ∧ refusedAlone env st tx = false ∧ lacksInput st tx = false ∧
        r.mempool = st.mempool.addUnchecked (tx.getHash env.prims) tx) := by
  unfold acceptToMemoryPool at h
  cases hRefused : refusedAlone env st tx with
  | true =>
      simp only [hRefused, if_true, Except.ok.injEq] at h
      exact Or.inl (by simp [← h])
  | false =>
      cases hMisses : lacksInput st tx with
      | true =>
          simp only [hRefused, hMisses, if_true, Bool.false_eq_true, if_false,
            Except.ok.injEq] at h
          exact Or.inl (by simp [← h])
      | false =>
          simp only [hRefused, hMisses, Bool.false_eq_true, if_false, bind_eq_ok] at h
          obtain ⟨passed, -, h⟩ := h
          cases passed with
          | false =>
              simp only [Bool.not_false, if_true, Except.ok.injEq] at h
              exact Or.inl (by simp [← h])
          | true =>
              simp only [Bool.not_true, Bool.false_eq_true, if_false, Except.ok.injEq] at h
              exact Or.inr (by simp [← h])

/-- What is accepted may be added to the pool. -/
theorem mayAdd_of_not_refused (h : refusedAlone env st tx = false) :
    CTxMemPool.MayAdd env.prims st.mempool (tx.getHash env.prims) tx := by
  obtain ⟨hChecked, hAbsent, hUnspent, -⟩ := refusedAlone_eq_false h
  exact ⟨rfl, hAbsent, hUnspent, CTransaction.nodup_prevouts_of_checked hChecked⟩

/-- The pool stays consistent. -/
theorem consistent_of_acceptToMemoryPool
    (h : acceptToMemoryPool env st tx fLimitFree fRejectInsaneFee ignoreFees = .ok r)
    (hPool : st.mempool.Consistent env.prims) : r.mempool.Consistent env.prims := by
  rcases acceptToMemoryPool_eq_ok h with ⟨-, hSame⟩ | ⟨-, hRefused, -, hAdded⟩
  · rw [hSame]
    exact hPool
  · rw [hAdded]
    exact hPool.addUnchecked (mayAdd_of_not_refused hRefused)

end Results

end SocietyGold
