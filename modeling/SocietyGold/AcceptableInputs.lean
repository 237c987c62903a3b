import SocietyGold.AcceptToMemoryPool

/-!
# The test of a transaction that is not added

`AcceptableInputs` makes the checks of `AcceptToMemoryPool` that concern the inputs of a
transaction, without its signatures, and leaves the pool alone.  Masternodes are tested with
it: is the collateral still there to be spent?
-/

namespace SocietyGold

open Support GetMinFee_mode

def MAX_TX_SIGOPS : ℕ := MAX_BLOCK_SIGOPS / 5

section Acceptable

variable (env : RelayEnv) (st : ChainState) (tx : CTransaction)

/-- The refusals before any input is looked for. -/
def unacceptableAlone : Bool :=
  !tx.checkTransaction.passed || tx.isCoinBase || tx.isCoinStake ||
    tx.getHash env.prims ∈ st.mempool.mapTx ||
    lockedForOther env tx ||
    (tx.vin.any fun txin => txin.prevout ∈ st.mempool.mapNextTx) ||
    st.txdb.containsTx (tx.getHash env.prims)

/-- `AcceptableInputs`.  The rate limiter for free transactions sees no fee below the relay
fee, and no signature is verified. -/
def acceptableInputs (fLimitFree fRejectInsaneFee isDSTX : Bool) : Checked Bool :=
  if unacceptableAlone env st tx then .ok false
  else
    let fetched := fetchInputs env.toEnv st.txdb st.mempool tx false false ∅
    if !fetched.success then .ok false
    else do
      let nP2SHSigOps ← tx.getP2SHSigOpCount
      if (tx.getLegacySigOpCount + nP2SHSigOps) % 2 ^ 32 > MAX_TX_SIGOPS then .ok false
      else do
        let nValueIn ← tx.getValueIn fetched.inputsRet
        let nValueOut ← tx.getValueOut
        let nFees := wrap64 (nValueIn - nValueOut)
        let txMinFee := getMinFee tx tx.getSerializeSize GMF_RELAY
        if !isDSTX && fLimitFree && nFees < txMinFee then .ok false
        else if fRejectInsaneFee && nFees > txMinFee * 10000 then .ok false
        else do
          let pindexBest ← deref (st.entry st.pindexBest)
          let (connected, _) ← connectInputs env.toEnv st tx
            { looseContext pindexBest STANDARD_SCRIPT_VERIFY_FLAGS with
              fBlock := true
              fValidateSig := false }
            fetched.inputsRet ∅
          .ok connected

end Acceptable

end SocietyGold
