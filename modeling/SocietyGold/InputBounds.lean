import SocietyGold.ConnectGuards
import SocietyGold.Connect

/-!
# Bounds of the input accesses

`FetchInputs` finds output numbers out of range and goes on, and the lookups
after it are guarded by other vectors than the ones they index.  The accesses of
`ConnectInputs` and `GetP2SHSigOpCount` therefore stay in range exactly under a
condition on the transaction and on the records it refers to.
-/

namespace SocietyGold

open Support

/-- The output numbers of a transaction suit its own outputs, for the signature
operation count, and the recorded outputs of its previous transactions, as far as
the second loop of `ConnectInputs` gets to them. -/
def InputNumbersFit (env : Env) (st : ChainState) (txdb : CTxDB) (pool : CTxMemPool)
    (tx : CTransaction) (ctx : ConnectContext) : Prop :=
  tx.isCoinBase = true ∨
    (∀ txin ∈ tx.vin, txin.prevout.n ≤ tx.vout.length) ∧
      (hasImmatureInput env st tx ctx.pindexBlock (prevRecord txdb)
          (prevTransaction env txdb pool) = true ∨
        MarksInRange env tx ctx (prevRecord txdb) (prevTransaction env txdb pool)
          tx.vin.zipIdx)

/-- Once `FetchInputs` has succeeded for a block, the accesses after it stay in
range, and the assertion on the inputs holds, exactly when the output numbers
fit. -/
theorem inputAccesses_inRange_iff
    (env : Env) (st : ChainState) (txdb : CTxDB) (pool : CTxMemPool) (tx : CTransaction)
    (ctx : ConnectContext) (mapTestPool : Table ℕ CTxIndex)
    (hChecked : tx.checkTransaction = .ok ())
    (hFetched : (fetchInputs env txdb pool tx true false ∅).success = true) :
    (connectInputs env st tx ctx (fetchInputs env txdb pool tx true false ∅).inputsRet
          mapTestPool ≠ .error .outOfRange ∧
        connectInputs env st tx ctx (fetchInputs env txdb pool tx true false ∅).inputsRet
          mapTestPool ≠ .error .assertionFailed ∧
        tx.getP2SHSigOpCount ≠ .error .outOfRange) ↔
      InputNumbersFit env st txdb pool tx ctx := by
  have hIn : tx.vin ≠ [] := CTransaction.vin_ne_nil_of_checked hChecked
  have hOut : tx.vout ≠ [] := CTransaction.vout_ne_nil_of_checked hChecked
  by_cases hCoinBase : tx.isCoinBase = true
  · -- a coinbase has no inputs to look at
    simp [InputNumbersFit, connectInputs, CTransaction.getP2SHSigOpCount, hCoinBase]
  · have hNotCoinBase : tx.isCoinBase = false := by simpa using hCoinBase
    have hConnect := connectInputs_inRange env st ctx mapTestPool hChecked hNotCoinBase
      (lookup_fetchInputs_block hNotCoinBase hFetched)
    have hCount := CTransaction.getP2SHSigOpCount_inRange hIn hOut hNotCoinBase
    have hAssert : connectInputs env st tx ctx
        (fetchInputs env txdb pool tx true false ∅).inputsRet mapTestPool ≠
          .error .assertionFailed := by
      rcases hConnect with ⟨-, out, hOk⟩ | ⟨-, hError⟩
      · simp [hOk]
      · simp [hError]
    rw [hConnect.ne_outOfRange_iff, hCount.ne_outOfRange_iff]
    simp only [InputNumbersFit, hNotCoinBase, Bool.false_eq_true, false_or]
    tauto

/-! ## An input that does not fit -/

namespace Sample

/-- A transaction with one output whose only input asks for output number 5 of a
transaction that is not indexed. -/
def straySpend : CTransaction where
  nVersion := 1
  nTime := 1000
  vin := [⟨⟨77, 5⟩, [], UINT_MAX⟩]
  vout := [⟨100, [0x51]⟩]
  nLockTime := 0

/-- A context in which a block connects inputs. -/
def context : ConnectContext :=
  blockContext (CBlockIndex.ofBlock 1 8 ⟨⟨7, 0, 0, 1000, 0, 0⟩, [], []⟩ 1) ⟨1, 8, 90⟩

theorem straySpend_outOfRange :
    straySpend.checkTransaction = .ok () ∧ context.fBlock = true ∧
      (fetchInputs (env 900) emptyState.txdb emptyPool straySpend true false ∅).success = true ∧
      connectInputs (env 900) emptyState straySpend context
        (fetchInputs (env 900) emptyState.txdb emptyPool straySpend true false ∅).inputsRet ∅ =
          .error .outOfRange ∧
      straySpend.getP2SHSigOpCount = .error .outOfRange := by
  refine ⟨?_, ?_, ?_, ?_, ?_⟩ <;> rfl

/-- The same input in a transaction that is older than the previous transaction,
as far as that is known: the marks are skipped, the own outputs are not. -/
theorem straySpend_older_inRange_iff :
    (connectInputs (env 2000) emptyState straySpend context
          (fetchInputs (env 2000) emptyState.txdb emptyPool straySpend true false ∅).inputsRet
          ∅ ≠ .error .outOfRange ∧
        connectInputs (env 2000) emptyState straySpend context
          (fetchInputs (env 2000) emptyState.txdb emptyPool straySpend true false ∅).inputsRet
          ∅ ≠ .error .assertionFailed ∧
        straySpend.getP2SHSigOpCount ≠ .error .outOfRange) ↔
      InputNumbersFit (env 2000) emptyState emptyState.txdb emptyPool straySpend context :=
  inputAccesses_inRange_iff (env 2000) emptyState emptyState.txdb emptyPool straySpend context ∅
    rfl rfl

end Sample

end SocietyGold
