import SocietyGold.Connect

/-!
# The masternode payment of a block

The wallet gives the scheduled payee of a block what `GetMasternodePayment` says.
`CheckBlock` takes the value of the last output of the coinstake for the amount to be paid
instead, so a coinstake that pays the payee in its last output passes with any amount.
-/

namespace SocietyGold

open Support

/-- `GetMasternodePayment`: four tenths of the block value until the maximum supply is
reached. -/
def getMasternodePayment (env : Env) (pindexBest : CBlockIndex) (blockValue : ℤ) : ℤ :=
  if env.maximumSupplyExceeded pindexBest.nMoneySupply then 0
  else (wrap64 (blockValue * 4)).tdiv 10

section Payment

variable {env : Env} {st : ChainState} {block : CBlock} {pindexBest : CBlockIndex}
  {payee : CScript} {fCheckPOW fCheckMerkleRoot fCheckSig : Bool}

/-- The block has to pay a masternode: it is a proof-of-stake block on top of the best block,
and a payee is scheduled for its height. -/
structure OwesPayment (env : Env) (st : ChainState) (block : CBlock) (pindexBest : CBlockIndex)
    (payee : CScript) : Prop where
  best : st.entry st.pindexBest = some pindexBest
  prev : pindexBest.phashBlock = block.hashPrevBlock
  stake : block.isProofOfStake = true
  synced : env.isInitialBlockDownload = false
  started : START_MASTERNODE_PAYMENTS < block.nTime
  scheduled : env.getBlockPayee (pindexBest.nHeight + 1) = some payee
  nonempty : payee ≠ []

/-- Some output of the coinstake pays the payee an amount with the property. -/
def PaysPayee (block : CBlock) (payee : CScript) (amount : ℤ → Prop) : Prop :=
  ∃ tx, block.vtx[1]? = some tx ∧
    ∃ txout ∈ tx.vout, txout.scriptPubKey = payee ∧ amount txout.nValue

/-- The value of the last output of the coinstake. -/
def lastStakeValue (block : CBlock) : Option ℤ :=
  (block.vtx[1]?).bind fun tx => (tx.vout.getLast?).map CTxOut.nValue

/-- The coinstake pays the payee what its last output is worth, but in no output what is
required. -/
structure Underpays (block : CBlock) (payee : CScript) (required : ℤ) : Prop where
  asLast : PaysPayee block payee fun nValue => some nValue = lastStakeValue block
  below : ¬PaysPayee block payee (required ≤ ·)

/-- The test of the first output that pays the payee the value of the last one. -/
theorem foundPaymentAndPayee_iff
    {nBestHeight : ℤ} (vout : List CTxOut)
    (hScheduled : env.getBlockPayee (nBestHeight + 1) = some payee) (hNonempty : payee ≠ []) :
    CBlock.foundPaymentAndPayee env nBestHeight vout = true ↔
      ∃ txout ∈ vout, txout.scriptPubKey = payee ∧
        some txout.nValue = (vout.getLast?).map CTxOut.nValue := by
  unfold CBlock.foundPaymentAndPayee
  simp only [hScheduled, hNonempty, decide_false, Bool.false_or, List.any_eq_true,
    Bool.and_eq_true, decide_eq_true_eq]
  constructor
  · rintro ⟨txout, hMem, hValue, hScript⟩
    exact ⟨txout, hMem, hScript, hValue⟩
  · rintro ⟨txout, hMem, hScript, hValue⟩
    exact ⟨txout, hMem, hValue, hScript⟩

/-- The test passes exactly if some output pays the payee what the last output is worth. -/
theorem lacksMasternodePayment_eq_false_iff (h : OwesPayment env st block pindexBest payee) :
    block.lacksMasternodePayment env st = false ↔
      PaysPayee block payee fun nValue => some nValue = lastStakeValue block := by
  have hStake := h.stake
  unfold CBlock.isProofOfStake at hStake
  rcases hVtx : block.vtx with _ | ⟨first, _ | ⟨tx, rest⟩⟩
  · simp [hVtx] at hStake
  · simp [hVtx] at hStake
  · have hFound := foundPaymentAndPayee_iff tx.vout h.scheduled h.nonempty
    have hTest : block.lacksMasternodePayment env st =
        !CBlock.foundPaymentAndPayee env pindexBest.nHeight tx.vout := by
      unfold CBlock.lacksMasternodePayment
      simp [h.synced, h.started, h.stake, hVtx, h.best, h.prev]
    rw [hTest, Bool.not_eq_false', hFound]
    simp [PaysPayee, lastStakeValue, hVtx]

end Payment

/-! ## A payment of one satoshi -/

namespace Sample

def payee : CScript := [0x52]

/-- Masternodes are paid, and every height has the same payee. -/
def payingEnv : Env :=
  { env 1516002000 with
    isInitialBlockDownload := false
    getBlockPayee := fun _ => some payee }

def emptyCoinbase (nTime : ℕ) : CTransaction :=
  { coinbase nTime 11 0 with vout := [⟨0, []⟩] }

/-- A coinstake with one stake output and a payment to the payee as its last output. -/
def payingStake (nTime : ℕ) (nPayment : ℤ) : CTransaction where
  nVersion := 1
  nTime := nTime
  vin := [⟨⟨7, 0⟩, [], UINT_MAX⟩]
  vout := [⟨0, []⟩, ⟨1000, [0x51]⟩, ⟨nPayment, payee⟩]
  nLockTime := 0

def payingBlock (nPayment : ℤ) : CBlock :=
  { sealed 500 1516001900 [emptyCoinbase 1516001900, payingStake 1516001900 nPayment] with
    vchBlockSig := [0x51] }

theorem owesPayment_payingBlock (nPayment : ℤ) :
    OwesPayment payingEnv (nodeWith []) (payingBlock nPayment) tipEntry payee where
  best := rfl
  prev := rfl
  stake := rfl
  synced := rfl
  started := show START_MASTERNODE_PAYMENTS < 1516001900 by decide
  scheduled := rfl
  nonempty := by decide

end Sample

end SocietyGold
