import SocietyGold.Inputs

/-!
# The proof-of-stake kernel

`CheckStakeKernelHash` compares the kernel hash with the weighted target, and
`CheckProofOfStake` wraps it with the checks of the coinstake's first input.
-/

namespace SocietyGold

open Support

def SCRIPT_VERIFY_NONE : ℕ := 0

/-- What a kernel check leaves behind: its return value, the kernel hash and the
target it was compared with. -/
structure KernelResult where
  success : Bool
  hashProofOfStake : ℕ
  targetProofOfStake : ℕ
  deriving DecidableEq, Repr

section Kernel

variable (env : Env) (st : ChainState)

/-- The bytes of the kernel: modifier, block time, previous transaction and time
of the coinstake. -/
def kernelBytes (nStakeModifier nTimeBlockFrom nTimeTxPrev : ℕ) (prevout : COutPoint)
    (nTimeTx : ℕ) : List UInt8 :=
  toBytesLE 8 nStakeModifier ++ toBytesLE 4 nTimeBlockFrom ++ toBytesLE 4 nTimeTxPrev ++
    toBytesLE 32 prevout.hash ++ toBytesLE 4 prevout.n ++ toBytesLE 4 nTimeTx

/-- The kernel hash of a coinstake. -/
def kernelHash (pindexPrev : CBlockIndex) (nTimeBlockFrom : ℕ) (txPrev : CTransaction)
    (prevout : COutPoint) (nTimeTx : ℕ) : ℕ :=
  env.prims.hash
    (kernelBytes pindexPrev.nStakeModifier nTimeBlockFrom txPrev.nTime prevout nTimeTx)

/-- The target for a staked value. -/
def weightedTarget (nBits : ℕ) (nValueIn : ℤ) : CBigNum := CBigNum.setCompact nBits * nValueIn

/-- A violation of the minimum age is let through at some heights of the best
block. -/
def toleratesYoungStake (nBestHeight : ℤ) : Bool :=
  nBestHeight = 21189 || nBestHeight < 260000

/-- `CheckStakeKernelHash`.  The two result parameters keep the given values until
they are assigned. -/
def checkStakeKernelHash (pindexPrev : CBlockIndex) (nBits nTimeBlockFrom : ℕ)
    (txPrev : CTransaction) (prevout : COutPoint) (nTimeTx hashProofOfStake
    targetProofOfStake : ℕ) : Checked KernelResult :=
  if nTimeTx < txPrev.nTime then .ok ⟨false, hashProofOfStake, targetProofOfStake⟩
  else do
    let young := (nTimeBlockFrom + nStakeMinAge) % 2 ^ 32 > nTimeTx
    let tolerated ←
      if young then do
        let pindexBest ← deref (st.entry st.pindexBest)
        .ok (toleratesYoungStake pindexBest.nHeight)
      else .ok true
    if !tolerated then .ok ⟨false, hashProofOfStake, targetProofOfStake⟩
    else do
      let txout ← elementAt txPrev.vout prevout.n
      let bnTarget := weightedTarget nBits txout.nValue
      let hash := kernelHash env pindexPrev nTimeBlockFrom txPrev prevout nTimeTx
      .ok ⟨decide ((hash : ℤ) ≤ bnTarget), hash, bnTarget.getuint256⟩

/-- `CheckProofOfStake`. -/
def checkProofOfStake (pindexPrev : CBlockIndex) (tx : CTransaction)
    (nBits hashProofOfStake targetProofOfStake : ℕ) : Checked KernelResult :=
  if !tx.isCoinStake then .ok ⟨false, hashProofOfStake, targetProofOfStake⟩
  else do
    let txin ← elementAt tx.vin 0
    let read := CTransaction.readFromDisk st st.txdb (CTransaction.null env.adjustedTime)
      txin.prevout
    let txPrev := read.this
    if !read.success then .ok ⟨false, hashProofOfStake, targetProofOfStake⟩
    else do
      -- the results of the signature check and of the header read are ignored
      let _ ← verifySignature env txPrev tx 0 SCRIPT_VERIFY_NONE 0
      let nTimeBlockFrom := CBlock.timeReadFromDisk st read.txindexRet.pos.nFile
        read.txindexRet.pos.nBlockPos
      let kernel ← checkStakeKernelHash env st pindexPrev nBits nTimeBlockFrom txPrev
        txin.prevout tx.nTime hashProofOfStake targetProofOfStake
      if kernel.success then .ok kernel
      else do
        -- a failed kernel is let through whatever the age of the best block
        let _ ← deref (st.entry st.pindexBest)
        .ok { kernel with success := true }

end Kernel

end SocietyGold
