import SocietyGold.State

/-!
# Block checks

`CheckProofOfWork`, `CheckBlockSignature` and `CheckBlock`: the checks a block
must pass whatever chain it is connected to.
-/

namespace SocietyGold

open Support

def START_MASTERNODE_PAYMENTS : ℕ := 1516001840

/-- The tolerance for clocks that run ahead, in seconds. -/
def DRIFT : ℤ := 5 * 60

def futureDrift (nTime : ℤ) : ℤ := nTime + DRIFT

def checkProofOfWork (env : Env) (hash nBits : ℕ) : Verdict := do
  let bnTarget := CBigNum.setCompact nBits
  refuseIf (bnTarget ≤ 0 || bnTarget > env.proofOfWorkLimit) 0
    "CheckProofOfWork() : nBits below minimum work"
  refuseIf (hash > bnTarget.getuint256) 0
    "CheckProofOfWork() : hash doesn't match nBits"

namespace CBlock

def checkBlockSignature (env : Env) (block : CBlock) : Bool :=
  if block.isProofOfWork then block.vchBlockSig = []
  else if block.vchBlockSig = [] then false
  else
    -- a proof-of-stake block has a second transaction with two outputs
    match block.vtx with
    | _ :: tx :: _ =>
        match tx.vout with
        | _ :: txout :: _ =>
            match env.solver txout.scriptPubKey with
            | some (.TX_PUBKEY vchPubKey) =>
                env.prims.verifyKey vchPubKey (block.getHash env.prims) block.vchBlockSig
            | some .other => false
            | none => false
        | _ => false
    | _ => false

/-- The InstantX filter: an input is locked for another transaction. -/
def conflictsWithLock (env : Env) (block : CBlock) : Bool :=
  block.vtx.any fun tx => !tx.isCoinBase && tx.vin.any fun txin =>
    match env.mapLockedInputs txin.prevout with
    | some hash => hash ≠ tx.getHash env.prims
    | none => false

/-- The masternode payment test of `CheckBlock` for the coinstake of a block on
top of the best block. -/
def foundPaymentAndPayee (env : Env) (nBestHeight : ℤ) (vout : List CTxOut) : Bool :=
  let masternodePaymentAmount := (vout.getLast?).map CTxOut.nValue
  match env.getBlockPayee (nBestHeight + 1) with
  | none => true
  | some payee =>
      payee = [] || vout.any fun txout =>
        some txout.nValue = masternodePaymentAmount && txout.scriptPubKey = payee

/-- The coinstake lacks a masternode payment that `CheckBlock` demands. -/
def lacksMasternodePayment (env : Env) (st : ChainState) (block : CBlock) : Bool :=
  if env.isInitialBlockDownload then false
  else if block.nTime ≤ START_MASTERNODE_PAYMENTS then false
  else
    match block.isProofOfStake, block.vtx, st.entry st.pindexBest with
    | true, _ :: tx :: _, some pindex =>
        pindex.phashBlock = block.hashPrevBlock &&
          !foundPaymentAndPayee env pindex.nHeight tx.vout
    | _, _, _ => false

/-- The loop of `CheckBlock` over the transactions. -/
def checkTransactions (block : CBlock) : List CTransaction → Verdict
  | [] => .ok ()
  | tx :: rest =>
      match tx.checkTransaction with
      | .error rejection => .error ⟨rejection.nDoS, "CheckBlock() : CheckTransaction failed"⟩
      | .ok _ => do
          refuseIf (block.nTime < tx.nTime) 50
            "CheckBlock() : block timestamp earlier than transaction timestamp"
          checkTransactions block rest

/-- The rules of `CheckBlock` for the first two transactions of a block. -/
def checkCoinTransactions (block : CBlock) : Verdict := do
  refuseIf (!(block.vtx.take 1).any CTransaction.isCoinBase) 100
    "CheckBlock() : first tx is not coinbase"
  refuseIf ((block.vtx.drop 1).any CTransaction.isCoinBase) 100
    "CheckBlock() : more than one coinbase"
  if block.isProofOfStake then do
    refuseIf (!(block.vtx.take 1).all fun tx => tx.vout.length = 1 && tx.vout.all CTxOut.isEmpty)
      100 "CheckBlock() : coinbase output not empty for proof-of-stake block"
    refuseIf ((block.vtx.drop 2).any CTransaction.isCoinStake) 100
      "CheckBlock() : more than one coinstake"
  else .ok ()

def checkBlock (env : Env) (st : ChainState) (block : CBlock)
    (fCheckPOW fCheckMerkleRoot fCheckSig : Bool) : Verdict := do
  refuseIf (block.vtx = [] || block.vtx.length > MAX_BLOCK_SIZE ||
    block.getSerializeSize > MAX_BLOCK_SIZE) 100 "CheckBlock() : size limits failed"
  refuseIf (fCheckPOW && block.isProofOfWork &&
    !(checkProofOfWork env (block.getPoWHash env.prims) block.nBits).passed) 50
    "CheckBlock() : proof of work failed"
  refuseIf ((block.nTime : ℤ) > futureDrift env.adjustedTime) 0
    "CheckBlock() : block timestamp too far in the future"
  checkCoinTransactions block
  refuseIf (fCheckSig && !block.checkBlockSignature env) 100
    "CheckBlock() : bad proof-of-stake block signature"
  refuseIf (env.isSporkInstantXBlockFiltering && block.conflictsWithLock env) 0
    "CheckBlock() : found conflicting transaction with transaction lock"
  refuseIf (block.lacksMasternodePayment env st) 100
    "CheckBlock() : Couldn't find masternode payment or payee"
  checkTransactions block block.vtx
  refuseIf (!decide (block.txids env.prims).Nodup) 100
    "CheckBlock() : duplicate transaction"
  refuseIf ((block.vtx.map CTransaction.getLegacySigOpCount).sum > MAX_BLOCK_SIGOPS) 100
    "CheckBlock() : out-of-bounds SigOpCount"
  refuseIf (fCheckMerkleRoot && block.hashMerkleRoot ≠ block.buildMerkleTree env.prims) 100
    "CheckBlock() : hashMerkleRoot mismatch"

/-! ## What a checked block looks like -/

theorem checkTransactions_eq_ok
    {block : CBlock} {vtx : List CTransaction} (h : checkTransactions block vtx = .ok ()) :
    ∀ tx ∈ vtx, tx.checkTransaction = .ok () ∧ tx.nTime ≤ block.nTime := by
  induction vtx with
  | nil => simp
  | cons tx rest ih =>
      unfold checkTransactions at h
      cases hTx : tx.checkTransaction with
      | error rejection => simp [hTx] at h
      | ok u =>
          simp only [hTx, bind_eq_ok, refuseIf_eq_ok, decide_eq_false_iff_not, not_lt] at h
          obtain ⟨-, hTime, hRest⟩ := h
          intro other hOther
          rcases List.mem_cons.mp hOther with rfl | hOther
          · exact ⟨hTx, hTime⟩
          · exact ih hRest other hOther

/-- The checks of `CheckBlock` besides the masternode payment. -/
structure PassesOtherChecks (env : Env) (block : CBlock)
    (fCheckPOW fCheckMerkleRoot fCheckSig : Bool) : Prop where
  size : (block.vtx = [] || block.vtx.length > MAX_BLOCK_SIZE ||
    block.getSerializeSize > MAX_BLOCK_SIZE) = false
  proofOfWork : (fCheckPOW && block.isProofOfWork &&
    !(checkProofOfWork env (block.getPoWHash env.prims) block.nBits).passed) = false
  drift : (block.nTime : ℤ) ≤ futureDrift env.adjustedTime
  coinTransactions : block.checkCoinTransactions = .ok ()
  signature : (fCheckSig && !block.checkBlockSignature env) = false
  unlocked : (env.isSporkInstantXBlockFiltering && block.conflictsWithLock env) = false
  transactions : checkTransactions block block.vtx = .ok ()
  nodup : (block.txids env.prims).Nodup
  sigOps : (block.vtx.map CTransaction.getLegacySigOpCount).sum ≤ MAX_BLOCK_SIGOPS
  merkleRoot : (fCheckMerkleRoot && block.hashMerkleRoot ≠ block.buildMerkleTree env.prims) = false

theorem checkBlock_eq_ok_iff
    {env : Env} {st : ChainState} {block : CBlock} {fCheckPOW fCheckMerkleRoot fCheckSig : Bool} :
    checkBlock env st block fCheckPOW fCheckMerkleRoot fCheckSig = .ok () ↔
      PassesOtherChecks env block fCheckPOW fCheckMerkleRoot fCheckSig ∧
        block.lacksMasternodePayment env st = false := by
  simp only [checkBlock, bind_eq_ok, refuseIf_eq_ok, decide_eq_false_iff_not, not_lt, gt_iff_lt,
    Bool.not_eq_false', decide_eq_true_eq]
  constructor
  · rintro ⟨-, hSize, -, hWork, -, hDrift, _, hCoin, -, hSig, -, hLocks, -, hPayment, _, hTxs, -,
      hNodup, -, hSigOps, hRoot⟩
    exact ⟨⟨hSize, hWork, hDrift, hCoin, hSig, hLocks, hTxs, hNodup, hSigOps, hRoot⟩, hPayment⟩
  · rintro ⟨⟨hSize, hWork, hDrift, hCoin, hSig, hLocks, hTxs, hNodup, hSigOps, hRoot⟩, hPayment⟩
    exact ⟨(), hSize, (), hWork, (), hDrift, (), hCoin, (), hSig, (), hLocks, (), hPayment, (),
      hTxs, (), hNodup, (), hSigOps, hRoot⟩

section Checked

variable {env : Env} {st : ChainState} {block : CBlock}
  {fCheckPOW fCheckMerkleRoot fCheckSig : Bool}
  (h : checkBlock env st block fCheckPOW fCheckMerkleRoot fCheckSig = .ok ())
include h

theorem vtx_ne_nil_of_checked : block.vtx ≠ [] := by
  intro hNil
  have hSize := (checkBlock_eq_ok_iff.mp h).1.size
  simp [hNil] at hSize

theorem nodup_txids_of_checked : (block.txids env.prims).Nodup :=
  (checkBlock_eq_ok_iff.mp h).1.nodup

omit h in
/-- The header of a block checked with its merkle root holds the root of its tree. -/
theorem hashMerkleRoot_of_checked
    (h : checkBlock env st block fCheckPOW true fCheckSig = .ok ()) :
    block.hashMerkleRoot = block.buildMerkleTree env.prims := by
  simpa using (checkBlock_eq_ok_iff.mp h).1.merkleRoot

/-- Every transaction of a checked block passed its own checks. -/
theorem checkTransaction_of_checked {tx : CTransaction} (hTx : tx ∈ block.vtx) :
    tx.checkTransaction = .ok () :=
  (checkTransactions_eq_ok (checkBlock_eq_ok_iff.mp h).1.transactions tx hTx).1

end Checked

end CBlock

namespace Sample

/-- A coinbase with the height in its script, paying the given amount. -/
def coinbase (nTime : ℕ) (nHeight : ℤ) (nValue : ℤ) : CTransaction where
  nVersion := 1
  nTime := nTime
  vin := [⟨COutPoint.null, CScript.pushInt64 [] nHeight ++ [0, 0], UINT_MAX⟩]
  vout := [⟨nValue, [0x51]⟩]
  nLockTime := 0

/-- A transaction that spends one output and pays the given amount. -/
def spend (nTime : ℕ) (prevout : COutPoint) (nValue : ℤ) : CTransaction where
  nVersion := 1
  nTime := nTime
  vin := [⟨prevout, [], UINT_MAX⟩]
  vout := [⟨nValue, [0x51]⟩]
  nLockTime := 0

/-- A proof-of-work block with the given transactions. -/
def sealed (hashPrevBlock nTime : ℕ) (vtx : List CTransaction) : CBlock where
  nVersion := CBlock.CURRENT_VERSION
  hashPrevBlock := hashPrevBlock
  hashMerkleRoot := CBlock.buildMerkleTree prims ⟨⟨0, 0, 0, 0, 0, 0⟩, vtx, []⟩
  nTime := nTime
  nBits := 0x1f00ffff
  nNonce := 0
  vtx := vtx
  vchBlockSig := []

end Sample

end SocietyGold
