import SocietyGold.AcceptableInputs
import SocietyGold.NetAddr

/-!
# Masternodes

An entry of the masternode list, its state check, the age of its collateral and its score
for a block.
-/

namespace SocietyGold

open Support

def PROTOCOL_VERSION : ℤ := 10007

def MASTERNODE_EXPIRATION_SECONDS : ℤ := 65 * 60

def MASTERNODE_REMOVAL_SECONDS : ℤ := 70 * 60

def MASTERNODE_ENABLED : ℤ := 1
def MASTERNODE_EXPIRED : ℤ := 2
def MASTERNODE_VIN_SPENT : ℤ := 3
def MASTERNODE_REMOVE : ℤ := 4
def MASTERNODE_POS_ERROR : ℤ := 5

def MASTERNODE_COLLATERAL : ℤ := 150000

def getMNCollateral (_nHeight : ℤ) : ℤ := MASTERNODE_COLLATERAL

/-- The order in which the scores of masternodes are put: what `sort` promises about
`CompareValueOnly` on reverse iterators, which leaves equal scores in any order. -/
structure ScoreSort where
  sort : List (ℕ × CTxIn) → List (ℕ × CTxIn)
  perm : ∀ scores, (sort scores).Perm scores
  sorted : ∀ scores, (sort scores).Pairwise fun first second => second.1 ≤ first.1

/-- What the masternode code takes from outside besides a `RelayEnv`. -/
structure MasternodeEnv extends RelayEnv where
  /-- `darkSendPool.collateralPubKey`. -/
  collateralPubKey : CScript
  scoreSort : ScoreSort

/-! ## Entries -/

structure CMasternode where
  vin : CTxIn
  addr : CService
  pubkey : CPubKey
  pubkey2 : CPubKey
  sig : List UInt8
  activeState : ℤ
  sigTime : ℤ
  lastDseep : ℤ
  lastTimeSeen : ℤ
  cacheInputAge : ℤ
  cacheInputAgeBlock : ℤ
  unitTest : Bool
  allowFreeTx : Bool
  protocolVersion : ℤ
  nLastDsq : ℤ
  rewardAddress : CScript
  rewardPercentage : ℤ
  nVote : ℤ
  lastVote : ℤ
  nScanningErrorCount : ℤ
  nLastScanningErrorBlockHeight : ℤ
  nLastPaid : ℤ
  isPortOpen : Bool
  isOldNode : Bool
  deriving DecidableEq

namespace CMasternode

variable (mn : CMasternode)

/-- The copy constructor: a copy counts as paid just now. -/
def copy (adjustedTime : ℕ) : CMasternode := { mn with nLastPaid := adjustedTime }

def secondsSincePayment (adjustedTime : ℕ) : ℤ := wrap64 (adjustedTime - mn.nLastPaid)

/-- `UpdateLastSeen`: zero stands for now. -/
def updateLastSeen (adjustedTime : ℕ) (override : ℤ) : CMasternode :=
  { mn with lastTimeSeen := if override = 0 then adjustedTime else override }

def changePortStatus (status : Bool) : CMasternode := { mn with isPortOpen := status }

def changeNodeStatus (status : Bool) : CMasternode := { mn with isOldNode := status }

def updatedWithin (adjustedTime : ℕ) (seconds : ℤ) : Bool :=
  wrap64 (adjustedTime - mn.lastTimeSeen) < seconds

def isEnabled : Bool := mn.isPortOpen && mn.activeState = MASTERNODE_ENABLED

end CMasternode

/-! ## The state check -/

section Check

variable (env : MasternodeEnv) (st : ChainState)

/-- The transaction that would spend the collateral of a masternode. -/
def collateralSpend (pindexBest : CBlockIndex) (vin : CTxIn) : CTransaction :=
  { CTransaction.null env.adjustedTime with
    vin := [vin]
    vout := [⟨(getMNCollateral pindexBest.nHeight - 1) * COIN, env.collateralPubKey⟩] }

/-- What `AcceptableInputs` says about the collateral of a masternode. -/
def acceptsCollateral (vin : CTxIn) : Checked Bool := do
  let pindexBest ← deref (st.entry st.pindexBest)
  acceptableInputs env.toRelayEnv st (collateralSpend env pindexBest vin) false false false

namespace CMasternode

/-- The steps of `Check` for an entry that has not been seen for long. -/
def markUnseen (adjustedTime : ℕ) (mn : CMasternode) : CMasternode :=
  let mn :=
    if !mn.updatedWithin adjustedTime MASTERNODE_REMOVAL_SECONDS then
      { mn with activeState := MASTERNODE_REMOVE }
    else mn
  if !mn.updatedWithin adjustedTime MASTERNODE_EXPIRATION_SECONDS then
    { mn with activeState := MASTERNODE_EXPIRED }
  else mn

/-- The step of `Check` for the collateral.  The assignment of `MASTERNODE_VIN_SPENT` is
commented out in the source. -/
def markSpent (mn : CMasternode) : Checked CMasternode :=
  if mn.unitTest then .ok mn
  else do
    let acceptable ← acceptsCollateral env st mn.vin
    .ok (if acceptable then mn else { mn with activeState := MASTERNODE_ENABLED })

/-- `CMasternode::Check`.  The returns between the steps are commented out in the source, so
each step overwrites the state that the one before it has set. -/
def check (mn : CMasternode) : Checked CMasternode :=
  if env.fRequestShutdown then .ok mn
  else do
    let mn ← (mn.markUnseen env.adjustedTime).markSpent env st
    .ok { mn with activeState := MASTERNODE_ENABLED }

theorem markUnseen_eq (adjustedTime : ℕ) (mn : CMasternode) :
    ∃ activeState, mn.markUnseen adjustedTime = { mn with activeState := activeState } := by
  unfold markUnseen
  dsimp only
  split_ifs
  · exact ⟨_, rfl⟩
  · exact ⟨_, rfl⟩
  · exact ⟨_, rfl⟩
  · exact ⟨mn.activeState, rfl⟩

variable {env st}

theorem markSpent_eq_ok
    {mn marked : CMasternode} (h : mn.markSpent env st = .ok marked) :
    ∃ activeState, marked = { mn with activeState := activeState } := by
  unfold markSpent at h
  by_cases hTest : mn.unitTest = true
  · rw [if_pos hTest, Except.ok.injEq] at h
    exact ⟨mn.activeState, h.symm⟩
  · rw [if_neg hTest] at h
    obtain ⟨acceptable, -, hMarked⟩ := bind_eq_ok.mp h
    rw [Except.ok.injEq] at hMarked
    cases acceptable with
    | true => exact ⟨mn.activeState, hMarked.symm⟩
    | false => exact ⟨MASTERNODE_ENABLED, hMarked.symm⟩

/-- Without a shutdown request, a check that returns leaves the entry enabled, whatever it
has found. -/
theorem check_eq_ok
    {mn checked : CMasternode}
    (hShutdown : env.fRequestShutdown = false) (h : mn.check env st = .ok checked) :
    checked = { mn with activeState := MASTERNODE_ENABLED } := by
  unfold check at h
  simp only [hShutdown, Bool.false_eq_true, if_false, bind_eq_ok, Except.ok.injEq] at h
  obtain ⟨marked, hMarked, rfl⟩ := h
  obtain ⟨unseenState, hUnseen⟩ := markUnseen_eq env.adjustedTime mn
  obtain ⟨spentState, rfl⟩ := markSpent_eq_ok hMarked
  rw [hUnseen]

/-- So the port alone decides what the check leaves. -/
theorem isEnabled_of_check
    {mn checked : CMasternode}
    (hShutdown : env.fRequestShutdown = false) (h : mn.check env st = .ok checked) :
    checked.isEnabled = mn.isPortOpen := by
  rw [check_eq_ok hShutdown h]
  simp [isEnabled]

end CMasternode

end Check

/-! ## A concrete network with masternodes -/

namespace Sample

/-- Scores sorted by insertion. -/
def insertionScoreSort : ScoreSort where
  sort scores := scores.insertionSort fun first second => second.1 ≤ first.1
  perm scores := List.perm_insertionSort _ scores
  sorted scores := by
    have : Std.Total fun first second : ℕ × CTxIn => second.1 ≤ first.1 :=
      ⟨fun first second => Nat.le_total second.1 first.1⟩
    have : IsTrans (ℕ × CTxIn) fun first second => second.1 ≤ first.1 :=
      ⟨fun _ _ _ hFirst hSecond => Nat.le_trans hSecond hFirst⟩
    exact List.pairwise_insertionSort _ scores

theorem masternodeEnv_prims (adjustedTime : ℕ) : prims = (env adjustedTime).prims := rfl

/-- Every script verifies and nothing is locked. -/
def masternodeEnv (adjustedTime : ℕ) : MasternodeEnv where
  toEnv := env adjustedTime
  fTestNet := true
  mapDarksendBroadcastTxes := ∅
  scriptPrims :=
    { toPrimitives := prims
      ripemd160 := id
      sha1 := id
      sha256 := id
      checkLowS := fun _ => true }
  signatureCache := CSignatureCache.empty
  prims_eq := masternodeEnv_prims adjustedTime
  collateralPubKey := [0x51]
  scoreSort := insertionScoreSort

def serviceAt (lastByte : UInt8) (port : UInt16) : CService where
  ip := #v[0, 0, 0, 0, 0, 0, 0, 0, 0, 0, 0xff, 0xff, 8, 8, 8, lastByte]
  port := port

/-- A masternode with the collateral in the first output of transaction 7. -/
def masternodeSeen (lastTimeSeen : ℤ) (isPortOpen : Bool) : CMasternode where
  vin := ⟨⟨7, 0⟩, [], UINT_MAX⟩
  addr := serviceAt 1 23980
  pubkey := CPubKey.ofBytes (compressedKey 1)
  pubkey2 := CPubKey.ofBytes (compressedKey 2)
  sig := []
  activeState := MASTERNODE_ENABLED
  sigTime := 1511159400
  lastDseep := 0
  lastTimeSeen := lastTimeSeen
  cacheInputAge := 0
  cacheInputAgeBlock := 0
  unitTest := false
  allowFreeTx := true
  protocolVersion := PROTOCOL_VERSION
  nLastDsq := 0
  rewardAddress := []
  rewardPercentage := 0
  nVote := 0
  lastVote := 0
  nScanningErrorCount := 0
  nLastScanningErrorBlockHeight := 0
  nLastPaid := lastTimeSeen
  isPortOpen := isPortOpen
  isOldNode := true

end Sample

end SocietyGold
