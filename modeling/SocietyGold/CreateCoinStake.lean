import SocietyGold.CreateTransaction
import SocietyGold.Inflation
import SocietyGold.Kernel
import SocietyGold.MasternodePayments
import SocietyGold.PaymentVotes

/-!
# Creating a coinstake

`CreateCoinStake` looks for a coin of the wallet that meets the kernel, adds coins of the same
owner, and divides what they are worth with the reward between the stake and a masternode.  The
flag that says whether there is somebody to pay is true from the start and never changes.
-/

namespace SocietyGold

open Support TxnOutType

/-! ## What the function works with -/

def START_MASTERNODE_PAYMENTS_TESTNET : ℕ := 1513486992

/-- The wallet, the node and the settings, which stay as they are while the function runs. -/
structure StakeContext (CKey : Type) where
  env : Env
  st : ChainState
  /-- How previous transactions are read back from disk. -/
  read : COutPoint → CTransaction.ReadResult
  prims : ScriptPrimitives
  keystore : CKeyStore CKey
  /-- `CKey::GetPubKey`. -/
  pubKeyOf : CKey → CPubKey
  keys : WalletKeys
  view : CoinView
  wallet : CWallet
  /-- The order of pairs of a pointer and an index. -/
  before : COutPoint → COutPoint → Bool
  /-- `GetBalance()`. -/
  nBalance : ℤ
  nReserveBalance : ℤ
  /-- `GetStakeCombineThreshold()`. -/
  nCombineThreshold : ℤ
  /-- Floating point: the subsidy for a height, after the factors of the phases. -/
  scaledSubsidy : (nHeight nSubsidy nSubsidyBase : ℤ) → ℤ
  fTestNet : Bool
  vWinning : List CMasternodePaymentWinner
  /-- `GetCurrentMasterNode(1)`. -/
  winningNode : Option CMasternode
  /-- `ParseMoney` reads no negative amount. -/
  minimum_nonneg : 0 ≤ keys.nMinimumInputValue
  /-- No factor is greater than one. -/
  scaled_le : ∀ nHeight nSubsidy nSubsidyBase,
    scaledSubsidy nHeight nSubsidy nSubsidyBase ≤ max |nSubsidy| |nSubsidyBase|
  /-- Announcements with other percentages are refused. -/
  percentage_range : ∀ mn, winningNode = some mn →
    0 ≤ mn.rewardPercentage ∧ mn.rewardPercentage ≤ 100

/-- The arguments of `CreateCoinStake`; the fees are an amount of money. -/
structure StakeRequest where
  nBits : ℕ
  nSearchInterval : ℤ
  nFees : ℤ
  txNew : CTransaction
  fees_range : moneyRange nFees = true

/-- The kernel that is found: the coin, the seconds back in time, the script of the outputs and the
key. -/
structure FoundKernel (CKey : Type) where
  coin : COutPoint
  n : ℕ
  scriptPubKeyOut : CScript
  key : CKey

/-- Who is paid. -/
structure PaymentSchedule where
  payee : CScript
  payeerewardaddress : CScript
  payeerewardpercent : ℤ

def CWallet.scriptAt (w : CWallet) (o : COutPoint) : CScript :=
  (w.outputAt o).elim [] CTxOut.scriptPubKey

/-! ## Coins for staking -/

section Staking

variable {CKey : Type} (ctx : StakeContext CKey) (req : StakeRequest)

namespace StakeContext

/-- The tests of a transaction in `AvailableCoinsForStaking`. -/
def passesStakingTx (nSpendTime : ℕ) (wtx : CWalletTx) : Bool :=
  !decide (ctx.view.getDepthInMainChain wtx.toCMerkleTx < 1) &&
    !decide ((wtx.nTime + nStakeMinAge) % 2 ^ 32 > nSpendTime) &&
    !decide (ctx.view.getBlocksToMaturity wtx.toCMerkleTx > 0) &&
    !wtx.vout.any fun txout =>
      txout.nValue ∈ darkSendDenominations ||
        txout.nValue = getMNCollateral ctx.view.nBestHeight * COIN ||
        isCollateralAmount txout.nValue

/-- The coins of one transaction. -/
def stakingCoinsOf (nSpendTime hash : ℕ) (wtx : CWalletTx) : List COutput :=
  if ctx.passesStakingTx nSpendTime wtx then
    wtx.vout.zipIdx.filterMap fun out =>
      if !wtx.isMarked out.2 && ctx.keys.isMineOut out.1 &&
          ctx.keys.nMinimumInputValue ≤ out.1.nValue then
        some ⟨⟨hash, out.2⟩, ctx.view.getDepthInMainChain wtx.toCMerkleTx,
          ctx.keys.isMine out.1.scriptPubKey = .ISMINE_SPENDABLE⟩
      else none
  else []

def availableCoinsForStaking (nSpendTime : ℕ) : List COutput :=
  ctx.wallet.mapWallet.inKeyOrder.flatMap fun e => ctx.stakingCoinsOf nSpendTime e.1 e.2.wtx

/-- The loop of `SelectCoinsForStaking`. -/
def takeForStaking (nTargetValue : ℤ) :
    List COutput → (setCoinsRet : List COutPoint) → (nValueRet : ℤ) → List COutPoint × ℤ
  | [], setCoinsRet, nValueRet => (setCoinsRet, nValueRet)
  | output :: vCoins, setCoinsRet, nValueRet =>
      let n := ctx.wallet.valueAt output.outpoint
      if !output.fSpendable then takeForStaking nTargetValue vCoins setCoinsRet nValueRet
      else if nTargetValue ≤ nValueRet then (setCoinsRet, nValueRet)
      else if nTargetValue ≤ n then
        (setInsert ctx.before output.outpoint setCoinsRet, nValueRet + n)
      else if n < nTargetValue + CENT then
        takeForStaking nTargetValue vCoins (setInsert ctx.before output.outpoint setCoinsRet)
          (nValueRet + n)
      else takeForStaking nTargetValue vCoins setCoinsRet nValueRet

def selectCoinsForStaking (nTargetValue : ℤ) (nSpendTime : ℕ) : List COutPoint × ℤ :=
  ctx.takeForStaking nTargetValue (ctx.availableCoinsForStaking nSpendTime) [] 0

/-! ## The kernel -/

/-- `pindexBest`, when it is used. -/
def bestIndex : Checked CBlockIndex := deref (ctx.st.entry ctx.st.pindexBest)

/-- `CheckKernel`. -/
def checkKernel (nBits nTime : ℕ) (prevout : COutPoint) : Checked Bool :=
  let read := ctx.read prevout
  if !read.success then .ok false
  else
    match CBlock.readHeaderFromDisk ctx.st read.txindexRet.pos.nFile
        read.txindexRet.pos.nBlockPos with
    | none => .ok false
    | some header =>
        if header.nTime + nStakeMinAge > nTime then .ok false
        else do
          let pindexPrev ← ctx.bestIndex
          let kernel ← checkStakeKernelHash ctx.env ctx.st pindexPrev nBits header.nTime read.this
            prevout nTime 0 0
          .ok kernel.success

/-- The key and the script of the outputs for a kernel. -/
def kernelOutput (scriptPubKeyKernel : CScript) : Option (CKey × CScript) :=
  match solver scriptPubKeyKernel with
  | some (TX_PUBKEYHASH, vSolutions) =>
      (ctx.keystore.getKey (fromBytesLE (vSolutions.head?.getD []))).map fun key =>
        (key, CScript.pushBytes [] (ctx.pubKeyOf key).vch ++ [OP_CHECKSIG])
  | some (TX_PUBKEY, vSolutions) =>
      let vchPubKey := CPubKey.ofBytes (vSolutions.head?.getD [])
      (ctx.keystore.getKey (vchPubKey.getID ctx.prims)).bind fun key =>
        if ctx.pubKeyOf key ≠ vchPubKey then none else some (key, scriptPubKeyKernel)
  | _ => none

/-- `txNew.nTime - n`. -/
def stakeTime (nTime n : ℕ) : ℕ := (nTime + 2 ^ 32 - n) % 2 ^ 32

/-- The search backward in time with one coin, which ends when the kernel is met. -/
def searchTimes (coin : COutPoint) : List ℕ → Checked (Option (FoundKernel CKey))
  | [] => .ok none
  | n :: rest => do
      let met ← ctx.checkKernel req.nBits (stakeTime req.txNew.nTime n) coin
      if met then
        .ok ((ctx.kernelOutput (ctx.wallet.scriptAt coin)).map fun out => ⟨coin, n, out.2, out.1⟩)
      else searchTimes coin rest

/-- The loop over the coins. -/
def findKernel : (setCoins : List COutPoint) → Checked (Option (FoundKernel CKey))
  | [] => .ok none
  | coin :: setCoins => do
      let found ← ctx.searchTimes req coin (List.range (min req.nSearchInterval 60).toNat)
      match found with
      | some kernel => .ok (some kernel)
      | none => findKernel setCoins

/-! ## More inputs -/

/-- The loop that adds inputs of the same owner: the inputs, and what they are worth. -/
def addInputs (kernel : FoundKernel CKey) (nTime : ℕ) :
    (setCoins vin : List COutPoint) → (nCredit : ℤ) → List COutPoint × ℤ
  | [], vin, nCredit => (vin, nCredit)
  | coin :: setCoins, vin, nCredit =>
      let n := ctx.wallet.valueAt coin
      let nTimeWeight : ℤ :=
        nTime - ((ctx.wallet.get coin.hash).elim 0 fun wtx => wtx.nTime : ℕ) - nStakeMinAge
      if (ctx.wallet.scriptAt coin = ctx.wallet.scriptAt kernel.coin ∨
          ctx.wallet.scriptAt coin = kernel.scriptPubKeyOut) ∧ coin.hash ≠ kernel.coin.hash then
        if 10 ≤ vin.length ∨ ctx.nCombineThreshold ≤ nCredit ∨
            nCredit + n > ctx.nBalance - ctx.nReserveBalance then
          (vin, nCredit)
        else if ctx.nCombineThreshold ≤ n ∨ nTimeWeight < nStakeMinAge then
          addInputs kernel nTime setCoins vin nCredit
        else addInputs kernel nTime setCoins (vin ++ [coin]) (nCredit + n)
      else addInputs kernel nTime setCoins vin nCredit

/-! ## The reward -/

/-- `nSubsidyBase`; the divisor is `365 + 8 / 33`. -/
def nSubsidyBase (nCoinAge : ℤ) : ℤ := (wrap64 (nCoinAge * COIN_YEAR_REWARD)).tdiv 365

def getProofOfStakeReward (pindexPrev : CBlockIndex) (nCoinAge nFees : ℤ) : ℤ :=
  if ctx.env.maximumSupplyExceeded pindexPrev.nMoneySupply then 0
  else ctx.scaledSubsidy pindexPrev.nHeight (nSubsidy nCoinAge) (nSubsidyBase nCoinAge) + nFees

/-- The reward for the coin age of a transaction, unless `GetCoinAge` fails. -/
def rewardFor (tx : CTransaction) : Checked (Option ℤ) := do
  let age ← CTransaction.coinAge ctx.read ctx.st tx
  if !age.1 then .ok none
  else do
    let pindexPrev ← ctx.bestIndex
    .ok (some (ctx.getProofOfStakeReward pindexPrev (wrap64 age.2) req.nFees))

/-! ## The payments -/

/-- `bMasterNodePayment`. -/
def bMasterNodePayment : Bool :=
  ctx.env.time >
    if ctx.fTestNet then START_MASTERNODE_PAYMENTS_TESTNET else START_MASTERNODE_PAYMENTS

/-- Whom the block at a height pays; before the payments start it is an empty script. -/
def schedule (nHeight : ℤ) : Option PaymentSchedule :=
  if !ctx.bMasterNodePayment then some ⟨[], [], 0⟩
  else
    match CMasternodePayments.getBlockPayee ctx.vWinning nHeight with
    | some (payee, _) => some ⟨payee, [], 0⟩
    | none => ctx.winningNode.map fun mn =>
        ⟨scriptForKeyID (mn.pubkey.getID ctx.prims), mn.rewardAddress, mn.rewardPercentage⟩

end StakeContext

namespace PaymentSchedule

variable (s : PaymentSchedule)

/-- The scripts of the outputs that are appended. -/
def scripts : List CScript :=
  (if s.payeerewardpercent = 0 then [s.payee] else []) ++
    (if s.payeerewardpercent = 100 then [s.payeerewardaddress] else []) ++
    if 0 < s.payeerewardpercent ∧ s.payeerewardpercent < 100 then
      [s.payee, s.payeerewardaddress]
    else []

/-- The outputs with those to be paid, still without amounts. -/
def appendTo (vout : List CTxOut) : List CTxOut :=
  vout ++ s.scripts.map fun script => ⟨0, script⟩

/-- `vout[i].nValue = nValue`. -/
def setAmount (i : ℕ) (nValue : ℤ) (vout : List CTxOut) : List CTxOut :=
  vout.modify i fun txout => { txout with nValue := nValue }

/-- The amounts of the outputs. -/
def setAmounts (nCredit masternodePayment : ℤ) (vout : List CTxOut) : List CTxOut :=
  let payments := vout.length
  let whole : Prop := s.payeerewardpercent = 0 ∨ s.payeerewardpercent = 100
  let shared : Prop := s.payeerewardpercent > 0 ∧ s.payeerewardpercent < 100
  let blockValue := nCredit - masternodePayment
  let half := (blockValue.tdiv 2).tdiv CENT * CENT
  let share := masternodePayment.tdiv 100 * (100 - s.payeerewardpercent)
  if vout.length = 4 ∧ whole then
    setAmount 2 (blockValue - half)
      (setAmount 1 half (setAmount (payments - 1) masternodePayment vout))
  else if vout.length = 3 ∧ whole then
    setAmount 1 blockValue (setAmount (payments - 1) masternodePayment vout)
  else if vout.length = 5 ∧ shared then
    setAmount 2 (blockValue - half) (setAmount 1 half
      (setAmount (payments - 1) (masternodePayment - share) (setAmount (payments - 2) share vout)))
  else if vout.length = 4 ∧ shared then
    setAmount 1 blockValue
      (setAmount (payments - 1) (masternodePayment - share) (setAmount (payments - 2) share vout))
  else vout

end PaymentSchedule

/-! ## The function -/

namespace StakeContext

/-- The outputs for the stake, which is split if it is worth enough. -/
def stakeOutputs (scriptPubKeyOut : CScript) (nCredit : ℤ) : List CTxOut :=
  if nCredit > 2 * ctx.nCombineThreshold then [⟨0, scriptPubKeyOut⟩, ⟨0, scriptPubKeyOut⟩]
  else [⟨0, scriptPubKeyOut⟩]

/-- The end of the function: sign the inputs and limit the size. -/
def finishStake (tx : CTransaction) : Option CTransaction :=
  (ctx.keystore.signInputs ctx.prims ctx.wallet (tx.vin.map CTxIn.prevout) 0 tx).bind fun tx =>
    if tx.getSerializeSize ≥ MAX_STANDARD_TX_SIZE then none else some tx

/-- The function from the reward on, for a transaction with inputs and the outputs of the stake. -/
def payStake (nCredit : ℤ) (tx : CTransaction) : Checked (Option CTransaction) := do
  let reward ← ctx.rewardFor req tx
  match reward with
  | none => .ok none
  | some nReward =>
      if nReward ≤ 0 then .ok none
      else do
        let pindexPrev ← ctx.bestIndex
        match ctx.schedule (pindexPrev.nHeight + 1) with
        | none => .ok none
        | some schedule =>
            .ok (ctx.finishStake { tx with
              vout := schedule.setAmounts (nCredit + nReward)
                (getMasternodePayment ctx.env pindexPrev nReward) (schedule.appendTo tx.vout) })

/-- `txNew.vout` once the kernel is found: the marker and the stake. -/
def stakeVout (kernel : FoundKernel CKey) : List CTxOut :=
  ⟨0, []⟩ :: ctx.stakeOutputs kernel.scriptPubKeyOut (ctx.wallet.valueAt kernel.coin)

/-- The inputs, and what they are worth: others join the kernel unless the stake is split. -/
def stakeInputs (setCoins : List COutPoint) (kernel : FoundKernel CKey) : List COutPoint × ℤ :=
  let nCredit := ctx.wallet.valueAt kernel.coin
  if (ctx.stakeVout kernel).length = 2 then
    ctx.addInputs kernel (stakeTime req.txNew.nTime kernel.n) setCoins [kernel.coin] nCredit
  else ([kernel.coin], nCredit)

/-- The function once the kernel is found. -/
def stakeKernel (setCoins : List COutPoint) (kernel : FoundKernel CKey) :
    Checked (Option (CTransaction × CKey)) :=
  let nCredit := ctx.wallet.valueAt kernel.coin
  if nCredit = 0 ∨ nCredit > ctx.nBalance - ctx.nReserveBalance then .ok none
  else do
    let inputs := ctx.stakeInputs req setCoins kernel
    let created ← ctx.payStake req inputs.2 { req.txNew with
      nTime := stakeTime req.txNew.nTime kernel.n
      vin := inputs.1.map fun coin => ⟨coin, [], UINT_MAX⟩
      vout := ctx.stakeVout kernel }
    .ok (created.map fun tx => (tx, kernel.key))

/-- `CreateCoinStake`: the transaction and the key, if it returns true. -/
def createCoinStake : Checked (Option (CTransaction × CKey)) :=
  if ctx.nBalance ≤ ctx.nReserveBalance then .ok none
  else
    let setCoins :=
      (ctx.selectCoinsForStaking (ctx.nBalance - ctx.nReserveBalance) req.txNew.nTime).1
    if setCoins = [] then .ok none
    else do
      let found ← ctx.findKernel req setCoins
      match found with
      -- `nCredit` is still zero
      | none => .ok none
      | some kernel => ctx.stakeKernel req setCoins kernel

end StakeContext

end Staking

/-! ## The coins that are selected -/

namespace StakeContext

variable {CKey : Type} {ctx : StakeContext CKey} {req : StakeRequest} {nSpendTime : ℕ}
  {nTargetValue : ℤ}

/-- A coin for staking is an output of the wallet that is worth the minimum. -/
theorem outputAt_of_mem_staking
    {coin : COutput} (hCoin : coin ∈ ctx.availableCoinsForStaking nSpendTime) :
    ∃ txout, ctx.wallet.outputAt coin.outpoint = some txout ∧
      ctx.keys.nMinimumInputValue ≤ txout.nValue := by
  unfold availableCoinsForStaking at hCoin
  obtain ⟨⟨hash, entry⟩, hEntry, hCoin⟩ := List.mem_flatMap.mp hCoin
  unfold stakingCoinsOf at hCoin
  split_ifs at hCoin
  · obtain ⟨⟨txout, i⟩, hOut, hSome⟩ := List.mem_filterMap.mp hCoin
    rw [List.mem_zipIdx_iff_getElem?] at hOut
    dsimp only at hOut hSome
    split_ifs at hSome with hPasses
    obtain rfl := Option.some.inj hSome
    simp only [Bool.and_eq_true, decide_eq_true_eq] at hPasses
    refine ⟨txout, ?_, hPasses.2⟩
    unfold CWallet.outputAt CWallet.get
    rw [Table.mem_inKeyOrder.mp hEntry]
    exact hOut
  · cases hCoin

theorem valueAt_nonneg_of_mem_staking
    {coin : COutput} (hCoin : coin ∈ ctx.availableCoinsForStaking nSpendTime) :
    0 ≤ ctx.wallet.valueAt coin.outpoint := by
  obtain ⟨txout, hOut, hMinimum⟩ := outputAt_of_mem_staking hCoin
  unfold CWallet.valueAt
  rw [hOut]
  exact ctx.minimum_nonneg.trans hMinimum

theorem takeForStaking_takes
    {vCoins : List COutput} {setCoinsRet : List COutPoint} {nValueRet : ℤ}
    (hNodup : setCoinsRet.Nodup) :
    (ctx.takeForStaking nTargetValue vCoins setCoinsRet nValueRet).1.Nodup ∧
      ∀ o ∈ (ctx.takeForStaking nTargetValue vCoins setCoinsRet nValueRet).1,
        o ∈ setCoinsRet ∨ ∃ output ∈ vCoins, output.outpoint = o := by
  induction vCoins generalizing setCoinsRet nValueRet with
  | nil => exact ⟨hNodup, fun o ho => Or.inl ho⟩
  | cons output vCoins ih =>
      have hSkip : ∀ {s : List COutPoint},
          (∀ o ∈ s, o ∈ setCoinsRet ∨ ∃ output ∈ vCoins, output.outpoint = o) →
            ∀ o ∈ s, o ∈ setCoinsRet ∨ ∃ output' ∈ output :: vCoins, output'.outpoint = o := by
        intro s hs o ho
        rcases hs o ho with hOld | ⟨output', hMem, hEq⟩
        · exact Or.inl hOld
        · exact Or.inr ⟨output', List.mem_cons_of_mem output hMem, hEq⟩
      have hInsert : ∀ o ∈ setInsert ctx.before output.outpoint setCoinsRet,
          o ∈ setCoinsRet ∨ ∃ output' ∈ output :: vCoins, output'.outpoint = o := by
        intro o ho
        rcases (mem_setInsert ctx.before).mp ho with rfl | hOld
        · exact Or.inr ⟨output, List.mem_cons_self, rfl⟩
        · exact Or.inl hOld
      rw [takeForStaking]
      split_ifs
      · exact ⟨(ih hNodup).1, hSkip (ih hNodup).2⟩
      · exact ⟨hNodup, fun o ho => Or.inl ho⟩
      · exact ⟨nodup_setInsert ctx.before hNodup, hInsert⟩
      · obtain ⟨hRest, hMore⟩ :=
          @ih _ (nValueRet + ctx.wallet.valueAt output.outpoint)
            (@nodup_setInsert _ _ ctx.before output.outpoint _ hNodup)
        refine ⟨hRest, fun o ho => ?_⟩
        rcases hMore o ho with hSet | ⟨output', hMem, hEq⟩
        · exact hInsert o hSet
        · exact Or.inr ⟨output', List.mem_cons_of_mem output hMem, hEq⟩
      · exact ⟨(ih hNodup).1, hSkip (ih hNodup).2⟩

/-- The selected coins are distinct, and none is worth less than nothing. -/
theorem selectCoinsForStaking_selects :
    (ctx.selectCoinsForStaking nTargetValue nSpendTime).1.Nodup ∧
      ∀ o ∈ (ctx.selectCoinsForStaking nTargetValue nSpendTime).1,
        0 ≤ ctx.wallet.valueAt o := by
  obtain ⟨hNodup, hTaken⟩ := @takeForStaking_takes CKey ctx nTargetValue
    (ctx.availableCoinsForStaking nSpendTime) [] 0 List.nodup_nil
  refine ⟨hNodup, fun o ho => ?_⟩
  rcases hTaken o ho with hNone | ⟨output, hMem, rfl⟩
  · cases hNone
  · exact valueAt_nonneg_of_mem_staking hMem

/-! ## The kernel and more inputs -/

theorem kernelOutput_nonempty
    {scriptPubKeyKernel : CScript} {key : CKey} {scriptPubKeyOut : CScript}
    (h : ctx.kernelOutput scriptPubKeyKernel = some (key, scriptPubKeyOut)) :
    scriptPubKeyOut ≠ [] := by
  unfold kernelOutput at h
  split at h
  · obtain ⟨key', -, hEq⟩ := Option.map_eq_some_iff.mp h
    obtain ⟨-, rfl⟩ := Prod.ext_iff.mp hEq
    exact List.append_ne_nil_of_right_ne_nil _ (List.cons_ne_nil _ _)
  · next hSolver =>
      obtain ⟨key', -, h⟩ := Option.bind_eq_some_iff.mp h
      split_ifs at h
      obtain ⟨-, rfl⟩ := Prod.ext_iff.mp (Option.some.inj h)
      rintro rfl
      have hEmpty : solver [] = none := by
        decide +kernel
      rw [hEmpty] at hSolver
      cases hSolver
  · cases h

/-- The coin, which is one of those, meets the kernel at the time that is found. -/
structure Meets (ctx : StakeContext CKey) (req : StakeRequest) (kernel : FoundKernel CKey) :
    Prop where
  met : ctx.checkKernel req.nBits (stakeTime req.txNew.nTime kernel.n) kernel.coin = .ok true
  nonempty : kernel.scriptPubKeyOut ≠ []

theorem searchTimes_meets
    {coin : COutPoint} {ns : List ℕ} {kernel : FoundKernel CKey}
    (h : ctx.searchTimes req coin ns = .ok (some kernel)) :
    kernel.coin = coin ∧ ctx.Meets req kernel := by
  induction ns with
  | nil => cases h
  | cons n ns ih =>
      rw [searchTimes] at h
      obtain ⟨met, hMet, h⟩ := bind_eq_ok.mp h
      split_ifs at h with hTrue
      · obtain ⟨⟨key, scriptPubKeyOut⟩, hOut, rfl⟩ := Option.map_eq_some_iff.mp (Except.ok.inj h)
        exact ⟨rfl, hTrue ▸ hMet, kernelOutput_nonempty hOut⟩
      · exact ih h

theorem findKernel_meets
    {setCoins : List COutPoint} {kernel : FoundKernel CKey}
    (h : ctx.findKernel req setCoins = .ok (some kernel)) :
    kernel.coin ∈ setCoins ∧ ctx.Meets req kernel := by
  induction setCoins with
  | nil => cases h
  | cons coin setCoins ih =>
      rw [findKernel] at h
      obtain ⟨found, hFound, h⟩ := bind_eq_ok.mp h
      cases found with
      | none =>
          obtain ⟨hMem, hMeets⟩ := ih h
          exact ⟨List.mem_cons_of_mem coin hMem, hMeets⟩
      | some found =>
          obtain rfl := Option.some.inj (Except.ok.inj h)
          obtain ⟨rfl, hMeets⟩ := searchTimes_meets hFound
          exact ⟨List.mem_cons_self, hMeets⟩

/-- The inputs that are added are other coins of the set, each once, with their values. -/
theorem addInputs_adds
    {kernel : FoundKernel CKey} {nTime : ℕ} {setCoins vin : List COutPoint} {nCredit : ℤ}
    (hDistinct : setCoins.Nodup) (hVin : vin.Nodup)
    (hApart : ∀ coin ∈ setCoins, coin.hash ≠ kernel.coin.hash → coin ∉ vin) :
    ∃ more, ctx.addInputs kernel nTime setCoins vin nCredit =
        (vin ++ more, nCredit + (more.map ctx.wallet.valueAt).sum) ∧
      (vin ++ more).Nodup ∧ ∀ coin ∈ more, coin ∈ setCoins := by
  induction setCoins generalizing vin nCredit with
  | nil =>
      refine ⟨[], ?_, ?_, fun coin h => absurd h List.not_mem_nil⟩
      · simp [addInputs]
      · simpa using hVin
  | cons coin setCoins ih =>
      obtain ⟨hNew, hRest⟩ := List.nodup_cons.mp hDistinct
      have hApart' : ∀ coin' ∈ setCoins, coin'.hash ≠ kernel.coin.hash → coin' ∉ vin :=
        fun coin' h' => hApart coin' (List.mem_cons_of_mem coin h')
      -- the loop goes on as it is
      have hSkip : ∃ more, ctx.addInputs kernel nTime setCoins vin nCredit =
          (vin ++ more, nCredit + (more.map ctx.wallet.valueAt).sum) ∧
            (vin ++ more).Nodup ∧ ∀ coin' ∈ more, coin' ∈ coin :: setCoins := by
        obtain ⟨more, hEq, hNodup, hMem⟩ := @ih vin nCredit hRest hVin hApart'
        exact ⟨more, hEq, hNodup, fun coin' h' => List.mem_cons_of_mem coin (hMem coin' h')⟩
      rw [addInputs]
      split_ifs with hSame hStop hYoung
      · refine ⟨[], ?_, ?_, fun coin' h' => absurd h' List.not_mem_nil⟩
        · simp
        · simpa using hVin
      · exact hSkip
      · have hCoin := hApart coin List.mem_cons_self hSame.2
        have hVin' : (vin ++ [coin]).Nodup := by
          rw [List.nodup_append_comm]
          exact List.nodup_cons.mpr ⟨hCoin, hVin⟩
        have hLater : ∀ coin' ∈ setCoins, coin'.hash ≠ kernel.coin.hash →
            coin' ∉ vin ++ [coin] := by
          intro coin' h' hHash hMem
          rcases List.mem_append.mp hMem with hOld | hLast
          · exact hApart' coin' h' hHash hOld
          · exact hNew (List.mem_singleton.mp hLast ▸ h')
        obtain ⟨more, hEq, hNodup, hMem⟩ :=
          @ih (vin ++ [coin]) (nCredit + ctx.wallet.valueAt coin) hRest hVin' hLater
        refine ⟨coin :: more, ?_, ?_, ?_⟩
        · rw [hEq, List.append_assoc, List.singleton_append, List.map_cons, List.sum_cons,
            add_assoc]
        · rwa [List.append_assoc, List.singleton_append] at hNodup
        · intro coin' h'
          rcases List.mem_cons.mp h' with rfl | h'
          · exact List.mem_cons_self
          · exact List.mem_cons_of_mem coin (hMem coin' h')
      · exact hSkip

end StakeContext

/-! ## The reward -/

/-- The coin age is that of what the inputs spend at the time. -/
theorem coinAgeLoop_congr
    {read : COutPoint → CTransaction.ReadResult} {st : ChainState} {tx tx' : CTransaction}
    (hTime : tx'.nTime = tx.nTime) {vin vin' : List CTxIn}
    (hPrevouts : vin'.map CTxIn.prevout = vin.map CTxIn.prevout) (bnCentSecond : CBigNum) :
    CTransaction.coinAgeLoop read st tx' vin' bnCentSecond =
      CTransaction.coinAgeLoop read st tx vin bnCentSecond := by
  induction vin generalizing vin' bnCentSecond with
  | nil =>
      obtain rfl := List.map_eq_nil_iff.mp hPrevouts
      rfl
  | cons txin vin ih =>
      cases vin' with
      | nil => cases hPrevouts
      | cons txin' vin' =>
          obtain ⟨hHead, hTail⟩ := List.cons.inj hPrevouts
          have ih := fun bn => ih hTail bn
          unfold CTransaction.coinAgeLoop
          simp only [hHead, hTime, ih]

theorem coinAge_congr
    {read : COutPoint → CTransaction.ReadResult} {st : ChainState} {tx tx' : CTransaction}
    (hTime : tx'.nTime = tx.nTime)
    (hPrevouts : tx'.vin.map CTxIn.prevout = tx.vin.map CTxIn.prevout)
    (hVout : tx.vout ≠ []) (hVout' : tx'.vout ≠ []) :
    CTransaction.coinAge read st tx' = CTransaction.coinAge read st tx := by
  have hLength : 1 ≤ tx.vout.length := List.length_pos_iff.mpr hVout
  have hLength' : 1 ≤ tx'.vout.length := List.length_pos_iff.mpr hVout'
  have hCoinBase : tx'.isCoinBase = tx.isCoinBase := by
    unfold CTransaction.isCoinBase
    rcases hVin : tx.vin with _ | ⟨txin, _ | ⟨second, rest⟩⟩
    · rw [hVin] at hPrevouts
      rw [List.map_eq_nil_iff.mp hPrevouts]
    · rw [hVin] at hPrevouts
      obtain ⟨txin', hVin', hSame⟩ := List.map_eq_singleton_iff.mp hPrevouts
      rw [hVin']
      dsimp only
      rw [hSame, decide_eq_true hLength, decide_eq_true hLength']
    · rw [hVin] at hPrevouts
      obtain ⟨txin', rest', hVin', -, hRest⟩ := List.map_eq_cons_iff.mp hPrevouts
      obtain ⟨second', rest'', rfl, -, -⟩ := List.map_eq_cons_iff.mp hRest
      rw [hVin']
  unfold CTransaction.coinAge
  rw [hCoinBase]
  simp only [coinAgeLoop_congr hTime hPrevouts]

theorem abs_tdiv_wrap64_le (x : ℤ) {k : ℤ} (hk : 365 ≤ k) : |(wrap64 x).tdiv k| ≤ 2 ^ 55 := by
  have hLower : -2 ^ 63 ≤ wrap64 x := Int.le_bmod (by norm_num)
  have hUpper : wrap64 x < 2 ^ 63 := Int.bmod_lt (by norm_num)
  have hAbs : (wrap64 x).natAbs ≤ 2 ^ 63 := by omega
  have hDivisor : 365 ≤ k.natAbs := by omega
  have hQuotient : (wrap64 x).natAbs / k.natAbs ≤ 2 ^ 63 / 365 :=
    Nat.div_le_div hAbs hDivisor (by norm_num)
  have hBound : ((wrap64 x).natAbs / k.natAbs : ℕ) ≤ 2 ^ 55 := hQuotient.trans (by norm_num)
  rw [Int.abs_eq_natAbs, Int.natAbs_tdiv]
  exact_mod_cast hBound

namespace StakeContext

variable {CKey : Type} {ctx : StakeContext CKey} {req : StakeRequest}

theorem rewardFor_congr
    {tx tx' : CTransaction} (hTime : tx'.nTime = tx.nTime)
    (hPrevouts : tx'.vin.map CTxIn.prevout = tx.vin.map CTxIn.prevout)
    (hVout : tx.vout ≠ []) (hVout' : tx'.vout ≠ []) :
    ctx.rewardFor req tx' = ctx.rewardFor req tx := by
  unfold rewardFor
  rw [coinAge_congr hTime hPrevouts hVout hVout']

/-- The reward is far from what 64 bits hold. -/
theorem getProofOfStakeReward_lt (pindexPrev : CBlockIndex) (nCoinAge : ℤ) :
    ctx.getProofOfStakeReward pindexPrev nCoinAge req.nFees < 2 ^ 60 := by
  have hFees := req.fees_range
  unfold moneyRange MAX_MONEY COIN at hFees
  simp only [Bool.and_eq_true, decide_eq_true_eq] at hFees
  have hSubsidy : |nSubsidy nCoinAge| ≤ 2 ^ 55 := abs_tdiv_wrap64_le _ (by norm_num)
  have hBase : |nSubsidyBase nCoinAge| ≤ 2 ^ 55 := abs_tdiv_wrap64_le _ (by norm_num)
  have hScaled := ctx.scaled_le pindexPrev.nHeight (nSubsidy nCoinAge) (nSubsidyBase nCoinAge)
  have hMax := max_le hSubsidy hBase
  unfold getProofOfStakeReward
  split_ifs
  · norm_num
  · omega

theorem rewardFor_lt
    {tx : CTransaction} {nReward : ℤ} (h : ctx.rewardFor req tx = .ok (some nReward)) :
    nReward < 2 ^ 60 := by
  obtain ⟨age, -, h⟩ := bind_eq_ok.mp h
  split_ifs at h
  · cases Except.ok.inj h
  · obtain ⟨pindexPrev, -, h⟩ := bind_eq_ok.mp h
    obtain rfl := Option.some.inj (Except.ok.inj h)
    exact getProofOfStakeReward_lt _ _

end StakeContext

/-- A masternode gets a part of the reward. -/
theorem getMasternodePayment_range
    {env : Env} {pindexBest : CBlockIndex} {nReward : ℤ} (hPositive : 0 < nReward)
    (hSmall : nReward < 2 ^ 60) :
    0 ≤ getMasternodePayment env pindexBest nReward ∧
      getMasternodePayment env pindexBest nReward ≤ nReward := by
  unfold getMasternodePayment
  split_ifs
  · exact ⟨le_refl 0, hPositive.le⟩
  · have hWrap : wrap64 (nReward * 4) = nReward * 4 := by
      unfold wrap64
      exact Int.bmod_eq_of_le (by omega) (by omega)
    rw [hWrap, Int.tdiv_eq_ediv_of_nonneg (by omega)]
    omega

/-! ## The amounts -/

namespace PaymentSchedule

variable {s : PaymentSchedule}

/-- One script is paid, or the payee and the reward address share. -/
theorem scripts_cases (hPercent : 0 ≤ s.payeerewardpercent ∧ s.payeerewardpercent ≤ 100) :
    ((s.payeerewardpercent = 0 ∨ s.payeerewardpercent = 100) ∧ ∃ script, s.scripts = [script]) ∨
      ((s.payeerewardpercent > 0 ∧ s.payeerewardpercent < 100) ∧
        s.scripts = [s.payee, s.payeerewardaddress]) := by
  unfold scripts
  by_cases hNone : s.payeerewardpercent = 0
  · exact Or.inl ⟨Or.inl hNone, s.payee, by simp [hNone]⟩
  · by_cases hAll : s.payeerewardpercent = 100
    · exact Or.inl ⟨Or.inr hAll, s.payeerewardaddress, by simp [hAll]⟩
    · have hShared : 0 < s.payeerewardpercent ∧ s.payeerewardpercent < 100 := by omega
      exact Or.inr ⟨hShared, by simp [hNone, hAll, hShared]⟩

theorem nil_not_mem_scripts_iff
    (hPercent : 0 ≤ s.payeerewardpercent ∧ s.payeerewardpercent ≤ 100) (hPayee : s.payee ≠ []) :
    [] ∉ s.scripts ↔ (s.payeerewardpercent ≠ 0 → s.payeerewardaddress ≠ []) := by
  unfold scripts
  by_cases hNone : s.payeerewardpercent = 0
  · simp [hNone, hPayee.symm]
  · by_cases hAll : s.payeerewardpercent = 100
    · simp [hAll, eq_comm]
    · have hShared : 0 < s.payeerewardpercent ∧ s.payeerewardpercent < 100 := by omega
      simp [hNone, hAll, hShared, hPayee.symm, eq_comm]

/-- Amounts for the outputs of the stake and of the masternode. -/
structure Divides (s : PaymentSchedule) (stakes stakes' payments : List CTxOut)
    (nCredit masternodePayment : ℤ) : Prop where
  owner : stakes'.map CTxOut.scriptPubKey = stakes.map CTxOut.scriptPubKey
  payees : payments.map CTxOut.scriptPubKey = s.scripts
  paid : (payments.map CTxOut.nValue).sum = masternodePayment
  rest : (stakes'.map CTxOut.nValue).sum = nCredit - masternodePayment
  nonneg : ∀ txout ∈ stakes' ++ payments, 0 ≤ txout.nValue

theorem setAmounts_divides
    {nCredit masternodePayment : ℤ} {scriptPubKeyOut : CScript} {stakes : List CTxOut}
    (hStakes : stakes = [⟨0, scriptPubKeyOut⟩] ∨
      stakes = [⟨0, scriptPubKeyOut⟩, ⟨0, scriptPubKeyOut⟩])
    (hPercent : 0 ≤ s.payeerewardpercent ∧ s.payeerewardpercent ≤ 100)
    (hPayment : 0 ≤ masternodePayment) (hCredit : masternodePayment ≤ nCredit) :
    ∃ stakes' payments, s.setAmounts nCredit masternodePayment (s.appendTo (⟨0, []⟩ :: stakes)) =
        ⟨0, []⟩ :: (stakes' ++ payments) ∧
      s.Divides stakes stakes' payments nCredit masternodePayment := by
  -- what is left for the stake, and the first half of it
  have hRest : 0 ≤ nCredit - masternodePayment := by omega
  have hHalf : 0 ≤ ((nCredit - masternodePayment).tdiv 2).tdiv CENT * CENT ∧
      ((nCredit - masternodePayment).tdiv 2).tdiv CENT * CENT ≤ nCredit - masternodePayment := by
    rw [Int.tdiv_eq_ediv_of_nonneg hRest, Int.tdiv_eq_ediv_of_nonneg (by omega)]
    unfold CENT
    omega
  have hShare : 0 ≤ masternodePayment.tdiv 100 * (100 - s.payeerewardpercent) ∧
      masternodePayment.tdiv 100 * (100 - s.payeerewardpercent) ≤ masternodePayment := by
    rw [Int.tdiv_eq_ediv_of_nonneg hPayment]
    have hQuotient : 0 ≤ masternodePayment / 100 := by omega
    have hAll : masternodePayment / 100 * (100 - s.payeerewardpercent) ≤
        masternodePayment / 100 * 100 := mul_le_mul_of_nonneg_left (by omega) hQuotient
    exact ⟨mul_nonneg hQuotient (by omega), by omega⟩
  unfold setAmounts appendTo
  dsimp only
  generalize ((nCredit - masternodePayment).tdiv 2).tdiv CENT * CENT = half at hHalf ⊢
  generalize masternodePayment.tdiv 100 * (100 - s.payeerewardpercent) = share at hShare ⊢
  rcases scripts_cases hPercent with ⟨hWhole, script, hScripts⟩ | ⟨hShared, hScripts⟩
  · rw [hScripts]
    rcases hStakes with rfl | rfl
    · refine ⟨[⟨nCredit - masternodePayment, scriptPubKeyOut⟩], [⟨masternodePayment, script⟩], ?_,
        rfl, hScripts.symm, List.sum_singleton, List.sum_singleton, ?_⟩
      · rw [if_neg (by simp), if_pos ⟨rfl, hWhole⟩]
        rfl
      · simpa using ⟨hCredit, hPayment⟩
    · refine ⟨[⟨half, scriptPubKeyOut⟩, ⟨nCredit - masternodePayment - half, scriptPubKeyOut⟩],
        [⟨masternodePayment, script⟩], ?_, rfl, hScripts.symm, List.sum_singleton, ?_, ?_⟩
      · rw [if_pos ⟨rfl, hWhole⟩]
        rfl
      · simp
      · simpa using ⟨hHalf.1, hHalf.2, hPayment⟩
  · have hNotWhole : ¬(s.payeerewardpercent = 0 ∨ s.payeerewardpercent = 100) := by omega
    rw [hScripts]
    rcases hStakes with rfl | rfl
    · refine ⟨[⟨nCredit - masternodePayment, scriptPubKeyOut⟩],
        [⟨share, s.payee⟩, ⟨masternodePayment - share, s.payeerewardaddress⟩], ?_, rfl,
        hScripts.symm, ?_, List.sum_singleton, ?_⟩
      · rw [if_neg fun h => hNotWhole h.2, if_neg fun h => hNotWhole h.2, if_neg (by simp),
          if_pos ⟨rfl, hShared⟩]
        rfl
      · simp
      · simpa using ⟨hCredit, hShare.1, hShare.2⟩
    · refine ⟨[⟨half, scriptPubKeyOut⟩, ⟨nCredit - masternodePayment - half, scriptPubKeyOut⟩],
        [⟨share, s.payee⟩, ⟨masternodePayment - share, s.payeerewardaddress⟩], ?_, rfl,
        hScripts.symm, ?_, ?_, ?_⟩
      · rw [if_neg fun h => hNotWhole h.2, if_neg fun h => hNotWhole h.2, if_pos ⟨rfl, hShared⟩]
        rfl
      · simp
      · simp
      · simpa using ⟨hHalf.1, hHalf.2, hShare.1, hShare.2⟩

end PaymentSchedule

/-! ## What a coinstake does -/

namespace StakeContext

variable {CKey : Type} {ctx : StakeContext CKey} {req : StakeRequest}

/-- The values of the outputs that the inputs spend. -/
def stakedValue (ctx : StakeContext CKey) (tx : CTransaction) : ℤ :=
  (tx.vin.map fun txin => ctx.wallet.valueAt txin.prevout).sum

/-- Behind the marker come the outputs of the stake, and those that pay whom the schedule says,
what a masternode gets of the reward. -/
def PaysMasternode (ctx : StakeContext CKey) (tx : CTransaction) (nReward : ℤ) : Prop :=
  ∃ pindexPrev schedule stakes payments, ctx.bestIndex = .ok pindexPrev ∧
    ctx.schedule (pindexPrev.nHeight + 1) = some schedule ∧
    tx.vout = ⟨0, []⟩ :: (stakes ++ payments) ∧
    (∀ txout ∈ stakes, txout.scriptPubKey ≠ []) ∧
    payments.map CTxOut.scriptPubKey = schedule.scripts ∧
    (payments.map CTxOut.nValue).sum = getMasternodePayment ctx.env pindexPrev nReward

/-- What holds of every coinstake that is created. -/
structure Stakes (ctx : StakeContext CKey) (req : StakeRequest) (tx : CTransaction) : Prop where
  distinct : (tx.vin.map CTxIn.prevout).Nodup
  kernel : ∃ txin rest, tx.vin = txin :: rest ∧
    ctx.checkKernel req.nBits tx.nTime txin.prevout = .ok true
  nonneg : ∀ txout ∈ tx.vout, 0 ≤ txout.nValue
  balanced : ∃ nReward, ctx.rewardFor req tx = .ok (some nReward) ∧
    (tx.vout.map CTxOut.nValue).sum = ctx.stakedValue tx + nReward ∧ ctx.PaysMasternode tx nReward

/-- The first output marks the coinstake, and it is the only one with an empty script. -/
structure StakeExact (ctx : StakeContext CKey) (req : StakeRequest) (tx : CTransaction) : Prop
    extends ctx.Stakes req tx where
  marked : ∃ txout rest, tx.vout = txout :: rest ∧ txout.scriptPubKey = [] ∧
    ∀ other ∈ rest, other.scriptPubKey ≠ []

theorem finishStake_keeps
    {tx tx' : CTransaction} (h : ctx.finishStake tx = some tx') : tx.SameUnsigned tx' := by
  obtain ⟨signed, hSigned, h⟩ := Option.bind_eq_some_iff.mp h
  split_ifs at h
  obtain rfl := Option.some.inj h
  exact signInputs_keeps hSigned

theorem schedule_percent
    {nHeight : ℤ} {s : PaymentSchedule} (h : ctx.schedule nHeight = some s) :
    0 ≤ s.payeerewardpercent ∧ s.payeerewardpercent ≤ 100 := by
  unfold schedule at h
  split_ifs at h
  · obtain rfl := Option.some.inj h
    exact ⟨le_refl _, by norm_num⟩
  · split at h
    · obtain rfl := Option.some.inj h
      exact ⟨le_refl _, by norm_num⟩
    · obtain ⟨mn, hNode, rfl⟩ := Option.map_eq_some_iff.mp h
      exact ctx.percentage_range mn hNode

theorem stakeOutputs_cases (scriptPubKeyOut : CScript) (nCredit : ℤ) :
    ctx.stakeOutputs scriptPubKeyOut nCredit = [⟨0, scriptPubKeyOut⟩] ∨
      ctx.stakeOutputs scriptPubKeyOut nCredit =
        [⟨0, scriptPubKeyOut⟩, ⟨0, scriptPubKeyOut⟩] := by
  unfold stakeOutputs
  split_ifs
  · exact Or.inr rfl
  · exact Or.inl rfl

theorem stakeOutputs_script
    {scriptPubKeyOut : CScript} {nCredit : ℤ} {txout : CTxOut}
    (h : txout ∈ ctx.stakeOutputs scriptPubKeyOut nCredit) :
    txout.scriptPubKey = scriptPubKeyOut := by
  rcases ctx.stakeOutputs_cases scriptPubKeyOut nCredit with hOne | hTwo
  · rw [hOne, List.mem_singleton] at h
    rw [h]
  · rw [hTwo, List.mem_cons, List.mem_singleton, or_self] at h
    rw [h]

/-- What the function does from the reward on. -/
theorem payStake_pays
    {nCredit : ℤ} {scriptPubKeyOut : CScript} {nValue : ℤ} {tx tx' : CTransaction}
    (hCredit : 0 ≤ nCredit) (hNonempty : scriptPubKeyOut ≠ [])
    (hVout : tx.vout = ⟨0, []⟩ :: ctx.stakeOutputs scriptPubKeyOut nValue)
    (h : ctx.payStake req nCredit tx = .ok (some tx')) :
    tx'.nTime = tx.nTime ∧ tx'.vin.map CTxIn.prevout = tx.vin.map CTxIn.prevout ∧
      (∀ txout ∈ tx'.vout, 0 ≤ txout.nValue) ∧
      ∃ nReward, ctx.rewardFor req tx' = .ok (some nReward) ∧
        (tx'.vout.map CTxOut.nValue).sum = nCredit + nReward ∧ ctx.PaysMasternode tx' nReward := by
  obtain ⟨reward, hReward, h⟩ := bind_eq_ok.mp h
  cases reward with
  | none => cases Except.ok.inj h
  | some nReward =>
      dsimp only at h
      split_ifs at h with hNone
      · cases Except.ok.inj h
      · obtain ⟨pindexPrev, hBest, h⟩ := bind_eq_ok.mp h
        cases hSchedule : ctx.schedule (pindexPrev.nHeight + 1) with
        | none =>
            rw [hSchedule] at h
            cases Except.ok.inj h
        | some s =>
            rw [hSchedule] at h
            obtain ⟨hTime, hOut, hIn⟩ := finishStake_keeps (Except.ok.inj h)
            dsimp only at hTime hOut hIn
            obtain ⟨hPayment, hPart⟩ := @getMasternodePayment_range ctx.env pindexPrev nReward
              (not_le.mp hNone) (rewardFor_lt hReward)
            obtain ⟨stakes, payments, hAmounts, hDivides⟩ :=
              PaymentSchedule.setAmounts_divides (ctx.stakeOutputs_cases scriptPubKeyOut nValue)
                (schedule_percent hSchedule) hPayment
                (show getMasternodePayment ctx.env pindexPrev nReward ≤ nCredit + nReward by omega)
            rw [hVout, hAmounts] at hOut
            refine ⟨hTime, hIn, ?_, nReward, ?_, ?_, pindexPrev, s, stakes, payments, hBest,
              hSchedule, hOut, ?_, hDivides.payees, hDivides.paid⟩
            · intro txout hMem
              rw [hOut] at hMem
              rcases List.mem_cons.mp hMem with rfl | hMem
              · exact le_refl 0
              · exact hDivides.nonneg txout hMem
            · rw [rewardFor_congr hTime hIn (hVout ▸ List.cons_ne_nil _ _)
                (hOut ▸ List.cons_ne_nil _ _)]
              exact hReward
            · rw [hOut, List.map_cons, List.sum_cons, List.map_append, List.sum_append,
                hDivides.rest, hDivides.paid, sub_add_cancel]
              exact zero_add _
            · intro txout hMem
              have hScript : txout.scriptPubKey ∈ stakes.map CTxOut.scriptPubKey :=
                List.mem_map_of_mem hMem
              rw [hDivides.owner] at hScript
              obtain ⟨old, hOld, hEq⟩ := List.mem_map.mp hScript
              rw [← hEq, stakeOutputs_script hOld]
              exact hNonempty

theorem stakeInputs_adds
    {setCoins : List COutPoint} {kernel : FoundKernel CKey} (hDistinct : setCoins.Nodup) :
    ∃ more, ctx.stakeInputs req setCoins kernel = (kernel.coin :: more,
        ctx.wallet.valueAt kernel.coin + (more.map ctx.wallet.valueAt).sum) ∧
      (kernel.coin :: more).Nodup ∧ ∀ coin ∈ more, coin ∈ setCoins := by
  unfold stakeInputs
  dsimp only
  split_ifs
  · apply addInputs_adds hDistinct (List.nodup_singleton _)
    intro coin _ hHash hSame
    exact hHash (congrArg COutPoint.hash (List.mem_singleton.mp hSame))
  · refine ⟨[], ?_, List.nodup_singleton _, fun coin h => absurd h List.not_mem_nil⟩
    rw [List.map_nil, List.sum_nil, add_zero]

/-- What the function does once the kernel is found. -/
theorem stakeKernel_stakes
    {setCoins : List COutPoint} {kernel : FoundKernel CKey} {tx : CTransaction} {key : CKey}
    (hDistinct : setCoins.Nodup) (hNonneg : ∀ coin ∈ setCoins, 0 ≤ ctx.wallet.valueAt coin)
    (hMem : kernel.coin ∈ setCoins) (hMeets : ctx.Meets req kernel)
    (h : ctx.stakeKernel req setCoins kernel = .ok (some (tx, key))) : ctx.Stakes req tx := by
  unfold stakeKernel at h
  dsimp only at h
  by_cases hRefused : ctx.wallet.valueAt kernel.coin = 0 ∨
      ctx.wallet.valueAt kernel.coin > ctx.nBalance - ctx.nReserveBalance
  · rw [if_pos hRefused] at h
    cases Except.ok.inj h
  · rw [if_neg hRefused] at h
    obtain ⟨more, hInputs, hNodup, hMore⟩ :=
      @stakeInputs_adds CKey ctx req setCoins kernel hDistinct
    rw [hInputs] at h
    obtain ⟨created, hCreated, h⟩ := bind_eq_ok.mp h
    obtain ⟨tx', rfl, hPair⟩ := Option.map_eq_some_iff.mp (Except.ok.inj h)
    obtain ⟨rfl, -⟩ := Prod.ext_iff.mp hPair
    have hMoreSum : 0 ≤ (more.map ctx.wallet.valueAt).sum := by
      apply List.sum_nonneg
      intro n hn
      obtain ⟨coin, hCoin, rfl⟩ := List.mem_map.mp hn
      exact hNonneg coin (hMore coin hCoin)
    obtain ⟨hTime, hIn, hOutputs, nReward, hReward, hSum, hPays⟩ :=
      payStake_pays (add_nonneg (hNonneg _ hMem) hMoreSum) hMeets.nonempty rfl hCreated
    dsimp only at hTime
    rw [List.map_map] at hIn
    have hPrevouts : tx'.vin.map CTxIn.prevout = kernel.coin :: more := hIn.trans (List.map_id _)
    refine ⟨hPrevouts ▸ hNodup, ?_, hOutputs, nReward, hReward, ?_, hPays⟩
    · obtain ⟨txin, rest, hVin, hKernel, -⟩ := List.map_eq_cons_iff.mp hPrevouts
      refine ⟨txin, rest, hVin, ?_⟩
      rw [hTime, hKernel]
      exact hMeets.met
    · have hStaked : ctx.stakedValue tx' = ((tx'.vin.map CTxIn.prevout).map
          ctx.wallet.valueAt).sum := by
        rw [List.map_map]
        rfl
      rw [hSum, hStaked, hPrevouts, List.map_cons, List.sum_cons]

/-- What holds of every coinstake that the function creates. -/
theorem createCoinStake_stakes
    {tx : CTransaction} {key : CKey} (h : ctx.createCoinStake req = .ok (some (tx, key))) :
    ctx.Stakes req tx := by
  unfold createCoinStake at h
  dsimp only at h
  split_ifs at h
  · cases Except.ok.inj h
  · cases Except.ok.inj h
  · obtain ⟨found, hFound, h⟩ := bind_eq_ok.mp h
    cases found with
    | none => cases Except.ok.inj h
    | some kernel =>
        obtain ⟨hDistinct, hNonneg⟩ := @selectCoinsForStaking_selects CKey ctx req.txNew.nTime
          (ctx.nBalance - ctx.nReserveBalance)
        obtain ⟨hMem, hMeets⟩ := findKernel_meets hFound
        exact stakeKernel_stakes hDistinct hNonneg hMem hMeets h

/-! ## Who is paid -/

/-- The payments have started, the payee of a vote has a script, and so has the reward address of
the masternode that is chosen otherwise, if it gets a part. -/
def PaysSomeone (ctx : StakeContext CKey) : Prop :=
  ctx.bMasterNodePayment = true ∧ ∀ pindexPrev, ctx.bestIndex = .ok pindexPrev →
    (∀ payee vin, CMasternodePayments.getBlockPayee ctx.vWinning (pindexPrev.nHeight + 1) =
      some (payee, vin) → payee ≠ []) ∧
    (CMasternodePayments.getBlockPayee ctx.vWinning (pindexPrev.nHeight + 1) = none →
      ∀ mn, ctx.winningNode = some mn → mn.rewardPercentage ≠ 0 → mn.rewardAddress ≠ [])

theorem paysSomeone_iff
    {pindexPrev : CBlockIndex} {s : PaymentSchedule} (hBest : ctx.bestIndex = .ok pindexPrev)
    (hSchedule : ctx.schedule (pindexPrev.nHeight + 1) = some s) :
    ctx.PaysSomeone ↔ [] ∉ s.scripts := by
  unfold PaysSomeone
  unfold schedule at hSchedule
  by_cases hStarted : ctx.bMasterNodePayment = true
  · rw [hStarted, Bool.not_true, if_neg Bool.false_ne_true] at hSchedule
    have hOnly : ∀ pindexPrev', ctx.bestIndex = .ok pindexPrev' → pindexPrev' = pindexPrev :=
      fun pindexPrev' h => Except.ok.inj (h.symm.trans hBest)
    cases hVoted : CMasternodePayments.getBlockPayee ctx.vWinning (pindexPrev.nHeight + 1) with
    | some found =>
        rw [hVoted] at hSchedule
        obtain rfl := Option.some.inj hSchedule
        have hScripts : PaymentSchedule.scripts ⟨found.1, [], 0⟩ = [found.1] := by
          simp [PaymentSchedule.scripts]
        rw [hScripts, List.mem_singleton]
        constructor
        · rintro ⟨-, hPays⟩ hEmpty
          exact (hPays pindexPrev hBest).1 found.1 found.2 hVoted hEmpty.symm
        · intro hPayee
          refine ⟨hStarted, fun pindexPrev' hBest' => ?_⟩
          obtain rfl := hOnly pindexPrev' hBest'
          rw [hVoted]
          refine ⟨?_, fun hNone => by cases hNone⟩
          rintro payee vin hFound rfl
          obtain rfl := Option.some.inj hFound
          exact hPayee rfl
    | none =>
        rw [hVoted] at hSchedule
        obtain ⟨mn, hNode, rfl⟩ := Option.map_eq_some_iff.mp hSchedule
        rw [PaymentSchedule.nil_not_mem_scripts_iff (ctx.percentage_range mn hNode)
          (List.cons_ne_nil _ _)]
        constructor
        · exact fun hPays => (hPays.2 pindexPrev hBest).2 hVoted mn hNode
        · intro hReward
          refine ⟨hStarted, fun pindexPrev' hBest' => ?_⟩
          obtain rfl := hOnly pindexPrev' hBest'
          rw [hVoted]
          refine ⟨?_, ?_⟩
          · intro payee vin hFound
            cases hFound
          · intro _ mn' hNode'
            obtain rfl := Option.some.inj (hNode.symm.trans hNode')
            exact hReward
  · rw [Bool.not_eq_true] at hStarted
    rw [hStarted, Bool.not_false, if_pos rfl] at hSchedule
    obtain rfl := Option.some.inj hSchedule
    simp [hStarted, PaymentSchedule.scripts]

/-- The marker is the only output with an empty script if and only if there is somebody to pay. -/
theorem Stakes.exact_iff {tx : CTransaction} (h : ctx.Stakes req tx) :
    ctx.StakeExact req tx ↔ ctx.PaysSomeone := by
  obtain ⟨nReward, hReward, hSum, pindexPrev, s, stakes, payments, hBest, hSchedule, hVout,
    hOwner, hPayees, hPaid⟩ := h.balanced
  rw [paysSomeone_iff hBest hSchedule]
  constructor
  · intro hExact hEmpty
    obtain ⟨txout, rest, hMarked, -, hOthers⟩ := hExact.marked
    obtain ⟨-, rfl⟩ := List.cons.inj (hVout.symm.trans hMarked)
    rw [← hPayees] at hEmpty
    obtain ⟨payment, hMem, hScript⟩ := List.mem_map.mp hEmpty
    exact hOthers payment (List.mem_append_right stakes hMem) hScript
  · intro hSomebody
    refine ⟨h, _, _, hVout, rfl, ?_⟩
    intro other hMem
    rcases List.mem_append.mp hMem with hStake | hPayment
    · exact hOwner other hStake
    · intro hEmpty
      apply hSomebody
      rw [← hPayees, ← hEmpty]
      exact List.mem_map_of_mem hPayment

end StakeContext

namespace Sample

open StakeContext

/-- A transaction with an output for the key of the wallet. -/
def stakedTx : CTransaction :=
  { coinbase 700 5 100 with
    vin := [⟨⟨5, 0⟩, [], UINT_MAX⟩]
    vout := [⟨3 * COIN + 7, payKeyScript⟩] }

/-- A node that has the transaction on disk, behind a block header with time zero. -/
def stakedNode : ChainState :=
  { nodeWith [(stakedTx.getHash prims, CTxIndex.unspent ⟨1, 8, 90⟩ 1)] with
    blockFiles := (∅ : Table ℕ (List UInt8)).insert 1
      (List.replicate 90 0 ++ stakedTx.serialize) }

/-- A wallet with the transaction, at a time; at this height no factor scales the subsidy. -/
def stakingContext (time : ℕ) (vWinning : List CMasternodePaymentWinner) : StakeContext Unit where
  env := env time
  st := stakedNode
  read := CTransaction.recordedRead stakedNode stakedNode.txdb
  prims := scriptPrims
  keystore := scriptStore []
  pubKeyOf _ := CPubKey.ofBytes (compressedKey 1)
  keys := payContext.keys
  view := payContext.view
  wallet := (CWallet.empty false).insertTx (stakedTx.getHash prims)
    (CWalletTx.ofMerkleTx (CMerkleTx.ofTransaction stakedTx))
  before := payContext.before
  nBalance := 100 * COIN
  nReserveBalance := 0
  nCombineThreshold := 1000 * COIN
  scaledSubsidy _ nSubsidy _ := nSubsidy
  fTestNet := false
  vWinning := vWinning
  winningNode := none
  minimum_nonneg := le_refl 0
  scaled_le _ nSubsidy _ := (le_abs_self nSubsidy).trans (le_max_left _ _)
  percentage_range mn h := by cases h

def stakingRequest : StakeRequest where
  nBits := 0x207fffff
  nSearchInterval := 1
  nFees := 0
  txNew := { stakedTx with nTime := 700 + 2 * 86400, vin := [], vout := [] }
  fees_range := by decide +kernel

/-- A coinstake is created that passes the test. -/
def createsStake (ctx : StakeContext Unit) (test : CTransaction → Bool) : Prop :=
  ∃ tx key, ctx.createCoinStake stakingRequest = .ok (some (tx, key)) ∧ test tx = true

theorem createsStake_of_test
    {ctx : StakeContext Unit} {test : CTransaction → Bool}
    (h : ((ctx.createCoinStake stakingRequest).toOption.any fun created =>
      created.any fun r => test r.1) = true) : createsStake ctx test := by
  cases hCreated : ctx.createCoinStake stakingRequest with
  | error fault =>
      rw [hCreated] at h
      cases h
  | ok created =>
      rw [hCreated] at h
      cases created with
      | none => cases h
      | some r => exact ⟨r.1, r.2, hCreated, h⟩

/-- A vote for the block at height eleven. -/
def stakeVote : CMasternodePaymentWinner := ⟨11, ⟨⟨3, 0⟩, [], UINT_MAX⟩, keyHashScript 9, [], 5⟩

end Sample

end SocietyGold
