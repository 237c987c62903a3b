import SocietyGold.ConnectedIndex

/-!
# Amounts created by a block

No guard of `ConnectBlock` compares what a transaction spends with what it pays,
or what a coinbase pays with the reward: the values of the inputs are not loaded,
and the comparisons that are left in the source have empty branches.  The guards
that there are decide by themselves which blocks are connected.
-/

namespace SocietyGold

open Support

/-! ## Referenced amounts -/

section Amounts

variable (env : Env) (st : ChainState) (block : CBlock)

/-- The transaction with a given id that an input of a block refers to: one of the
same block, one of the memory pool for a record that points there, or the one at
the recorded place on disk. -/
def referencedTx (hash : ℕ) : Option CTransaction :=
  match block.vtx.find? fun tx => tx.getHash env.prims = hash with
  | some tx => some tx
  | none => do
      let record ← st.txIndex hash
      if record.pos = CDiskTxPos.inMemoryPool then st.mempool.lookup hash
      else do
        let file ← st.openBlockFile record.pos.nFile
        let (tx, _) ← CTransaction.unserialize (fileFrom file record.pos.nTxPos)
        some tx

/-- The amount of a referenced output; an output that cannot be found has none. -/
def referencedValue (prevout : COutPoint) : ℤ :=
  match referencedTx env st block prevout.hash with
  | none => 0
  | some tx => ((tx.vout[prevout.n]?).map CTxOut.nValue).getD 0

/-- A transaction pays no more than what its inputs refer to. -/
def PaysFromInputs (tx : CTransaction) : Prop :=
  tx.valueOut ≤ (tx.vin.map fun txin => referencedValue env st block txin.prevout).sum

instance (tx : CTransaction) : Decidable (PaysFromInputs env st block tx) :=
  inferInstanceAs (Decidable (_ ≤ _))

/-- The coinbase pays no more than the reward for a height and some fees. -/
def PaysWithinReward (nHeight nFees : ℤ) : Prop :=
  ∃ coinbase nReward, block.vtx[0]? = some coinbase ∧
    getProofOfWorkReward env st nHeight nFees = .ok nReward ∧ coinbase.valueOut ≤ nReward

/-- The amounts of a block balance: no plain transaction creates value, and the
coinbase of a proof-of-work block stays within the reward. -/
def AmountsBalance (nHeight nFees : ℤ) : Prop :=
  (∀ tx ∈ block.vtx, tx.isCoinBase = false → tx.isCoinStake = false →
      PaysFromInputs env st block tx) ∧
    (block.isProofOfWork = true → PaysWithinReward env st block nHeight nFees)

end Amounts

/-! ## When amounts balance -/

/-- The guards of `ConnectBlock` let a block through: the checks of `CheckBlock`
without its signature, and then either a missing or immature input that ends the
connection early, or lookups in range up to the last transaction, the bookkeeping
of the reward and the address index. -/
def GuardsPass (env : Env) (st : ChainState) (block : CBlock) (pindex : CBlockIndex) : Prop :=
  PassesCheckBlock env st block ∧
    (ConnectStopsEarly env st block pindex ∨
      ConnectRunsThrough env st block pindex ∧ RewardsFit env st block ∧
        AddrIndexFits env st block pindex)

namespace Sample

/-- A transaction that pays 100, as it lies in a block file. -/
def fundingTx : CTransaction := coinbase 700 5 100

/-- A node with an open batch that has the funding transaction on disk. -/
def fundedNode : ChainState :=
  let st := nodeWith [(fundingTx.getHash prims, CTxIndex.unspent ⟨1, 8, 90⟩ 1)]
  { st with
    txdb := { st.txdb with activeBatch := some [] }
    blockFiles := (∅ : Table ℕ (List UInt8)).insert 1
      (List.replicate 90 0 ++ fundingTx.serialize) }

/-- A block that pays three coins to its miner, where two are due, and turns the 100
into 200. -/
def inflatingBlock : CBlock :=
  sealed 500 1000 [coinbase 1000 11 (3 * COIN), spend 1000 ⟨fundingTx.getHash prims, 0⟩ 200]

def inflatingEntry : CBlockIndex :=
  { CBlockIndex.ofBlock 1 200 inflatingBlock (inflatingBlock.getHash prims) with
    pprev := some 500
    nHeight := 11 }

/-- A block that pays its miner what is due. -/
def frugalBlock : CBlock := sealed 500 1000 [coinbase 1000 11 (2 * COIN)]

def frugalEntry : CBlockIndex :=
  { CBlockIndex.ofBlock 1 200 frugalBlock (frugalBlock.getHash prims) with
    pprev := some 500
    nHeight := 11 }

end Sample

/-! ## The reward of a stake

`GetCoinAge` counts with numbers of any size; `GetProofOfStakeReward` goes on in 64 bits. -/

def COIN_YEAR_REWARD : ℤ := 1000 * CENT

/-- `nSubsidy` of `GetProofOfStakeReward`, before the factors of the phases. -/
def nSubsidy (nCoinAge : ℤ) : ℤ :=
  (wrap64 (wrap64 (nCoinAge * COIN_YEAR_REWARD) * 33)).tdiv (365 * 33 + 8)

/-- The products of `GetProofOfStakeReward` are the mathematical ones for a coin age, which is
passed as a signed number, and the subsidy is not negative and no less than for a lower age. -/
def SubsidyExact (nCoinAge : ℕ) : Prop :=
  wrap64 (wrap64 (wrap64 nCoinAge * COIN_YEAR_REWARD) * 33) = nCoinAge * COIN_YEAR_REWARD * 33 ∧
    wrap64 (wrap64 nCoinAge * COIN_YEAR_REWARD) = nCoinAge * COIN_YEAR_REWARD ∧
    0 ≤ nSubsidy (wrap64 nCoinAge) ∧
    ∀ nLower ≤ nCoinAge, nSubsidy (wrap64 (nLower : ℕ)) ≤ nSubsidy (wrap64 nCoinAge)

theorem subsidyExact_iff {nCoinAge : ℕ} : SubsidyExact nCoinAge ↔ nCoinAge ≤ 279496122 := by
  have hExact : ∀ n : ℕ, n ≤ 279496122 →
      wrap64 n = n ∧ wrap64 (n * COIN_YEAR_REWARD) = n * COIN_YEAR_REWARD ∧
        wrap64 (n * COIN_YEAR_REWARD * 33) = n * COIN_YEAR_REWARD * 33 := by
    intro n hn
    unfold wrap64 COIN_YEAR_REWARD CENT
    refine ⟨?_, ?_, ?_⟩
    · exact Int.bmod_eq_of_le (by omega) (by omega)
    · exact Int.bmod_eq_of_le (by omega) (by omega)
    · exact Int.bmod_eq_of_le (by omega) (by omega)
  constructor
  · rintro ⟨hProduct, -⟩
    have hBelow : wrap64 (wrap64 (wrap64 nCoinAge * COIN_YEAR_REWARD) * 33) < 2 ^ 63 :=
      Int.bmod_lt (by norm_num)
    rw [hProduct] at hBelow
    unfold COIN_YEAR_REWARD CENT at hBelow
    omega
  · intro hAge
    obtain ⟨hArgument, hOnce, hTwice⟩ := hExact nCoinAge hAge
    have hQuotient : ∀ n : ℕ, n ≤ 279496122 →
        nSubsidy (wrap64 n) = n * COIN_YEAR_REWARD * 33 / (365 * 33 + 8) := by
      intro n hn
      obtain ⟨hArgument, hOnce, hTwice⟩ := hExact n hn
      rw [nSubsidy, hArgument, hOnce, hTwice]
      exact Int.tdiv_eq_ediv_of_nonneg (by unfold COIN_YEAR_REWARD CENT; omega)
    refine ⟨by rw [hArgument, hOnce, hTwice], by rw [hArgument, hOnce], ?_, ?_⟩
    · rw [hQuotient nCoinAge hAge]
      unfold COIN_YEAR_REWARD CENT
      omega
    · intro nLower hLower
      rw [hQuotient nCoinAge hAge, hQuotient nLower (hLower.trans hAge)]
      unfold COIN_YEAR_REWARD CENT
      omega

namespace CTransaction

/-- The previous transaction that the index records, read back from its block file. -/
def recordedRead (st : ChainState) (txdb : CTxDB) (prevout : COutPoint) : ReadResult :=
  match txdb.readTxIndex prevout.hash with
  | none => ⟨false, null 0, CTxIndex.null⟩
  | some txindexRet =>
      match (st.openBlockFile txindexRet.pos.nFile).bind fun file =>
          CTransaction.unserialize (fileFrom file txindexRet.pos.nTxPos) with
      | none => ⟨false, null 0, txindexRet⟩
      | some (tx, _) => ⟨true, tx, txindexRet⟩

section CoinAge

variable (read : COutPoint → ReadResult) (st : ChainState)

/-- The loop of `GetCoinAge`, given how previous transactions are read. -/
def coinAgeLoop (tx : CTransaction) :
    List CTxIn → (bnCentSecond : CBigNum) → Checked (Bool × CBigNum)
  | [], bnCentSecond => .ok (true, bnCentSecond)
  | txin :: rest, bnCentSecond =>
      let txPrev := (read txin.prevout).this
      let txindex := (read txin.prevout).txindexRet
      if !(read txin.prevout).success then coinAgeLoop tx rest bnCentSecond
      else if tx.nTime < txPrev.nTime then .ok (false, bnCentSecond)
      else
        match CBlock.readHeaderFromDisk st txindex.pos.nFile txindex.pos.nBlockPos with
        | none => .ok (false, bnCentSecond)
        | some header =>
            if header.nTime + nStakeMinAge > tx.nTime then coinAgeLoop tx rest bnCentSecond
            else do
              let txout ← elementAt txPrev.vout txin.prevout.n
              let coins := (txout.nValue * (tx.nTime - txPrev.nTime : ℕ)).tdiv CENT
              coinAgeLoop tx rest (bnCentSecond + coins)

/-- `GetCoinAge`, given how previous transactions are read. -/
def coinAge (tx : CTransaction) : Checked (Bool × ℕ) :=
  if tx.isCoinBase then .ok (true, 0)
  else do
    let (success, bnCentSecond) ← coinAgeLoop read st tx tx.vin 0
    if success then
      let bnCoinDay := ((bnCentSecond * CENT).tdiv COIN).tdiv (24 * 60 * 60)
      .ok (true, bnCoinDay.natAbs % 2 ^ 64)
    else .ok (false, 0)

/-- With the reads of the code it is `GetCoinAge`. -/
theorem coinAge_readFromDisk (env : Env) (txdb : CTxDB) (tx : CTransaction) :
    coinAge (readFromDisk st txdb (null env.adjustedTime)) st tx =
      getCoinAge env st txdb tx := by
  have hLoop : ∀ vin bnCentSecond,
      coinAgeLoop (readFromDisk st txdb (null env.adjustedTime)) st tx vin bnCentSecond =
        getCoinAgeLoop env st txdb tx vin bnCentSecond := by
    intro vin
    induction vin with
    | nil =>
        intro bnCentSecond
        rfl
    | cons txin rest ih =>
        intro bnCentSecond
        unfold coinAgeLoop getCoinAgeLoop
        generalize coinAgeLoop (readFromDisk st txdb (null env.adjustedTime)) st tx rest = loop
          at ih ⊢
        obtain rfl : loop = getCoinAgeLoop env st txdb tx rest := funext ih
        rfl
  unfold coinAge getCoinAge
  rw [hLoop]

/-- The value that an input spends, if its previous transaction is found. -/
def inputValue (txin : CTxIn) : ℤ :=
  if (read txin.prevout).success then
    (((read txin.prevout).this.vout[txin.prevout.n]?).map CTxOut.nValue).getD 0
  else 0

/-- The cent-seconds of an input: none before the minimum age. -/
def centSeconds (tx : CTransaction) (txin : CTxIn) : ℤ :=
  let txindex := (read txin.prevout).txindexRet
  match CBlock.readHeaderFromDisk st txindex.pos.nFile txindex.pos.nBlockPos with
  | none => 0
  | some header =>
      if header.nTime + nStakeMinAge > tx.nTime then 0
      else
        (inputValue read txin * (tx.nTime - (read txin.prevout).this.nTime : ℕ)).tdiv CENT

variable {read : COutPoint → ReadResult} {st : ChainState} {tx : CTransaction}

/-- A loop that succeeds adds the cent-seconds of an input and goes on. -/
theorem coinAgeLoop_cons {txin : CTxIn} {rest : List CTxIn} {bnCentSecond total : CBigNum}
    (h : coinAgeLoop read st tx (txin :: rest) bnCentSecond = .ok (true, total)) :
    coinAgeLoop read st tx rest (bnCentSecond + centSeconds read st tx txin) =
      .ok (true, total) := by
  unfold coinAgeLoop at h
  unfold centSeconds inputValue
  dsimp only at h ⊢
  by_cases hFound : (read txin.prevout).success = true
  · rw [hFound, Bool.not_true, if_neg Bool.false_ne_true] at h
    rw [hFound, if_pos rfl]
    split_ifs at h with hEarly
    · cases h
    · cases hHeader : CBlock.readHeaderFromDisk st (read txin.prevout).txindexRet.pos.nFile
          (read txin.prevout).txindexRet.pos.nBlockPos with
      | none =>
          rw [hHeader] at h
          cases h
      | some header =>
          rw [hHeader] at h
          dsimp only at h ⊢
          split_ifs at h ⊢ with hYoung
          · rwa [add_zero]
          · obtain ⟨txout, hOut, hRest⟩ := bind_eq_ok.mp h
            rw [elementAt_eq_ok] at hOut
            rwa [hOut]
  · rw [Bool.not_eq_true] at hFound
    rw [hFound, Bool.not_false, if_pos rfl] at h
    rw [hFound, if_neg Bool.false_ne_true]
    have hNone : ∀ k : ℕ, ((0 : ℤ) * k).tdiv CENT = 0 := by
      intro k
      simp
    rw [hNone]
    split
    · rwa [add_zero]
    · rwa [ite_self, add_zero]

/-- A loop that succeeds has added up the cent-seconds of the inputs. -/
theorem coinAgeLoop_eq_sum {vin : List CTxIn} {bnCentSecond total : CBigNum}
    (h : coinAgeLoop read st tx vin bnCentSecond = .ok (true, total)) :
    total = bnCentSecond + (vin.map (centSeconds read st tx)).sum := by
  induction vin generalizing bnCentSecond with
  | nil =>
      cases h
      simp
  | cons txin rest ih =>
      rw [ih (coinAgeLoop_cons h), List.map_cons, List.sum_cons]
      exact add_assoc _ _ _

/-- With a timestamp of 32 bits an input makes no more cent-seconds than its value does in all
the seconds there are. -/
theorem centSeconds_range (hTime : tx.nTime < 2 ^ 32) {txin : CTxIn}
    (hValue : 0 ≤ inputValue read txin) :
    0 ≤ centSeconds read st tx txin ∧
      centSeconds read st tx txin * CENT ≤ inputValue read txin * (2 ^ 32 - 1) := by
  have hZero : (0 : ℤ) ≤ 0 ∧ 0 * CENT ≤ inputValue read txin * (2 ^ 32 - 1) :=
    ⟨le_rfl, by rw [zero_mul]; exact mul_nonneg hValue (by norm_num)⟩
  unfold centSeconds
  dsimp only
  split
  · exact hZero
  · split_ifs with hYoung
    · exact hZero
    · have hSeconds : ((tx.nTime - (read txin.prevout).this.nTime : ℕ) : ℤ) ≤ 2 ^ 32 - 1 := by omega
      have hProduct := mul_nonneg hValue
        (Int.natCast_nonneg (tx.nTime - (read txin.prevout).this.nTime))
      have hBound := mul_le_mul_of_nonneg_left hSeconds hValue
      rw [Int.tdiv_eq_ediv_of_nonneg hProduct]
      unfold CENT
      omega

/-- The values that the inputs spend are amounts whose sum is in range. -/
def InputsInRange (read : COutPoint → ReadResult) (tx : CTransaction) : Prop :=
  (∀ txin ∈ tx.vin, 0 ≤ inputValue read txin) ∧
    moneyRange (tx.vin.map (inputValue read)).sum = true

/-- The cent-seconds of all inputs. -/
def totalCentSeconds (read : COutPoint → ReadResult) (st : ChainState) (tx : CTransaction) : ℤ :=
  (tx.vin.map (centSeconds read st tx)).sum

theorem totalCentSeconds_range (hTime : tx.nTime < 2 ^ 32) (hInputs : InputsInRange read tx) :
    0 ≤ totalCentSeconds read st tx ∧
      totalCentSeconds read st tx * CENT ≤ MAX_MONEY * (2 ^ 32 - 1) := by
  obtain ⟨hValues, hSum⟩ := hInputs
  unfold moneyRange at hSum
  rw [Bool.and_eq_true, decide_eq_true_eq, decide_eq_true_eq] at hSum
  have hAll : 0 ≤ (tx.vin.map (centSeconds read st tx)).sum ∧
      (tx.vin.map (centSeconds read st tx)).sum * CENT ≤
        (tx.vin.map (inputValue read)).sum * (2 ^ 32 - 1) := by
    clear hSum
    generalize tx.vin = vin at hValues ⊢
    induction vin with
    | nil => simp
    | cons txin rest ih =>
        have hFirst := @centSeconds_range _ st _ hTime _ (hValues txin List.mem_cons_self)
        have hRest := ih fun txin' h => hValues txin' (List.mem_cons_of_mem _ h)
        simp only [List.map_cons, List.sum_cons, add_mul]
        omega
  refine ⟨hAll.1, hAll.2.trans ?_⟩
  exact mul_le_mul_of_nonneg_right hSum.2 (by norm_num)

/-- The coin age is that of all cent-seconds, and below 2^45. -/
theorem coinAge_eq (hStake : tx.isCoinStake = true) (hTime : tx.nTime < 2 ^ 32)
    (hInputs : InputsInRange read tx) {nCoinAge : ℕ}
    (hAge : coinAge read st tx = .ok (true, nCoinAge)) :
    (nCoinAge : ℤ) = totalCentSeconds read st tx / (100 * (24 * 60 * 60)) ∧ nCoinAge < 2 ^ 45 := by
  have hBase : tx.isCoinBase = false := by
    unfold isCoinStake at hStake
    unfold isCoinBase
    split
    · rename_i txin hVin
      rw [hVin] at hStake
      split at hStake
      · rename_i hCons _
        cases hCons
        rw [Bool.and_eq_true, Bool.not_eq_true'] at hStake
        rw [hStake.1, Bool.false_and]
      · cases hStake
    · rfl
  obtain ⟨hLow, hHigh⟩ := @totalCentSeconds_range _ st _ hTime hInputs
  unfold coinAge at hAge
  rw [hBase, if_neg Bool.false_ne_true] at hAge
  obtain ⟨⟨success, total⟩, hLoop, hDone⟩ := bind_eq_ok.mp hAge
  dsimp only at hDone
  cases success with
  | false => cases hDone
  | true =>
      have hTotal : total = totalCentSeconds read st tx := by
        rw [coinAgeLoop_eq_sum hLoop, zero_add, totalCentSeconds]
      rw [if_pos rfl, Except.ok.injEq, Prod.mk.injEq] at hDone
      subst hTotal
      generalize totalCentSeconds read st tx = total at *
      have hCoins : (total * CENT).tdiv COIN = total / 100 := by
        unfold CENT COIN
        rw [Int.tdiv_eq_ediv_of_nonneg (by omega)]
        omega
      have hDays : ((total * CENT).tdiv COIN).tdiv (24 * 60 * 60) =
          total / (100 * (24 * 60 * 60)) := by
        rw [hCoins, Int.tdiv_eq_ediv_of_nonneg (by omega)]
        omega
      rw [hDays] at hDone
      unfold MAX_MONEY COIN CENT at hHigh
      omega

/-- The products are exact as long as the inputs hold fewer than 279496123 coin-days. -/
theorem stakeReward_exact_iff (hStake : tx.isCoinStake = true) (hTime : tx.nTime < 2 ^ 32)
    (hInputs : InputsInRange read tx) {nCoinAge : ℕ}
    (hAge : coinAge read st tx = .ok (true, nCoinAge)) :
    SubsidyExact nCoinAge ↔
      totalCentSeconds read st tx < 279496123 * (100 * (24 * 60 * 60)) := by
  obtain ⟨hDays, -⟩ := coinAge_eq hStake hTime hInputs hAge
  rw [subsidyExact_iff]
  omega

end CoinAge

end CTransaction

namespace Sample

/-- A transaction that pays an amount, as it lies in a block file. -/
def storedTx (nValue : ℤ) : CTransaction := coinbase 700 5 nValue

/-- A node that has the transaction on disk, behind a block header with time zero. -/
def nodeStoring (nValue : ℤ) : ChainState :=
  { nodeWith [((storedTx nValue).getHash prims, CTxIndex.unspent ⟨1, 8, 90⟩ 1)] with
    blockFiles := (∅ : Table ℕ (List UInt8)).insert 1
      (List.replicate 90 0 ++ (storedTx nValue).serialize) }

/-- A coinstake of that transaction two days later. -/
def stakeOf (nValue : ℤ) : CTransaction where
  nVersion := 1
  nTime := 700 + 2 * 86400
  vin := [⟨⟨(storedTx nValue).getHash prims, 0⟩, [], UINT_MAX⟩]
  vout := [⟨0, []⟩, ⟨nValue, [0x51]⟩]
  nLockTime := 0

/-- The reads of the recorded transaction. -/
def storedRead (nValue : ℤ) : COutPoint → CTransaction.ReadResult :=
  CTransaction.recordedRead (nodeStoring nValue) (nodeStoring nValue).txdb

/-- All the coins that there may be, staked after two days: the product is beyond 64 bits, and
the subsidy negative. -/
theorem richStake_overflows :
    (stakeOf MAX_MONEY).isCoinStake = true ∧ (stakeOf MAX_MONEY).nTime < 2 ^ 32 ∧
      CTransaction.InputsInRange (storedRead MAX_MONEY) (stakeOf MAX_MONEY) ∧
      CTransaction.coinAge (storedRead MAX_MONEY) (nodeStoring MAX_MONEY) (stakeOf MAX_MONEY) =
        .ok (true, 900000000) ∧
      nSubsidy 900000000 < 0 ∧ ¬SubsidyExact 900000000 := by
  refine ⟨by decide +kernel, by decide +kernel, ⟨by decide +kernel, by decide +kernel⟩,
    by decide +kernel, by decide +kernel, ?_⟩
  rintro ⟨-, -, hNonneg, -⟩
  exact absurd hNonneg (by decide +kernel)

/-- Ten million coins, staked after two days. -/
theorem plainStake_exact :
    SubsidyExact 20000000 ↔
      CTransaction.totalCentSeconds (storedRead (10000000 * COIN)) (nodeStoring (10000000 * COIN))
        (stakeOf (10000000 * COIN)) < 279496123 * (100 * (24 * 60 * 60)) :=
  CTransaction.stakeReward_exact_iff (by decide +kernel) (by decide +kernel)
    ⟨by decide +kernel, by decide +kernel⟩ (by decide +kernel)

end Sample

end SocietyGold
