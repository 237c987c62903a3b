import SocietyGold.AcceptToMemoryPool
import SocietyGold.CoinSelection
import SocietyGold.SignSignature

/-!
# Creating a transaction

`CreateTransaction` starts with the fee that is set and chooses coins, adds the change and signs.
When the fee turns out to be too small, it starts again with the fee that is needed.
-/

namespace SocietyGold

open Support TxnOutType

/-! ## What the function works with -/

/-- `CCoinControl`: the selected outputs, and the script of `destChange` if there is one. -/
structure CCoinControl where
  setSelected : Finset COutPoint
  destChange : Option CScript

/-- The arguments of `CreateTransaction`. -/
structure CreateRequest where
  vecSend : List (CScript × ℤ)
  wtxNew : CWalletTx
  coinControl : Option CCoinControl
  coin_type : AvailableCoinsType
  useIX : Bool

/-- The wallet and the settings, which stay as they are while the function runs. -/
structure CreateContext (CKey : Type) where
  prims : ScriptPrimitives
  keystore : CKeyStore CKey
  keys : WalletKeys
  view : CoinView
  wallet : CWallet
  /-- The order of pairs of a pointer and an index. -/
  before : COutPoint → COutPoint → Bool
  isFromMe : COutPoint → Bool
  nTransactionFee : ℤ
  nDarksendRounds : ℤ

/-- What a round of the fee loop takes from outside: the shuffles of its selections, the random
position, the script of the reserved key and the depths of inputs. -/
structure RoundChoice where
  shuffle : ℕ → Shuffle
  position : ℕ
  reservedKey : Option CScript
  inputRounds : COutPoint → ℤ

/-- How the function ends. -/
inductive CreateResult
  | failed (strFailReason : String)
  | created (wtxNew : CWalletTx) (nFeeRet : ℤ)

/-- The assignment `mapValue[key] = value`. -/
def setValue (key value : String) (mapValue : List (String × String)) : List (String × String) :=
  (mapValue.filter fun e => e.1 ≠ key).orderedInsert (fun e e' => e.1 ≤ e'.1) (key, value)

/-- `CTxOut::IsDust`; the product is one of 64 bits. -/
def CTxOut.isDust (txout : CTxOut) (minRelayTxFee : ℤ) : Bool :=
  (wrap64 (txout.nValue * 1000)).tdiv (3 * ((CTransaction.txOutSerializeSize txout : ℤ) + 148)) <
    minRelayTxFee

/-- The output at an outpoint, if the wallet has it. -/
def CWallet.outputAt (w : CWallet) (o : COutPoint) : Option CTxOut :=
  (w.get o.hash).bind fun wtx => wtx.vout[o.n]?

def CWallet.valueAt (w : CWallet) (o : COutPoint) : ℤ := (w.outputAt o).elim 0 CTxOut.nValue

/-- The loop that signs the inputs of a new transaction. -/
def CKeyStore.signInputs {CKey : Type} (P : ScriptPrimitives) (keystore : CKeyStore CKey)
    (w : CWallet) : (setCoins : List COutPoint) → (nIn : ℕ) → CTransaction → Option CTransaction
  | [], _, tx => some tx
  | coin :: setCoins, nIn, tx =>
      (w.outputAt coin).bind fun prev =>
        (signSignature P keystore prev.scriptPubKey tx nIn SIGHASH_ALL.toNat).bind
          fun tx => keystore.signInputs P w setCoins (nIn + 1) tx

/-! ## The requested outputs -/

/-- The first loop over `vecSend`, if it does not return. -/
def requestedValue : (vecSend : List (CScript × ℤ)) → (nValue : ℤ) → Option ℤ
  | [], nValue => some nValue
  | s :: vecSend, nValue => if nValue < 0 then none else requestedValue vecSend (nValue + s.2)

/-- A round of the loop that makes the outputs to the payees. -/
def payeeOutput (s : CScript × ℤ) : Except String CTxOut :=
  let txout : CTxOut := ⟨s.2, s.1⟩
  if txout.nValue = -1 ∨ (¬(txout.nValue = 0 ∧ txout.scriptPubKey = []) ∧ txout.nValue = 0) then
    match solver txout.scriptPubKey with
    | none => .error "Invalid scriptPubKey"
    | some (TX_NONSTANDARD, _) => .error "Unknown transaction type"
    | some (TX_NULL_DATA, _) => .ok txout
    | some _ =>
        if txout.isDust MIN_RELAY_TX_FEE then .error "Transaction amount too small" else .ok txout
  else if txout.isDust MIN_RELAY_TX_FEE then .error "Transaction amount too small"
  else .ok txout

def payeeOutputs : (vecSend : List (CScript × ℤ)) → Except String (List CTxOut)
  | [] => .ok []
  | s :: vecSend => do
      let txout ← payeeOutput s
      let vout ← payeeOutputs vecSend
      return txout :: vout

/-- `strFailReason` when the coins do not suffice. -/
def insufficientReason (coin_type : AvailableCoinsType) (useIX : Bool) : String :=
  (match coin_type with
    | .ALL_COINS => " Insufficient funds."
    | .ONLY_NOT10000IFMN =>
        " Unable to locate enough Darksend non-denominated funds for this transaction."
    | .ONLY_NONDENOMINATED_NOT10000IFMN =>
        " Unable to locate enough Darksend non-denominated funds for this transaction that are " ++
          "not equal 1000 SocietyG."
    | .ONLY_DENOMINATED =>
        " Unable to locate enough Darksend denominated funds for this transaction." ++
          " Darksend uses exact denominated amounts to send funds, you might simply need to " ++
          "anonymize some more coins.") ++
    if useIX then
      " InstantX requires inputs with at least 10 confirmations, you might need to wait a few " ++
        "minutes and try again."
    else ""

section Create

variable {CKey : Type} (ctx : CreateContext CKey) (req : CreateRequest)

namespace CreateContext

/-- The transactions of the wallet, as `SelectCoins` reads them. -/
def facts : CoinFacts where
  valueOf := ctx.wallet.valueAt
  nTime o := (ctx.wallet.get o.hash).elim 0 fun wtx => wtx.nTime
  isFromMe := ctx.isFromMe

/-! ## Choosing coins -/

/-- A coin joins the selection. -/
def addCoin (o : COutPoint) (s : List COutPoint × ℤ) : List COutPoint × ℤ :=
  (setInsert ctx.before o s.1, s.2 + ctx.facts.valueOf o)

/-- A loop that adds the outputs that pass a test, which reads the value so far. -/
def takeCoins (takes : COutput → (nValueRet : ℤ) → Bool) : List COutput → List COutPoint × ℤ →
    List COutPoint × ℤ
  | [], s => s
  | out :: vCoins, s =>
      if takes out s.2 then takeCoins takes vCoins (ctx.addCoin out.outpoint s)
      else takeCoins takes vCoins s

/-- The test of the loop over the outputs that are selected by coin control. -/
def takesSelected (inputRounds : COutPoint → ℤ) (out : COutput) (_ : ℤ) : Bool :=
  out.fSpendable &&
    !(req.coin_type = .ONLY_DENOMINATED && inputRounds out.outpoint < ctx.nDarksendRounds)

/-- The test of the loop over the outputs for one denomination. -/
def takesDenomination (inputRounds : COutPoint → ℤ) (nTargetValue v : ℤ) (out : COutput)
    (nValueRet : ℤ) : Bool :=
  ctx.facts.valueOf out.outpoint = v &&
    nValueRet + ctx.facts.valueOf out.outpoint < nTargetValue + COIN / 10 + 100 &&
    !decide (inputRounds out.outpoint < ctx.nDarksendRounds)

/-- The coins that `AvailableCoins` lists. -/
def coins : List COutput :=
  ctx.view.availableCoins
    ⟨true, req.coinControl.map CCoinControl.setSelected, req.coin_type, req.useIX⟩ ctx.keys
    ctx.wallet

/-- `SelectCoinsMinConf` with the confirmation limits in turn. -/
def tryLimits (choice : RoundChoice) (nTargetValue : ℤ) :
    (attempt : ℕ) → List (ℤ × ℤ) → Checked Selection
  | _, [] => .ok ⟨false, [], 0⟩
  | attempt, limits :: rest => do
      let selection ← selectCoinsMinConf ctx.facts nTargetValue req.wtxNew.nTime limits.1 limits.2
        ctx.before (choice.shuffle attempt) (ctx.coins req)
      if selection.success then .ok selection
      else tryLimits choice nTargetValue (attempt + 1) rest

/-- `SelectCoins`. -/
def selectCoins (choice : RoundChoice) (nTargetValue : ℤ) : Checked Selection :=
  if req.coinControl.any fun control => control.setSelected ≠ ∅ then
    let s := ctx.takeCoins (ctx.takesSelected req choice.inputRounds) (ctx.coins req) ([], 0)
    .ok ⟨nTargetValue ≤ s.2, s.1, s.2⟩
  else if req.coin_type = .ONLY_DENOMINATED then
    let s := darkSendDenominations.foldl (fun s v =>
      ctx.takeCoins (ctx.takesDenomination choice.inputRounds nTargetValue v) (ctx.coins req) s)
      ([], 0)
    .ok ⟨nTargetValue ≤ s.2, s.1, s.2⟩
  else ctx.tryLimits req choice nTargetValue 0 [(1, 10), (1, 1), (0, 1)]

/-! ## The fee loop -/

/-- The change: the outputs with it, and the fee. -/
def addChange (choice : RoundChoice) (vout : List CTxOut) (nChange nFeeRet : ℤ) :
    Checked (List CTxOut × ℤ) :=
  if 0 < nChange then
    let scriptChange := (req.coinControl.bind CCoinControl.destChange).or choice.reservedKey
    match scriptChange with
    | none => .error .assertionFailed
    | some scriptChange =>
        let newTxOut : CTxOut := ⟨nChange, scriptChange⟩
        if newTxOut.isDust MIN_RELAY_TX_FEE then .ok (vout, nFeeRet + nChange)
        else .ok (vout.insertIdx (choice.position % (vout.length + 1)) newTxOut, nFeeRet)
  else .ok (vout, nFeeRet)

/-- The fee that a transaction needs. -/
def neededFee (tx : CTransaction) : ℤ :=
  max (ctx.nTransactionFee * (1 + (tx.getSerializeSize : ℤ) / 1000))
    (getMinFee tx tx.getSerializeSize .GMF_SEND)

/-- The fee for the next round. -/
def nextFee (tx : CTransaction) : ℤ :=
  if req.useIX then max CENT (ctx.neededFee tx) else ctx.neededFee tx

/-- `wtxNew` in the end. -/
def createdTx (tx : CTransaction) : CWalletTx :=
  { req.wtxNew with
    toCTransaction := tx
    fFromMe := true
    mapValue :=
      if req.coin_type = .ONLY_DENOMINATED then setValue "DS" "1" req.wtxNew.mapValue
      else req.wtxNew.mapValue }

/-- The end of a round: the inputs are signed, and the fee is compared with what is needed. -/
def finishRound (setCoins : List COutPoint) (vout : List CTxOut) (nFeeRet : ℤ) :
    Flow CreateResult ℤ :=
  let tx := { req.wtxNew.toCTransaction with
    vin := setCoins.map fun coin => ⟨coin, [], UINT_MAX⟩
    vout := vout }
  match ctx.keystore.signInputs ctx.prims ctx.wallet setCoins 0 tx with
  | none => .returned (.failed " Signing transaction failed")
  | some tx =>
      if tx.getSerializeSize ≥ MAX_STANDARD_TX_SIZE then
        .returned (.failed " Transaction too large")
      else if nFeeRet < ctx.neededFee tx then .next (ctx.nextFee req tx)
      else .returned (.created (createdTx req tx) nFeeRet)

/-- A round of the loop: the result, or the next fee. -/
def createRound (choice : RoundChoice) (nValue nFeeRet : ℤ) : Checked (Flow CreateResult ℤ) :=
  match payeeOutputs req.vecSend with
  | .error strFailReason => .ok (.returned (.failed strFailReason))
  | .ok vout => do
      let selection ← ctx.selectCoins req choice (nValue + nFeeRet)
      if !selection.success then
        .ok (.returned (.failed (insufficientReason req.coin_type req.useIX)))
      else
        let nChange := selection.nValueRet - nValue - nFeeRet
        -- over pay for denominated transactions
        let overpaid := req.coin_type = .ONLY_DENOMINATED
        let changed ← addChange req choice vout (if overpaid then 0 else nChange)
          (if overpaid then nFeeRet + nChange else nFeeRet)
        .ok (ctx.finishRound req selection.setCoinsRet changed.1 changed.2)

/-- The loop, for so many rounds. -/
def feeLoop (choice : ℕ → RoundChoice) (nValue : ℤ) : (fuel : ℕ) → (round : ℕ) →
    (nFeeRet : ℤ) → Checked CreateResult
  | 0, _, _ => .error .diverges
  | fuel + 1, round, nFeeRet => do
      let flow ← ctx.createRound req (choice round) nValue nFeeRet
      match flow with
      | .returned result => .ok result
      | .next nFeeRet => feeLoop choice nValue fuel (round + 1) nFeeRet

/-- `CreateTransaction`, if the loop ends after so many rounds. -/
def createTransaction (choice : ℕ → RoundChoice) (fuel : ℕ) : Checked CreateResult :=
  match requestedValue req.vecSend 0 with
  | none => .ok (.failed "Transaction amounts must be positive")
  | some nValue =>
      if req.vecSend = [] ∨ nValue < 0 then .ok (.failed "Transaction amounts must be positive")
      else
        ctx.feeLoop req choice nValue fuel 0
          (if req.useIX then max CENT ctx.nTransactionFee else ctx.nTransactionFee)

end CreateContext

end Create

/-! ## The coins that are offered -/

section Offered

variable (view : CoinView) (request : CoinRequest) (keys : WalletKeys)

theorem nodup_coinsOf (hash : ℕ) (wtx : CWalletTx) :
    ((view.coinsOf request keys hash wtx).map COutput.outpoint).Nodup := by
  unfold CoinView.coinsOf
  split_ifs
  · have hIndices : wtx.vout.zipIdx.Pairwise fun out out' => out.2 ≠ out'.2 := by
      apply List.pairwise_map.mp
      rw [List.zipIdx_map_snd]
      exact List.nodup_range'
    rw [List.map_filterMap]
    apply List.pairwise_filterMap.mpr
    apply hIndices.imp
    intro out out' hNe o hOut o' hOut'
    obtain ⟨coin, hCoin, rfl⟩ := Option.map_eq_some_iff.mp hOut
    obtain ⟨coin', hCoin', rfl⟩ := Option.map_eq_some_iff.mp hOut'
    split_ifs at hCoin with hPasses
    split_ifs at hCoin' with hPasses'
    obtain rfl := Option.some.inj hCoin
    obtain rfl := Option.some.inj hCoin'
    intro hSame
    exact hNe (congrArg COutPoint.n hSame)
  · exact List.nodup_nil

/-- Every coin is listed once. -/
theorem nodup_availableCoins (w : CWallet) :
    ((view.availableCoins request keys w).map COutput.outpoint).Nodup := by
  unfold CoinView.availableCoins
  rw [List.map_flatMap]
  apply List.nodup_flatMap.mpr
  refine ⟨fun e _ => nodup_coinsOf view request keys e.1 e.2.wtx, ?_⟩
  have hKeys := List.pairwise_map.mp (Table.nodup_keys_inKeyOrder w.mapWallet)
  apply hKeys.imp
  intro e e' hNe o ho ho'
  -- the hash of a coin is that of its transaction
  obtain ⟨coin, hCoin, rfl⟩ := List.mem_map.mp ho
  obtain ⟨coin', hCoin', hEq⟩ := List.mem_map.mp ho'
  have hHash := (mem_coinsOf_iff.mp ⟨coin, hCoin, rfl⟩).1
  have hHash' := (mem_coinsOf_iff.mp ⟨coin', hCoin', hEq⟩).1
  exact hNe (hHash.symm.trans hHash')

end Offered

namespace CreateContext

variable {CKey : Type} {ctx : CreateContext CKey} {req : CreateRequest} {choice : RoundChoice}
  {nTargetValue : ℤ}

/-- A coin on the list is an output of the wallet with a value. -/
theorem coins_facts {coin : COutput} (hCoin : coin ∈ ctx.coins req) :
    ∃ txout, ctx.wallet.outputAt coin.outpoint = some txout ∧ 0 < txout.nValue := by
  obtain ⟨wtx, txout, hGet, hOut, _, hValue, _⟩ := offers_of_mem_availableCoins hCoin
  refine ⟨txout, ?_, hValue⟩
  unfold CWallet.outputAt
  rw [hGet]
  exact hOut

theorem coins_positive {coin : COutput} (hCoin : coin ∈ ctx.coins req) :
    0 < ctx.facts.valueOf coin.outpoint := by
  obtain ⟨txout, hOut, hValue⟩ := coins_facts hCoin
  change 0 < (ctx.wallet.outputAt coin.outpoint).elim 0 CTxOut.nValue
  rw [hOut]
  exact hValue

/-! ## The selection of coins -/

/-- The coins of the list that are taken so far, each once, and their value. -/
structure Taken (ctx : CreateContext CKey) (coins : List COutput) (s : List COutPoint × ℤ) :
    Prop where
  subset : ∀ o ∈ s.1, ∃ output ∈ coins, output.outpoint = o
  nodup : s.1.Nodup
  sum : s.2 = (s.1.map ctx.facts.valueOf).sum

namespace Taken

variable {coins vCoins : List COutput} {s : List COutPoint × ℤ} {out : COutput}

theorem addCoin
    (h : ctx.Taken coins s) (hOut : out ∈ coins) (hNew : out.outpoint ∉ s.1) :
    ctx.Taken coins (ctx.addCoin out.outpoint s) := by
  refine ⟨?_, nodup_setInsert ctx.before h.nodup, ?_⟩
  · intro o ho
    rcases (mem_setInsert ctx.before).mp ho with rfl | ho
    · exact ⟨out, hOut, rfl⟩
    · exact h.subset o ho
  · have hPerm : (setInsert ctx.before out.outpoint s.1).Perm (out.outpoint :: s.1) := by
      unfold setInsert
      rw [if_neg hNew]
      exact List.perm_orderedInsert _ _ _
    have hSum := (hPerm.map ctx.facts.valueOf).sum_eq
    rw [List.map_cons, List.sum_cons, ← h.sum] at hSum
    change s.2 + ctx.facts.valueOf out.outpoint =
      ((setInsert ctx.before out.outpoint s.1).map ctx.facts.valueOf).sum
    rw [hSum, add_comm]

/-- A loop takes coins of a kind of which there was none before. -/
theorem takeCoins
    (takes : COutput → ℤ → Bool) (kind : COutPoint → Prop) (h : ctx.Taken coins s)
    (hCoins : ∀ out ∈ vCoins, out ∈ coins) (hDistinct : (vCoins.map COutput.outpoint).Nodup)
    (hKind : ∀ out nValueRet, takes out nValueRet = true → kind out.outpoint)
    (hApart : ∀ out ∈ vCoins, kind out.outpoint → out.outpoint ∉ s.1) :
    ctx.Taken coins (ctx.takeCoins takes vCoins s) ∧
      ∀ o ∈ (ctx.takeCoins takes vCoins s).1, o ∈ s.1 ∨ kind o := by
  induction vCoins generalizing s with
  | nil => exact ⟨h, fun o ho => Or.inl ho⟩
  | cons out vCoins ih =>
      obtain ⟨hNew, hRest⟩ := List.nodup_cons.mp hDistinct
      have hCoins' : ∀ out ∈ vCoins, out ∈ coins := fun out' h' =>
        hCoins out' (List.mem_cons_of_mem out h')
      rw [CreateContext.takeCoins]
      split_ifs with hTakes
      · have hOut := hApart out List.mem_cons_self (hKind _ _ hTakes)
        have hApart' : ∀ out' ∈ vCoins, kind out'.outpoint →
            out'.outpoint ∉ (ctx.addCoin out.outpoint s).1 := by
          intro out' hOut' hk hMem
          rcases (mem_setInsert ctx.before).mp hMem with hEq | hMem
          · exact hNew (List.mem_map.mpr ⟨out', hOut', hEq⟩)
          · exact hApart out' (List.mem_cons_of_mem out hOut') hk hMem
        obtain ⟨hTaken, hOld⟩ := ih (h.addCoin (hCoins out List.mem_cons_self) hOut) hCoins'
          hRest hApart'
        refine ⟨hTaken, fun o ho => ?_⟩
        rcases hOld o ho with hMem | hk
        · rcases (mem_setInsert ctx.before).mp hMem with rfl | hMem
          · exact Or.inr (hKind _ _ hTakes)
          · exact Or.inl hMem
        · exact Or.inr hk
      · exact ih h hCoins' hRest fun out' hOut' => hApart out' (List.mem_cons_of_mem out hOut')

/-- One denomination after the other: the coins of each have their own value. -/
theorem takeDenominations
    {vs : List ℤ} (h : ctx.Taken coins s) (nTargetValue : ℤ) (inputRounds : COutPoint → ℤ)
    (hDistinct : (coins.map COutput.outpoint).Nodup) (hValues : vs.Nodup)
    (hApart : ∀ o ∈ s.1, ctx.facts.valueOf o ∉ vs) :
    ctx.Taken coins (vs.foldl (fun s v =>
      ctx.takeCoins (ctx.takesDenomination inputRounds nTargetValue v) coins s) s) := by
  induction vs generalizing s with
  | nil => exact h
  | cons v vs ih =>
      obtain ⟨hNew, hRest⟩ := List.nodup_cons.mp hValues
      have hKind : ∀ out nValueRet,
          ctx.takesDenomination inputRounds nTargetValue v out nValueRet = true →
            ctx.facts.valueOf out.outpoint = v := by
        intro out nValueRet hTakes
        unfold takesDenomination at hTakes
        simp only [Bool.and_eq_true, decide_eq_true_eq] at hTakes
        exact hTakes.1.1
      obtain ⟨hTaken, hOld⟩ := h.takeCoins _ (fun o => ctx.facts.valueOf o = v)
        (fun out hOut => hOut) hDistinct hKind fun out _ hv hMem =>
          hApart _ hMem (hv ▸ List.mem_cons_self)
      apply ih hTaken hRest
      intro o ho hMem
      rcases hOld o ho with hBefore | hv
      · exact hApart o hBefore (List.mem_cons_of_mem v hMem)
      · exact hNew (hv ▸ hMem)

/-- What is taken is a selection, if it is enough. -/
theorem selectsFrom (h : ctx.Taken coins s) (hEnough : nTargetValue ≤ s.2) (success : Bool) :
    SelectsFrom ctx.facts nTargetValue coins ⟨success, s.1, s.2⟩ :=
  ⟨h.subset, h.nodup, h.sum, hEnough⟩

end Taken

theorem tryLimits_selects {attempt : ℕ} {limits : List (ℤ × ℤ)} :
    ∃ selection, ctx.tryLimits req choice nTargetValue attempt limits = .ok selection ∧
      (selection.success = true →
        SelectsFrom ctx.facts nTargetValue (ctx.coins req) selection) := by
  induction limits generalizing attempt with
  | nil => exact ⟨⟨false, [], 0⟩, rfl, fun h => absurd h Bool.false_ne_true⟩
  | cons limit limits ih =>
      have hDistinct : ((ctx.coins req).map COutput.outpoint).Nodup := nodup_availableCoins _ _ _ _
      obtain ⟨selection, hReturns, -, hFrom⟩ := @selectCoinsMinConf_returns ctx.facts nTargetValue
        req.wtxNew.nTime limit.1 limit.2 ctx.before (ctx.coins req) (choice.shuffle attempt)
        hDistinct fun output hOutput => coins_positive hOutput
      rw [tryLimits, hReturns, ok_bind]
      split_ifs with hSuccess
      · refine ⟨selection, rfl, fun _ => ?_⟩
        obtain ⟨hSubset, hNodup, hSum, hEnough⟩ := hFrom hSuccess
        refine ⟨fun o ho => ?_, hNodup, hSum, hEnough⟩
        obtain ⟨output, hOutput, hEq⟩ := hSubset o ho
        exact ⟨output, List.mem_of_mem_filter hOutput, hEq⟩
      · exact ih

/-- `SelectCoins` returns, and what it selects is enough. -/
theorem selectCoins_selects :
    ∃ selection, ctx.selectCoins req choice nTargetValue = .ok selection ∧
      (selection.success = true →
        SelectsFrom ctx.facts nTargetValue (ctx.coins req) selection) := by
  have hDistinct : ((ctx.coins req).map COutput.outpoint).Nodup := nodup_availableCoins _ _ _ _
  have hStart : ctx.Taken (ctx.coins req) ([], 0) :=
    ⟨fun o ho => absurd ho List.not_mem_nil, List.nodup_nil, rfl⟩
  unfold selectCoins
  split_ifs
  · have hTaken := (hStart.takeCoins (ctx.takesSelected req choice.inputRounds) (fun _ => True)
      (fun out hOut => hOut) hDistinct (fun _ _ _ => trivial) fun _ _ _ => List.not_mem_nil).1
    exact ⟨_, rfl, fun hEnough => hTaken.selectsFrom (of_decide_eq_true hEnough) _⟩
  · have hValues : darkSendDenominations.Nodup := by
      decide +kernel
    have hTaken := hStart.takeDenominations nTargetValue choice.inputRounds hDistinct hValues
      fun o ho => absurd ho List.not_mem_nil
    exact ⟨_, rfl, fun hEnough => hTaken.selectsFrom (of_decide_eq_true hEnough) _⟩
  · exact tryLimits_selects

end CreateContext

/-! ## What a round does -/

/-- The outputs as they are requested. -/
def payees (vecSend : List (CScript × ℤ)) : List CTxOut := vecSend.map fun s => ⟨s.2, s.1⟩

theorem payeeOutput_ok {s : CScript × ℤ} {txout : CTxOut} (h : payeeOutput s = .ok txout) :
    txout = ⟨s.2, s.1⟩ := by
  unfold payeeOutput at h
  dsimp only at h
  split at h
  · split at h
    · cases h
    · cases h
    · exact (Except.ok.inj h).symm
    · split_ifs at h
      exact (Except.ok.inj h).symm
  · split_ifs at h
    exact (Except.ok.inj h).symm

theorem payeeOutputs_ok
    {vecSend : List (CScript × ℤ)} {vout : List CTxOut} (h : payeeOutputs vecSend = .ok vout) :
    vout = payees vecSend := by
  induction vecSend generalizing vout with
  | nil => exact (Except.ok.inj h).symm
  | cons s vecSend ih =>
      obtain ⟨txout, hHead, h⟩ := bind_eq_ok.mp h
      obtain ⟨rest, hRest, h⟩ := bind_eq_ok.mp h
      obtain rfl := Except.ok.inj h
      rw [payeeOutput_ok hHead, ih hRest]
      rfl

/-- The first loop adds all amounts. -/
theorem requestedValue_eq
    {vecSend : List (CScript × ℤ)} {nValue nSum : ℤ}
    (h : requestedValue vecSend nValue = some nSum) :
    nSum = nValue + ((payees vecSend).map CTxOut.nValue).sum := by
  induction vecSend generalizing nValue with
  | nil =>
      obtain rfl := Option.some.inj h
      exact (add_zero nValue).symm
  | cons s vecSend ih =>
      rw [requestedValue] at h
      split_ifs at h
      have hRest := ih h
      rw [add_assoc] at hRest
      exact hRest

theorem getMinFee_le_maxMoney (tx : CTransaction) (nBytes : ℕ) (mode : GetMinFee_mode) :
    getMinFee tx nBytes mode ≤ MAX_MONEY := by
  have hRange : ∀ nMinFee : ℤ,
      (if !moneyRange nMinFee then MAX_MONEY else nMinFee) ≤ MAX_MONEY := by
    intro nMinFee
    by_cases h : moneyRange nMinFee = true
    · rw [h, Bool.not_true, if_neg Bool.false_ne_true]
      unfold moneyRange at h
      simp only [Bool.and_eq_true, decide_eq_true_eq] at h
      exact h.2
    · rw [if_pos (by simpa using h)]
  exact hRange _

/-- The transactions differ in their signatures at most. -/
structure CTransaction.SameUnsigned (tx tx' : CTransaction) : Prop where
  nTime : tx'.nTime = tx.nTime
  vout : tx'.vout = tx.vout
  prevouts : tx'.vin.map CTxIn.prevout = tx.vin.map CTxIn.prevout

theorem CTransaction.SameUnsigned.trans
    {tx tx' tx'' : CTransaction} (h : tx.SameUnsigned tx') (h' : tx'.SameUnsigned tx'') :
    tx.SameUnsigned tx'' :=
  ⟨h'.nTime.trans h.nTime, h'.vout.trans h.vout, h'.prevouts.trans h.prevouts⟩

theorem signSignature_keeps
    {CKey : Type} {P : ScriptPrimitives} {keystore : CKeyStore CKey} {fromPubKey : CScript}
    {tx tx' : CTransaction} {nIn : ℕ} {nHashType : ℤ}
    (h : signSignature P keystore fromPubKey tx nIn nHashType = some tx') :
    tx.SameUnsigned tx' := by
  unfold signSignature at h
  split_ifs at h
  obtain ⟨scriptSig, -, h⟩ := Option.bind_eq_some_iff.mp h
  dsimp only at h
  split_ifs at h
  obtain rfl := Option.some.inj h
  refine ⟨rfl, rfl, ?_⟩
  unfold CTransaction.withScriptSig
  dsimp only
  apply List.ext_getElem
  · rw [List.length_map, List.length_mapIdx, List.length_map]
  · intro i h₁ h₂
    rw [List.getElem_map, List.getElem_mapIdx, List.getElem_map]

theorem signInputs_keeps
    {CKey : Type} {P : ScriptPrimitives} {keystore : CKeyStore CKey} {w : CWallet}
    {setCoins : List COutPoint} {nIn : ℕ} {tx tx' : CTransaction}
    (h : keystore.signInputs P w setCoins nIn tx = some tx') : tx.SameUnsigned tx' := by
  induction setCoins generalizing nIn tx with
  | nil =>
      obtain rfl := Option.some.inj h
      exact ⟨rfl, rfl, rfl⟩
  | cons coin setCoins ih =>
      rw [CKeyStore.signInputs] at h
      obtain ⟨prev, -, h⟩ := Option.bind_eq_some_iff.mp h
      obtain ⟨signed, hSigned, h⟩ := Option.bind_eq_some_iff.mp h
      exact (signSignature_keeps hSigned).trans (ih h)

namespace CreateContext

variable {CKey : Type} {ctx : CreateContext CKey} {req : CreateRequest} {choice : RoundChoice}

/-- The change becomes one more output, or it goes to the fee. -/
theorem addChange_cases
    {vout : List CTxOut} {nChange nFeeRet : ℤ} (hChange : 0 ≤ nChange) :
    addChange req choice vout nChange nFeeRet = .error .assertionFailed ∨
      ∃ changed change, addChange req choice vout nChange nFeeRet = .ok changed ∧
        change.length ≤ 1 ∧ (∀ txout ∈ change, 0 ≤ CTxOut.nValue txout) ∧
        changed.1.Perm (vout ++ change) ∧ nFeeRet ≤ changed.2 ∧
        changed.2 + (change.map CTxOut.nValue).sum = nFeeRet + nChange := by
  unfold addChange
  split_ifs with hPositive
  · dsimp only
    cases (req.coinControl.bind CCoinControl.destChange).or choice.reservedKey with
    | none => exact Or.inl rfl
    | some scriptChange =>
        right
        dsimp only
        split_ifs
        · refine ⟨_, [], rfl, Nat.zero_le 1, fun _ h => absurd h List.not_mem_nil, ?_, ?_, ?_⟩
          · rw [List.append_nil]
          · exact le_add_of_nonneg_right hChange
          · exact add_zero _
        · refine ⟨_, [⟨nChange, scriptChange⟩], rfl, le_refl 1, ?_, ?_, le_refl _, ?_⟩
          · intro txout hMem
            obtain rfl := List.mem_singleton.mp hMem
            exact hChange
          · have hInside : choice.position % (vout.length + 1) ≤ vout.length :=
              Nat.lt_succ_iff.mp (Nat.mod_lt _ (Nat.succ_pos _))
            exact (List.perm_insertIdx _ _ hInside).trans (List.perm_append_singleton _ _).symm
          · rw [List.map_singleton, List.sum_singleton]
  · obtain rfl : nChange = 0 := by omega
    refine Or.inr ⟨_, [], rfl, Nat.zero_le 1, fun _ h => absurd h List.not_mem_nil, ?_, le_refl _,
      ?_⟩
    · rw [List.append_nil]
    · rfl

/-- The fee that no transaction of a standard size exceeds. -/
def feeLimit (ctx : CreateContext CKey) : ℤ :=
  max CENT (max (|ctx.nTransactionFee| * (1 + (MAX_STANDARD_TX_SIZE : ℤ))) MAX_MONEY)

theorem neededFee_le_feeLimit
    (ctx : CreateContext CKey) {tx : CTransaction}
    (hSize : tx.getSerializeSize < MAX_STANDARD_TX_SIZE) :
    ctx.neededFee tx ≤ ctx.feeLimit := by
  unfold neededFee feeLimit
  apply le_trans _ (le_max_right _ _)
  apply max_le_max _ (getMinFee_le_maxMoney _ _ _)
  have hThousands : 1 + (tx.getSerializeSize : ℤ) / 1000 ≤ 1 + (MAX_STANDARD_TX_SIZE : ℤ) := by
    omega
  have hNonneg : 0 ≤ 1 + (tx.getSerializeSize : ℤ) / 1000 := by
    omega
  calc ctx.nTransactionFee * (1 + (tx.getSerializeSize : ℤ) / 1000)
      ≤ |ctx.nTransactionFee| * (1 + (tx.getSerializeSize : ℤ) / 1000) :=
        mul_le_mul_of_nonneg_right (le_abs_self _) hNonneg
    _ ≤ |ctx.nTransactionFee| * (1 + (MAX_STANDARD_TX_SIZE : ℤ)) :=
        mul_le_mul_of_nonneg_left hThousands (abs_nonneg _)

/-- The values of the outputs that the inputs spend. -/
def inputValue (ctx : CreateContext CKey) (tx : CTransaction) : ℤ :=
  (tx.vin.map fun txin => ctx.facts.valueOf txin.prevout).sum

/-- What holds of a transaction that is created, whatever the amounts are: the inputs are distinct
outputs of the wallet, nothing is lost, the fee is enough, and the outputs are those requested with
at most one output of change. -/
structure Pays (ctx : CreateContext CKey) (vecSend : List (CScript × ℤ)) (tx : CTransaction)
    (nFeeRet : ℤ) (change : List CTxOut) : Prop where
  known : ∀ txin ∈ tx.vin, (ctx.wallet.outputAt txin.prevout).isSome = true
  distinct : (tx.vin.map CTxIn.prevout).Nodup
  conserved : ctx.inputValue tx = (tx.vout.map CTxOut.nValue).sum + nFeeRet
  enough : ctx.neededFee tx ≤ nFeeRet
  atMostOne : change.length ≤ 1
  nonneg : ∀ txout ∈ change, 0 ≤ txout.nValue
  outputs : tx.vout.Perm (payees vecSend ++ change)

/-- What the function may end with. -/
def Settled (ctx : CreateContext CKey) (req : CreateRequest) : Checked CreateResult → Prop
  | .error fault => fault = .assertionFailed
  | .ok (.failed _) => True
  | .ok (.created wtxNew nFeeRet) =>
      ∃ change, ctx.Pays req.vecSend wtxNew.toCTransaction nFeeRet change

/-- What a round may end with: a fee for the next round is greater, but has a limit. -/
def RoundEnds (ctx : CreateContext CKey) (req : CreateRequest) (nFeeRet : ℤ) :
    Checked (Flow CreateResult ℤ) → Prop
  | .error fault => ctx.Settled req (.error fault)
  | .ok (.returned result) => ctx.Settled req (.ok result)
  | .ok (.next nFee) => nFeeRet < nFee ∧ nFee ≤ ctx.feeLimit

/-- The end of a round fails, asks for another fee or returns the transaction. -/
theorem finishRound_cases
    (ctx : CreateContext CKey) (req : CreateRequest) (setCoins : List COutPoint)
    (vout : List CTxOut) (nFee : ℤ) :
    (∃ strFailReason,
      ctx.finishRound req setCoins vout nFee = .returned (.failed strFailReason)) ∨
    ∃ tx : CTransaction, tx.vout = vout ∧ tx.vin.map CTxIn.prevout = setCoins ∧
      tx.getSerializeSize < MAX_STANDARD_TX_SIZE ∧
      ((nFee < ctx.neededFee tx ∧
          ctx.finishRound req setCoins vout nFee = .next (ctx.nextFee req tx)) ∨
        (ctx.neededFee tx ≤ nFee ∧ ctx.finishRound req setCoins vout nFee =
          .returned (.created (createdTx req tx) nFee))) := by
  unfold finishRound
  dsimp only
  generalize hUnsigned : { req.wtxNew.toCTransaction with
    vin := setCoins.map fun coin => (⟨coin, [], UINT_MAX⟩ : CTxIn)
    vout := vout } = unsigned
  cases hSigned : ctx.keystore.signInputs ctx.prims ctx.wallet setCoins 0 unsigned with
  | none => exact Or.inl ⟨_, rfl⟩
  | some tx =>
      obtain ⟨-, hOut, hIn⟩ := signInputs_keeps hSigned
      have hVout : tx.vout = vout := by
        rw [hOut, ← hUnsigned]
      have hPrevouts : tx.vin.map CTxIn.prevout = setCoins := by
        rw [hIn, ← hUnsigned, List.map_map]
        exact List.map_id setCoins
      dsimp only
      by_cases hSize : tx.getSerializeSize ≥ MAX_STANDARD_TX_SIZE
      · rw [if_pos hSize]
        exact Or.inl ⟨_, rfl⟩
      · rw [if_neg hSize]
        refine Or.inr ⟨tx, hVout, hPrevouts, not_le.mp hSize, ?_⟩
        rcases lt_or_ge nFee (ctx.neededFee tx) with hLess | hEnough
        · exact Or.inl ⟨hLess, if_pos hLess⟩
        · exact Or.inr ⟨hEnough, if_neg (not_lt.mpr hEnough)⟩

theorem finishRound_ends
    {setCoins : List COutPoint} {vout change : List CTxOut} {nFeeRet nFee : ℤ}
    (hKnown : ∀ o ∈ setCoins, (ctx.wallet.outputAt o).isSome = true) (hDistinct : setCoins.Nodup)
    (hConserved : (setCoins.map ctx.facts.valueOf).sum = (vout.map CTxOut.nValue).sum + nFee)
    (hAtMostOne : change.length ≤ 1) (hNonneg : ∀ txout ∈ change, 0 ≤ txout.nValue)
    (hOutputs : vout.Perm (payees req.vecSend ++ change)) (hFee : nFeeRet ≤ nFee) :
    ctx.RoundEnds req nFeeRet (.ok (ctx.finishRound req setCoins vout nFee)) := by
  rcases ctx.finishRound_cases req setCoins vout nFee with
    ⟨strFailReason, hFailed⟩ | ⟨tx, hVout, hPrevouts, hSize, ⟨hLess, hNext⟩ | ⟨hEnough, hCreated⟩⟩
  · rw [hFailed]
    exact trivial
  · have hLimit := ctx.neededFee_le_feeLimit hSize
    have hNextFee : ctx.neededFee tx ≤ ctx.nextFee req tx ∧ ctx.nextFee req tx ≤ ctx.feeLimit := by
      unfold nextFee
      split_ifs
      · exact ⟨le_max_right _ _, max_le (le_max_left _ _) hLimit⟩
      · exact ⟨le_refl _, hLimit⟩
    rw [hNext]
    exact ⟨(hFee.trans_lt hLess).trans_le hNextFee.1, hNextFee.2⟩
  · rw [hCreated]
    refine ⟨change, ?_, ?_, ?_, hEnough, hAtMostOne, hNonneg, ?_⟩
    · intro txin hMem
      apply hKnown
      rw [← hPrevouts]
      exact List.mem_map_of_mem hMem
    · exact hPrevouts ▸ hDistinct
    · rw [← hPrevouts, List.map_map, ← hVout] at hConserved
      exact hConserved
    · exact hVout ▸ hOutputs

theorem createRound_ends
    {nValue nFeeRet : ℤ} (hValue : nValue = ((payees req.vecSend).map CTxOut.nValue).sum) :
    ctx.RoundEnds req nFeeRet (ctx.createRound req choice nValue nFeeRet) := by
  unfold createRound
  cases hPayees : payeeOutputs req.vecSend with
  | error strFailReason => exact trivial
  | ok vout =>
      obtain rfl := payeeOutputs_ok hPayees
      obtain ⟨selection, hSelection, hFrom⟩ :=
        @selectCoins_selects CKey ctx req choice (nValue + nFeeRet)
      dsimp only
      rw [hSelection, ok_bind]
      by_cases hSuccess : selection.success = true
      · obtain ⟨hSubset, hDistinct, hSum, hEnough⟩ := hFrom hSuccess
        have hKnown : ∀ o ∈ selection.setCoinsRet, (ctx.wallet.outputAt o).isSome = true := by
          intro o ho
          obtain ⟨output, hOutput, rfl⟩ := hSubset o ho
          obtain ⟨txout, hOut, -⟩ := coins_facts hOutput
          rw [hOut]
          rfl
        rw [if_neg (by simpa using hSuccess)]
        -- what is not paid is divided between the change and the fee
        obtain ⟨nChange, nFee, hChange, hFee, hBoth, hChangeEq, hFeeEq⟩ : ∃ nChange nFee,
            0 ≤ nChange ∧ nFeeRet ≤ nFee ∧ nFee + nChange = selection.nValueRet - nValue ∧
            (if req.coin_type = .ONLY_DENOMINATED then 0
              else selection.nValueRet - nValue - nFeeRet) = nChange ∧
            (if req.coin_type = .ONLY_DENOMINATED then
              nFeeRet + (selection.nValueRet - nValue - nFeeRet) else nFeeRet) = nFee := by
          split_ifs
          · exact ⟨_, _, le_refl 0, by omega, by omega, rfl, rfl⟩
          · exact ⟨_, _, by omega, le_refl _, by omega, rfl, rfl⟩
        rw [hChangeEq, hFeeEq]
        rcases @addChange_cases req choice (payees req.vecSend) nChange nFee hChange with
          hFailed | ⟨changed, change, hChanged, hAtMostOne, hNonneg, hOutputs, hMore, hTotal⟩
        · rw [hFailed]
          exact rfl
        · rw [hChanged, ok_bind]
          have hOutSum := (hOutputs.map CTxOut.nValue).sum_eq
          rw [List.map_append, List.sum_append, ← hValue] at hOutSum
          apply finishRound_ends hKnown hDistinct _ hAtMostOne hNonneg hOutputs
            (hFee.trans hMore)
          rw [← hSum, hOutSum]
          omega
      · rw [if_pos (by simpa using hSuccess)]
        exact trivial

/-! ## The fee loop ends -/

section Loop

variable {choices : ℕ → RoundChoice} {nValue : ℤ} {fuel round : ℕ} {nFeeRet : ℤ}

theorem feeLoop_of_error
    {fault : Fault} (h : ctx.createRound req (choices round) nValue nFeeRet = .error fault) :
    ctx.feeLoop req choices nValue (fuel + 1) round nFeeRet = .error fault := by
  rw [feeLoop, h]
  rfl

theorem feeLoop_of_returned
    {result : CreateResult}
    (h : ctx.createRound req (choices round) nValue nFeeRet = .ok (.returned result)) :
    ctx.feeLoop req choices nValue (fuel + 1) round nFeeRet = .ok result := by
  rw [feeLoop, h]
  rfl

theorem feeLoop_of_next
    {nFee : ℤ} (h : ctx.createRound req (choices round) nValue nFeeRet = .ok (.next nFee)) :
    ctx.feeLoop req choices nValue (fuel + 1) round nFeeRet =
      ctx.feeLoop req choices nValue fuel (round + 1) nFee := by
  rw [feeLoop, h]
  rfl

/-- The fee rises from round to round and has a limit, so that the number of rounds has one. -/
theorem feeLoop_ends
    (hValue : nValue = ((payees req.vecSend).map CTxOut.nValue).sum) {rounds : ℕ}
    (hRounds : (ctx.feeLimit - nFeeRet).toNat < rounds) :
    ∃ outcome, ctx.Settled req outcome ∧ ∀ fuel, rounds ≤ fuel →
      ctx.feeLoop req choices nValue fuel round nFeeRet = outcome := by
  induction rounds generalizing round nFeeRet with
  | zero => exact absurd hRounds (Nat.not_lt_zero _)
  | succ rounds ih =>
      have hEnds := @createRound_ends CKey ctx req (choices round) nValue nFeeRet hValue
      have hMore : ∀ fuel, rounds + 1 ≤ fuel → ∃ fuel', fuel = fuel' + 1 ∧ rounds ≤ fuel' :=
        fun fuel hFuel => ⟨fuel - 1, by omega, by omega⟩
      rcases hRound : ctx.createRound req (choices round) nValue nFeeRet with
        fault | (result | nFee)
      · rw [hRound] at hEnds
        refine ⟨.error fault, hEnds, fun fuel hFuel => ?_⟩
        obtain ⟨fuel', rfl, -⟩ := hMore fuel hFuel
        exact feeLoop_of_error hRound
      · rw [hRound] at hEnds
        refine ⟨.ok result, hEnds, fun fuel hFuel => ?_⟩
        obtain ⟨fuel', rfl, -⟩ := hMore fuel hFuel
        exact feeLoop_of_returned hRound
      · rw [hRound] at hEnds
        obtain ⟨hRises, hLimit⟩ := hEnds
        obtain ⟨outcome, hSettled, hLoop⟩ := @ih (round + 1) nFee (by omega)
        refine ⟨outcome, hSettled, fun fuel hFuel => ?_⟩
        obtain ⟨fuel', rfl, hRest⟩ := hMore fuel hFuel
        rw [feeLoop_of_next hRound]
        exact hLoop fuel' hRest

/-- With enough rounds the function has this outcome. -/
def Ends (ctx : CreateContext CKey) (req : CreateRequest) (choices : ℕ → RoundChoice)
    (outcome : Checked CreateResult) : Prop :=
  outcome ≠ .error .diverges ∧
    ∃ rounds, ∀ fuel, rounds ≤ fuel → ctx.createTransaction req choices fuel = outcome

theorem Settled.ne_diverges {outcome : Checked CreateResult} (h : ctx.Settled req outcome) :
    outcome ≠ .error .diverges := by
  rintro rfl
  cases h

theorem Ends.unique
    {outcome outcome' : Checked CreateResult} (h : ctx.Ends req choices outcome)
    (h' : ctx.Ends req choices outcome') : outcome = outcome' := by
  obtain ⟨-, rounds, hRounds⟩ := h
  obtain ⟨-, rounds', hRounds'⟩ := h'
  rw [← hRounds _ (le_max_left rounds rounds'), hRounds' _ (le_max_right rounds rounds')]

/-- The first round may return already. -/
theorem ends_of_returned
    {result : CreateResult} (hValue : requestedValue req.vecSend 0 = some nValue)
    (hAmounts : ¬(req.vecSend = [] ∨ nValue < 0))
    (hRound : ctx.createRound req (choices 0) nValue
      (if req.useIX then max CENT ctx.nTransactionFee else ctx.nTransactionFee) =
        .ok (.returned result)) :
    ctx.Ends req choices (.ok result) := by
  refine ⟨by rintro ⟨⟩, 1, fun fuel hFuel => ?_⟩
  obtain ⟨fuel', rfl⟩ : ∃ fuel', fuel = fuel' + 1 := ⟨fuel - 1, by omega⟩
  unfold createTransaction
  rw [hValue]
  dsimp only
  rw [if_neg hAmounts]
  exact feeLoop_of_returned hRound

theorem settled_failed (strFailReason : String) :
    ctx.Settled req (.ok (.failed strFailReason)) := trivial

theorem createTransaction_settled
    (ctx : CreateContext CKey) (req : CreateRequest) (choices : ℕ → RoundChoice) :
    ∃ outcome, ctx.Settled req outcome ∧ ctx.Ends req choices outcome := by
  have hRefused := @settled_failed CKey ctx req "Transaction amounts must be positive"
  unfold Ends createTransaction
  cases hValue : requestedValue req.vecSend 0 with
  | none => exact ⟨_, hRefused, hRefused.ne_diverges, 0, fun _ _ => rfl⟩
  | some nValue =>
      dsimp only
      by_cases hRefuses : req.vecSend = [] ∨ nValue < 0
      · simp only [if_pos hRefuses]
        exact ⟨_, hRefused, hRefused.ne_diverges, 0, fun _ _ => rfl⟩
      · simp only [if_neg hRefuses]
        have hSum := requestedValue_eq hValue
        rw [zero_add] at hSum
        obtain ⟨outcome, hSettled, hLoop⟩ := feeLoop_ends hSum (Nat.lt_succ_self _)
        exact ⟨outcome, hSettled, hSettled.ne_diverges, _, hLoop⟩

end Loop

/-! ## When the amounts are right -/

/-- The transaction is exact: distinct inputs, whose value is that of the outputs and the fee, a fee
that is enough, outputs that are not negative, and no others than those requested and at most one of
change. -/
structure ValueExact (ctx : CreateContext CKey) (vecSend : List (CScript × ℤ))
    (tx : CTransaction) (nFeeRet : ℤ) : Prop where
  known : ∀ txin ∈ tx.vin, (ctx.wallet.outputAt txin.prevout).isSome = true
  distinct : (tx.vin.map CTxIn.prevout).Nodup
  conserved : ctx.inputValue tx = (tx.vout.map CTxOut.nValue).sum + nFeeRet
  enough : ctx.neededFee tx ≤ nFeeRet
  nonneg : ∀ txout ∈ tx.vout, 0 ≤ txout.nValue
  outputs : ∃ change, change.length ≤ 1 ∧ tx.vout.Perm (payees vecSend ++ change)

theorem Pays.valueExact_iff
    {vecSend : List (CScript × ℤ)} {tx : CTransaction} {nFeeRet : ℤ} {change : List CTxOut}
    (h : ctx.Pays vecSend tx nFeeRet change) :
    ctx.ValueExact vecSend tx nFeeRet ↔ ∀ s ∈ vecSend, 0 ≤ s.2 := by
  constructor
  · intro hExact s hs
    have hPayee : (⟨s.2, s.1⟩ : CTxOut) ∈ payees vecSend := List.mem_map_of_mem hs
    exact hExact.nonneg _ (h.outputs.mem_iff.mpr (List.mem_append_left change hPayee))
  · intro hAmounts
    refine ⟨h.known, h.distinct, h.conserved, h.enough, ?_, change, h.atMostOne, h.outputs⟩
    intro txout hMem
    rcases List.mem_append.mp (h.outputs.mem_iff.mp hMem) with hPayee | hChange
    · obtain ⟨s, hs, rfl⟩ := List.mem_map.mp hPayee
      exact hAmounts s hs
    · exact h.nonneg txout hChange

/-- The function ends, and a transaction that it creates is exact if and only if no amount of the
request is negative. -/
theorem createTransaction_exact_iff
    (ctx : CreateContext CKey) (req : CreateRequest) (choices : ℕ → RoundChoice) :
    ∃ outcome, ctx.Ends req choices outcome ∧
      ∀ wtxNew nFeeRet, outcome = .ok (.created wtxNew nFeeRet) →
        (ctx.ValueExact req.vecSend wtxNew.toCTransaction nFeeRet ↔
          ∀ s ∈ req.vecSend, 0 ≤ s.2) := by
  obtain ⟨outcome, hSettled, hEnds⟩ := ctx.createTransaction_settled req choices
  refine ⟨outcome, hEnds, ?_⟩
  rintro wtxNew nFeeRet rfl
  obtain ⟨change, hPays⟩ := hSettled
  exact hPays.valueExact_iff

end CreateContext

namespace Sample

open CreateContext

/-- The key of the store has to sign. -/
def payKeyScript : CScript := CScript.pushBytes [] (compressedKey 1) ++ [OP_CHECKSIG]

/-- A transaction with one output for the key. -/
def incomingTx : CTransaction :=
  { coinbase 1000 11 100 with
    vin := [⟨⟨5, 0⟩, [], UINT_MAX⟩]
    vout := [⟨3 * COIN, payKeyScript⟩] }

/-- A wallet with the key and the transaction. -/
def payContext : CreateContext Unit where
  prims := scriptPrims
  keystore := scriptStore []
  keys := ⟨fun script => if script = payKeyScript then .ISMINE_SPENDABLE else .ISMINE_NO, 0⟩
  view :=
    { isFinalTx := fun _ => true
      isTrusted := fun _ => true
      getBlocksToMaturity := fun _ => 0
      getDepthInMainChain := fun _ => 20
      fMasterNode := false
      nBestHeight := 10
      isLockedCoin := fun _ => false }
  wallet := (CWallet.empty false).insertTx (incomingTx.getHash prims)
    (CWalletTx.ofMerkleTx (CMerkleTx.ofTransaction incomingTx))
  before := fun o o' => o.n < o'.n
  isFromMe := fun _ => false
  nTransactionFee := 1000
  nDarksendRounds := 2

def payRequest (vecSend : List (CScript × ℤ)) : CreateRequest where
  vecSend := vecSend
  wtxNew := CWalletTx.ofMerkleTx (CMerkleTx.ofTransaction { incomingTx with vin := [], vout := [] })
  coinControl := none
  coin_type := .ALL_COINS
  useIX := false

def payChoices (_ : ℕ) : RoundChoice where
  shuffle _ := keepOrder
  position := 1
  reservedKey := some (keyHashScript 9)
  inputRounds _ := 0

/-- The first round of a request creates a transaction with such outputs. -/
def createsAtOnce (req : CreateRequest) (nValue : ℤ) (test : List CTxOut → Bool) : Bool :=
  match payContext.createRound req (payChoices 0) nValue 1000 with
  | .ok (.returned (.created wtxNew _)) => test wtxNew.vout
  | _ => false

theorem createsAtOnce_ends
    {vecSend : List (CScript × ℤ)} {nValue : ℤ} {test : List CTxOut → Bool}
    (hValue : requestedValue vecSend 0 = some nValue) (hAmounts : ¬(vecSend = [] ∨ nValue < 0))
    (hCreates : createsAtOnce (payRequest vecSend) nValue test = true) :
    ∃ wtxNew nFeeRet, payContext.Ends (payRequest vecSend) payChoices
      (.ok (.created wtxNew nFeeRet)) ∧ test wtxNew.vout = true := by
  unfold createsAtOnce at hCreates
  split at hCreates
  · next wtxNew nFeeRet hRound =>
      exact ⟨wtxNew, nFeeRet, ends_of_returned hValue hAmounts hRound, hCreates⟩
  · cases hCreates

/-- An ordinary payment is exact. -/
theorem payment_exact :
    ∃ wtxNew nFeeRet, payContext.Ends (payRequest [(keyHashScript 7, COIN)]) payChoices
        (.ok (.created wtxNew nFeeRet)) ∧
      payContext.ValueExact [(keyHashScript 7, COIN)] wtxNew.toCTransaction nFeeRet := by
  obtain ⟨wtxNew, nFeeRet, hCreated, -⟩ := @createsAtOnce_ends [(keyHashScript 7, COIN)] COIN
    (fun _ => true) (by decide +kernel) (by decide +kernel) (by decide +kernel)
  obtain ⟨outcome, hEnds, hExact⟩ :=
    createTransaction_exact_iff payContext (payRequest [(keyHashScript 7, COIN)]) payChoices
  refine ⟨wtxNew, nFeeRet, hCreated, (hExact wtxNew nFeeRet (hEnds.unique hCreated)).mpr ?_⟩
  decide +kernel

/-- An output of null data may have the amount that marks an empty one. -/
def negativeRequest : List (CScript × ℤ) := [(keyHashScript 7, COIN), ([OP_RETURN], -1)]

theorem negativeAmount_created :
    ¬∀ (CKey : Type) (ctx : CreateContext CKey) (req : CreateRequest)
      (choices : ℕ → RoundChoice), ∃ outcome, ctx.Ends req choices outcome ∧
        ∀ wtxNew nFeeRet, outcome = .ok (.created wtxNew nFeeRet) →
          ctx.ValueExact req.vecSend wtxNew.toCTransaction nFeeRet := by
  intro h
  obtain ⟨outcome, hEnds, hExact⟩ := h Unit payContext (payRequest negativeRequest) payChoices
  obtain ⟨wtxNew, nFeeRet, hCreated, hNegative⟩ := @createsAtOnce_ends negativeRequest (COIN - 1)
    (fun vout => vout.any fun txout => txout.nValue < 0) (by decide +kernel) (by decide +kernel)
    (by decide +kernel)
  have hNonneg := (hExact wtxNew nFeeRet (hEnds.unique hCreated)).nonneg
  obtain ⟨txout, hMem, hLess⟩ := List.any_eq_true.mp hNegative
  exact absurd (hNonneg txout hMem) (not_le.mpr (of_decide_eq_true hLess))

end Sample

end SocietyGold
