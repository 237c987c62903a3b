import SocietyGold.DarksendSession
import SocietyGold.Wallet

/-!
# The coins of the wallet

`AvailableCoins` lists the outputs of wallet transactions that are not marked as spent.  A
payment that the wallet sends marks its inputs.  A transaction that comes with a block is only
added to the wallet: the coins it spends stay on the list unless they were marked before.
-/

namespace SocietyGold

open Support

/-! ## What belongs to the wallet -/

inductive IsMineType
  | ISMINE_NO
  | ISMINE_WATCH_ONLY
  | ISMINE_SPENDABLE
  deriving DecidableEq, Repr

/-- A fixed set of keys, by the answers that `::IsMine` gives with it, and the least value of an
output that makes a transaction one of the wallet's. -/
structure WalletKeys where
  isMine : CScript → IsMineType
  nMinimumInputValue : ℤ

/-- `IsMine` of an output. -/
def WalletKeys.isMineOut (keys : WalletKeys) (txout : CTxOut) : Bool :=
  keys.isMine txout.scriptPubKey ≠ .ISMINE_NO

namespace CWallet

/-- The output that an input spends, if the wallet has it. -/
def spentBy (w : CWallet) (txin : CTxIn) : Option CTxOut :=
  (w.get txin.prevout.hash).bind fun prev => prev.vout[txin.prevout.n]?

section Ownership

variable (keys : WalletKeys)

/-- `IsMine` of an input. -/
def isMineIn (w : CWallet) (txin : CTxIn) : Bool := (w.spentBy txin).any keys.isMineOut

/-- `IsMine` of a transaction. -/
def isMineTx (tx : CTransaction) : Bool :=
  tx.vout.any fun txout =>
    keys.isMine txout.scriptPubKey ≠ .ISMINE_NO && keys.nMinimumInputValue ≤ txout.nValue

/-- `GetDebit` of an input, for all that is mine. -/
def debitOf (w : CWallet) (txin : CTxIn) : ℤ :=
  match (w.get txin.prevout.hash).bind fun prev => prev.vout[txin.prevout.n]? with
  | none => 0
  | some txout => if keys.isMine txout.scriptPubKey ≠ .ISMINE_NO then txout.nValue else 0

/-- `GetDebit` of a transaction. -/
def getDebit (w : CWallet) : List CTxIn → (nDebit : ℤ) → Checked ℤ
  | [], nDebit => .ok nDebit
  | txin :: vin, nDebit =>
      let nDebit := nDebit + w.debitOf keys txin
      if moneyRange nDebit then getDebit w vin nDebit else .error .uncaughtException

def isFromMe (w : CWallet) (tx : CTransaction) : Checked Bool := do
  let nDebit ← w.getDebit keys tx.vin 0
  .ok (0 < nDebit)

end Ownership

/-! ## Synchronizing -/

section Sync

variable (env : Env) (sizes : ElementSizes) (keys : WalletKeys)

/-- The part of `AddToWalletIfInvolvingMe` for a transaction that involves the wallet. -/
def addFromBlock (ctx : WalletContext) (tx : CTransaction)
    (pblock : Option (CachedBlock env.prims)) (w : CWallet) : Checked (Bool × CWallet) :=
  match pblock with
  | none =>
      w.addToWallet env.prims ctx (CWalletTx.ofMerkleTx (CMerkleTx.ofTransaction tx)) false
  | some pblock => do
      let merkle ← (CMerkleTx.ofTransaction tx).setMerkleBranch env sizes ctx.chain (some pblock)
      w.addToWallet env.prims ctx (CWalletTx.ofMerkleTx merkle.2) false

/-- `AddToWalletIfInvolvingMe` with `fUpdate`. -/
def addToWalletIfInvolvingMe (ctx : WalletContext) (tx : CTransaction)
    (pblock : Option (CachedBlock env.prims)) (w : CWallet) : Checked (Bool × CWallet) :=
  if tx.getHash env.prims ∈ w.mapWallet ∨ isMineTx keys tx = true then
    w.addFromBlock env sizes ctx tx pblock
  else do
    let fromMe ← w.isFromMe keys tx
    if fromMe then w.addFromBlock env sizes ctx tx pblock else .ok (false, w)

/-- A round of `DisableTransaction`. -/
def unmarkInput (txin : CTxIn) (w : CWallet) : CWallet :=
  match w.mapWallet.lookup txin.prevout.hash with
  | none => w
  | some prev =>
      match prev.wtx.vout[txin.prevout.n]? with
      | none => w
      | some txout =>
          if keys.isMine txout.scriptPubKey ≠ .ISMINE_NO then
            w.setTx txin.prevout.hash prev (prev.wtx.mark txin.prevout.n false)
          else w

def disableTransaction (tx : CTransaction) (w : CWallet) : Checked CWallet :=
  if !tx.isCoinStake then .ok w
  else do
    let fromMe ← w.isFromMe keys tx
    .ok (if fromMe then tx.vin.foldl (fun w txin => w.unmarkInput keys txin) w else w)

/-- `SyncTransaction`. -/
def syncTransaction (ctx : WalletContext) (tx : CTransaction)
    (pblock : Option (CachedBlock env.prims)) (fConnect : Bool) (w : CWallet) :
    Checked CWallet := do
  let added ← w.addToWalletIfInvolvingMe env sizes keys ctx tx pblock
  if !added.1 then .ok added.2
  else if !fConnect then
    if tx.isCoinStake then do
      let fromMe ← added.2.isFromMe keys tx
      if fromMe then added.2.disableTransaction keys tx else .ok added.2
    else .ok added.2
  else do
    let again ← added.2.addToWalletIfInvolvingMe env sizes keys ctx tx pblock
    .ok again.2

/-- The loop of `CommitTransaction` over the inputs; it ends early when `MarkSpent` throws. -/
def markInputs (adjustedTime : ℕ) : List CTxIn → CWallet → Bool × CWallet
  | [], w => (true, w)
  | txin :: vin, w =>
      let w := w.touch adjustedTime txin.prevout.hash
      match w.mapWallet.lookup txin.prevout.hash with
      | none => (false, w)
      | some coin =>
          if txin.prevout.n < coin.wtx.vout.length then
            markInputs adjustedTime vin
              (w.setTx txin.prevout.hash coin (coin.wtx.mark txin.prevout.n true))
          else (false, w)

/-- `CommitTransaction`.  A transaction that the memory pool takes comes back from there. -/
def commitTransaction (ctx : WalletContext) (wtxNew : CWalletTx) (fAccepted : Bool)
    (w : CWallet) : Checked CWallet := do
  let added ← w.addToWallet env.prims ctx wtxNew false
  let marked := added.2.markInputs ctx.adjustedTime wtxNew.vin
  if marked.1 && fAccepted then
    marked.2.syncTransaction env sizes keys ctx wtxNew.toCTransaction none true
  else .ok marked.2

end Sync

end CWallet

/-! ## Available coins -/

inductive AvailableCoinsType
  | ALL_COINS
  | ONLY_DENOMINATED
  | ONLY_NOT10000IFMN
  | ONLY_NONDENOMINATED_NOT10000IFMN
  deriving DecidableEq, Repr

/-- The arguments of `AvailableCoins`; of `coinControl` the set that is selected. -/
structure CoinRequest where
  fOnlyConfirmed : Bool
  setSelected : Option (Finset COutPoint)
  coin_type : AvailableCoinsType
  useIX : Bool

/-- What `AvailableCoins` learns elsewhere: about a transaction from the chain and the memory
pool, and the settings of the node. -/
structure CoinView where
  isFinalTx : CTransaction → Bool
  isTrusted : CWalletTx → Bool
  getBlocksToMaturity : CMerkleTx → ℤ
  getDepthInMainChain : CMerkleTx → ℤ
  fMasterNode : Bool
  /-- `pindexBest->nHeight`. -/
  nBestHeight : ℤ
  isLockedCoin : COutPoint → Bool

structure COutput where
  outpoint : COutPoint
  nDepth : ℤ
  fSpendable : Bool
  deriving DecidableEq

def isCollateralAmount (nInputAmount : ℤ) : Bool :=
  nInputAmount ≠ 0 && nInputAmount.tmod DARKSEND_COLLATERAL = 0 &&
    nInputAmount < DARKSEND_POOL_MAX && nInputAmount > DARKSEND_COLLATERAL

namespace CoinView

variable (view : CoinView) (request : CoinRequest) (keys : WalletKeys)

/-- The tests of a transaction. -/
def passesTx (wtx : CWalletTx) : Bool :=
  view.isFinalTx wtx.toCTransaction &&
    !(request.fOnlyConfirmed && !view.isTrusted wtx) &&
    !(wtx.isCoinBase && decide (view.getBlocksToMaturity wtx.toCMerkleTx > 0)) &&
    !(wtx.isCoinStake && decide (view.getBlocksToMaturity wtx.toCMerkleTx > 0)) &&
    !decide (view.getDepthInMainChain wtx.toCMerkleTx ≤ 0) &&
    !(request.useIX && decide (view.getDepthInMainChain wtx.toCMerkleTx < 100))

/-- `found` for an amount. -/
def passesType (nValue : ℤ) : Bool :=
  let isMNCollateral : Bool :=
    view.fMasterNode && nValue = getMNCollateral view.nBestHeight * COIN
  match request.coin_type with
  | .ONLY_DENOMINATED => nValue ∈ darkSendDenominations
  | .ONLY_NOT10000IFMN => !isMNCollateral
  | .ONLY_NONDENOMINATED_NOT10000IFMN =>
      !isCollateralAmount nValue && nValue ∉ darkSendDenominations && !isMNCollateral
  | .ALL_COINS => true

/-- The tests of an output, but for the mark. -/
def passesOutput (o : COutPoint) (txout : CTxOut) : Bool :=
  view.passesType request txout.nValue && keys.isMine txout.scriptPubKey ≠ .ISMINE_NO &&
    !view.isLockedCoin o && 0 < txout.nValue &&
    request.setSelected.elim true fun selected => selected = ∅ || o ∈ selected

/-- The coins of one transaction. -/
def coinsOf (hash : ℕ) (wtx : CWalletTx) : List COutput :=
  if view.passesTx request wtx then
    wtx.vout.zipIdx.filterMap fun out =>
      if !wtx.isMarked out.2 && view.passesOutput request keys ⟨hash, out.2⟩ out.1 then
        some ⟨⟨hash, out.2⟩, view.getDepthInMainChain wtx.toCMerkleTx,
          keys.isMine out.1.scriptPubKey = .ISMINE_SPENDABLE⟩
      else none
  else []

/-- `AvailableCoins`. -/
def availableCoins (w : CWallet) : List COutput :=
  w.mapWallet.inKeyOrder.flatMap fun e => view.coinsOf request keys e.1 e.2.wtx

end CoinView

/-! ## Offered outputs -/

/-- An output that the wallet owns and has not marked as spent. -/
def CWallet.Offers (keys : WalletKeys) (w : CWallet) (o : COutPoint) : Prop :=
  ∃ wtx txout, w.get o.hash = some wtx ∧ wtx.vout[o.n]? = some txout ∧
    keys.isMine txout.scriptPubKey ≠ .ISMINE_NO ∧ 0 < txout.nValue ∧ wtx.isMarked o.n = false

section Listed

variable {view : CoinView} {request : CoinRequest} {keys : WalletKeys}

theorem passesOutput_facts {o : COutPoint} {txout : CTxOut}
    (h : view.passesOutput request keys o txout = true) :
    keys.isMine txout.scriptPubKey ≠ .ISMINE_NO ∧ 0 < txout.nValue := by
  unfold CoinView.passesOutput at h
  simp only [Bool.and_eq_true, decide_eq_true_eq] at h
  exact ⟨h.1.1.1.2, h.1.2⟩

theorem mem_coinsOf_iff {hash : ℕ} {wtx : CWalletTx} {o : COutPoint} :
    (∃ coin ∈ view.coinsOf request keys hash wtx, coin.outpoint = o) ↔
      o.hash = hash ∧ view.passesTx request wtx = true ∧
        ∃ txout, wtx.vout[o.n]? = some txout ∧ wtx.isMarked o.n = false ∧
          view.passesOutput request keys o txout = true := by
  unfold CoinView.coinsOf
  split_ifs with hTx
  · constructor
    · rintro ⟨coin, hCoin, rfl⟩
      obtain ⟨⟨txout, i⟩, hOut, hSome⟩ := List.mem_filterMap.mp hCoin
      rw [List.mem_zipIdx_iff_getElem?] at hOut
      dsimp only at hOut hSome
      split_ifs at hSome with hPasses
      obtain rfl := Option.some.inj hSome
      rw [Bool.and_eq_true, Bool.not_eq_true'] at hPasses
      exact ⟨rfl, hTx, txout, hOut, hPasses.1, hPasses.2⟩
    · rintro ⟨rfl, _, txout, hOut, hMark, hPasses⟩
      refine ⟨⟨o, view.getDepthInMainChain wtx.toCMerkleTx,
        keys.isMine txout.scriptPubKey = .ISMINE_SPENDABLE⟩, ?_, rfl⟩
      refine List.mem_filterMap.mpr ⟨(txout, o.n), List.mem_zipIdx_iff_getElem?.mpr hOut, ?_⟩
      dsimp only
      rw [if_pos (by rw [hMark, hPasses]; rfl)]
  · constructor
    · rintro ⟨coin, hCoin, _⟩
      cases hCoin
    · rintro ⟨_, hPasses, _⟩
      exact absurd hPasses hTx

theorem mem_availableCoins_iff {w : CWallet} {o : COutPoint} :
    (∃ coin ∈ view.availableCoins request keys w, coin.outpoint = o) ↔
      ∃ wtx txout, w.get o.hash = some wtx ∧ view.passesTx request wtx = true ∧
        wtx.vout[o.n]? = some txout ∧ wtx.isMarked o.n = false ∧
          view.passesOutput request keys o txout = true := by
  unfold CoinView.availableCoins CWallet.get
  constructor
  · rintro ⟨coin, hCoin, hOutpoint⟩
    obtain ⟨⟨hash, entry⟩, hEntry, hCoin⟩ := List.mem_flatMap.mp hCoin
    obtain ⟨rfl, hTx, txout, hOut⟩ := mem_coinsOf_iff.mp ⟨coin, hCoin, hOutpoint⟩
    rw [Table.mem_inKeyOrder.mp hEntry]
    exact ⟨entry.wtx, txout, rfl, hTx, hOut⟩
  · rintro ⟨wtx, txout, hGet, hTx, hOut⟩
    obtain ⟨entry, hLookup, rfl⟩ := Option.map_eq_some_iff.mp hGet
    obtain ⟨coin, hCoin, hOutpoint⟩ := mem_coinsOf_iff.mpr ⟨rfl, hTx, txout, hOut⟩
    exact ⟨coin, List.mem_flatMap.mpr ⟨_, Table.mem_inKeyOrder.mpr hLookup, hCoin⟩, hOutpoint⟩

/-- Only offered outputs are listed. -/
theorem offers_of_mem_availableCoins
    {w : CWallet} {coin : COutput} (hCoin : coin ∈ view.availableCoins request keys w) :
    w.Offers keys coin.outpoint := by
  obtain ⟨wtx, txout, hGet, _, hOut, hMark, hPasses⟩ :=
    mem_availableCoins_iff.mp ⟨coin, hCoin, rfl⟩
  obtain ⟨hMine, hValue⟩ := passesOutput_facts hPasses
  exact ⟨wtx, txout, hGet, hOut, hMine, hValue, hMark⟩

end Listed

/-! ## Marks -/

namespace CWalletTx

theorem isMarked_mergeSpent {vfNewSpent vfSpent : List Bool} {n : ℕ}
    (h : vfSpent.getD n false = true) : (mergeSpent vfNewSpent vfSpent).getD n false = true := by
  induction vfNewSpent generalizing vfSpent n with
  | nil =>
      rw [mergeSpent]
      · exact h
      · intro _ _ _ _ hCons
        cases hCons
  | cons new vfNewSpent ih =>
      cases vfSpent with
      | nil => exact h
      | cons spent vfSpent =>
          cases n with
          | zero =>
              rw [List.getD_cons_zero] at h
              rw [mergeSpent, List.getD_cons_zero, h, Bool.or_true]
          | succ n =>
              rw [List.getD_cons_succ] at h
              rw [mergeSpent, List.getD_cons_succ]
              exact ih h

theorem length_resizedSpent (wtx : CWalletTx) : wtx.resizedSpent.length = wtx.vout.length := by
  simp [resizedSpent]

theorem getD_resizedSpent (wtx : CWalletTx) {n : ℕ} (hn : n < wtx.vout.length) :
    wtx.resizedSpent.getD n false = wtx.vfSpent.getD n false := by
  rw [List.getD_eq_getElem?_getD, List.getD_eq_getElem?_getD, resizedSpent,
    List.getElem?_take_of_lt hn]
  by_cases hInside : n < wtx.vfSpent.length
  · rw [List.getElem?_append_left hInside]
  · rw [List.getElem?_append_right (not_lt.mp hInside),
      List.getElem?_eq_none (not_lt.mp hInside), List.getElem?_replicate]
    split_ifs <;> rfl

/-- A mark changes that of one output. -/
theorem isMarked_mark (wtx : CWalletTx) (m : ℕ) (fSpent : Bool) {n : ℕ} (hn : n < wtx.vout.length) :
    (wtx.mark m fSpent).isMarked n = if n = m then fSpent else wtx.isMarked n := by
  unfold mark isMarked
  dsimp only
  by_cases hm : n = m
  · subst hm
    rw [if_pos rfl, List.getD_eq_getElem?_getD, List.getElem?_set_self]
    · rfl
    · rw [length_resizedSpent]
      exact hn
  · rw [if_neg hm, List.getD_eq_getElem?_getD, List.getElem?_set_ne (Ne.symm hm),
      ← List.getD_eq_getElem?_getD, getD_resizedSpent wtx hn]

end CWalletTx

/-! ## What offers an output -/

namespace CWallet

section Frames

variable {keys : WalletKeys} {w : CWallet} {hash : ℕ} {o : COutPoint}

theorem get_setTx (entry : WalletEntry) (wtx : CWalletTx) (h : ℕ) :
    (w.setTx hash entry wtx).get h = if h = hash then some wtx else w.get h := by
  unfold get setTx
  dsimp only
  rw [Table.lookup_insert_ite]
  split_ifs <;> rfl

theorem get_insertTx (wtx : CWalletTx) (h : ℕ) :
    (w.insertTx hash wtx).get h = if h = hash then some wtx else w.get h := by
  unfold get insertTx
  dsimp only
  rw [Table.lookup_insert_ite]
  split_ifs <;> rfl

theorem get_eq_none_iff : w.get hash = none ↔ hash ∉ w.mapWallet := by
  rw [get, Option.map_eq_none_iff, AList.lookup_eq_none]

/-- The transaction under a hash is set; if there was one before, it has the same outputs and
keeps its marks. -/
structure Updates (w w' : CWallet) (hash : ℕ) (wtx : CWalletTx) : Prop where
  get : ∀ h, w'.get h = if h = hash then some wtx else w.get h
  vout : ∀ old, w.get hash = some old → wtx.vout = old.vout
  marks : ∀ old, w.get hash = some old →
    ∀ n, n < wtx.vout.length → old.isMarked n = true → wtx.isMarked n = true

theorem updates_setTx
    {entry : WalletEntry} (wtx : CWalletTx) (hLookup : w.mapWallet.lookup hash = some entry)
    (hOut : wtx.vout = entry.wtx.vout)
    (hMarks : ∀ n, n < wtx.vout.length → entry.wtx.isMarked n = true → wtx.isMarked n = true) :
    Updates w (w.setTx hash entry wtx) hash wtx := by
  have hGet : w.get hash = some entry.wtx := by
    rw [CWallet.get, hLookup]
    rfl
  refine ⟨get_setTx entry wtx, ?_, ?_⟩
  · intro old hOld
    obtain rfl := Option.some.inj (hGet.symm.trans hOld)
    exact hOut
  · intro old hOld
    obtain rfl := Option.some.inj (hGet.symm.trans hOld)
    exact hMarks

/-- Only a transaction that was not there offers something new. -/
theorem Offers.of_updates
    {w' : CWallet} {wtx : CWalletTx} (hUpdates : Updates w w' hash wtx) (h : w'.Offers keys o) :
    w.Offers keys o ∨ (w.get hash = none ∧ o.hash = hash) := by
  obtain ⟨found, txout, hGet, hTxout, hMine, hValue, hMark⟩ := h
  rw [hUpdates.get] at hGet
  split_ifs at hGet with hHash
  · obtain rfl := Option.some.inj hGet
    cases hOld : w.get hash with
    | none => exact Or.inr ⟨rfl, hHash⟩
    | some old =>
        refine Or.inl ⟨old, txout, hHash ▸ hOld, hUpdates.vout old hOld ▸ hTxout, hMine, hValue, ?_⟩
        have hn := (List.getElem?_eq_some_iff.mp hTxout).1
        by_contra hMarked
        rw [hUpdates.marks old hOld o.n hn (Bool.not_eq_false _ ▸ hMarked)] at hMark
        cases hMark
  · exact Or.inl ⟨found, txout, hGet, hTxout, hMine, hValue, hMark⟩

/-- An entry that is created by an access has no outputs. -/
theorem Offers.of_touch
    {adjustedTime : ℕ} (h : (w.touch adjustedTime hash).Offers keys o) : w.Offers keys o := by
  unfold touch at h
  cases hLookup : w.mapWallet.lookup hash with
  | some entry =>
      rw [hLookup] at h
      exact h
  | none =>
      rw [hLookup] at h
      obtain ⟨wtx, txout, hGet, hTxout, hRest⟩ := h
      rw [get_insertTx] at hGet
      split_ifs at hGet with hHash
      · obtain rfl := Option.some.inj hGet
        cases hTxout
      · exact ⟨wtx, txout, hGet, hTxout, hRest⟩

/-- The marks of a payment offer nothing new. -/
theorem Offers.of_markInputs
    {adjustedTime : ℕ} {vin : List CTxIn}
    (h : (w.markInputs adjustedTime vin).2.Offers keys o) : w.Offers keys o := by
  induction vin generalizing w with
  | nil => exact h
  | cons txin vin ih =>
      rw [markInputs] at h
      split at h
      · exact h.of_touch
      · next coin hLookup =>
          split_ifs at h with hInside
          · have hMarks : ∀ n, n < coin.wtx.vout.length → coin.wtx.isMarked n = true →
                (coin.wtx.mark txin.prevout.n true).isMarked n = true := by
              intro n hn hOld
              rw [CWalletTx.isMarked_mark coin.wtx _ _ hn]
              split_ifs
              · rfl
              · exact hOld
            have hUpdates := updates_setTx (coin.wtx.mark txin.prevout.n true) hLookup rfl hMarks
            rcases (ih h).of_updates hUpdates with hOld | ⟨hNone, _⟩
            · exact hOld.of_touch
            · rw [get_eq_none_iff, Table.not_mem_iff_lookup, hLookup] at hNone
              cases hNone
          · exact h.of_touch

theorem addToWallet_updates
    {prims : Primitives} {ctx : WalletContext} {wtxIn : CWalletTx} {added : Bool × CWallet}
    (hAdded : w.addToWallet prims ctx wtxIn false = .ok added) :
    ∃ wtx, Updates w added.2 (wtxIn.getHash prims) wtx := by
  generalize hHash : wtxIn.getHash prims = hash
  unfold addToWallet at hAdded
  rw [hHash] at hAdded
  dsimp only at hAdded
  rw [if_neg Bool.false_ne_true] at hAdded
  cases hLookup : w.mapWallet.lookup hash with
  | none =>
      rw [hLookup] at hAdded
      have hNone : w.get hash = none := get_eq_none_iff.mpr (Table.not_mem_iff_lookup.mpr hLookup)
      unfold addNew at hAdded
      obtain ⟨nTimeSmart, _, hAdded⟩ := bind_eq_ok.mp hAdded
      obtain rfl := Except.ok.inj hAdded
      refine ⟨{ w.newTx ctx wtxIn with nTimeSmart := nTimeSmart }, ?_, fun old hOld => ?_,
        fun old hOld => ?_⟩
      · intro h
        have hInsert := @get_insertTx w hash (w.newTx ctx wtxIn) h
        rw [get_setTx]
        split_ifs with hNew
        · rfl
        · rw [if_neg hNew] at hInsert
          exact hInsert
      · rw [hNone] at hOld
        cases hOld
      · rw [hNone] at hOld
        cases hOld
  | some entry =>
      rw [hLookup] at hAdded
      obtain rfl := Except.ok.inj hAdded
      refine ⟨_, updates_setTx (mergeTx wtxIn entry.wtx).2 hLookup rfl ?_⟩
      intro n _ hOld
      exact CWalletTx.isMarked_mergeSpent hOld

variable {env : Env} {sizes : ElementSizes} {ctx : WalletContext} {tx : CTransaction}
  {pblock : Option (CachedBlock env.prims)}

theorem setMerkleBranch_keeps
    {this this' : CMerkleTx} {depth : ℤ} {block : CachedBlock env.prims}
    (h : this.setMerkleBranch env sizes ctx.chain (some block) = .ok (depth, this')) :
    this'.toCTransaction = this.toCTransaction := by
  unfold CMerkleTx.setMerkleBranch at h
  obtain ⟨⟨found, filled⟩, hFilled, h⟩ := bind_eq_ok.mp h
  have hKeeps : filled.toCTransaction = this.toCTransaction := by
    unfold CMerkleTx.fillBranch at hFilled
    dsimp only at hFilled
    split_ifs at hFilled
    · obtain ⟨-, rfl⟩ := Prod.ext_iff.mp (Except.ok.inj hFilled)
      rfl
    · obtain ⟨vMerkleBranch, _, hFilled⟩ := bind_eq_ok.mp hFilled
      obtain ⟨-, rfl⟩ := Prod.ext_iff.mp (Except.ok.inj hFilled)
      rfl
  dsimp only at h
  split_ifs at h
  · obtain ⟨_, _, h⟩ := bind_eq_ok.mp h
    obtain ⟨-, rfl⟩ := Prod.ext_iff.mp (Except.ok.inj h)
    exact hKeeps
  · obtain ⟨-, rfl⟩ := Prod.ext_iff.mp (Except.ok.inj h)
    exact hKeeps

theorem addFromBlock_cases
    {added : Bool × CWallet} (hAdded : w.addFromBlock env sizes ctx tx pblock = .ok added) :
    ∃ wtxIn : CWalletTx, wtxIn.toCTransaction = tx ∧
      w.addToWallet env.prims ctx wtxIn false = .ok added := by
  unfold addFromBlock at hAdded
  cases pblock with
  | none => exact ⟨_, rfl, hAdded⟩
  | some pblock =>
      obtain ⟨merkle, hMerkle, hAdded⟩ := bind_eq_ok.mp hAdded
      exact ⟨CWalletTx.ofMerkleTx merkle.2, setMerkleBranch_keeps hMerkle, hAdded⟩

theorem addFromBlock_updates
    {added : Bool × CWallet} (hAdded : w.addFromBlock env sizes ctx tx pblock = .ok added) :
    ∃ wtx, Updates w added.2 (tx.getHash env.prims) wtx := by
  obtain ⟨wtxIn, rfl, hIn⟩ := addFromBlock_cases hAdded
  exact addToWallet_updates hIn

/-- The wallet stays as it is, or the transaction is added. -/
theorem addToWalletIfInvolvingMe_cases
    {added : Bool × CWallet}
    (hAdded : w.addToWalletIfInvolvingMe env sizes keys ctx tx pblock = .ok added) :
    added = (false, w) ∨ ∃ wtx, Updates w added.2 (tx.getHash env.prims) wtx := by
  unfold addToWalletIfInvolvingMe at hAdded
  split_ifs at hAdded with hInvolved
  · exact Or.inr (addFromBlock_updates hAdded)
  · obtain ⟨fromMe, _, hAdded⟩ := bind_eq_ok.mp hAdded
    split_ifs at hAdded with hFromMe
    · exact Or.inr (addFromBlock_updates hAdded)
    · exact Or.inl (Except.ok.inj hAdded).symm

/-- A transaction that is synchronized offers at most its own outputs, if it was not there. -/
theorem Offers.of_syncTransaction
    {w' : CWallet}
    (hSynced : w.syncTransaction env sizes keys ctx tx pblock true = .ok w')
    (h : w'.Offers keys o) :
    w.Offers keys o ∨ (w.get (tx.getHash env.prims) = none ∧ o.hash = tx.getHash env.prims) := by
  obtain ⟨added, hAdded, hSynced⟩ := bind_eq_ok.mp hSynced
  rcases addToWalletIfInvolvingMe_cases hAdded with rfl | ⟨wtx, hUpdates⟩
  · obtain rfl := Except.ok.inj hSynced
    exact Or.inl h
  · rw [Bool.not_true, if_neg Bool.false_ne_true] at hSynced
    split_ifs at hSynced with hFailed
    · obtain rfl := Except.ok.inj hSynced
      exact h.of_updates hUpdates
    · obtain ⟨again, hAgain, hSynced⟩ := bind_eq_ok.mp hSynced
      obtain rfl := Except.ok.inj hSynced
      rcases addToWalletIfInvolvingMe_cases hAgain with rfl | ⟨wtx', hUpdates'⟩
      · exact h.of_updates hUpdates
      · rcases h.of_updates hUpdates' with h | ⟨hNone, _⟩
        · exact h.of_updates hUpdates
        · rw [hUpdates.get, if_pos rfl] at hNone
          cases hNone

end Frames

end CWallet

end SocietyGold
