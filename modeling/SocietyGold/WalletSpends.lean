import SocietyGold.MemPool
import SocietyGold.WalletCoins

/-!
# Coins that the chain has spent

The wallet sees the transactions of the blocks that are connected, and sends payments of its
own.  What the chain spends is off the list of coins as long as every transaction of a block
spends only outputs that are marked already or that the wallet does not own.
-/

namespace SocietyGold

open Support

/-! ## Runs -/

/-- In a chain a transaction comes before those that spend its outputs. -/
structure InChainOrder (prims : Primitives) (txs : List CTransaction) : Prop where
  later : txs.Pairwise fun tx later => ∀ txin ∈ tx.vin, txin.prevout.hash ≠ later.getHash prims
  self : ∀ tx ∈ txs, ∀ txin ∈ tx.vin, txin.prevout.hash ≠ tx.getHash prims

theorem InChainOrder.of_append
    {prims : Primitives} {txs txs' : List CTransaction} (h : InChainOrder prims (txs ++ txs')) :
    InChainOrder prims txs where
  later := (List.pairwise_append.mp h.later).1
  self tx hTx := h.self tx (List.mem_append_left txs' hTx)

theorem InChainOrder.last
    {prims : Primitives} {txs : List CTransaction} {tx : CTransaction}
    (h : InChainOrder prims (txs ++ [tx])) :
    ∀ tx' ∈ txs ++ [tx], ∀ txin ∈ tx'.vin, txin.prevout.hash ≠ tx.getHash prims := by
  intro tx' hTx'
  rcases List.mem_append.mp hTx' with hEarlier | hSelf
  · exact (List.pairwise_append.mp h.later).2.2 tx' hEarlier tx (List.mem_singleton.mpr rfl)
  · obtain rfl := List.mem_singleton.mp hSelf
    exact h.self tx' hTx'

section Runs

variable {env : Env}

/-- A transaction of a block that is connected, or a payment. -/
inductive WalletEvent (env : Env)
  | connect (ctx : WalletContext) (tx : CTransaction) (block : CachedBlock env.prims)
  | commit (ctx : WalletContext) (wtxNew : CWalletTx) (fAccepted : Bool)

namespace WalletEvent

def step (sizes : ElementSizes) (keys : WalletKeys) :
    WalletEvent env → CWallet → Checked CWallet
  | .connect ctx tx block, w => w.syncTransaction env sizes keys ctx tx (some block) true
  | .commit ctx wtxNew fAccepted, w => w.commitTransaction env sizes keys ctx wtxNew fAccepted

def connectedTx : WalletEvent env → Option CTransaction
  | .connect _ tx _ => some tx
  | .commit _ _ _ => none

/-- The transactions of the best chain that the wallet has seen. -/
def connected (events : List (WalletEvent env)) : List CTransaction :=
  events.filterMap connectedTx

theorem connected_append (events events' : List (WalletEvent env)) :
    connected (events ++ events') = connected events ++ connected events' :=
  List.filterMap_append

/-- A step after which the chain has spent no offered output, if that was so before: a connected
transaction spends nothing that the wallet offers, and a payment is known, or the chain has not
spent its outputs. -/
def SpendsUnoffered (keys : WalletKeys) (past : List (WalletEvent env)) (w : CWallet) :
    WalletEvent env → Prop
  | .connect _ tx _ => ∀ txin ∈ tx.vin, ¬w.Offers keys txin.prevout
  | .commit _ wtxNew _ => wtxNew.getHash env.prims ∈ w.mapWallet ∨
      ∀ tx ∈ connected past, ∀ txin ∈ tx.vin, txin.prevout.hash ≠ wtxNew.getHash env.prims

end WalletEvent

end Runs

/-! ## Payments -/

namespace CWallet

section Payments

variable {env : Env} {sizes : ElementSizes} {keys : WalletKeys} {w w' : CWallet} {o : COutPoint}

theorem Updates.mem {hash : ℕ} {wtx : CWalletTx} (hUpdates : Updates w w' hash wtx) :
    hash ∈ w'.mapWallet := by
  by_contra hAbsent
  have hGet := get_eq_none_iff.mpr hAbsent
  rw [hUpdates.get, if_pos rfl] at hGet
  cases hGet

theorem mem_markInputs
    {adjustedTime : ℕ} {vin : List CTxIn} {hash : ℕ} (hMem : hash ∈ w.mapWallet) :
    hash ∈ (w.markInputs adjustedTime vin).2.mapWallet := by
  have hTouch : ∀ {w : CWallet} {h : ℕ}, hash ∈ w.mapWallet →
      hash ∈ (w.touch adjustedTime h).mapWallet := by
    intro w h hMem
    unfold touch
    split
    · exact (AList.mem_insert _).mpr (Or.inr hMem)
    · exact hMem
  induction vin generalizing w with
  | nil => exact hMem
  | cons txin vin ih =>
      rw [markInputs]
      split
      · exact hTouch hMem
      · split_ifs
        · exact ih ((AList.mem_insert _).mpr (Or.inr (hTouch hMem)))
        · exact hTouch hMem

/-- A payment offers at most its own outputs, if it was not there. -/
theorem Offers.of_commitTransaction
    {ctx : WalletContext} {wtxNew : CWalletTx} {fAccepted : Bool}
    (hCommitted : w.commitTransaction env sizes keys ctx wtxNew fAccepted = .ok w')
    (h : w'.Offers keys o) :
    w.Offers keys o ∨
      (w.get (wtxNew.getHash env.prims) = none ∧ o.hash = wtxNew.getHash env.prims) := by
  obtain ⟨added, hAdded, hCommitted⟩ := bind_eq_ok.mp hCommitted
  obtain ⟨wtx, hUpdates⟩ := addToWallet_updates hAdded
  have hMarked : (added.2.markInputs ctx.adjustedTime wtxNew.vin).2.Offers keys o →
      w.Offers keys o ∨
        (w.get (wtxNew.getHash env.prims) = none ∧ o.hash = wtxNew.getHash env.prims) :=
    fun h => h.of_markInputs.of_updates hUpdates
  dsimp only at hCommitted
  split_ifs at hCommitted with hAccepted
  · rcases Offers.of_syncTransaction hCommitted h with h | ⟨hNone, _⟩
    · exact hMarked h
    · exact absurd (mem_markInputs hUpdates.mem) (get_eq_none_iff.mp hNone)
  · obtain rfl := Except.ok.inj hCommitted
    exact hMarked h

end Payments

/-! ## Coinstakes that are disconnected -/

section Disconnect

variable {env : Env} {sizes : ElementSizes} {keys : WalletKeys} {w w' : CWallet} {o : COutPoint}

/-- If the wallet owns the output, it is not marked as spent. -/
def Unmarked (keys : WalletKeys) (w : CWallet) (o : COutPoint) : Prop :=
  ∀ wtx txout, w.get o.hash = some wtx → wtx.vout[o.n]? = some txout →
    keys.isMine txout.scriptPubKey ≠ .ISMINE_NO → wtx.isMarked o.n = false

theorem Unmarked.unmarkInput (h : w.Unmarked keys o) (txin : CTxIn) :
    (w.unmarkInput keys txin).Unmarked keys o := by
  unfold CWallet.unmarkInput
  split
  · exact h
  · next prev hLookup =>
      split
      · exact h
      · split_ifs
        · intro wtx txout hGet hTxout hMine
          rw [get_setTx] at hGet
          split_ifs at hGet with hHash
          · obtain rfl := Option.some.inj hGet
            have hn := (List.getElem?_eq_some_iff.mp hTxout).1
            have hOld : w.get o.hash = some prev.wtx := by
              rw [hHash, get, hLookup]
              rfl
            rw [CWalletTx.isMarked_mark prev.wtx _ _ hn]
            split_ifs
            · rfl
            · exact h prev.wtx txout hOld hTxout hMine
          · exact h wtx txout hGet hTxout hMine
        · exact h

theorem unmarked_unmarkInput (txin : CTxIn) :
    (w.unmarkInput keys txin).Unmarked keys txin.prevout := by
  intro wtx txout hGet hTxout hMine
  unfold CWallet.unmarkInput at hGet
  split at hGet
  · next hLookup =>
      rw [get, hLookup] at hGet
      cases hGet
  · next prev hLookup =>
      have hPrev : w.get txin.prevout.hash = some prev.wtx := by
        rw [get, hLookup]
        rfl
      split at hGet
      · next hNone =>
          obtain rfl := Option.some.inj (hPrev.symm.trans hGet)
          rw [hNone] at hTxout
          cases hTxout
      · next found hFound =>
          split_ifs at hGet with hOwned
          · rw [get_setTx, if_pos rfl] at hGet
            obtain rfl := Option.some.inj hGet
            have hn := (List.getElem?_eq_some_iff.mp hTxout).1
            rw [CWalletTx.isMarked_mark prev.wtx _ _ hn, if_pos rfl]
          · obtain rfl := Option.some.inj (hPrev.symm.trans hGet)
            obtain rfl := Option.some.inj (hFound.symm.trans hTxout)
            exact absurd hMine hOwned

theorem unmarked_unmarkInputs
    {vin : List CTxIn} {txin : CTxIn} (hTxin : txin ∈ vin) :
    (vin.foldl (fun w txin => w.unmarkInput keys txin) w).Unmarked keys txin.prevout := by
  have hKeeps : ∀ (vin : List CTxIn) {w : CWallet} {o : COutPoint}, w.Unmarked keys o →
      (vin.foldl (fun w txin => w.unmarkInput keys txin) w).Unmarked keys o := by
    intro vin
    induction vin with
    | nil => exact fun h => h
    | cons first vin ih => exact fun h => ih (h.unmarkInput first)
  induction vin generalizing w with
  | nil => cases hTxin
  | cons first vin ih =>
      rcases List.mem_cons.mp hTxin with rfl | hTxin
      · exact hKeeps vin (unmarked_unmarkInput txin)
      · exact ih hTxin

theorem getDebit_congr
    {vin : List CTxIn} (hSame : ∀ txin ∈ vin, w'.get txin.prevout.hash = w.get txin.prevout.hash)
    (nDebit : ℤ) : w'.getDebit keys vin nDebit = w.getDebit keys vin nDebit := by
  induction vin generalizing nDebit with
  | nil => rfl
  | cons txin vin ih =>
      have hDebit : w'.debitOf keys txin = w.debitOf keys txin := by
        unfold debitOf
        rw [hSame txin List.mem_cons_self]
      rw [getDebit, getDebit, hDebit,
        ih fun txin hTxin => hSame txin (List.mem_cons_of_mem _ hTxin)]

theorem addToWallet_written
    {prims : Primitives} {ctx : WalletContext} {wtxIn : CWalletTx} {added : Bool × CWallet}
    (hWritten : ctx.fWritten = true)
    (hAdded : w.addToWallet prims ctx wtxIn false = .ok added) : added.1 = true := by
  unfold addToWallet at hAdded
  dsimp only at hAdded
  rw [if_neg Bool.false_ne_true] at hAdded
  split at hAdded
  · obtain ⟨nTimeSmart, _, hAdded⟩ := bind_eq_ok.mp hAdded
    obtain rfl := Except.ok.inj hAdded
    exact hWritten
  · obtain rfl := Except.ok.inj hAdded
    dsimp only
    rw [hWritten, Bool.or_true]

/-- When a coinstake of the wallet is disconnected, its inputs lose their marks. -/
theorem unmarked_of_disconnect
    {ctx : WalletContext} {tx : CTransaction} {pblock : Option (CachedBlock env.prims)}
    (hStake : tx.isCoinStake = true) (hFromMe : w.isFromMe keys tx = .ok true)
    (hOrder : ∀ txin ∈ tx.vin, txin.prevout.hash ≠ tx.getHash env.prims)
    (hWritten : ctx.fWritten = true)
    (hSynced : w.syncTransaction env sizes keys ctx tx pblock false = .ok w') :
    ∀ txin ∈ tx.vin, w'.Unmarked keys txin.prevout := by
  obtain ⟨added, hAdded, hSynced⟩ := bind_eq_ok.mp hSynced
  have hFromBlock : w.addFromBlock env sizes ctx tx pblock = .ok added := by
    unfold addToWalletIfInvolvingMe at hAdded
    split_ifs at hAdded
    · exact hAdded
    · rw [hFromMe, ok_bind, if_pos rfl] at hAdded
      exact hAdded
  obtain ⟨wtx, hUpdates⟩ := addFromBlock_updates hFromBlock
  have hTrue : added.1 = true := by
    obtain ⟨wtxIn, _, hAdded⟩ := addFromBlock_cases hFromBlock
    exact addToWallet_written hWritten hAdded
  have hStill : added.2.isFromMe keys tx = .ok true := by
    rw [← hFromMe]
    unfold isFromMe
    rw [getDebit_congr]
    intro txin hTxin
    rw [hUpdates.get, if_neg (hOrder txin hTxin)]
  rw [hTrue] at hSynced
  simp only [Bool.not_true, Bool.not_false, Bool.false_eq_true, if_false, if_true, hStake,
    hStill, ok_bind] at hSynced
  unfold disableTransaction at hSynced
  rw [hStake, Bool.not_true, if_neg Bool.false_ne_true, hStill, ok_bind, if_pos rfl] at hSynced
  obtain rfl := Except.ok.inj hSynced
  intro txin hTxin
  exact unmarked_unmarkInputs hTxin

end Disconnect

end CWallet

/-! ## The chain spends no offered output -/

section Invariant

variable {env : Env} {sizes : ElementSizes} {keys : WalletKeys}
  {events : List (WalletEvent env)} {w : CWallet}

open WalletEvent

theorem not_offers_of_run
    {fFileBacked : Bool} (hOrder : InChainOrder env.prims (connected events))
    (hMeets : ∀ past e rest u, events = past ++ e :: rest →
      runEvents (WalletEvent.step sizes keys) past (CWallet.empty fFileBacked) = .ok u →
        e.SpendsUnoffered keys past u)
    (hRun : runEvents (WalletEvent.step sizes keys) events (CWallet.empty fFileBacked) = .ok w) :
    ∀ tx ∈ connected events, ∀ txin ∈ tx.vin, ¬w.Offers keys txin.prevout := by
  induction events using List.reverseRecOn generalizing w with
  | nil =>
      intro tx hTx
      cases hTx
  | append_singleton past e ih =>
      obtain ⟨u, hPast, hStep⟩ := runEvents_concat_eq_ok.mp hRun
      rw [connected_append] at hOrder
      have hBefore := ih hOrder.of_append
        (fun past' e' rest u' hSplit => hMeets past' e' (rest ++ [e]) u' (by simp [hSplit])) hPast
      have hMeetsLast := hMeets past e [] u rfl hPast
      intro tx hTx txin hTxin hOffers
      rw [connected_append] at hTx
      cases e with
      | connect ctx tx₀ block =>
          rcases CWallet.Offers.of_syncTransaction hStep hOffers with hOld | ⟨_, hHash⟩
          · rcases List.mem_append.mp hTx with hTx | hTx
            · exact hBefore tx hTx txin hTxin hOld
            · obtain rfl : tx = tx₀ := List.mem_singleton.mp hTx
              exact hMeetsLast txin hTxin hOld
          · exact hOrder.last tx hTx txin hTxin hHash
      | commit ctx wtxNew fAccepted =>
          have hTx : tx ∈ connected past := (List.append_nil (connected past)) ▸ hTx
          rcases CWallet.Offers.of_commitTransaction hStep hOffers with hOld | ⟨hNone, hHash⟩
          · exact hBefore tx hTx txin hTxin hOld
          · rcases hMeetsLast with hKnown | hUnspent
            · exact CWallet.get_eq_none_iff.mp hNone hKnown
            · exact hUnspent tx hTx txin hTxin hHash

end Invariant

/-! ## A coin that another copy of the wallet has spent -/

namespace Sample

/-- The wallet owns what the script `OP_1` locks. -/
def walletKeys : WalletKeys where
  isMine script := if script = [0x51] then .ISMINE_SPENDABLE else .ISMINE_NO
  nMinimumInputValue := 0

def fundingBlock : CBlock := sealed 500 1000 [coinbase 1000 11 100, firstPayment]

def foreignBlock : CBlock :=
  sealed (fundingBlock.getHash prims) 1060 [coinbase 1060 12 100, nextPayment]

def connectTx (block : CBlock) (tx : CTransaction) : WalletEvent (env 900) :=
  .connect ⟨900, emptyState, true⟩ tx ⟨block, ⟨[], Or.inl rfl⟩⟩

/-- Two blocks; the second one has a payment that this wallet has not sent. -/
def foreignSpend : List (WalletEvent (env 900)) :=
  [connectTx fundingBlock (coinbase 1000 11 100), connectTx fundingBlock firstPayment,
    connectTx foreignBlock (coinbase 1060 12 100), connectTx foreignBlock nextPayment]

/-- Payments are two blocks deep, and coinbases not yet mature. -/
def coinView : CoinView where
  isFinalTx _ := true
  isTrusted _ := true
  getBlocksToMaturity tx := if tx.isCoinBase then 10 else 0
  getDepthInMainChain _ := 2
  fMasterNode := false
  nBestHeight := 12
  isLockedCoin _ := false

def allCoins : CoinRequest := ⟨true, none, .ALL_COINS, false⟩

end Sample

end SocietyGold
