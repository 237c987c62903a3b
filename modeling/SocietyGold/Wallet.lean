import SocietyGold.MerkleProofs
import SocietyGold.Support.Trace

/-!
# The transactions of the wallet

`mapWallet` holds the transactions that concern the wallet.  Beside it the wallet keeps the
order in which they came, as pointers into the map, and `mapTxSpends`, which says for an
outpoint which of the transactions spend it.
-/

namespace SocietyGold

open Support

/-! ## Wallet transactions -/

/-- A transaction with what only its owner cares about.  Amounts that are cached are left
out. -/
structure CWalletTx extends CMerkleTx where
  mapValue : List (String × String)
  vOrderForm : List (String × String)
  nTimeReceived : ℕ
  nTimeSmart : ℕ
  fFromMe : Bool
  strFromAccount : String
  /-- Which outputs are already spent. -/
  vfSpent : List Bool
  nOrderPos : ℤ
  deriving DecidableEq, Repr

namespace CWalletTx

/-- `Init`. -/
def ofMerkleTx (tx : CMerkleTx) : CWalletTx := ⟨tx, [], [], 0, 0, false, "", [], -1⟩

/-- The transaction that `mapWallet[hash]` creates. -/
def null (adjustedTime : ℕ) : CWalletTx :=
  ofMerkleTx (CMerkleTx.ofTransaction (CTransaction.null adjustedTime))

/-- `UpdateSpent`: new marks are taken over, as far as the vector reaches. -/
def mergeSpent : (vfNewSpent vfSpent : List Bool) → List Bool
  | new :: vfNewSpent, spent :: vfSpent => (new || spent) :: mergeSpent vfNewSpent vfSpent
  | _, vfSpent => vfSpent

/-- `vfSpent.resize(vout.size())`. -/
def resizedSpent (wtx : CWalletTx) : List Bool :=
  (wtx.vfSpent ++ List.replicate wtx.vout.length false).take wtx.vout.length

/-- `MarkSpent` and `MarkUnspent`, for an output that exists; both throw for others. -/
def mark (wtx : CWalletTx) (nOut : ℕ) (fSpent : Bool) : CWalletTx :=
  { wtx with vfSpent := wtx.resizedSpent.set nOut fSpent }

/-- `CWalletTx::IsSpent`, for an output that exists. -/
def isMarked (wtx : CWalletTx) (nOut : ℕ) : Bool := wtx.vfSpent.getD nOut false

end CWalletTx

/-! ## The wallet -/

/-- A node of `mapWallet`, at its address. -/
structure WalletEntry where
  address : ℕ
  wtx : CWalletTx
  deriving DecidableEq, Repr

/-- What an element of `wtxOrdered` points to. -/
inductive TxPair
  | tx (address : ℕ)
  | accounting (nTime : ℤ)
  deriving DecidableEq, Repr

structure CWallet where
  fFileBacked : Bool
  mapWallet : Table ℕ WalletEntry
  /-- The address of the next node. -/
  nextAddress : ℕ
  wtxOrdered : List (ℤ × TxPair)
  mapTxSpends : List (COutPoint × ℕ)
  nOrderPosNext : ℤ

/-- What `AddToWallet` takes from outside. -/
structure WalletContext where
  /-- `GetAdjustedTime()`. -/
  adjustedTime : ℕ
  chain : ChainState
  /-- What `WriteToDisk` returns. -/
  fWritten : Bool

namespace CWallet

def empty (fFileBacked : Bool) : CWallet := ⟨fFileBacked, ∅, 0, [], [], 0⟩

/-- The transaction with a hash. -/
def get (w : CWallet) (hash : ℕ) : Option CWalletTx := (w.mapWallet.lookup hash).map (·.wtx)

/-- The transaction at an address, if its node is still there. -/
def atAddress (w : CWallet) (address : ℕ) : Option CWalletTx :=
  (w.mapWallet.entries.find? fun e => e.2.address = address).map fun e => e.2.wtx

/-- A new node. -/
def insertTx (w : CWallet) (hash : ℕ) (wtx : CWalletTx) : CWallet :=
  { w with
    mapWallet := w.mapWallet.insert hash ⟨w.nextAddress, wtx⟩
    nextAddress := w.nextAddress + 1 }

/-- An assignment to the transaction of a node. -/
def setTx (w : CWallet) (hash : ℕ) (entry : WalletEntry) (wtx : CWalletTx) : CWallet :=
  { w with mapWallet := w.mapWallet.insert hash { entry with wtx := wtx } }

/-- `mapWallet[hash]`, which creates the node that it does not find. -/
def touch (adjustedTime hash : ℕ) (w : CWallet) : CWallet :=
  match w.mapWallet.lookup hash with
  | none => w.insertTx hash (CWalletTx.null adjustedTime)
  | some _ => w

theorem touch_of_mem (adjustedTime : ℕ) {w : CWallet} {hash : ℕ} (hMem : hash ∈ w.mapWallet) :
    w.touch adjustedTime hash = w := by
  obtain ⟨entry, hLookup⟩ := Table.mem_iff_lookup.mp hMem
  unfold touch
  rw [hLookup]

/-- `mapWallet[hash] = wtx`. -/
def assign (w : CWallet) (hash : ℕ) (wtx : CWalletTx) : CWallet :=
  match w.mapWallet.lookup hash with
  | none => w.insertTx hash wtx
  | some entry => w.setTx hash entry wtx

/-- `wtxOrdered.insert`: after the elements with the same key. -/
def insertOrdered (w : CWallet) (nOrderPos : ℤ) (pair : TxPair) : CWallet :=
  { w with
    wtxOrdered := w.wtxOrdered.takeWhile (·.1 ≤ nOrderPos) ++
      (nOrderPos, pair) :: w.wtxOrdered.dropWhile (·.1 ≤ nOrderPos) }

/-! ## The index of spends -/

def insertSpends (w : CWallet) (spends : List (COutPoint × ℕ)) : CWallet :=
  { w with mapTxSpends := w.mapTxSpends ++ spends }

/-- `mapTxSpends.equal_range(outpoint)`: the hashes in it. -/
def spendsOf (w : CWallet) (outpoint : COutPoint) : List ℕ :=
  (w.mapTxSpends.filter fun spend => spend.1 = outpoint).map (·.2)

/-- The first loop of `SyncMetaData`, which looks for the oldest transaction. -/
def oldestIn (adjustedTime : ℕ) :
    List ℕ → (nMinOrderPos : ℤ) → (copyFrom : Option ℕ) → CWallet → Option ℕ × CWallet
  | [], _, copyFrom, w => (copyFrom, w)
  | hash :: range, nMinOrderPos, copyFrom, w =>
      let w := w.touch adjustedTime hash
      let n := ((w.get hash).elim (-1) (·.nOrderPos)).bmod (2 ^ 32)
      if n < nMinOrderPos then oldestIn adjustedTime range n (some hash) w
      else oldestIn adjustedTime range nMinOrderPos copyFrom w

/-- What the second loop of `SyncMetaData` copies. -/
def copyMetaData (copyFrom copyTo : CWalletTx) : CWalletTx :=
  { copyTo with
    mapValue := copyFrom.mapValue
    vOrderForm := copyFrom.vOrderForm
    nTimeSmart := copyFrom.nTimeSmart
    fFromMe := copyFrom.fFromMe
    strFromAccount := copyFrom.strFromAccount }

def copyToRange (adjustedTime : ℕ) (copyFrom : Option ℕ) : List ℕ → CWallet → Checked CWallet
  | [], w => .ok w
  | hash :: range, w =>
      let w := w.touch adjustedTime hash
      if copyFrom = some hash then copyToRange adjustedTime copyFrom range w
      else do
        let source ← deref (copyFrom.bind w.get)
        let entry ← deref (w.mapWallet.lookup hash)
        copyToRange adjustedTime copyFrom range
          (w.setTx hash entry (copyMetaData source entry.wtx))

def syncMetaData (adjustedTime : ℕ) (range : List ℕ) (w : CWallet) : Checked CWallet :=
  let oldest := oldestIn adjustedTime range (2 ^ 31 - 1) none w
  copyToRange adjustedTime oldest.1 range oldest.2

/-- `AddToSpends(outpoint, wtxid)`. -/
def addSpend (adjustedTime : ℕ) (outpoint : COutPoint) (wtxid : ℕ) (w : CWallet) :
    Checked CWallet :=
  let w := w.insertSpends [(outpoint, wtxid)]
  w.syncMetaData adjustedTime (w.spendsOf outpoint)

def addSpends (adjustedTime wtxid : ℕ) : List CTxIn → CWallet → Checked CWallet
  | [], w => .ok w
  | txin :: vin, w => do
      let w ← w.addSpend adjustedTime txin.prevout wtxid
      addSpends adjustedTime wtxid vin w

/-- `AddToSpends(wtxid)`. -/
def addToSpends (adjustedTime wtxid : ℕ) (w : CWallet) : Checked CWallet :=
  match w.get wtxid with
  | none => .error .assertionFailed
  | some thisTx =>
      if thisTx.isCoinBase then .ok w else w.addSpends adjustedTime wtxid thisTx.vin

/-- `CWallet::IsSpent`, given the depths of transactions in the main chain. -/
def isSpent (depth : CWalletTx → ℤ) (w : CWallet) (hash n : ℕ) : Bool :=
  (w.spendsOf ⟨hash, n⟩).any fun wtxid => (w.get wtxid).elim false fun wtx => 0 ≤ depth wtx

/-! ## Adding and erasing -/

/-- The time by which an element of `wtxOrdered` is sorted among the others. -/
def smartTime (w : CWallet) : TxPair → Checked ℤ
  | .accounting nTime => .ok nTime
  | .tx address =>
      match w.atAddress address with
      | none => .error .danglingReference
      | some pwtx => .ok (if pwtx.nTimeSmart = 0 then pwtx.nTimeReceived else pwtx.nTimeSmart)

/-- The loop from the latest element on, which stops at the first one whose time is tolerated.
The results are `latestEntry` and `latestNow`. -/
def latestTimes (w : CWallet) (self : ℕ) (latestTolerated : ℤ) (latestNow : ℕ) :
    List (ℤ × TxPair) → Checked (ℕ × ℕ)
  | [] => .ok (0, latestNow)
  | (_, pair) :: earlier =>
      if pair = .tx self then latestTimes w self latestTolerated latestNow earlier
      else do
        let nSmartTime ← w.smartTime pair
        if nSmartTime ≤ latestTolerated then
          .ok ((nSmartTime % 2 ^ 32).toNat, (max nSmartTime latestNow % 2 ^ 32).toNat)
        else latestTimes w self latestTolerated latestNow earlier

/-- `nTimeSmart` of the new transaction at an address. -/
def newTimeSmart (ctx : WalletContext) (w : CWallet) (self : ℕ) (wtx : CWalletTx) : Checked ℕ :=
  if wtx.hashBlock = 0 then .ok wtx.nTimeReceived
  else
    match ctx.chain.mapBlockIndex.lookup wtx.hashBlock with
    | none => .ok wtx.nTimeReceived
    | some pindex => do
        let latest ← w.latestTimes self ((wtx.nTimeReceived + 300) % 2 ^ 32 : ℕ)
          wtx.nTimeReceived w.wtxOrdered.reverse
        .ok (max latest.1 (min pindex.nTime latest.2))

/-- The new transaction with its time and its place in the order. -/
def newTx (ctx : WalletContext) (wtxIn : CWalletTx) (w : CWallet) : CWalletTx :=
  { wtxIn with
    nTimeReceived := ctx.adjustedTime % 2 ^ 32
    nOrderPos := w.nOrderPosNext }

/-- The wallet with the new transaction, before its `nTimeSmart` is known. -/
def insertNew (ctx : WalletContext) (hash : ℕ) (wtxIn : CWalletTx) (w : CWallet) : CWallet :=
  insertOrdered
    { w.insertTx hash (w.newTx ctx wtxIn) with nOrderPosNext := w.nOrderPosNext + 1 }
    w.nOrderPosNext (.tx w.nextAddress)

/-- The branch of `AddToWallet` for a hash that is new. -/
def addNew (ctx : WalletContext) (hash : ℕ) (wtxIn : CWalletTx) (w : CWallet) :
    Checked (Bool × CWallet) := do
  let wtx := w.newTx ctx wtxIn
  let nTimeSmart ← (w.insertNew ctx hash wtxIn).newTimeSmart ctx w.nextAddress wtx
  .ok (ctx.fWritten, (w.insertNew ctx hash wtxIn).setTx hash ⟨w.nextAddress, wtx⟩
    { wtx with nTimeSmart := nTimeSmart })

/-- The merge of a transaction into the one that is there, and whether that changes it. -/
def mergeTx (wtxIn wtx : CWalletTx) : Bool × CWalletTx :=
  let newBlock := wtxIn.hashBlock ≠ 0 ∧ wtxIn.hashBlock ≠ wtx.hashBlock
  let newBranch := wtxIn.nIndex ≠ -1 ∧
    (wtxIn.vMerkleBranch ≠ wtx.vMerkleBranch ∨ wtxIn.nIndex ≠ wtx.nIndex)
  let newFromMe := wtxIn.fFromMe = true ∧ wtxIn.fFromMe ≠ wtx.fFromMe
  let vfSpent := CWalletTx.mergeSpent wtxIn.vfSpent wtx.vfSpent
  (newBlock ∨ newBranch ∨ newFromMe ∨ vfSpent ≠ wtx.vfSpent,
    { wtx with
      hashBlock := if newBlock then wtxIn.hashBlock else wtx.hashBlock
      vMerkleBranch := if newBranch then wtxIn.vMerkleBranch else wtx.vMerkleBranch
      nIndex := if newBranch then wtxIn.nIndex else wtx.nIndex
      fFromMe := if newFromMe then wtxIn.fFromMe else wtx.fFromMe
      vfSpent := vfSpent })

/-- `AddToWallet`, with the value it returns. -/
def addToWallet (prims : Primitives) (ctx : WalletContext) (wtxIn : CWalletTx)
    (fFromLoadWallet : Bool) (w : CWallet) : Checked (Bool × CWallet) :=
  let hash := wtxIn.getHash prims
  if fFromLoadWallet then do
    let w := w.assign hash wtxIn
    let entry ← deref (w.mapWallet.lookup hash)
    let w ← (w.insertOrdered wtxIn.nOrderPos (.tx entry.address)).addToSpends
      ctx.adjustedTime hash
    .ok (true, w)
  else
    match w.mapWallet.lookup hash with
    | none => w.addNew ctx hash wtxIn
    | some entry =>
        let merged := mergeTx wtxIn entry.wtx
        .ok (!merged.1 || ctx.fWritten, w.setTx hash entry merged.2)

/-- `EraseFromWallet`. -/
def eraseFromWallet (hash : ℕ) (w : CWallet) : CWallet :=
  if w.fFileBacked then { w with mapWallet := w.mapWallet.erase hash } else w

end CWallet

end SocietyGold
