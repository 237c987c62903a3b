import SocietyGold.MemPool
import SocietyGold.Wallet

/-!
# The indexes of the wallet

`mapTxSpends` and `wtxOrdered` follow from `mapWallet`.  Loading a transaction from the wallet
file extends both.  A transaction that comes later is put into the order but its spends are not
noted, and erasing a transaction leaves both as they are.
-/

namespace SocietyGold

open Support

/-! ## Calls -/

inductive WalletCall
  | addToWallet (ctx : WalletContext) (wtxIn : CWalletTx) (fFromLoadWallet : Bool)
  | eraseFromWallet (hash : ℕ)

def WalletCall.run (prims : Primitives) : WalletCall → CWallet → Checked CWallet
  | .addToWallet ctx wtxIn fFromLoadWallet, w => do
      let added ← w.addToWallet prims ctx wtxIn fFromLoadWallet
      .ok added.2
  | .eraseFromWallet hash, w => .ok (w.eraseFromWallet hash)

/-- The transaction spends the outpoint; a coinbase spends nothing. -/
def CTransaction.Spends (tx : CTransaction) (o : COutPoint) : Prop :=
  tx.isCoinBase = false ∧ ∃ txin ∈ tx.vin, txin.prevout = o

/-- Both indexes agree with `mapWallet`. -/
structure CWallet.Consistent (w : CWallet) : Prop where
  spends : ∀ o h, (o, h) ∈ w.mapTxSpends ↔ ∃ wtx, w.get h = some wtx ∧ wtx.Spends o
  ordered : ∀ item ∈ w.wtxOrdered,
    ∃ h entry, w.mapWallet.lookup h = some entry ∧ item.2 = .tx entry.address

/-- `IsSpent` finds the transactions that spend an output. -/
theorem isSpent_iff
    {w : CWallet} (hConsistent : w.Consistent) (depth : CWalletTx → ℤ) (hash n : ℕ) :
    w.isSpent depth hash n = true ↔
      ∃ h wtx, w.get h = some wtx ∧ 0 ≤ depth wtx ∧ wtx.Spends ⟨hash, n⟩ := by
  have hMem : ∀ h, h ∈ w.spendsOf ⟨hash, n⟩ ↔ (⟨hash, n⟩, h) ∈ w.mapTxSpends := by
    intro h
    simp [CWallet.spendsOf]
  unfold CWallet.isSpent
  rw [List.any_eq_true]
  constructor
  · rintro ⟨h, hSpend, hDepth⟩
    obtain ⟨wtx, hGet, hSpends⟩ := (hConsistent.spends _ h).mp ((hMem h).mp hSpend)
    rw [hGet] at hDepth
    exact ⟨h, wtx, hGet, of_decide_eq_true hDepth, hSpends⟩
  · rintro ⟨h, wtx, hGet, hDepth, hSpends⟩
    refine ⟨h, (hMem h).mpr ((hConsistent.spends _ h).mpr ⟨wtx, hGet, hSpends⟩), ?_⟩
    rw [hGet]
    exact decide_eq_true hDepth

/-! ## What stays of a node -/

namespace CWallet

/-- The address of a node, and the transaction without what the wallet adds to it. -/
def node (w : CWallet) (h : ℕ) : Option (ℕ × CTransaction) :=
  (w.mapWallet.lookup h).map fun entry => (entry.address, entry.wtx.toCTransaction)

/-- The wallets differ only in what they add to transactions. -/
structure SameNodes (w w' : CWallet) : Prop where
  node : ∀ h, w'.node h = w.node h
  ordered : w'.wtxOrdered = w.wtxOrdered
  spends : w'.mapTxSpends = w.mapTxSpends

theorem SameNodes.trans
    {w w' w'' : CWallet} (h : SameNodes w w') (h' : SameNodes w' w'') : SameNodes w w'' where
  node hash := (h'.node hash).trans (h.node hash)
  ordered := h'.ordered.trans h.ordered
  spends := h'.spends.trans h.spends

theorem spends_iff_node {w : CWallet} {o : COutPoint} {h : ℕ} :
    (∃ wtx, w.get h = some wtx ∧ wtx.Spends o) ↔
      ∃ node, w.node h = some node ∧ node.2.Spends o := by
  unfold get node
  cases w.mapWallet.lookup h with
  | none => simp
  | some entry => simp

theorem alive_iff_node {w : CWallet} {pair : TxPair} :
    (∃ h entry, w.mapWallet.lookup h = some entry ∧ pair = .tx entry.address) ↔
      ∃ h node, w.node h = some node ∧ pair = .tx node.1 := by
  unfold node
  constructor
  · rintro ⟨h, entry, hLookup, hPair⟩
    refine ⟨h, (entry.address, entry.wtx.toCTransaction), ?_, hPair⟩
    rw [hLookup]
    rfl
  · rintro ⟨h, node, hNode, hPair⟩
    obtain ⟨entry, hLookup, rfl⟩ := Option.map_eq_some_iff.mp hNode
    exact ⟨h, entry, hLookup, hPair⟩

theorem mem_iff_node {w : CWallet} {h : ℕ} : h ∈ w.mapWallet ↔ ∃ node, w.node h = some node := by
  rw [Table.mem_iff_lookup]
  unfold node
  cases w.mapWallet.lookup h with
  | none => simp
  | some entry => simp

theorem SameNodes.mem_iff {w w' : CWallet} (hSame : SameNodes w w') {h : ℕ} :
    h ∈ w'.mapWallet ↔ h ∈ w.mapWallet := by
  rw [mem_iff_node, mem_iff_node, hSame.node]

theorem Consistent.of_sameNodes {w w' : CWallet} (h : w.Consistent) (hSame : SameNodes w w') :
    w'.Consistent where
  spends o hash := by
    rw [hSame.spends, h.spends, spends_iff_node, spends_iff_node, hSame.node]
  ordered item hItem := by
    rw [hSame.ordered] at hItem
    rw [alive_iff_node]
    obtain ⟨hash, node, hNode, hPair⟩ := alive_iff_node.mp (h.ordered item hItem)
    exact ⟨hash, node, (hSame.node hash).trans hNode, hPair⟩

theorem node_setTx
    {w : CWallet} {hash : ℕ} {entry : WalletEntry} (wtx : CWalletTx) (h : ℕ) :
    (w.setTx hash entry wtx).node h =
      if h = hash then some (entry.address, wtx.toCTransaction) else w.node h := by
  unfold node setTx
  dsimp only
  rw [Table.lookup_insert_ite]
  split_ifs <;> rfl

theorem node_insertTx (w : CWallet) (hash : ℕ) (wtx : CWalletTx) (h : ℕ) :
    (w.insertTx hash wtx).node h =
      if h = hash then some (w.nextAddress, wtx.toCTransaction) else w.node h := by
  unfold node insertTx
  dsimp only
  rw [Table.lookup_insert_ite]
  split_ifs <;> rfl

/-- A node gets other additions for the same transaction. -/
theorem sameNodes_setTx
    {w : CWallet} {hash : ℕ} {entry : WalletEntry} {wtx : CWalletTx}
    (hLookup : w.mapWallet.lookup hash = some entry)
    (hTx : wtx.toCTransaction = entry.wtx.toCTransaction) :
    SameNodes w (w.setTx hash entry wtx) where
  node h := by
    rw [node_setTx]
    split_ifs with hHash
    · rw [hHash, node, hLookup, hTx]
      rfl
    · rfl
  ordered := rfl
  spends := rfl

theorem mem_insertOrdered {w : CWallet} {nOrderPos : ℤ} {pair : TxPair} {item : ℤ × TxPair} :
    item ∈ (w.insertOrdered nOrderPos pair).wtxOrdered ↔
      item = (nOrderPos, pair) ∨ item ∈ w.wtxOrdered := by
  unfold insertOrdered
  dsimp only
  conv_rhs => rw [← List.takeWhile_append_dropWhile (p := (·.1 ≤ nOrderPos)) (l := w.wtxOrdered)]
  rw [List.mem_append, List.mem_cons, List.mem_append]
  tauto

/-! ## Noting the spends -/

theorem oldestIn_of_mem
    (adjustedTime : ℕ) {range : List ℕ} {w : CWallet} (hMem : ∀ h ∈ range, h ∈ w.mapWallet)
    (nMinOrderPos : ℤ) (copyFrom : Option ℕ) :
    (oldestIn adjustedTime range nMinOrderPos copyFrom w).2 = w := by
  induction range generalizing nMinOrderPos copyFrom with
  | nil => rfl
  | cons hash range ih =>
      have hRest := ih fun h hh => hMem h (List.mem_cons_of_mem hash hh)
      rw [oldestIn, touch_of_mem adjustedTime (hMem hash List.mem_cons_self)]
      split_ifs
      · exact hRest _ _
      · exact hRest _ _

theorem copyToRange_spec
    {adjustedTime : ℕ} {copyFrom : Option ℕ} {range : List ℕ} {w w' : CWallet}
    (hMem : ∀ h ∈ range, h ∈ w.mapWallet)
    (hCopied : copyToRange adjustedTime copyFrom range w = .ok w') : SameNodes w w' := by
  induction range generalizing w with
  | nil =>
      obtain rfl := Except.ok.inj hCopied
      exact ⟨fun _ => rfl, rfl, rfl⟩
  | cons hash range ih =>
      have hRest : ∀ h ∈ range, h ∈ w.mapWallet := fun h hh =>
        hMem h (List.mem_cons_of_mem hash hh)
      rw [copyToRange, touch_of_mem adjustedTime (hMem hash List.mem_cons_self)] at hCopied
      split_ifs at hCopied with hSelf
      · exact ih hRest hCopied
      · obtain ⟨source, _, hCopied⟩ := bind_eq_ok.mp hCopied
        obtain ⟨entry, hEntry, hCopied⟩ := bind_eq_ok.mp hCopied
        have hSame : SameNodes w (w.setTx hash entry (copyMetaData source entry.wtx)) :=
          sameNodes_setTx (deref_eq_ok.mp hEntry) rfl
        exact hSame.trans (ih (fun h hh => hSame.mem_iff.mpr (hRest h hh)) hCopied)

theorem syncMetaData_spec
    {adjustedTime : ℕ} {range : List ℕ} {w w' : CWallet} (hMem : ∀ h ∈ range, h ∈ w.mapWallet)
    (hSynced : w.syncMetaData adjustedTime range = .ok w') : SameNodes w w' := by
  unfold syncMetaData at hSynced
  dsimp only at hSynced
  rw [oldestIn_of_mem adjustedTime hMem] at hSynced
  exact copyToRange_spec hMem hSynced

/-- The hashes in `mapTxSpends` are in `mapWallet`. -/
def SpendersKnown (w : CWallet) : Prop := ∀ spend ∈ w.mapTxSpends, spend.2 ∈ w.mapWallet

theorem SpendersKnown.insertSpends
    {w : CWallet} (h : w.SpendersKnown) {spends : List (COutPoint × ℕ)}
    (hMem : ∀ spend ∈ spends, spend.2 ∈ w.mapWallet) : (w.insertSpends spends).SpendersKnown := by
  intro spend hSpend
  rcases List.mem_append.mp hSpend with hOld | hNew
  · exact h spend hOld
  · exact hMem spend hNew

theorem addSpend_spec
    {adjustedTime wtxid : ℕ} {outpoint : COutPoint} {w w' : CWallet} (hKnown : w.SpendersKnown)
    (hMem : wtxid ∈ w.mapWallet) (hAdded : w.addSpend adjustedTime outpoint wtxid = .ok w') :
    SameNodes (w.insertSpends [(outpoint, wtxid)]) w' := by
  have hKnown' : (w.insertSpends [(outpoint, wtxid)]).SpendersKnown := by
    apply hKnown.insertSpends
    intro spend hSpend
    rw [List.mem_singleton.mp hSpend]
    exact hMem
  apply syncMetaData_spec _ hAdded
  intro h hh
  obtain ⟨spend, hSpend, rfl⟩ := List.mem_map.mp hh
  exact hKnown' spend (List.mem_filter.mp hSpend).1

theorem addSpends_spec
    {adjustedTime wtxid : ℕ} {vin : List CTxIn} {w w' : CWallet} (hKnown : w.SpendersKnown)
    (hMem : wtxid ∈ w.mapWallet) (hAdded : w.addSpends adjustedTime wtxid vin = .ok w') :
    SameNodes (w.insertSpends (vin.map fun txin => (txin.prevout, wtxid))) w' := by
  induction vin generalizing w with
  | nil =>
      obtain rfl := Except.ok.inj hAdded
      exact ⟨fun _ => rfl, rfl, (List.append_nil _).symm⟩
  | cons txin vin ih =>
      obtain ⟨w₁, hFirst, hRest⟩ := bind_eq_ok.mp hAdded
      have hSame := addSpend_spec hKnown hMem hFirst
      have hMem₁ : wtxid ∈ w₁.mapWallet := hSame.mem_iff.mpr hMem
      have hKnown₁ : w₁.SpendersKnown := by
        intro spend hSpend
        rw [hSame.spends] at hSpend
        rcases List.mem_append.mp hSpend with hOld | hNew
        · exact hSame.mem_iff.mpr (hKnown spend hOld)
        · rw [List.mem_singleton.mp hNew]
          exact hMem₁
      have hNext := ih hKnown₁ hMem₁ hRest
      refine ⟨fun h => (hNext.node h).trans (hSame.node h), hNext.ordered.trans hSame.ordered, ?_⟩
      rw [hNext.spends, insertSpends, hSame.spends]
      exact List.append_assoc _ _ _

/-- The spends of a transaction in `mapWallet` are noted. -/
theorem addToSpends_spec
    {adjustedTime wtxid : ℕ} {w w' : CWallet} {node : ℕ × CTransaction} (hKnown : w.SpendersKnown)
    (hNode : w.node wtxid = some node) (hAdded : w.addToSpends adjustedTime wtxid = .ok w') :
    ∃ spends, SameNodes (w.insertSpends spends) w' ∧
      ∀ o h, (o, h) ∈ spends ↔ h = wtxid ∧ node.2.Spends o := by
  have hMem : wtxid ∈ w.mapWallet := mem_iff_node.mpr ⟨node, hNode⟩
  obtain ⟨entry, hLookup, rfl⟩ := Option.map_eq_some_iff.mp hNode
  unfold addToSpends get at hAdded
  rw [hLookup] at hAdded
  dsimp only [Option.map_some] at hAdded
  unfold CTransaction.Spends
  dsimp only
  split_ifs at hAdded with hCoinBase
  · obtain rfl := Except.ok.inj hAdded
    refine ⟨[], ⟨fun _ => rfl, rfl, (List.append_nil _).symm⟩, ?_⟩
    intro o h
    simp [hCoinBase]
  · refine ⟨_, addSpends_spec hKnown hMem hAdded, ?_⟩
    intro o h
    rw [Bool.not_eq_true] at hCoinBase
    rw [List.mem_map]
    constructor
    · rintro ⟨txin, hTxin, hSpend⟩
      obtain ⟨hPrevout, hHash⟩ := Prod.ext_iff.mp hSpend
      exact ⟨hHash.symm, hCoinBase, txin, hTxin, hPrevout⟩
    · rintro ⟨rfl, -, txin, hTxin, rfl⟩
      exact ⟨txin, hTxin, rfl⟩

/-! ## Adding -/

theorem Consistent.spendersKnown {w : CWallet} (h : w.Consistent) : w.SpendersKnown := by
  intro spend hSpend
  obtain ⟨node, hNode, _⟩ := spends_iff_node.mp ((h.spends spend.1 spend.2).mp hSpend)
  exact mem_iff_node.mpr ⟨node, hNode⟩

/-- The wallet gets a node, and both indexes what follows from it. -/
structure AddsNode (w w' : CWallet) (hash : ℕ) (new : ℕ × CTransaction) : Prop where
  node : ∀ h, w'.node h = if h = hash then some new else w.node h
  ordered : ∀ item ∈ w'.wtxOrdered, item.2 = .tx new.1 ∨ item ∈ w.wtxOrdered
  spends : ∀ o h, (o, h) ∈ w'.mapTxSpends ↔
    (o, h) ∈ w.mapTxSpends ∨ h = hash ∧ new.2.Spends o

theorem Consistent.of_addsNode
    {w w' : CWallet} {hash : ℕ} {new : ℕ × CTransaction} (h : w.Consistent)
    (hAdds : AddsNode w w' hash new) (hOld : ∀ old, w.node hash = some old → old = new) :
    w'.Consistent where
  spends o h' := by
    rw [hAdds.spends, h.spends, spends_iff_node, spends_iff_node, hAdds.node]
    by_cases hHash : h' = hash
    · rw [if_pos hHash, hHash]
      constructor
      · rintro (⟨old, hNode, hSpends⟩ | ⟨-, hSpends⟩)
        · rw [hOld old hNode] at hSpends
          exact ⟨new, rfl, hSpends⟩
        · exact ⟨new, rfl, hSpends⟩
      · rintro ⟨node', hNode, hSpends⟩
        obtain rfl := Option.some.inj hNode
        exact Or.inr ⟨rfl, hSpends⟩
    · rw [if_neg hHash]
      simp [hHash]
  ordered item hItem := by
    rw [alive_iff_node]
    rcases hAdds.ordered item hItem with hNew | hItem
    · exact ⟨hash, new, by rw [hAdds.node, if_pos rfl], hNew⟩
    · obtain ⟨h', node', hNode, hPair⟩ := alive_iff_node.mp (h.ordered item hItem)
      by_cases hHash : h' = hash
      · subst hHash
        rw [hOld node' hNode] at hPair
        exact ⟨h', new, by rw [hAdds.node, if_pos rfl], hPair⟩
      · exact ⟨h', node', by rw [hAdds.node, if_neg hHash, hNode], hPair⟩

theorem addNew_spec
    {ctx : WalletContext} {hash : ℕ} {wtxIn : CWalletTx} {w : CWallet} {added : Bool × CWallet}
    (hAdded : w.addNew ctx hash wtxIn = .ok added) :
    (∀ h, added.2.node h =
        if h = hash then some (w.nextAddress, wtxIn.toCTransaction) else w.node h) ∧
      (∀ item ∈ added.2.wtxOrdered, item.2 = .tx w.nextAddress ∨ item ∈ w.wtxOrdered) ∧
      added.2.mapTxSpends = w.mapTxSpends := by
  unfold addNew at hAdded
  obtain ⟨nTimeSmart, _, hAdded⟩ := bind_eq_ok.mp hAdded
  obtain rfl := Except.ok.inj hAdded
  refine ⟨?_, ?_, rfl⟩
  · intro h
    have hInsert := node_insertTx w hash (w.newTx ctx wtxIn) h
    rw [node_setTx]
    split_ifs with hHash
    · rfl
    · rw [if_neg hHash] at hInsert
      exact hInsert
  · intro item hItem
    rcases mem_insertOrdered.mp hItem with rfl | hOld
    · exact Or.inl rfl
    · exact Or.inr hOld

theorem assign_spec (w : CWallet) (hash : ℕ) (wtx : CWalletTx) :
    ∃ address,
      (∀ h, (w.assign hash wtx).node h =
        if h = hash then some (address, wtx.toCTransaction) else w.node h) ∧
      (∀ old, w.node hash = some old → old.1 = address) ∧
      (w.assign hash wtx).wtxOrdered = w.wtxOrdered ∧
      (w.assign hash wtx).mapTxSpends = w.mapTxSpends := by
  unfold assign
  cases hLookup : w.mapWallet.lookup hash with
  | none =>
      refine ⟨w.nextAddress, node_insertTx w hash wtx, ?_, rfl, rfl⟩
      intro old hOld
      rw [node, hLookup] at hOld
      cases hOld
  | some entry =>
      refine ⟨entry.address, node_setTx wtx, ?_, rfl, rfl⟩
      intro old hOld
      rw [node, hLookup] at hOld
      obtain rfl := Option.some.inj hOld
      rfl

theorem load_spec
    {prims : Primitives} {ctx : WalletContext} {wtxIn : CWalletTx} {w : CWallet}
    {added : Bool × CWallet} (hConsistent : w.Consistent)
    (hSame : ∀ known, w.get (wtxIn.getHash prims) = some known →
      known.toCTransaction = wtxIn.toCTransaction)
    (hAdded : w.addToWallet prims ctx wtxIn true = .ok added) : added.2.Consistent := by
  generalize hHash : wtxIn.getHash prims = hash at hSame
  obtain ⟨address, hNode, hAddress, hOrdered, hSpends⟩ := assign_spec w hash wtxIn
  unfold addToWallet at hAdded
  rw [hHash] at hAdded
  dsimp only at hAdded
  rw [if_pos rfl] at hAdded
  obtain ⟨entry, hEntry, hAdded⟩ := bind_eq_ok.mp hAdded
  obtain ⟨w', hNoted, hAdded⟩ := bind_eq_ok.mp hAdded
  obtain rfl := Except.ok.inj hAdded
  have hFound : (w.assign hash wtxIn).node hash = some (address, wtxIn.toCTransaction) := by
    rw [hNode, if_pos rfl]
  have hPointer : entry.address = address := by
    rw [node, deref_eq_ok.mp hEntry] at hFound
    exact (Prod.ext_iff.mp (Option.some.inj hFound)).1
  have hKnown : ((w.assign hash wtxIn).insertOrdered wtxIn.nOrderPos
      (.tx entry.address)).SpendersKnown := by
    intro spend hSpend
    have hSpend : spend ∈ w.mapTxSpends := hSpends ▸ hSpend
    obtain ⟨old, hOld⟩ := mem_iff_node.mp (hConsistent.spendersKnown spend hSpend)
    apply mem_iff_node.mpr
    show ∃ found, (w.assign hash wtxIn).node spend.2 = some found
    rw [hNode]
    split_ifs
    · exact ⟨_, rfl⟩
    · exact ⟨old, hOld⟩
  obtain ⟨spends, hSameNodes, hNew⟩ := addToSpends_spec hKnown hFound hNoted
  have hAdds : AddsNode w w' hash (address, wtxIn.toCTransaction) := by
    refine ⟨fun h => (hSameNodes.node h).trans (hNode h), ?_, ?_⟩
    · intro item hItem
      rw [hSameNodes.ordered] at hItem
      rcases mem_insertOrdered.mp hItem with rfl | hOld
      · exact Or.inl (congrArg TxPair.tx hPointer)
      · exact Or.inr (hOrdered ▸ hOld)
    · intro o h
      rw [hSameNodes.spends, ← hNew o h, ← hSpends]
      exact List.mem_append
  apply hConsistent.of_addsNode hAdds
  intro old hOld
  obtain ⟨known, hKnownTx, rfl⟩ := Option.map_eq_some_iff.mp hOld
  have hTx := hSame known.wtx (by rw [get, hKnownTx]; rfl)
  exact Prod.ext (hAddress _ hOld) hTx

/-- A transaction that was not loaded keeps the indexes right if it is known or spends
nothing. -/
theorem receive_spec
    {prims : Primitives} {ctx : WalletContext} {wtxIn : CWalletTx} {w : CWallet}
    {added : Bool × CWallet} (hConsistent : w.Consistent)
    (hNothing : wtxIn.getHash prims ∈ w.mapWallet ∨ ∀ o, ¬wtxIn.Spends o)
    (hAdded : w.addToWallet prims ctx wtxIn false = .ok added) : added.2.Consistent := by
  generalize hHash : wtxIn.getHash prims = hash at hNothing
  unfold addToWallet at hAdded
  rw [hHash] at hAdded
  dsimp only at hAdded
  rw [if_neg Bool.false_ne_true] at hAdded
  cases hLookup : w.mapWallet.lookup hash with
  | none =>
      rw [hLookup] at hAdded
      have hSpendsNone := hNothing.resolve_left (Table.not_mem_iff_lookup.mpr hLookup)
      obtain ⟨hNode, hOrdered, hSpends⟩ := addNew_spec hAdded
      have hAdds : AddsNode w added.2 hash (w.nextAddress, wtxIn.toCTransaction) := by
        refine ⟨hNode, hOrdered, ?_⟩
        intro o h
        rw [hSpends]
        simp [hSpendsNone o]
      apply hConsistent.of_addsNode hAdds
      intro old hOld
      rw [node, hLookup] at hOld
      cases hOld
  | some entry =>
      rw [hLookup] at hAdded
      obtain rfl := Except.ok.inj hAdded
      exact hConsistent.of_sameNodes (sameNodes_setTx hLookup rfl)

end CWallet

/-! ## Runs -/

/-- A call after which the indexes are still right: what is loaded under a known hash is the
same transaction, what is received is known or spends nothing, and nothing is erased. -/
def WalletCall.KeepsIndexes (prims : Primitives) (w : CWallet) : WalletCall → Prop
  | .addToWallet _ wtxIn true => ∀ known, w.get (wtxIn.getHash prims) = some known →
      known.toCTransaction = wtxIn.toCTransaction
  | .addToWallet _ wtxIn false =>
      wtxIn.getHash prims ∈ w.mapWallet ∨ wtxIn.isCoinBase = true ∨ wtxIn.vin = []
  | .eraseFromWallet hash => w.fFileBacked = false ∨ hash ∉ w.mapWallet

theorem consistent_of_call
    {prims : Primitives} {call : WalletCall} {w w' : CWallet} (hConsistent : w.Consistent)
    (hKeeps : call.KeepsIndexes prims w) (hRun : call.run prims w = .ok w') : w'.Consistent := by
  cases call with
  | addToWallet ctx wtxIn fFromLoadWallet =>
      obtain ⟨added, hAdded, hRun⟩ := bind_eq_ok.mp hRun
      obtain rfl := Except.ok.inj hRun
      cases fFromLoadWallet with
      | true => exact CWallet.load_spec hConsistent hKeeps hAdded
      | false =>
          apply CWallet.receive_spec hConsistent _ hAdded
          apply Or.imp_right _ hKeeps
          rintro (hCoinBase | hNoInputs) o ⟨hNot, txin, hTxin, _⟩
          · rw [hCoinBase] at hNot
            cases hNot
          · rw [hNoInputs] at hTxin
            cases hTxin
  | eraseFromWallet hash =>
      obtain rfl := Except.ok.inj hRun
      unfold CWallet.eraseFromWallet
      rcases hKeeps with hMemory | hAbsent
      · rw [hMemory, if_neg Bool.false_ne_true]
        exact hConsistent
      · split_ifs
        · rw [show w.mapWallet.erase hash = w.mapWallet from
            AList.ext (List.kerase_of_notMem_keys hAbsent)]
          exact hConsistent
        · exact hConsistent

/-- In a run of such calls the indexes say at every moment what `mapWallet` says. -/
theorem consistent_of_calls
    {prims : Primitives} {fFileBacked : Bool} {calls : List WalletCall} {w : CWallet}
    (hKeeps : ∀ past call rest u, calls = past ++ call :: rest →
      runEvents (WalletCall.run prims) past (CWallet.empty fFileBacked) = .ok u →
        call.KeepsIndexes prims u)
    (hRun : runEvents (WalletCall.run prims) calls (CWallet.empty fFileBacked) = .ok w) :
    w.Consistent ∧
      ∀ (depth : CWalletTx → ℤ) (hash n : ℕ), w.isSpent depth hash n = true ↔
        ∃ h wtx, w.get h = some wtx ∧ 0 ≤ depth wtx ∧ wtx.Spends ⟨hash, n⟩ := by
  have hEmpty : (CWallet.empty fFileBacked).Consistent := by
    constructor
    · intro o h
      simp [CWallet.empty, CWallet.get]
    · intro item hItem
      cases hItem
  have hConsistent : w.Consistent := by
    refine runEvents_invariant hEmpty ?_ hRun
    intro past call rest u v hSplit hPast hBefore hCall
    exact consistent_of_call hBefore (hKeeps past call rest u hSplit hPast) hCall
  exact ⟨hConsistent, isSpent_iff hConsistent⟩

/-! ## A payment that is received and one that is erased -/

namespace Sample

def walletContext : WalletContext := ⟨900, emptyState, true⟩

/-- A wallet transaction that spends the output 0 of transaction 7. -/
def walletPayment : CWalletTx := CWalletTx.ofMerkleTx (CMerkleTx.ofTransaction firstPayment)

def walletRun (calls : List WalletCall) : Checked CWallet :=
  runEvents (WalletCall.run prims) calls (CWallet.empty true)

def receivedPayment : List WalletCall := [.addToWallet walletContext walletPayment false]

def erasedPayment : List WalletCall :=
  [.addToWallet walletContext walletPayment true, .eraseFromWallet (walletPayment.getHash prims)]

/-- The spend of a received payment is not noted, and `IsSpent` denies it.  The order keeps a
pointer to the payment that was erased. -/
theorem payments_inconsistent :
    (∃ w, walletRun receivedPayment = .ok w ∧ ¬w.Consistent ∧ w.isSpent (fun _ => 0) 7 0 = false) ∧
      ∃ w, walletRun erasedPayment = .ok w ∧ ¬w.Consistent := by
  constructor
  · have hReceived : (walletRun receivedPayment).toOption.map (fun w =>
        (w.mapTxSpends, (w.get (walletPayment.getHash prims)).map (·.toCTransaction),
          w.isSpent (fun _ => 0) 7 0)) = some ([], some firstPayment, false) := by
      decide +kernel
    generalize walletRun receivedPayment = run at hReceived ⊢
    cases run with
    | error fault => cases hReceived
    | ok w =>
        obtain ⟨hSpends, hRest⟩ := Prod.ext_iff.mp (Option.some.inj hReceived)
        obtain ⟨hFound, hSpent⟩ := Prod.ext_iff.mp hRest
        dsimp only at hSpends hFound hSpent
        refine ⟨w, rfl, ?_, hSpent⟩
        intro hConsistent
        obtain ⟨wtx, hGet, hTx⟩ := Option.map_eq_some_iff.mp hFound
        have hNoted := (hConsistent.spends ⟨7, 0⟩ _).mpr ⟨wtx, hGet, by
          rw [hTx]
          exact ⟨by decide, _, List.mem_cons_self, rfl⟩⟩
        rw [hSpends] at hNoted
        cases hNoted
  · have hErased : (walletRun erasedPayment).toOption.map (fun w =>
        (w.wtxOrdered, w.mapWallet.keys)) = some ([(-1, .tx 0)], []) := by
      decide +kernel
    generalize walletRun erasedPayment = run at hErased ⊢
    cases run with
    | error fault => cases hErased
    | ok w =>
        obtain ⟨hOrdered, hKeys⟩ := Prod.ext_iff.mp (Option.some.inj hErased)
        dsimp only at hOrdered hKeys
        refine ⟨w, rfl, ?_⟩
        intro hConsistent
        obtain ⟨h, entry, hLookup, _⟩ := hConsistent.ordered (-1, .tx 0) (by simp [hOrdered])
        have hMem : h ∈ w.mapWallet.keys :=
          AList.mem_keys.mp (Table.mem_iff_lookup.mpr ⟨_, hLookup⟩)
        rw [hKeys] at hMem
        cases hMem

/-- A loaded payment is noted. -/
theorem loadedPayment_consistent :
    ∃ w, walletRun [.addToWallet walletContext walletPayment true] = .ok w ∧ w.Consistent ∧
      ∀ (depth : CWalletTx → ℤ) (hash n : ℕ), w.isSpent depth hash n = true ↔
        ∃ h wtx, w.get h = some wtx ∧ 0 ≤ depth wtx ∧ wtx.Spends ⟨hash, n⟩ := by
  have hOk : (walletRun [.addToWallet walletContext walletPayment true]).isOk = true := by
    decide +kernel
  cases hRun : walletRun [.addToWallet walletContext walletPayment true] with
  | error fault =>
      rw [hRun] at hOk
      cases hOk
  | ok w =>
      refine ⟨w, rfl, consistent_of_calls ?_ hRun⟩
      intro past call rest u hSplit hPast
      cases past with
      | nil =>
          obtain ⟨rfl, rfl⟩ := List.cons.inj hSplit
          obtain rfl := Except.ok.inj hPast
          intro known hKnown
          cases hKnown
      | cons first past => simp at hSplit

end Sample

end SocietyGold
