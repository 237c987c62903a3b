import SocietyGold.MoneySupply

/-!
# Asking a peer for blocks

A node asks for blocks with a locator, the hashes of its own chain from the tip back in
growing steps, and a hash to stop at.  The handler of `getblocks` looks for the first hash
of the locator that is on its main chain and pushes the inventory from there on.

The walk stops at the block that has no next one before it pushes that block.  So the tip
of the responder is never pushed, and a node that is one block behind gets nothing new.
-/

namespace SocietyGold

open Support

/-! ## Locators -/

/-- Hashes of blocks from a tip back to the genesis block. -/
structure CBlockLocator where
  vHave : List ℕ
  deriving DecidableEq, Repr

/-- `IsInMainChain` of the entry under a hash. -/
def ChainState.isInMainChain (st : ChainState) (hash : ℕ) (pindex : CBlockIndex) : Bool :=
  pindex.pnext.isSome || st.pindexBest = some hash

namespace CBlockLocator

/-- Follow `pprev` a number of times, or to the end. -/
def stepBack (st : ChainState) : (nStep : ℕ) → (pindex : Option ℕ) → Option ℕ
  | 0, pindex => pindex
  | nStep + 1, pindex =>
      match st.entry pindex with
      | none => none
      | some found => stepBack st nStep found.pprev

/-- The loop of `Set`.  Each round goes back by one entry at least, so without a cycle
there are at most as many rounds as entries. -/
def setLoop (st : ChainState) :
    (fuel : ℕ) → (pindex : Option ℕ) → (nStep : ℕ) → (vHave : List ℕ) → List ℕ
  | 0, _, _, vHave => vHave
  | fuel + 1, pindex, nStep, vHave =>
      match st.entry pindex with
      | none => vHave
      | some found =>
          let vHave := vHave ++ [found.phashBlock]
          let pindex := stepBack st nStep pindex
          setLoop st fuel pindex (if vHave.length > 10 then nStep * 2 else nStep) vHave

/-- `CBlockLocator(pindex)`. -/
def set (hashGenesisBlock : ℕ) (st : ChainState) (pindex : Option ℕ) : CBlockLocator :=
  ⟨setLoop st (st.mapBlockIndex.entries.length + 1) pindex 1 [] ++ [hashGenesisBlock]⟩

/-- The first block of the caller that is in the main chain. -/
def getBlockIndex (locator : CBlockLocator) (st : ChainState) : Option ℕ :=
  (locator.vHave.find? fun hash =>
    (st.mapBlockIndex.lookup hash).any (st.isInMainChain hash)).or st.pindexGenesisBlock

variable {st : ChainState}

theorem prefix_setLoop
    (st : ChainState) (fuel nStep : ℕ) (pindex : Option ℕ) (vHave : List ℕ) :
    vHave <+: setLoop st fuel pindex nStep vHave := by
  induction fuel generalizing pindex nStep vHave with
  | zero => exact List.prefix_rfl
  | succ fuel ih =>
      unfold setLoop
      split
      · exact List.prefix_rfl
      · exact (List.prefix_append _ _).trans (ih _ _ _)

/-- A locator starts with the block it was made for. -/
theorem exists_vHave_eq
    (hashGenesisBlock : ℕ) {pindex : Option ℕ} {found : CBlockIndex}
    (hEntry : st.entry pindex = some found) :
    ∃ rest, (set hashGenesisBlock st pindex).vHave = found.phashBlock :: rest := by
  unfold set setLoop
  rw [hEntry]
  obtain ⟨rest, hRest⟩ := prefix_setLoop st st.mapBlockIndex.entries.length
    (if ([] ++ [found.phashBlock]).length > 10 then 1 * 2 else 1) (stepBack st 1 pindex)
    ([] ++ [found.phashBlock])
  refine ⟨rest ++ [hashGenesisBlock], ?_⟩
  dsimp only
  rw [← hRest]
  rfl

theorem getBlockIndex_of_head
    {hash : ℕ} (rest : List ℕ) {pindex : CBlockIndex}
    (hEntry : st.mapBlockIndex.lookup hash = some pindex)
    (hMain : st.isInMainChain hash pindex = true) :
    getBlockIndex ⟨hash :: rest⟩ st = some hash := by
  unfold getBlockIndex
  rw [List.find?_cons_of_pos (by simpa [hEntry] using hMain)]
  rfl

end CBlockLocator

/-! ## The handler -/

inductive InvType
  | MSG_TX
  | MSG_BLOCK
  deriving DecidableEq, Repr

structure CInv where
  type : InvType
  hash : ℕ
  deriving DecidableEq, Repr

/-- What the handler does to the node it answers: its calls of `PushInventory`, in order,
and the block it assigns to `hashContinue`. -/
structure GetBlocksReply where
  inventory : List CInv
  hashContinue : Option ℕ
  deriving DecidableEq, Repr

/-- The walk over the next blocks. -/
def getblocksLoop (st : ChainState) (pindexBest : CBlockIndex) :
    (nLimit : ℕ) → (pindex : Option ℕ) → GetBlocksReply
  | 0, _ => ⟨[], none⟩
  | nLimit + 1, pindex =>
      match st.entry pindex with
      | none => ⟨[], none⟩
      | some found =>
          if found.pnext = none then ⟨[], none⟩
          else
            let pushed :=
              if found.nHeight ≤ pindexBest.nHeight then
                [CInv.mk .MSG_BLOCK found.phashBlock]
              else []
            if nLimit = 0 then ⟨pushed, some found.phashBlock⟩
            else
              let rest := getblocksLoop st pindexBest nLimit found.pnext
              ⟨pushed ++ rest.inventory, rest.hashContinue⟩

/-- The handler of `getblocks`.  A walk that meets `hashStop` does nothing special there. -/
def getblocks (env : Env) (st : ChainState) (locator : CBlockLocator) (hashStop : ℕ) :
    Checked GetBlocksReply :=
  if hashStop = 0 then .ok ⟨[], none⟩
  else do
    let pindexBest ← deref (st.entry st.pindexBest)
    let timeToLastBlock := (env.time : ℤ) - pindexBest.nTime
    if timeToLastBlock > 2400 then .ok ⟨[], none⟩
    else do
      let pindex := locator.getBlockIndex st
      -- the height is read for a log line
      let _ ← deref (st.entry pindex)
      .ok (getblocksLoop st pindexBest 500 pindex)

/-! ## Main chains -/

/-- The main chain of a node and its tip: entries lie under their hashes, the tip has no
next block, and from every other block of the chain `pnext` leads back up, to a block that
is higher by one. -/
structure MainChain (st : ChainState) (tip : ℕ) : Prop where
  best : st.pindexBest = some tip
  filed : ∀ hash pindex, st.mapBlockIndex.lookup hash = some pindex → pindex.phashBlock = hash
  entered : ∀ hash, OnBestChain st hash → hash ∈ st.mapBlockIndex
  last : ∀ pindex, st.mapBlockIndex.lookup tip = some pindex → pindex.pnext = none
  linked : ∀ hash prev pindex before, OnBestChain st hash →
    st.mapBlockIndex.lookup hash = some pindex → pindex.pprev = some prev →
    st.mapBlockIndex.lookup prev = some before →
    before.pnext = some hash ∧ pindex.nHeight = before.nHeight + 1

/-- A block of the main chain and the one after it. -/
def IsNextBlock (st : ChainState) (hash next : ℕ) : Prop :=
  OnBestChain st next ∧ ∃ pindex, st.mapBlockIndex.lookup next = some pindex ∧
    pindex.pprev = some hash

section Chain

variable {st : ChainState} {tip hash next : ℕ}

theorem MainChain.nHeight_le
    {pindex pindexBest : CBlockIndex} (h : MainChain st tip) (hOn : OnBestChain st hash)
    (hEntry : st.mapBlockIndex.lookup hash = some pindex)
    (hBest : st.mapBlockIndex.lookup tip = some pindexBest) :
    pindex.nHeight ≤ pindexBest.nHeight := by
  induction hOn generalizing pindex with
  | tip hTip =>
      rw [h.best, Option.some.injEq] at hTip
      rw [← hTip, hBest, Option.some.injEq] at hEntry
      rw [hEntry]
  | pprev hOn hUpper hPrev ih =>
      have hStep := (h.linked _ _ _ _ hOn hUpper hPrev hEntry).2
      have hUp := ih hUpper
      omega

theorem MainChain.exists_next
    (h : MainChain st tip) (hOn : OnBestChain st hash) (hNe : hash ≠ tip) :
    ∃ next, IsNextBlock st hash next := by
  cases hOn with
  | tip hTip =>
      rw [h.best, Option.some.injEq] at hTip
      exact absurd hTip.symm hNe
  | pprev hOn hEntry hPrev => exact ⟨_, hOn, _, hEntry, hPrev⟩

/-- The entry of a block that has a next one on the main chain. -/
theorem MainChain.entry_of_next
    (h : MainChain st tip) (hNext : IsNextBlock st hash next) :
    ∃ pindex, st.mapBlockIndex.lookup hash = some pindex ∧ pindex.phashBlock = hash ∧
      pindex.pnext = some next := by
  obtain ⟨hOn, upper, hUpper, hPrev⟩ := hNext
  obtain ⟨pindex, hEntry⟩ := Table.mem_iff_lookup.mp (h.entered _ (.pprev hOn hUpper hPrev))
  exact ⟨pindex, hEntry, h.filed _ _ hEntry, (h.linked _ _ _ _ hOn hUpper hPrev hEntry).1⟩

theorem MainChain.next_unique
    {next' : ℕ} (h : MainChain st tip) (hNext : IsNextBlock st hash next)
    (hNext' : IsNextBlock st hash next') : next = next' := by
  obtain ⟨pindex, hEntry, -, hPnext⟩ := h.entry_of_next hNext
  obtain ⟨pindex', hEntry', -, hPnext'⟩ := h.entry_of_next hNext'
  rw [hEntry, Option.some.injEq] at hEntry'
  rw [hEntry', hPnext', Option.some.injEq] at hPnext
  exact hPnext.symm

end Chain

/-! ## Growing main chains -/

section Growth

variable {env : Env} {st st' : ChainState} {block : CBlock} {pindexNew : CBlockIndex} {tip : ℕ}

/-- The state after an entry was put on top of a chain: the old tip got a link forward to
it, and the other entries stayed. -/
structure TopsChain (st st' : ChainState) (tip hash : ℕ) (top : CBlockIndex) : Prop where
  best : st'.pindexBest = some hash
  offChain : ¬OnBestChain st hash
  pprev : top.pprev = some tip
  entered : st'.mapBlockIndex.lookup hash = some top
  oldTip : st'.mapBlockIndex.lookup tip =
    (st.mapBlockIndex.lookup tip).map fun old => { old with pnext := some hash }
  other : ∀ k, k ≠ hash → k ≠ tip → st'.mapBlockIndex.lookup k = st.mapBlockIndex.lookup k

section TopsChain

variable {hash k : ℕ} {top : CBlockIndex}

/-- Below the top the entries are as before, up to links forward. -/
theorem TopsChain.before
    (h : TopsChain st st' tip hash top) (hk : k ≠ hash) {pindex : CBlockIndex}
    (hEntry : st'.mapBlockIndex.lookup k = some pindex) :
    ∃ old, st.mapBlockIndex.lookup k = some old ∧ old.phashBlock = pindex.phashBlock ∧
      old.pprev = pindex.pprev ∧ old.nHeight = pindex.nHeight := by
  by_cases hkTip : k = tip
  · rw [hkTip, h.oldTip] at hEntry
    obtain ⟨old, hOld, rfl⟩ := Option.map_eq_some_iff.mp hEntry
    exact ⟨old, hkTip ▸ hOld, rfl, rfl, rfl⟩
  · rw [h.other k hk hkTip] at hEntry
    exact ⟨pindex, hEntry, rfl, rfl, rfl⟩

/-- The chain below a new tip is the old one. -/
theorem TopsChain.onBestChain
    (h : TopsChain st st' tip hash top) (hBest : st.pindexBest = some tip)
    (hOn : OnBestChain st' k) : k = hash ∨ OnBestChain st k := by
  induction hOn with
  | tip hTop =>
      rw [h.best, Option.some.injEq] at hTop
      exact Or.inl hTop.symm
  | @pprev k prev pindex hOn hEntry hPrev ih =>
      right
      by_cases hk : k = hash
      · rw [hk, h.entered, Option.some.injEq] at hEntry
        rw [← hEntry, h.pprev, Option.some.injEq] at hPrev
        rw [← hPrev]
        exact .tip hBest
      · obtain ⟨old, hOld, -, hSame, -⟩ := h.before hk hEntry
        exact .pprev (ih.resolve_left hk) hOld (hSame.trans hPrev)

/-- A main chain with an entry on top is a main chain. -/
theorem MainChain.of_topsChain
    (hChain : MainChain st tip) (h : TopsChain st st' tip hash top)
    (hHash : top.phashBlock = hash) (hPnext : top.pnext = none)
    (hHeight : ∀ before, st.mapBlockIndex.lookup tip = some before →
      top.nHeight = before.nHeight + 1) :
    MainChain st' hash := by
  have hOn : ∀ k, OnBestChain st' k → k = hash ∨ OnBestChain st k :=
    fun k => h.onBestChain hChain.best
  constructor
  · exact h.best
  · intro k pindex hEntry
    by_cases hk : k = hash
    · rw [hk, h.entered, Option.some.injEq] at hEntry
      rw [← hEntry, hHash, hk]
    · obtain ⟨old, hOld, hSame, -⟩ := h.before hk hEntry
      rw [← hSame]
      exact hChain.filed k old hOld
  · intro k hOnChain
    rw [Table.mem_iff_lookup]
    rcases hOn k hOnChain with rfl | hBelow
    · exact ⟨top, h.entered⟩
    · obtain ⟨old, hOld⟩ := Table.mem_iff_lookup.mp (hChain.entered k hBelow)
      have hk : k ≠ hash := fun hEq => h.offChain (hEq ▸ hBelow)
      by_cases hkTip : k = tip
      · rw [hkTip] at hOld ⊢
        exact ⟨_, by rw [h.oldTip, hOld]; rfl⟩
      · exact ⟨old, by rw [h.other k hk hkTip]; exact hOld⟩
  · intro pindex hEntry
    rw [h.entered, Option.some.injEq] at hEntry
    rw [← hEntry]
    exact hPnext
  · intro k prev pindex before hOnChain hEntry hPrev hBefore
    by_cases hk : k = hash
    · rw [hk, h.entered, Option.some.injEq] at hEntry
      rw [← hEntry, h.pprev, Option.some.injEq] at hPrev
      rw [← hPrev, h.oldTip] at hBefore
      obtain ⟨old, hOld, rfl⟩ := Option.map_eq_some_iff.mp hBefore
      rw [hk, ← hEntry]
      exact ⟨rfl, hHeight old hOld⟩
    · have hBelow := (hOn k hOnChain).resolve_left hk
      obtain ⟨old, hOld, -, hOldPrev, hOldHeight⟩ := h.before hk hEntry
      rw [hPrev] at hOldPrev
      have hPrevOn : OnBestChain st prev := .pprev hBelow hOld hOldPrev
      obtain ⟨oldPrev, hOldBefore⟩ := Table.mem_iff_lookup.mp (hChain.entered prev hPrevOn)
      have hLinked := hChain.linked k prev old oldPrev hBelow hOld hOldPrev hOldBefore
      have hPrevTip : prev ≠ tip := by
        intro hEq
        rw [hEq] at hOldBefore
        rw [hChain.last oldPrev hOldBefore] at hLinked
        cases hLinked.1
      have hPrevNe : prev ≠ hash := fun hEq => h.offChain (hEq ▸ hPrevOn)
      rw [h.other prev hPrevNe hPrevTip, hOldBefore, Option.some.injEq] at hBefore
      rw [← hBefore, ← hOldHeight]
      exact hLinked

end TopsChain

/-- A successful call of `SetBestChain` puts the block on top. -/
theorem topsChain_of_setBestChain
    (hBest : st.pindexBest = some tip) (hHashBest : st.hashBestChain = tip)
    (hMem : tip ∈ st.mapBlockIndex) (hNew : IsNewEntry env st block pindexNew)
    (hGenesis : ¬IsGenesisStep env st block)
    (h : setBestChain env st block pindexNew = .ok (true, st')) :
    ∃ top, TopsChain st st' tip (block.getHash env.prims) top ∧
      top.phashBlock = pindexNew.phashBlock ∧ top.pnext = pindexNew.pnext ∧
      top.nHeight = pindexNew.nHeight := by
  obtain ⟨txdb, r, hBegin, hConnect, -⟩ := txIndex_of_setBestChain h hGenesis
  have hLinks := (connectBlock_frame (BatchStore.inBatch_txnBegin hBegin) hConnect).2
  obtain ⟨hExtends, hTip, -, -, -, pprev, hPprev, hEntries⟩ :=
    setBestChain_entries hNew.entered hNew.phashBlock hGenesis hBegin hConnect h
  have hPrev : pindexNew.pprev = some tip := by
    rw [hNew.pprev, hExtends, hHashBest, if_pos hMem]
  obtain rfl : tip = pprev := Option.some.inj (hPrev.symm.trans hPprev)
  have hTipNe : tip ≠ block.getHash env.prims := fun hEq => hNew.offChain (hEq ▸ .tip hBest)
  refine ⟨r.pindex, ⟨hTip, hNew.offChain, ?_, ?_, ?_, ?_⟩, hLinks.phashBlock, hLinks.pnext,
    hLinks.nHeight⟩
  · rw [hLinks.pprev, hPrev]
  · rw [hEntries, if_pos rfl, Option.map_some, if_neg hTipNe.symm]
  · rw [hEntries, if_neg hTipNe]
    simp only [if_true]
  · intro k hk hkTip
    rw [hEntries, if_neg hk]
    simp only [if_neg hkTip, Option.map_id']

/-- A successful call of `SetBestChain` makes a main chain one block longer. -/
theorem MainChain.of_setBestChain
    (hChain : MainChain st tip) (hHashBest : st.hashBestChain = tip)
    (hNew : IsNewEntry env st block pindexNew) (hPnext : pindexNew.pnext = none)
    (hHeight : ∀ before, st.mapBlockIndex.lookup tip = some before →
      pindexNew.nHeight = before.nHeight + 1)
    (hGenesis : ¬IsGenesisStep env st block)
    (h : setBestChain env st block pindexNew = .ok (true, st')) :
    MainChain st' (block.getHash env.prims) := by
  obtain ⟨top, hTops, hHash, hNext, hTopHeight⟩ := topsChain_of_setBestChain hChain.best hHashBest
    (hChain.entered tip (.tip hChain.best)) hNew hGenesis h
  apply hChain.of_topsChain hTops
  · rw [hHash, hNew.phashBlock]
  · rw [hNext, hPnext]
  · intro before hBefore
    rw [hTopHeight, hHeight before hBefore]

/-- Between two calls everything may change but the tip and the entries of the chain, and
new entries lie under their hashes. -/
structure KeepsChain (st st' : ChainState) : Prop where
  pindexBest : st'.pindexBest = st.pindexBest
  hashBestChain : st'.hashBestChain = st.hashBestChain
  pindexGenesisBlock : st'.pindexGenesisBlock = st.pindexGenesisBlock
  filed : ∀ hash pindex, st'.mapBlockIndex.lookup hash = some pindex → pindex.phashBlock = hash
  lookup : ∀ k, OnBestChain st k → st'.mapBlockIndex.lookup k = st.mapBlockIndex.lookup k

theorem MainChain.of_keepsChain
    (hChain : MainChain st tip) (hKeeps : KeepsChain st st') : MainChain st' tip := by
  have hOn : ∀ hash, OnBestChain st' hash → OnBestChain st hash := by
    intro hash hHash
    induction hHash with
    | tip hTip => exact .tip (hKeeps.pindexBest.symm.trans hTip)
    | pprev _ hEntry hPrev ih => exact .pprev ih ((hKeeps.lookup _ ih).symm.trans hEntry) hPrev
  constructor
  · exact hKeeps.pindexBest.trans hChain.best
  · exact hKeeps.filed
  · intro hash hHash
    rw [Table.mem_iff_lookup, hKeeps.lookup hash (hOn hash hHash)]
    exact Table.mem_iff_lookup.mp (hChain.entered hash (hOn hash hHash))
  · rw [hKeeps.lookup tip (.tip hChain.best)]
    exact hChain.last
  · intro hash prev pindex before hHash hEntry hPrev hBefore
    rw [hKeeps.lookup hash (hOn hash hHash)] at hEntry
    rw [hKeeps.lookup prev (.pprev (hOn hash hHash) hEntry hPrev)] at hBefore
    exact hChain.linked hash prev pindex before (hOn hash hHash) hEntry hPrev hBefore

/-- `SetBestChain` makes a block the tip whose entry is as `AddToBlockIndex` built it, one
above its previous block and without a next one. -/
def GrowsChain (st : ChainState) (hashes : List ℕ) (st' : ChainState) : Prop :=
  ∃ env st₁ block pindexNew, KeepsChain st st₁ ∧ IsNewEntry env st₁ block pindexNew ∧
    pindexNew.pnext = none ∧
    (∀ before, st₁.mapBlockIndex.lookup block.hashPrevBlock = some before →
      pindexNew.nHeight = before.nHeight + 1) ∧
    setBestChain env st₁ block pindexNew = .ok (true, st') ∧
    hashes = [block.getHash env.prims]

/-- Along a run from a main chain there is a main chain up to the tip. -/
theorem mainChain_of_run
    {hashes : List ℕ} (hStart : MainChain st st.hashBestChain)
    (hGenesis : st.pindexGenesisBlock ≠ none) (hRun : Trace GrowsChain st hashes st') :
    MainChain st' st'.hashBestChain := by
  refine (Trace.invariant (I := fun _ st => MainChain st st.hashBestChain ∧
    st.pindexGenesisBlock ≠ none) ⟨hStart, hGenesis⟩ ?_ hRun).1
  rintro _ st _ st' ⟨hChain, hBuilt⟩
    ⟨env, st₁, block, pindexNew, hKeeps, hNew, hPnext, hHeight, hCall, -⟩
  have hNotGenesis : ¬IsGenesisStep env st₁ block := by
    intro hStep
    exact hBuilt (hKeeps.pindexGenesisBlock.symm.trans hStep.1)
  obtain ⟨txdb, r, hBegin, hConnect, -⟩ := txIndex_of_setBestChain hCall hNotGenesis
  obtain ⟨hExtends, -, hHashBest, hSame, -⟩ :=
    setBestChain_entries hNew.entered hNew.phashBlock hNotGenesis hBegin hConnect hCall
  rw [hHashBest, hSame, hKeeps.pindexGenesisBlock]
  refine ⟨(hChain.of_keepsChain hKeeps).of_setBestChain hKeeps.hashBestChain hNew hPnext ?_
    hNotGenesis hCall, hBuilt⟩
  rw [← hKeeps.hashBestChain, ← hExtends]
  exact hHeight

end Growth

/-! ## What the walk pushes -/

section Walk

variable {st : ChainState} {pindexBest : CBlockIndex}

/-- Every pushed block has a next one. -/
theorem exists_pnext_of_pushed
    {nLimit : ℕ} {pindex : Option ℕ} {inv : CInv}
    (h : inv ∈ (getblocksLoop st pindexBest nLimit pindex).inventory) :
    ∃ hash found, st.mapBlockIndex.lookup hash = some found ∧ inv.hash = found.phashBlock ∧
      found.pnext ≠ none := by
  induction nLimit generalizing pindex with
  | zero => simp [getblocksLoop] at h
  | succ nLimit ih =>
      unfold getblocksLoop at h
      cases hEntry : st.entry pindex with
      | none => simp [hEntry] at h
      | some found =>
          simp only [hEntry] at h
          obtain ⟨hash, rfl, hLookup⟩ := Option.bind_eq_some_iff.mp hEntry
          by_cases hLast : found.pnext = none
          · simp [hLast] at h
          · have hHere : ∀ inv : CInv, inv ∈ (if found.nHeight ≤ pindexBest.nHeight then
                [CInv.mk .MSG_BLOCK found.phashBlock] else []) →
                ∃ hash found, st.mapBlockIndex.lookup hash = some found ∧
                  inv.hash = found.phashBlock ∧ found.pnext ≠ none := by
              intro inv hInv
              split_ifs at hInv
              · rw [List.mem_singleton.mp hInv]
                exact ⟨hash, found, hLookup, rfl, hLast⟩
              · cases hInv
            rw [if_neg hLast] at h
            by_cases hLimit : nLimit = 0
            · rw [if_pos hLimit] at h
              exact hHere inv h
            · rw [if_neg hLimit] at h
              rcases List.mem_append.mp h with hNow | hLater
              · exact hHere inv hNow
              · exact ih hLater

/-- A walk below the limit pushes the block it starts at, if a block comes after it, and
goes on there. -/
theorem getblocksLoop_of_pnext
    {nLimit hash next : ℕ} {found : CBlockIndex} (hLimit : nLimit ≠ 0)
    (hEntry : st.mapBlockIndex.lookup hash = some found) (hPnext : found.pnext = some next)
    (hHeight : found.nHeight ≤ pindexBest.nHeight) :
    (getblocksLoop st pindexBest (nLimit + 1) (some hash)).inventory =
      CInv.mk .MSG_BLOCK found.phashBlock ::
        (getblocksLoop st pindexBest nLimit (some next)).inventory := by
  have hFound : st.entry (some hash) = some found := hEntry
  rw [getblocksLoop, hFound]
  simp [hPnext, hLimit, hHeight]

end Walk

/-! ## A peer that lags -/

/-- The responder has a best block that is 2400 seconds old at most. -/
def WithinWindow (env : Env) (st : ChainState) : Prop :=
  ∃ pindexBest, st.entry st.pindexBest = some pindexBest ∧
    (env.time : ℤ) - pindexBest.nTime ≤ 2400

/-- The answer to the locator of the requester's tip includes the block after it. -/
def PushesNext (env : Env) (requester responder : ChainState) (tip hashStop : ℕ) : Prop :=
  ∃ reply next, IsNextBlock responder tip next ∧
    getblocks env responder
      (CBlockLocator.set env.hashGenesisBlock requester requester.pindexBest) hashStop =
        .ok reply ∧
    CInv.mk .MSG_BLOCK next ∈ reply.inventory

section Lagging

variable {env : Env} {requester responder : ChainState} {tip best hashStop : ℕ}

/-- The handler walks from the requester's tip. -/
theorem getblocks_eq_loop
    (hRequester : MainChain requester tip) (hResponder : MainChain responder best)
    (hAncestor : OnBestChain responder tip) (hBehind : tip ≠ best)
    (hWindow : WithinWindow env responder) (hStop : hashStop ≠ 0) :
    ∃ pindexBest, responder.mapBlockIndex.lookup best = some pindexBest ∧
      getblocks env responder
        (CBlockLocator.set env.hashGenesisBlock requester requester.pindexBest) hashStop =
          .ok (getblocksLoop responder pindexBest 500 (some tip)) := by
  obtain ⟨pindexBest, hBest, hRecent⟩ := hWindow
  obtain ⟨own, hOwn⟩ := Table.mem_iff_lookup.mp
    (hRequester.entered tip (.tip hRequester.best))
  obtain ⟨rest, hHave⟩ := CBlockLocator.exists_vHave_eq env.hashGenesisBlock
    (show requester.entry requester.pindexBest = some own by rw [hRequester.best]; exact hOwn)
  rw [hRequester.filed tip own hOwn] at hHave
  obtain ⟨next, hNext⟩ := hResponder.exists_next hAncestor hBehind
  obtain ⟨found, hFound, -, hPnext⟩ := hResponder.entry_of_next hNext
  have hIndex := CBlockLocator.getBlockIndex_of_head rest hFound
    (by simp [ChainState.isInMainChain, hPnext])
  have hLocator : CBlockLocator.set env.hashGenesisBlock requester requester.pindexBest =
      ⟨tip :: rest⟩ := by
    rw [← hHave]
  refine ⟨pindexBest, by rw [hResponder.best] at hBest; exact hBest, ?_⟩
  unfold getblocks
  rw [if_neg hStop, hBest, hLocator, hIndex]
  have hEntry : responder.entry (some tip) = some found := hFound
  simp only [deref, ok_bind, hEntry, gt_iff_lt, not_lt.mpr hRecent, if_false]

/-- The handler pushes the block after the requester's tip exactly when that block is not
the responder's own tip. -/
theorem getblocks_pushesNext_iff
    (hRequester : MainChain requester tip) (hResponder : MainChain responder best)
    (hAncestor : OnBestChain responder tip) (hBehind : tip ≠ best)
    (hWindow : WithinWindow env responder) (hStop : hashStop ≠ 0) :
    PushesNext env requester responder tip hashStop ↔ ¬IsNextBlock responder tip best := by
  obtain ⟨pindexBest, hBest, hReply⟩ :=
    getblocks_eq_loop hRequester hResponder hAncestor hBehind hWindow hStop
  unfold PushesNext
  rw [hReply]
  constructor
  · rintro ⟨reply, next, hNext, hOk, hPushed⟩ hTip
    cases hOk
    have hSame := hResponder.next_unique hNext hTip
    obtain ⟨hash, found, hFound, hHash, hPnext⟩ := exists_pnext_of_pushed hPushed
    have hFiled : hash = best :=
      (hResponder.filed _ _ hFound).symm.trans (hHash.symm.trans hSame)
    rw [hFiled] at hFound
    exact hPnext (hResponder.last found hFound)
  · intro hNotTip
    obtain ⟨next, hNext⟩ := hResponder.exists_next hAncestor hBehind
    have hNe : next ≠ best := fun hEq => hNotTip (hEq ▸ hNext)
    obtain ⟨after, hAfter⟩ := hResponder.exists_next hNext.1 hNe
    obtain ⟨found, hFound, -, hPnext⟩ := hResponder.entry_of_next hNext
    obtain ⟨found', hFound', hHash', hPnext'⟩ := hResponder.entry_of_next hAfter
    refine ⟨_, next, hNext, rfl, ?_⟩
    rw [getblocksLoop_of_pnext (by decide) hFound hPnext
      (hResponder.nHeight_le hAncestor hFound hBest),
      getblocksLoop_of_pnext (by decide) hFound' hPnext'
      (hResponder.nHeight_le hNext.1 hFound' hBest), hHash']
    exact List.mem_cons_of_mem _ List.mem_cons_self

end Lagging

/-! ## Peers one and two blocks behind -/

namespace Sample

theorem mainChain_nodeWith : MainChain (nodeWith []) 500 := by
  have hOn : ∀ hash, OnBestChain (nodeWith []) hash → hash ∈ [500] :=
    fun hash hHash => mem_of_onBestChain (by decide +kernel) (by decide +kernel) hHash
  have hLookup : ∀ hash, (nodeWith []).mapBlockIndex.lookup hash =
      if hash = 500 then some tipEntry else none := by
    intro hash
    refine (Table.lookup_insert_ite _ _ _ _).trans ?_
    split_ifs <;> rfl
  constructor
  · rfl
  · intro hash pindex hEntry
    rw [hLookup] at hEntry
    split_ifs at hEntry with hHash
    rw [← Option.some.inj hEntry, hHash]
    rfl
  · intro hash hHash
    rw [List.mem_singleton.mp (hOn hash hHash)]
    decide +kernel
  · intro pindex hEntry
    rw [hLookup, if_pos rfl, Option.some.injEq] at hEntry
    rw [← hEntry]
    rfl
  · intro hash prev pindex before hHash hEntry hPrev
    rw [hLookup, if_pos (List.mem_singleton.mp (hOn hash hHash)), Option.some.injEq] at hEntry
    rw [← hEntry] at hPrev
    cases hPrev

/-- Entering a fresh block leaves the chain as it is. -/
theorem IsFresh.keepsChain
    {st : ChainState} {block : CBlock} {hashes : List ℕ} (h : IsFresh st block hashes)
    (hFiled : ∀ hash pindex, st.mapBlockIndex.lookup hash = some pindex →
      pindex.phashBlock = hash) (nBlockPos : ℕ) :
    KeepsChain st (enter st block nBlockPos).1 := by
  constructor
  · rfl
  · rfl
  · rfl
  · intro hash pindex hEntry
    rw [Sample.lookup_enter] at hEntry
    split_ifs at hEntry with hHash
    · rw [← Option.some.inj hEntry, hHash]
      rfl
    · exact hFiled hash pindex hEntry
  · intro hash hOn
    exact h.lookup_enter hOn

theorem IsFresh.mainChain
    {st : ChainState} {block : CBlock} {nBlockPos : ℕ} {hashes : List ℕ}
    (h : IsFresh st block hashes) (hPosition : 1 < nBlockPos)
    (hChain : MainChain st st.hashBestChain)
    (hHeight : (st.entry st.pindexBest).all (·.nHeight = st.nBestHeight) = true)
    (hGenesis : st.pindexGenesisBlock ≠ none)
    (hDone : (connectNext st block nBlockPos).map Prod.fst = .ok true) :
    MainChain (stateAfter st block nBlockPos) (block.getHash prims) := by
  have hKeeps := h.keepsChain hChain.filed nBlockPos
  refine (hChain.of_keepsChain hKeeps).of_setBestChain rfl (h.isNewEntry hPosition) rfl ?_
    (fun hStep => hGenesis hStep.1) (connectNext_of_done hDone)
  intro before hBefore
  rw [h.lookup_enter (.tip hChain.best)] at hBefore
  rw [hChain.best] at hHeight
  have hEntry : st.entry (some st.hashBestChain) = some before := hBefore
  rw [hEntry] at hHeight
  have hSame : before.nHeight = st.nBestHeight := by simpa using hHeight
  rw [hSame]
  rfl

theorem mainChain_entered :
    MainChain minted (mintingBlock.getHash prims) ∧
      MainChain spentOnce (firstSpend.getHash prims) ∧
      IsNextBlock minted 500 (mintingBlock.getHash prims) := by
  have hMinted : MainChain minted (mintingBlock.getHash prims) :=
    mintingBlock_isFresh.mainChain (by decide) mainChain_nodeWith (by decide +kernel)
      (by decide +kernel) (by decide +kernel)
  have hHash : minted.hashBestChain = mintingBlock.getHash prims := by decide +kernel
  have hPrev : (minted.mapBlockIndex.lookup (mintingBlock.getHash prims)).map CBlockIndex.pprev =
      some (some 500) := by decide +kernel
  refine ⟨hMinted, ?_, .tip hMinted.best, Option.map_eq_some_iff.mp hPrev⟩
  exact firstSpend_isFresh.mainChain (by decide) (by rw [hHash]; exact hMinted)
    (by decide +kernel) (by decide +kernel) (by decide +kernel)

theorem mainChain_minted : MainChain minted (mintingBlock.getHash prims) := mainChain_entered.1

theorem mainChain_spentOnce : MainChain spentOnce (firstSpend.getHash prims) :=
  mainChain_entered.2.1

theorem isNextBlock_minted : IsNextBlock minted 500 (mintingBlock.getHash prims) :=
  mainChain_entered.2.2

/-- The chain of the node after the block with the coinbase. -/
theorem mainChain_of_mintingBlock : MainChain minted minted.hashBestChain := by
  have hChain : MainChain (nodeWith []) (nodeWith []).hashBestChain := mainChain_nodeWith
  have hFresh := mintingBlock_isFresh
  refine mainChain_of_run hChain (by decide +kernel) (.next .start ⟨env 900, _, mintingBlock, _,
    hFresh.keepsChain hChain.filed 200, hFresh.isNewEntry (by decide), rfl, ?_,
    connectNext_of_done (by decide +kernel), rfl⟩)
  intro before hBefore
  rw [hFresh.lookup_enter (.tip hFresh.prev)] at hBefore
  rw [← Option.some.inj hBefore]
  rfl

theorem withinWindow_of_recent
    {env : Env} {st : ChainState}
    (h : (st.entry st.pindexBest).any (fun pindexBest => (env.time : ℤ) - pindexBest.nTime ≤ 2400) =
      true) : WithinWindow env st := by
  cases hBest : st.entry st.pindexBest with
  | none => simp [hBest] at h
  | some pindexBest =>
      rw [hBest] at h
      exact ⟨pindexBest, hBest, by simpa using h⟩

/-- A peer one block behind is not told of the block it misses. -/
theorem tip_not_pushed :
    (MainChain (nodeWith []) 500 ∧ MainChain minted (mintingBlock.getHash prims) ∧
      OnBestChain minted 500 ∧ 500 ≠ mintingBlock.getHash prims ∧
      WithinWindow (env 900) minted) ∧
    ¬PushesNext (env 900) (nodeWith []) minted 500 1 := by
  obtain ⟨hOn, pindex, hEntry, hPrev⟩ := isNextBlock_minted
  refine ⟨⟨mainChain_nodeWith, mainChain_minted, .pprev hOn hEntry hPrev, by decide +kernel,
    withinWindow_of_recent (by decide +kernel)⟩, ?_⟩
  rintro ⟨reply, next, hNext, hReply, hPushed⟩
  rw [mainChain_minted.next_unique hNext isNextBlock_minted] at hPushed
  have hNot : (getblocks (env 900) minted
      (CBlockLocator.set (env 900).hashGenesisBlock (nodeWith []) (nodeWith []).pindexBest) 1).map
      (fun reply => decide (CInv.mk .MSG_BLOCK (mintingBlock.getHash prims) ∈ reply.inventory)) =
        .ok false := by decide +kernel
  rw [hReply] at hNot
  simp [Except.map, hPushed] at hNot

/-- A peer two blocks behind is told of the first of them. -/
theorem block_before_tip_pushed :
    PushesNext (env 900) (nodeWith []) spentOnce 500 1 ↔
      ¬IsNextBlock spentOnce 500 (firstSpend.getHash prims) := by
  have hTop : (spentOnce.mapBlockIndex.lookup (firstSpend.getHash prims)).map CBlockIndex.pprev =
      some (some (mintingBlock.getHash prims)) := by decide +kernel
  have hBelow : (spentOnce.mapBlockIndex.lookup (mintingBlock.getHash prims)).map
      CBlockIndex.pprev = some (some 500) := by decide +kernel
  obtain ⟨top, hTopEntry, hTopPrev⟩ := Option.map_eq_some_iff.mp hTop
  obtain ⟨below, hBelowEntry, hBelowPrev⟩ := Option.map_eq_some_iff.mp hBelow
  exact getblocks_pushesNext_iff mainChain_nodeWith mainChain_spentOnce
    (.pprev (.pprev (.tip mainChain_spentOnce.best) hTopEntry hTopPrev) hBelowEntry hBelowPrev)
    (by decide +kernel) (withinWindow_of_recent (by decide +kernel)) (by decide)

end Sample

end SocietyGold
