import SocietyGold.GetBlocks
import SocietyGold.MasternodeAnnounce

/-!
# Finding a block by its height

`FindBlockByHeight` starts from the genesis block, the tip or the block it found
last, and walks down or up the main chain.  The block found last is kept in a
static variable that `SetBestChain` clears.  On a main chain a block is at the
position of its height, so wherever the walk starts on it, it arrives.
-/

namespace SocietyGold

open Support

/-! ## Main chains by height -/

/-- The main chain of a node from the genesis block on: a block has its position
as its height and is linked with its neighbours, and the last one is the tip. -/
structure HasChain (st : ChainState) (chain : List ℕ) : Prop where
  genesis : st.pindexGenesisBlock = chain.head?
  best : st.pindexBest = chain.getLast?
  bestHash : chain.getLast? = some st.hashBestChain
  height : st.nBestHeight + 1 = chain.length
  entry : ∀ i hash : ℕ, chain[i]? = some hash → ∃ pindex,
    st.mapBlockIndex.lookup hash = some pindex ∧ pindex.phashBlock = hash ∧
      pindex.nHeight = i ∧ pindex.pprev = (if i = 0 then none else chain[i - 1]?) ∧
      pindex.pnext = chain[i + 1]?

section HasChain

variable {st : ChainState} {chain : List ℕ}

theorem HasChain.ne_nil (h : HasChain st chain) : chain ≠ [] := by
  rintro rfl
  cases h.bestHash

theorem HasChain.nodup (h : HasChain st chain) : chain.Nodup := by
  rw [List.nodup_iff_getElem?_ne_getElem?]
  intro i j hij hj hEq
  obtain ⟨pindex, hEntry, -, hHeight, -⟩ := h.entry j chain[j] (List.getElem?_eq_getElem hj)
  rw [List.getElem?_eq_getElem hj] at hEq
  obtain ⟨pindex', hEntry', -, hHeight', -⟩ := h.entry i chain[j] hEq
  rw [hEntry, Option.some.injEq] at hEntry'
  rw [hEntry', hHeight'] at hHeight
  omega

/-- The chain has no more blocks than the index. -/
theorem HasChain.length_le (h : HasChain st chain) :
    chain.length ≤ st.mapBlockIndex.entries.length := by
  apply Table.length_le_of_nodup h.nodup
  intro hash hMem
  obtain ⟨i, hi⟩ := List.getElem?_of_mem hMem
  obtain ⟨pindex, hEntry, -⟩ := h.entry i hash hi
  exact Table.mem_iff_lookup.mpr ⟨pindex, hEntry⟩

/-- The block at a position of the chain. -/
def IsAt (st : ChainState) (chain : List ℕ) (i : ℕ) (pindex : CBlockIndex) : Prop :=
  chain[i]? = some pindex.phashBlock ∧ st.mapBlockIndex.lookup pindex.phashBlock = some pindex

theorem HasChain.of_isAt (h : HasChain st chain) {i : ℕ} {pindex : CBlockIndex}
    (hAt : IsAt st chain i pindex) :
    pindex.nHeight = i ∧ pindex.pprev = (if i = 0 then none else chain[i - 1]?) ∧
      pindex.pnext = chain[i + 1]? := by
  obtain ⟨pindex', hEntry, -, hRest⟩ := h.entry i pindex.phashBlock hAt.1
  rw [hAt.2, Option.some.injEq] at hEntry
  rw [hEntry]
  exact hRest

theorem IsAt.unique {i : ℕ} {pindex pindex' : CBlockIndex} (hAt : IsAt st chain i pindex)
    (hAt' : IsAt st chain i pindex') : pindex = pindex' := by
  have hHash := Option.some.inj (hAt.1.symm.trans hAt'.1)
  have hEntry := hAt.2
  rw [hHash, hAt'.2, Option.some.injEq] at hEntry
  exact hEntry.symm

theorem HasChain.entry_isAt (h : HasChain st chain) {i hash : ℕ} (hi : chain[i]? = some hash) :
    ∃ pindex, st.entry (some hash) = some pindex ∧ IsAt st chain i pindex := by
  obtain ⟨pindex, hEntry, hHash, -⟩ := h.entry i hash hi
  exact ⟨pindex, hEntry, by rw [hHash, hi], by rw [hHash, hEntry]⟩

/-! ## The walk -/

/-- Down from a block of the chain to the height; a block below it stays. -/
theorem HasChain.walkDown_eq
    (h : HasChain st chain) {i n fuel : ℕ} {pindex : CBlockIndex} (hAt : IsAt st chain i pindex)
    (hFuel : i - n < fuel) :
    ∃ found, walkDown st n fuel pindex = .ok found ∧ IsAt st chain (min i n) found := by
  induction fuel generalizing i pindex with
  | zero => exact absurd hFuel (Nat.not_lt_zero _)
  | succ fuel ih =>
      obtain ⟨hHeight, hPrev, -⟩ := h.of_isAt hAt
      have hInside := (List.getElem?_eq_some_iff.mp hAt.1).1
      rw [walkDown, hHeight]
      by_cases hAbove : (i : ℤ) > n
      · have hPred : i - 1 < chain.length := by omega
        have hDown : min (i - 1) n = min i n := by omega
        rw [if_neg (by omega), List.getElem?_eq_getElem hPred] at hPrev
        obtain ⟨pprev, hEntry, hAt'⟩ := h.entry_isAt (List.getElem?_eq_getElem hPred)
        rw [if_pos hAbove, hPrev, hEntry, deref_some, ok_bind, ← hDown]
        exact ih hAt' (by omega)
      · have hHere : min i n = i := by omega
        rw [if_neg hAbove, hHere]
        exact ⟨pindex, rfl, hAt⟩

/-- Up from a block of the chain to the height. -/
theorem HasChain.walkUp_eq
    (h : HasChain st chain) {i n fuel : ℕ} {pindex : CBlockIndex} (hAt : IsAt st chain i pindex)
    (hLe : i ≤ n) (hIn : n < chain.length) (hFuel : n - i < fuel) :
    ∃ found, walkUp st n fuel pindex = .ok found ∧ IsAt st chain n found := by
  induction fuel generalizing i pindex with
  | zero => exact absurd hFuel (Nat.not_lt_zero _)
  | succ fuel ih =>
      obtain ⟨hHeight, -, hNext⟩ := h.of_isAt hAt
      rw [walkUp, hHeight]
      by_cases hBelow : (i : ℤ) < n
      · have hSucc : i + 1 < chain.length := by omega
        rw [List.getElem?_eq_getElem hSucc] at hNext
        obtain ⟨pnext, hEntry, hAt'⟩ := h.entry_isAt (List.getElem?_eq_getElem hSucc)
        rw [if_pos hBelow, hNext, hEntry, deref_some, ok_bind]
        exact ih hAt' (by omega) (by omega)
      · obtain rfl : i = n := by omega
        rw [if_neg hBelow]
        exact ⟨pindex, rfl, hAt⟩

/-- Whichever block of the chain the cache holds, the block of the height is found. -/
theorem HasChain.findBlockByHeight_eq
    (h : HasChain st chain) {last : Option ℕ} (hLast : ∀ hash, last = some hash → hash ∈ chain)
    {n : ℕ} (hIn : n < chain.length) :
    ∃ found, findBlockByHeight st last n = .ok found ∧ IsAt st chain n found := by
  have hLength := h.length_le
  have hLengthPos : 0 < chain.length := Nat.zero_lt_of_lt hIn
  -- the genesis block or the tip
  obtain ⟨start, hStart, i, hAt⟩ : ∃ start,
      st.entry (if (n : ℤ) < st.nBestHeight.tdiv 2 then st.pindexGenesisBlock
        else st.pindexBest) = some start ∧ ∃ i, IsAt st chain i start := by
    split_ifs
    · rw [h.genesis, List.head?_eq_getElem?, List.getElem?_eq_getElem hLengthPos]
      obtain ⟨start, hEntry, hAt⟩ := h.entry_isAt (List.getElem?_eq_getElem hLengthPos)
      exact ⟨start, hEntry, 0, hAt⟩
    · have hTop : chain.length - 1 < chain.length := by omega
      rw [h.best, List.getLast?_eq_getElem?, List.getElem?_eq_getElem hTop]
      obtain ⟨start, hEntry, hAt⟩ := h.entry_isAt (List.getElem?_eq_getElem hTop)
      exact ⟨start, hEntry, _, hAt⟩
  -- or the cached block
  have hWalk {j : ℕ} {pindex : CBlockIndex} (hAt : IsAt st chain j pindex) :
      ∃ found, (walkDown st n (st.mapBlockIndex.entries.length + 1) pindex >>= fun pblockindex =>
        walkUp st n (st.mapBlockIndex.entries.length + 1) pblockindex) = .ok found ∧
        IsAt st chain n found := by
    have hInside := (List.getElem?_eq_some_iff.mp hAt.1).1
    have hFuel : j - n < st.mapBlockIndex.entries.length + 1 := by omega
    obtain ⟨lower, hDown, hLower⟩ := h.walkDown_eq hAt hFuel
    rw [hDown, ok_bind]
    exact h.walkUp_eq hLower (Nat.min_le_right _ _) hIn (by omega)
  unfold findBlockByHeight
  rw [hStart, deref_some, ok_bind]
  cases last with
  | none => exact hWalk hAt
  | some hash =>
      obtain ⟨j, hj⟩ := List.getElem?_of_mem (hLast hash rfl)
      obtain ⟨cached, hEntry, hCached⟩ := h.entry_isAt hj
      rw [hEntry]
      dsimp only
      split_ifs
      · exact hWalk hCached
      · exact hWalk hAt

/-! ## Runs -/

/-- From the tip the chain leads down to each of its blocks. -/
theorem HasChain.onBestChain (h : HasChain st chain) {hash : ℕ} (hMem : hash ∈ chain) :
    OnBestChain st hash := by
  have hDown : ∀ k i : ℕ, i + k + 1 = chain.length → ∀ hash, chain[i]? = some hash →
      OnBestChain st hash := by
    intro k
    induction k with
    | zero =>
        intro i hi hash hAt
        apply OnBestChain.tip
        rw [h.best, List.getLast?_eq_getElem?, ← hi, Nat.add_zero, Nat.add_sub_cancel, hAt]
    | succ k ih =>
        intro i hi hash hAt
        have hNext : chain[i + 1]? = some chain[i + 1] := List.getElem?_eq_getElem (by omega)
        obtain ⟨pindex, hEntry, -, -, hPrev, -⟩ := h.entry _ _ hNext
        refine .pprev (ih (i + 1) (by omega) _ hNext) hEntry ?_
        rw [hPrev, if_neg (Nat.succ_ne_zero i), Nat.add_sub_cancel, hAt]
  obtain ⟨i, hi⟩ := List.getElem?_of_mem hMem
  have hInside := (List.getElem?_eq_some_iff.mp hi).1
  exact hDown (chain.length - 1 - i) i (by omega) hash hi

/-- And nowhere else. -/
theorem HasChain.mem_of_onBestChain (h : HasChain st chain) {hash : ℕ}
    (hOn : OnBestChain st hash) : hash ∈ chain := by
  induction hOn with
  | tip hTip =>
      rw [h.best] at hTip
      exact List.mem_of_getLast? hTip
  | pprev _ hEntry hPrev ih =>
      obtain ⟨i, hi⟩ := List.getElem?_of_mem ih
      obtain ⟨pindex, hEntry', -, -, hPrev', -⟩ := h.entry i _ hi
      rw [hEntry, Option.some.injEq] at hEntry'
      rw [← hEntry', hPrev] at hPrev'
      split_ifs at hPrev'
      exact List.mem_of_getElem? hPrev'.symm

/-- The chain stays while its entries do. -/
theorem HasChain.of_keepsChain
    {st' : ChainState} (h : HasChain st chain) (hKeeps : KeepsChain st st')
    (hHeight : st'.nBestHeight = st.nBestHeight) : HasChain st' chain := by
  constructor
  · rw [hKeeps.pindexGenesisBlock, h.genesis]
  · rw [hKeeps.pindexBest, h.best]
  · rw [hKeeps.hashBestChain, h.bestHash]
  · rw [hHeight, h.height]
  · intro i hash hi
    rw [hKeeps.lookup hash (h.onBestChain (List.mem_of_getElem? hi))]
    exact h.entry i hash hi

theorem HasChain.getElem?_tip (h : HasChain st chain) :
    chain[chain.length - 1]? = some st.hashBestChain := by
  rw [← List.getLast?_eq_getElem?, h.bestHash]

/-- A block on top makes the chain one longer. -/
theorem HasChain.of_topsChain
    {st' : ChainState} {hash : ℕ} {top : CBlockIndex} (h : HasChain st chain)
    (hTops : TopsChain st st' st.hashBestChain hash top) (hHash : top.phashBlock = hash)
    (hPnext : top.pnext = none) (hHeight : top.nHeight = chain.length)
    (hGenesis : st'.pindexGenesisBlock = st.pindexGenesisBlock)
    (hBestHash : st'.hashBestChain = hash) (hBestHeight : st'.nBestHeight = chain.length) :
    HasChain st' (chain ++ [hash]) := by
  have hPos : 0 < chain.length := List.length_pos_of_ne_nil h.ne_nil
  have hTip := h.getElem?_tip
  constructor
  · rw [hGenesis, h.genesis, List.head?_append_of_ne_nil _ h.ne_nil]
  · rw [hTops.best, List.getLast?_append, List.getLast?_singleton, Option.some_or]
  · rw [hBestHash, List.getLast?_append, List.getLast?_singleton, Option.some_or]
  · rw [hBestHeight, List.length_append, List.length_singleton]
    rfl
  intro i k hi
  by_cases hOld : i < chain.length
  · rw [List.getElem?_append_left hOld] at hi
    have hNe : k ≠ hash := by
      rintro rfl
      exact hTops.offChain (h.onBestChain (List.mem_of_getElem? hi))
    obtain ⟨pindex, hEntry, hKey, hLevel, hPrev, hNext⟩ := h.entry i k hi
    have hPrev' : pindex.pprev = if i = 0 then none else (chain ++ [hash])[i - 1]? := by
      rw [hPrev, List.getElem?_append_left (by omega)]
    by_cases hLast : i + 1 = chain.length
    · obtain rfl : k = st.hashBestChain := by
        rw [← hLast, Nat.add_sub_cancel, hi, Option.some.injEq] at hTip
        exact hTip
      refine ⟨{ pindex with pnext := some hash }, ?_, hKey, hLevel, hPrev', ?_⟩
      · rw [hTops.oldTip, hEntry]
        rfl
      · rw [hLast, List.getElem?_concat_length]
    · have hNeTip : k ≠ st.hashBestChain := by
        rintro rfl
        have hSame := (List.getElem?_inj hOld h.nodup).mp (hi.trans hTip.symm)
        omega
      refine ⟨pindex, ?_, hKey, hLevel, hPrev', ?_⟩
      · rw [hTops.other k hNe hNeTip, hEntry]
      · rw [hNext, List.getElem?_append_left (by omega)]
  · have hInside := (List.getElem?_eq_some_iff.mp hi).1
    rw [List.length_append, List.length_singleton] at hInside
    obtain rfl : i = chain.length := by omega
    rw [List.getElem?_concat_length, Option.some.injEq] at hi
    rw [← hi]
    refine ⟨top, hTops.entered, hHash, hHeight, ?_, ?_⟩
    · rw [hTops.pprev, if_neg (by omega), List.getElem?_append_left (by omega), hTip]
    · rw [hPnext, List.getElem?_eq_none (by simp)]

theorem HasChain.of_setBestChain
    {env : Env} {st' : ChainState} {block : CBlock} {pindexNew : CBlockIndex}
    (h : HasChain st chain) (hNew : IsNewEntry env st block pindexNew)
    (hPnext : pindexNew.pnext = none)
    (hHeight : ∀ before, st.mapBlockIndex.lookup block.hashPrevBlock = some before →
      pindexNew.nHeight = before.nHeight + 1)
    (hCall : setBestChain env st block pindexNew = .ok (true, st')) :
    HasChain st' (chain ++ [block.getHash env.prims]) := by
  have hGenesis : ¬IsGenesisStep env st block := by
    intro hStep
    rw [IsGenesisStep, h.genesis] at hStep
    exact h.ne_nil (List.head?_eq_none_iff.mp hStep.1)
  have hPos : 0 < chain.length := List.length_pos_of_ne_nil h.ne_nil
  obtain ⟨before, hBefore, -, hLevel, -⟩ := h.entry _ _ h.getElem?_tip
  obtain ⟨top, hTops, hTopHash, hTopNext, hTopHeight⟩ :=
    topsChain_of_setBestChain (h.best.trans h.bestHash) rfl
      (Table.mem_iff_lookup.mpr ⟨before, hBefore⟩) hNew hGenesis hCall
  obtain ⟨txdb, r, hBegin, hConnect, -⟩ := txIndex_of_setBestChain hCall hGenesis
  obtain ⟨hExtends, -, hHashBest, hSame, -⟩ :=
    setBestChain_entries hNew.entered hNew.phashBlock hGenesis hBegin hConnect hCall
  obtain ⟨_, _, _, st₁, _, _, _, _, _, hTip⟩ := attached_of_setBestChain hCall hGenesis
  have hBestHeight : st'.nBestHeight = pindexNew.nHeight := by
    rw [hTip]
    rfl
  have hNewHeight : pindexNew.nHeight = chain.length := by
    rw [hHeight before (hExtends ▸ hBefore), hLevel]
    omega
  apply h.of_topsChain hTops
  · rw [hTopHash, hNew.phashBlock]
  · rw [hTopNext, hPnext]
  · rw [hTopHeight, hNewHeight]
  · exact hSame
  · exact hHashBest
  · rw [hBestHeight, hNewHeight]

/-- The genesis block makes a chain of its own. -/
theorem hasChain_of_genesisStep
    {env : Env} {st' : ChainState} {block : CBlock} {pindexNew : CBlockIndex}
    (hGenesis : IsGenesisStep env st block) (hExtends : block.hashPrevBlock = st.hashBestChain)
    (hEntered : st.mapBlockIndex.lookup (block.getHash env.prims) = some pindexNew)
    (hHash : pindexNew.phashBlock = block.getHash env.prims) (hPprev : pindexNew.pprev = none)
    (hPnext : pindexNew.pnext = none) (hHeight : pindexNew.nHeight = 0)
    (hCall : setBestChain env st block pindexNew = .ok (true, st')) :
    HasChain st' [block.getHash env.prims] := by
  obtain ⟨-, txdb', -, -, -, hEnd⟩ := genesis_of_setBestChain hExtends hGenesis hCall
  rw [if_pos rfl] at hEnd
  subst hEnd
  constructor
  · exact congrArg some hHash
  · exact congrArg some hHash
  · rfl
  · exact congrArg (· + 1) hHeight
  · intro i hash hi
    obtain ⟨rfl, rfl⟩ : i = 0 ∧ hash = block.getHash env.prims := by
      cases i with
      | zero => exact ⟨rfl, (Option.some.inj hi).symm⟩
      | succ i => cases hi
    exact ⟨pindexNew, hEntered, hHash, hHeight, hPprev, hPnext⟩

end HasChain

/-- A node and the static variable of `FindBlockByHeight`. -/
structure FinderState where
  node : ChainState
  pblockindexFBBHLast : Option ℕ

/-- What happens, with the height that is asked for: the tip and the entries of the
chain stay, `SetBestChain` puts a block on top that `AddToBlockIndex` entered, or a
block is looked for. -/
inductive FinderStep : FinderState → List ℤ → FinderState → Prop
  | other {st st' : ChainState} {last : Option ℕ} (hKeeps : KeepsChain st st')
      (hHeight : st'.nBestHeight = st.nBestHeight) : FinderStep ⟨st, last⟩ [] ⟨st', last⟩
  | extended {env : Env} {st st' : ChainState} {last : Option ℕ} {block : CBlock}
      {pindexNew : CBlockIndex} (hNew : IsNewEntry env st block pindexNew)
      (hPnext : pindexNew.pnext = none)
      (hHeight : ∀ before, st.mapBlockIndex.lookup block.hashPrevBlock = some before →
        pindexNew.nHeight = before.nHeight + 1)
      (hCall : setBestChain env st block pindexNew = .ok (true, st')) :
      FinderStep ⟨st, last⟩ [] ⟨st', none⟩
  | found {st : ChainState} {last : Option ℕ} {nHeight : ℤ} {pblockindex : CBlockIndex}
      (hRange : 0 ≤ nHeight ∧ nHeight ≤ st.nBestHeight)
      (hCall : findBlockByHeight st last nHeight = .ok pblockindex) :
      FinderStep ⟨st, last⟩ [nHeight] ⟨st, some pblockindex.phashBlock⟩

/-- The main-chain block of a height. -/
def IsBlockOfHeight (st : ChainState) (nHeight : ℤ) (pblockindex : CBlockIndex) : Prop :=
  OnBestChain st pblockindex.phashBlock ∧
    st.mapBlockIndex.lookup pblockindex.phashBlock = some pblockindex ∧
    pblockindex.nHeight = nHeight

/-- The cache holds a block of the main chain, if any. -/
def CacheOnChain (s : FinderState) : Prop :=
  ∃ chain, HasChain s.node chain ∧ ∀ hash, s.pblockindexFBBHLast = some hash → hash ∈ chain

theorem cacheOnChain_of_step
    {s s' : FinderState} {asked : List ℤ} (h : CacheOnChain s) (hStep : FinderStep s asked s') :
    CacheOnChain s' := by
  obtain ⟨chain, hChain, hLast⟩ := h
  cases hStep with
  | other hKeeps hHeight => exact ⟨chain, hChain.of_keepsChain hKeeps hHeight, hLast⟩
  | extended hNew hPnext hHeight hCall =>
      refine ⟨_, hChain.of_setBestChain hNew hPnext hHeight hCall, ?_⟩
      intro hash hNone
      cases hNone
  | @found st last nHeight pblockindex hRange hCall =>
      obtain ⟨n, rfl⟩ := Int.eq_ofNat_of_zero_le hRange.1
      have hIn : n < chain.length := by
        have hTop := hChain.height
        have hLe := hRange.2
        dsimp only at hTop
        omega
      obtain ⟨found, hFound, hAt⟩ := hChain.findBlockByHeight_eq hLast hIn
      have hSame := hCall.symm.trans hFound
      obtain rfl := Except.ok.inj hSame
      refine ⟨chain, hChain, ?_⟩
      rintro hash ⟨rfl⟩
      exact List.mem_of_getElem? hAt.1

/-- In every run from a node with a main chain, whatever was asked for before and
however the chain grew, the block of each height up to the best is found. -/
theorem findBlockByHeight_finds
    {st : ChainState} {chain : List ℕ} (hStart : HasChain st chain) {asked : List ℤ}
    {s : FinderState} (hRun : Trace FinderStep ⟨st, none⟩ asked s) (nHeight : ℤ)
    (hRange : 0 ≤ nHeight ∧ nHeight ≤ s.node.nBestHeight) :
    ∃ pblockindex, findBlockByHeight s.node s.pblockindexFBBHLast nHeight = .ok pblockindex ∧
      IsBlockOfHeight s.node nHeight pblockindex ∧
      ∀ other, IsBlockOfHeight s.node nHeight other → other = pblockindex := by
  have hCache : CacheOnChain s := by
    apply Trace.invariant (I := fun _ s => CacheOnChain s) _ _ hRun
    · refine ⟨chain, hStart, ?_⟩
      intro hash hNone
      cases hNone
    · exact fun _ _ _ _ hInv hStep => cacheOnChain_of_step hInv hStep
  obtain ⟨chain, hChain, hLast⟩ := hCache
  obtain ⟨n, rfl⟩ := Int.eq_ofNat_of_zero_le hRange.1
  have hIn : n < chain.length := by
    have hTop := hChain.height
    have hLe := hRange.2
    omega
  obtain ⟨found, hFound, hAt⟩ := hChain.findBlockByHeight_eq hLast hIn
  refine ⟨found, hFound, ⟨hChain.onBestChain (List.mem_of_getElem? hAt.1), hAt.2,
    (hChain.of_isAt hAt).1⟩, ?_⟩
  rintro other ⟨hOn, hEntry, hHeight⟩
  obtain ⟨i, hi⟩ := List.getElem?_of_mem (hChain.mem_of_onBestChain hOn)
  have hOther : IsAt s.node chain i other := ⟨hi, hEntry⟩
  obtain rfl : i = n := by
    have hLevel := (hChain.of_isAt hOther).1
    omega
  exact hOther.unique hAt

namespace Sample

/-- A node whose only block is the genesis block. -/
def genesisNode : ChainState :=
  { nodeWith [] with
    mapBlockIndex := (∅ : Table ℕ CBlockIndex).insert 500 { tipEntry with nHeight := 0 }
    nBestHeight := 0 }

theorem lookup_genesisNode (hash : ℕ) :
    genesisNode.mapBlockIndex.lookup hash =
      if hash = 500 then some { tipEntry with nHeight := 0 } else none := by
  refine (Table.lookup_insert_ite _ _ _ _).trans ?_
  split_ifs <;> rfl

theorem hasChain_genesisNode : HasChain genesisNode [500] := by
  constructor
  · rfl
  · rfl
  · rfl
  · rfl
  · intro i hash hi
    obtain ⟨rfl, rfl⟩ : i = 0 ∧ hash = 500 := by
      cases i with
      | zero => exact ⟨rfl, (Option.some.inj hi).symm⟩
      | succ i => cases hi
    exact ⟨_, lookup_genesisNode 500, rfl, rfl, rfl, rfl⟩

theorem mintingBlock_isFresh_genesisNode : IsFresh genesisNode mintingBlock [500] := by
  constructor <;> decide +kernel

/-- The block on top of the genesis block. -/
def twoBlockNode : ChainState := stateAfter genesisNode mintingBlock 200

theorem genesisNode_extended :
    FinderStep ⟨(enter genesisNode mintingBlock 200).1, none⟩ [] ⟨twoBlockNode, none⟩ := by
  have hFresh := mintingBlock_isFresh_genesisNode
  have hTip : OnBestChain genesisNode mintingBlock.hashPrevBlock := .tip hFresh.prev
  have hNew : IsNewEntry (env 900) (enter genesisNode mintingBlock 200).1 mintingBlock
      (enter genesisNode mintingBlock 200).2 := hFresh.isNewEntry (by decide)
  refine .extended hNew rfl ?_ (connectNext_of_done (by decide +kernel))
  intro before hBefore
  rw [hFresh.lookup_enter hTip] at hBefore
  have hGenesis := lookup_genesisNode mintingBlock.hashPrevBlock
  have hPrev : mintingBlock.hashPrevBlock = 500 := by decide +kernel
  rw [hBefore, if_pos hPrev, Option.some.injEq] at hGenesis
  rw [hGenesis]
  decide +kernel

/-- The genesis block is looked for after the block on top of it came, and then that block. -/
theorem findBlockByHeight_finds_twoBlocks :
    ∃ pgenesis pblockindex, findBlockByHeight twoBlockNode none 0 = .ok pgenesis ∧
      findBlockByHeight twoBlockNode (some pgenesis.phashBlock) 1 = .ok pblockindex ∧
      IsBlockOfHeight twoBlockNode 1 pblockindex := by
  have hFresh := mintingBlock_isFresh_genesisNode
  have hKeeps : KeepsChain genesisNode (enter genesisNode mintingBlock 200).1 := by
    apply hFresh.keepsChain
    intro hash pindex hEntry
    rw [lookup_genesisNode] at hEntry
    split_ifs at hEntry with hHash
    rw [← Option.some.inj hEntry, hHash]
    rfl
  have hBest : twoBlockNode.nBestHeight = 1 := by decide +kernel
  obtain ⟨pgenesis, hGenesis, -⟩ : ∃ pgenesis,
      findBlockByHeight twoBlockNode none 0 = .ok pgenesis ∧
        (pgenesis.phashBlock == 500) = true := by
    apply exists_ok_of_test
    decide +kernel
  have hAsked : FinderStep ⟨twoBlockNode, none⟩ [0] ⟨twoBlockNode, some pgenesis.phashBlock⟩ := by
    apply FinderStep.found _ hGenesis
    rw [hBest]
    decide
  have hEntered : FinderStep ⟨genesisNode, none⟩ []
      ⟨(enter genesisNode mintingBlock 200).1, none⟩ := .other hKeeps rfl
  have hRun := ((Trace.start.next hEntered).next genesisNode_extended).next hAsked
  have hRange : 0 ≤ (1 : ℤ) ∧ 1 ≤ twoBlockNode.nBestHeight := ⟨by decide, hBest.ge⟩
  obtain ⟨pblockindex, hFound, hIs, -⟩ :=
    findBlockByHeight_finds hasChain_genesisNode hRun 1 hRange
  dsimp only at hFound hIs
  exact ⟨pgenesis, pblockindex, hGenesis, hFound, hIs⟩

end Sample

end SocietyGold
