import SocietyGold.ChainHashes
import SocietyGold.DeadMasternodes
import SocietyGold.Support.Trace

/-!
# The block hash behind a score

`GetBlockHash` keeps every hash it has found, for good, under the height it was asked for.
While the heights it is asked for are not negative, the hash under a height is the one of the
block before that height on the best chain.  For a negative height it answers with the tip and
keeps that answer.
-/

namespace SocietyGold

open Support

/-- What the best chain has to say about a height: the hash of the block below it, for a height
from 2 on that is at most one above the tip.  Zero stands for the height of the tip. -/
def scoreHash (hashes : List ℕ) (nBlockHeight : ℤ) : Option ℕ :=
  let nBlockHeight := if nBlockHeight = 0 then (hashes.length : ℤ) - 1 else nBlockHeight
  if 2 ≤ nBlockHeight ∧ nBlockHeight ≤ hashes.length then
    hashes.reverse[(nBlockHeight - 1).toNat]?
  else none

/-- What `GetBlockHash` finds on the best chain: for a negative height the tip, unless that is
the genesis block. -/
def chainHash (hashes : List ℕ) (nBlockHeight : ℤ) : Option ℕ :=
  if nBlockHeight < 0 then (if 1 < hashes.length then hashes.head? else none)
  else scoreHash hashes nBlockHeight

/-- The score that a masternode has for a block hash; zero without one. -/
def scoreFrom (prims : Primitives) (mn : CMasternode) (found : Option ℕ) : ℕ :=
  match found with
  | none => 0
  | some hash =>
      let aux := (mn.vin.prevout.hash + mn.vin.prevout.n) % 2 ^ 256
      let hash2 := prims.hash (toBytesLE 32 hash)
      let hash3 := prims.hash (toBytesLE 32 hash ++ toBytesLE 32 aux)
      if hash3 > hash2 then hash3 - hash2 else hash2 - hash3

/-- Every hash in the cache is one that would be found now. -/
def CacheFits (hashes : List ℕ) (cache : Table ℤ ℕ) : Prop :=
  ∀ nBlockHeight hash, cache.lookup nBlockHeight = some hash →
    chainHash hashes nBlockHeight = some hash

/-- No negative height was asked for either, so every hash in the cache is the one of the block
before its height. -/
def CacheAgrees (hashes : List ℕ) (cache : Table ℤ ℕ) : Prop :=
  CacheFits hashes cache ∧ ∀ nBlockHeight ∈ cache, 0 < nBlockHeight

section Walk

variable {st : ChainState} {hashes : List ℕ} {cache : Table ℤ ℕ} {nBlockHeight : ℤ}

/-- The walk takes the hash at a distance from its start, unless it comes to the genesis
block. -/
theorem blockHashBelow_eq
    {chain : List CBlockIndex} (hDescends : Descends chain) {n nBlocksAgo : ℕ}
    (hn : n ≤ nBlocksAgo) :
    blockHashBelow nBlocksAgo chain n =
      if nBlocksAgo - n + 1 < chain.length then
        (chain.map CBlockIndex.phashBlock)[nBlocksAgo - n]?
      else none := by
  induction hDescends generalizing n with
  | nil => simp [blockHashBelow]
  | @cons pindex rest hHeight hRest ih =>
      unfold blockHashBelow
      rw [hHeight]
      by_cases hGenesis : rest.length = 0
      · rw [if_neg (by omega), if_neg (by simp [hGenesis])]
      · rw [if_pos (by omega)]
        by_cases hHere : n = nBlocksAgo
        · subst hHere
          rw [if_pos (by omega), if_pos (by simp; omega)]
          simp
        · rw [if_neg (by omega), ih (by omega)]
          have hLess : nBlocksAgo - n = nBlocksAgo - (n + 1) + 1 := by omega
          rw [hLess, List.map_cons, List.getElem?_cons_succ, List.length_cons]
          simp only [Nat.add_lt_add_iff_right]

/-- Heights count from the other end of the chain. -/
theorem getElem?_reverse_height
    (h2 : 2 ≤ nBlockHeight) (hLe : nBlockHeight ≤ hashes.length) :
    hashes[((hashes.length : ℤ) - nBlockHeight).toNat]? =
      hashes.reverse[(nBlockHeight - 1).toNat]? := by
  rw [List.getElem?_reverse (by omega)]
  congr 1
  omega

/-- The height that `GetBlockHash` looks up: zero stands for that of the tip. -/
def askedHeight (hashes : List ℕ) (nBlockHeight : ℤ) : ℤ :=
  if nBlockHeight = 0 then (hashes.length : ℤ) - 1 else nBlockHeight

theorem scoreHash_askedHeight (hashes : List ℕ) (nBlockHeight : ℤ) :
    scoreHash hashes (askedHeight hashes nBlockHeight) = scoreHash hashes nBlockHeight := by
  unfold scoreHash askedHeight
  split_ifs <;> rfl

theorem scoreHash_of_ne_zero (hZero : nBlockHeight ≠ 0) :
    scoreHash hashes nBlockHeight =
      if 2 ≤ nBlockHeight ∧ nBlockHeight ≤ hashes.length then
        hashes.reverse[(nBlockHeight - 1).toNat]?
      else none := by
  unfold scoreHash
  rw [if_neg hZero]

theorem chainHash_askedHeight (hPos : 0 < hashes.length) (nBlockHeight : ℤ) :
    chainHash hashes (askedHeight hashes nBlockHeight) = chainHash hashes nBlockHeight := by
  unfold chainHash
  rw [scoreHash_askedHeight]
  have hNeg : askedHeight hashes nBlockHeight < 0 ↔ nBlockHeight < 0 := by
    unfold askedHeight
    split_ifs <;> omega
  simp only [hNeg]

/-- What the walk of `GetBlockHash` comes to, for a height that is looked up. -/
theorem blockHashBelow_tip
    {pindexBest : CBlockIndex} {rest : List CBlockIndex} {asked : ℤ}
    (hDescends : Descends (pindexBest :: rest)) (hLe : asked ≤ rest.length + 1)
    (hGenesis : rest.length ≠ 0) (hZero : asked ≠ 0) :
    0 ≤ (if asked > 0 then (rest.length : ℤ) + 1 - asked else 0) ∧
    blockHashBelow (if asked > 0 then (rest.length : ℤ) + 1 - asked else 0)
        (pindexBest :: rest) 0 =
      chainHash ((pindexBest :: rest).map CBlockIndex.phashBlock) asked := by
  have hLength : ((pindexBest :: rest).map CBlockIndex.phashBlock).length = rest.length + 1 := by
    simp
  generalize hHashes : (pindexBest :: rest).map CBlockIndex.phashBlock = hashes at *
  by_cases hNeg : asked < 0
  · rw [if_neg (by omega : ¬asked > 0)]
    refine ⟨le_refl 0, ?_⟩
    have hWalk := blockHashBelow_eq hDescends (le_refl 0)
    rw [Nat.cast_zero, if_pos (by simp only [List.length_cons]; omega), hHashes, Nat.sub_zero,
      ← List.head?_eq_getElem?] at hWalk
    rw [hWalk, chainHash, if_pos hNeg, if_pos (by omega)]
  · have hAgo : (rest.length : ℤ) + 1 - asked = ((rest.length + 1 - asked.toNat : ℕ) : ℤ) := by
      omega
    rw [if_pos (by omega : asked > 0), hAgo, blockHashBelow_eq hDescends (Nat.zero_le _),
      Nat.sub_zero, hHashes, chainHash, if_neg hNeg, scoreHash_of_ne_zero hZero]
    refine ⟨Int.natCast_nonneg _, ?_⟩
    by_cases h2 : 2 ≤ asked
    · have hInside : 2 ≤ asked ∧ asked ≤ hashes.length := by omega
      rw [if_pos (by simp only [List.length_cons]; omega), if_pos hInside,
        ← getElem?_reverse_height hInside.1 hInside.2]
      congr 1
      omega
    · rw [if_neg (by simp only [List.length_cons]; omega), if_neg (by omega)]

theorem chainHash_of_outside
    {asked : ℤ} (h : hashes.length = 1 ∨ 0 < hashes.length ∧ hashes.length < asked) :
    chainHash hashes asked = none := by
  unfold chainHash
  by_cases hNeg : asked < 0
  · rw [if_pos hNeg, if_neg (by omega : ¬1 < hashes.length)]
  · rw [if_neg hNeg]
    unfold scoreHash
    dsimp only
    rw [if_neg]
    split_ifs <;> omega

/-- What `GetBlockHash` answers where the cache fits, and what the cache keeps. -/
theorem getBlockHash_eq
    (hChain : HasBestChain st hashes) (hFits : CacheFits hashes cache) (nBlockHeight : ℤ) :
    ∃ cache', getBlockHash st cache nBlockHeight = .ok (chainHash hashes nBlockHeight, cache') ∧
      CacheFits hashes cache' ∧
      ∀ k ∈ cache', k ∈ cache ∨ k = askedHeight hashes nBlockHeight ∧ k ≠ 0 := by
  obtain ⟨pindexBest, rest, hTip, hFrom, hDescends, hHashes⟩ := hChain.tip
  have hLength : hashes.length = rest.length + 1 := by
    rw [← hHashes]
    simp
  have hTipHeight : pindexBest.nHeight = rest.length := by
    cases hDescends with
    | cons hHeight _ => exact hHeight
  have hAsked : (if nBlockHeight = 0 then pindexBest.nHeight else nBlockHeight) =
      askedHeight hashes nBlockHeight := by
    rw [hTipHeight, askedHeight, hLength]
    split_ifs <;> push_cast <;> omega
  rw [← chainHash_askedHeight (by omega) nBlockHeight]
  unfold getBlockHash
  rw [hTip]
  dsimp only
  rw [hAsked]
  have hAskedZero : askedHeight hashes nBlockHeight = 0 → rest.length = 0 := by
    unfold askedHeight
    split_ifs <;> omega
  generalize askedHeight hashes nBlockHeight = asked at *
  cases hCached : cache.lookup asked with
  | some hash => exact ⟨cache, by rw [hFits asked hash hCached], hFits, fun _ => Or.inl⟩
  | none =>
      dsimp only
      by_cases hOutside : pindexBest.nHeight = 0 ∨ pindexBest.nHeight + 1 < asked
      · have hNone : chainHash hashes asked = none := chainHash_of_outside (by omega)
        exact ⟨cache, by rw [if_pos hOutside, hNone], hFits, fun _ => Or.inl⟩
      · have hZero : asked ≠ 0 := fun hZero => hOutside (Or.inl (by
          rw [hTipHeight, hAskedZero hZero, Nat.cast_zero]))
        obtain ⟨hAgo, hWalk⟩ := blockHashBelow_tip hDescends (by omega) (by omega) hZero
        rw [if_neg hOutside, hFrom, hTipHeight, assertThat, if_pos (by simpa using hAgo), ok_bind,
          hWalk, hHashes]
        cases hFound : chainHash hashes asked with
        | none => exact ⟨cache, rfl, hFits, fun _ => Or.inl⟩
        | some hash =>
            refine ⟨cache.insert asked hash, rfl, fun height found hLookup => ?_, fun k hMem => ?_⟩
            · rw [Table.lookup_insert_ite] at hLookup
              split_ifs at hLookup with hSame
              · rw [Option.some.injEq] at hLookup
                rw [hSame, hFound, hLookup]
              · exact hFits height found hLookup
            · rcases (AList.mem_insert cache).mp hMem with rfl | hOld
              · exact Or.inr ⟨rfl, hZero⟩
              · exact Or.inl hOld

/-- The blocks of the hashes in a cache that agrees. -/
theorem CacheAgrees.lookup
    {hash : ℕ} (h : CacheAgrees hashes cache) (hFound : cache.lookup nBlockHeight = some hash) :
    2 ≤ nBlockHeight ∧ nBlockHeight ≤ hashes.length ∧
      hashes.reverse[(nBlockHeight - 1).toNat]? = some hash := by
  have hPos := h.2 nBlockHeight (Table.mem_iff_lookup.mpr ⟨hash, hFound⟩)
  have hHash := h.1 nBlockHeight hash hFound
  rw [chainHash, if_neg (by omega), scoreHash_of_ne_zero (by omega)] at hHash
  split_ifs at hHash with hInside
  exact ⟨hInside.1, hInside.2, hHash⟩

theorem cacheAgrees_of_lookup
    (h : ∀ nBlockHeight hash, cache.lookup nBlockHeight = some hash →
      2 ≤ nBlockHeight ∧ nBlockHeight ≤ hashes.length ∧
        hashes.reverse[(nBlockHeight - 1).toNat]? = some hash) : CacheAgrees hashes cache := by
  constructor
  · intro nBlockHeight hash hFound
    obtain ⟨h2, hLe, hAt⟩ := h nBlockHeight hash hFound
    rw [chainHash, if_neg (by omega), scoreHash_of_ne_zero (by omega), if_pos ⟨h2, hLe⟩, hAt]
  · intro nBlockHeight hMem
    obtain ⟨hash, hFound⟩ := Table.mem_iff_lookup.mp hMem
    obtain ⟨h2, -, -⟩ := h nBlockHeight hash hFound
    omega

/-- Heights that are not negative keep a cache that agrees. -/
theorem cacheAgrees_getBlockHash
    (hChain : HasBestChain st hashes) (hAgrees : CacheAgrees hashes cache)
    (hHeight : 0 ≤ nBlockHeight) :
    ∃ cache', getBlockHash st cache nBlockHeight = .ok (scoreHash hashes nBlockHeight, cache') ∧
      CacheAgrees hashes cache' := by
  obtain ⟨cache', hEq, hFits, hKeys⟩ := getBlockHash_eq hChain hAgrees.1 nBlockHeight
  rw [chainHash, if_neg (by omega)] at hEq
  refine ⟨cache', hEq, hFits, fun k hMem => ?_⟩
  rcases hKeys k hMem with hOld | ⟨hAsked, hZero⟩
  · exact hAgrees.2 k hOld
  · have hPos : 0 < hashes.length := List.length_pos_of_ne_nil hChain.chain.ne_nil
    rw [hAsked] at hZero ⊢
    unfold askedHeight at hZero ⊢
    split_ifs at hZero ⊢ <;> omega

end Walk

/-! ## Runs -/

/-- What happens to the best chain and to the cache of block hashes. -/
inductive ScoreEvent
  | connects
  | reorganizes
  | asks (nBlockHeight : ℤ)
  deriving DecidableEq, Repr

/-- A node as far as `GetBlockHash` reads it: the chain state and the cache. -/
abbrev ScoreNode := ChainState × Table ℤ ℕ

/-- The steps.  Other code may change anything but the chain before `AddToBlockIndex` is called,
which may succeed or fail.  A reorganization puts any other chain in the place of the best one;
no call makes one, since `SetBestChain` returns before it comes to `Reorganize`. -/
inductive ScoreStep : ScoreNode → List ScoreEvent → ScoreNode → Prop
  | connects {st st₁ st' : ChainState} {cache : Table ℤ ℕ} {hashes : List ℕ} {env : Env}
      {fromNode added : Bool} {block : CBlock} {nFile nBlockPos hashProof : ℕ}
      (hChain : HasBestChain st hashes) (hKeeps : KeepsHashes st st₁ hashes)
      (hAdd : addToBlockIndex env fromNode st₁ block nFile nBlockPos hashProof =
        .ok (added, st')) :
      ScoreStep (st, cache) [.connects] (st', cache)
  | reorganizes {st st' : ChainState} {cache : Table ℤ ℕ} {hashes' : List ℕ}
      (hChain' : HasBestChain st' hashes') : ScoreStep (st, cache) [.reorganizes] (st', cache)
  | asks {st : ChainState} {cache cache' : Table ℤ ℕ} {nBlockHeight : ℤ} {found : Option ℕ}
      (hAsk : getBlockHash st cache nBlockHeight = .ok (found, cache')) :
      ScoreStep (st, cache) [.asks nBlockHeight] (st, cache')

/-- A reorganization leaves the blocks of the cached hashes on the best chain. -/
def KeepsCached (cache : Table ℤ ℕ) (hashes hashes' : List ℕ) : Prop :=
  ∀ nBlockHeight ∈ cache,
    hashes'.reverse[(nBlockHeight - 1).toNat]? = hashes.reverse[(nBlockHeight - 1).toNat]?

/-- A step that asks for no negative height and keeps what is cached. -/
def SteadyStep (node : ScoreNode) (events : List ScoreEvent) (node' : ScoreNode) : Prop :=
  ScoreStep node events node' ∧
    (∀ nBlockHeight, .asks nBlockHeight ∈ events → 0 ≤ nBlockHeight) ∧
    (.reorganizes ∈ events → ∀ hashes hashes', HasBestChain node.1 hashes →
      HasBestChain node'.1 hashes' → KeepsCached node.2 hashes hashes')

/-- A call answers from the best chain: from height 2 to the one above the tip with the hash of
the block before, and with nothing for a height that is not between zero and that. -/
structure AnswersFromChain (node : ScoreNode) (hashes : List ℕ) (nBlockHeight : ℤ) : Prop where
  inside : 2 ≤ nBlockHeight → nBlockHeight ≤ hashes.length →
    ∃ hash cache', hashes.reverse[(nBlockHeight - 1).toNat]? = some hash ∧
      getBlockHash node.1 node.2 nBlockHeight = .ok (some hash, cache')
  outside : nBlockHeight < 0 ∨ hashes.length < nBlockHeight →
    ∃ cache', getBlockHash node.1 node.2 nBlockHeight = .ok (none, cache')

section Runs

variable {node node' : ScoreNode} {hashes : List ℕ} {events : List ScoreEvent}

/-- A longer chain agrees with what a chain agrees with. -/
theorem CacheAgrees.cons
    {cache : Table ℤ ℕ} (h : CacheAgrees hashes cache) (hash : ℕ) :
    CacheAgrees (hash :: hashes) cache := by
  refine cacheAgrees_of_lookup fun nBlockHeight found hFound => ?_
  obtain ⟨h2, hLe, hAt⟩ := h.lookup hFound
  refine ⟨h2, by rw [List.length_cons]; omega, ?_⟩
  rw [List.reverse_cons, List.getElem?_append_left (by rw [List.length_reverse]; omega)]
  exact hAt

/-- So does one that keeps the blocks of the cached hashes. -/
theorem CacheAgrees.of_keepsCached
    {cache : Table ℤ ℕ} {hashes' : List ℕ} (h : CacheAgrees hashes cache)
    (hKeeps : KeepsCached cache hashes hashes') : CacheAgrees hashes' cache := by
  refine cacheAgrees_of_lookup fun nBlockHeight found hFound => ?_
  obtain ⟨h2, -, hAt⟩ := h.lookup hFound
  have hAt' := (hKeeps nBlockHeight (Table.mem_iff_lookup.mpr ⟨found, hFound⟩)).trans hAt
  obtain ⟨hLt, -⟩ := List.getElem?_eq_some_iff.mp hAt'
  rw [List.length_reverse] at hLt
  exact ⟨h2, by omega, hAt'⟩

theorem steadyStep_agrees
    (hNode : ∃ hashes, HasBestChain node.1 hashes ∧ CacheAgrees hashes node.2)
    (hStep : SteadyStep node events node') :
    ∃ hashes, HasBestChain node'.1 hashes ∧ CacheAgrees hashes node'.2 := by
  obtain ⟨hashes, hChain, hAgrees⟩ := hNode
  obtain ⟨hStep, hAsks, hReorganizes⟩ := hStep
  cases hStep with
  | connects hChain₁ hKeeps hAdd =>
      rw [hChain₁.unique hChain] at hKeeps
      rcases (hChain.of_keepsHashes hKeeps).of_addToBlockIndex hAdd with hSame | hLonger
      · exact ⟨hashes, hSame, hAgrees⟩
      · exact ⟨_, hLonger, hAgrees.cons _⟩
  | reorganizes hChain' =>
      exact ⟨_, hChain', hAgrees.of_keepsCached
        (hReorganizes (by simp) hashes _ hChain hChain')⟩
  | @asks st cache cache' nBlockHeight found hAsk =>
      obtain ⟨cache'', hEq, hAgrees'⟩ :=
        cacheAgrees_getBlockHash hChain hAgrees (hAsks nBlockHeight (by simp))
      rw [hEq] at hAsk
      cases hAsk
      exact ⟨hashes, hChain, hAgrees'⟩

/-- After a run from an empty cache, the cache agrees with the best chain. -/
theorem agrees_of_run
    {st₀ : ChainState} {hashes₀ : List ℕ} (hStart : HasBestChain st₀ hashes₀)
    (hRun : Trace SteadyStep (st₀, ∅) events node) :
    ∃ hashes, HasBestChain node.1 hashes ∧ CacheAgrees hashes node.2 := by
  refine Trace.invariant (I := fun _ node => ∃ hashes, HasBestChain node.1 hashes ∧
    CacheAgrees hashes node.2) ⟨hashes₀, hStart, cacheAgrees_of_lookup ?_⟩ ?_ hRun
  · intro nBlockHeight hash hFound
    simp at hFound
  · intro _ node new node' hNode hStep
    exact steadyStep_agrees hNode hStep

/-- Where the cache agrees, only a negative height is answered wrongly, and not below a genesis
block that is the tip. -/
theorem answersFromChain_iff
    (hChain : HasBestChain node.1 hashes) (hAgrees : CacheAgrees hashes node.2)
    (nBlockHeight : ℤ) :
    AnswersFromChain node hashes nBlockHeight ↔ 0 ≤ nBlockHeight ∨ hashes.length = 1 := by
  have hPos : 0 < hashes.length := List.length_pos_of_ne_nil hChain.chain.ne_nil
  by_cases hHeight : 0 ≤ nBlockHeight
  · refine iff_of_true ?_ (Or.inl hHeight)
    obtain ⟨cache', hEq, -⟩ := cacheAgrees_getBlockHash hChain hAgrees hHeight
    constructor
    · intro h2 hLe
      have hSome : (nBlockHeight - 1).toNat < hashes.reverse.length := by
        rw [List.length_reverse]
        omega
      refine ⟨hashes.reverse[(nBlockHeight - 1).toNat], cache',
        List.getElem?_eq_getElem hSome, ?_⟩
      rw [hEq, scoreHash, if_neg (by omega : ¬nBlockHeight = 0), if_pos ⟨h2, hLe⟩,
        List.getElem?_eq_getElem hSome]
    · intro hOutside
      refine ⟨cache', ?_⟩
      rw [hEq, scoreHash, if_neg (by omega : ¬nBlockHeight = 0), if_neg (by omega)]
  · obtain ⟨cache', hEq, -⟩ := getBlockHash_eq hChain hAgrees.1 nBlockHeight
    rw [chainHash, if_pos (not_le.mp hHeight)] at hEq
    constructor
    · intro hAnswers
      right
      obtain ⟨cache'', hNone⟩ := hAnswers.outside (Or.inl (by omega))
      rw [hNone] at hEq
      by_contra hLong
      rw [if_pos (by omega)] at hEq
      cases hashes with
      | nil => simp at hPos
      | cons tip rest => simp at hEq
    · intro hShort
      constructor
      · intro h2
        omega
      · intro _
        refine ⟨cache', ?_⟩
        rw [hEq, if_neg (by omega : ¬1 < hashes.length)]

/-- The score of a masternode is a function of the best chain alone. -/
theorem calculateScore_eq
    (prims : Primitives) (hChain : HasBestChain node.1 hashes)
    (hAgrees : CacheAgrees hashes node.2) (mn : CMasternode) {nBlockHeight : ℤ}
    (hHeight : 0 ≤ wrap32 nBlockHeight) :
    ∃ cache', mn.calculateScore prims node.1 node.2 nBlockHeight =
      .ok (scoreFrom prims mn (scoreHash hashes (wrap32 nBlockHeight)), cache') := by
  obtain ⟨pindexBest, rest, hTip, -⟩ := hChain.tip
  obtain ⟨cache', hEq, -⟩ := cacheAgrees_getBlockHash hChain hAgrees hHeight
  refine ⟨cache', ?_⟩
  unfold CMasternode.calculateScore scoreFrom
  rw [hTip]
  dsimp only
  rw [hEq, ok_bind]
  cases scoreHash hashes (wrap32 nBlockHeight) <;> rfl

/-- Two nodes give a masternode the same score. -/
def SameScore (prims : Primitives) (node node' : ScoreNode) (mn : CMasternode)
    (nBlockHeight : ℤ) : Prop :=
  ∃ score cache cache',
    mn.calculateScore prims node.1 node.2 nBlockHeight = .ok (score, cache) ∧
    mn.calculateScore prims node'.1 node'.2 nBlockHeight = .ok (score, cache')

/-- In every run that asks for no negative height and takes no block of a cached hash off the
best chain, `GetBlockHash` answers from the best chain, and two nodes with one best chain agree
about every score. -/
theorem scoreHash_of_run
    (prims : Primitives) {st₀ : ChainState} {hashes₀ : List ℕ} (hStart : HasBestChain st₀ hashes₀)
    (hRun : Trace SteadyStep (st₀, ∅) events node) :
    ∃ hashes, HasBestChain node.1 hashes ∧
      (∀ nBlockHeight, AnswersFromChain node hashes nBlockHeight ↔
        0 ≤ nBlockHeight ∨ hashes.length = 1) ∧
      ∀ (st₀' : ChainState) (hashes₀' : List ℕ) (events' : List ScoreEvent) (node' : ScoreNode),
        HasBestChain st₀' hashes₀' → Trace SteadyStep (st₀', ∅) events' node' →
        HasBestChain node'.1 hashes →
        ∀ mn nBlockHeight, 0 ≤ wrap32 nBlockHeight →
          SameScore prims node node' mn nBlockHeight := by
  obtain ⟨hashes, hChain, hAgrees⟩ := agrees_of_run hStart hRun
  refine ⟨hashes, hChain, answersFromChain_iff hChain hAgrees, ?_⟩
  intro st₀' hashes₀' events' node' hStart' hRun' hSame mn nBlockHeight hHeight
  obtain ⟨hashes', hChain', hAgrees'⟩ := agrees_of_run hStart' hRun'
  rw [hChain'.unique hSame] at hAgrees'
  obtain ⟨cache, hScore⟩ := calculateScore_eq prims hChain hAgrees mn hHeight
  obtain ⟨cache', hScore'⟩ := calculateScore_eq prims hSame hAgrees' mn hHeight
  exact ⟨_, cache, cache', hScore, hScore'⟩

end Runs

/-! ## A negative height -/

namespace Sample

/-- The entry of a block of a chain whose block at height `n` has the hash `500 + n`. -/
def chainEntry (n : ℕ) : CBlockIndex :=
  { tipEntry with
    phashBlock := 500 + n
    pprev := if n = 0 then none else some (499 + n)
    nHeight := n }

/-- A node with such a chain. -/
def nodeAtHeight (n : ℕ) : ChainState :=
  { emptyState with
    mapBlockIndex := (List.range (n + 1)).foldl
      (fun mapBlockIndex i => mapBlockIndex.insert (500 + i) (chainEntry i)) ∅
    pindexGenesisBlock := some 500
    pindexBest := some (500 + n)
    hashBestChain := 500 + n
    nBestHeight := n }

theorem hasBestChain_nodeAtHeight : HasBestChain (nodeAtHeight 2) [502, 501, 500] where
  chain := .next (show _ = some (chainEntry 2) from rfl) rfl rfl rfl <|
    .next (show _ = some (chainEntry 1) from rfl) rfl rfl rfl <|
    .genesis (show _ = some (chainEntry 0) from rfl) rfl rfl rfl
  pindexBest := rfl
  hashBestChain := rfl

/-- A node that asks for the height -1 below the block 501 gets this block, and again when 502
is on top of it, where another node gets 502. -/
theorem negativeHeight_answered :
    ∃ cache, getBlockHash (nodeAtHeight 1) ∅ (-1) = .ok (some 501, cache) ∧
      getBlockHash (nodeAtHeight 2) cache (-1) = .ok (some 501, cache) ∧
      ∃ cache', getBlockHash (nodeAtHeight 2) ∅ (-1) = .ok (some 502, cache') :=
  ⟨(∅ : Table ℤ ℕ).insert (-1) 501, rfl, rfl, (∅ : Table ℤ ℕ).insert (-1) 502, rfl⟩

/-- A node at height 2 that was asked for the height 3. -/
theorem scoreHash_afterAsking :
    HasBestChain (nodeAtHeight 2) [502, 501, 500] ∧
      ∃ hashes cache, getBlockHash (nodeAtHeight 2) ∅ 3 = .ok (some 502, cache) ∧
        (∀ nBlockHeight, AnswersFromChain (nodeAtHeight 2, cache) hashes nBlockHeight ↔
          0 ≤ nBlockHeight ∨ hashes.length = 1) := by
  have hAsk : getBlockHash (nodeAtHeight 2) ∅ 3 = .ok (some 502, (∅ : Table ℤ ℕ).insert 3 502) :=
    rfl
  have hStep : SteadyStep (nodeAtHeight 2, ∅) [.asks 3]
      (nodeAtHeight 2, (∅ : Table ℤ ℕ).insert 3 502) := by
    refine ⟨.asks hAsk, ?_, by simp⟩
    intro nBlockHeight hMem
    simp only [List.mem_singleton, ScoreEvent.asks.injEq] at hMem
    omega
  obtain ⟨hashes, -, hAnswers, -⟩ :=
    scoreHash_of_run prims hasBestChain_nodeAtHeight (Trace.start.next hStep)
  exact ⟨hasBestChain_nodeAtHeight, hashes, _, hAsk, hAnswers⟩

end Sample

end SocietyGold
