import SocietyGold.ForkChoice
import SocietyGold.GetBlocks

/-!
# What a locator finds on another node

`Set` walks back from a block, one step at a time for the first ten and then in doubling
steps, and ends with the genesis block.  `GetBlockIndex` on another node takes the first
of these hashes that lies on its own main chain.  The distances of the walk are
`0, 1, …, 10, 11, 13, 17, 25, …`, so the block found is not more than twice as far back
as the highest common one.
-/

namespace SocietyGold

open Support

/-! ## Chains back to the genesis block -/

/-- Blocks from one back to the genesis block: each lies under its hash, is one higher
than the next of the list, and names it as its previous block. -/
inductive PrevChain (st : ChainState) : List ℕ → Prop
  | genesis {hash : ℕ} {pindex : CBlockIndex}
      (hEntry : st.mapBlockIndex.lookup hash = some pindex) (hHash : pindex.phashBlock = hash)
      (hPrev : pindex.pprev = none) : PrevChain st [hash]
  | next {hash prev : ℕ} {rest : List ℕ} {pindex before : CBlockIndex}
      (hEntry : st.mapBlockIndex.lookup hash = some pindex) (hHash : pindex.phashBlock = hash)
      (hPrev : pindex.pprev = some prev) (hBefore : st.mapBlockIndex.lookup prev = some before)
      (hHeight : pindex.nHeight = before.nHeight + 1) (hRest : PrevChain st (prev :: rest)) :
      PrevChain st (hash :: prev :: rest)

/-- The first block is higher than the second. -/
def IsHigher (st : ChainState) (hash lower : ℕ) : Prop :=
  ∃ pindex below, st.mapBlockIndex.lookup hash = some pindex ∧
    st.mapBlockIndex.lookup lower = some below ∧ below.nHeight < pindex.nHeight

section PrevChain

variable {st : ChainState} {chain : List ℕ}

/-- A block of a chain has an entry, whose previous block is the next of the list. -/
theorem PrevChain.entry_of_getElem?
    (h : PrevChain st chain) {k hash : ℕ} (hk : chain[k]? = some hash) :
    ∃ pindex, st.mapBlockIndex.lookup hash = some pindex ∧ pindex.phashBlock = hash ∧
      pindex.pprev = chain[k + 1]? := by
  induction h generalizing k with
  | @genesis first pindex hEntry hHash hPrev =>
      cases k with
      | zero =>
          obtain rfl : first = hash := by simpa using hk
          exact ⟨pindex, hEntry, hHash, hPrev⟩
      | succ k => simp at hk
  | @next first prev rest pindex before hEntry hHash hPrev hBefore hHeight hRest ih =>
      cases k with
      | zero =>
          obtain rfl : first = hash := by simpa using hk
          exact ⟨pindex, hEntry, hHash, hPrev⟩
      | succ k => exact ih (by simpa using hk)

theorem PrevChain.ne_nil (h : PrevChain st chain) : chain ≠ [] := by
  cases h <;> simp

theorem PrevChain.tail
    {first second : ℕ} {rest : List ℕ} (h : PrevChain st (first :: second :: rest)) :
    PrevChain st (second :: rest) := by
  cases h with
  | next _ _ _ _ _ hRest => exact hRest

theorem PrevChain.of_append
    {above below : List ℕ} (h : PrevChain st (above ++ below)) (hBelow : below ≠ []) :
    PrevChain st below := by
  induction above with
  | nil => exact h
  | cons first above ih =>
      apply ih
      cases hRest : above ++ below with
      | nil => simp [hBelow] at hRest
      | cons second rest =>
          rw [List.cons_append, hRest] at h
          exact h.tail

/-- Further down a chain the blocks get lower. -/
theorem PrevChain.pairwise_isHigher (h : PrevChain st chain) : chain.Pairwise (IsHigher st) := by
  induction h with
  | genesis => exact List.pairwise_singleton _ _
  | @next hash prev rest pindex before hEntry hHash hPrev hBefore hHeight hRest ih =>
      refine List.pairwise_cons.mpr ⟨fun lower hLower => ?_, ih⟩
      rcases List.mem_cons.mp hLower with rfl | hLower
      · exact ⟨pindex, before, hEntry, hBefore, by omega⟩
      · obtain ⟨before', below, hBefore', hBelow, hLess⟩ := (List.pairwise_cons.mp ih).1 _ hLower
        cases hBefore.symm.trans hBefore'
        exact ⟨pindex, below, hEntry, hBelow, by omega⟩

/-- A chain has no more blocks than the index. -/
theorem PrevChain.length_le (h : PrevChain st chain) :
    chain.length ≤ st.mapBlockIndex.entries.length := by
  have hNodup : chain.Nodup := by
    refine h.pairwise_isHigher.imp ?_
    rintro hash lower ⟨pindex, below, hEntry, hBelow, hLess⟩ rfl
    cases hEntry.symm.trans hBelow
    omega
  apply Table.length_le_of_nodup hNodup
  intro hash hMem
  obtain ⟨k, hk⟩ := List.getElem?_of_mem hMem
  obtain ⟨pindex, hEntry, -⟩ := h.entry_of_getElem? hk
  exact Table.mem_iff_lookup.mpr ⟨pindex, hEntry⟩

end PrevChain

namespace CBlockLocator

section Steps

variable {st : ChainState} {chain : List ℕ}

theorem stepBack_none (st : ChainState) (nStep : ℕ) : stepBack st nStep none = none := by
  cases nStep <;> rfl

/-- Stepping back along a chain. -/
theorem stepBack_getElem?
    (h : PrevChain st chain) (k nStep : ℕ) :
    stepBack st nStep chain[k]? = chain[k + nStep]? := by
  induction nStep generalizing k with
  | zero => rfl
  | succ nStep ih =>
      cases hk : chain[k]? with
      | none =>
          rw [stepBack_none, eq_comm, List.getElem?_eq_none_iff]
          have hLength := List.getElem?_eq_none_iff.mp hk
          omega
      | some hash =>
          obtain ⟨pindex, hEntry, -, hPrev⟩ := h.entry_of_getElem? hk
          have hFound : st.entry (some hash) = some pindex := hEntry
          rw [stepBack, hFound]
          simp only [hPrev]
          rw [ih (k + 1)]
          congr 1
          omega

end Steps

/-! ## The loop of Set -/

/-- How far back the `i`-th hash of a locator is. -/
def distanceBack (i : ℕ) : ℕ := if i ≤ 10 then i else 9 + 2 ^ (i - 10)

/-- The step from the `i`-th hash to the next one. -/
def stepAfter (i : ℕ) : ℕ := if i ≤ 10 then 1 else 2 ^ (i - 10)

theorem distanceBack_succ (i : ℕ) : distanceBack (i + 1) = distanceBack i + stepAfter i := by
  unfold distanceBack stepAfter
  by_cases hLow : i < 10
  · rw [if_pos (by omega), if_pos (by omega), if_pos (by omega)]
  · obtain ⟨k, rfl⟩ := Nat.exists_eq_add_of_le (not_lt.mp hLow)
    have hPow : 2 ^ (10 + k + 1 - 10) = 2 ^ k + 2 ^ k := by
      rw [show 10 + k + 1 - 10 = k + 1 by omega, pow_succ, mul_two]
    have hSub : 10 + k - 10 = k := by omega
    rw [if_neg (by omega), hPow, hSub]
    by_cases hZero : k = 0
    · simp [hZero]
    · rw [if_neg (by omega), if_neg (by omega)]
      omega

/-- The step doubles once more than ten hashes are in the locator. -/
theorem stepAfter_succ (i : ℕ) :
    stepAfter (i + 1) = if i + 1 > 10 then stepAfter i * 2 else stepAfter i := by
  unfold stepAfter
  by_cases hLow : i < 10
  · rw [if_pos (by omega), if_neg (by omega), if_pos (by omega)]
  · obtain ⟨k, rfl⟩ := Nat.exists_eq_add_of_le (not_lt.mp hLow)
    rw [if_neg (by omega), if_pos (by omega), show 10 + k + 1 - 10 = k + 1 by omega,
      show 10 + k - 10 = k by omega]
    by_cases hZero : k = 0
    · simp [hZero]
    · rw [if_neg (by omega), pow_succ]

theorem stepAfter_pos (i : ℕ) : 0 < stepAfter i := by
  unfold stepAfter
  split_ifs
  · exact Nat.one_pos
  · exact Nat.two_pow_pos _

theorem strictMono_distanceBack : StrictMono distanceBack := by
  apply strictMono_nat_of_lt_succ
  intro i
  have hPos := stepAfter_pos i
  rw [distanceBack_succ]
  omega

theorem le_distanceBack (i : ℕ) : i ≤ distanceBack i := strictMono_distanceBack.le_apply

/-- A hash that comes after one less than `d` blocks back is at most `max 10 (2 * d)`
blocks back. -/
theorem distanceBack_succ_le {i d : ℕ} (h : distanceBack i < d) :
    distanceBack (i + 1) ≤ max 10 (2 * d) := by
  have hStep := distanceBack_succ i
  unfold distanceBack stepAfter at *
  split_ifs at * <;> omega

/-- A run of the loop of `Set` to its end, with the number of its rounds. -/
inductive SetRounds (st : ChainState) : ℕ → Option ℕ → ℕ → List ℕ → List ℕ → Prop
  | done {pindex : Option ℕ} {nStep : ℕ} {vHave : List ℕ} (hEnd : st.entry pindex = none) :
      SetRounds st 0 pindex nStep vHave vHave
  | round {rounds nStep : ℕ} {pindex : Option ℕ} {found : CBlockIndex} {vHave out : List ℕ}
      (hFound : st.entry pindex = some found)
      (hRest : SetRounds st rounds (stepBack st nStep pindex)
        (if (vHave ++ [found.phashBlock]).length > 10 then nStep * 2 else nStep)
        (vHave ++ [found.phashBlock]) out) :
      SetRounds st (rounds + 1) pindex nStep vHave out

theorem SetRounds.setLoop_eq
    {st : ChainState} {rounds nStep fuel : ℕ} {pindex : Option ℕ} {vHave out : List ℕ}
    (h : SetRounds st rounds pindex nStep vHave out) (hFuel : rounds ≤ fuel) :
    setLoop st fuel pindex nStep vHave = out := by
  induction h generalizing fuel with
  | done hEnd =>
      cases fuel with
      | zero => rfl
      | succ fuel => rw [setLoop, hEnd]
  | round hFound hRest ih =>
      obtain ⟨fuel, rfl⟩ : ∃ k, fuel = k + 1 := ⟨fuel - 1, by omega⟩
      rw [setLoop, hFound]
      exact ih (by omega)

/-- The hashes of a chain that a locator takes. -/
def takenHashes (chain : List ℕ) (i rounds : ℕ) : List ℕ :=
  (List.range' i rounds).filterMap fun j => chain[distanceBack j]?

theorem takenHashes_of_length_le {chain : List ℕ} {i : ℕ} (rounds : ℕ)
    (h : chain.length ≤ distanceBack i) : takenHashes chain i rounds = [] := by
  unfold takenHashes
  rw [List.filterMap_eq_nil_iff]
  intro j hj
  have hLow : i ≤ j := (List.mem_range'_1.mp hj).1
  have hMono := strictMono_distanceBack.monotone hLow
  exact List.getElem?_eq_none (by omega)

/-- The loop ends, and takes the hashes at its distances. -/
theorem exists_setRounds
    {st : ChainState} {chain : List ℕ} (h : PrevChain st chain) (n i : ℕ) (vHave : List ℕ)
    (hCount : vHave.length = i) (hEnd : chain.length ≤ distanceBack (i + n)) :
    ∃ rounds ≤ n, SetRounds st rounds chain[distanceBack i]? (stepAfter i) vHave
      (vHave ++ takenHashes chain i n) := by
  induction n generalizing i vHave with
  | zero =>
      have hLength : chain.length ≤ distanceBack i := hEnd
      refine ⟨0, le_rfl, ?_⟩
      rw [List.getElem?_eq_none hLength, takenHashes_of_length_le 0 hLength, List.append_nil]
      exact .done rfl
  | succ n ih =>
      cases hHere : chain[distanceBack i]? with
      | none =>
          have hLength := List.getElem?_eq_none_iff.mp hHere
          refine ⟨0, by omega, ?_⟩
          rw [takenHashes_of_length_le _ hLength, List.append_nil]
          exact .done rfl
      | some hash =>
          obtain ⟨pindex, hEntry, hHash, -⟩ := h.entry_of_getElem? hHere
          have hNext := ih (i + 1) (vHave ++ [hash]) (by simp [hCount])
            (by rwa [Nat.add_assoc, Nat.add_comm 1 n])
          obtain ⟨rounds, hLe, hRounds⟩ := hNext
          have hTaken : takenHashes chain i (n + 1) = hash :: takenHashes chain (i + 1) n := by
            unfold takenHashes
            rw [List.range'_succ, List.filterMap_cons, hHere]
          have hLength : (vHave ++ [hash]).length = i + 1 := by simp [hCount]
          refine ⟨rounds + 1, by omega, ?_⟩
          rw [hTaken]
          refine .round (show st.entry (some hash) = some pindex from hEntry) ?_
          rw [hHash, hLength, ← stepAfter_succ, ← hHere, stepBack_getElem? h, ← distanceBack_succ]
          rw [List.append_assoc] at hRounds
          exact hRounds

/-- Further on in a locator the blocks get lower. -/
theorem pairwise_takenHashes
    {st : ChainState} {chain : List ℕ} (h : PrevChain st chain) (i rounds : ℕ) :
    (takenHashes chain i rounds).Pairwise (IsHigher st) := by
  unfold takenHashes
  rw [List.pairwise_filterMap]
  refine (List.pairwise_lt_range' (s := i) (n := rounds)).imp ?_
  intro j k hLess hash hHash lower hLower
  obtain ⟨hj, rfl⟩ := List.getElem?_eq_some_iff.mp hHash
  obtain ⟨hk, rfl⟩ := List.getElem?_eq_some_iff.mp hLower
  exact List.pairwise_iff_getElem.mp h.pairwise_isHigher _ _ hj hk (strictMono_distanceBack hLess)

/-- `Set` ends, after no more rounds than there are blocks in the index. -/
theorem set_of_prevChain
    {st : ChainState} {p : ℕ} {below : List ℕ} (hashGenesisBlock : ℕ)
    (h : PrevChain st (p :: below)) :
    ∃ rounds, SetRounds st rounds (some p) 1 []
        (takenHashes (p :: below) 0 (st.mapBlockIndex.entries.length + 1)) ∧
      (set hashGenesisBlock st (some p)).vHave =
        takenHashes (p :: below) 0 (st.mapBlockIndex.entries.length + 1) ++
          [hashGenesisBlock] := by
  have hLength := h.length_le
  have hDistance := le_distanceBack (0 + (st.mapBlockIndex.entries.length + 1))
  obtain ⟨rounds, hLe, hRounds⟩ := exists_setRounds h (st.mapBlockIndex.entries.length + 1) 0 []
    rfl (by omega)
  refine ⟨rounds, hRounds, ?_⟩
  have hLoop := hRounds.setLoop_eq hLe
  unfold set
  exact congrArg (· ++ [hashGenesisBlock]) hLoop

end CBlockLocator

/-! ## Main chains as lists -/

/-- The main chain of a node, from the tip down to the genesis block.  The entries with a
next block are those of the chain below the tip. -/
structure IsMainChain (hashGenesisBlock : ℕ) (st : ChainState) (chain : List ℕ) : Prop where
  best : st.pindexBest = chain.head?
  linked : PrevChain st chain
  rooted : chain.getLast? = some hashGenesisBlock
  pnext : ∀ hash pindex, st.mapBlockIndex.lookup hash = some pindex →
    (pindex.pnext.isSome = true ↔ hash ∈ chain.tail)

/-- A block that both nodes have has the same previous block on both. -/
def SameBlocks (st₁ st₂ : ChainState) : Prop :=
  ∀ hash pindex₁ pindex₂, st₁.mapBlockIndex.lookup hash = some pindex₁ →
    st₂.mapBlockIndex.lookup hash = some pindex₂ → pindex₁.pprev = pindex₂.pprev

/-- The highest block of the first chain that is on the second one is `d` blocks back. -/
def HighestCommon (own chain : List ℕ) (d : ℕ) : Prop :=
  (∃ hash ∈ chain, own[d]? = some hash) ∧ ∀ j < d, ∀ hash ∈ chain, own[j]? ≠ some hash

section Views

variable {hashGenesisBlock : ℕ} {st st₁ st₂ : ChainState} {chain chain₁ chain₂ : List ℕ}

theorem PrevChain.exists_entry (h : PrevChain st chain) {hash : ℕ} (hMem : hash ∈ chain) :
    ∃ pindex, st.mapBlockIndex.lookup hash = some pindex := by
  obtain ⟨k, hk⟩ := List.getElem?_of_mem hMem
  obtain ⟨pindex, hEntry, -⟩ := h.entry_of_getElem? hk
  exact ⟨pindex, hEntry⟩

/-- `IsInMainChain` tells the blocks of the main chain. -/
theorem IsMainChain.isInMainChain_iff
    (h : IsMainChain hashGenesisBlock st chain) (hash : ℕ) :
    (st.mapBlockIndex.lookup hash).any (st.isInMainChain hash) = true ↔ hash ∈ chain := by
  obtain ⟨tip, rest, rfl⟩ := List.exists_cons_of_ne_nil h.linked.ne_nil
  have hBest : st.pindexBest = some tip := h.best
  cases hEntry : st.mapBlockIndex.lookup hash with
  | none =>
      refine ⟨fun hAny => absurd hAny (by simp), fun hMem => ?_⟩
      obtain ⟨pindex, hSome⟩ := h.linked.exists_entry hMem
      rw [hEntry] at hSome
      cases hSome
  | some pindex =>
      have hNext := h.pnext hash pindex hEntry
      rw [List.tail_cons] at hNext
      simp only [Option.any_some, ChainState.isInMainChain, Bool.or_eq_true, hNext, hBest,
        Option.some.injEq, decide_eq_true_eq, List.mem_cons]
      rw [or_comm, eq_comm]

theorem IsMainChain.genesis_mem (h : IsMainChain hashGenesisBlock st chain) :
    hashGenesisBlock ∈ chain :=
  List.mem_of_getLast? h.rooted

/-- Below a common block everything is common. -/
theorem mem_of_common
    (hOwn : PrevChain st₁ chain₁) (hOther : PrevChain st₂ chain₂) (hSame : SameBlocks st₁ st₂)
    {d k hash lower : ℕ} (hHash : chain₁[d]? = some hash) (hCommon : hash ∈ chain₂)
    (hLe : d ≤ k) (hLower : chain₁[k]? = some lower) : lower ∈ chain₂ := by
  obtain ⟨n, rfl⟩ := Nat.exists_eq_add_of_le hLe
  clear hLe
  induction n generalizing lower with
  | zero =>
      cases hHash.symm.trans hLower
      exact hCommon
  | succ n ih =>
      have hInside := (List.getElem?_eq_some_iff.mp hLower).1
      have hAbove : chain₁[d + n]? = some (chain₁.get ⟨d + n, by omega⟩) := by simp
      obtain ⟨pindex₁, hEntry₁, -, hPrev₁⟩ := hOwn.entry_of_getElem? hAbove
      obtain ⟨j, hj⟩ := List.getElem?_of_mem (ih hAbove)
      obtain ⟨pindex₂, hEntry₂, -, hPrev₂⟩ := hOther.entry_of_getElem? hj
      have hPrev := hSame _ _ _ hEntry₁ hEntry₂
      rw [hPrev₁, hPrev₂, Nat.add_assoc, hLower] at hPrev
      exact List.mem_of_getElem? hPrev.symm

end Views

namespace CBlockLocator

section Common

variable {hashGenesisBlock p : ℕ} {st₁ st₂ : ChainState} {above below chain₂ : List ℕ}

/-- The block found is the first hash of the locator on the other main chain. -/
theorem getBlockIndex_cases
    (hOther : IsMainChain hashGenesisBlock st₂ chain₂) (own : List ℕ) (rounds : ℕ) :
    (∃ i < rounds, ∃ hash ∈ chain₂, own[distanceBack i]? = some hash ∧
      getBlockIndex ⟨takenHashes own 0 rounds ++ [hashGenesisBlock]⟩ st₂ = some hash ∧
      ∀ j < i, ∀ hash ∈ chain₂, own[distanceBack j]? ≠ some hash) ∨
    getBlockIndex ⟨takenHashes own 0 rounds ++ [hashGenesisBlock]⟩ st₂ =
      some hashGenesisBlock := by
  have hGenesis := (hOther.isInMainChain_iff hashGenesisBlock).mpr hOther.genesis_mem
  unfold getBlockIndex
  dsimp only
  rw [List.find?_append]
  cases hFind : (takenHashes own 0 rounds).find? fun hash =>
      (st₂.mapBlockIndex.lookup hash).any (st₂.isInMainChain hash) with
  | none =>
      right
      simp [hGenesis]
  | some hash =>
      left
      unfold takenHashes at hFind
      rw [List.find?_filterMap, ← List.range_eq_range', Option.bind_eq_some_iff] at hFind
      obtain ⟨i, hFirst, hHash⟩ := hFind
      rw [List.find?_range_eq_some] at hFirst
      obtain ⟨hMain, hInside, hBefore⟩ := hFirst
      rw [hHash, Option.any_some, hOther.isInMainChain_iff] at hMain
      refine ⟨i, List.mem_range.mp hInside, hash, hMain, hHash, rfl, ?_⟩
      intro j hj earlier hMem hEarlier
      have hNot := hBefore j hj
      rw [hEarlier, Option.any_some, (hOther.isInMainChain_iff earlier).mpr hMem] at hNot
      cases hNot

/-- The hash before the one found is above the highest common block, so the one found is
at most twice as far back, or less than eleven blocks. -/
theorem distanceBack_le_of_first
    {own : List ℕ} (hOwn : PrevChain st₁ own) (hOther : PrevChain st₂ chain₂)
    (hSame : SameBlocks st₁ st₂) {i d hash : ℕ} (hHash : own[distanceBack i]? = some hash)
    (hFirst : ∀ j < i, ∀ hash ∈ chain₂, own[distanceBack j]? ≠ some hash)
    (hHighest : HighestCommon own chain₂ d) : distanceBack i ≤ max 10 (2 * d) := by
  cases i with
  | zero => simp [distanceBack]
  | succ i =>
      apply distanceBack_succ_le
      by_contra hNot
      obtain ⟨common, hCommon, hAt⟩ := hHighest.1
      have hInside := (List.getElem?_eq_some_iff.mp hHash).1
      have hLess : distanceBack i < distanceBack (i + 1) := strictMono_distanceBack (by omega)
      have hBefore : own[distanceBack i]? = some (own.get ⟨distanceBack i, by omega⟩) := by simp
      have hMem := mem_of_common hOwn hOther hSame hAt hCommon (not_lt.mp hNot) hBefore
      exact hFirst i (by omega) _ hMem hBefore

/-- The block that another node finds for the locator of a block of the main chain is on
its main chain, is the block or below it, and lies at most `max 10 (2 * d)` blocks back
when the highest common block lies `d` blocks back, or is the genesis block.  `Set` ends
on every chain, with hashes of lower and lower blocks and the genesis hash last. -/
theorem locator_finds_common :
    (∀ (hashGenesisBlock : ℕ) (st₁ st₂ : ChainState) (chain₁ chain₂ above below : List ℕ) (p : ℕ),
      IsMainChain hashGenesisBlock st₁ chain₁ → IsMainChain hashGenesisBlock st₂ chain₂ →
      SameBlocks st₁ st₂ → chain₁ = above ++ p :: below →
      ∃ found k, getBlockIndex (set hashGenesisBlock st₁ (some p)) st₂ = some found ∧
        found ∈ chain₂ ∧ (p :: below)[k]? = some found ∧
        ∀ d, HighestCommon (p :: below) chain₂ d →
          k ≤ max 10 (2 * d) ∨ found = hashGenesisBlock) ∧
    ∀ (hashGenesisBlock : ℕ) (st : ChainState) (p : ℕ) (below : List ℕ),
      PrevChain st (p :: below) →
      ∃ rounds vHave, SetRounds st rounds (some p) 1 [] vHave ∧
        (set hashGenesisBlock st (some p)).vHave = vHave ++ [hashGenesisBlock] ∧
        vHave.Pairwise (IsHigher st) := by
  constructor
  · rintro hashGenesisBlock st₁ st₂ _ chain₂ above below p hOwn hOther hSame rfl
    have hBelow : PrevChain st₁ (p :: below) := hOwn.linked.of_append (by simp)
    obtain ⟨-, -, hHave⟩ := set_of_prevChain hashGenesisBlock hBelow
    have hLocator : set hashGenesisBlock st₁ (some p) =
        ⟨takenHashes (p :: below) 0 (st₁.mapBlockIndex.entries.length + 1) ++
          [hashGenesisBlock]⟩ := by
      rw [← hHave]
    rw [hLocator]
    rcases getBlockIndex_cases hOther (p :: below) (st₁.mapBlockIndex.entries.length + 1) with
      ⟨i, -, hash, hMem, hHash, hFound, hFirst⟩ | hFound
    · refine ⟨hash, distanceBack i, hFound, hMem, hHash, fun d hHighest => Or.inl ?_⟩
      exact distanceBack_le_of_first hBelow hOther.linked hSame hHash hFirst hHighest
    · have hLast : (p :: below).getLast? = some hashGenesisBlock := by
        have hRooted := hOwn.rooted
        rwa [List.getLast?_append_of_ne_nil _ (by simp)] at hRooted
      rw [List.getLast?_eq_getElem?] at hLast
      exact ⟨hashGenesisBlock, _, hFound, hOther.genesis_mem, hLast, fun d _ => Or.inr rfl⟩
  · intro hashGenesisBlock st p below hChain
    obtain ⟨rounds, hRounds, hHave⟩ := set_of_prevChain hashGenesisBlock hChain
    exact ⟨rounds, _, hRounds, hHave, pairwise_takenHashes hChain _ _⟩

end Common

end CBlockLocator

/-! ## Two nodes with different tips -/

namespace Sample

theorem isMainChain_of_entries
    {st : ChainState} {hash : ℕ} {tipIndex genesisIndex : CBlockIndex}
    (hBest : st.pindexBest = some hash)
    (hTip : st.mapBlockIndex.lookup hash = some tipIndex)
    (hGenesis : st.mapBlockIndex.lookup 500 = some genesisIndex)
    (hLinks : tipIndex.phashBlock = hash ∧ genesisIndex.phashBlock = 500 ∧
      tipIndex.pprev = some 500 ∧ genesisIndex.pprev = none ∧
      tipIndex.nHeight = genesisIndex.nHeight + 1)
    (hAll : ∀ entry ∈ st.mapBlockIndex.entries,
      (entry.2.pnext.isSome = true ↔ entry.1 ∈ [500])) :
    IsMainChain 500 st [hash, 500] where
  best := hBest
  linked := .next hTip hLinks.1 hLinks.2.2.1 hGenesis hLinks.2.2.2.2
    (.genesis hGenesis hLinks.2.1 hLinks.2.2.2.1)
  rooted := rfl
  pnext := fun k pindex hEntry => hAll ⟨k, pindex⟩ (AList.mem_lookup_iff.mp hEntry)

/-- The entry of the tip. -/
def bestEntry (st : ChainState) : CBlockIndex := (st.entry st.pindexBest).getD tipEntry

def genesisEntry (st : ChainState) : CBlockIndex := (st.mapBlockIndex.lookup 500).getD tipEntry

theorem isMainChain_right : IsMainChain 500 afterRight [right.getHash prims, 500] :=
  isMainChain_of_entries (by decide +kernel)
    (show _ = some (bestEntry afterRight) by decide +kernel)
    (show _ = some (genesisEntry afterRight) by decide +kernel) (by decide +kernel)
    (by decide +kernel)

theorem isMainChain_left : IsMainChain 500 afterLeft [left.getHash prims, 500] :=
  isMainChain_of_entries (by decide +kernel) (show _ = some (bestEntry afterLeft) by decide +kernel)
    (show _ = some (genesisEntry afterLeft) by decide +kernel) (by decide +kernel)
    (by decide +kernel)

/-- A node whose tip is the other block finds the block below both. -/
theorem locator_of_right :
    ∃ found k, CBlockLocator.getBlockIndex
        (CBlockLocator.set 500 afterRight (some (right.getHash prims))) afterLeft = some found ∧
      found ∈ [left.getHash prims, 500] ∧ [right.getHash prims, 500][k]? = some found ∧
      (k ≤ max 10 (2 * 1) ∨ found = 500) := by
  have hSame : SameBlocks afterRight afterLeft := by
    intro hash pindex₁ pindex₂ hEntry₁ hEntry₂
    have hAll : ∀ entry₁ ∈ afterRight.mapBlockIndex.entries,
        ∀ entry₂ ∈ afterLeft.mapBlockIndex.entries,
          entry₁.1 = entry₂.1 → entry₁.2.pprev = entry₂.2.pprev := by decide +kernel
    have hMem₁ := AList.mem_lookup_iff.mp hEntry₁
    have hMem₂ := AList.mem_lookup_iff.mp hEntry₂
    exact hAll _ hMem₁ _ hMem₂ rfl
  obtain ⟨hFinds, -⟩ := CBlockLocator.locator_finds_common
  obtain ⟨found, k, hFound, hMem, hAt, hBound⟩ := hFinds 500 afterRight afterLeft _ _ [] [500]
    (right.getHash prims) isMainChain_right isMainChain_left hSame rfl
  refine ⟨found, k, hFound, hMem, hAt, hBound 1 ⟨⟨500, by decide +kernel, rfl⟩, ?_⟩⟩
  intro j hj hash hHash hAt
  obtain rfl : j = 0 := by omega
  obtain rfl : right.getHash prims = hash := by simpa using hAt
  exact absurd hHash (by decide +kernel)

end Sample

end SocietyGold
