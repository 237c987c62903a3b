import SocietyGold.IndexAtomicity
import SocietyGold.StakeSelection

/-!
# The hashes of the best chain

The chain from the tip down to the genesis block, with the heights of its entries.
`AddToBlockIndex` leaves it as it is or puts one block on top of it.
-/

namespace SocietyGold

open Support

/-- The hashes from a block down to the genesis block: each entry lies under its hash, points
to the next and is higher by one. -/
inductive ChainDown (st : ChainState) : List ℕ → Prop
  | genesis {hash : ℕ} {pindex : CBlockIndex}
      (hEntry : st.mapBlockIndex.lookup hash = some pindex) (hHash : pindex.phashBlock = hash)
      (hPrev : pindex.pprev = none) (hHeight : pindex.nHeight = 0) : ChainDown st [hash]
  | next {hash prev : ℕ} {rest : List ℕ} {pindex : CBlockIndex}
      (hEntry : st.mapBlockIndex.lookup hash = some pindex) (hHash : pindex.phashBlock = hash)
      (hPrev : pindex.pprev = some prev) (hHeight : pindex.nHeight = rest.length + 1)
      (hRest : ChainDown st (prev :: rest)) : ChainDown st (hash :: prev :: rest)

/-- The best chain of a node by its hashes, the tip first. -/
structure HasBestChain (st : ChainState) (hashes : List ℕ) : Prop where
  chain : ChainDown st hashes
  pindexBest : st.pindexBest = hashes.head?
  hashBestChain : some st.hashBestChain = hashes.head?

/-- Each entry of a list is as high as there are entries after it. -/
inductive Descends : List CBlockIndex → Prop
  | nil : Descends []
  | cons {pindex : CBlockIndex} {rest : List CBlockIndex}
      (hHeight : pindex.nHeight = rest.length) (hRest : Descends rest) :
      Descends (pindex :: rest)

section Chain

variable {st st' : ChainState} {hashes : List ℕ} {hash : ℕ}

theorem ChainDown.ne_nil (h : ChainDown st hashes) : hashes ≠ [] := by
  cases h <;> simp

/-- The entries of the chain. -/
theorem ChainDown.entries
    (h : ChainDown st hashes) :
    ∃ chain, IndexChain st chain ∧ Descends chain ∧
      chain.map CBlockIndex.phashBlock = hashes := by
  induction h with
  | @genesis hash pindex hEntry hHash hPrev hHeight =>
      refine ⟨[pindex], .genesis (by rw [hHash]; exact hEntry) hPrev, ?_, by simp [hHash]⟩
      exact .cons (by simpa using hHeight) .nil
  | @next hash prev rest pindex hEntry hHash hPrev hHeight hRest ih =>
      obtain ⟨chain, hChain, hDescends, hHashes⟩ := ih
      cases chain with
      | nil => simp at hHashes
      | cons pprev below =>
          obtain ⟨hPprev, hBelow⟩ := List.cons.inj hHashes
          refine ⟨pindex :: pprev :: below, ?_, ?_, by simp [hHash, hPprev, ← hBelow]⟩
          · exact .next (by rw [hHash]; exact hEntry) (hPprev ▸ hPrev) hChain
          · refine .cons ?_ hDescends
            rw [hHeight, ← hBelow]
            simp

/-- The entry of the tip of a node with its ancestors. -/
theorem HasBestChain.tip
    (h : HasBestChain st hashes) :
    ∃ pindexBest rest, st.entry st.pindexBest = some pindexBest ∧
      st.chainFrom pindexBest = pindexBest :: rest ∧ Descends (pindexBest :: rest) ∧
      (pindexBest :: rest).map CBlockIndex.phashBlock = hashes := by
  obtain ⟨chain, hChain, hDescends, hHashes⟩ := h.chain.entries
  cases chain with
  | nil => exact absurd hHashes.symm h.chain.ne_nil
  | cons pindexBest rest =>
      refine ⟨pindexBest, rest, ?_, hChain.chainFrom, hDescends, hHashes⟩
      rw [h.pindexBest, ← hHashes]
      exact hChain.entry List.mem_cons_self

theorem HasBestChain.unique
    {hashes' : List ℕ} (h : HasBestChain st hashes) (h' : HasBestChain st hashes') :
    hashes = hashes' := by
  obtain ⟨pindexBest, rest, hTip, hFrom, -, hHashes⟩ := h.tip
  obtain ⟨pindexBest', rest', hTip', hFrom', -, hHashes'⟩ := h'.tip
  rw [hTip, Option.some.injEq] at hTip'
  rw [← hHashes, ← hHashes', ← hFrom, ← hFrom', hTip']

/-! ## What a chain depends on -/

/-- What a chain consists of: the hash, the previous block and the height of an entry. -/
def CBlockIndex.links (pindex : CBlockIndex) : ℕ × Option ℕ × ℤ :=
  (pindex.phashBlock, pindex.pprev, pindex.nHeight)

theorem isTreeView_links : IsTreeView CBlockIndex.links where
  sameLinks h := by
    rw [CBlockIndex.links, h.phashBlock, h.pprev, h.nHeight, CBlockIndex.links]
  pnext _ _ := rfl
  setStakeModifier _ _ _ := rfl

theorem exists_of_links
    {k : ℕ} {pindex : CBlockIndex}
    (hSame : (st'.mapBlockIndex.lookup k).map CBlockIndex.links =
      (st.mapBlockIndex.lookup k).map CBlockIndex.links)
    (hEntry : st.mapBlockIndex.lookup k = some pindex) :
    ∃ pindex', st'.mapBlockIndex.lookup k = some pindex' ∧
      pindex'.phashBlock = pindex.phashBlock ∧ pindex'.pprev = pindex.pprev ∧
      pindex'.nHeight = pindex.nHeight := by
  rw [hEntry] at hSame
  obtain ⟨pindex', hEntry', hLinks⟩ := Option.map_eq_some_iff.mp hSame
  simp only [CBlockIndex.links, Prod.mk.injEq] at hLinks
  exact ⟨pindex', hEntry', hLinks⟩

theorem ChainDown.congr
    (h : ChainDown st hashes)
    (hSame : ∀ k ∈ hashes, (st'.mapBlockIndex.lookup k).map CBlockIndex.links =
      (st.mapBlockIndex.lookup k).map CBlockIndex.links) : ChainDown st' hashes := by
  induction h with
  | genesis hEntry hHash hPrev hHeight =>
      obtain ⟨pindex', hEntry', hHash', hPrev', hHeight'⟩ :=
        exists_of_links (hSame _ List.mem_cons_self) hEntry
      exact .genesis hEntry' (hHash'.trans hHash) (hPrev'.trans hPrev) (hHeight'.trans hHeight)
  | next hEntry hHash hPrev hHeight hRest ih =>
      obtain ⟨pindex', hEntry', hHash', hPrev', hHeight'⟩ :=
        exists_of_links (hSame _ List.mem_cons_self) hEntry
      exact .next hEntry' (hHash'.trans hHash) (hPrev'.trans hPrev) (hHeight'.trans hHeight)
        (ih fun k hMem => hSame k (List.mem_cons_of_mem _ hMem))

/-- Every block of a chain is in the block index. -/
theorem ChainDown.mem_mapBlockIndex
    (h : ChainDown st hashes) {k : ℕ} (hMem : k ∈ hashes) : k ∈ st.mapBlockIndex := by
  induction h with
  | genesis hEntry =>
      rw [List.mem_singleton.mp hMem]
      exact Table.mem_iff_lookup.mpr ⟨_, hEntry⟩
  | next hEntry _ _ _ _ ih =>
      rcases List.mem_cons.mp hMem with rfl | hRest
      · exact Table.mem_iff_lookup.mpr ⟨_, hEntry⟩
      · exact ih hRest

end Chain

/-! ## Calls of `AddToBlockIndex` -/

section Growth

variable {env : Env} {fromNode : Bool} {st st' : ChainState} {block : CBlock}
  {nFile nBlockPos hashProof : ℕ} {hashes : List ℕ}

theorem nHeight_newIndexEntry
    {pprev : CBlockIndex} (hPrev : st.mapBlockIndex.lookup block.hashPrevBlock = some pprev) :
    (newIndexEntry env st block nFile nBlockPos hashProof).nHeight = pprev.nHeight + 1 := by
  simp [newIndexEntry, hPrev]

/-- A chain is as high as it has blocks below its top. -/
theorem ChainDown.nHeight
    {hash : ℕ} {rest : List ℕ} {pindex : CBlockIndex} (h : ChainDown st (hash :: rest))
    (hEntry : st.mapBlockIndex.lookup hash = some pindex) : pindex.nHeight = rest.length := by
  cases h with
  | genesis hEntry' _ _ hHeight =>
      rw [hEntry, Option.some.injEq] at hEntry'
      rw [hEntry', hHeight]
      rfl
  | next hEntry' _ _ hHeight _ =>
      rw [hEntry, Option.some.injEq] at hEntry'
      rw [hEntry', hHeight]
      simp

/-- Whatever a call returns, the best chain afterwards is the one before it, or the one before
it with the block on top. -/
theorem HasBestChain.of_addToBlockIndex
    {added : Bool} (hChain : HasBestChain st hashes)
    (h : addToBlockIndex env fromNode st block nFile nBlockPos hashProof = .ok (added, st')) :
    HasBestChain st' hashes ∨ HasBestChain st' (block.getHash env.prims :: hashes) := by
  rcases addToBlockIndex_spec isTreeView_links h with
    ⟨-, -, rfl⟩ | ⟨hNotRefused, -, hEntries, -, hKept, hTip⟩
  · exact Or.inl hChain
  · obtain ⟨hNew, hExtends⟩ := not_refusesEntry hNotRefused
    have hDown : ChainDown st' hashes := by
      refine hChain.chain.congr fun k hMem => ?_
      have hOther : k ≠ block.getHash env.prims := by
        rintro rfl
        exact hNew (hChain.chain.mem_mapBlockIndex hMem)
      exact (hEntries k).trans (if_neg hOther)
    by_cases hGrows : added = true ∧ HasMoreTrust env st block nFile nBlockPos hashProof
    · right
      obtain ⟨hBest, hHashBest, -⟩ := hTip hGrows.1 hGrows.2
      refine ⟨?_, by rw [hBest]; rfl, by rw [hHashBest]; rfl⟩
      obtain ⟨pindex, hEntry, hLinks⟩ :=
        Option.map_eq_some_iff.mp ((hEntries (block.getHash env.prims)).trans (if_pos rfl))
      simp only [CBlockIndex.links, Prod.mk.injEq] at hLinks
      obtain ⟨hHash, hPrev, hHeight⟩ := hLinks
      cases hashes with
      | nil => exact absurd rfl hChain.chain.ne_nil
      | cons tip rest =>
          have hOldTip : block.hashPrevBlock = tip := by
            rw [hExtends]
            exact Option.some.inj hChain.hashBestChain
          have hMem : block.hashPrevBlock ∈ st.mapBlockIndex := by
            rw [hOldTip]
            exact hChain.chain.mem_mapBlockIndex List.mem_cons_self
          obtain ⟨pprev, hPprev⟩ := Table.mem_iff_lookup.mp hMem
          refine .next hEntry (hHash.trans (phashBlock_newIndexEntry ..)) ?_ ?_ hDown
          · rw [hPrev, pprev_newIndexEntry, if_pos hMem, hOldTip]
          · rw [hHeight, nHeight_newIndexEntry hPprev,
              hChain.chain.nHeight (hOldTip ▸ hPprev)]
    · left
      have hSame := hKept (by
        cases added with
        | false => exact Or.inl rfl
        | true => exact Or.inr fun hMore => hGrows ⟨rfl, hMore⟩)
      exact ⟨hDown, hSame.1.trans hChain.pindexBest, by rw [hSame.2]; exact hChain.hashBestChain⟩

/-- Between two calls everything may change but the tip and the links of the chain. -/
structure KeepsHashes (st st' : ChainState) (hashes : List ℕ) : Prop where
  pindexBest : st'.pindexBest = st.pindexBest
  hashBestChain : st'.hashBestChain = st.hashBestChain
  links : ∀ k ∈ hashes, (st'.mapBlockIndex.lookup k).map CBlockIndex.links =
    (st.mapBlockIndex.lookup k).map CBlockIndex.links

theorem HasBestChain.of_keepsHashes
    (hChain : HasBestChain st hashes) (hKeeps : KeepsHashes st st' hashes) :
    HasBestChain st' hashes :=
  ⟨hChain.chain.congr hKeeps.links, hKeeps.pindexBest.trans hChain.pindexBest,
    by rw [hKeeps.hashBestChain]; exact hChain.hashBestChain⟩

end Growth

end SocietyGold
