import SocietyGold.MemPool
import SocietyGold.Support.Descendants

/-!
# Removing a transaction with its descendants

`remove` with its flag set follows `mapNextTx` from the outputs of a transaction to
the transactions that spend them, and from those to theirs, while it takes entries out
of both maps.  A transaction that is reached in several ways is gone when it is reached
again.  What is left of the pool is what does not descend from the transaction.
-/

namespace SocietyGold

open Support

namespace CTxMemPool

/-- The ids of the transactions of the pool. -/
def ids (pool : CTxMemPool) : Set ℕ := {hash | hash ∈ pool.mapTx}

/-- The transaction is the given one or is reached from it by spending outputs. -/
def Descends (pool : CTxMemPool) : (hash k : ℕ) → Prop :=
  Relation.ReflTransGen pool.SpendsOutput

/-- The spends do not go round in a circle. -/
def Acyclic (pool : CTxMemPool) : Prop :=
  ∀ hash, ¬Relation.TransGen pool.SpendsOutput hash hash

/-- A transaction of the pool, not the given one, spends an outpoint the given one
spends. -/
def Conflicts (pool : CTxMemPool) (tx : CTransaction) (hash : ℕ) : Prop :=
  ∃ other i, pool.mapTx.lookup hash = some other ∧ other ≠ tx ∧
    ∃ txin ∈ tx.vin, pool.Spends hash i txin.prevout

/-- From the first pool to the second the given transactions are removed, and their
entries of `mapNextTx`; the others are left as they were. -/
structure RemovesExactly (pool pool' : CTxMemPool) (gone : Set ℕ) : Prop where
  removed : ∀ hash ∈ gone, pool'.mapTx.lookup hash = none
  kept : ∀ hash ∉ gone, pool'.mapTx.lookup hash = pool.mapTx.lookup hash
  unlinked : ∀ prevout inPoint, inPoint.1 ∈ gone → pool'.mapNextTx.lookup prevout ≠ some inPoint
  linked : ∀ prevout inPoint, inPoint.1 ∉ gone →
    (pool'.mapNextTx.lookup prevout = some inPoint ↔
      pool.mapNextTx.lookup prevout = some inPoint)

section Removal

variable {prims : Primitives} {pool pool' : CTxMemPool} {tx : CTransaction} {hash : ℕ}

theorem Acyclic.exists_rank (h : pool.Acyclic) : ∃ rank, RanksSpenders rank pool := by
  apply exists_rank_of_acyclic pool.mapTx.keys.toFinset _ h
  rintro hash k ⟨tx, i, j, hLookup, -⟩
  rw [List.mem_toFinset, ← AList.mem_keys]
  exact Table.mem_iff_lookup.mpr ⟨tx, hLookup⟩

/-- A rank shows that the spends do not go round in a circle. -/
theorem RanksSpenders.acyclic {rank : ℕ → ℕ} (h : RanksSpenders rank pool) : pool.Acyclic := by
  have hLess : ∀ hash k, Relation.TransGen pool.SpendsOutput hash k → rank hash < rank k := by
    intro hash k hReach
    induction hReach with
    | single hSpends => exact h _ _ hSpends
    | tail _ hSpends ih => exact ih.trans (h _ _ hSpends)
  exact fun hash hCircle => absurd (hLess hash hash hCircle) (lt_irrefl _)

theorem takesAway_refl (pool : CTxMemPool) (roots : Set ℕ) :
    TakesAway pool.SpendsOutput roots pool.ids pool.ids := by
  apply TakesAway.refl
  rintro hash k ⟨tx, i, j, hLookup, -⟩ -
  exact Table.mem_iff_lookup.mpr ⟨tx, hLookup⟩

theorem ids_unlink (pool : CTxMemPool) (hash : ℕ) (tx : CTransaction) :
    (pool.unlink hash tx).ids = pool.ids \ {hash} := by
  ext k
  simp only [ids, Set.mem_ofPred_eq, Set.mem_sdiff, Set.mem_singleton_iff, Table.mem_iff_lookup,
    lookup_unlink]
  by_cases hk : k = hash
  · simp [hk]
  · simp [hk]

/-- The transactions of the pool that spend one of these outputs. -/
def spenders (pool : CTxMemPool) (hash : ℕ) (outputs : List ℕ) : Set ℕ :=
  {k | ∃ i ∈ outputs, ∃ j, pool.Spends k j ⟨hash, i⟩}

/-- A call takes a transaction of a consistent pool away with its descendants, if it
returns. -/
def RemovesDescendants (prims : Primitives)
    (removeTx : CTxMemPool → CTransaction → Checked CTxMemPool) : Prop :=
  ∀ pool tx pool', pool.Consistent prims → pool.mapTx.lookup (tx.getHash prims) = some tx →
    removeTx pool tx = .ok pool' → ShrinksTo prims pool pool' ∧
      TakesAway pool.SpendsOutput {tx.getHash prims} pool.ids pool'.ids ∧
      tx.getHash prims ∉ pool'.ids

/-- The loop over the outputs takes their spenders away if every call does. -/
theorem removeSpenders_takesAway
    {removeTx : CTxMemPool → CTransaction → Checked CTxMemPool}
    (hRemove : RemovesDescendants prims removeTx) (outputs : List ℕ) (h : pool.Consistent prims)
    (hCall : removeSpenders removeTx hash outputs pool = .ok pool') :
    ShrinksTo prims pool pool' ∧
      TakesAway pool.SpendsOutput (pool.spenders hash outputs) pool.ids pool'.ids ∧
      ∀ k ∈ pool.spenders hash outputs, k ∉ pool'.ids := by
  induction outputs generalizing pool with
  | nil =>
      obtain rfl := Except.ok.inj hCall
      refine ⟨h.shrinksTo_refl, takesAway_refl pool _, ?_⟩
      rintro k ⟨i, hi, -⟩
      cases hi
  | cons i outputs ih =>
      rw [removeSpenders] at hCall
      cases hNext : pool.mapNextTx.lookup ⟨hash, i⟩ with
      | none =>
          rw [hNext] at hCall
          have hSame : pool.spenders hash (i :: outputs) = pool.spenders hash outputs := by
            ext k
            constructor
            · rintro ⟨i', hi', j, hSpends⟩
              rcases List.mem_cons.mp hi' with rfl | hLater
              · have hSpent := (h.index _ _ _).mpr hSpends
                rw [hNext] at hSpent
                cases hSpent
              · exact ⟨i', hLater, j, hSpends⟩
            · rintro ⟨i', hi', hSpends⟩
              exact ⟨i', List.mem_cons_of_mem i hi', hSpends⟩
          rw [hSame]
          exact ih h hCall
      | some inPoint =>
          rw [hNext] at hCall
          obtain ⟨spender, hDeref, hLookup, hHash⟩ := h.derefPtx_eq_ok hNext
          simp only [hDeref, ok_bind] at hCall
          obtain ⟨pool₁, hFirst, hRest⟩ := bind_eq_ok.mp hCall
          rw [← hHash] at hLookup
          obtain ⟨hShrink, hTakes, hGone⟩ := hRemove pool spender pool₁ h hLookup hFirst
          obtain ⟨hShrink', hTakes', hGone'⟩ := ih hShrink.consistent hRest
          refine ⟨hShrink.trans hShrink', ?_, ?_⟩
          · have hBoth := hTakes.trans hTakes' fun k k' =>
              spendsOutput_iff_of_within hShrink.within
            apply hBoth.of_roots
            rintro k (rfl | ⟨i', hi', j, hSpends⟩)
            · refine ⟨_, ⟨i, List.mem_cons_self, inPoint.2, ?_⟩, .refl⟩
              rw [hHash]
              exact (h.index _ _ _).mp hNext
            · exact ⟨k, ⟨i', List.mem_cons_of_mem i hi', j, hSpends.of_within hShrink.within⟩,
                .refl⟩
          · rintro k ⟨i', hi', j, hSpends⟩ hLeft
            -- what is left after the first call still spends what it did
            have hMiddle : k ∈ pool₁.ids := hTakes'.within hLeft
            rcases List.mem_cons.mp hi' with rfl | hLater
            · obtain ⟨hSame, -⟩ := h.spends_unique hSpends ((h.index _ _ _).mp hNext)
              rw [hSame, ← hHash] at hMiddle
              exact hGone hMiddle
            · obtain ⟨other, hOther, hAt⟩ := hSpends
              obtain ⟨other', hOther'⟩ := Table.mem_iff_lookup.mp hMiddle
              obtain rfl := Option.some.inj (hOther.symm.trans (hShrink.within k _ hOther'))
              exact hGone' k ⟨i', hLater, j, other, hOther', hAt⟩ hLeft

theorem removeRecursive_takesAway (prims : Primitives) (fuel : ℕ) :
    RemovesDescendants prims (removeRecursive prims fuel) := by
  induction fuel with
  | zero =>
      intro pool tx pool' _ _ hCall
      cases hCall
  | succ fuel ih =>
      intro pool tx pool' h hLookup hCall
      have hMem := Table.mem_iff_lookup.mpr ⟨tx, hLookup⟩
      rw [removeRecursive] at hCall
      simp only [hMem, if_true] at hCall
      obtain ⟨pool₁, hLoop, hUnlink⟩ := bind_eq_ok.mp hCall
      obtain rfl := Except.ok.inj hUnlink
      obtain ⟨hShrink, hTakes, hGone⟩ := removeSpenders_takesAway ih _ h hLoop
      refine ⟨⟨hShrink.consistent.unlink hShrink.within h hLookup, ?_⟩, ?_, ?_⟩
      · exact (within_unlink _ _ _).trans hShrink.within
      · rw [ids_unlink]
        refine TakesAway.erase ?_ (Set.mem_singleton _) ?_
        · apply hTakes.of_roots
          rintro k ⟨i, hi, j, hSpends⟩
          exact ⟨_, rfl, .single ⟨tx, i, j, hLookup, List.mem_range.mp hi, hSpends⟩⟩
        · rintro k hLeft ⟨stored, i, j, hStored, hInside, hSpends⟩
          obtain rfl := Option.some.inj (hLookup.symm.trans hStored)
          exact hGone k ⟨i, List.mem_range.mpr hInside, j, hSpends⟩ hLeft
      · rw [ids_unlink]
        exact fun hLeft => hLeft.2 rfl

/-- The loop of `removeConflicts` takes the conflicting transactions away, with their
descendants. -/
theorem removeConflictsLoop_takesAway
    (vin : List CTxIn) (h : pool.Consistent prims) (hInputs : ∀ txin ∈ vin, txin ∈ tx.vin)
    (hCall : removeConflictsLoop prims tx vin pool = .ok pool') :
    TakesAway pool.SpendsOutput {k | pool.Conflicts tx k} pool.ids pool'.ids := by
  induction vin generalizing pool with
  | nil =>
      obtain rfl := Except.ok.inj hCall
      exact takesAway_refl pool _
  | cons txin rest ih =>
      have hRest : ∀ txin ∈ rest, txin ∈ tx.vin :=
        fun input hInput => hInputs input (List.mem_cons_of_mem txin hInput)
      rw [removeConflictsLoop] at hCall
      cases hNext : pool.mapNextTx.lookup txin.prevout with
      | none =>
          rw [hNext] at hCall
          exact ih h hRest hCall
      | some inPoint =>
          rw [hNext] at hCall
          obtain ⟨txConflict, hDeref, hLookup, hHash⟩ := h.derefPtx_eq_ok hNext
          simp only [hDeref, ok_bind] at hCall
          by_cases hSame : txConflict = tx
          · rw [if_neg (not_not.mpr hSame)] at hCall
            exact ih h hRest hCall
          · rw [if_pos hSame] at hCall
            obtain ⟨pool₁, hFirst, hLoop⟩ := bind_eq_ok.mp hCall
            have hSpends := (h.index _ inPoint.1 inPoint.2).mp hNext
            have hConflict : pool.Conflicts tx inPoint.1 :=
              ⟨txConflict, inPoint.2, hLookup, hSame, txin, hInputs txin List.mem_cons_self,
                hSpends⟩
            rw [← hHash] at hLookup
            obtain ⟨hShrink, hTakes, -⟩ :=
              removeRecursive_takesAway prims _ pool txConflict pool₁ h hLookup hFirst
            have hBoth := hTakes.trans (ih hShrink.consistent hRest hLoop) fun k k' =>
              spendsOutput_iff_of_within hShrink.within
            apply hBoth.of_roots
            rintro k (rfl | ⟨other, i, hOther, hNe, input, hInput, hOtherSpends⟩)
            · rw [hHash]
              exact ⟨_, hConflict, .refl⟩
            · exact ⟨k, ⟨other, i, hShrink.within k other hOther, hNe, input, hInput,
                hOtherSpends.of_within hShrink.within⟩, .refl⟩

/-- When the roots are gone, exactly they and their descendants are removed. -/
theorem removesExactly_of_takesAway
    {roots : Set ℕ} (h : pool.Consistent prims) (hShrink : ShrinksTo prims pool pool')
    (hTakes : TakesAway pool.SpendsOutput roots pool.ids pool'.ids)
    (hGone : ∀ hash ∈ roots, hash ∉ pool'.ids) :
    RemovesExactly pool pool' {k | ∃ hash ∈ roots, pool.Descends hash k} := by
  have hLeft : ∀ k, k ∈ pool'.mapTx ↔
      k ∈ pool.mapTx ∧ k ∉ {k | ∃ hash ∈ roots, pool.Descends hash k} :=
    fun k => hTakes.mem_iff hGone
  have hKept : ∀ k ∉ {k | ∃ hash ∈ roots, pool.Descends hash k},
      pool'.mapTx.lookup k = pool.mapTx.lookup k := by
    intro k hk
    cases hLookup : pool'.mapTx.lookup k with
    | some tx => exact (hShrink.within k tx hLookup).symm
    | none =>
        symm
        rw [← Table.not_mem_iff_lookup] at hLookup ⊢
        exact fun hMem => hLookup ((hLeft k).mpr ⟨hMem, hk⟩)
  refine ⟨?_, hKept, ?_, ?_⟩
  · intro k hk
    rw [← Table.not_mem_iff_lookup]
    exact fun hMem => ((hLeft k).mp hMem).2 hk
  · intro prevout inPoint hk hNext
    obtain ⟨tx, hLookup, -⟩ := (hShrink.consistent.index _ inPoint.1 inPoint.2).mp hNext
    exact ((hLeft inPoint.1).mp (Table.mem_iff_lookup.mpr ⟨tx, hLookup⟩)).2 hk
  · rintro prevout ⟨k, i⟩ hk
    rw [hShrink.consistent.index, h.index]
    unfold Spends
    rw [hKept k hk]

/-- In a consistent pool whose spends do not go round in a circle, `remove` with its flag
set removes exactly the descendants of the transaction, and `removeConflicts` exactly
those of the transactions that conflict with the given one. -/
theorem remove_takes_descendants
    (h : pool.Consistent prims) (hAcyclic : pool.Acyclic) :
    (∀ tx : CTransaction, pool.mapTx.lookup (tx.getHash prims) = some tx →
      ∃ pool', removeWithSpenders prims pool tx = .ok pool' ∧
        RemovesExactly pool pool' {k | pool.Descends (tx.getHash prims) k}) ∧
    ∀ tx : CTransaction, ∃ pool', removeConflicts prims pool tx = .ok pool' ∧
      RemovesExactly pool pool' {k | ∃ hash, pool.Conflicts tx hash ∧ pool.Descends hash k} := by
  obtain ⟨rank, hRank⟩ := hAcyclic.exists_rank
  constructor
  · intro tx hLookup
    have hStored : ∀ stored, pool.mapTx.lookup (tx.getHash prims) = some stored → stored = tx :=
      fun stored hSame => Option.some.inj (hSame.symm.trans hLookup)
    rcases removeWithSpenders_cases h hStored with ⟨pool', hCall, -⟩ | ⟨-, hNot⟩
    · obtain ⟨hShrink, hTakes, hGone⟩ :=
        removeRecursive_takesAway prims _ pool tx pool' h hLookup hCall
      have hExactly := removesExactly_of_takesAway h hShrink hTakes (by simpa using hGone)
      simp only [Set.mem_singleton_iff, exists_eq_left] at hExactly
      exact ⟨pool', hCall, hExactly⟩
    · exact absurd hRank (hNot rank)
  · intro tx
    rcases removeConflictsLoop_cases tx.vin h with
      ⟨pool', hCall, hShrink, hOnly⟩ | ⟨-, hNot⟩
    · refine ⟨pool', hCall, ?_⟩
      apply removesExactly_of_takesAway h hShrink
      · exact removeConflictsLoop_takesAway tx.vin h (fun _ hInput => hInput) hCall
      · rintro k ⟨other, i, hLookup, hNe, txin, hInput, spender, hSpender, hAt⟩ hLeft
        obtain ⟨stored, hStored⟩ := Table.mem_iff_lookup.mp hLeft
        obtain rfl := Option.some.inj (hLookup.symm.trans (hShrink.within k stored hStored))
        obtain rfl := Option.some.inj (hLookup.symm.trans hSpender)
        exact hNe (hOnly txin hInput k i other ⟨other, hStored, hAt⟩ hStored)
    · exact absurd hRank (hNot rank)

end Removal

end CTxMemPool

/-! ## A transaction that is reached in two ways -/

namespace Sample

open CTxMemPool

def splitPayment : CTransaction where
  nVersion := 1
  nTime := 900
  vin := [⟨⟨7, 0⟩, [], UINT_MAX⟩]
  vout := [⟨60, [0x51]⟩, ⟨40, [0x51]⟩]
  nLockTime := 0

def leftPayment : CTransaction := payment ⟨splitPayment.getHash prims, 0⟩ 60

def rightPayment : CTransaction := payment ⟨splitPayment.getHash prims, 1⟩ 40

def joinPayment : CTransaction where
  nVersion := 1
  nTime := 900
  vin := [⟨⟨leftPayment.getHash prims, 0⟩, [], UINT_MAX⟩,
    ⟨⟨rightPayment.getHash prims, 0⟩, [], UINT_MAX⟩]
  vout := [⟨100, [0x51]⟩]
  nLockTime := 0

/-- The pool after these were added, the last one first. -/
def diamondOf : (txs : List CTransaction) → CTxMemPool
  | [] => clear
  | tx :: txs => (diamondOf txs).addUnchecked (tx.getHash prims) tx

def diamond : CTxMemPool := diamondOf [joinPayment, rightPayment, leftPayment, splitPayment]

theorem diamond_consistent : diamond.Consistent prims := by
  have hSplit : (diamondOf [splitPayment]).Consistent prims :=
    (consistent_clear prims).addUnchecked
      ⟨rfl, by decide +kernel, by decide +kernel, by decide +kernel⟩
  have hLeft : (diamondOf [leftPayment, splitPayment]).Consistent prims :=
    hSplit.addUnchecked ⟨rfl, by decide +kernel, by decide +kernel, by decide +kernel⟩
  have hRight : (diamondOf [rightPayment, leftPayment, splitPayment]).Consistent prims :=
    hLeft.addUnchecked ⟨rfl, by decide +kernel, by decide +kernel, by decide +kernel⟩
  exact hRight.addUnchecked ⟨rfl, by decide +kernel, by decide +kernel, by decide +kernel⟩

theorem diamond_acyclic : diamond.Acyclic := by
  have hRanked : Ranked (fun hash => if hash = splitPayment.getHash prims then 0
      else if hash = joinPayment.getHash prims then 2 else 1) diamond := by
    intro hash tx hLookup
    have hEntries : ∀ entry ∈ diamond.mapTx.entries, ∀ txin ∈ entry.2.vin,
        txin.prevout.hash ∈ diamond.mapTx →
        (if txin.prevout.hash = splitPayment.getHash prims then 0
          else if txin.prevout.hash = joinPayment.getHash prims then 2 else 1) <
        if entry.1 = splitPayment.getHash prims then 0
          else if entry.1 = joinPayment.getHash prims then 2 else 1 := by decide +kernel
    exact hEntries ⟨hash, tx⟩ (AList.mem_lookup_iff.mp hLookup)
  exact hRanked.ranksSpenders.acyclic

/-- The last payment descends from the first one on two ways, and is removed once. -/
theorem remove_takes_diamond :
    ∃ pool', removeWithSpenders prims diamond splitPayment = .ok pool' ∧
      RemovesExactly diamond pool' {k | diamond.Descends (splitPayment.getHash prims) k} :=
  (remove_takes_descendants diamond_consistent diamond_acyclic).1 splitPayment
    (by decide +kernel)

example : ((removeWithSpenders prims diamond splitPayment).map fun pool =>
    (pool.mapTx.keys, pool.mapNextTx.keys)) = .ok ([], []) := by decide +kernel

end Sample

end SocietyGold
