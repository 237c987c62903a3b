import SocietyGold.State
import SocietyGold.Support.Trace

/-!
# The memory pool

`mapTx` holds the transactions of the pool under their ids, and `mapNextTx` says of each
outpoint which of them spends it, and with which input.  Every operation changes both
maps; `remove` follows the second one to the spenders of the transaction it removes while
it takes entries out of it.
-/

namespace SocietyGold

open Support

namespace CTxMemPool

/-! ## Operations -/

/-- `addUnchecked`. -/
def addUnchecked (pool : CTxMemPool) (hash : ℕ) (tx : CTransaction) : CTxMemPool where
  mapTx := pool.mapTx.insert hash tx
  mapNextTx := tx.vin.zipIdx.foldl
    (fun next input => next.insert input.1.prevout (hash, input.2)) pool.mapNextTx

/-- The erasures at the end of `remove`. -/
def unlink (pool : CTxMemPool) (hash : ℕ) (tx : CTransaction) : CTxMemPool where
  mapTx := pool.mapTx.erase hash
  mapNextTx := tx.vin.foldl (fun next txin => next.erase txin.prevout) pool.mapNextTx

/-- The transaction a `CInPoint` points to. -/
def derefPtx (pool : CTxMemPool) (inPoint : ℕ × ℕ) : Checked CTransaction :=
  match pool.mapTx.lookup inPoint.1 with
  | some tx => .ok tx
  | none => .error .danglingReference

/-- The loop of `remove` over the outputs, given the call for a spender. -/
def removeSpenders (removeTx : CTxMemPool → CTransaction → Checked CTxMemPool) (hash : ℕ) :
    (outputs : List ℕ) → CTxMemPool → Checked CTxMemPool
  | [], pool => .ok pool
  | i :: outputs, pool =>
      match pool.mapNextTx.lookup ⟨hash, i⟩ with
      | none => removeSpenders removeTx hash outputs pool
      | some inPoint => do
          let spender ← pool.derefPtx inPoint
          let pool ← removeTx pool spender
          removeSpenders removeTx hash outputs pool

/-- `remove(tx, true)`.  Pending calls are about different transactions of the pool
unless the recursion goes round in a circle. -/
def removeRecursive (prims : Primitives) :
    (fuel : ℕ) → CTxMemPool → CTransaction → Checked CTxMemPool
  | 0, _, _ => .error .diverges
  | fuel + 1, pool, tx =>
      let hash := tx.getHash prims
      if hash ∈ pool.mapTx then do
        let pool ← removeSpenders (removeRecursive prims fuel) hash (List.range tx.vout.length) pool
        .ok (pool.unlink hash tx)
      else .ok pool

def removeWithSpenders (prims : Primitives) (pool : CTxMemPool) (tx : CTransaction) :
    Checked CTxMemPool :=
  removeRecursive prims (pool.mapTx.entries.length + 1) pool tx

/-- The loop of `removeConflicts`. -/
def removeConflictsLoop (prims : Primitives) (tx : CTransaction) :
    List CTxIn → CTxMemPool → Checked CTxMemPool
  | [], pool => .ok pool
  | txin :: rest, pool =>
      match pool.mapNextTx.lookup txin.prevout with
      | none => removeConflictsLoop prims tx rest pool
      | some inPoint => do
          let txConflict ← pool.derefPtx inPoint
          let pool ←
            if txConflict ≠ tx then pool.removeWithSpenders prims txConflict else .ok pool
          removeConflictsLoop prims tx rest pool

def removeConflicts (prims : Primitives) (pool : CTxMemPool) (tx : CTransaction) :
    Checked CTxMemPool :=
  removeConflictsLoop prims tx tx.vin pool

def clear : CTxMemPool := ⟨∅, ∅⟩

/-! ## The two maps agree -/

/-- The input of the transaction under the hash spends the outpoint. -/
def Spends (pool : CTxMemPool) (hash i : ℕ) (prevout : COutPoint) : Prop :=
  ∃ tx, pool.mapTx.lookup hash = some tx ∧ (tx.vin[i]?).map CTxIn.prevout = some prevout

/-- Transactions lie under their ids, and `mapNextTx` lists exactly the outpoints they
spend. -/
structure Consistent (prims : Primitives) (pool : CTxMemPool) : Prop where
  filed : ∀ hash tx, pool.mapTx.lookup hash = some tx → tx.getHash prims = hash
  index : ∀ prevout hash i,
    pool.mapNextTx.lookup prevout = some (hash, i) ↔ pool.Spends hash i prevout

/-- The transactions of the first pool are among those of the second. -/
def Within (pool base : CTxMemPool) : Prop :=
  ∀ hash tx, pool.mapTx.lookup hash = some tx → base.mapTx.lookup hash = some tx

section Consistency

variable {prims : Primitives} {pool base : CTxMemPool} {tx : CTransaction} {hash : ℕ}

theorem within_refl (pool : CTxMemPool) : pool.Within pool := fun _ _ h => h

theorem Within.trans {middle : CTxMemPool} (h : pool.Within middle) (h' : middle.Within base) :
    pool.Within base :=
  fun hash tx hLookup => h' hash tx (h hash tx hLookup)

theorem Within.mem (h : pool.Within base) (hMem : hash ∈ pool.mapTx) : hash ∈ base.mapTx := by
  obtain ⟨tx, hLookup⟩ := Table.mem_iff_lookup.mp hMem
  exact Table.mem_iff_lookup.mpr ⟨tx, h hash tx hLookup⟩

theorem consistent_clear (prims : Primitives) : clear.Consistent prims where
  filed := by simp [clear]
  index := by simp [clear, Spends]

/-- No outpoint is spent by two transactions of a consistent pool, or twice by one. -/
theorem Consistent.spends_unique
    (h : pool.Consistent prims) {prevout : COutPoint} {hash' i i' : ℕ}
    (hSpends : pool.Spends hash i prevout) (hSpends' : pool.Spends hash' i' prevout) :
    hash = hash' ∧ i = i' := by
  have hIndex := (h.index prevout hash i).mpr hSpends
  have hIndex' := (h.index prevout hash' i').mpr hSpends'
  rw [hIndex, Option.some.injEq, Prod.mk.injEq] at hIndex'
  exact hIndex'

/-- A pointer of `mapNextTx` leads to a transaction. -/
theorem Consistent.derefPtx_eq_ok
    (h : pool.Consistent prims) {prevout : COutPoint} {inPoint : ℕ × ℕ}
    (hNext : pool.mapNextTx.lookup prevout = some inPoint) :
    ∃ tx, pool.derefPtx inPoint = .ok tx ∧ pool.mapTx.lookup inPoint.1 = some tx ∧
      tx.getHash prims = inPoint.1 := by
  obtain ⟨tx, hLookup, -⟩ := (h.index prevout inPoint.1 inPoint.2).mp hNext
  exact ⟨tx, by simp [derefPtx, hLookup], hLookup, h.filed _ _ hLookup⟩

theorem mem_prevouts_iff {vin : List CTxIn} {prevout : COutPoint} :
    prevout ∈ vin.map CTxIn.prevout ↔ ∃ i : ℕ, (vin[i]?).map CTxIn.prevout = some prevout := by
  rw [List.mem_iff_getElem?]
  simp only [List.getElem?_map]

/-! ## Adding -/

/-- What `AcceptToMemoryPool` has checked before it adds a transaction. -/
structure MayAdd (prims : Primitives) (pool : CTxMemPool) (hash : ℕ) (tx : CTransaction) :
    Prop where
  hash_eq : hash = tx.getHash prims
  absent : hash ∉ pool.mapTx
  unspent : ∀ txin ∈ tx.vin, txin.prevout ∉ pool.mapNextTx
  distinct : (tx.vin.map CTxIn.prevout).Nodup

theorem spends_addUnchecked_iff
    (hAbsent : hash ∉ pool.mapTx) {k i : ℕ} {prevout : COutPoint} :
    (pool.addUnchecked hash tx).Spends k i prevout ↔
      (k = hash ∧ (tx.vin[i]?).map CTxIn.prevout = some prevout) ∨ pool.Spends k i prevout := by
  have hTx : (pool.addUnchecked hash tx).mapTx.lookup k =
      if k = hash then some tx else pool.mapTx.lookup k := Table.lookup_insert_ite _ _ _ _
  unfold Spends
  rw [hTx]
  by_cases hk : k = hash
  · have hOld := Table.not_mem_iff_lookup.mp hAbsent
    rw [if_pos hk, hk, hOld]
    simp
  · simp [hk]

theorem Consistent.addUnchecked
    (h : pool.Consistent prims) (hMay : MayAdd prims pool hash tx) :
    (pool.addUnchecked hash tx).Consistent prims := by
  have hKeys : tx.vin.zipIdx.map (fun input => input.1.prevout) = tx.vin.map CTxIn.prevout := by
    have hFst := congrArg (List.map CTxIn.prevout) (List.zipIdx_map_fst 0 tx.vin)
    rwa [List.map_map] at hFst
  constructor
  · intro k tx' hLookup
    have hTx : (pool.addUnchecked hash tx).mapTx.lookup k =
        if k = hash then some tx else pool.mapTx.lookup k := Table.lookup_insert_ite _ _ _ _
    rw [hTx] at hLookup
    split_ifs at hLookup with hk
    · rw [hk, hMay.hash_eq, ← Option.some.inj hLookup]
    · exact h.filed k tx' hLookup
  · intro prevout k i
    rw [spends_addUnchecked_iff hMay.absent, ← h.index]
    change (tx.vin.zipIdx.foldl _ pool.mapNextTx).lookup prevout = _ ↔ _
    by_cases hOwn : prevout ∈ tx.vin.map CTxIn.prevout
    · -- the new transaction spends it, and nothing did before
      obtain ⟨i₀, hAt⟩ := mem_prevouts_iff.mp hOwn
      obtain ⟨txin, hInput, rfl⟩ := Option.map_eq_some_iff.mp hAt
      have hMem : (txin, i₀) ∈ tx.vin.zipIdx := List.mk_mem_zipIdx_iff_getElem?.mpr hInput
      have hNew := Table.lookup_foldl_insert_of_mem (fun input : CTxIn × ℕ => input.1.prevout)
        (fun input => (hash, input.2)) pool.mapNextTx (by rw [hKeys]; exact hMay.distinct) hMem
      have hOld := Table.not_mem_iff_lookup.mp (hMay.unspent txin (List.mem_of_getElem? hInput))
      rw [hNew, hOld]
      simp only [Option.some.injEq, Prod.mk.injEq, reduceCtorEq, or_false]
      constructor
      · rintro ⟨rfl, rfl⟩
        exact ⟨rfl, hAt⟩
      · rintro ⟨rfl, hAt'⟩
        rw [← List.getElem?_map] at hAt hAt'
        have hInside := (List.getElem?_eq_some_iff.mp hAt).1
        exact ⟨rfl, (List.getElem?_inj hInside hMay.distinct).mp (hAt.trans hAt'.symm)⟩
    · rw [Table.lookup_foldl_insert_of_not_mem _ _ _ (by rw [hKeys]; exact hOwn)]
      constructor
      · exact Or.inr
      · rintro (⟨-, hAt⟩ | hOld)
        · exact absurd (mem_prevouts_iff.mpr ⟨i, hAt⟩) hOwn
        · exact hOld

/-! ## Removing one transaction -/

theorem lookup_unlink (pool : CTxMemPool) (hash : ℕ) (tx : CTransaction) (k : ℕ) :
    (pool.unlink hash tx).mapTx.lookup k = if k = hash then none else pool.mapTx.lookup k :=
  Table.lookup_erase_ite _ _ _

theorem within_unlink (pool : CTxMemPool) (hash : ℕ) (tx : CTransaction) :
    (pool.unlink hash tx).Within pool := by
  intro k tx' hLookup
  rw [lookup_unlink] at hLookup
  split_ifs at hLookup
  exact hLookup

/-- Taking a transaction of the base out of what is left of it.  It may be gone
already: then the outpoints it spends are gone as well. -/
theorem Consistent.unlink
    (h : pool.Consistent prims) (hWithin : pool.Within base) (hBase : base.Consistent prims)
    (hStored : base.mapTx.lookup hash = some tx) : (pool.unlink hash tx).Consistent prims := by
  constructor
  · intro k tx' hLookup
    exact h.filed k tx' (within_unlink pool hash tx k tx' hLookup)
  · intro prevout k i
    change (tx.vin.foldl _ pool.mapNextTx).lookup prevout = _ ↔ _
    rw [Table.lookup_foldl_erase]
    have hSpends :
        (pool.unlink hash tx).Spends k i prevout ↔ k ≠ hash ∧ pool.Spends k i prevout := by
      unfold Spends
      rw [lookup_unlink]
      by_cases hk : k = hash
      · simp [hk]
      · simp [hk]
    rw [hSpends, ← h.index]
    by_cases hOwn : prevout ∈ tx.vin.map CTxIn.prevout
    · rw [if_pos hOwn]
      simp only [reduceCtorEq, false_iff, not_and]
      intro hk hNext
      obtain ⟨i₀, hAt⟩ := mem_prevouts_iff.mp hOwn
      obtain ⟨other, hOther, hOtherAt⟩ := (h.index prevout k i).mp hNext
      exact hk (hBase.spends_unique ⟨other, hWithin k other hOther, hOtherAt⟩
        ⟨tx, hStored, hAt⟩).1
    · rw [if_neg hOwn]
      refine ⟨fun hNext => ⟨?_, hNext⟩, fun hNext => hNext.2⟩
      rintro rfl
      obtain ⟨other, hOther, hOtherAt⟩ := (h.index prevout k i).mp hNext
      cases hStored.symm.trans (hWithin k other hOther)
      exact hOwn (mem_prevouts_iff.mpr ⟨i, hOtherAt⟩)

/-! ## Removing a transaction with its spenders -/

/-- A consistent pool with no transaction the first one has not. -/
structure ShrinksTo (prims : Primitives) (pool pool' : CTxMemPool) : Prop where
  consistent : pool'.Consistent prims
  within : pool'.Within pool

theorem Consistent.shrinksTo_refl (h : pool.Consistent prims) : ShrinksTo prims pool pool :=
  ⟨h, within_refl pool⟩

theorem ShrinksTo.trans {pool' pool'' : CTxMemPool}
    (h : ShrinksTo prims pool pool') (h' : ShrinksTo prims pool' pool'') :
    ShrinksTo prims pool pool'' :=
  ⟨h'.consistent, h'.within.trans h.within⟩

/-- A call for a transaction of a consistent pool shrinks it, or does not return. -/
def Shrinks (prims : Primitives) (removeTx : CTxMemPool → CTransaction → Checked CTxMemPool) :
    Prop :=
  ∀ pool tx, pool.Consistent prims → pool.mapTx.lookup (tx.getHash prims) = some tx →
    (∃ pool', removeTx pool tx = .ok pool' ∧ ShrinksTo prims pool pool') ∨
      removeTx pool tx = .error .diverges

/-- The loop over the outputs shrinks the pool if every call does. -/
theorem removeSpenders_cases
    {removeTx : CTxMemPool → CTransaction → Checked CTxMemPool} (hRemove : Shrinks prims removeTx)
    (outputs : List ℕ) (h : pool.Consistent prims) :
    (∃ pool', removeSpenders removeTx hash outputs pool = .ok pool' ∧
      ShrinksTo prims pool pool') ∨
    removeSpenders removeTx hash outputs pool = .error .diverges := by
  induction outputs generalizing pool with
  | nil => exact Or.inl ⟨pool, rfl, h.shrinksTo_refl⟩
  | cons i outputs ih =>
      unfold removeSpenders
      cases hNext : pool.mapNextTx.lookup ⟨hash, i⟩ with
      | none => exact ih h
      | some inPoint =>
          obtain ⟨spender, hDeref, hLookup, hHash⟩ := h.derefPtx_eq_ok hNext
          simp only [hDeref, ok_bind]
          rcases hRemove pool spender h (by rw [hHash]; exact hLookup) with
            ⟨pool₁, hCall, hShrink⟩ | hCall
          · rw [hCall, ok_bind]
            rcases ih hShrink.consistent with ⟨pool', hRest, hShrink'⟩ | hRest
            · exact Or.inl ⟨pool', hRest, hShrink.trans hShrink'⟩
            · exact Or.inr hRest
          · rw [hCall]
            exact Or.inr rfl

/-- A recursive call shrinks a consistent pool and removes the transaction, or does not
return.  If the pool has a transaction under the id, it is the given one. -/
theorem removeRecursive_cases
    (fuel : ℕ) (h : pool.Consistent prims)
    (hStored : ∀ stored, pool.mapTx.lookup (tx.getHash prims) = some stored → stored = tx) :
    (∃ pool', removeRecursive prims fuel pool tx = .ok pool' ∧ ShrinksTo prims pool pool' ∧
      tx.getHash prims ∉ pool'.mapTx) ∨
    removeRecursive prims fuel pool tx = .error .diverges := by
  induction fuel generalizing pool tx with
  | zero => exact Or.inr rfl
  | succ fuel ih =>
      unfold removeRecursive
      by_cases hMem : tx.getHash prims ∈ pool.mapTx
      · have hCalls : Shrinks prims (removeRecursive prims fuel) := by
          intro pool spender hPool hLookup
          rcases ih hPool fun stored hSame => Option.some.inj (hSame.symm.trans hLookup) with
            ⟨pool', hCall, hShrink, -⟩ | hCall
          · exact Or.inl ⟨pool', hCall, hShrink⟩
          · exact Or.inr hCall
        simp only [hMem, if_true]
        rcases removeSpenders_cases hCalls (List.range tx.vout.length) h with
          ⟨pool₁, hLoop, hShrink⟩ | hLoop
        · left
          obtain ⟨stored, hLookup⟩ := Table.mem_iff_lookup.mp hMem
          rw [hStored stored hLookup] at hLookup
          rw [hLoop, ok_bind]
          refine ⟨_, rfl, ⟨hShrink.consistent.unlink hShrink.within h hLookup, ?_⟩, ?_⟩
          · exact (within_unlink _ _ _).trans hShrink.within
          · rw [Table.not_mem_iff_lookup, lookup_unlink, if_pos rfl]
        · right
          rw [hLoop]
          rfl
      · left
        rw [if_neg hMem]
        exact ⟨pool, rfl, h.shrinksTo_refl, hMem⟩

/-! ## The recursion ends -/

/-- The transactions of the pool can be ranked so that each comes after those whose
outputs it spends: their spends do not go round in a circle. -/
def Ranked (rank : ℕ → ℕ) (pool : CTxMemPool) : Prop :=
  ∀ hash tx, pool.mapTx.lookup hash = some tx → ∀ txin ∈ tx.vin,
    txin.prevout.hash ∈ pool.mapTx → rank txin.prevout.hash < rank hash

/-- A transaction of the pool spends an output of another one. -/
def SpendsOutput (pool : CTxMemPool) (hash k : ℕ) : Prop :=
  ∃ tx i j, pool.mapTx.lookup hash = some tx ∧ i < tx.vout.length ∧ pool.Spends k j ⟨hash, i⟩

/-- Each transaction of the pool comes before those that spend its outputs. -/
def RanksSpenders (rank : ℕ → ℕ) (pool : CTxMemPool) : Prop :=
  ∀ hash k, pool.SpendsOutput hash k → rank hash < rank k

theorem Spends.of_within
    {i : ℕ} {prevout : COutPoint} (h : pool.Spends hash i prevout) (hWithin : pool.Within base) :
    base.Spends hash i prevout := by
  obtain ⟨spender, hLookup, hAt⟩ := h
  exact ⟨spender, hWithin hash spender hLookup, hAt⟩

/-- Among the transactions that are left, the same ones spend outputs of each other. -/
theorem spendsOutput_iff_of_within (hWithin : pool.Within base) {k : ℕ} :
    pool.SpendsOutput hash k ↔ base.SpendsOutput hash k ∧ hash ∈ pool.mapTx ∧ k ∈ pool.mapTx := by
  constructor
  · rintro ⟨tx, i, j, hLookup, hInside, hSpends⟩
    have hSpends' := hSpends
    obtain ⟨spender, hSpender, -⟩ := hSpends'
    exact ⟨⟨tx, i, j, hWithin hash tx hLookup, hInside, hSpends.of_within hWithin⟩,
      Table.mem_iff_lookup.mpr ⟨tx, hLookup⟩, Table.mem_iff_lookup.mpr ⟨spender, hSpender⟩⟩
  · rintro ⟨⟨tx, i, j, hLookup, hInside, spender, hSpender, hAt⟩, hMem, hMem'⟩
    obtain ⟨tx', hLookup'⟩ := Table.mem_iff_lookup.mp hMem
    obtain ⟨spender', hSpender'⟩ := Table.mem_iff_lookup.mp hMem'
    obtain rfl := Option.some.inj (hLookup.symm.trans (hWithin hash tx' hLookup'))
    obtain rfl := Option.some.inj (hSpender.symm.trans (hWithin k spender' hSpender'))
    exact ⟨tx, i, j, hLookup', hInside, spender, hSpender', hAt⟩

theorem RanksSpenders.within
    {rank : ℕ → ℕ} (h : RanksSpenders rank base) (hWithin : pool.Within base) :
    RanksSpenders rank pool :=
  fun hash k hSpends => h hash k ((spendsOutput_iff_of_within hWithin).mp hSpends).1

theorem Ranked.ranksSpenders {rank : ℕ → ℕ} (h : Ranked rank pool) : RanksSpenders rank pool := by
  rintro hash k ⟨tx, i, j, hLookup, -, spender, hSpender, hAt⟩
  obtain ⟨txin, hInput, hPrevout⟩ := Option.map_eq_some_iff.mp hAt
  have hLess := h k spender hSpender txin (List.mem_of_getElem? hInput)
  rw [hPrevout] at hLess
  exact hLess (Table.mem_iff_lookup.mpr ⟨tx, hLookup⟩)

/-- The number of transactions of the pool that come after the given one. -/
def countAfter (rank : ℕ → ℕ) (pool : CTxMemPool) (hash : ℕ) : ℕ :=
  (pool.mapTx.keys.toFinset.filter fun k => rank hash < rank k).card

theorem countAfter_le_of_within
    (rank : ℕ → ℕ) (hWithin : pool.Within base) (hash : ℕ) :
    countAfter rank pool hash ≤ countAfter rank base hash := by
  apply Finset.card_le_card
  apply Finset.filter_subset_filter
  intro k hk
  rw [List.mem_toFinset, ← AList.mem_keys] at hk ⊢
  exact hWithin.mem hk

theorem countAfter_lt
    {rank : ℕ → ℕ} {k : ℕ} (hMem : k ∈ pool.mapTx) (hLess : rank hash < rank k) :
    countAfter rank pool k < countAfter rank pool hash := by
  apply Finset.card_lt_card
  rw [Finset.ssubset_iff_of_subset]
  · refine ⟨k, ?_, by simp⟩
    rw [Finset.mem_filter, List.mem_toFinset, ← AList.mem_keys]
    exact ⟨hMem, hLess⟩
  · intro other hOther
    rw [Finset.mem_filter] at hOther ⊢
    exact ⟨hOther.1, hLess.trans hOther.2⟩

theorem countAfter_lt_length (rank : ℕ → ℕ) (pool : CTxMemPool) (hash : ℕ) :
    countAfter rank pool hash < pool.mapTx.entries.length + 1 := by
  have hFilter := Finset.card_filter_le pool.mapTx.keys.toFinset fun k => rank hash < rank k
  have hKeys := List.toFinset_card_le pool.mapTx.keys
  have hLength : pool.mapTx.keys.length = pool.mapTx.entries.length := List.length_map _
  unfold countAfter
  omega

theorem removeSpenders_ne_diverges
    {removeTx : CTxMemPool → CTransaction → Checked CTxMemPool} (hRemove : Shrinks prims removeTx)
    (outputs : List ℕ) (h : pool.Consistent prims) (hWithin : pool.Within base)
    (hCalls : ∀ pool k j spender, pool.Consistent prims → pool.Within base →
      pool.mapTx.lookup k = some spender → ∀ i ∈ outputs, pool.Spends k j ⟨hash, i⟩ →
      removeTx pool spender ≠ .error .diverges) :
    removeSpenders removeTx hash outputs pool ≠ .error .diverges := by
  induction outputs generalizing pool with
  | nil => simp [removeSpenders]
  | cons i outputs ih =>
      have hLater : ∀ pool k j spender, pool.Consistent prims → pool.Within base →
          pool.mapTx.lookup k = some spender → ∀ i ∈ outputs, pool.Spends k j ⟨hash, i⟩ →
          removeTx pool spender ≠ .error .diverges :=
        fun pool k j spender hPool hPoolWithin hLookup i' hi' =>
          hCalls pool k j spender hPool hPoolWithin hLookup i' (List.mem_cons_of_mem i hi')
      unfold removeSpenders
      cases hNext : pool.mapNextTx.lookup ⟨hash, i⟩ with
      | none => exact ih h hWithin hLater
      | some inPoint =>
          obtain ⟨spender, hDeref, hLookup, hHash⟩ := h.derefPtx_eq_ok hNext
          have hSpends := (h.index _ inPoint.1 inPoint.2).mp hNext
          have hNot := hCalls pool inPoint.1 inPoint.2 spender h hWithin hLookup i
            List.mem_cons_self hSpends
          simp only [hDeref, ok_bind]
          rcases hRemove pool spender h (by rw [hHash]; exact hLookup) with
            ⟨pool₁, hCall, hShrink⟩ | hCall
          · rw [hCall, ok_bind]
            exact ih hShrink.consistent (hShrink.within.trans hWithin) hLater
          · exact absurd hCall hNot

theorem shrinks_removeRecursive (prims : Primitives) (fuel : ℕ) :
    Shrinks prims (removeRecursive prims fuel) := by
  intro pool tx hPool hLookup
  rcases removeRecursive_cases fuel hPool
      fun stored hSame => Option.some.inj (hSame.symm.trans hLookup) with
    ⟨pool', hCall, hShrink, -⟩ | hCall
  · exact Or.inl ⟨pool', hCall, hShrink⟩
  · exact Or.inr hCall

/-- Where the spends do not go round in a circle, the depth of the recursion is bounded by
the number of transactions that come later. -/
theorem removeRecursive_ne_diverges
    {rank : ℕ → ℕ} {fuel : ℕ} (h : pool.Consistent prims) (hRank : RanksSpenders rank pool)
    (hStored : ∀ stored, pool.mapTx.lookup (tx.getHash prims) = some stored → stored = tx)
    (hFuel : countAfter rank pool (tx.getHash prims) < fuel) :
    removeRecursive prims fuel pool tx ≠ .error .diverges := by
  induction fuel generalizing pool tx with
  | zero => omega
  | succ fuel ih =>
      unfold removeRecursive
      by_cases hMem : tx.getHash prims ∈ pool.mapTx
      · obtain ⟨stored, hStoredAt⟩ := Table.mem_iff_lookup.mp hMem
        rw [hStored stored hStoredAt] at hStoredAt
        simp only [hMem, if_true]
        have hLoop : removeSpenders (removeRecursive prims fuel) (tx.getHash prims)
            (List.range tx.vout.length) pool ≠ .error .diverges := by
          apply removeSpenders_ne_diverges (shrinks_removeRecursive prims fuel) _ h
            (within_refl pool)
          intro later k j spender hLater hWithin hLookup i hi hSpends
          have hHash := hLater.filed k spender hLookup
          have hLess : rank (tx.getHash prims) < rank k := by
            apply hRank
            exact ⟨tx, i, j, hStoredAt, List.mem_range.mp hi, hSpends.of_within hWithin⟩
          have hInPool := Table.mem_iff_lookup.mpr ⟨spender, hLookup⟩
          have hCount := countAfter_lt hInPool hLess
          have hMono := countAfter_le_of_within rank hWithin (tx.getHash prims)
          apply ih hLater (hRank.within hWithin)
          · rw [hHash]
            exact fun stored hSame => Option.some.inj (hSame.symm.trans hLookup)
          · rw [hHash]
            omega
        cases hResult : removeSpenders (removeRecursive prims fuel) (tx.getHash prims)
            (List.range tx.vout.length) pool with
        | error fault =>
            rw [hResult] at hLoop
            intro hDiverges
            exact hLoop hDiverges
        | ok pool' => simp
      · simp [hMem]

/-! ## Removing conflicts -/

/-- A call with the fuel of the source's recursion. -/
theorem removeWithSpenders_cases
    (h : pool.Consistent prims)
    (hStored : ∀ stored, pool.mapTx.lookup (tx.getHash prims) = some stored → stored = tx) :
    (∃ pool', removeWithSpenders prims pool tx = .ok pool' ∧ ShrinksTo prims pool pool' ∧
      tx.getHash prims ∉ pool'.mapTx) ∨
    (removeWithSpenders prims pool tx = .error .diverges ∧
      ∀ rank, ¬RanksSpenders rank pool) := by
  rcases removeRecursive_cases (pool.mapTx.entries.length + 1) h hStored with hReturns | hDiverges
  · exact Or.inl hReturns
  · refine Or.inr ⟨hDiverges, fun rank hRank => ?_⟩
    exact removeRecursive_ne_diverges h hRank hStored (countAfter_lt_length rank pool _) hDiverges

/-- In the pool only the given transaction may spend the outpoint. -/
def SpentOnlyBy (pool : CTxMemPool) (tx : CTransaction) (prevout : COutPoint) : Prop :=
  ∀ hash i other, pool.Spends hash i prevout → pool.mapTx.lookup hash = some other → other = tx

theorem SpentOnlyBy.of_within
    {prevout : COutPoint} (h : base.SpentOnlyBy tx prevout) (hWithin : pool.Within base) :
    pool.SpentOnlyBy tx prevout :=
  fun hash i other hSpends hLookup =>
    h hash i other (hSpends.of_within hWithin) (hWithin hash other hLookup)

/-- One input: what else spends its outpoint is removed with its descendants, and the loop
goes on with the rest. -/
theorem removeConflictsLoop_cons
    (txin : CTxIn) (rest : List CTxIn) (h : pool.Consistent prims) :
    (∃ pool', removeConflictsLoop prims tx (txin :: rest) pool =
        removeConflictsLoop prims tx rest pool' ∧
      ShrinksTo prims pool pool' ∧ pool'.SpentOnlyBy tx txin.prevout) ∨
    (removeConflictsLoop prims tx (txin :: rest) pool = .error .diverges ∧
      ∀ rank, ¬RanksSpenders rank pool) := by
  rw [removeConflictsLoop]
  cases hNext : pool.mapNextTx.lookup txin.prevout with
  | none =>
      refine Or.inl ⟨pool, rfl, h.shrinksTo_refl, fun hash i other hSpends _ => ?_⟩
      rw [← h.index, hNext] at hSpends
      cases hSpends
  | some inPoint =>
      obtain ⟨txConflict, hDeref, hLookup, hHash⟩ := h.derefPtx_eq_ok hNext
      have hSpender : ∀ hash i, pool.Spends hash i txin.prevout → hash = inPoint.1 := by
        intro hash i hSpends
        exact (h.spends_unique hSpends ((h.index _ _ _).mp hNext)).1
      simp only [hDeref, ok_bind]
      by_cases hSame : txConflict = tx
      · rw [if_neg (not_not.mpr hSame)]
        refine Or.inl ⟨pool, rfl, h.shrinksTo_refl, fun hash i other hSpends hOther => ?_⟩
        rw [hSpender hash i hSpends, hLookup, Option.some.injEq] at hOther
        rw [← hOther, hSame]
      · rw [if_pos hSame]
        have hStored : ∀ stored, pool.mapTx.lookup (txConflict.getHash prims) = some stored →
            stored = txConflict := by
          rw [hHash]
          exact fun stored hStored => Option.some.inj (hStored.symm.trans hLookup)
        rcases removeWithSpenders_cases h hStored with
          ⟨pool', hCall, hShrink, hGone⟩ | ⟨hCall, hRank⟩
        · rw [hCall, ok_bind]
          refine Or.inl ⟨pool', rfl, hShrink, fun hash i other hSpends hOther => ?_⟩
          have hAgain := hSpender hash i (hSpends.of_within hShrink.within)
          rw [hHash, ← hAgain] at hGone
          exact absurd (Table.mem_iff_lookup.mpr ⟨other, hOther⟩) hGone
        · rw [hCall]
          exact Or.inr ⟨rfl, hRank⟩

/-- After `removeConflicts` no other transaction of the pool spends an outpoint that the
given one spends. -/
theorem removeConflictsLoop_cases
    (vin : List CTxIn) (h : pool.Consistent prims) :
    (∃ pool', removeConflictsLoop prims tx vin pool = .ok pool' ∧ ShrinksTo prims pool pool' ∧
      ∀ txin ∈ vin, pool'.SpentOnlyBy tx txin.prevout) ∨
    (removeConflictsLoop prims tx vin pool = .error .diverges ∧
      ∀ rank, ¬RanksSpenders rank pool) := by
  induction vin generalizing pool with
  | nil => exact Or.inl ⟨pool, rfl, h.shrinksTo_refl, by simp⟩
  | cons txin rest ih =>
      rcases removeConflictsLoop_cons txin rest h with
        ⟨pool₁, hRound, hShrink, hHere⟩ | hDiverges
      · rw [hRound]
        rcases ih hShrink.consistent with ⟨pool', hRest, hShrink', hLater⟩ | ⟨hRest, hRank⟩
        · refine Or.inl ⟨pool', hRest, hShrink.trans hShrink', fun input hInput => ?_⟩
          -- what is gone after this round stays gone in the later ones
          rcases List.mem_cons.mp hInput with rfl | hInput
          · exact hHere.of_within hShrink'.within
          · exact hLater input hInput
        · exact Or.inr ⟨hRest, fun rank hRanked => hRank rank (hRanked.within hShrink.within)⟩
      · exact Or.inr hDiverges

end Consistency

/-! ## Runs -/

/-- A call of an operation that changes the pool. -/
inductive PoolCall
  | addUnchecked (hash : ℕ) (tx : CTransaction)
  | remove (tx : CTransaction) (fRecursive : Bool)
  | removeConflicts (tx : CTransaction)
  | clear

namespace PoolCall

def run (prims : Primitives) (pool : CTxMemPool) : PoolCall → Checked CTxMemPool
  | .addUnchecked hash tx => .ok (pool.addUnchecked hash tx)
  | .remove tx true => pool.removeWithSpenders prims tx
  | .remove tx false => .ok (pool.remove prims tx)
  | .removeConflicts tx => pool.removeConflicts prims tx
  | .clear => .ok CTxMemPool.clear

/-- Only what `AcceptToMemoryPool` has checked is added. -/
def Allowed (prims : Primitives) (pool : CTxMemPool) : PoolCall → Prop
  | .addUnchecked hash tx => MayAdd prims pool hash tx
  | _ => True

/-- The transaction that is added or named for removal. -/
def transaction : PoolCall → Option CTransaction
  | .addUnchecked _ tx => some tx
  | .remove tx _ => some tx
  | .removeConflicts _ => none
  | .clear => none

end PoolCall

/-- An allowed call that returns. -/
def PoolStep (prims : Primitives) (pool : CTxMemPool) (calls : List PoolCall)
    (pool' : CTxMemPool) : Prop :=
  ∃ call, calls = [call] ∧ call.Allowed prims pool ∧ call.run prims pool = .ok pool'

/-- No two different transactions that are added or named for removal have the same id. -/
def IdsIdentify (prims : Primitives) (calls : List PoolCall) : Prop :=
  ∀ tx ∈ calls.filterMap PoolCall.transaction, ∀ tx' ∈ calls.filterMap PoolCall.transaction,
    tx.getHash prims = tx'.getHash prims → tx = tx'

section Runs

variable {prims : Primitives} {pool pool' : CTxMemPool}

theorem remove_eq_unlink (prims : Primitives) (pool : CTxMemPool) (tx : CTransaction) :
    pool.remove prims tx =
      if tx.getHash prims ∈ pool.mapTx then pool.unlink (tx.getHash prims) tx else pool := rfl

theorem Consistent.remove
    {tx : CTransaction} (h : pool.Consistent prims)
    (hStored : ∀ stored, pool.mapTx.lookup (tx.getHash prims) = some stored → stored = tx) :
    ShrinksTo prims pool (pool.remove prims tx) := by
  rw [remove_eq_unlink]
  by_cases hMem : tx.getHash prims ∈ pool.mapTx
  · obtain ⟨stored, hLookup⟩ := Table.mem_iff_lookup.mp hMem
    rw [hStored stored hLookup] at hLookup
    rw [if_pos hMem]
    exact ⟨h.unlink (within_refl pool) h hLookup, within_unlink _ _ _⟩
  · rw [if_neg hMem]
    exact h.shrinksTo_refl

/-- A pool of the transactions that were added, in which the two maps agree. -/
structure HoldsAdded (prims : Primitives) (txs : List CTransaction) (pool : CTxMemPool) : Prop where
  consistent : pool.Consistent prims
  added : ∀ hash tx, pool.mapTx.lookup hash = some tx → tx ∈ txs

theorem HoldsAdded.of_shrinksTo
    {txs txs' : List CTransaction} (h : HoldsAdded prims txs pool)
    (hShrink : ShrinksTo prims pool pool') (hMore : ∀ tx ∈ txs, tx ∈ txs') :
    HoldsAdded prims txs' pool' :=
  ⟨hShrink.consistent, fun hash tx hLookup =>
    hMore tx (h.added hash tx (hShrink.within hash tx hLookup))⟩

/-- An allowed call returns with the two maps in agreement, or the spends of the pool go
round in a circle. -/
theorem HoldsAdded.call
    {txs : List CTransaction} {call : PoolCall} (h : HoldsAdded prims txs pool)
    (hAllowed : call.Allowed prims pool)
    (hIds : ∀ tx ∈ txs, ∀ tx', call.transaction = some tx' →
      tx.getHash prims = tx'.getHash prims → tx = tx') :
    (∃ pool', call.run prims pool = .ok pool' ∧
      HoldsAdded prims (txs ++ [call].filterMap PoolCall.transaction) pool') ∨
    (call.run prims pool = .error .diverges ∧ ∀ rank, ¬Ranked rank pool) := by
  have hMore : ∀ tx ∈ txs, tx ∈ txs ++ [call].filterMap PoolCall.transaction :=
    fun tx hTx => List.mem_append_left _ hTx
  have hStored : ∀ tx, call.transaction = some tx → ∀ stored,
      pool.mapTx.lookup (tx.getHash prims) = some stored → stored = tx := by
    intro tx hCall stored hLookup
    exact hIds stored (h.added _ _ hLookup) tx hCall (h.consistent.filed _ _ hLookup)
  cases call with
  | addUnchecked hash tx =>
      refine Or.inl ⟨_, rfl, h.consistent.addUnchecked hAllowed, fun k other hLookup => ?_⟩
      have hTx : (pool.addUnchecked hash tx).mapTx.lookup k =
          if k = hash then some tx else pool.mapTx.lookup k := Table.lookup_insert_ite _ _ _ _
      rw [hTx] at hLookup
      split_ifs at hLookup
      · rw [← Option.some.inj hLookup]
        exact List.mem_append_right _ (by simp [PoolCall.transaction])
      · exact hMore other (h.added k other hLookup)
  | remove tx fRecursive =>
      cases fRecursive with
      | true =>
          rcases removeWithSpenders_cases h.consistent (hStored tx rfl) with
            ⟨pool', hCall, hShrink, -⟩ | ⟨hDiverges, hRank⟩
          · exact Or.inl ⟨pool', hCall, h.of_shrinksTo hShrink hMore⟩
          · exact Or.inr ⟨hDiverges, fun rank hRanked => hRank rank hRanked.ranksSpenders⟩
      | false =>
          exact Or.inl ⟨_, rfl, h.of_shrinksTo (h.consistent.remove (hStored tx rfl)) hMore⟩
  | removeConflicts tx =>
      rcases removeConflictsLoop_cases tx.vin h.consistent with
        ⟨pool', hCall, hShrink, -⟩ | ⟨hDiverges, hRank⟩
      · exact Or.inl ⟨pool', hCall, h.of_shrinksTo hShrink hMore⟩
      · exact Or.inr ⟨hDiverges, fun rank hRanked => hRank rank hRanked.ranksSpenders⟩
  | clear =>
      refine Or.inl ⟨_, rfl, consistent_clear prims, ?_⟩
      simp [CTxMemPool.clear]

theorem IdsIdentify.of_append
    {calls more : List PoolCall} (h : IdsIdentify prims (calls ++ more)) :
    IdsIdentify prims calls := by
  intro tx hTx tx' hTx'
  rw [IdsIdentify, List.filterMap_append] at h
  exact h tx (List.mem_append_left _ hTx) tx' (List.mem_append_left _ hTx')

theorem IdsIdentify.last
    {calls : List PoolCall} {call : PoolCall} (h : IdsIdentify prims (calls ++ [call])) :
    ∀ tx ∈ calls.filterMap PoolCall.transaction, ∀ tx', call.transaction = some tx' →
      tx.getHash prims = tx'.getHash prims → tx = tx' := by
  intro tx hTx tx' hCall
  rw [IdsIdentify, List.filterMap_append] at h
  exact h tx (List.mem_append_left _ hTx) tx' (List.mem_append_right _ (by simp [hCall]))

theorem holdsAdded_of_run
    {calls : List PoolCall} (hRun : Trace (PoolStep prims) clear calls pool)
    (hIds : IdsIdentify prims calls) :
    HoldsAdded prims (calls.filterMap PoolCall.transaction) pool := by
  induction hRun with
  | start => exact ⟨consistent_clear prims, by simp [clear]⟩
  | next hRun hStep ih =>
      obtain ⟨call, rfl, hAllowed, hCall⟩ := hStep
      rcases (ih hIds.of_append).call hAllowed hIds.last with
        ⟨pool', hReturns, hHolds⟩ | ⟨hDiverges, -⟩
      · cases hCall.symm.trans hReturns
        rw [List.filterMap_append]
        exact hHolds
      · rw [hCall] at hDiverges
        cases hDiverges

/-- After every sequence of calls on an empty pool, `mapNextTx` lists exactly the inputs of
the transactions of the pool; so no two of them spend one outpoint, and no `CInPoint`
dangles.  The next call returns, unless spends of the pool go round in a circle. -/
theorem mapNextTx_consistent
    (calls : List PoolCall) (hRun : Trace (PoolStep prims) clear calls pool)
    (hIds : IdsIdentify prims calls) :
    (∀ prevout hash i, pool.mapNextTx.lookup prevout = some (hash, i) ↔
      ∃ tx, pool.mapTx.lookup hash = some tx ∧
        (tx.vin[i]?).map CTxIn.prevout = some prevout) ∧
    (∀ hash hash' tx tx', pool.mapTx.lookup hash = some tx → pool.mapTx.lookup hash' = some tx' →
      ∀ prevout ∈ tx.vin.map CTxIn.prevout, prevout ∈ tx'.vin.map CTxIn.prevout →
        hash = hash') ∧
    (∀ prevout inPoint, pool.mapNextTx.lookup prevout = some inPoint →
      ∃ tx, pool.derefPtx inPoint = .ok tx) ∧
    ∀ call : PoolCall, call.Allowed prims pool → IdsIdentify prims (calls ++ [call]) →
      (∃ pool', call.run prims pool = .ok pool') ∨
        (call.run prims pool = .error .diverges ∧ ∀ rank, ¬Ranked rank pool) := by
  have hHolds := holdsAdded_of_run hRun hIds
  refine ⟨hHolds.consistent.index, ?_, ?_, ?_⟩
  · intro hash hash' tx tx' hLookup hLookup' prevout hOwn hOwn'
    obtain ⟨i, hAt⟩ := mem_prevouts_iff.mp hOwn
    obtain ⟨i', hAt'⟩ := mem_prevouts_iff.mp hOwn'
    exact (hHolds.consistent.spends_unique ⟨tx, hLookup, hAt⟩ ⟨tx', hLookup', hAt'⟩).1
  · intro prevout inPoint hNext
    obtain ⟨tx, hDeref, -⟩ := hHolds.consistent.derefPtx_eq_ok hNext
    exact ⟨tx, hDeref⟩
  · intro call hAllowed hNext
    rcases hHolds.call hAllowed hNext.last with ⟨pool', hReturns, -⟩ | hDiverges
    · exact Or.inl ⟨pool', hReturns⟩
    · exact Or.inr hDiverges

end Runs

end CTxMemPool

/-! ## A pool with a chain of spends -/

namespace Sample

def payment (prevout : COutPoint) (nValue : ℤ) : CTransaction where
  nVersion := 1
  nTime := 900
  vin := [⟨prevout, [], UINT_MAX⟩]
  vout := [⟨nValue, [0x51]⟩]
  nLockTime := 0

def firstPayment : CTransaction := payment ⟨7, 0⟩ 100

/-- A payment from the output of the first one. -/
def nextPayment : CTransaction := payment ⟨firstPayment.getHash prims, 0⟩ 90

/-- Another payment from the output the first one spends. -/
def rivalPayment : CTransaction := payment ⟨7, 0⟩ 80

def bothPayments : CTxMemPool :=
  (CTxMemPool.clear.addUnchecked (firstPayment.getHash prims) firstPayment).addUnchecked
    (nextPayment.getHash prims) nextPayment

def addPayments : List CTxMemPool.PoolCall :=
  [.addUnchecked (firstPayment.getHash prims) firstPayment] ++
    [.addUnchecked (nextPayment.getHash prims) nextPayment]

theorem trace_bothPayments :
    Trace (CTxMemPool.PoolStep prims) CTxMemPool.clear addPayments bothPayments := by
  refine (Trace.start.next ⟨_, rfl, ?_, rfl⟩).next ⟨_, rfl, ?_, rfl⟩
  · exact ⟨rfl, by decide +kernel, by decide +kernel, by decide +kernel⟩
  · exact ⟨rfl, by decide +kernel, by decide +kernel, by decide +kernel⟩

theorem bothPayments_consistent :
    Trace (CTxMemPool.PoolStep prims) CTxMemPool.clear addPayments bothPayments ∧
      (bothPayments.mapNextTx.lookup ⟨firstPayment.getHash prims, 0⟩ =
          some (nextPayment.getHash prims, 0) ↔
        ∃ tx, bothPayments.mapTx.lookup (nextPayment.getHash prims) = some tx ∧
          (tx.vin[0]?).map CTxIn.prevout = some ⟨firstPayment.getHash prims, 0⟩) ∧
      ∃ pool, CTxMemPool.PoolCall.run prims bothPayments (.removeConflicts rivalPayment) =
        .ok pool := by
  have hIds : CTxMemPool.IdsIdentify prims addPayments := by
    unfold CTxMemPool.IdsIdentify
    decide +kernel
  have hNext : CTxMemPool.IdsIdentify prims (addPayments ++ [.removeConflicts rivalPayment]) := by
    unfold CTxMemPool.IdsIdentify
    decide +kernel
  obtain ⟨hIndex, -, -, hReturns⟩ :=
    CTxMemPool.mapNextTx_consistent addPayments trace_bothPayments hIds
  refine ⟨trace_bothPayments, hIndex _ _ _, ?_⟩
  rcases hReturns (.removeConflicts rivalPayment) trivial hNext with hOk | ⟨hDiverges, -⟩
  · exact hOk
  · have hOk : (CTxMemPool.PoolCall.run prims bothPayments (.removeConflicts rivalPayment)).isOk =
        true := by decide +kernel
    rw [hDiverges] at hOk
    cases hOk

/-- The conflict takes the first payment out, and with it the one that spends it. -/
example : ((CTxMemPool.removeConflicts prims bothPayments rivalPayment).map fun pool =>
    (pool.mapTx.keys, pool.mapNextTx.keys)) = .ok ([], []) := by decide +kernel

end Sample

end SocietyGold
