import SocietyGold.KeyPool
import SocietyGold.Support.Ownership
import Mathlib.Data.Finset.Max

/-!
# Reservations of pool keys

As long as new records are written under indices that nobody has reserved, no key has two
reservations and every free index has its record.  The pool does not see to that itself: after
the largest free index it goes on with the next one, which may be reserved.
-/

namespace SocietyGold

open Support

/-! ## Who has a key -/

/-- What takes an index out of the set of free ones. -/
inductive Reservation
  | holder (h : ℕ)
  | oldest (t : ℕ)
  deriving DecidableEq

/-- Where a key of the pool is: under an index, or among the keys that were kept. -/
inductive KeyOwner
  | index (nIndex : ℤ)
  | kept (n : ℕ)
  deriving DecidableEq

namespace KeyPool

def reservedIndex (s : KeyPool) : Reservation → ℤ
  | .holder h => (s.holders h).nIndex
  | .oldest t => s.oldest t

/-- The index is free or reserved. -/
def InUse (s : KeyPool) (i : ℤ) : Prop :=
  i ∈ s.setKeyPool ∨ (i ≠ -1 ∧ ∃ r, s.reservedIndex r = i)

def Owns (s : KeyPool) : KeyOwner → CPubKey → Prop
  | .index i, pubkey =>
      s.InUse i ∧ ∃ keypool, s.records i = some keypool ∧ keypool.vchPubKey = pubkey
  | .kept n, pubkey => s.kept[n]? = some pubkey

/-- No key is held or kept by two reservations, and free indices have records.  An object
without an index holds the default key or none. -/
structure Exclusive (s : KeyPool) : Prop where
  kept : s.kept.Nodup
  held : ∀ h h', (s.holders h).nIndex ≠ -1 → (s.holders h').nIndex ≠ -1 →
    (s.holders h).vchPubKey = (s.holders h').vchPubKey → h = h'
  held_kept : ∀ h, (s.holders h).nIndex ≠ -1 → (s.holders h).vchPubKey ∉ s.kept
  fallback : ∀ h, (s.holders h).nIndex = -1 → (s.holders h).vchPubKey.isValid = true →
    (s.holders h).vchPubKey = s.vchDefaultKey
  records : ∀ i ∈ s.setKeyPool, ∃ keypool, s.records i = some keypool

/-- Every reservation has an index of its own, and none of them is free. -/
structure Apart (idx : Reservation → ℤ) (free : Finset ℤ) : Prop where
  inj : ∀ r r', idx r = idx r' → idx r ≠ -1 → r = r'
  not_free : ∀ r, idx r ≠ -1 → idx r ∉ free

/-- The invariant of the pool. -/
structure Sound (P : ScriptPrimitives) (s : KeyPool) : Prop where
  unshared : Unshared s.Owns
  known : ∀ o pubkey, s.Owns o pubkey → pubkey.isValid = true ∧ pubkey.getID P ∈ s.keystore
  records : ∀ i, s.InUse i → ∃ keypool, s.records i = some keypool
  positive : ∀ i, s.InUse i → 1 ≤ i
  apart : Apart s.reservedIndex s.setKeyPool
  holderKey : ∀ h keypool, (s.holders h).nIndex ≠ -1 →
    s.records (s.holders h).nIndex = some keypool → keypool.vchPubKey = (s.holders h).vchPubKey
  fallback : ∀ h, (s.holders h).nIndex = -1 → (s.holders h).vchPubKey.isValid = true →
    (s.holders h).vchPubKey = s.vchDefaultKey

variable {P : ScriptPrimitives} {s s' : KeyPool}

theorem Sound.owns_holder (hSound : Sound P s) {h : ℕ} (hIndex : (s.holders h).nIndex ≠ -1) :
    s.Owns (.index (s.holders h).nIndex) (s.holders h).vchPubKey := by
  have hInUse : s.InUse (s.holders h).nIndex := Or.inr ⟨hIndex, .holder h, rfl⟩
  obtain ⟨keypool, hRecord⟩ := hSound.records _ hInUse
  exact ⟨hInUse, keypool, hRecord, hSound.holderKey h keypool hIndex hRecord⟩

theorem Sound.exclusive (hSound : Sound P s) : s.Exclusive where
  kept := by
    rw [List.nodup_iff_getElem?_ne_getElem?]
    intro n m hnm hm hSame
    have hFirst : s.Owns (.kept n) s.kept[m] := hSame.trans (List.getElem?_eq_getElem hm)
    have hSecond : s.Owns (.kept m) s.kept[m] := List.getElem?_eq_getElem hm
    have hEq : n = m := KeyOwner.kept.inj (hSound.unshared hFirst hSecond)
    omega
  held h h' hIndex hIndex' hKey := by
    have hOwns := hSound.owns_holder hIndex
    rw [hKey] at hOwns
    have hSame := KeyOwner.index.inj (hSound.unshared hOwns (hSound.owns_holder hIndex'))
    exact Reservation.holder.inj (hSound.apart.inj (.holder h) (.holder h') hSame hIndex)
  held_kept h hIndex hKept := by
    obtain ⟨n, hn⟩ := List.mem_iff_getElem?.mp hKept
    have hSame := hSound.unshared (hSound.owns_holder hIndex) (show s.Owns (.kept n) _ from hn)
    cases hSame
  fallback := hSound.fallback
  records i hi := hSound.records i (Or.inl hi)

/-! ## Changes of the reservations -/

section Apart

variable {idx : Reservation → ℤ} {free : Finset ℤ} {r : Reservation} {i : ℤ}

theorem Apart.insert (h : Apart idx free) (hFree : ∀ r, idx r ≠ i) : Apart idx (insert i free) where
  inj := h.inj
  not_free r hr hMem := by
    rcases Finset.mem_insert.mp hMem with hEq | hMem
    · exact hFree r hEq
    · exact h.not_free r hr hMem

theorem Apart.mono (h : Apart idx free) {free' : Finset ℤ} (hSub : free' ⊆ free) :
    Apart idx free' where
  inj := h.inj
  not_free r hr hMem := h.not_free r hr (hSub hMem)

/-- A free index is taken. -/
theorem Apart.take (h : Apart idx free) (hi : i ∈ free) :
    Apart (Function.update idx r i) (free.erase i) where
  inj r₁ r₂ hSame hIndex := by
    rw [Function.update_apply, Function.update_apply] at hSame
    rw [Function.update_apply] at hIndex
    split_ifs at hSame hIndex with h₁ h₂ h₂
    · rw [h₁, h₂]
    · exact absurd (hSame ▸ hi) (h.not_free r₂ (hSame ▸ hIndex))
    · exact absurd (hSame ▸ hi) (h.not_free r₁ hIndex)
    · exact h.inj r₁ r₂ hSame hIndex
  not_free r' hr' hMem := by
    rw [Function.update_apply] at hr' hMem
    split_ifs at hr' hMem with hTaker
    · exact Finset.notMem_erase i free hMem
    · exact h.not_free r' hr' (Finset.mem_of_mem_erase hMem)

/-- A reservation ends. -/
theorem Apart.drop (h : Apart idx free) : Apart (Function.update idx r (-1)) free where
  inj r₁ r₂ hSame hIndex := by
    rw [Function.update_apply, Function.update_apply] at hSame
    rw [Function.update_apply] at hIndex
    split_ifs at hSame hIndex with h₁ h₂ h₂
    · exact absurd rfl hIndex
    · exact absurd rfl hIndex
    · exact absurd hSame hIndex
    · exact h.inj r₁ r₂ hSame hIndex
  not_free r' hr' hMem := by
    rw [Function.update_apply] at hr' hMem
    split_ifs at hr' hMem
    · exact absurd rfl hr'
    · exact h.not_free r' hr' hMem

/-- Its index is then nobody's. -/
theorem Apart.ne_of_drop (h : Apart idx free) (hr : idx r ≠ -1) (r' : Reservation) :
    Function.update idx r (-1) r' ≠ idx r := by
  rw [Function.update_apply]
  split_ifs with hSelf
  · exact Ne.symm hr
  · intro hSame
    exact hSelf (h.inj r' r hSame (hSame ▸ hr))

end Apart

/-! ## Changes of the pool -/

theorem reservedIndex_setHolder (h : ℕ) (holder : CReserveKey) :
    (s.setHolder h holder).reservedIndex =
      Function.update s.reservedIndex (.holder h) holder.nIndex := by
  funext r
  rw [Function.update_apply]
  cases r with
  | holder h' =>
      unfold reservedIndex setHolder
      dsimp only
      rw [Function.update_apply]
      by_cases hSame : h' = h
      · rw [if_pos hSame, if_pos (congrArg Reservation.holder hSame)]
      · rw [if_neg hSame, if_neg (fun h => hSame (Reservation.holder.inj h))]
  | oldest t => rfl

theorem reservedIndex_setOldest (t : ℕ) (i : ℤ) :
    (s.setOldest t i).reservedIndex = Function.update s.reservedIndex (.oldest t) i := by
  funext r
  rw [Function.update_apply]
  cases r with
  | holder h => rfl
  | oldest t' =>
      unfold reservedIndex setOldest
      dsimp only
      rw [Function.update_apply]
      by_cases hSame : t' = t
      · rw [if_pos hSame, if_pos (congrArg Reservation.oldest hSame)]
      · rw [if_neg hSame, if_neg (fun h => hSame (Reservation.oldest.inj h))]

section Uses

variable {r : Reservation} {i j : ℤ}

/-- A free index that is taken stays in use. -/
theorem inUse_of_take
    (hj : s'.InUse j) (hi : i ∈ s.setKeyPool) (hSet : s'.setKeyPool = s.setKeyPool.erase i)
    (hIdx : s'.reservedIndex = Function.update s.reservedIndex r i) : s.InUse j := by
  rcases hj with hFree | ⟨hIndex, r', hr'⟩
  · rw [hSet] at hFree
    exact Or.inl (Finset.mem_of_mem_erase hFree)
  · rw [hIdx, Function.update_apply] at hr'
    split_ifs at hr' with hTaker
    · exact Or.inl (hr' ▸ hi)
    · exact Or.inr ⟨hIndex, r', hr'⟩

/-- So does one that is given back. -/
theorem inUse_of_give
    (hj : s'.InUse j) (hIdx : s'.reservedIndex = Function.update s.reservedIndex r (-1))
    (hr : s.reservedIndex r = i) (hi : i ≠ -1)
    (hSet : s'.setKeyPool = insert i s.setKeyPool) : s.InUse j := by
  rcases hj with hFree | ⟨hIndex, r', hr'⟩
  · rw [hSet] at hFree
    rcases Finset.mem_insert.mp hFree with rfl | hFree
    · exact Or.inr ⟨hi, r, hr⟩
    · exact Or.inl hFree
  · rw [hIdx, Function.update_apply] at hr'
    split_ifs at hr' with hGiver
    · exact absurd hr'.symm hIndex
    · exact Or.inr ⟨hIndex, r', hr'⟩

/-- A reservation without an index can end like that, too. -/
theorem inUse_of_end
    (hj : s'.InUse j) (hIdx : s'.reservedIndex = Function.update s.reservedIndex r (-1))
    (hSet : s'.setKeyPool = s.setKeyPool) : s.InUse j := by
  rcases hj with hFree | ⟨hIndex, r', hr'⟩
  · exact Or.inl (hSet ▸ hFree)
  · rw [hIdx, Function.update_apply] at hr'
    split_ifs at hr' with hSelf
    · exact absurd hr'.symm hIndex
    · exact Or.inr ⟨hIndex, r', hr'⟩

/-- The index of a key that is kept is not in use any more. -/
theorem inUse_of_drop
    (hSound : Sound P s) (hj : s'.InUse j)
    (hIdx : s'.reservedIndex = Function.update s.reservedIndex r (-1))
    (hr : s.reservedIndex r = i) (hi : i ≠ -1) (hSet : s'.setKeyPool = s.setKeyPool) :
    s.InUse j ∧ j ≠ i := by
  refine ⟨inUse_of_end hj hIdx hSet, ?_⟩
  rcases hj with hFree | ⟨_, r', hr'⟩
  · rintro rfl
    exact hSound.apart.not_free r (hr.symm ▸ hi) (hr.symm ▸ hSet ▸ hFree)
  · rw [← hr', hIdx, ← hr]
    exact hSound.apart.ne_of_drop (hr.symm ▸ hi) r'

theorem inUse_of_erase
    (hSound : Sound P s) (hj : s'.InUse j) (hi : i ∈ s.setKeyPool)
    (hSet : s'.setKeyPool = s.setKeyPool.erase i)
    (hIdx : s'.reservedIndex = s.reservedIndex) : s.InUse j ∧ j ≠ i := by
  rcases hj with hFree | ⟨hIndex, r', hr'⟩
  · rw [hSet] at hFree
    exact ⟨Or.inl (Finset.mem_of_mem_erase hFree), Finset.ne_of_mem_erase hFree⟩
  · rw [hIdx] at hr'
    refine ⟨Or.inr ⟨hIndex, r', hr'⟩, ?_⟩
    rintro rfl
    exact hSound.apart.not_free r' (hr' ▸ hIndex) (hr' ▸ hi)

end Uses

/-- No index comes into use, and the records of those that stay are the same. -/
theorem Sound.of_less
    (hSound : Sound P s) (hUse : ∀ i, s'.InUse i → s.InUse i ∧ s'.records i = s.records i)
    (hKept : s'.kept = s.kept) (hStore : s.keystore ⊆ s'.keystore)
    (hApart : Apart s'.reservedIndex s'.setKeyPool)
    (hHolder : ∀ h keypool, (s'.holders h).nIndex ≠ -1 →
      s'.records (s'.holders h).nIndex = some keypool →
        keypool.vchPubKey = (s'.holders h).vchPubKey)
    (hFallback : ∀ h, (s'.holders h).nIndex = -1 → (s'.holders h).vchPubKey.isValid = true →
      (s'.holders h).vchPubKey = s'.vchDefaultKey) : Sound P s' := by
  have hOwns : ∀ o pubkey, s'.Owns o pubkey → s.Owns o pubkey := by
    intro o pubkey h
    cases o with
    | index i =>
        obtain ⟨hInUse, hRecord⟩ := h
        obtain ⟨hOld, hSame⟩ := hUse i hInUse
        exact ⟨hOld, hSame ▸ hRecord⟩
    | kept n =>
        rw [Owns, hKept] at h
        exact h
  refine ⟨hSound.unshared.mono hOwns, ?_, ?_, ?_, hApart, hHolder, hFallback⟩
  · intro o pubkey h
    obtain ⟨hValid, hKnown⟩ := hSound.known o pubkey (hOwns o pubkey h)
    exact ⟨hValid, hStore hKnown⟩
  · intro i hi
    rw [(hUse i hi).2]
    exact hSound.records i (hUse i hi).1
  · intro i hi
    exact hSound.positive i (hUse i hi).1

theorem owns_concat
    {n : ℕ} {pubkey pubkey' : CPubKey} (h : (s.kept ++ [pubkey])[n]? = some pubkey') :
    s.Owns (.kept n) pubkey' ∨ (KeyOwner.kept n = .kept s.kept.length ∧ pubkey' = pubkey) := by
  rcases Nat.lt_or_ge n s.kept.length with hOld | hNew
  · rw [List.getElem?_append_left hOld] at h
    exact Or.inl h
  · obtain ⟨hn, _⟩ := List.getElem?_eq_some_iff.mp h
    rw [List.length_append, List.length_singleton] at hn
    obtain rfl : n = s.kept.length := by omega
    rw [List.getElem?_append_right le_rfl, Nat.sub_self] at h
    exact Or.inr ⟨rfl, (Option.some.inj h).symm⟩

/-- The key of an index is kept, and the index goes out of use. -/
theorem Sound.of_keep
    {i : ℤ} {pubkey : CPubKey} (hSound : Sound P s) (hOwner : s.Owns (.index i) pubkey)
    (hUse : ∀ j, s'.InUse j → s.InUse j ∧ j ≠ i)
    (hRecords : s'.records = Function.update s.records i none)
    (hKept : s'.kept = s.kept ++ [pubkey]) (hStore : s'.keystore = s.keystore)
    (hApart : Apart s'.reservedIndex s'.setKeyPool)
    (hHolder : ∀ h keypool, (s'.holders h).nIndex ≠ -1 →
      s'.records (s'.holders h).nIndex = some keypool →
        keypool.vchPubKey = (s'.holders h).vchPubKey)
    (hFallback : ∀ h, (s'.holders h).nIndex = -1 → (s'.holders h).vchPubKey.isValid = true →
      (s'.holders h).vchPubKey = s'.vchDefaultKey) : Sound P s' := by
  have hRecord : ∀ j, s'.InUse j → s'.records j = s.records j := by
    intro j hj
    rw [hRecords, Function.update_of_ne (hUse j hj).2]
  have hOwns : ∀ o pubkey', s'.Owns o pubkey' → (s.Owns o pubkey' ∧ o ≠ .index i) ∨
      (o = .kept s.kept.length ∧ s.Owns (.index i) pubkey') := by
    intro o pubkey' h
    cases o with
    | index j =>
        obtain ⟨hInUse, hFound⟩ := h
        obtain ⟨hOld, hOther⟩ := hUse j hInUse
        exact Or.inl ⟨⟨hOld, hRecord j hInUse ▸ hFound⟩, fun h => hOther (KeyOwner.index.inj h)⟩
    | kept n =>
        rw [Owns, hKept] at h
        rcases owns_concat h with hOld | ⟨hLast, rfl⟩
        · exact Or.inl ⟨hOld, fun h => by cases h⟩
        · exact Or.inr ⟨hLast, hOwner⟩
  refine ⟨hSound.unshared.transfer hOwns, ?_, ?_, ?_, hApart, hHolder, hFallback⟩
  · intro o pubkey' h
    rw [hStore]
    rcases hOwns o pubkey' h with ⟨hOld, _⟩ | ⟨_, hGiven⟩
    · exact hSound.known o pubkey' hOld
    · exact hSound.known _ pubkey' hGiven
  · intro j hj
    rw [hRecord j hj]
    exact hSound.records j (hUse j hj).1
  · intro j hj
    exact hSound.positive j (hUse j hj).1

theorem Sound.addKey (hSound : Sound P s) (pubkey : CPubKey) : Sound P (s.addKey P pubkey) :=
  hSound.of_less (fun _ hi => ⟨hi, rfl⟩) rfl (Finset.subset_insert _ _) hSound.apart
    hSound.holderKey hSound.fallback

/-- A record under an index that nobody has reserved, for a key that nobody has. -/
theorem Sound.put
    {i : ℤ} {keypool : CKeyPool} (hSound : Sound P s) (hPositive : 1 ≤ i)
    (hFree : i ∉ s.setKeyPool) (hUnreserved : ∀ r, s.reservedIndex r ≠ i)
    (hValid : keypool.vchPubKey.isValid = true) (hKnown : keypool.vchPubKey.getID P ∈ s.keystore)
    (hUnowned : ∀ o, ¬s.Owns o keypool.vchPubKey) : Sound P (s.put i keypool) := by
  have hUnused : ¬s.InUse i := by
    rintro (hMem | ⟨_, r, hr⟩)
    · exact hFree hMem
    · exact hUnreserved r hr
  have hUse : ∀ j, (s.put i keypool).InUse j → j = i ∨ s.InUse j := by
    rintro j (hMem | hReserved)
    · exact (Finset.mem_insert.mp hMem).imp_right Or.inl
    · exact Or.inr (Or.inr hReserved)
  have hRecord : ∀ j, s.InUse j → (s.put i keypool).records j = s.records j := by
    intro j hj
    exact Function.update_of_ne (fun h : j = i => hUnused (h ▸ hj)) _ _
  have hNew : (s.put i keypool).records i = some keypool := Function.update_self _ _ _
  have hOwns : ∀ o pubkey, (s.put i keypool).Owns o pubkey → s.Owns o pubkey ∨
      (o = .index i ∧ pubkey = keypool.vchPubKey) := by
    intro o pubkey h
    cases o with
    | kept n => exact Or.inl h
    | index j =>
        obtain ⟨hInUse, found, hFound, rfl⟩ := h
        rcases hUse j hInUse with rfl | hOld
        · rw [hNew] at hFound
          obtain rfl := Option.some.inj hFound
          exact Or.inr ⟨rfl, rfl⟩
        · rw [hRecord j hOld] at hFound
          exact Or.inl ⟨hOld, found, hFound, rfl⟩
  refine ⟨?_, ?_, ?_, ?_, hSound.apart.insert hUnreserved, ?_, hSound.fallback⟩
  · refine @Unshared.acquire _ _ _ _ (.index i) hSound.unshared ?_
    intro o pubkey h
    refine (hOwns o pubkey h).imp_right ?_
    rintro ⟨rfl, rfl⟩
    exact ⟨rfl, hUnowned⟩
  · intro o pubkey h
    rcases hOwns o pubkey h with hOld | ⟨_, rfl⟩
    · exact hSound.known o pubkey hOld
    · exact ⟨hValid, hKnown⟩
  · intro j hj
    rcases hUse j hj with rfl | hOld
    · exact ⟨keypool, hNew⟩
    · rw [hRecord j hOld]
      exact hSound.records j hOld
  · intro j hj
    rcases hUse j hj with rfl | hOld
    · exact hPositive
    · exact hSound.positive j hOld
  · intro h found hIndex hFound
    have hInUse : s.InUse (s.holders h).nIndex := Or.inr ⟨hIndex, .holder h, rfl⟩
    exact hSound.holderKey h found hIndex ((hRecord _ hInUse).symm.trans hFound)

/-- A key that the wallet does not know has no owner. -/
theorem Sound.not_owns
    (hSound : Sound P s) {pubkey : CPubKey} (hNew : pubkey.getID P ∉ s.keystore) (o : KeyOwner) :
    ¬s.Owns o pubkey :=
  fun h => hNew (hSound.known o pubkey h).2

/-! ## Filling -/

theorem lt_nextIndex {i : ℤ} (hi : i ∈ s.setKeyPool) : i < s.nextIndex := by
  unfold nextIndex
  rw [dif_pos ⟨i, hi⟩]
  have hLe := Finset.le_max' s.setKeyPool i hi
  omega

theorem one_le_nextIndex (hSound : Sound P s) : 1 ≤ s.nextIndex := by
  unfold nextIndex
  split_ifs with hSome
  · have hPositive := hSound.positive _ (Or.inl (Finset.max'_mem _ hSome))
    omega
  · exact le_rfl

theorem nextIndex_put (s : KeyPool) (keypool : CKeyPool) :
    (s.put s.nextIndex keypool).nextIndex = s.nextIndex + 1 := by
  have hSome : (s.put s.nextIndex keypool).setKeyPool.Nonempty :=
    ⟨s.nextIndex, Finset.mem_insert_self _ _⟩
  have hMax : (s.put s.nextIndex keypool).setKeyPool.max' hSome = s.nextIndex := by
    apply le_antisymm
    · apply Finset.max'_le
      intro i hi
      rcases Finset.mem_insert.mp hi with rfl | hOld
      · exact le_rfl
      · exact (lt_nextIndex hOld).le
    · exact Finset.le_max' _ _ (Finset.mem_insert_self _ _)
  rw [nextIndex, dif_pos hSome, hMax]

/-- Of the keys with so many numbers from `j` on each is valid, unknown and different from those
before it. -/
def FreshKeys (P : ScriptPrimitives) (newKeys : ℕ → CPubKey) (keystore : Finset ℕ)
    (j n : ℕ) : Prop :=
  ∀ m, j ≤ m → m < j + n → (newKeys m).isValid = true ∧ (newKeys m).getID P ∉ keystore ∧
    ∀ i, j ≤ i → i < m → (newKeys i).getID P ≠ (newKeys m).getID P

theorem FreshKeys.tail
    {newKeys : ℕ → CPubKey} {keystore : Finset ℕ} {j n : ℕ}
    (h : FreshKeys P newKeys keystore j (n + 1)) :
    FreshKeys P newKeys (insert ((newKeys j).getID P) keystore) (j + 1) n := by
  intro m hj hm
  obtain ⟨hValid, hNew, hDistinct⟩ := h m (by omega) (by omega)
  refine ⟨hValid, ?_, fun i hi hLess => hDistinct i (by omega) hLess⟩
  rw [Finset.mem_insert, not_or]
  exact ⟨Ne.symm (hDistinct j le_rfl (by omega)), hNew⟩

/-- A new key under an index that nobody has reserved. -/
theorem Sound.putNew
    {i now : ℤ} {pubkey : CPubKey} (hSound : Sound P s) (hPositive : 1 ≤ i)
    (hFree : i ∉ s.setKeyPool) (hUnreserved : ∀ r, s.reservedIndex r ≠ i)
    (hValid : pubkey.isValid = true) (hNew : pubkey.getID P ∉ s.keystore) :
    Sound P ((s.addKey P pubkey).put i ⟨now, pubkey⟩) := by
  apply (hSound.addKey pubkey).put hPositive hFree hUnreserved hValid
  · exact Finset.mem_insert_self _ _
  · exact hSound.not_owns hNew

theorem Sound.topUpLoop
    {ctx : KeyPoolContext} {remaining j : ℕ} (hSound : Sound P s)
    (hClear : ∀ r, ¬(s.nextIndex ≤ s.reservedIndex r ∧
      s.reservedIndex r < s.nextIndex + remaining))
    (hFresh : FreshKeys P ctx.newKeys s.keystore j remaining) :
    Sound P (s.topUpLoop P ctx remaining j) := by
  induction remaining generalizing s j with
  | zero => exact hSound
  | succ remaining ih =>
      obtain ⟨hValid, hNew, _⟩ := hFresh j le_rfl (by omega)
      have hUnreserved : ∀ r, s.reservedIndex r ≠ s.nextIndex := by
        intro r hr
        exact hClear r ⟨hr.ge, by omega⟩
      apply ih
      · exact hSound.putNew (one_le_nextIndex hSound) (fun h => (lt_nextIndex h).ne rfl)
          hUnreserved hValid hNew
      · intro r
        have hNext := nextIndex_put (s.addKey P (ctx.newKeys j)) ⟨ctx.now, ctx.newKeys j⟩
        have hSame : (s.addKey P (ctx.newKeys j)).nextIndex = s.nextIndex := rfl
        rw [hSame] at hNext
        rw [hNext]
        rintro ⟨hLow, hHigh⟩
        have hIndex : s.reservedIndex r = ((s.addKey P (ctx.newKeys j)).put s.nextIndex
          ⟨ctx.now, ctx.newKeys j⟩).reservedIndex r := by cases r <;> rfl
        exact hClear r (by omega)
      · exact hFresh.tail

theorem Sound.fillLoop
    {ctx : KeyPoolContext} {remaining i : ℕ} (hSound : Sound P s)
    (hBelow : ∀ j ∈ s.setKeyPool, j ≤ i)
    (hClear : ∀ r, ¬((i : ℤ) < s.reservedIndex r ∧ s.reservedIndex r ≤ i + remaining))
    (hFresh : FreshKeys P ctx.newKeys s.keystore i remaining) :
    Sound P (s.fillLoop P ctx remaining i) := by
  induction remaining generalizing s i with
  | zero => exact hSound
  | succ remaining ih =>
      obtain ⟨hValid, hNew, _⟩ := hFresh i le_rfl (by omega)
      have hFree : ((i + 1 : ℕ) : ℤ) ∉ s.setKeyPool := by
        intro hMem
        have hLe := hBelow _ hMem
        omega
      have hUnreserved : ∀ r, s.reservedIndex r ≠ (i + 1 : ℕ) := by
        intro r hr
        exact hClear r ⟨by omega, by omega⟩
      apply ih
      · exact hSound.putNew (by omega) hFree hUnreserved hValid hNew
      · intro j hj
        rcases Finset.mem_insert.mp hj with rfl | hOld
        · exact le_rfl
        · have hLe := hBelow j hOld
          omega
      · rintro r ⟨hLow, hHigh⟩
        have hIndex : s.reservedIndex r = ((s.addKey P (ctx.newKeys i)).put (i + 1 : ℕ)
          ⟨ctx.now, ctx.newKeys i⟩).reservedIndex r := by cases r <;> rfl
        exact hClear r (by omega)
      · exact hFresh.tail

/-- No index that a call of `TopUpKeyPool` writes is reserved, and its keys are new. -/
def TopsUpClear (P : ScriptPrimitives) (ctx : KeyPoolContext) (nSize : ℕ) (s : KeyPool) : Prop :=
  s.fLocked = true ∨
    (∀ r, ¬(s.nextIndex ≤ s.reservedIndex r ∧
      s.reservedIndex r < s.nextIndex + s.missing ctx nSize)) ∧
    FreshKeys P ctx.newKeys s.keystore 0 (s.missing ctx nSize)

theorem Sound.topUpKeyPool
    {ctx : KeyPoolContext} {nSize : ℕ} (hSound : Sound P s) (hClear : TopsUpClear P ctx nSize s) :
    Sound P (s.topUpKeyPool P ctx nSize).2 := by
  unfold KeyPool.topUpKeyPool
  split_ifs with hLocked
  · exact hSound
  · obtain ⟨hUnreserved, hFresh⟩ := hClear.resolve_left hLocked
    exact hSound.topUpLoop hUnreserved hFresh

theorem Sound.eraseFree (hSound : Sound P s) : Sound P s.eraseFree := by
  have hUse : ∀ i, s.eraseFree.InUse i → s.InUse i ∧ i ∉ s.setKeyPool := by
    rintro i (hMem | ⟨hIndex, r, rfl⟩)
    · exact absurd hMem (Finset.notMem_empty i)
    · exact ⟨Or.inr ⟨hIndex, r, rfl⟩, hSound.apart.not_free r hIndex⟩
  have hRecord : ∀ i, i ∉ s.setKeyPool → s.eraseFree.records i = s.records i := by
    intro i hi
    exact if_neg hi
  refine hSound.of_less (fun i hi => ⟨(hUse i hi).1, hRecord i (hUse i hi).2⟩) rfl
    (Finset.Subset.refl _) (hSound.apart.mono (Finset.empty_subset _)) ?_ hSound.fallback
  intro h keypool hIndex hFound
  have hSame := hRecord _ (hSound.apart.not_free (.holder h) hIndex)
  exact hSound.holderKey h keypool hIndex (hSame.symm.trans hFound)

/-! ## Reserving and giving back -/

/-- The pool has nothing, or gives the least index with its record. -/
theorem Sound.takeLeast_cases (hSound : Sound P s) :
    s.takeLeast P = .ok (none, s) ∨
      ∃ i keypool, i ∈ s.setKeyPool ∧ s.records i = some keypool ∧
        s.takeLeast P = .ok (some (i, keypool), { s with setKeyPool := s.setKeyPool.erase i }) := by
  unfold takeLeast
  by_cases hSome : s.setKeyPool.Nonempty
  · have hMem := Finset.min'_mem _ hSome
    obtain ⟨keypool, hRecord⟩ := hSound.records _ (Or.inl hMem)
    obtain ⟨hValid, hKnown⟩ := hSound.known (.index _) _
      ⟨Or.inl hMem, keypool, hRecord, rfl⟩
    refine Or.inr ⟨_, keypool, hMem, hRecord, ?_⟩
    rw [dif_pos hSome]
    dsimp only
    rw [hRecord]
    dsimp only
    rw [if_neg (not_not_intro hKnown), hValid, Bool.not_true, if_neg Bool.false_ne_true]
  · exact Or.inl (dif_neg hSome)

theorem setKeyPool_of_takeLeast (h : s.takeLeast P = .ok (none, s')) : s.setKeyPool = ∅ := by
  by_contra hSome
  rw [takeLeast, dif_pos (Finset.nonempty_iff_ne_empty.mpr hSome)] at h
  dsimp only at h
  split at h
  · cases h
  · split_ifs at h
    cases h

/-- What holds of the new object and of the others holds of all. -/
theorem forall_setHolder
    {Q : CReserveKey → Prop} {h : ℕ} {holder : CReserveKey} (hNew : Q holder)
    (hOld : ∀ h', h' ≠ h → Q (s.holders h')) (h' : ℕ) : Q ((s.setHolder h holder).holders h') := by
  unfold setHolder
  dsimp only
  rw [Function.update_apply]
  split_ifs with hSelf
  · exact hNew
  · exact hOld h' hSelf

/-- An object gets an index out of the pool. -/
theorem Sound.takeForHolder
    {i : ℤ} {keypool : CKeyPool} (hSound : Sound P s) (hi : i ∈ s.setKeyPool)
    (hRecord : s.records i = some keypool) (h : ℕ) :
    Sound P (setHolder h ⟨i, keypool.vchPubKey⟩
      { s with setKeyPool := s.setKeyPool.erase i }) := by
  have hIdx := @reservedIndex_setHolder { s with setKeyPool := s.setKeyPool.erase i } h
    ⟨i, keypool.vchPubKey⟩
  refine hSound.of_less (fun j hj => ⟨inUse_of_take hj hi rfl hIdx, rfl⟩) rfl
    (Finset.Subset.refl _) ?_ ?_ ?_
  · rw [hIdx]
    exact hSound.apart.take hi
  · intro h' found
    refine @forall_setHolder _ (fun holder => holder.nIndex ≠ -1 →
      s.records holder.nIndex = some found → found.vchPubKey = holder.vchPubKey) h _ ?_ ?_ h'
    · intro _ hFound
      obtain rfl := Option.some.inj (hRecord.symm.trans hFound)
      rfl
    · exact fun h' _ => hSound.holderKey h' found
  · refine @forall_setHolder _ (fun holder => holder.nIndex = -1 →
      holder.vchPubKey.isValid = true → holder.vchPubKey = s.vchDefaultKey) h _ ?_ ?_
    · intro hIndex
      have hPositive := hSound.positive i (Or.inl hi)
      dsimp only at hIndex
      omega
    · exact fun h' _ => hSound.fallback h'

/-- So does a call of `GetOldestKeyPoolTime`. -/
theorem Sound.takeForOldest
    {i : ℤ} (hSound : Sound P s) (hi : i ∈ s.setKeyPool) (t : ℕ) :
    Sound P (setOldest t i { s with setKeyPool := s.setKeyPool.erase i }) := by
  have hIdx := @reservedIndex_setOldest { s with setKeyPool := s.setKeyPool.erase i } t i
  refine hSound.of_less (fun j hj => ⟨inUse_of_take hj hi rfl hIdx, rfl⟩) rfl
    (Finset.Subset.refl _) ?_ hSound.holderKey hSound.fallback
  rw [hIdx]
  exact hSound.apart.take hi

/-- An object that has no index any more holds the default key or none. -/
theorem Sound.setUnindexed
    (hSound : Sound P s) (h : ℕ) {pubkey : CPubKey}
    (hDefault : pubkey.isValid = true → pubkey = s.vchDefaultKey) :
    Sound P (s.setHolder h ⟨-1, pubkey⟩) := by
  have hIdx := @reservedIndex_setHolder s h ⟨-1, pubkey⟩
  refine hSound.of_less (fun j hj => ⟨inUse_of_end hj hIdx rfl, rfl⟩) rfl (Finset.Subset.refl _)
    ?_ ?_ ?_
  · rw [hIdx]
    exact hSound.apart.drop
  · intro h' found
    refine @forall_setHolder _ (fun holder => holder.nIndex ≠ -1 →
      s.records holder.nIndex = some found → found.vchPubKey = holder.vchPubKey) h _ ?_ ?_ h'
    · exact fun hIndex => absurd rfl hIndex
    · exact fun h' _ => hSound.holderKey h' found
  · refine @forall_setHolder _ (fun holder => holder.nIndex = -1 →
      holder.vchPubKey.isValid = true → holder.vchPubKey = s.vchDefaultKey) h _ ?_ ?_
    · exact fun _ hValid => hDefault hValid
    · exact fun h' _ => hSound.fallback h'

theorem Sound.setNew (hSound : Sound P s) (h : ℕ) : Sound P (s.setHolder h .new) :=
  hSound.setUnindexed h fun hValid => absurd hValid (by decide)

theorem Sound.keepKey (hSound : Sound P s) (h : ℕ) : Sound P (s.keepKey h) := by
  unfold KeyPool.keepKey
  dsimp only
  split_ifs with hIndex
  · have hIdx : ((s.keepIndex (s.holders h).nIndex (s.holders h).vchPubKey).setHolder h
        .new).reservedIndex = Function.update s.reservedIndex (.holder h) (-1) :=
      reservedIndex_setHolder h .new
    refine hSound.of_keep (hSound.owns_holder hIndex)
      (fun j hj => inUse_of_drop hSound hj hIdx rfl hIndex rfl) rfl rfl rfl ?_ ?_ ?_
    · rw [hIdx]
      exact hSound.apart.drop
    · intro h' found
      refine @forall_setHolder (s.keepIndex _ _) (fun holder => holder.nIndex ≠ -1 →
        Function.update s.records (s.holders h).nIndex none holder.nIndex = some found →
          found.vchPubKey = holder.vchPubKey) h _ ?_ ?_ h'
      · exact fun hNew => absurd rfl hNew
      · intro h' hOther hIndex' hFound
        have hApart : (s.holders h').nIndex ≠ (s.holders h).nIndex := by
          intro hSame
          have hEq := hSound.apart.inj (.holder h') (.holder h) hSame hIndex'
          exact hOther (Reservation.holder.inj hEq)
        rw [show (s.keepIndex _ _).holders h' = s.holders h' from rfl,
          Function.update_of_ne hApart] at hFound
        exact hSound.holderKey h' found hIndex' hFound
    · refine @forall_setHolder (s.keepIndex _ _) (fun holder => holder.nIndex = -1 →
        holder.vchPubKey.isValid = true → holder.vchPubKey = s.vchDefaultKey) h _ ?_ ?_
      · exact fun _ hValid => absurd hValid (by decide)
      · exact fun h' _ => hSound.fallback h'
  · exact hSound.setNew h

theorem Sound.returnKey (hSound : Sound P s) (h : ℕ) : Sound P (s.returnKey h) := by
  unfold KeyPool.returnKey
  dsimp only
  split_ifs with hIndex
  · have hIdx : ((s.returnIndex (s.holders h).nIndex).setHolder h .new).reservedIndex =
        Function.update s.reservedIndex (.holder h) (-1) := reservedIndex_setHolder h .new
    refine hSound.of_less (fun j hj => ⟨inUse_of_give hj hIdx rfl hIndex rfl, rfl⟩) rfl
      (Finset.Subset.refl _) ?_ ?_ ?_
    · rw [hIdx]
      exact hSound.apart.drop.insert (hSound.apart.ne_of_drop hIndex)
    · intro h' found
      refine @forall_setHolder (s.returnIndex _) (fun holder => holder.nIndex ≠ -1 →
        s.records holder.nIndex = some found → found.vchPubKey = holder.vchPubKey) h _ ?_ ?_ h'
      · exact fun hNew => absurd rfl hNew
      · exact fun h' _ => hSound.holderKey h' found
    · refine @forall_setHolder (s.returnIndex _) (fun holder => holder.nIndex = -1 →
        holder.vchPubKey.isValid = true → holder.vchPubKey = s.vchDefaultKey) h _ ?_ ?_
      · exact fun _ hValid => absurd hValid (by decide)
      · exact fun h' _ => hSound.fallback h'
  · exact hSound.setNew h

theorem Sound.oldestReturn (hSound : Sound P s) (t : ℕ) : Sound P (s.oldestReturn t) := by
  unfold KeyPool.oldestReturn
  split_ifs with hIndex
  · have hIdx : ((s.returnIndex (s.oldest t)).setOldest t (-1)).reservedIndex =
        Function.update s.reservedIndex (.oldest t) (-1) := reservedIndex_setOldest t (-1)
    refine hSound.of_less (fun j hj => ⟨inUse_of_give hj hIdx rfl hIndex rfl, rfl⟩) rfl
      (Finset.Subset.refl _) ?_ hSound.holderKey hSound.fallback
    rw [hIdx]
    exact hSound.apart.drop.insert (hSound.apart.ne_of_drop hIndex)
  · have hIdx := @reservedIndex_setOldest s t (-1)
    refine hSound.of_less (fun j hj => ⟨inUse_of_end hj hIdx rfl, rfl⟩) rfl
      (Finset.Subset.refl _) ?_ hSound.holderKey hSound.fallback
    rw [hIdx]
    exact hSound.apart.drop

/-- A key is taken out of the pool and kept at once. -/
theorem Sound.takeAndKeep
    {i : ℤ} {keypool : CKeyPool} (hSound : Sound P s) (hi : i ∈ s.setKeyPool)
    (hRecord : s.records i = some keypool) :
    Sound P (keepIndex i keypool.vchPubKey { s with setKeyPool := s.setKeyPool.erase i }) := by
  refine hSound.of_keep ⟨Or.inl hi, keypool, hRecord, rfl⟩
    (fun j hj => inUse_of_erase hSound hj hi rfl rfl) rfl rfl rfl
    (hSound.apart.mono (Finset.erase_subset _ _)) ?_ hSound.fallback
  intro h found hIndex hFound
  have hApart : (s.holders h).nIndex ≠ i := by
    intro hSame
    apply hSound.apart.not_free (.holder h) hIndex
    exact (show (s.holders h).nIndex ∈ s.setKeyPool from hSame.symm ▸ hi)
  have hSame : (keepIndex i keypool.vchPubKey
      { s with setKeyPool := s.setKeyPool.erase i }).records (s.holders h).nIndex =
        s.records (s.holders h).nIndex := Function.update_of_ne hApart _ _
  exact hSound.holderKey h found hIndex (hSame.symm.trans hFound)

/-- A new key is given away without a place in the pool. -/
theorem Sound.keepNew
    {pubkey : CPubKey} (hSound : Sound P s) (hValid : pubkey.isValid = true)
    (hNew : pubkey.getID P ∉ s.keystore) :
    Sound P { s.addKey P pubkey with kept := s.kept ++ [pubkey] } := by
  have hOwns : ∀ o pubkey', KeyPool.Owns { s.addKey P pubkey with kept := s.kept ++ [pubkey] }
      o pubkey' → s.Owns o pubkey' ∨ (o = .kept s.kept.length ∧ pubkey' = pubkey) := by
    intro o pubkey' h
    cases o with
    | index i => exact Or.inl h
    | kept n => exact owns_concat h
  refine ⟨?_, ?_, hSound.records, hSound.positive, hSound.apart, hSound.holderKey,
    hSound.fallback⟩
  · refine @Unshared.acquire _ _ _ _ (.kept s.kept.length) hSound.unshared ?_
    intro o pubkey' h
    refine (hOwns o pubkey' h).imp_right ?_
    rintro ⟨rfl, rfl⟩
    exact ⟨rfl, hSound.not_owns hNew⟩
  · intro o pubkey' h
    rcases hOwns o pubkey' h with hOld | ⟨_, rfl⟩
    · obtain ⟨hOldValid, hKnown⟩ := hSound.known o pubkey' hOld
      exact ⟨hOldValid, Finset.mem_insert_of_mem hKnown⟩
    · exact ⟨hValid, Finset.mem_insert_self _ _⟩

end KeyPool

end SocietyGold
