import SocietyGold.KeyPoolReservations

/-!
# Runs of the key pool

A call keeps the pool in order when the indices that it writes are not reserved and the keys
that it makes are new.  No call throws then, and what a run reserves and keeps stays exclusive.
-/

namespace SocietyGold

open Support

namespace KeyPool

variable {P : ScriptPrimitives} {ctx : KeyPoolContext} {s : KeyPool}

theorem Sound.initial (fLocked : Bool) (keystore : Finset ℕ) (vchDefaultKey : CPubKey) :
    Sound P (KeyPool.initial fLocked keystore vchDefaultKey) := by
  have hReserved : ∀ r, (KeyPool.initial fLocked keystore vchDefaultKey).reservedIndex r = -1 := by
    intro r
    cases r <;> rfl
  have hUse : ∀ i, ¬(KeyPool.initial fLocked keystore vchDefaultKey).InUse i := by
    rintro i (hMem | ⟨hIndex, r, hr⟩)
    · exact Finset.notMem_empty i hMem
    · exact hIndex (hr.symm.trans (hReserved r))
  have hOwns : ∀ o pubkey, ¬(KeyPool.initial fLocked keystore vchDefaultKey).Owns o pubkey := by
    intro o pubkey h
    cases o with
    | index i => exact hUse i h.1
    | kept n => cases h
  constructor
  · intro o o' pubkey h
    exact absurd h (hOwns o pubkey)
  · intro o pubkey h
    exact absurd h (hOwns o pubkey)
  · intro i hi
    exact absurd hi (hUse i)
  · intro i hi
    exact absurd hi (hUse i)
  · exact ⟨fun r r' _ hIndex => absurd (hReserved r) hIndex,
      fun r hIndex => absurd (hReserved r) hIndex⟩
  · intro h keypool hIndex
    exact absurd rfl hIndex
  · intro h _ hValid
    have hInvalid : CPubKey.invalid.isValid ≠ true := by decide
    exact absurd hValid hInvalid

/-! ## Calls that keep the order -/

theorem subset_topUpLoop (remaining j : ℕ) :
    s.setKeyPool ⊆ (s.topUpLoop P ctx remaining j).setKeyPool := by
  induction remaining generalizing s j with
  | zero => exact Finset.Subset.refl _
  | succ remaining ih =>
      intro i hi
      apply ih
      exact Finset.mem_insert_of_mem hi

/-- A pool that is empty afterwards was not filled. -/
theorem topUpLoop_of_empty {remaining j : ℕ}
    (hEmpty : (s.topUpLoop P ctx remaining j).setKeyPool = ∅) :
    s.topUpLoop P ctx remaining j = s := by
  cases remaining with
  | zero => rfl
  | succ remaining =>
      have hMem : s.nextIndex ∈ (s.topUpLoop P ctx (remaining + 1) j).setKeyPool :=
        subset_topUpLoop remaining (j + 1) (Finset.mem_insert_self _ _)
      rw [hEmpty] at hMem
      exact absurd hMem (Finset.notMem_empty _)

theorem topUpKeyPool_of_empty {nSize : ℕ}
    (hEmpty : (s.topUpKeyPool P ctx nSize).2.setKeyPool = ∅) :
    (s.topUpKeyPool P ctx nSize).2 = s := by
  unfold KeyPool.topUpKeyPool at hEmpty ⊢
  split_ifs at hEmpty ⊢
  · rfl
  · exact topUpLoop_of_empty hEmpty

theorem Sound.getReservedKey
    (hSound : Sound P s) (h : ℕ) (hClear : (s.holders h).nIndex = -1 → TopsUpClear P ctx 0 s) :
    ∃ result s', s.getReservedKey P ctx h = .ok (result, s') ∧ Sound P s' := by
  unfold KeyPool.getReservedKey
  by_cases hIndex : (s.holders h).nIndex = -1
  · rw [if_pos hIndex]
    have hFull := hSound.topUpKeyPool (hClear hIndex)
    unfold reserveKeyFromKeyPool
    rcases hFull.takeLeast_cases with hNone | ⟨i, keypool, hi, hRecord, hTaken⟩
    · rw [hNone, ok_bind]
      dsimp only
      split_ifs with hDefault
      · exact ⟨_, _, rfl, hFull.setUnindexed h fun _ => rfl⟩
      · exact ⟨_, _, rfl, hFull⟩
    · rw [hTaken, ok_bind]
      exact ⟨_, _, rfl, hFull.takeForHolder hi hRecord h⟩
  · have hValid := (hSound.known _ _ (hSound.owns_holder hIndex)).1
    rw [if_neg hIndex, hValid, Bool.not_true, if_neg Bool.false_ne_true]
    exact ⟨_, _, rfl, hSound⟩

theorem Sound.getKeyFromPool
    (hSound : Sound P s) (hClear : TopsUpClear P ctx 0 s)
    (hFresh : s.fLocked = true ∨ FreshKeys P ctx.newKeys s.keystore 0 1) :
    ∃ result s', s.getKeyFromPool P ctx = .ok (result, s') ∧ Sound P s' := by
  unfold KeyPool.getKeyFromPool reserveKeyFromKeyPool
  have hFull := hSound.topUpKeyPool hClear
  rcases hFull.takeLeast_cases with hNone | ⟨i, keypool, hi, hRecord, hTaken⟩
  · have hEmpty := topUpKeyPool_of_empty (setKeyPool_of_takeLeast hNone)
    rw [hNone, ok_bind, hEmpty]
    dsimp only
    split_ifs with hLocked
    · exact ⟨_, _, rfl, hSound⟩
    · obtain ⟨hValid, hNew, _⟩ := hFresh.resolve_left hLocked 0 le_rfl (by omega)
      exact ⟨_, _, rfl, hSound.keepNew hValid hNew⟩
  · rw [hTaken, ok_bind]
    exact ⟨_, _, rfl, hFull.takeAndKeep hi hRecord⟩

theorem Sound.oldestReserve
    (hSound : Sound P s) (t : ℕ) (hClear : s.oldest t = -1 → TopsUpClear P ctx 0 s) :
    ∃ s', s.oldestReserve P ctx t = .ok s' ∧ Sound P s' := by
  unfold KeyPool.oldestReserve
  split_ifs with hIndex
  · exact ⟨s, rfl, hSound⟩
  · have hFull := hSound.topUpKeyPool (hClear (not_not.mp hIndex))
    unfold reserveKeyFromKeyPool
    rcases hFull.takeLeast_cases with hNone | ⟨i, keypool, hi, hRecord, hTaken⟩
    · rw [hNone, ok_bind]
      exact ⟨_, rfl, hFull⟩
    · rw [hTaken, ok_bind]
      exact ⟨_, rfl, hFull.takeForOldest hi t⟩

/-- No index that `NewKeyPool` writes is reserved, and its keys are new. -/
def RefillsClear (P : ScriptPrimitives) (ctx : KeyPoolContext) (s : KeyPool) : Prop :=
  s.fLocked = true ∨
    (∀ r, ¬(1 ≤ s.reservedIndex r ∧ s.reservedIndex r ≤ ctx.nKeys)) ∧
    FreshKeys P ctx.newKeys s.keystore 0 ctx.nKeys

theorem Sound.newKeyPool (hSound : Sound P s) (hClear : RefillsClear P ctx s) :
    Sound P (s.newKeyPool P ctx).2 := by
  unfold KeyPool.newKeyPool
  split_ifs with hLocked
  · exact hSound.eraseFree
  · obtain ⟨hUnreserved, hFresh⟩ := hClear.resolve_left hLocked
    apply hSound.eraseFree.fillLoop
    · intro j hj
      exact absurd hj (Finset.notMem_empty j)
    · rintro r ⟨hLow, hHigh⟩
      have hIndex : s.eraseFree.reservedIndex r = s.reservedIndex r := by cases r <;> rfl
      exact hUnreserved r (by omega)
    · exact hFresh

/-- There is a free index, the next one is not reserved, and the key is one that the wallet
has and nobody else does. -/
def AddsClear (P : ScriptPrimitives) (keypool : CKeyPool) (s : KeyPool) : Prop :=
  s.setKeyPool.Nonempty ∧ (∀ r, s.reservedIndex r ≠ s.nextIndex) ∧
    keypool.vchPubKey.isValid = true ∧ keypool.vchPubKey.getID P ∈ s.keystore ∧
    ∀ o, ¬s.Owns o keypool.vchPubKey

theorem Sound.addReserveKey
    {keypool : CKeyPool} (hSound : Sound P s) (hClear : AddsClear P keypool s) :
    ∃ s', s.addReserveKey keypool = .ok s' ∧ Sound P s' := by
  obtain ⟨hSome, hUnreserved, hValid, hKnown, hUnowned⟩ := hClear
  unfold KeyPool.addReserveKey
  rw [if_pos hSome]
  exact ⟨_, rfl, hSound.put (one_le_nextIndex hSound) (fun h => (lt_nextIndex h).ne rfl)
    hUnreserved hValid hKnown hUnowned⟩

theorem Sound.setLocked (hSound : Sound P s) (fLocked : Bool) :
    Sound P { s with fLocked := fLocked } :=
  hSound.of_less (fun _ hi => ⟨hi, rfl⟩) rfl (Finset.Subset.refl _) hSound.apart
    hSound.holderKey hSound.fallback

end KeyPool

/-! ## Runs -/

/-- The call writes no index that is reserved, and the keys that it puts into the pool or gives
away are nobody's yet. -/
def KeyPoolCall.KeepsPool (P : ScriptPrimitives) : KeyPoolCall → KeyPool → Prop
  | .getReservedKey ctx h, s => (s.holders h).nIndex = -1 → KeyPool.TopsUpClear P ctx 0 s
  | .topUpKeyPool ctx nSize, s => KeyPool.TopsUpClear P ctx nSize s
  | .newKeyPool ctx, s => KeyPool.RefillsClear P ctx s
  | .addReserveKey keypool, s => KeyPool.AddsClear P keypool s
  | .getKeyFromPool ctx, s =>
      KeyPool.TopsUpClear P ctx 0 s ∧
        (s.fLocked = true ∨ KeyPool.FreshKeys P ctx.newKeys s.keystore 0 1)
  | .oldestReserve ctx t, s => s.oldest t = -1 → KeyPool.TopsUpClear P ctx 0 s
  | .keepKey _, _ | .returnKey _, _ | .oldestReturn _, _ | .lock, _ | .unlock, _ => True

section Runs

variable {P : ScriptPrimitives} {s : KeyPool}

/-- Such a call does not throw, and leaves the pool in order. -/
theorem KeyPool.Sound.call
    {call : KeyPoolCall} (hSound : s.Sound P) (hKeeps : call.KeepsPool P s) :
    ∃ s', call.run P s = .ok s' ∧ s'.Sound P := by
  cases call with
  | getReservedKey ctx h =>
      obtain ⟨result, s', hRun, hAfter⟩ := hSound.getReservedKey h hKeeps
      refine ⟨s', ?_, hAfter⟩
      rw [KeyPoolCall.run, hRun, ok_bind]
  | keepKey h => exact ⟨_, rfl, hSound.keepKey h⟩
  | returnKey h => exact ⟨_, rfl, hSound.returnKey h⟩
  | topUpKeyPool ctx nSize => exact ⟨_, rfl, hSound.topUpKeyPool hKeeps⟩
  | newKeyPool ctx => exact ⟨_, rfl, hSound.newKeyPool hKeeps⟩
  | addReserveKey keypool => exact hSound.addReserveKey hKeeps
  | getKeyFromPool ctx =>
      obtain ⟨result, s', hRun, hAfter⟩ := hSound.getKeyFromPool hKeeps.1 hKeeps.2
      refine ⟨s', ?_, hAfter⟩
      rw [KeyPoolCall.run, hRun, ok_bind]
  | oldestReserve ctx t => exact hSound.oldestReserve t hKeeps
  | oldestReturn t => exact ⟨_, rfl, hSound.oldestReturn t⟩
  | lock => exact ⟨_, rfl, hSound.setLocked true⟩
  | unlock => exact ⟨_, rfl, hSound.setLocked false⟩

/-- So does a run of such calls. -/
theorem KeyPool.Sound.calls
    {calls : List KeyPoolCall} (hSound : s.Sound P)
    (hKeeps : ∀ past call rest u, calls = past ++ call :: rest →
      runEvents (KeyPoolCall.run P) past s = .ok u → call.KeepsPool P u) :
    ∃ s', runEvents (KeyPoolCall.run P) calls s = .ok s' ∧ s'.Sound P := by
  induction calls using List.reverseRecOn with
  | nil => exact ⟨s, rfl, hSound⟩
  | append_singleton calls call ih =>
      obtain ⟨u, hPast, hBefore⟩ := ih fun past call' rest u hSplit =>
        hKeeps past call' (rest ++ [call]) u (by simp [hSplit])
      obtain ⟨s', hRun, hAfter⟩ := hBefore.call (hKeeps calls call [] u rfl hPast)
      exact ⟨s', runEvents_concat_eq_ok.mpr ⟨u, hPast, hRun⟩, hAfter⟩

end Runs

namespace Sample

/-- `-keypool=0`, with one key after the other from number `n` on. -/
def poolContext (n : ℕ) : KeyPoolContext where
  now := 1700000000
  fLiteMode := false
  keypool := some 0
  newKeys j := CPubKey.ofBytes (compressedKey (n + j).toUInt8)

def defaultKey : CPubKey := CPubKey.ofBytes (compressedKey 200)

def twoHolders : List KeyPoolCall :=
  [.getReservedKey (poolContext 0) 0, .getReservedKey (poolContext 1) 1]

def emptyWallet (fLocked : Bool) : KeyPool := KeyPool.initial fLocked ∅ defaultKey

end Sample

end SocietyGold
