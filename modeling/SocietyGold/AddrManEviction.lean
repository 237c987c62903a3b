import SocietyGold.AddrManCheck
import SocietyGold.AddrManPromotion
import SocietyGold.Support.ListSwap

/-!
# Which tried entry is evicted

`SelectTried` draws up to four entries of a bucket to its front and looks for the one with the
least `nLastSuccess`.  The position it remembers is the one the entry was drawn from, where
the exchange has just put another entry, and not the one the entry has been brought to.
-/

namespace SocietyGold

open Support

/-! ## The inspected entries -/

/-- `nPos` of round `i` for a bucket of that size. -/
def drawnPos (rand : ℕ → ℕ) (size i : ℕ) : ℕ := getRandInt (rand i) (size - i) + i

theorem le_drawnPos (rand : ℕ → ℕ) (size i : ℕ) : i ≤ drawnPos rand size i :=
  Nat.le_add_left ..

theorem drawnPos_lt (rand : ℕ → ℕ) {size i : ℕ} (h : i < size) : drawnPos rand size i < size := by
  have hDraw := @CAddrMan.getRandInt_lt (rand i) (size - i) (by omega)
  unfold drawnPos
  omega

/-- The number of rounds. -/
def inspectRounds (size : ℕ) : ℕ := min ADDRMAN_TRIED_ENTRIES_INSPECT_ON_EVICT size

namespace CAddrMan

/-- `mapInfo[nId].nLastSuccess`. -/
def lastSuccess (man : CAddrMan) (nId : ℕ) : ℤ :=
  ((man.mapInfo.lookup nId).map fun info => info.nLastSuccess.toInt).getD 0

section Inspected

variable (man : CAddrMan) (rand : ℕ → ℕ) (b : TriedBucket)

/-- The entry that round `i` draws. -/
def inspectedAt (i : ℕ) : ℕ :=
  (man.vvTried b).getD (drawOrder (drawnPos rand (man.vvTried b).length) (i + 1) i) 0

def inspected : List ℕ :=
  (List.range (inspectRounds (man.vvTried b).length)).map (man.inspectedAt rand b)

/-- An inspected entry such that no other one has been reached less recently. -/
def IsLeastRecent (nId : ℕ) : Prop :=
  nId ∈ man.inspected rand b ∧
    ∀ other ∈ man.inspected rand b, man.lastSuccess nId ≤ man.lastSuccess other

instance (nId : ℕ) : Decidable (man.IsLeastRecent rand b nId) :=
  inferInstanceAs (Decidable (_ ∧ _))

/-- The first round `m` that draws an entry with the least `nLastSuccess` draws it from the
position of a round, and the entry that this round draws has the least `nLastSuccess`, too. -/
def OldestInPlace : Prop :=
  ∃ m, IsFirstLeast (fun i => man.lastSuccess (man.inspectedAt rand b i))
      (inspectRounds (man.vvTried b).length) m ∧
    drawnPos rand (man.vvTried b).length m < inspectRounds (man.vvTried b).length ∧
    man.lastSuccess (man.inspectedAt rand b (drawnPos rand (man.vvTried b).length m)) =
      man.lastSuccess (man.inspectedAt rand b m)

end Inspected

/-! ## The rounds -/

variable {man : CAddrMan} {rand : ℕ → ℕ} {b : TriedBucket}

theorem lastSuccess_of_lookup
    {nId : ℕ} {info : CAddrInfo} (h : man.mapInfo.lookup nId = some info) :
    man.lastSuccess nId = info.nLastSuccess.toInt := by
  rw [lastSuccess, h, Option.map_some, Option.getD_some]

/-- What stands at a position after some rounds. -/
theorem getElem?_drawn
    {rounds : ℕ} (hRounds : rounds ≤ (man.vvTried b).length) (x : ℕ) :
    (drawFront (drawnPos rand (man.vvTried b).length) rounds (man.vvTried b))[x]? =
      (man.vvTried b)[drawOrder (drawnPos rand (man.vvTried b).length) rounds x]? :=
  getElem?_drawFront (fun _ hI => drawnPos_lt rand (hI.trans_le hRounds)) hRounds x

/-- What round `i` has drawn stands at position `i` from then on. -/
theorem getElem?_inspectedAt
    {i rounds : ℕ} (hI : i < rounds) (hRounds : rounds ≤ (man.vvTried b).length) :
    (drawFront (drawnPos rand (man.vvTried b).length) rounds (man.vvTried b))[i]? =
      some (man.inspectedAt rand b i) := by
  have hGet := @getElem?_drawn man rand b rounds hRounds i
  rw [drawOrder_of_drawn (le_drawnPos rand _) hI] at hGet
  have hInside : i < (drawFront (drawnPos rand (man.vvTried b).length) rounds
      (man.vvTried b)).length := by
    rw [length_drawFront]
    omega
  rw [List.getElem?_eq_getElem hInside] at hGet
  rw [List.getElem?_eq_getElem hInside, inspectedAt, List.getD_eq_getElem?_getD, ← hGet,
    Option.getD_some]

theorem mem_of_inspectedAt {i : ℕ} (hI : i < (man.vvTried b).length) :
    man.inspectedAt rand b i ∈ man.vvTried b :=
  (drawFront_perm _ _ _).mem_iff.mp
    (List.mem_of_getElem? (getElem?_inspectedAt (Nat.lt_succ_self i) hI))

/-- Before round `i` the drawn entries are at the front, and the entry and the position that
are kept are those of the first one with the least `nLastSuccess`. -/
structure Inspecting (man : CAddrMan) (rand : ℕ → ℕ) (b : TriedBucket) (i : ℕ)
    (sel : Selection) : Prop where
  bucket : sel.man = { man with
    vvTried := Function.update man.vvTried b
      (drawFront (drawnPos rand (man.vvTried b).length) i (man.vvTried b)) }
  none_yet : i = 0 → sel.nOldest = none ∧ sel.nOldestPos = -1
  oldest : 0 < i → ∃ m, IsFirstLeast (fun i => man.lastSuccess (man.inspectedAt rand b i)) i m ∧
    sel.nOldest = some (man.inspectedAt rand b m) ∧
    sel.nOldestPos = drawnPos rand (man.vvTried b).length m

theorem selectTriedRound_inspects
    {i : ℕ} {sel : Selection}
    (hKnown : ∀ nId ∈ man.vvTried b, ∃ info, man.mapInfo.lookup nId = some info)
    (hLt : i < (man.vvTried b).length) (h : Inspecting man rand b i sel) :
    ∃ sel', selectTriedRound rand b sel i = .ok sel' ∧ Inspecting man rand b (i + 1) sel' := by
  have hBucket : sel.man.vvTried b =
      drawFront (drawnPos rand (man.vvTried b).length) i (man.vvTried b) := by
    rw [h.bucket]
    exact Function.update_self ..
  have hInfo : sel.man.mapInfo = man.mapInfo := by
    rw [h.bucket]
  have hPosEq : getRandInt (rand i) ((man.vvTried b).length - i) + i =
      drawnPos rand (man.vvTried b).length i := rfl
  have hDrawn : elementAt (drawFront (drawnPos rand (man.vvTried b).length) i (man.vvTried b))
      (drawnPos rand (man.vvTried b).length i) = .ok (man.inspectedAt rand b i) := by
    rw [elementAt_eq_ok, getElem?_drawn hLt.le, ← drawOrder_succ_self, ← getElem?_drawn hLt]
    exact getElem?_inspectedAt (Nat.lt_succ_self i) hLt
  have hSwapped : { sel.man with
      vvTried := Function.update sel.man.vvTried b
        (swapAt (drawFront (drawnPos rand (man.vvTried b).length) i (man.vvTried b)) i
          (drawnPos rand (man.vvTried b).length i)) } = { man with
      vvTried := Function.update man.vvTried b
        (drawFront (drawnPos rand (man.vvTried b).length) (i + 1) (man.vvTried b)) } := by
    rw [h.bucket]
    dsimp only
    rw [Function.update_idem]
    rfl
  unfold selectTriedRound
  dsimp only
  rw [hBucket, length_drawFront, hPosEq, hDrawn, ok_bind, hSwapped]
  rcases Nat.eq_zero_or_pos i with hFirst | hLater
  · rw [(h.none_yet hFirst).1, hFirst]
    exact ⟨_, rfl, rfl, by omega, fun _ => ⟨0, isFirstLeast_one, rfl, rfl⟩⟩
  · obtain ⟨m, hLeast, hOldest, hOldestPos⟩ := h.oldest hLater
    obtain ⟨info, hEntry⟩ := hKnown _ (@mem_of_inspectedAt man rand b i hLt)
    obtain ⟨infoOldest, hEntryOldest⟩ :=
      hKnown _ (@mem_of_inspectedAt man rand b m (hLeast.lt.trans hLt))
    have hCounted (vvTried : TriedBucket → List ℕ) :
        ({ man with vvTried := vvTried } : CAddrMan).counted (man.inspectedAt rand b i) =
          .ok info := counted_of_lookup hEntry
    have hCreated (vvTried : TriedBucket → List ℕ) :
        ({ man with vvTried := vvTried } : CAddrMan).created (man.inspectedAt rand b m) =
          (infoOldest, { man with vvTried := vvTried }) := by
      have hIn : man.inspectedAt rand b m ∈ man.mapInfo :=
        Table.mem_iff_lookup.mpr ⟨infoOldest, hEntryOldest⟩
      rw [created]
      dsimp only
      rw [hEntryOldest, Option.getD_some, Table.touch, if_pos hIn]
    have hLess : info.nLastSuccess < infoOldest.nLastSuccess ↔
        man.lastSuccess (man.inspectedAt rand b i) <
          man.lastSuccess (man.inspectedAt rand b m) := by
      rw [lastSuccess_of_lookup hEntry, lastSuccess_of_lookup hEntryOldest]
      exact Int64.lt_iff_toInt_lt
    rw [hOldest]
    dsimp only
    rw [hCounted, ok_bind, hCreated]
    dsimp only
    by_cases hBetter : info.nLastSuccess < infoOldest.nLastSuccess
    · rw [if_pos hBetter]
      exact ⟨_, rfl, rfl, by omega, fun _ => ⟨i, hLeast.succ_of_lt (hLess.mp hBetter), rfl, rfl⟩⟩
    · rw [if_neg hBetter]
      exact ⟨_, rfl, rfl, by omega, fun _ =>
        ⟨m, hLeast.succ_of_not_lt (hLess.not.mp hBetter), rfl, hOldestPos⟩⟩

/-- The bucket ends with the drawn entries at its front; the position that is returned is the
one from which the first entry with the least `nLastSuccess` was drawn. -/
theorem selectTried_inspects
    (rand : ℕ → ℕ) (hKnown : ∀ nId ∈ man.vvTried b, ∃ info, man.mapInfo.lookup nId = some info) :
    ∃ nPos, man.selectTried rand b = .ok (nPos, { man with
        vvTried := Function.update man.vvTried b
          (drawFront (drawnPos rand (man.vvTried b).length)
            (inspectRounds (man.vvTried b).length) (man.vvTried b)) }) ∧
      (man.vvTried b = [] → nPos = -1) ∧
      (man.vvTried b ≠ [] → ∃ m, IsFirstLeast
          (fun i => man.lastSuccess (man.inspectedAt rand b i))
          (inspectRounds (man.vvTried b).length) m ∧
        nPos = drawnPos rand (man.vvTried b).length m) := by
  have hStart : Inspecting man rand b 0 ⟨man, none, -1⟩ := by
    refine ⟨?_, fun _ => ⟨rfl, rfl⟩, fun h => absurd h (Nat.lt_irrefl 0)⟩
    change man = { man with vvTried := Function.update man.vvTried b (man.vvTried b) }
    rw [Function.update_eq_self]
  obtain ⟨sel, hRun, hSel⟩ := @foldlM_range_ok _ _ (selectTriedRound rand b)
    (fun i sel => Inspecting man rand b i sel) (inspectRounds (man.vvTried b).length) _
    (fun i hI sel hSel => selectTriedRound_inspects hKnown
      (lt_of_lt_of_le hI (min_le_right _ _)) hSel) hStart
  refine ⟨sel.nOldestPos, ?_, ?_, ?_⟩
  · unfold selectTried
    dsimp only
    change ((List.range (inspectRounds (man.vvTried b).length)).foldlM _ _ >>= _) = _
    rw [hRun, ok_bind, hSel.bucket]
  · intro hEmpty
    refine (hSel.none_yet ?_).2
    rw [hEmpty]
    rfl
  · intro hNonempty
    have hRounds : 0 < inspectRounds (man.vvTried b).length :=
      lt_min (by decide) (List.length_pos_iff.mpr hNonempty)
    obtain ⟨m, hLeast, -, hPos⟩ := hSel.oldest hRounds
    exact ⟨m, hLeast, hPos⟩

/-! ## The entry at the returned position -/

/-- The entry at the position that is returned is one of those that were inspected exactly when
the position is that of a round. -/
theorem isLeastRecent_iff
    (hNodup : (man.vvTried b).Nodup) {m nId : ℕ}
    (hLeast : IsFirstLeast (fun i => man.lastSuccess (man.inspectedAt rand b i))
      (inspectRounds (man.vvTried b).length) m)
    (hAt : (drawFront (drawnPos rand (man.vvTried b).length)
      (inspectRounds (man.vvTried b).length) (man.vvTried b))[drawnPos rand
        (man.vvTried b).length m]? = some nId) :
    man.IsLeastRecent rand b nId ↔ man.OldestInPlace rand b := by
  have hRounds : inspectRounds (man.vvTried b).length ≤ (man.vvTried b).length :=
    min_le_right _ _
  constructor
  · rintro ⟨hMem, hBest⟩
    obtain ⟨j, hJ, rfl⟩ := List.mem_map.mp hMem
    have hJLt := List.mem_range.mp hJ
    have hAtJ := @getElem?_inspectedAt man rand b j _ hJLt hRounds
    have hNodupFront : (drawFront (drawnPos rand (man.vvTried b).length)
        (inspectRounds (man.vvTried b).length) (man.vvTried b)).Nodup :=
      (drawFront_perm _ _ _).nodup_iff.mpr hNodup
    have hSame : j = drawnPos rand (man.vvTried b).length m :=
      (List.getElem?_inj (List.getElem?_eq_some_iff.mp hAtJ).1 hNodupFront).mp
        (hAtJ.trans hAt.symm)
    refine ⟨m, hLeast, hSame ▸ hJLt, ?_⟩
    rw [← hSame]
    apply le_antisymm
    · exact hBest _ (List.mem_map.mpr ⟨m, List.mem_range.mpr hLeast.lt, rfl⟩)
    · exact hLeast.least j hJLt
  · rintro ⟨m', hLeast', hPos, hEqual⟩
    obtain rfl := hLeast.unique hLeast'
    rw [getElem?_inspectedAt hPos hRounds] at hAt
    obtain rfl := Option.some.inj hAt
    refine ⟨List.mem_map.mpr ⟨_, List.mem_range.mpr hPos, rfl⟩, ?_⟩
    intro other hOther
    obtain ⟨j, hJ, rfl⟩ := List.mem_map.mp hOther
    rw [hEqual]
    exact hLeast.least j (List.mem_range.mp hJ)

/-! ## The eviction -/

theorem lastSuccess_withdrawNew (nId : ℕ) :
    (man.withdrawNew nId).lastSuccess = man.lastSuccess := by
  funext k
  unfold lastSuccess
  congr 1
  change (((man.modifyInfo nId _).mapInfo.lookup k).map _) = _
  rw [lookup_modifyInfo]
  split_ifs with hSelf
  · rw [hSelf, Option.map_map]
    rfl
  · rfl

/-- The entry that leaves a full bucket is the one at the position that `SelectTried` returns. -/
theorem replaceTried_evicts
    {prims : Primitives} {nId : ℕ} {nOrigin : NewBucket} {man' : CAddrMan}
    (hRun : man.replaceTried prims rand nId nOrigin b = .ok man') :
    ∃ (nPos nIdOld : ℕ) (sel : CAddrMan), man.selectTried rand b = .ok ((nPos : ℤ), sel) ∧
      (sel.vvTried b)[nPos]? = some nIdOld ∧ man'.vvTried b = (sel.vvTried b).set nPos nId ∧
      ∃ b', nIdOld ∈ man'.vvNew b' := by
  unfold replaceTried at hRun
  obtain ⟨⟨nPos, sel⟩, hSelect, hRun⟩ := bind_eq_ok.mp hRun
  dsimp only at hRun
  by_cases hPos : 0 ≤ nPos
  · rw [if_pos hPos, ok_bind] at hRun
    obtain ⟨nIdOld, hOld, hRun⟩ := bind_eq_ok.mp hRun
    obtain ⟨infoOld, hCounted, hRun⟩ := bind_eq_ok.mp hRun
    obtain ⟨vTried, hStore, hRun⟩ := bind_eq_ok.mp hRun
    have hKept : (sel.evict prims nIdOld infoOld nOrigin).vvTried = sel.vvTried :=
      modifyInfo_vvTried ..
    rw [hKept, storeAt] at hStore
    split_ifs at hStore with hInside
    refine ⟨nPos.toNat, nIdOld, sel, ?_, elementAt_eq_ok.mp hOld, ?_, ?_⟩
    · rw [Int.toNat_of_nonneg hPos]
      exact hSelect
    · rw [← Except.ok.inj hRun, modifyInfo_vvTried, ← Except.ok.inj hStore]
      exact Function.update_self ..
    · rw [← Except.ok.inj hRun, modifyInfo_vvNew]
      exact ⟨_, mem_putInto.mpr (Or.inr ⟨rfl, rfl⟩)⟩
  · rw [if_neg hPos] at hRun
    cases hRun

theorem inspected_withdrawNew (nId : ℕ) :
    (man.withdrawNew nId).inspectedAt rand b = man.inspectedAt rand b ∧
      (man.withdrawNew nId).inspected rand b = man.inspected rand b := by
  have hTried : (man.withdrawNew nId).vvTried = man.vvTried := modifyInfo_vvTried ..
  have hAt : (man.withdrawNew nId).inspectedAt rand b = man.inspectedAt rand b := by
    funext i
    rw [inspectedAt, hTried, inspectedAt]
  refine ⟨hAt, ?_⟩
  rw [inspected, hAt, hTried, inspected]

theorem isLeastRecent_withdrawNew (nId k : ℕ) :
    (man.withdrawNew nId).IsLeastRecent rand b k ↔ man.IsLeastRecent rand b k := by
  unfold IsLeastRecent
  rw [(inspected_withdrawNew nId).2, lastSuccess_withdrawNew]

theorem oldestInPlace_withdrawNew (nId : ℕ) :
    (man.withdrawNew nId).OldestInPlace rand b ↔ man.OldestInPlace rand b := by
  have hTried : (man.withdrawNew nId).vvTried = man.vvTried := modifyInfo_vvTried ..
  unfold OldestInPlace
  rw [(inspected_withdrawNew nId).1, lastSuccess_withdrawNew, hTried]

/-- The position and the bucket that `SelectTried` returns. -/
theorem selectTried_leastRecent
    (rand : ℕ → ℕ) (hNodup : (man.vvTried b).Nodup)
    (hKnown : ∀ nId ∈ man.vvTried b, ∃ info, man.mapInfo.lookup nId = some info) :
    ∃ nPos vTried, man.selectTried rand b = .ok (nPos, { man with
        vvTried := Function.update man.vvTried b vTried }) ∧
      vTried.Perm (man.vvTried b) ∧
      ((∃ (p nId : ℕ), nPos = p ∧ vTried[p]? = some nId ∧ man.IsLeastRecent rand b nId) ↔
        man.OldestInPlace rand b) ∧
      ∀ (p nId : ℕ), nPos = p → vTried[p]? = some nId →
        (man.IsLeastRecent rand b nId ↔ man.OldestInPlace rand b) := by
  obtain ⟨nPos, hRun, hEmpty, hNonempty⟩ := selectTried_inspects rand hKnown
  have hPlaced (p nId : ℕ) (hPos : nPos = p) (hAt : (drawFront (drawnPos rand
      (man.vvTried b).length) (inspectRounds (man.vvTried b).length) (man.vvTried b))[p]? =
        some nId) : man.IsLeastRecent rand b nId ↔ man.OldestInPlace rand b := by
    by_cases hNone : man.vvTried b = []
    · rw [hEmpty hNone] at hPos
      omega
    · obtain ⟨m, hLeast, hM⟩ := hNonempty hNone
      rw [hM, Int.natCast_inj] at hPos
      rw [← hPos] at hAt
      exact isLeastRecent_iff hNodup hLeast hAt
  refine ⟨nPos, _, hRun, drawFront_perm _ _ _, ⟨?_, ?_⟩, hPlaced⟩
  · rintro ⟨p, nId, hPos, hAt, hBest⟩
    exact (hPlaced p nId hPos hAt).mp hBest
  · intro hInPlace
    obtain ⟨m, hLeast, hLt, -⟩ := id hInPlace
    have hSize : m < (man.vvTried b).length := hLeast.lt.trans_le (min_le_right _ _)
    obtain ⟨m', hLeast', hPos⟩ := hNonempty (List.ne_nil_of_length_pos (by omega))
    obtain rfl := hLeast.unique hLeast'
    have hAt := @getElem?_inspectedAt man rand b _ _ hLt (min_le_right _ _)
    exact ⟨_, _, hPos, hAt, (hPlaced _ _ hPos hAt).mpr hInPlace⟩

/-- `SelectTried` reorders the bucket; the entry at the position that it returns is an inspected
one that has been reached least recently, and `MakeTried` moves such an entry back to the new
table, exactly when the first entry with the least `nLastSuccess` was drawn from the position
of a round that has drawn an entry with the same `nLastSuccess`. -/
theorem evictsLeastRecent_iff
    (rand : ℕ → ℕ) (hNodup : (man.vvTried b).Nodup)
    (hKnown : ∀ nId ∈ man.vvTried b, ∃ info, man.mapInfo.lookup nId = some info) :
    (∃ nPos vTried, man.selectTried rand b = .ok (nPos, { man with
        vvTried := Function.update man.vvTried b vTried }) ∧
      vTried.Perm (man.vvTried b) ∧
      ((∃ (p nId : ℕ), nPos = p ∧ vTried[p]? = some nId ∧ man.IsLeastRecent rand b nId) ↔
        man.OldestInPlace rand b)) ∧
    ∀ prims nId info nOrigin man', man.mapInfo.lookup nId = some info →
      info.getTriedBucket prims man.nKey = b →
      ADDRMAN_TRIED_BUCKET_SIZE ≤ (man.vvTried b).length → nId ∉ man.vvTried b →
      man.makeTried prims rand nId nOrigin = .ok man' →
      ∃ nIdOld, nIdOld ∈ man.vvTried b ∧
        (∀ k, k ∈ man'.vvTried b ↔ k = nId ∨ k ∈ man.vvTried b ∧ k ≠ nIdOld) ∧
        (∃ b', nIdOld ∈ man'.vvNew b') ∧
        (man.IsLeastRecent rand b nIdOld ↔ man.OldestInPlace rand b) := by
  constructor
  · obtain ⟨nPos, vTried, hRun, hPerm, hIff, -⟩ := selectTried_leastRecent rand hNodup hKnown
    exact ⟨nPos, vTried, hRun, hPerm, hIff⟩
  · intro prims nId info nOrigin man' hEntry hBucket hFull hOther hRun
    have hTried : (man.withdrawNew nId).vvTried = man.vvTried := modifyInfo_vvTried ..
    have hKey : (man.withdrawNew nId).nKey = man.nKey := modifyInfo_nKey ..
    have hLookup (k : ℕ) : (man.withdrawNew nId).mapInfo.lookup k =
        if k = nId then some { info with
          nRefCount := info.nRefCount - (holders man.vvNew nId).card }
        else man.mapInfo.lookup k := by
      change (man.modifyInfo nId _).mapInfo.lookup k = _
      rw [lookup_modifyInfo, hEntry, Option.map_some]
    have hSelf := hLookup nId
    rw [if_pos rfl] at hSelf
    -- the entry is known, and its bucket is full
    unfold makeTried at hRun
    obtain ⟨-, hOrigin, hRun⟩ := bind_eq_ok.mp hRun
    dsimp only at hRun
    rw [hSelf, deref_some, ok_bind] at hRun
    obtain ⟨-, hCount, hRun⟩ := bind_eq_ok.mp hRun
    have hSame : CAddrInfo.getTriedBucket prims (man.withdrawNew nId).nKey { info with
        nRefCount := info.nRefCount - (holders man.vvNew nId).card } = b := by
      rw [hKey]
      exact hBucket
    rw [hSame, hTried, if_neg (not_lt.mpr hFull)] at hRun
    obtain ⟨nPos, nIdOld, sel, hSelect, hOld, hAfter, hMoved⟩ := replaceTried_evicts hRun
    have hKnown' : ∀ k ∈ (man.withdrawNew nId).vvTried b,
        ∃ info, (man.withdrawNew nId).mapInfo.lookup k = some info := by
      intro k hMem
      rw [hTried] at hMem
      rw [hLookup, if_neg]
      · exact hKnown k hMem
      · rintro rfl
        exact hOther hMem
    obtain ⟨nPos', vTried, hSelect', hPerm, -, hPlaced⟩ :=
      selectTried_leastRecent rand (by rw [hTried]; exact hNodup) hKnown'
    rw [hSelect, Except.ok.injEq, Prod.mk.injEq] at hSelect'
    obtain ⟨hPos, hSel⟩ := hSelect'
    have hSelTried : sel.vvTried b = vTried := by
      rw [hSel]
      exact Function.update_self ..
    rw [hSelTried] at hOld hAfter
    rw [hTried] at hPerm
    refine ⟨nIdOld, hPerm.mem_iff.mp (List.mem_of_getElem? hOld), ?_, hMoved, ?_⟩
    · intro k
      rw [hAfter, mem_set_iff (hPerm.nodup_iff.mpr hNodup) hOld, hPerm.mem_iff]
    · rw [← isLeastRecent_withdrawNew nId, ← oldestInPlace_withdrawNew nId]
      exact hPlaced nPos nIdOld hPos.symm hOld

end CAddrMan

/-! ## A full bucket -/

namespace Sample

def crowdedBucket : TriedBucket := ⟨3, by decide⟩

/-- A peer of the network 8.8. -/
def peerNumber (i : ℕ) : CService :=
  ⟨⟨#v[0, 0, 0, 0, 0, 0, 0, 0, 0, 0, 0xff, 0xff, 8, 8, UInt8.ofNat (i / 256), UInt8.ofNat i]⟩,
    UInt16.ofNat (1024 + i)⟩

/-- Peers whose tried bucket is the crowded one. -/
def crowdedPeers : List CService :=
  ((List.range 400).map peerNumber).filter
    fun addr => CAddrInfo.triedBucket prims [] addr = crowdedBucket

/-- An entry that has been reached the earlier the larger its id is. -/
def crowdedEntry (nId : ℕ) : CAddrInfo :=
  let addr := crowdedPeers.getD nId peerService
  { CAddrInfo.ofAddress (CAddress.ofService addr) addr.toCNetAddr with
    nLastSuccess := Int64.ofNat (1600000064 - nId)
    fInTried := true
    nRandomPos := nId }

/-- A manager with one full bucket. -/
def crowdedMan : CAddrMan :=
  { CAddrMan.empty [] with
    nIdCount := 64
    mapInfo := (List.range 64).foldl (fun t nId => t.insert nId (crowdedEntry nId)) ∅
    mapAddr := (List.range 64).foldl
      (fun t nId => t.insert (crowdedEntry nId).toCNetAddr nId) ∅
    vRandom := List.range 64
    nTried := 64
    vvTried := fun b => if b = crowdedBucket then List.range 64 else [] }

theorem crowdedMan_known :
    ∀ nId ∈ crowdedMan.vvTried crowdedBucket,
      ∃ info, crowdedMan.mapInfo.lookup nId = some info := by
  have hAll : ∀ nId ∈ crowdedMan.vvTried crowdedBucket,
      (crowdedMan.mapInfo.lookup nId).isSome = true := by
    decide +kernel
  exact fun nId hMem => Option.isSome_iff_exists.mp (hAll nId hMem)

/-- The draws of the four rounds are 0, so each entry is drawn from its own position. -/
theorem ownPosition_leastRecent :
    (∃ nPos vTried, crowdedMan.selectTried (fun _ => 0) crowdedBucket =
        .ok (nPos, { crowdedMan with
          vvTried := Function.update crowdedMan.vvTried crowdedBucket vTried }) ∧
      vTried.Perm (crowdedMan.vvTried crowdedBucket) ∧
      ((∃ (p nId : ℕ), nPos = p ∧ vTried[p]? = some nId ∧
          crowdedMan.IsLeastRecent (fun _ => 0) crowdedBucket nId) ↔
        crowdedMan.OldestInPlace (fun _ => 0) crowdedBucket)) ∧
    ∀ prims nId info nOrigin man', crowdedMan.mapInfo.lookup nId = some info →
      info.getTriedBucket prims crowdedMan.nKey = crowdedBucket →
      ADDRMAN_TRIED_BUCKET_SIZE ≤ (crowdedMan.vvTried crowdedBucket).length →
      nId ∉ crowdedMan.vvTried crowdedBucket →
      crowdedMan.makeTried prims (fun _ => 0) nId nOrigin = .ok man' →
      ∃ nIdOld, nIdOld ∈ crowdedMan.vvTried crowdedBucket ∧
        (∀ k, k ∈ man'.vvTried crowdedBucket ↔
          k = nId ∨ k ∈ crowdedMan.vvTried crowdedBucket ∧ k ≠ nIdOld) ∧
        (∃ b', nIdOld ∈ man'.vvNew b') ∧
        (crowdedMan.IsLeastRecent (fun _ => 0) crowdedBucket nIdOld ↔
          crowdedMan.OldestInPlace (fun _ => 0) crowdedBucket) :=
  CAddrMan.evictsLeastRecent_iff (fun _ => 0) (by decide +kernel) crowdedMan_known

/-- The draws of the four rounds are 5.  The entries 5, 6, 7 and 8 are inspected, the last of
which has been reached least recently; position 8 is returned, where entry 3 is. -/
theorem displacedEntry_evicted :
    (crowdedMan.vvTried crowdedBucket).Nodup ∧
      (∀ nId ∈ crowdedMan.vvTried crowdedBucket, ∃ info,
        crowdedMan.mapInfo.lookup nId = some info) ∧
      (∃ man', crowdedMan.selectTried (fun _ => 5) crowdedBucket = .ok (8, man') ∧
        (man'.vvTried crowdedBucket)[8]? = some 3) ∧
      crowdedMan.inspected (fun _ => 5) crowdedBucket = [5, 6, 7, 8] ∧
      (∀ nId ∈ [5, 6, 7, 8], crowdedMan.lastSuccess nId < crowdedMan.lastSuccess 3) ∧
      ¬crowdedMan.IsLeastRecent (fun _ => 5) crowdedBucket 3 := by
  refine ⟨by decide +kernel, crowdedMan_known, ?_, by decide +kernel, by decide +kernel,
    by decide +kernel⟩
  have hRun : (crowdedMan.selectTried (fun _ => 5) crowdedBucket).toOption.map
      (fun r => (r.1, (r.2.vvTried crowdedBucket)[8]?)) = some (8, some 3) := by
    decide +kernel
  cases hResult : crowdedMan.selectTried (fun _ => 5) crowdedBucket with
  | error e =>
      rw [hResult] at hRun
      cases hRun
  | ok r =>
      rw [hResult] at hRun
      obtain ⟨hPos, hAt⟩ := Prod.mk.inj (Option.some.inj hRun)
      exact ⟨r.2, by rw [← hPos], hAt⟩

end Sample

end SocietyGold
