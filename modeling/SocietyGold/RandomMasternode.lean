import SocietyGold.AddrMan
import SocietyGold.MasternodeMan

/-!
# Choosing a masternode at random

`FindRandomNotInVec` draws a number below the count of enabled masternodes less the number of
excluded inputs, and counts it down over the candidates.  The number is compared after it has
been decreased, so that zero and one select the same candidate.  The difference is one of an
`int` and a `size_t`.
-/

namespace SocietyGold

open Support

namespace CMasternodeMan

/-! ## The code -/

/-- An `int` less a `size_t`. -/
def sizeDifference (nCountEnabled nExcluded : ℕ) : ℕ :=
  (((nCountEnabled : ℤ) - nExcluded) % 2 ^ 64).toNat

/-- `GetRandInt` of an `int`, from the number that the random source delivers. -/
def drawInt (nRand : ℕ) (nMax : ℤ) : ℤ := wrap32 (getRandInt nRand (nMax % 2 ^ 64).toNat)

/-- The loop over the excluded inputs. -/
def isExcluded (vecToExclude : List CTxIn) (mn : CMasternode) : Bool :=
  vecToExclude.any fun usedVin => mn.vin.prevout = usedVin.prevout

/-- The loop of `FindRandomNotInVec`, from a position of the list on. -/
def findRandomLoop (protocolVersion : ℤ) (vecToExclude : List CTxIn) :
    List CMasternode → (pos : ℕ) → (rand : ℤ) → Option ℕ
  | [], _, _ => none
  | mn :: rest, pos, rand =>
      if mn.protocolVersion < protocolVersion ∨ !mn.isEnabled then
        findRandomLoop protocolVersion vecToExclude rest (pos + 1) rand
      else if isExcluded vecToExclude mn then
        findRandomLoop protocolVersion vecToExclude rest (pos + 1) rand
      else if rand - 1 < 1 then some pos
      else findRandomLoop protocolVersion vecToExclude rest (pos + 1) (rand - 1)

/-- The protocol version that -1 stands for. -/
def orMinimum (protocolVersion : ℤ) : ℤ :=
  if protocolVersion = -1 then MIN_MASTERNODE_PAYMENT_PROTO_VERSION_1 else protocolVersion

/-- `FindRandomNotInVec`: the list after the checks and the position of the selected entry. -/
def findRandomNotInVec (env : MasternodeEnv) (st : ChainState) (vMasternodes : List CMasternode)
    (vecToExclude : List CTxIn) (protocolVersion : ℤ) (nRand : ℕ) :
    Checked (List CMasternode × Option ℕ) := do
  let protocolVersion := orMinimum protocolVersion
  let (vMasternodes, nCountEnabled) ← countEnabled env st vMasternodes protocolVersion
  if sizeDifference nCountEnabled vecToExclude.length < 1 then .ok (vMasternodes, none)
  else
    let rand := drawInt nRand (wrap32 (sizeDifference nCountEnabled vecToExclude.length))
    .ok (vMasternodes, findRandomLoop protocolVersion vecToExclude vMasternodes 0 rand)

/-! ## Candidates -/

/-- An enabled masternode with sufficient protocol that is not excluded. -/
def isCandidate (protocolVersion : ℤ) (vecToExclude : List CTxIn) (mn : CMasternode) : Bool :=
  !(mn.protocolVersion < protocolVersion) && mn.isEnabled && !isExcluded vecToExclude mn

/-- The positions of the candidates, in the order of the list. -/
def candidates (protocolVersion : ℤ) (vecToExclude : List CTxIn)
    (vMasternodes : List CMasternode) (pos : ℕ) : List ℕ :=
  ((vMasternodes.zipIdx pos).filter fun s => isCandidate protocolVersion vecToExclude s.1).map
    Prod.snd

section Select

variable {protocolVersion : ℤ} {vecToExclude : List CTxIn}

theorem candidates_cons (mn : CMasternode) (rest : List CMasternode) (pos : ℕ) :
    candidates protocolVersion vecToExclude (mn :: rest) pos =
      if isCandidate protocolVersion vecToExclude mn then
        pos :: candidates protocolVersion vecToExclude rest (pos + 1)
      else candidates protocolVersion vecToExclude rest (pos + 1) := by
  rw [candidates, List.zipIdx_cons, List.filter_cons]
  split_ifs <;> rfl

theorem mem_candidates {vMasternodes : List CMasternode} {i : ℕ} :
    i ∈ candidates protocolVersion vecToExclude vMasternodes 0 ↔
      ∃ mn, vMasternodes[i]? = some mn ∧ isCandidate protocolVersion vecToExclude mn = true := by
  simp only [candidates, List.mem_map, List.mem_filter, Prod.exists, exists_eq_right,
    List.mem_zipIdx_iff_getElem?]

theorem nodup_candidates (vMasternodes : List CMasternode) :
    (candidates protocolVersion vecToExclude vMasternodes 0).Nodup := by
  have hAll : ((vMasternodes.zipIdx 0).map Prod.snd).Nodup := by
    rw [List.zipIdx_map_snd]
    exact List.nodup_range'
  exact hAll.sublist (List.filter_sublist.map Prod.snd)

/-- The number counts the candidates; zero and one stand for the first one. -/
theorem findRandomLoop_eq
    (vMasternodes : List CMasternode) (pos : ℕ) (rand : ℤ) :
    findRandomLoop protocolVersion vecToExclude vMasternodes pos rand =
      (candidates protocolVersion vecToExclude vMasternodes pos)[(rand - 1).toNat]? := by
  induction vMasternodes generalizing pos rand with
  | nil => rfl
  | cons mn rest ih =>
      rw [findRandomLoop, candidates_cons]
      by_cases hOff : mn.protocolVersion < protocolVersion ∨ (!mn.isEnabled) = true
      · have hNot : isCandidate protocolVersion vecToExclude mn = false := by
          rcases hOff with hOld | hDisabled
          · simp [isCandidate, hOld]
          · rw [Bool.not_eq_true'] at hDisabled
            simp [isCandidate, hDisabled]
        rw [if_pos hOff, hNot, if_neg Bool.false_ne_true, ih]
      · rw [if_neg hOff]
        rw [not_or, Bool.not_eq_true, Bool.not_eq_false'] at hOff
        cases hExcluded : isExcluded vecToExclude mn with
        | true =>
            have hNot : isCandidate protocolVersion vecToExclude mn = false := by
              simp [isCandidate, hExcluded]
            rw [if_pos rfl, hNot, if_neg Bool.false_ne_true, ih]
        | false =>
            have hCandidate : isCandidate protocolVersion vecToExclude mn = true := by
              simp [isCandidate, hExcluded, hOff.1, hOff.2]
            rw [if_neg Bool.false_ne_true, hCandidate, if_pos rfl]
            by_cases hLast : rand - 1 < 1
            · have hZero : (rand - 1).toNat = 0 := by omega
              rw [if_pos hLast, hZero]
              rfl
            · obtain ⟨k, hk⟩ : ∃ k, (rand - 1).toNat = k + 1 := ⟨(rand - 2).toNat, by omega⟩
              have hNext : (rand - 1 - 1).toNat = k := by omega
              rw [if_neg hLast, ih, hk, hNext, List.getElem?_cons_succ]

end Select

/-! ## Draws -/

/-- The random draw may deliver the number. -/
def Drawn (nCountEnabled nExcluded : ℕ) (rand : ℤ) : Prop :=
  ∃ nRand, rand = drawInt nRand (wrap32 (sizeDifference nCountEnabled nExcluded))

/-- The largest number that the draw delivers.  A difference below zero is a large one without
a sign, and then every `int` may come out. -/
def largestDraw (nCountEnabled nExcluded : ℕ) : ℤ :=
  let nMax := wrap32 (sizeDifference nCountEnabled nExcluded)
  if nMax < 0 then 2 ^ 31 - 1 else max (nMax - 1) 0

theorem wrap32_lt (z : ℤ) : wrap32 z ≤ 2 ^ 31 - 1 := by
  have hLt := Int.bmod_lt (x := z) (m := 2 ^ 32) (by norm_num)
  unfold wrap32
  norm_num at hLt ⊢
  omega

theorem wrap32_of_lt {z : ℤ} (h : 0 ≤ z) (hLt : z ≤ 2 ^ 31 - 1) : wrap32 z = z := by
  apply Int.bmod_eq_of_le_mul_two
  · norm_num
    omega
  · norm_num
    omega

variable {nCountEnabled nExcluded : ℕ} {rand : ℤ}

theorem Drawn.le (h : Drawn nCountEnabled nExcluded rand) :
    rand ≤ largestDraw nCountEnabled nExcluded := by
  obtain ⟨nRand, hRand⟩ := h
  rw [hRand]
  unfold largestDraw
  generalize hMax : wrap32 (sizeDifference nCountEnabled nExcluded) = nMax
  have hUpper : nMax ≤ 2 ^ 31 - 1 := hMax ▸ wrap32_lt _
  dsimp only
  by_cases hNeg : nMax < 0
  · rw [if_pos hNeg]
    exact wrap32_lt _
  · have hSame : (nMax % 2 ^ 64).toNat = nMax.toNat := by
      rw [Int.emod_eq_of_lt (by omega) (by omega)]
    rw [if_neg hNeg, drawInt, hSame]
    unfold getRandInt
    by_cases hZero : nMax.toNat = 0
    · rw [if_pos hZero]
      exact le_max_right _ _
    · have hBelow := Nat.mod_lt nRand (Nat.pos_of_ne_zero hZero)
      have hValue : wrap32 ((nRand % nMax.toNat : ℕ) : ℤ) = (nRand % nMax.toNat : ℕ) :=
        wrap32_of_lt (Int.natCast_nonneg _) (by omega)
      rw [if_neg hZero, hValue]
      apply le_max_of_le_left
      omega

theorem drawn_of_le
    (hNonneg : 0 ≤ rand) (h : rand ≤ largestDraw nCountEnabled nExcluded) :
    Drawn nCountEnabled nExcluded rand := by
  refine ⟨rand.toNat, ?_⟩
  unfold largestDraw at h
  generalize hMax : wrap32 (sizeDifference nCountEnabled nExcluded) = nMax at h ⊢
  have hUpper : nMax ≤ 2 ^ 31 - 1 := hMax ▸ wrap32_lt _
  have hLower : -2 ^ 31 ≤ nMax := by
    rw [← hMax]
    have hLe := @Int.le_bmod (sizeDifference nCountEnabled nExcluded) (2 ^ 32) (by norm_num)
    unfold wrap32
    norm_num at hLe ⊢
    omega
  dsimp only at h
  have hSmall : rand ≤ 2 ^ 31 - 1 := by
    split_ifs at h
    · exact h
    · omega
  have hDraw : getRandInt rand.toNat (nMax % 2 ^ 64).toNat = rand.toNat := by
    unfold getRandInt
    by_cases hNeg : nMax < 0
    · have hLarge : (nMax % 2 ^ 64).toNat = (nMax + 2 ^ 64).toNat := by omega
      rw [hLarge, if_neg (by omega), Nat.mod_eq_of_lt (by omega)]
    · rw [if_neg hNeg] at h
      rw [Int.emod_eq_of_lt (by omega) (by omega)]
      by_cases hZero : nMax.toNat = 0
      · rw [if_pos hZero]
        omega
      · rw [if_neg hZero, Nat.mod_eq_of_lt (by omega)]
  rw [drawInt, hDraw, Int.toNat_of_nonneg hNonneg, wrap32_of_lt hNonneg hSmall]

theorem largestDraw_nonneg (nCountEnabled nExcluded : ℕ) :
    0 ≤ largestDraw nCountEnabled nExcluded := by
  unfold largestDraw
  dsimp only
  split_ifs
  · norm_num
  · exact le_max_right _ _

/-! ## Fairness -/

/-- Every excluded input is that of an enabled masternode of the list with sufficient
protocol, and no two are the same. -/
def ExcludesListed (protocolVersion : ℤ) (vecToExclude : List CTxIn)
    (vMasternodes : List CMasternode) : Prop :=
  (vecToExclude.map CTxIn.prevout).Nodup ∧
    ∀ vin ∈ vecToExclude, ∃ mn ∈ vMasternodes, mn.vin.prevout = vin.prevout ∧
      protocolVersion ≤ mn.protocolVersion ∧ mn.isEnabled = true

/-- What a fair choice is, once `CountEnabled` has left a list and a number: there is a result
exactly if there is a candidate, it is always a candidate, and with inputs of the list
excluded each candidate is the result of one draw. -/
structure SelectsFairly (env : MasternodeEnv) (st : ChainState) (vMasternodes : List CMasternode)
    (vecToExclude : List CTxIn) (protocolVersion : ℤ) (checked : List CMasternode)
    (nCountEnabled : ℕ) : Prop where
  found : ∀ nRand, ∃ found, findRandomNotInVec env st vMasternodes vecToExclude protocolVersion
      nRand = .ok (checked, found) ∧
    (found = none ↔ ∀ mn ∈ checked,
      isCandidate (orMinimum protocolVersion) vecToExclude mn = false) ∧
    ∀ i, found = some i → ∃ mn, checked[i]? = some mn ∧
      isCandidate (orMinimum protocolVersion) vecToExclude mn = true
  fair : ExcludesListed (orMinimum protocolVersion) vecToExclude checked →
    ∀ i mn, checked[i]? = some mn →
      isCandidate (orMinimum protocolVersion) vecToExclude mn = true →
      ∃! rand, Drawn nCountEnabled vecToExclude.length rand ∧
        findRandomLoop (orMinimum protocolVersion) vecToExclude checked 0 rand = some i

section Fairness

variable {env : MasternodeEnv} {st : ChainState} {vMasternodes checked : List CMasternode}
  {vecToExclude : List CTxIn} {protocolVersion : ℤ}

/-- Which candidate a number selects. -/
theorem findRandomNotInVec_eq
    (hCount : countEnabled env st vMasternodes (orMinimum protocolVersion) =
      .ok (checked, nCountEnabled)) (nRand : ℕ) :
    findRandomNotInVec env st vMasternodes vecToExclude protocolVersion nRand =
      .ok (checked, if sizeDifference nCountEnabled vecToExclude.length = 0 then none
        else (candidates (orMinimum protocolVersion) vecToExclude checked 0)[(drawInt nRand
          (wrap32 (sizeDifference nCountEnabled vecToExclude.length)) - 1).toNat]?) := by
  rw [findRandomNotInVec, hCount, ok_bind]
  simp only [Nat.lt_one_iff, findRandomLoop_eq]
  split_ifs <;> rfl

theorem candidates_eq_nil :
    candidates protocolVersion vecToExclude checked 0 = [] ↔
      ∀ mn ∈ checked, isCandidate protocolVersion vecToExclude mn = false := by
  rw [List.eq_nil_iff_forall_not_mem]
  constructor
  · intro h mn hMem
    obtain ⟨i, hAt⟩ := List.mem_iff_getElem?.mp hMem
    by_contra hCandidate
    exact h i (mem_candidates.mpr ⟨mn, hAt, Bool.not_eq_false _ ▸ hCandidate⟩)
  · intro h i hMem
    obtain ⟨mn, hAt, hCandidate⟩ := mem_candidates.mp hMem
    rw [h mn (List.mem_of_getElem? hAt)] at hCandidate
    cases hCandidate

/-- Zero is the only number if it is the largest one. -/
theorem Drawn.eq_zero
    (h : Drawn nCountEnabled nExcluded rand) (hLargest : largestDraw nCountEnabled nExcluded = 0) :
    rand = 0 := by
  have hLe := h.le
  obtain ⟨nRand, hRand⟩ := h
  unfold largestDraw at hLargest
  generalize hMax : wrap32 (sizeDifference nCountEnabled nExcluded) = nMax at hRand hLargest
  have hUpper : nMax ≤ 2 ^ 31 - 1 := hMax ▸ wrap32_lt _
  dsimp only at hLargest
  by_cases hNeg : nMax < 0
  · rw [if_pos hNeg] at hLargest
    norm_num at hLargest
  · rw [if_neg hNeg] at hLargest
    have hOne : nMax ≤ 1 := by
      have hLeft := le_max_left (nMax - 1) 0
      omega
    have hDraw : getRandInt nRand (nMax % 2 ^ 64).toNat = 0 := by
      rw [Int.emod_eq_of_lt (by omega) (by omega)]
      unfold getRandInt
      split_ifs with hZero
      · rfl
      · have hSingle : nMax.toNat = 1 := by omega
        rw [hSingle, Nat.mod_one]
    rw [hRand, drawInt, hDraw]
    rfl

/-- A draw that may come out has a result exactly if the candidates reach that far. -/
theorem select_isSome
    {vMasternodes : List CMasternode} (h : candidates protocolVersion vecToExclude
      vMasternodes 0 ≠ []) :
    (candidates protocolVersion vecToExclude vMasternodes 0)[(rand - 1).toNat]? ≠ none ↔
      rand ≤ (candidates protocolVersion vecToExclude vMasternodes 0).length := by
  have hPos := List.length_pos_of_ne_nil h
  rw [Ne, List.getElem?_eq_none_iff]
  omega

/-- With candidates there is a result for each draw exactly if the numbers differ and the
largest draw is no larger than the number of candidates. -/
theorem found_iff
    (hCount : countEnabled env st vMasternodes (orMinimum protocolVersion) =
      .ok (checked, nCountEnabled))
    (hSome : candidates (orMinimum protocolVersion) vecToExclude checked 0 ≠ []) :
    (∀ nRand, ∃ i, findRandomNotInVec env st vMasternodes vecToExclude protocolVersion nRand =
      .ok (checked, some i)) ↔
      sizeDifference nCountEnabled vecToExclude.length ≠ 0 ∧
        largestDraw nCountEnabled vecToExclude.length ≤
          (candidates (orMinimum protocolVersion) vecToExclude checked 0).length := by
  constructor
  · intro h
    have hDifference : sizeDifference nCountEnabled vecToExclude.length ≠ 0 := by
      intro hZero
      obtain ⟨i, hFound⟩ := h 0
      rw [findRandomNotInVec_eq hCount, if_pos hZero] at hFound
      cases hFound
    refine ⟨hDifference, ?_⟩
    obtain ⟨nRand, hRand⟩ := drawn_of_le (largestDraw_nonneg _ _)
      (le_refl (largestDraw nCountEnabled vecToExclude.length))
    obtain ⟨i, hFound⟩ := h nRand
    rw [findRandomNotInVec_eq hCount, if_neg hDifference, ← hRand, Except.ok.injEq,
      Prod.mk.injEq] at hFound
    rw [← select_isSome hSome, hFound.2]
    simp
  · rintro ⟨hDifference, hLargest⟩ nRand
    have hDrawn : Drawn nCountEnabled vecToExclude.length (drawInt nRand
        (wrap32 (sizeDifference nCountEnabled vecToExclude.length))) := ⟨nRand, rfl⟩
    have hIs := (select_isSome hSome).mpr (hDrawn.le.trans hLargest)
    obtain ⟨i, hAt⟩ := Option.ne_none_iff_exists'.mp hIs
    exact ⟨i, by rw [findRandomNotInVec_eq hCount, if_neg hDifference, hAt]⟩

/-- Each candidate is the result of one draw exactly if there is one candidate and zero is the
only draw. -/
theorem fair_iff
    (hSome : candidates protocolVersion vecToExclude checked 0 ≠ []) :
    (∀ i ∈ candidates protocolVersion vecToExclude checked 0,
      ∃! rand, Drawn nCountEnabled nExcluded rand ∧
        findRandomLoop protocolVersion vecToExclude checked 0 rand = some i) ↔
      largestDraw nCountEnabled nExcluded = 0 ∧
        (candidates protocolVersion vecToExclude checked 0).length = 1 := by
  have hPos := List.length_pos_of_ne_nil hSome
  simp only [findRandomLoop_eq]
  constructor
  · intro h
    -- zero and one select the first candidate
    obtain ⟨rand, -, hUnique⟩ := h _ (List.getElem_mem hPos)
    have hFirst : ∀ r : ℤ, 0 ≤ r → r ≤ 1 →
        (candidates protocolVersion vecToExclude checked 0)[(r - 1).toNat]? =
          some (candidates protocolVersion vecToExclude checked 0)[0] := by
      intro r _ hLe
      have hZero : (r - 1).toNat = 0 := by omega
      rw [hZero, List.getElem?_eq_getElem hPos]
    have hLargest : largestDraw nCountEnabled nExcluded = 0 := by
      by_contra hNe
      have hNonneg := largestDraw_nonneg nCountEnabled nExcluded
      have hZero := hUnique 0 ⟨drawn_of_le le_rfl (by omega), hFirst 0 (by norm_num) (by norm_num)⟩
      have hOne := hUnique 1 ⟨drawn_of_le (by norm_num) (by omega),
        hFirst 1 (by norm_num) (by norm_num)⟩
      omega
    refine ⟨hLargest, ?_⟩
    by_contra hNe
    -- no draw reaches the second candidate
    have hTwo : 1 < (candidates protocolVersion vecToExclude checked 0).length := by omega
    obtain ⟨second, ⟨hDrawn, hAt⟩, -⟩ := h _ (List.getElem_mem hTwo)
    rw [hDrawn.eq_zero hLargest, ← List.getElem?_eq_getElem hTwo] at hAt
    have hSame := (List.getElem?_inj hPos (nodup_candidates checked)).mp hAt
    cases hSame
  · rintro ⟨hLargest, hOne⟩ i hMem
    obtain ⟨only, hOnly⟩ := List.length_eq_one_iff.mp hOne
    rw [hOnly, List.mem_singleton] at hMem
    refine ⟨0, ⟨drawn_of_le le_rfl hLargest.ge, ?_⟩, ?_⟩
    · rw [hOnly, hMem]
      rfl
    · intro rand hRand
      exact hRand.1.eq_zero hLargest

/-- The choice is fair exactly if there is no candidate, or the numbers of enabled masternodes
and of excluded inputs differ, no draw is larger than the number of candidates, and, where the
excluded inputs are distinct ones of enabled masternodes, one candidate is left and zero is the
only draw. -/
theorem selectsFairly_iff
    (hCount : countEnabled env st vMasternodes (orMinimum protocolVersion) =
      .ok (checked, nCountEnabled)) :
    SelectsFairly env st vMasternodes vecToExclude protocolVersion checked nCountEnabled ↔
      candidates (orMinimum protocolVersion) vecToExclude checked 0 = [] ∨
        (sizeDifference nCountEnabled vecToExclude.length ≠ 0 ∧
          largestDraw nCountEnabled vecToExclude.length ≤
            (candidates (orMinimum protocolVersion) vecToExclude checked 0).length ∧
          (ExcludesListed (orMinimum protocolVersion) vecToExclude checked →
            largestDraw nCountEnabled vecToExclude.length = 0 ∧
              (candidates (orMinimum protocolVersion) vecToExclude checked 0).length = 1)) := by
  by_cases hNone : candidates (orMinimum protocolVersion) vecToExclude checked 0 = []
  · refine ⟨fun _ => Or.inl hNone, fun _ => ?_⟩
    have hNo := candidates_eq_nil.mp hNone
    constructor
    · intro nRand
      refine ⟨none, ?_, iff_of_true rfl hNo, fun i h => by cases h⟩
      rw [findRandomNotInVec_eq hCount, hNone, List.getElem?_nil, ite_self]
    · intro _ i mn hAt hCandidate
      rw [hNo mn (List.mem_of_getElem? hAt)] at hCandidate
      cases hCandidate
  · have hFair : (∀ i ∈ candidates (orMinimum protocolVersion) vecToExclude checked 0,
        ∃! rand, Drawn nCountEnabled vecToExclude.length rand ∧
          findRandomLoop (orMinimum protocolVersion) vecToExclude checked 0 rand = some i) ↔ _ :=
      fair_iff hNone
    constructor
    · intro h
      have hFound := (found_iff hCount hNone).mp fun nRand => by
        obtain ⟨found, hRun, hIff, -⟩ := h.found nRand
        cases found with
        | none => exact absurd (candidates_eq_nil.mpr (hIff.mp rfl)) hNone
        | some i => exact ⟨i, hRun⟩
      refine Or.inr ⟨hFound.1, hFound.2, fun hListed => hFair.mp ?_⟩
      intro i hMem
      obtain ⟨mn, hAt, hCandidate⟩ := mem_candidates.mp hMem
      exact h.fair hListed i mn hAt hCandidate
    · rintro (hEmpty | ⟨hDifference, hLargest, hOne⟩)
      · exact absurd hEmpty hNone
      · constructor
        · intro nRand
          obtain ⟨i, hRun⟩ := (found_iff hCount hNone).mpr ⟨hDifference, hLargest⟩ nRand
          refine ⟨some i, hRun, iff_of_false (by simp) (mt candidates_eq_nil.mpr hNone), ?_⟩
          rintro j hSame
          rw [findRandomNotInVec_eq hCount, if_neg hDifference, Except.ok.injEq,
            Prod.mk.injEq, hSame] at hRun
          exact mem_candidates.mp (List.mem_of_getElem? hRun.2)
        · intro hListed i mn hAt hCandidate
          exact hFair.mpr (hOne hListed) i (mem_candidates.mpr ⟨mn, hAt, hCandidate⟩)

end Fairness

end CMasternodeMan

/-! ## Two masternodes -/

namespace Sample

open CMasternodeMan

def otherMasternode : CMasternode :=
  { masternodeSeen 900 true with vin := ⟨⟨8, 0⟩, [], UINT_MAX⟩ }

theorem countEnabled_two :
    countEnabled (masternodeEnv 900) (nodeWith []) [masternodeSeen 900 true, otherMasternode]
      (orMinimum (-1)) = .ok ([masternodeSeen 900 true, otherMasternode], 2) := by
  decide +kernel

/-- The second of two masternodes is never chosen. -/
theorem lastMasternode_never_chosen :
    ¬∀ (env : MasternodeEnv) (st : ChainState) (vMasternodes : List CMasternode)
      (vecToExclude : List CTxIn) (protocolVersion : ℤ) (checked : List CMasternode)
      (nCountEnabled : ℕ),
      countEnabled env st vMasternodes (orMinimum protocolVersion) =
        .ok (checked, nCountEnabled) →
      SelectsFairly env st vMasternodes vecToExclude protocolVersion checked nCountEnabled := by
  intro h
  have hListed : ExcludesListed (orMinimum (-1)) [] [masternodeSeen 900 true, otherMasternode] :=
    ⟨List.nodup_nil, fun vin hMem => absurd hMem List.not_mem_nil⟩
  have hTwo := (h _ _ _ [] (-1) _ _ countEnabled_two).fair hListed 1 otherMasternode rfl
    (by decide +kernel)
  obtain ⟨rand, ⟨hDrawn, hLoop⟩, -⟩ := hTwo
  have hLargest : largestDraw 2 0 = 1 := by decide +kernel
  have hLe : rand ≤ 1 := hLargest ▸ hDrawn.le
  have hFirst : (rand - 1).toNat = 0 := by omega
  rw [findRandomLoop_eq, hFirst] at hLoop
  have hZero : (candidates (orMinimum (-1)) [] [masternodeSeen 900 true, otherMasternode] 0)[0]? =
      some 0 := by decide +kernel
  rw [hZero] at hLoop
  cases hLoop

/-- With the other one excluded, the choice is fair. -/
theorem onlyMasternode_chosen :
    SelectsFairly (masternodeEnv 900) (nodeWith []) [masternodeSeen 900 true, otherMasternode]
      [otherMasternode.vin] (-1) [masternodeSeen 900 true, otherMasternode] 2 :=
  (selectsFairly_iff countEnabled_two).mpr
    (Or.inr ⟨by decide +kernel, by decide +kernel, fun _ => by decide +kernel⟩)

end Sample

end SocietyGold
