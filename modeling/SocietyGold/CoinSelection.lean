import SocietyGold.AddressGroupings

/-!
# Coin selection

`SelectCoinsMinConf` looks for outputs whose values reach a target.  It takes an exact hit, all
smaller outputs, the smallest larger one or the best subset that it comes across.  The loop that
is to try denominated outputs only after the others ends in its first round.
-/

namespace SocietyGold

open Support

/-- What the transactions of the coins say: the value of an output, `nTime` and `IsFromMe`. -/
structure CoinFacts where
  valueOf : COutPoint → ℤ
  nTime : COutPoint → ℕ
  isFromMe : COutPoint → Bool

/-- `pair<int64_t, pair<const CWalletTx*, unsigned int> >`. -/
abbrev ValuedCoin := ℤ × COutPoint

/-- What a selection returns. -/
structure Selection where
  success : Bool
  setCoinsRet : List COutPoint
  nValueRet : ℤ
  deriving DecidableEq, Repr

/-! ## The best subset -/

/-- The variables of `ApproximateBestSubset`. -/
structure SubsetSearch where
  vfIncluded : List Bool
  nTotal : ℤ
  fReachedTarget : Bool
  vfBest : List Bool
  nBest : ℤ
  deriving DecidableEq, Repr

section BestSubset

variable (vValue : List ℤ) (nTargetValue : ℤ)

namespace SubsetSearch

/-- A round of the inner loop; in the first pass every coin is included. -/
def consider (nPass : ℕ) (s : SubsetSearch) (i : ℕ) : SubsetSearch :=
  if nPass = 0 ∨ s.vfIncluded.getD i false = false then
    let nTotal := s.nTotal + vValue.getD i 0
    let vfIncluded := s.vfIncluded.set i true
    if nTargetValue ≤ nTotal then
      { vfIncluded := vfIncluded.set i false
        nTotal := nTotal - vValue.getD i 0
        fReachedTarget := true
        vfBest := if nTotal < s.nBest then vfIncluded else s.vfBest
        nBest := if nTotal < s.nBest then nTotal else s.nBest }
    else { s with vfIncluded := vfIncluded, nTotal := nTotal }
  else s

/-- A pass over the coins, if the target is not reached yet. -/
def pass (s : SubsetSearch) (nPass : ℕ) : SubsetSearch :=
  if s.fReachedTarget then s
  else (List.range vValue.length).foldl (consider vValue nTargetValue nPass) s

/-- A repetition. -/
def repetition (s : SubsetSearch) : SubsetSearch :=
  [0, 1].foldl (pass vValue nTargetValue)
    { s with
      vfIncluded := List.replicate vValue.length false
      nTotal := 0
      fReachedTarget := false }

/-- The loop over the repetitions. -/
def repeated : (iterations : ℕ) → SubsetSearch → SubsetSearch
  | 0, s => s
  | iterations + 1, s =>
      if s.nBest = nTargetValue then s
      else repeated iterations (s.repetition vValue nTargetValue)

end SubsetSearch

/-- `ApproximateBestSubset`: `vfBest` and `nBest`. -/
def approximateBestSubset (nTotalLower : ℤ) (iterations : ℕ) : List Bool × ℤ :=
  let s := SubsetSearch.repeated vValue nTargetValue iterations
    ⟨[], 0, false, List.replicate vValue.length true, nTotalLower⟩
  (s.vfBest, s.nBest)

end BestSubset

/-! ## The selection -/

/-- What `random_shuffle` does. -/
structure Shuffle where
  apply : List COutput → List COutput
  perm : ∀ vCoins, (apply vCoins).Perm vCoins

/-- `less_then_denom`. -/
def lessThenDenom (facts : CoinFacts) (out1 out2 : COutput) : Bool :=
  facts.valueOf out1.outpoint ∉ darkSendDenominations &&
    facts.valueOf out2.outpoint ∈ darkSendDenominations

/-- What the loop over the coins returns or leaves. -/
inductive CoinScan
  | hit (coin : ValuedCoin)
  | scanned (vValue : List ValuedCoin) (nTotalLower : ℤ) (coinLowestLarger : Option ValuedCoin)

/-- The value of `coinLowestLarger`. -/
def lowestLargerValue (coinLowestLarger : Option ValuedCoin) : ℤ :=
  coinLowestLarger.elim (2 ^ 63 - 1) Prod.fst

section MinConf

variable (facts : CoinFacts) (nTargetValue : ℤ) (nSpendTime : ℕ) (nConfMine nConfTheirs : ℤ)
  (before : COutPoint → COutPoint → Bool)

/-- The coin can be spent, is deep enough and is not too late. -/
def isEligible (output : COutput) : Bool :=
  output.fSpendable &&
    !decide (output.nDepth < if facts.isFromMe output.outpoint then nConfMine else nConfTheirs) &&
    !decide (facts.nTime output.outpoint > nSpendTime)

/-- The loop over the coins. -/
def scanCoins (tryDenom : ℕ) : List COutput → (vValue : List ValuedCoin) → (nTotalLower : ℤ) →
    (coinLowestLarger : Option ValuedCoin) → CoinScan
  | [], vValue, nTotalLower, coinLowestLarger => .scanned vValue nTotalLower coinLowestLarger
  | output :: vCoins, vValue, nTotalLower, coinLowestLarger =>
      let n := facts.valueOf output.outpoint
      if !isEligible facts nSpendTime nConfMine nConfTheirs output ||
          (tryDenom = 0 && n ∈ darkSendDenominations) then
        scanCoins tryDenom vCoins vValue nTotalLower coinLowestLarger
      else if n = nTargetValue then .hit (n, output.outpoint)
      else if n < nTargetValue + CENT then
        scanCoins tryDenom vCoins (vValue ++ [(n, output.outpoint)]) (nTotalLower + n)
          coinLowestLarger
      else if n < lowestLargerValue coinLowestLarger then
        scanCoins tryDenom vCoins vValue nTotalLower (some (n, output.outpoint))
      else scanCoins tryDenom vCoins vValue nTotalLower coinLowestLarger

/-- Coins are added to the selection. -/
def selected (coins : List ValuedCoin) : Selection where
  success := true
  setCoinsRet := setInsertAll before (coins.map Prod.snd) []
  nValueRet := (coins.map Prod.fst).sum

/-- The coins that are marked. -/
def markedCoins (vValue : List ValuedCoin) (vfBest : List Bool) : List ValuedCoin :=
  ((vValue.zip vfBest).filter Prod.snd).map Prod.fst

/-- The end of the function: solve the subset sum, or take the larger coin. -/
def selectSubset (vValue : List ValuedCoin) (nTotalLower : ℤ)
    (coinLowestLarger : Option ValuedCoin) : Selection :=
  let vValue := vValue.insertionSort fun a b => b.1 ≤ a.1
  let best := approximateBestSubset (vValue.map Prod.fst) nTargetValue nTotalLower 1000
  let best :=
    if best.2 ≠ nTargetValue ∧ nTotalLower ≥ nTargetValue + CENT then
      approximateBestSubset (vValue.map Prod.fst) (nTargetValue + CENT) nTotalLower 1000
    else best
  match coinLowestLarger with
  | some coin =>
      if (best.2 ≠ nTargetValue ∧ best.2 < nTargetValue + CENT) ∨ coin.1 ≤ best.2 then
        selected before [coin]
      else selected before (markedCoins vValue best.1)
  | none => selected before (markedCoins vValue best.1)

/-- A round of the loop over `tryDenom`, which returns in any case. -/
def selectRound (vCoins : List COutput) (coinLowestLarger : Option ValuedCoin) (tryDenom : ℕ) :
    Checked (Flow Selection (Option ValuedCoin)) :=
  match scanCoins facts nTargetValue nSpendTime nConfMine nConfTheirs tryDenom vCoins [] 0
      coinLowestLarger with
  | .hit coin => .ok (.returned (selected before [coin]))
  | .scanned vValue nTotalLower coinLowestLarger =>
      if nTotalLower = nTargetValue then .ok (.returned (selected before vValue))
      else if nTotalLower < nTargetValue then
        match coinLowestLarger with
        | none => .ok (.returned ⟨false, [], 0⟩)
        | some coin => .ok (.returned (selected before [coin]))
      else
        .ok (.returned (selectSubset nTargetValue before vValue nTotalLower coinLowestLarger))

/-- `SelectCoinsMinConf`, for the order that `random_shuffle` makes. -/
def selectCoinsMinConf (shuffle : Shuffle) (vCoins : List COutput) : Checked Selection := do
  let vCoins := (shuffle.apply vCoins).insertionSort fun out1 out2 =>
    lessThenDenom facts out2 out1 = false
  let flow ← forEach (selectRound facts nTargetValue nSpendTime nConfMine nConfTheirs before vCoins)
    [0, 1] none
  match flow with
  | .returned selection => return selection
  | .next _ => return ⟨false, [], 0⟩

end MinConf

/-! ## What the search for a subset keeps -/

/-- The sum of the marked values. -/
def markedSum (vValue : List ℤ) (flags : List Bool) : ℤ :=
  (((vValue.zip flags).filter Prod.snd).map Prod.fst).sum

theorem markedSum_set_true
    {vValue : List ℤ} {flags : List Bool} {i : ℕ} (hLength : flags.length = vValue.length)
    (hi : i < vValue.length) (hFalse : flags.getD i false = false) :
    markedSum vValue (flags.set i true) = markedSum vValue flags + vValue.getD i 0 := by
  induction vValue generalizing flags i with
  | nil => exact absurd hi (Nat.not_lt_zero i)
  | cons v vValue ih =>
      cases flags with
      | nil => cases hLength
      | cons f flags =>
          have hRest : flags.length = vValue.length := Nat.succ.inj hLength
          cases i with
          | zero =>
              obtain rfl : f = false := hFalse
              simp [markedSum, add_comm]
          | succ i =>
              have ih := ih hRest (Nat.lt_of_succ_lt_succ hi) hFalse
              cases f with
              | false => simpa [markedSum] using ih
              | true =>
                  have hSum : ∀ fs, markedSum (v :: vValue) (true :: fs) =
                      v + markedSum vValue fs := by
                    intro fs
                    simp [markedSum]
                  rw [List.set_cons_succ, hSum, hSum, ih, List.getD_cons_succ, add_assoc]

theorem markedSum_replicate_true (vValue : List ℤ) :
    markedSum vValue (List.replicate vValue.length true) = vValue.sum := by
  induction vValue with
  | nil => rfl
  | cons v vValue ih => simpa [markedSum, List.replicate_succ] using ih

theorem markedSum_replicate_false (vValue : List ℤ) :
    markedSum vValue (List.replicate vValue.length false) = 0 := by
  induction vValue with
  | nil => rfl
  | cons v vValue ih => simpa [markedSum, List.replicate_succ] using ih

theorem set_self_of_getD_false {flags : List Bool} {i : ℕ} (hFalse : flags.getD i false = false) :
    flags.set i false = flags := by
  by_cases hi : i < flags.length
  · rw [List.getD_eq_getElem _ _ hi] at hFalse
    rw [← hFalse, List.set_getElem_self]
  · rw [List.set_eq_of_length_le (not_lt.mp hi)]

namespace SubsetSearch

variable {vValue : List ℤ} {nTargetValue : ℤ} {s : SubsetSearch}

/-- The best subset has the value `nBest`, which is enough. -/
structure HasBest (vValue : List ℤ) (nTargetValue : ℤ) (s : SubsetSearch) : Prop where
  length : s.vfBest.length = vValue.length
  sum : s.nBest = markedSum vValue s.vfBest
  enough : nTargetValue ≤ s.nBest

/-- Besides, `nTotal` is the value of what is included. -/
structure Sound (vValue : List ℤ) (nTargetValue : ℤ) (s : SubsetSearch) : Prop where
  best : s.HasBest vValue nTargetValue
  length : s.vfIncluded.length = vValue.length
  sum : s.nTotal = markedSum vValue s.vfIncluded

theorem consider_included
    {nPass i j : ℕ} (hNe : j ≠ i) :
    (s.consider vValue nTargetValue nPass i).vfIncluded.getD j false =
      s.vfIncluded.getD j false := by
  have hSet : ∀ (flags : List Bool) (b : Bool),
      (flags.set i b).getD j false = flags.getD j false := by
    intro flags b
    rw [List.getD_eq_getElem?_getD, List.getElem?_set_ne hNe.symm, List.getD_eq_getElem?_getD]
  unfold consider
  by_cases hInclude : nPass = 0 ∨ s.vfIncluded.getD i false = false
  · rw [if_pos hInclude]
    by_cases hReached : nTargetValue ≤ s.nTotal + vValue.getD i 0
    · rw [if_pos hReached, hSet, hSet]
    · rw [if_neg hReached, hSet]
  · rw [if_neg hInclude]

theorem Sound.consider
    {nPass i : ℕ} (h : s.Sound vValue nTargetValue) (hi : i < vValue.length)
    (hFirst : nPass = 0 → s.vfIncluded.getD i false = false) :
    (s.consider vValue nTargetValue nPass i).Sound vValue nTargetValue := by
  unfold SubsetSearch.consider
  by_cases hInclude : nPass = 0 ∨ s.vfIncluded.getD i false = false
  · have hFalse : s.vfIncluded.getD i false = false := hInclude.elim hFirst id
    have hTotal := markedSum_set_true h.length hi hFalse
    rw [if_pos hInclude]
    by_cases hReached : nTargetValue ≤ s.nTotal + vValue.getD i 0
    · have hBack : (s.vfIncluded.set i true).set i false = s.vfIncluded := by
        rw [List.set_set, set_self_of_getD_false hFalse]
      rw [if_pos hReached]
      refine ⟨⟨?_, ?_, ?_⟩, ?_, ?_⟩
      · dsimp only
        split_ifs
        · rw [List.length_set, h.length]
        · exact h.best.length
      · dsimp only
        split_ifs
        · rw [hTotal, h.sum]
        · exact h.best.sum
      · dsimp only
        split_ifs
        · exact hReached
        · exact h.best.enough
      · dsimp only
        rw [hBack, h.length]
      · dsimp only
        rw [hBack, ← h.sum]
        ring
    · rw [if_neg hReached]
      refine ⟨⟨h.best.length, h.best.sum, h.best.enough⟩, ?_, ?_⟩
      · dsimp only
        rw [List.length_set, h.length]
      · dsimp only
        rw [hTotal, h.sum]
  · rw [if_neg hInclude]
    exact h

theorem Sound.foldl_consider
    {nPass : ℕ} {is : List ℕ} (h : s.Sound vValue nTargetValue) (hNodup : is.Nodup)
    (hInside : ∀ i ∈ is, i < vValue.length)
    (hFirst : nPass = 0 → ∀ i ∈ is, s.vfIncluded.getD i false = false) :
    (is.foldl (SubsetSearch.consider vValue nTargetValue nPass) s).Sound vValue nTargetValue := by
  induction is generalizing s with
  | nil => exact h
  | cons i is ih =>
      obtain ⟨hNew, hRest⟩ := List.nodup_cons.mp hNodup
      apply ih (h.consider (hInside i List.mem_cons_self) fun h0 => hFirst h0 i List.mem_cons_self)
        hRest fun j hj => hInside j (List.mem_cons_of_mem i hj)
      intro h0 j hj
      rw [consider_included]
      · exact hFirst h0 j (List.mem_cons_of_mem i hj)
      · rintro rfl
        exact hNew hj

theorem Sound.pass
    (h : s.Sound vValue nTargetValue) (nPass : ℕ)
    (hFirst : nPass = 0 → ∀ i, s.vfIncluded.getD i false = false) :
    (s.pass vValue nTargetValue nPass).Sound vValue nTargetValue := by
  unfold SubsetSearch.pass
  split_ifs
  · exact h
  · exact h.foldl_consider List.nodup_range (fun i hi => List.mem_range.mp hi)
      fun h0 i _ => hFirst h0 i

/-- A repetition starts without any coin. -/
theorem HasBest.repetition (h : s.HasBest vValue nTargetValue) :
    (s.repetition vValue nTargetValue).HasBest vValue nTargetValue := by
  have hStart : Sound vValue nTargetValue
      { s with
        vfIncluded := List.replicate vValue.length false
        nTotal := 0
        fReachedTarget := false } :=
    ⟨⟨h.length, h.sum, h.enough⟩, List.length_replicate, (markedSum_replicate_false vValue).symm⟩
  have hOne := hStart.pass 0 fun _ i => by simp [List.getD_eq_getElem?_getD]
  exact (hOne.pass 1 fun h0 => absurd h0 one_ne_zero).best

theorem HasBest.repeated (h : s.HasBest vValue nTargetValue) (iterations : ℕ) :
    (s.repeated vValue nTargetValue iterations).HasBest vValue nTargetValue := by
  induction iterations generalizing s with
  | zero => exact h
  | succ iterations ih =>
      unfold SubsetSearch.repeated
      split_ifs
      · exact h
      · exact ih h.repetition

end SubsetSearch

/-- The subset that is found has the value that is reported, which is enough. -/
theorem approximateBestSubset_spec
    {vValue : List ℤ} {nTargetValue nTotalLower : ℤ} (iterations : ℕ)
    (hSum : nTotalLower = vValue.sum) (hEnough : nTargetValue ≤ nTotalLower) :
    (approximateBestSubset vValue nTargetValue nTotalLower iterations).2 =
        markedSum vValue (approximateBestSubset vValue nTargetValue nTotalLower iterations).1 ∧
      nTargetValue ≤ (approximateBestSubset vValue nTargetValue nTotalLower iterations).2 := by
  have hStart : SubsetSearch.HasBest vValue nTargetValue
      ⟨[], 0, false, List.replicate vValue.length true, nTotalLower⟩ :=
    ⟨List.length_replicate, by rw [markedSum_replicate_true, hSum], hEnough⟩
  have hBest := hStart.repeated iterations
  exact ⟨hBest.sum, hBest.enough⟩

/-! ## What a selection has to be -/

section Exact

variable (facts : CoinFacts) (nTargetValue : ℤ) (nSpendTime : ℕ) (nConfMine nConfTheirs : ℤ)

/-- The spendable coins that meet the depth and time conditions. -/
def eligibleCoins (vCoins : List COutput) : List COutput :=
  vCoins.filter (isEligible facts nSpendTime nConfMine nConfTheirs)

/-- The sum of the values of coins. -/
def valueSum (coins : List COutput) : ℤ :=
  (coins.map fun output => facts.valueOf output.outpoint).sum

/-- The coin has no denominated value, and not the greatest value that there is, unless the target
is as great. -/
def countsFirst (output : COutput) : Bool :=
  facts.valueOf output.outpoint ∉ darkSendDenominations &&
    (facts.valueOf output.outpoint < nTargetValue + CENT ||
      facts.valueOf output.outpoint < 2 ^ 63 - 1)

/-- The selection has some of the coins, with the value that is reported, which is enough. -/
structure SelectsFrom (coins : List COutput) (selection : Selection) : Prop where
  subset : ∀ o ∈ selection.setCoinsRet, ∃ output ∈ coins, output.outpoint = o
  nodup : selection.setCoinsRet.Nodup
  sum : selection.nValueRet = (selection.setCoinsRet.map facts.valueOf).sum
  enough : nTargetValue ≤ selection.nValueRet

end Exact

section Selecting

variable {facts : CoinFacts} {nTargetValue : ℤ} {nSpendTime : ℕ} {nConfMine nConfTheirs : ℤ}
  {before : COutPoint → COutPoint → Bool} {vCoins : List COutput}

theorem setInsertAll_perm
    {elements s : List COutPoint} (hNodup : elements.Nodup) (hApart : ∀ o ∈ elements, o ∉ s) :
    (setInsertAll before elements s).Perm (elements ++ s) := by
  induction elements generalizing s with
  | nil => exact List.Perm.refl s
  | cons o elements ih =>
      obtain ⟨hNew, hRest⟩ := List.nodup_cons.mp hNodup
      have hInsert : (setInsert before o s).Perm (o :: s) := by
        unfold setInsert
        rw [if_neg (hApart o List.mem_cons_self)]
        exact List.perm_orderedInsert _ o s
      have hApart' : ∀ o' ∈ elements, o' ∉ setInsert before o s := by
        intro o' ho'
        rw [mem_setInsert, not_or]
        refine ⟨?_, hApart o' (List.mem_cons_of_mem o ho')⟩
        rintro rfl
        exact hNew ho'
      have hAll := ih hRest hApart'
      exact hAll.trans ((List.Perm.append_left elements hInsert).trans List.perm_middle)

/-- Coins of the list, with their values. -/
def valued (facts : CoinFacts) (coins : List COutput) : List ValuedCoin :=
  coins.map fun output => (facts.valueOf output.outpoint, output.outpoint)

theorem sum_valued (coins : List COutput) :
    ((valued facts coins).map Prod.fst).sum = valueSum facts coins := by
  unfold valued valueSum
  rw [List.map_map]
  rfl

/-- A selection of distinct coins is one as it has to be, if their values are enough. -/
theorem selected_selectsFrom
    {coins : List COutput} {chosen : List ValuedCoin}
    (hDistinct : (coins.map COutput.outpoint).Nodup)
    (hChosen : chosen.Subperm (valued facts coins))
    (hEnough : nTargetValue ≤ (chosen.map Prod.fst).sum) :
    SelectsFrom facts nTargetValue coins (selected before chosen) := by
  have hOutpoints : (valued facts coins).map Prod.snd = coins.map COutput.outpoint := by
    unfold valued
    rw [List.map_map]
    rfl
  have hNodup : (chosen.map Prod.snd).Nodup := by
    obtain ⟨l, hPerm, hSub⟩ := hChosen
    rw [(hPerm.map Prod.snd).nodup_iff.symm]
    refine List.Nodup.sublist (hSub.map Prod.snd) ?_
    rw [hOutpoints]
    exact hDistinct
  have hPerm : (setInsertAll before (chosen.map Prod.snd) []).Perm (chosen.map Prod.snd) := by
    have hAll := @setInsertAll_perm before _ [] hNodup fun o _ => List.not_mem_nil
    rwa [List.append_nil] at hAll
  refine ⟨?_, hPerm.nodup_iff.mpr hNodup, ?_, hEnough⟩
  · intro o ho
    obtain ⟨coin, hCoin, rfl⟩ := List.mem_map.mp (hPerm.mem_iff.mp ho)
    obtain ⟨output, hOutput, rfl⟩ := List.mem_map.mp (hChosen.subset hCoin)
    exact ⟨output, hOutput, rfl⟩
  · have hValues : (chosen.map Prod.snd).map facts.valueOf = chosen.map Prod.fst := by
      rw [List.map_map]
      apply List.map_congr_left
      intro coin hCoin
      obtain ⟨output, _, rfl⟩ := List.mem_map.mp (hChosen.subset hCoin)
      rfl
    have hSum := (hPerm.map facts.valueOf).sum_eq
    rw [hValues] at hSum
    exact hSum.symm

/-! ## The loop over the coins -/

/-- What the loop over these coins returns or leaves. -/
def ScanResult (nTargetValue : ℤ) (coins : List ValuedCoin) (vValue : List ValuedCoin)
    (nTotalLower : ℤ) (coinLowestLarger : Option ValuedCoin) : CoinScan → Prop
  | .hit coin => coin ∈ coins ∧ coin.1 = nTargetValue
  | .scanned vValue' nTotalLower' coinLowestLarger' =>
      (∀ coin ∈ coins, coin.1 ≠ nTargetValue) ∧
      vValue' = vValue ++ coins.filter (fun coin => coin.1 < nTargetValue + CENT) ∧
      nTotalLower' = nTotalLower +
        ((coins.filter fun coin => coin.1 < nTargetValue + CENT).map Prod.fst).sum ∧
      (coinLowestLarger' = coinLowestLarger ∨ ∃ coin ∈ coins, coinLowestLarger' = some coin ∧
        nTargetValue + CENT ≤ coin.1 ∧ coin.1 < lowestLargerValue coinLowestLarger) ∧
      ∀ coin ∈ coins, nTargetValue + CENT ≤ coin.1 → lowestLargerValue coinLowestLarger' ≤ coin.1

namespace ScanResult

variable {coin : ValuedCoin} {coins vValue : List ValuedCoin} {nTotalLower : ℤ}
  {coinLowestLarger : Option ValuedCoin} {scan : CoinScan}

theorem cons_small
    (hNe : coin.1 ≠ nTargetValue) (hSmall : coin.1 < nTargetValue + CENT)
    (h : ScanResult nTargetValue coins (vValue ++ [coin]) (nTotalLower + coin.1) coinLowestLarger
      scan) :
    ScanResult nTargetValue (coin :: coins) vValue nTotalLower coinLowestLarger scan := by
  cases scan with
  | hit hit => exact ⟨List.mem_cons_of_mem coin h.1, h.2⟩
  | scanned vValue' nTotalLower' coinLowestLarger' =>
      obtain ⟨hOther, hValue, hTotal, hLarger, hLeast⟩ := h
      have hFilter : (coin :: coins).filter (fun coin => coin.1 < nTargetValue + CENT) =
          coin :: coins.filter (fun coin => coin.1 < nTargetValue + CENT) :=
        List.filter_cons_of_pos (by simpa using hSmall)
      refine ⟨?_, ?_, ?_, ?_, ?_⟩
      · rintro c (_ | ⟨_, hc⟩)
        · exact hNe
        · exact hOther c hc
      · rw [hValue, hFilter, List.append_assoc, List.singleton_append]
      · rw [hTotal, hFilter, List.map_cons, List.sum_cons, add_assoc]
      · rcases hLarger with hSame | ⟨c, hc, hRest⟩
        · exact Or.inl hSame
        · exact Or.inr ⟨c, List.mem_cons_of_mem coin hc, hRest⟩
      · rintro c (_ | ⟨_, hc⟩) hLarge
        · exact absurd hSmall (not_lt.mpr hLarge)
        · exact hLeast c hc hLarge

theorem cons_larger
    {coinLowestLarger' : Option ValuedCoin} (hTarget : 0 < CENT)
    (hLarge : nTargetValue + CENT ≤ coin.1)
    (hNext : (coinLowestLarger' = some coin ∧ coin.1 < lowestLargerValue coinLowestLarger) ∨
      (coinLowestLarger' = coinLowestLarger ∧ lowestLargerValue coinLowestLarger ≤ coin.1))
    (h : ScanResult nTargetValue coins vValue nTotalLower coinLowestLarger' scan) :
    ScanResult nTargetValue (coin :: coins) vValue nTotalLower coinLowestLarger scan := by
  have hNe : coin.1 ≠ nTargetValue := by omega
  cases scan with
  | hit hit => exact ⟨List.mem_cons_of_mem coin h.1, h.2⟩
  | scanned vValue' nTotalLower' last =>
      obtain ⟨hOther, hValue, hTotal, hLarger, hLeast⟩ := h
      have hFilter : (coin :: coins).filter (fun coin => coin.1 < nTargetValue + CENT) =
          coins.filter (fun coin => coin.1 < nTargetValue + CENT) :=
        List.filter_cons_of_neg (by simpa using hLarge)
      -- the lowest value does not rise
      have hLower : lowestLargerValue last ≤ lowestLargerValue coinLowestLarger' := by
        rcases hLarger with rfl | ⟨c, _, rfl, _, hc⟩
        · exact le_refl _
        · exact hc.le
      have hHead : lowestLargerValue last ≤ coin.1 := by
        rcases hNext with ⟨rfl, _⟩ | ⟨rfl, hNot⟩
        · exact hLower
        · exact hLower.trans hNot
      refine ⟨?_, ?_, ?_, ?_, ?_⟩
      · rintro c (_ | ⟨_, hc⟩)
        · exact hNe
        · exact hOther c hc
      · rw [hValue, hFilter]
      · rw [hTotal, hFilter]
      · rcases hNext with ⟨rfl, hLess⟩ | ⟨rfl, _⟩
        · rcases hLarger with rfl | ⟨c, hc, rfl, hcLarge, hcLess⟩
          · exact Or.inr ⟨coin, List.mem_cons_self, rfl, hLarge, hLess⟩
          · exact Or.inr ⟨c, List.mem_cons_of_mem coin hc, rfl, hcLarge, hcLess.trans hLess⟩
        · rcases hLarger with rfl | ⟨c, hc, hRest⟩
          · exact Or.inl rfl
          · exact Or.inr ⟨c, List.mem_cons_of_mem coin hc, hRest⟩
      · rintro c (_ | ⟨_, hc⟩) hcLarge
        · exact hHead
        · exact hLeast c hc hcLarge

end ScanResult

/-- The coins that a round of the loop over `tryDenom` looks at. -/
def triedCoins (facts : CoinFacts) (nSpendTime : ℕ) (nConfMine nConfTheirs : ℤ) (tryDenom : ℕ)
    (vCoins : List COutput) : List COutput :=
  (eligibleCoins facts nSpendTime nConfMine nConfTheirs vCoins).filter fun output =>
    !(tryDenom = 0 && decide (facts.valueOf output.outpoint ∈ darkSendDenominations))

theorem scanCoins_result
    {tryDenom : ℕ} {vValue : List ValuedCoin} {nTotalLower : ℤ}
    {coinLowestLarger : Option ValuedCoin} :
    ScanResult nTargetValue
      (valued facts (triedCoins facts nSpendTime nConfMine nConfTheirs tryDenom vCoins)) vValue
      nTotalLower coinLowestLarger
      (scanCoins facts nTargetValue nSpendTime nConfMine nConfTheirs tryDenom vCoins vValue
        nTotalLower coinLowestLarger) := by
  induction vCoins generalizing vValue nTotalLower coinLowestLarger with
  | nil =>
      refine ⟨by simp [valued, triedCoins, eligibleCoins], ?_, ?_, Or.inl rfl, ?_⟩
      · simp [valued, triedCoins, eligibleCoins]
      · simp [valued, triedCoins, eligibleCoins]
      · simp [valued, triedCoins, eligibleCoins]
  | cons output vCoins ih =>
      rw [scanCoins]
      by_cases hSkip : (!isEligible facts nSpendTime nConfMine nConfTheirs output ||
          (tryDenom = 0 && decide (facts.valueOf output.outpoint ∈ darkSendDenominations))) = true
      · have hTried : triedCoins facts nSpendTime nConfMine nConfTheirs tryDenom
            (output :: vCoins) =
            triedCoins facts nSpendTime nConfMine nConfTheirs tryDenom vCoins := by
          unfold triedCoins eligibleCoins
          rw [List.filter_filter, List.filter_filter, List.filter_cons_of_neg]
          intro hBoth
          rw [Bool.and_eq_true] at hBoth
          simp only [hBoth.2, Bool.not_true, Bool.false_or] at hSkip
          rw [hSkip] at hBoth
          cases hBoth.1
        rw [if_pos hSkip, hTried]
        exact ih
      · have hTried : triedCoins facts nSpendTime nConfMine nConfTheirs tryDenom
            (output :: vCoins) =
            output :: triedCoins facts nSpendTime nConfMine nConfTheirs tryDenom vCoins := by
          unfold triedCoins eligibleCoins
          rw [List.filter_filter, List.filter_filter, List.filter_cons_of_pos]
          rw [Bool.not_eq_true, Bool.or_eq_false_iff] at hSkip
          have hEligible : isEligible facts nSpendTime nConfMine nConfTheirs output = true := by
            simpa using hSkip.1
          rw [hSkip.2, hEligible]
          rfl
        rw [if_neg hSkip, hTried]
        split_ifs with hHit hSmall hLower
        · exact ⟨List.mem_cons_self, hHit⟩
        · exact ScanResult.cons_small hHit hSmall ih
        · exact ScanResult.cons_larger (by decide) (not_lt.mp hSmall) (Or.inl ⟨rfl, hLower⟩) ih
        · exact ScanResult.cons_larger (by decide) (not_lt.mp hSmall)
            (Or.inr ⟨rfl, not_lt.mp hLower⟩) ih

/-! ## A round of the loop over `tryDenom` -/

/-- The value of some coins is that of their sum, whatever the order. -/
theorem valueSum_perm {coins coins' : List COutput} (h : coins.Perm coins') :
    valueSum facts coins = valueSum facts coins' :=
  (h.map _).sum_eq

theorem le_sum_of_mem
    {coins : List ValuedCoin} (hPositive : ∀ coin ∈ coins, 0 < coin.1) {coin : ValuedCoin}
    (hMem : coin ∈ coins) : coin.1 ≤ (coins.map Prod.fst).sum := by
  have hNonneg : ∀ n ∈ coins.map Prod.fst, 0 ≤ n := by
    intro n hn
    obtain ⟨c, hc, rfl⟩ := List.mem_map.mp hn
    exact (hPositive c hc).le
  exact List.single_le_sum hNonneg _ (List.mem_map_of_mem hMem)

theorem markedCoins_sum (vValue : List ValuedCoin) (flags : List Bool) :
    ((markedCoins vValue flags).map Prod.fst).sum = markedSum (vValue.map Prod.fst) flags := by
  induction vValue generalizing flags with
  | nil => rfl
  | cons coin vValue ih =>
      cases flags with
      | nil => rfl
      | cons f flags =>
          have ih := ih flags
          unfold markedCoins markedSum at ih ⊢
          cases f with
          | false => simpa using ih
          | true => simpa using ih

theorem markedCoins_sublist (vValue : List ValuedCoin) (flags : List Bool) :
    (markedCoins vValue flags).Sublist vValue := by
  induction vValue generalizing flags with
  | nil => exact List.Sublist.refl []
  | cons coin vValue ih =>
      cases flags with
      | nil => exact List.nil_sublist _
      | cons f flags =>
          cases f with
          | false => exact (ih flags).cons coin
          | true => exact (ih flags).cons_cons coin

/-- The subset that is selected, or the larger coin, is enough. -/
theorem selectSubset_cases
    {vValue : List ValuedCoin} {nTotalLower : ℤ} {coinLowestLarger : Option ValuedCoin}
    (hSum : nTotalLower = (vValue.map Prod.fst).sum) (hEnough : nTargetValue ≤ nTotalLower) :
    (∃ coin, coinLowestLarger = some coin ∧
      selectSubset nTargetValue before vValue nTotalLower coinLowestLarger =
        selected before [coin]) ∨
    ∃ chosen : List ValuedCoin, chosen.Subperm vValue ∧
      nTargetValue ≤ (chosen.map Prod.fst).sum ∧
      selectSubset nTargetValue before vValue nTotalLower coinLowestLarger =
        selected before chosen := by
  have hPerm := List.perm_insertionSort (fun a b : ValuedCoin => b.1 ≤ a.1) vValue
  generalize hSorted : vValue.insertionSort (fun a b => b.1 ≤ a.1) = sorted at hPerm
  have hSum' : nTotalLower = (sorted.map Prod.fst).sum := by
    rw [hSum]
    exact ((hPerm.map Prod.fst).sum_eq).symm
  obtain ⟨best, hBest, hValue, hReached⟩ : ∃ best : List Bool × ℤ,
      best = (if (approximateBestSubset (sorted.map Prod.fst) nTargetValue nTotalLower 1000).2 ≠
          nTargetValue ∧ nTotalLower ≥ nTargetValue + CENT then
        approximateBestSubset (sorted.map Prod.fst) (nTargetValue + CENT) nTotalLower 1000
      else approximateBestSubset (sorted.map Prod.fst) nTargetValue nTotalLower 1000) ∧
      best.2 = markedSum (sorted.map Prod.fst) best.1 ∧ nTargetValue ≤ best.2 := by
    split_ifs with hAgain
    · obtain ⟨hValue, hReached⟩ := approximateBestSubset_spec 1000 hSum' hAgain.2
      have hCent : 0 < CENT := by decide
      exact ⟨_, rfl, hValue, by omega⟩
    · obtain ⟨hValue, hReached⟩ := approximateBestSubset_spec 1000 hSum' hEnough
      exact ⟨_, rfl, hValue, hReached⟩
  have hMarked : ∃ chosen : List ValuedCoin, chosen.Subperm vValue ∧
      nTargetValue ≤ (chosen.map Prod.fst).sum ∧ markedCoins sorted best.1 = chosen := by
    refine ⟨_, (markedCoins_sublist sorted best.1).subperm.trans hPerm.subperm, ?_, rfl⟩
    rw [markedCoins_sum, ← hValue]
    exact hReached
  obtain ⟨chosen, hSub, hChosen, hEq⟩ := hMarked
  unfold selectSubset
  dsimp only
  rw [hSorted, ← hBest, hEq]
  cases coinLowestLarger with
  | none => exact Or.inr ⟨chosen, hSub, hChosen, rfl⟩
  | some coin =>
      dsimp only
      split_ifs
      · exact Or.inl ⟨coin, rfl, rfl⟩
      · exact Or.inr ⟨chosen, hSub, hChosen, rfl⟩

/-- The value of the coins that the first round may take. -/
def countedSum (nTargetValue : ℤ) (coins : List ValuedCoin) : ℤ :=
  ((coins.filter fun coin => coin.1 < nTargetValue + CENT || coin.1 < 2 ^ 63 - 1).map
    Prod.fst).sum

theorem le_countedSum_of_mem
    {coins : List ValuedCoin} {coin : ValuedCoin} (hPositive : ∀ coin ∈ coins, 0 < coin.1)
    (hMem : coin ∈ coins) (hCounts : coin.1 < nTargetValue + CENT ∨ coin.1 < 2 ^ 63 - 1) :
    coin.1 ≤ countedSum nTargetValue coins := by
  apply le_sum_of_mem
  · exact fun c hc => hPositive c (List.mem_of_mem_filter hc)
  · exact List.mem_filter.mpr ⟨hMem, by simpa using hCounts⟩

theorem smallSum_le_countedSum
    {coins : List ValuedCoin} (hPositive : ∀ coin ∈ coins, 0 < coin.1) :
    ((coins.filter fun coin => coin.1 < nTargetValue + CENT).map Prod.fst).sum ≤
      countedSum nTargetValue coins := by
  have hFilter : coins.filter (fun coin => coin.1 < nTargetValue + CENT) =
      (coins.filter fun coin => coin.1 < nTargetValue + CENT || coin.1 < 2 ^ 63 - 1).filter
        fun coin => coin.1 < nTargetValue + CENT := by
    rw [List.filter_filter]
    apply List.filter_congr
    intro coin _
    cases hSmall : decide (coin.1 < nTargetValue + CENT) <;> simp
  rw [hFilter]
  apply (List.filter_sublist.map Prod.fst).sum_le_sum
  intro n hn
  obtain ⟨c, hc, rfl⟩ := List.mem_map.mp hn
  exact (hPositive c (List.mem_of_mem_filter hc)).le

/-- The first round returns: coins that are enough, or nothing if what it may take is not. -/
theorem selectRound_returns
    (hPositive : ∀ output ∈ vCoins, 0 < facts.valueOf output.outpoint) :
    ∃ selection, selectRound facts nTargetValue nSpendTime nConfMine nConfTheirs before vCoins
        none 0 = .ok (.returned selection) ∧
      ((nTargetValue ≤ countedSum nTargetValue
          (valued facts (triedCoins facts nSpendTime nConfMine nConfTheirs 0 vCoins)) ∧
        ∃ chosen : List ValuedCoin, chosen.Subperm
            (valued facts (triedCoins facts nSpendTime nConfMine nConfTheirs 0 vCoins)) ∧
          nTargetValue ≤ (chosen.map Prod.fst).sum ∧ selection = selected before chosen) ∨
      (countedSum nTargetValue (valued facts
          (triedCoins facts nSpendTime nConfMine nConfTheirs 0 vCoins)) < nTargetValue ∧
        selection = ⟨false, [], 0⟩)) := by
  have hScan := @scanCoins_result facts nTargetValue nSpendTime nConfMine nConfTheirs vCoins 0 [] 0
    none
  have hPositive' : ∀ coin ∈ valued facts
      (triedCoins facts nSpendTime nConfMine nConfTheirs 0 vCoins), 0 < coin.1 := by
    intro coin hCoin
    obtain ⟨output, hOutput, rfl⟩ := List.mem_map.mp hCoin
    exact hPositive output (List.mem_of_mem_filter (List.mem_of_mem_filter hOutput))
  generalize valued facts (triedCoins facts nSpendTime nConfMine nConfTheirs 0 vCoins) = coins
    at hScan hPositive' ⊢
  have hOne : ∀ coin ∈ coins, [coin].Subperm coins := fun coin hCoin =>
    (List.singleton_sublist.mpr hCoin).subperm
  unfold selectRound
  cases hResult : scanCoins facts nTargetValue nSpendTime nConfMine nConfTheirs 0 vCoins [] 0
      none with
  | hit coin =>
      rw [hResult] at hScan
      obtain ⟨hMem, hHit⟩ := hScan
      have hCent : 0 < CENT := by decide
      have hCounted := @le_countedSum_of_mem nTargetValue _ _ hPositive' hMem
        (Or.inl (by omega))
      refine ⟨_, rfl, Or.inl ⟨by omega, [coin], hOne coin hMem, ?_, rfl⟩⟩
      simp [hHit]
  | scanned vValue nTotalLower coinLowestLarger =>
      rw [hResult] at hScan
      obtain ⟨_, hValue, hTotal, hLarger, hLeast⟩ := hScan
      rw [List.nil_append] at hValue
      rw [zero_add] at hTotal
      have hTotal' : nTotalLower = (vValue.map Prod.fst).sum := by
        rw [hTotal, hValue]
      have hSmall := @smallSum_le_countedSum nTargetValue _ hPositive'
      have hSub : vValue.Subperm coins := hValue ▸ List.filter_sublist.subperm
      have hTake : ∀ coin, coinLowestLarger = some coin → coin ∈ coins ∧
          nTargetValue ≤ coin.1 ∧ nTargetValue ≤ countedSum nTargetValue coins := by
        rintro coin rfl
        rcases hLarger with hNone | ⟨c, hc, hSome, hLarge, hLess⟩
        · cases hNone
        · obtain rfl := Option.some.inj hSome
          have hCent : 0 < CENT := by decide
          have hCounted := @le_countedSum_of_mem nTargetValue _ _ hPositive' hc
            (Or.inr hLess)
          exact ⟨hc, by omega, by omega⟩
      dsimp only
      by_cases hExact : nTotalLower = nTargetValue
      · rw [if_pos hExact]
        exact ⟨_, rfl, Or.inl ⟨by omega, vValue, hSub, by omega, rfl⟩⟩
      · rw [if_neg hExact]
        by_cases hLess : nTotalLower < nTargetValue
        · rw [if_pos hLess]
          cases hLowest : coinLowestLarger with
          | none =>
              refine ⟨_, rfl, Or.inr ⟨?_, rfl⟩⟩
              have hCounted : countedSum nTargetValue coins = nTotalLower := by
                rw [hTotal]
                unfold countedSum
                congr 2
                apply List.filter_congr
                intro coin hCoin
                by_cases hLarge : coin.1 < nTargetValue + CENT
                · simp [hLarge]
                · have hBound := hLeast coin hCoin (not_lt.mp hLarge)
                  rw [hLowest] at hBound
                  have hGreatest : ¬coin.1 < 2 ^ 63 - 1 := not_lt.mpr hBound
                  rw [decide_eq_false hLarge, decide_eq_false hGreatest]
                  rfl
              omega
          | some coin =>
              obtain ⟨hMem, hEnough, hCounted⟩ := hTake coin hLowest
              refine ⟨_, rfl, Or.inl ⟨hCounted, [coin], hOne coin hMem, ?_, rfl⟩⟩
              simpa using hEnough
        · rw [if_neg hLess]
          refine ⟨_, rfl, Or.inl ⟨by omega, ?_⟩⟩
          rcases @selectSubset_cases _ before _ _ coinLowestLarger hTotal'
              (not_lt.mp hLess) with ⟨coin, hSome, hEq⟩ | ⟨chosen, hPart, hEnough, hEq⟩
          · obtain ⟨hMem, hEnough, _⟩ := hTake coin hSome
            exact ⟨[coin], hOne coin hMem, by simpa using hEnough, hEq⟩
          · exact ⟨chosen, hPart.trans hSub, hEnough, hEq⟩

/-! ## When the selection is exact -/

/-- The selection succeeds just when the eligible coins are worth enough, and then it is made of
such coins. -/
def SelectsExactly (facts : CoinFacts) (nTargetValue : ℤ) (nSpendTime : ℕ)
    (nConfMine nConfTheirs : ℤ) (before : COutPoint → COutPoint → Bool) (shuffle : Shuffle)
    (vCoins : List COutput) : Prop :=
  ∃ selection, selectCoinsMinConf facts nTargetValue nSpendTime nConfMine nConfTheirs before
      shuffle vCoins = .ok selection ∧
    (selection.success = true ↔ nTargetValue ≤
      valueSum facts (eligibleCoins facts nSpendTime nConfMine nConfTheirs vCoins)) ∧
    (selection.success = true → SelectsFrom facts nTargetValue
      (eligibleCoins facts nSpendTime nConfMine nConfTheirs vCoins) selection)

theorem SelectsFrom.perm
    {coins coins' : List COutput} {selection : Selection}
    (h : SelectsFrom facts nTargetValue coins selection) (hPerm : coins.Perm coins') :
    SelectsFrom facts nTargetValue coins' selection := by
  refine ⟨?_, h.nodup, h.sum, h.enough⟩
  intro o ho
  obtain ⟨output, hOutput, hEq⟩ := h.subset o ho
  exact ⟨output, hPerm.mem_iff.mp hOutput, hEq⟩

theorem countedSum_tried (vCoins : List COutput) :
    countedSum nTargetValue (valued facts
      (triedCoins facts nSpendTime nConfMine nConfTheirs 0 vCoins)) =
      valueSum facts ((eligibleCoins facts nSpendTime nConfMine nConfTheirs vCoins).filter
        (countsFirst facts nTargetValue)) := by
  unfold countedSum
  rw [valued, List.filter_map, ← valued, sum_valued]
  unfold triedCoins
  rw [List.filter_filter]
  congr 1
  apply List.filter_congr
  intro output _
  unfold countsFirst
  simp [Bool.and_comm]

/-- What the function returns: enough coins, if those that the first round may take are enough, and
nothing otherwise. -/
theorem selectCoinsMinConf_returns
    {shuffle : Shuffle} (hDistinct : (vCoins.map COutput.outpoint).Nodup)
    (hPositive : ∀ output ∈ vCoins, 0 < facts.valueOf output.outpoint) :
    ∃ selection, selectCoinsMinConf facts nTargetValue nSpendTime nConfMine nConfTheirs before
        shuffle vCoins = .ok selection ∧
      (selection.success = true ↔ nTargetValue ≤ valueSum facts
        ((eligibleCoins facts nSpendTime nConfMine nConfTheirs vCoins).filter
          (countsFirst facts nTargetValue))) ∧
      (selection.success = true → SelectsFrom facts nTargetValue
        (eligibleCoins facts nSpendTime nConfMine nConfTheirs vCoins) selection) := by
  have hPerm : ((shuffle.apply vCoins).insertionSort fun out1 out2 =>
      lessThenDenom facts out2 out1 = false).Perm vCoins :=
    (List.perm_insertionSort _ _).trans (shuffle.perm vCoins)
  unfold selectCoinsMinConf
  dsimp only
  generalize (shuffle.apply vCoins).insertionSort (fun out1 out2 =>
    lessThenDenom facts out2 out1 = false) = sorted at hPerm
  have hEligible : (eligibleCoins facts nSpendTime nConfMine nConfTheirs sorted).Perm
      (eligibleCoins facts nSpendTime nConfMine nConfTheirs vCoins) := hPerm.filter _
  have hSum := @valueSum_perm facts _ _ (hEligible.filter (countsFirst facts nTargetValue))
  obtain ⟨selection, hRound, hCases⟩ := @selectRound_returns facts nTargetValue nSpendTime
    nConfMine nConfTheirs before sorted fun output hOutput =>
      hPositive output (hPerm.mem_iff.mp hOutput)
  refine ⟨selection, ?_, ?_⟩
  · rw [forEach_cons_of_returned hRound]
    rfl
  · rw [countedSum_tried, hSum] at hCases
    rcases hCases with ⟨hEnough, chosen, hSub, hChosen, rfl⟩ | ⟨hLess, rfl⟩
    · refine ⟨iff_of_true rfl hEnough, fun _ => ?_⟩
      have hSorted : (eligibleCoins facts nSpendTime nConfMine nConfTheirs sorted).map
          COutput.outpoint |>.Nodup := by
        refine List.Nodup.sublist (List.filter_sublist.map _) ?_
        exact (hPerm.map _).nodup_iff.mpr hDistinct
      have hTried : (valued facts (triedCoins facts nSpendTime nConfMine nConfTheirs 0
          sorted)).Subperm (valued facts
            (eligibleCoins facts nSpendTime nConfMine nConfTheirs sorted)) :=
        (List.filter_sublist.map _).subperm
      exact (selected_selectsFrom hSorted (hSub.trans hTried) hChosen).perm hEligible
    · refine ⟨iff_of_false Bool.false_ne_true (not_le.mpr hLess), ?_⟩
      intro hTrue
      cases hTrue

/-- The selection is exact if and only if the coins that the first round may take are enough
whenever all are. -/
theorem selectCoinsMinConf_exact_iff
    (facts : CoinFacts) (nTargetValue : ℤ) (nSpendTime : ℕ) (nConfMine nConfTheirs : ℤ)
    (before : COutPoint → COutPoint → Bool) (shuffle : Shuffle) (vCoins : List COutput)
    (hDistinct : (vCoins.map COutput.outpoint).Nodup)
    (hPositive : ∀ output ∈ vCoins, 0 < facts.valueOf output.outpoint) :
    SelectsExactly facts nTargetValue nSpendTime nConfMine nConfTheirs before shuffle vCoins ↔
      (nTargetValue ≤ valueSum facts
          (eligibleCoins facts nSpendTime nConfMine nConfTheirs vCoins) →
        nTargetValue ≤ valueSum facts
          ((eligibleCoins facts nSpendTime nConfMine nConfTheirs vCoins).filter
            (countsFirst facts nTargetValue))) := by
  obtain ⟨selection, hReturns, hSuccess, hFrom⟩ := @selectCoinsMinConf_returns facts
    nTargetValue nSpendTime nConfMine nConfTheirs before vCoins shuffle hDistinct hPositive
  have hPart : valueSum facts ((eligibleCoins facts nSpendTime nConfMine nConfTheirs
      vCoins).filter (countsFirst facts nTargetValue)) ≤
        valueSum facts (eligibleCoins facts nSpendTime nConfMine nConfTheirs vCoins) := by
    apply (List.filter_sublist.map _).sum_le_sum
    intro n hn
    obtain ⟨output, hOutput, rfl⟩ := List.mem_map.mp hn
    exact (hPositive output (List.mem_of_mem_filter hOutput)).le
  constructor
  · rintro ⟨selection', hReturns', hExact, _⟩ hEnough
    obtain rfl := Except.ok.inj (hReturns.symm.trans hReturns')
    exact hSuccess.mp (hExact.mpr hEnough)
  · intro hCondition
    refine ⟨selection, hReturns, ?_, hFrom⟩
    rw [hSuccess]
    exact ⟨fun h => h.trans hPart, hCondition⟩

end Selecting

namespace Sample

/-- A coin with twenty confirmations. -/
def deepCoin (n : ℕ) : COutput := ⟨⟨1, n⟩, 20, true⟩

/-- Coins of these values. -/
def coinFacts (values : List ℤ) : CoinFacts where
  valueOf o := values.getD o.n 0
  nTime _ := 0
  isFromMe _ := false

def keepOrder : Shuffle := ⟨id, fun _ => List.Perm.refl _⟩

def indexBefore (o o' : COutPoint) : Bool := o.n < o'.n

/-- A plain coin is enough beside a denominated one. -/
theorem plainCoins_selected :
    SelectsExactly (coinFacts [3 * CENT, 10 * COIN + 10000, 5 * CENT]) (7 * CENT) 1000 1 10
      indexBefore keepOrder [deepCoin 0, deepCoin 1, deepCoin 2] :=
  (selectCoinsMinConf_exact_iff _ _ _ _ _ _ _ _ (by decide +kernel) (by decide +kernel)).mpr
    (by decide +kernel)

/-- With a denominated coin alone the function gives up in the first round. -/
theorem denominatedCoin_refused :
    ¬∀ (facts : CoinFacts) (nTargetValue : ℤ) (nSpendTime : ℕ) (nConfMine nConfTheirs : ℤ)
      (before : COutPoint → COutPoint → Bool) (shuffle : Shuffle) (vCoins : List COutput),
      (vCoins.map COutput.outpoint).Nodup →
      (∀ output ∈ vCoins, 0 < facts.valueOf output.outpoint) → 0 < nTargetValue →
        SelectsExactly facts nTargetValue nSpendTime nConfMine nConfTheirs before shuffle
          vCoins := by
  intro h
  obtain ⟨selection, hReturns, hExact, _⟩ := h (coinFacts [COIN + 1000]) COIN 1000 1 10 indexBefore
    keepOrder [deepCoin 0] (by decide +kernel) (by decide +kernel) (by decide +kernel)
  have hRefused : selectCoinsMinConf (coinFacts [COIN + 1000]) COIN 1000 1 10 indexBefore keepOrder
      [deepCoin 0] = .ok ⟨false, [], 0⟩ := by
    decide +kernel
  obtain rfl := Except.ok.inj (hReturns.symm.trans hRefused)
  exact absurd (hExact.mpr (by decide +kernel)) Bool.false_ne_true

end Sample

end SocietyGold
