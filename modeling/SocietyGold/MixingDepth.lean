import SocietyGold.AddressGroupings
import SocietyGold.Support.Descendants
import SocietyGold.Support.Trace

/-!
# The mixing depth of an input

`GetRealInputDarksendRounds` looks how far the denominated ancestors of an output reach back in
the wallet.  It keeps what it finds in a static map, beside copies of the transactions, and gives
up after sixteen steps.
-/

namespace SocietyGold

open Support

/-- `mDenomWtxes`: of the copies only `nRounds` of the outputs is read. -/
abbrev DenomWtxes := Table ℕ (List ℤ)

/-- The initial value of `nRounds`.  The constructor of `CTxOut` with a value and a script does not
assign it. -/
def initialRounds : ℤ := -10

namespace CWallet

variable (keys : WalletKeys) (w : CWallet)

/-- `mDenomWtxes[hash].vout[nout].nRounds = nRounds`, and the value that is read back. -/
def storeRounds (memo : DenomWtxes) (o : COutPoint) (nRounds : ℤ) :
    Checked (ℤ × DenomWtxes) := do
  let rounds ← storeAt ((memo.lookup o.hash).getD []) o.n nRounds
  return (nRounds, memo.insert o.hash rounds)

/-- The loop over the inputs, with the recursive call. -/
def shortestChain (query : CTxIn → DenomWtxes → Checked (ℤ × DenomWtxes)) :
    List CTxIn → (nShortest : ℤ) → (fDenomFound : Bool) → DenomWtxes →
      Checked (ℤ × Bool × DenomWtxes)
  | [], nShortest, fDenomFound, memo => .ok (nShortest, fDenomFound, memo)
  | in2 :: vin, nShortest, fDenomFound, memo =>
      if w.isMineIn keys in2 then do
        let found ← query in2 memo
        if 0 ≤ found.1 ∧ (found.1 < nShortest ∨ nShortest = -10) then
          shortestChain query vin found.1 true found.2
        else shortestChain query vin nShortest fDenomFound found.2
      else shortestChain query vin nShortest fDenomFound memo

/-- What follows when the depth is not known yet; `memo` has a copy of the transaction. -/
def findRounds (query : CTxIn → DenomWtxes → Checked (ℤ × DenomWtxes)) (wtx : CWalletTx)
    (o : COutPoint) (memo : DenomWtxes) : Checked (ℤ × DenomWtxes) :=
  match wtx.vout[o.n]? with
  | none => .ok (-4, memo)
  | some txout =>
      if isCollateralAmount txout.nValue then storeRounds memo o (-3)
      else if txout.nValue ∉ darkSendDenominations then storeRounds memo o (-2)
      else if wtx.vout.any fun out => out.nValue ∉ darkSendDenominations then
        storeRounds memo o 0
      else do
        let shortest ← w.shortestChain keys query wtx.vin (-10) false memo
        storeRounds shortest.2.2 o
          (if shortest.2.1 then if 15 ≤ shortest.1 then 16 else shortest.1 + 1 else 0)

variable (outRounds : COutPoint → ℤ)

/-- The copy of a transaction, of whose outputs `outRounds` is `nRounds` in the wallet. -/
def denomCopy (hash : ℕ) (wtx : CWalletTx) : List ℤ :=
  (List.range wtx.vout.length).map fun n => outRounds ⟨hash, n⟩

/-- `GetRealInputDarksendRounds` with room for so many nested calls. -/
def roundsWithin : (calls : ℕ) → (rounds : ℕ) → CTxIn → DenomWtxes → Checked (ℤ × DenomWtxes)
  | 0, _, _, _ => .error .diverges
  | calls + 1, rounds, txin, memo =>
      if 16 ≤ rounds then .ok (15, memo)
      else
        match w.get txin.prevout.hash with
        | none => .ok ((rounds : ℤ) - 1, memo)
        | some wtx =>
            match memo.lookup txin.prevout.hash with
            | none =>
                w.findRounds keys (roundsWithin calls (rounds + 1)) wtx txin.prevout
                  (memo.insert txin.prevout.hash
                    (denomCopy outRounds txin.prevout.hash wtx))
            | some known => do
                let nRounds ← elementAt known txin.prevout.n
                if nRounds ≠ initialRounds then .ok (nRounds, memo)
                else w.findRounds keys (roundsWithin calls (rounds + 1)) wtx txin.prevout memo

/-- `GetRealInputDarksendRounds`; every nested call has one round more. -/
def getRealInputDarksendRounds (txin : CTxIn) (rounds : ℕ) (memo : DenomWtxes) :
    Checked (ℤ × DenomWtxes) :=
  w.roundsWithin keys outRounds (17 - rounds) rounds txin memo

/-! ## The depth that is meant -/

/-- One more than the smallest depth that is not negative, with a cap at sixteen. -/
def depthAbove (depths : List ℤ) : ℤ :=
  match (depths.filter (0 ≤ ·)).min? with
  | none => 0
  | some shortest => min 16 (shortest + 1)

/-- The depth of an output of a wallet transaction, by the depths of what is spent. -/
def depthBy (depth : COutPoint → ℤ) (wtx : CWalletTx) (n : ℕ) : ℤ :=
  match wtx.vout[n]? with
  | none => -4
  | some txout =>
      if isCollateralAmount txout.nValue then -3
      else if txout.nValue ∉ darkSendDenominations then -2
      else if wtx.vout.any fun out => out.nValue ∉ darkSendDenominations then 0
      else depthAbove ((wtx.vin.filter (w.isMineIn keys)).map fun txin => depth txin.prevout)

/-- The function is the mixing depth in the wallet. -/
def IsDepth (depth : COutPoint → ℤ) : Prop :=
  ∀ o wtx, w.get o.hash = some wtx → depth o = w.depthBy keys depth wtx o.n

/-- The second transaction spends an output of the first. -/
def SpendsTx (hash k : ℕ) : Prop :=
  hash ∈ w.mapWallet ∧ ∃ wtx, w.get k = some wtx ∧ ∃ txin ∈ wtx.vin, txin.prevout.hash = hash

/-- The spends do not go round in a circle. -/
def AcyclicSpends : Prop := ∀ hash, ¬Relation.TransGen w.SpendsTx hash hash

/-! ## Searches that get to an end -/

/-- The depth of the output is in the map. -/
def Memoised (memo : DenomWtxes) (o : COutPoint) : Prop :=
  ∃ known nRounds, memo.lookup o.hash = some known ∧ known[o.n]? = some nRounds ∧
    nRounds ≠ initialRounds

/-- The search at the output goes on at what its transaction spends. -/
def SearchesInputs (wtx : CWalletTx) (n : ℕ) : Prop :=
  (∃ txout, wtx.vout[n]? = some txout ∧ isCollateralAmount txout.nValue = false) ∧
    ∀ txout ∈ wtx.vout, txout.nValue ∈ darkSendDenominations

/-- From the output on, the search passes fewer than so many outputs whose depth is not in the
map, and the transactions of these have the initial values. -/
def ShortSearch (memo : DenomWtxes) : (steps : ℕ) → COutPoint → Prop
  | 0, _ => False
  | steps + 1, o => Memoised memo o ∨ ∀ wtx, w.get o.hash = some wtx →
      (∀ n, n < wtx.vout.length → outRounds ⟨o.hash, n⟩ = initialRounds) ∧
        (SearchesInputs wtx o.n → ∀ txin ∈ wtx.vin, w.isMineIn keys txin = true →
          ShortSearch memo steps txin.prevout)

/-- The output exists or its transaction is not in the map yet, and sixteen steps are enough for
the search. -/
def QueryFits (memo : DenomWtxes) (txin : CTxIn) : Prop :=
  ∀ wtx, w.get txin.prevout.hash = some wtx →
    (txin.prevout.n < wtx.vout.length ∨ txin.prevout.hash ∉ memo) ∧
      w.ShortSearch keys outRounds memo 16 txin.prevout

/-- A query that is answered. -/
def QueryStep (allowed : DenomWtxes → CTxIn → Prop) (memo : DenomWtxes) (asked : List CTxIn)
    (memo' : DenomWtxes) : Prop :=
  ∃ txin nRounds, asked = [txin] ∧ allowed memo txin ∧
    w.getRealInputDarksendRounds keys outRounds txin 0 memo = .ok (nRounds, memo')

/-! ## The loop over the inputs -/

/-- A round of the loop, for the depth of an input. -/
def takeShorter (best : ℤ × Bool) (n : ℤ) : ℤ × Bool :=
  if 0 ≤ n ∧ (n < best.1 ∨ best.1 = -10) then (n, true) else best

/-- What the loop has found among these depths. -/
def IsShortest (depths : List ℤ) (best : ℤ × Bool) : Prop :=
  (best = (-10, false) ∧ ∀ n ∈ depths, n < 0) ∨
    (best.2 = true ∧ 0 ≤ best.1 ∧ best.1 ∈ depths ∧ ∀ n ∈ depths, 0 ≤ n → best.1 ≤ n)

theorem IsShortest.takeShorter {depths : List ℤ} {best : ℤ × Bool} (h : IsShortest depths best)
    (n : ℤ) : IsShortest (depths ++ [n]) (takeShorter best n) := by
  unfold CWallet.takeShorter
  rcases h with ⟨rfl, hAll⟩ | ⟨hFound, hNonneg, hMem, hLeast⟩
  · split_ifs with hTake
    · refine Or.inr ⟨rfl, hTake.1, by simp, ?_⟩
      intro m hm hm0
      rcases List.mem_append.mp hm with hOld | hNew
      · exact absurd (hAll m hOld) (not_lt.mpr hm0)
      · rw [List.mem_singleton.mp hNew]
    · refine Or.inl ⟨rfl, ?_⟩
      intro m hm
      rcases List.mem_append.mp hm with hOld | hNew
      · exact hAll m hOld
      · rw [List.mem_singleton.mp hNew]
        by_contra hn
        exact hTake ⟨not_lt.mp hn, Or.inr rfl⟩
  · split_ifs with hTake
    · refine Or.inr ⟨rfl, hTake.1, by simp, ?_⟩
      intro m hm hm0
      have hLess : n < best.1 := by
        rcases hTake.2 with hLess | hInitial
        · exact hLess
        · omega
      rcases List.mem_append.mp hm with hOld | hNew
      · exact hLess.le.trans (hLeast m hOld hm0)
      · rw [List.mem_singleton.mp hNew]
    · refine Or.inr ⟨hFound, hNonneg, List.mem_append_left _ hMem, ?_⟩
      intro m hm hm0
      rcases List.mem_append.mp hm with hOld | hNew
      · exact hLeast m hOld hm0
      · rw [List.mem_singleton.mp hNew] at hm0 ⊢
        by_contra hLess
        exact hTake ⟨hm0, Or.inl (not_le.mp hLess)⟩

theorem isShortest_foldl (depths : List ℤ) :
    IsShortest depths (depths.foldl takeShorter (-10, false)) := by
  induction depths using List.reverseRecOn with
  | nil => exact Or.inl ⟨rfl, by simp⟩
  | append_singleton depths n ih =>
      rw [List.foldl_append]
      exact ih.takeShorter n

/-- The depth that is stored is the one that is meant. -/
theorem IsShortest.depthAbove_eq {depths : List ℤ} {best : ℤ × Bool} (h : IsShortest depths best) :
    (if best.2 then if 15 ≤ best.1 then 16 else best.1 + 1 else 0) = depthAbove depths := by
  unfold depthAbove
  rcases h with ⟨rfl, hAll⟩ | ⟨hFound, hNonneg, hMem, hLeast⟩
  · have hNone : depths.filter (0 ≤ ·) = [] := by
      apply List.filter_eq_nil_iff.mpr
      intro n hn
      simpa using hAll n hn
    rw [hNone]
    rfl
  · have hMin : (depths.filter (0 ≤ ·)).min? = some best.1 := by
      apply List.min?_eq_some_iff.mpr
      refine ⟨List.mem_filter.mpr ⟨hMem, by simpa using hNonneg⟩, ?_⟩
      intro n hn
      obtain ⟨hn, hn0⟩ := List.mem_filter.mp hn
      exact hLeast n hn (by simpa using hn0)
    rw [hMin, hFound, if_pos rfl]
    dsimp only
    split_ifs with hCap
    · rw [min_eq_left (by omega)]
    · rw [min_eq_right (by omega)]

/-! ## The map -/

section Memo

variable {keys : WalletKeys} {w : CWallet} {outRounds depth : COutPoint → ℤ}
  {memo memo' memo'' : DenomWtxes}
  {o : COutPoint}

/-- What is in the map is the depth. -/
def MemoSound (w : CWallet) (depth : COutPoint → ℤ) (memo : DenomWtxes) : Prop :=
  ∀ hash known, memo.lookup hash = some known → ∃ wtx, w.get hash = some wtx ∧
    known.length = wtx.vout.length ∧
      ∀ n nRounds, known[n]? = some nRounds → nRounds = initialRounds ∨ nRounds = depth ⟨hash, n⟩

/-- The map is still sound, and what was in it is. -/
structure Grows (w : CWallet) (depth : COutPoint → ℤ) (memo memo' : DenomWtxes) : Prop where
  sound : MemoSound w depth memo'
  copies : ∀ hash, hash ∈ memo → hash ∈ memo'
  keeps : ∀ o, Memoised memo o → Memoised memo' o

theorem memoSound_empty : MemoSound w depth ∅ := by
  intro hash known hLookup
  simp at hLookup

theorem MemoSound.grows_self (h : MemoSound w depth memo) : Grows w depth memo memo :=
  ⟨h, fun _ => id, fun _ => id⟩

theorem Grows.trans (h : Grows w depth memo memo') (h' : Grows w depth memo' memo'') :
    Grows w depth memo memo'' :=
  ⟨h'.sound, fun hash hMem => h'.copies hash (h.copies hash hMem),
    fun o hMemo => h'.keeps o (h.keeps o hMemo)⟩

theorem MemoSound.insert_copy
    {hash : ℕ} {wtx : CWalletTx} (h : MemoSound w depth memo) (hGet : w.get hash = some wtx)
    (hInitial : ∀ n, n < wtx.vout.length → outRounds ⟨hash, n⟩ = initialRounds)
    (hNew : memo.lookup hash = none) :
    Grows w depth memo (memo.insert hash (denomCopy outRounds hash wtx)) := by
  refine ⟨?_, fun k hMem => (AList.mem_insert _).mpr (Or.inr hMem), ?_⟩
  · intro hash' known hLookup
    rw [Table.lookup_insert_ite] at hLookup
    split_ifs at hLookup with hHash
    · obtain rfl := Option.some.inj hLookup
      refine ⟨wtx, hHash ▸ hGet, by rw [denomCopy, List.length_map, List.length_range], ?_⟩
      intro n nRounds hRounds
      obtain ⟨m, hm, rfl⟩ := List.mem_map.mp (List.mem_of_getElem? hRounds)
      exact Or.inl (hInitial m (List.mem_range.mp hm))
    · exact h hash' known hLookup
  · rintro o ⟨known, nRounds, hLookup, hRest⟩
    refine ⟨known, nRounds, ?_, hRest⟩
    rw [Table.lookup_insert_ite, if_neg]
    · exact hLookup
    · rintro rfl
      rw [hNew] at hLookup
      cases hLookup

/-- The depth of an output is stored. -/
theorem MemoSound.storeRounds
    {known : List ℤ} {nRounds : ℤ} (h : MemoSound w depth memo)
    (hLookup : memo.lookup o.hash = some known) (hInside : o.n < known.length)
    (hRounds : nRounds = depth o) (hInitial : nRounds ≠ initialRounds) :
    ∃ memo', storeRounds memo o nRounds = .ok (nRounds, memo') ∧ Grows w depth memo memo' := by
  have hStored : storeAt ((memo.lookup o.hash).getD []) o.n nRounds =
      .ok (known.set o.n nRounds) := by
    rw [hLookup, Option.getD_some, storeAt, if_pos hInside]
  refine ⟨memo.insert o.hash (known.set o.n nRounds), ?_, ?_,
    fun k hMem => (AList.mem_insert _).mpr (Or.inr hMem), ?_⟩
  · unfold CWallet.storeRounds
    rw [hStored, ok_bind]
    rfl
  · intro hash known' hLookup'
    rw [Table.lookup_insert_ite] at hLookup'
    split_ifs at hLookup' with hHash
    · obtain rfl := Option.some.inj hLookup'
      subst hHash
      obtain ⟨wtx, hGet, hLength, hAll⟩ := h o.hash known hLookup
      refine ⟨wtx, hGet, by rw [List.length_set, hLength], ?_⟩
      intro n r hr
      rw [List.getElem?_set] at hr
      split_ifs at hr with hn
      · obtain rfl := Option.some.inj hr
        right
        rw [hRounds, ← hn]
      · exact hAll n r hr
    · exact h hash known' hLookup'
  · rintro o' ⟨known', r, hLookup', hr, hr10⟩
    by_cases hHash : o'.hash = o.hash
    · rw [hHash, hLookup] at hLookup'
      obtain rfl := Option.some.inj hLookup'
      by_cases hn : o.n = o'.n
      · refine ⟨known.set o.n nRounds, nRounds, ?_, ?_, hInitial⟩
        · rw [Table.lookup_insert_ite, if_pos hHash]
        · rw [← hn, List.getElem?_set_self hInside]
      · refine ⟨known.set o.n nRounds, r, ?_, ?_, hr10⟩
        · rw [Table.lookup_insert_ite, if_pos hHash]
        · rw [List.getElem?_set_ne hn, hr]
    · exact ⟨known', r, by rw [Table.lookup_insert_ite, if_neg hHash, hLookup'], hr, hr10⟩

theorem ShortSearch.mono
    {steps : ℕ} (hKeeps : ∀ o, Memoised memo o → Memoised memo' o)
    (h : w.ShortSearch keys outRounds memo steps o) :
    w.ShortSearch keys outRounds memo' steps o := by
  induction steps generalizing o with
  | zero => exact h
  | succ steps ih =>
      rcases h with hKnown | hSearch
      · exact Or.inl (hKeeps o hKnown)
      · exact Or.inr fun wtx hGet => ⟨(hSearch wtx hGet).1, fun hSearches txin hIn hMine =>
          ih ((hSearch wtx hGet).2 hSearches txin hIn hMine)⟩

theorem depthAbove_nonneg {depths : List ℤ} : 0 ≤ depthAbove depths := by
  unfold depthAbove
  cases hMin : (depths.filter (0 ≤ ·)).min? with
  | none => exact le_refl 0
  | some n =>
      have hMem := (List.min?_eq_some_iff.mp hMin).1
      have hn : 0 ≤ n := by simpa using (List.mem_filter.mp hMem).2
      dsimp only
      omega

/-! ## The search -/

variable {query : CTxIn → DenomWtxes → Checked (ℤ × DenomWtxes)} {wtx : CWalletTx}
  {known : List ℤ}

/-- The query finds the depth, from a map that has grown. -/
def Answers (w : CWallet) (depth : COutPoint → ℤ)
    (query : CTxIn → DenomWtxes → Checked (ℤ × DenomWtxes)) (memo : DenomWtxes) (txin : CTxIn) :
    Prop :=
  ∀ memo', Grows w depth memo memo' → ∃ memo'',
    query txin memo' = .ok (depth txin.prevout, memo'') ∧ Grows w depth memo' memo''

theorem Answers.mono {txin : CTxIn} (h : Answers w depth query memo txin)
    (hGrows : Grows w depth memo memo') : Answers w depth query memo' txin :=
  fun memo'' hLater => h memo'' (hGrows.trans hLater)

theorem shortestChain_eq
    {vin : List CTxIn} {best : ℤ × Bool} (hSound : MemoSound w depth memo)
    (hAnswers : ∀ txin ∈ vin, w.isMineIn keys txin = true → Answers w depth query memo txin) :
    ∃ best' memo', w.shortestChain keys query vin best.1 best.2 memo =
        .ok (best'.1, best'.2, memo') ∧ Grows w depth memo memo' ∧
      best' = ((vin.filter (w.isMineIn keys)).map fun txin => depth txin.prevout).foldl
        takeShorter best := by
  induction vin generalizing best memo with
  | nil => exact ⟨best, memo, rfl, hSound.grows_self, rfl⟩
  | cons in2 vin ih =>
      have hRest : ∀ txin ∈ vin, w.isMineIn keys txin = true → Answers w depth query memo txin :=
        fun txin hIn => hAnswers txin (List.mem_cons_of_mem in2 hIn)
      unfold shortestChain
      by_cases hMine : w.isMineIn keys in2 = true
      · obtain ⟨memo₁, hQuery, hGrows⟩ :=
          hAnswers in2 List.mem_cons_self hMine memo hSound.grows_self
        obtain ⟨best', memo', hLoop, hGrows', hBest⟩ :=
          @ih _ (takeShorter best (depth in2.prevout)) hGrows.sound
            fun txin hIn hOwn => (hRest txin hIn hOwn).mono hGrows
        refine ⟨best', memo', ?_, hGrows.trans hGrows', ?_⟩
        · rw [if_pos hMine, hQuery, ok_bind, ← hLoop]
          unfold takeShorter
          split_ifs <;> rfl
        · rw [List.filter_cons_of_pos hMine, List.map_cons, List.foldl_cons]
          exact hBest
      · obtain ⟨best', memo', hLoop, hGrows, hBest⟩ := @ih _ best hSound hRest
        refine ⟨best', memo', ?_, hGrows, ?_⟩
        · rw [if_neg hMine, hLoop]
        · rw [List.filter_cons_of_neg hMine]
          exact hBest

theorem MemoSound.length_eq
    (h : MemoSound w depth memo) (hGet : w.get o.hash = some wtx)
    (hLookup : memo.lookup o.hash = some known) : known.length = wtx.vout.length := by
  obtain ⟨wtx', hGet', hLength, _⟩ := h o.hash known hLookup
  obtain rfl := Option.some.inj (hGet.symm.trans hGet')
  exact hLength

theorem findRounds_eq
    (hDepth : w.IsDepth keys depth) (hGet : w.get o.hash = some wtx) (hMem : o.hash ∈ memo)
    (hSound : MemoSound w depth memo)
    (hAnswers : SearchesInputs wtx o.n → ∀ txin ∈ wtx.vin, w.isMineIn keys txin = true →
      Answers w depth query memo txin) :
    ∃ memo', w.findRounds keys query wtx o memo = .ok (depth o, memo') ∧
      Grows w depth memo memo' := by
  have hLaw := hDepth o wtx hGet
  unfold depthBy at hLaw
  unfold findRounds
  cases hOut : wtx.vout[o.n]? with
  | none =>
      rw [hOut] at hLaw
      exact ⟨memo, by rw [hLaw], hSound.grows_self⟩
  | some txout =>
      rw [hOut] at hLaw
      dsimp only at hLaw ⊢
      -- every store is at an output that the copy has
      have hStore : ∀ {memo₁ : DenomWtxes} {nRounds : ℤ}, Grows w depth memo memo₁ →
          nRounds = depth o → nRounds ≠ initialRounds →
            ∃ memo', storeRounds memo₁ o nRounds = .ok (depth o, memo') ∧
              Grows w depth memo memo' := by
        intro memo₁ nRounds hGrows hRounds hInitial
        obtain ⟨known, hLookup⟩ := Table.mem_iff_lookup.mp (hGrows.copies o.hash hMem)
        have hInside : o.n < known.length := by
          rw [hGrows.sound.length_eq hGet hLookup]
          exact (List.getElem?_eq_some_iff.mp hOut).1
        obtain ⟨memo', hStored, hMore⟩ :=
          hGrows.sound.storeRounds hLookup hInside hRounds hInitial
        exact ⟨memo', by rw [hStored, hRounds], hGrows.trans hMore⟩
      by_cases hCollateral : isCollateralAmount txout.nValue = true
      · rw [if_pos hCollateral] at hLaw ⊢
        exact hStore hSound.grows_self hLaw.symm (by decide)
      · rw [if_neg hCollateral] at hLaw ⊢
        by_cases hDenom : txout.nValue ∉ darkSendDenominations
        · rw [if_pos hDenom] at hLaw ⊢
          exact hStore hSound.grows_self hLaw.symm (by decide)
        · rw [if_neg hDenom] at hLaw ⊢
          by_cases hOther : (wtx.vout.any fun out => out.nValue ∉ darkSendDenominations) = true
          · rw [if_pos hOther] at hLaw ⊢
            exact hStore hSound.grows_self hLaw.symm (by decide)
          · rw [if_neg hOther] at hLaw ⊢
            have hSearches : SearchesInputs wtx o.n := by
              refine ⟨⟨txout, hOut, Bool.not_eq_true _ ▸ hCollateral⟩, ?_⟩
              intro out hMemOut
              by_contra hNot
              exact hOther (List.any_eq_true.mpr ⟨out, hMemOut, by simpa using hNot⟩)
            obtain ⟨best, memo₁, hLoop, hGrows, hBest⟩ :=
              @shortestChain_eq _ _ _ _ _ _ (-10, false) hSound (hAnswers hSearches)
            rw [hLoop, ok_bind]
            have hValue := (hBest ▸ isShortest_foldl _ : IsShortest _ best).depthAbove_eq
            refine hStore hGrows (hValue.trans hLaw.symm) ?_
            rw [hValue]
            have hNonneg := @depthAbove_nonneg
              ((wtx.vin.filter (w.isMineIn keys)).map fun txin => depth txin.prevout)
            unfold initialRounds
            omega

theorem exists_output_of_isMineIn {txin : CTxIn} (h : w.isMineIn keys txin = true) :
    ∃ prev, w.get txin.prevout.hash = some prev ∧ txin.prevout.n < prev.vout.length := by
  unfold isMineIn at h
  cases hSpent : w.spentBy txin with
  | none =>
      rw [hSpent] at h
      cases h
  | some txout =>
      obtain ⟨prev, hGet, hOut⟩ := Option.bind_eq_some_iff.mp hSpent
      exact ⟨prev, hGet, (List.getElem?_eq_some_iff.mp hOut).1⟩

/-- With enough calls left, a short search finds the depth. -/
theorem roundsWithin_eq
    {calls rounds steps : ℕ} {txin : CTxIn} (hDepth : w.IsDepth keys depth)
    (hRounds : rounds + steps = 16) (hCalls : steps < calls)
    (hSound : MemoSound w depth memo) (hGet : w.get txin.prevout.hash = some wtx)
    (hInside : txin.prevout.n < wtx.vout.length ∨ txin.prevout.hash ∉ memo)
    (hShort : w.ShortSearch keys outRounds memo steps txin.prevout) :
    ∃ memo', w.roundsWithin keys outRounds calls rounds txin memo =
      .ok (depth txin.prevout, memo') ∧ Grows w depth memo memo' := by
  induction steps generalizing calls rounds txin memo wtx with
  | zero => exact absurd hShort id
  | succ steps ih =>
      obtain ⟨calls, rfl⟩ : ∃ k, calls = k + 1 := ⟨calls - 1, by omega⟩
      have hDeeper : ¬Memoised memo txin.prevout → SearchesInputs wtx txin.prevout.n →
          ∀ in2 ∈ wtx.vin, w.isMineIn keys in2 = true →
            Answers w depth (w.roundsWithin keys outRounds calls (rounds + 1)) memo in2 := by
        intro hUnknown hSearches in2 hIn hMine memo₁ hGrows
        obtain ⟨prev, hPrev, hOut⟩ := exists_output_of_isMineIn hMine
        have hNext := (hShort.resolve_left hUnknown wtx hGet).2 hSearches in2 hIn hMine
        exact ih (by omega) (by omega) hGrows.sound hPrev (Or.inl hOut) (hNext.mono hGrows.keeps)
      unfold roundsWithin
      rw [if_neg (by omega), hGet]
      dsimp only
      cases hLookup : memo.lookup txin.prevout.hash with
      | none =>
          have hUnknown : ¬Memoised memo txin.prevout := by
            rintro ⟨known, _, hKnown, _⟩
            rw [hLookup] at hKnown
            cases hKnown
          have hInitial := (hShort.resolve_left hUnknown wtx hGet).1
          have hCopied := hSound.insert_copy hGet hInitial hLookup
          obtain ⟨memo', hFound, hGrows⟩ :=
            @findRounds_eq _ _ _ _ _ (w.roundsWithin keys outRounds calls (rounds + 1)) _ hDepth
              hGet ((AList.mem_insert _).mpr (Or.inl rfl)) hCopied.sound
              fun hSearches in2 hIn hMine =>
                (hDeeper hUnknown hSearches in2 hIn hMine).mono hCopied
          exact ⟨memo', hFound, hCopied.trans hGrows⟩
      | some known =>
          have hMem : txin.prevout.hash ∈ memo := Table.mem_iff_lookup.mpr ⟨known, hLookup⟩
          have hLength := hSound.length_eq hGet hLookup
          have hLess : txin.prevout.n < known.length := by
            rw [hLength]
            exact hInside.resolve_right (not_not.mpr hMem)
          obtain ⟨_, _, _, hValues⟩ := hSound _ known hLookup
          have hElement := List.getElem?_eq_getElem hLess
          dsimp only
          rw [elementAt_of_lt hLess, ok_bind]
          split_ifs with hInitial
          · refine ⟨memo, ?_, hSound.grows_self⟩
            rw [(hValues _ _ hElement).resolve_left hInitial]
          · apply findRounds_eq hDepth hGet hMem hSound
            apply hDeeper
            rintro ⟨known', nRounds, hLookup', hRounds', hNot⟩
            obtain rfl := Option.some.inj (hLookup.symm.trans hLookup')
            rw [hElement] at hRounds'
            exact hInitial (Option.some.inj hRounds' ▸ hNot)

end Memo

/-! ## The depth exists -/

section Depth

variable {keys : WalletKeys} {w : CWallet} {depth depth' : COutPoint → ℤ}

/-- Only the depths of own inputs matter. -/
theorem depthBy_congr
    {wtx : CWalletTx} {n : ℕ}
    (h : ∀ txin ∈ wtx.vin, w.isMineIn keys txin = true →
      depth txin.prevout = depth' txin.prevout) :
    w.depthBy keys depth wtx n = w.depthBy keys depth' wtx n := by
  have hDepths : ((wtx.vin.filter (w.isMineIn keys)).map fun txin => depth txin.prevout) =
      (wtx.vin.filter (w.isMineIn keys)).map fun txin => depth' txin.prevout := by
    apply List.map_congr_left
    intro txin hMem
    obtain ⟨hIn, hMine⟩ := List.mem_filter.mp hMem
    exact h txin hIn hMine
  unfold depthBy
  rw [hDepths]

theorem depthBy_of_searches {wtx : CWalletTx} {n : ℕ} (h : SearchesInputs wtx n) :
    w.depthBy keys depth wtx n =
      depthAbove ((wtx.vin.filter (w.isMineIn keys)).map fun txin => depth txin.prevout) := by
  obtain ⟨⟨txout, hOut, hCollateral⟩, hAll⟩ := h
  have hDenom := hAll txout (List.mem_of_getElem? hOut)
  have hNone : ¬(wtx.vout.any fun out => out.nValue ∉ darkSendDenominations) = true := by
    rw [List.any_eq_true]
    rintro ⟨out, hMem, hNot⟩
    exact of_decide_eq_true hNot (hAll out hMem)
  unfold depthBy
  rw [hOut]
  dsimp only
  rw [if_neg (by rw [hCollateral]; decide), if_neg (not_not.mpr hDenom), if_neg hNone]

theorem spendsTx_of_isMineIn
    {hash : ℕ} {wtx : CWalletTx} {txin : CTxIn} (hGet : w.get hash = some wtx)
    (hIn : txin ∈ wtx.vin) (hMine : w.isMineIn keys txin = true) :
    w.SpendsTx txin.prevout.hash hash := by
  obtain ⟨prev, hPrev, _⟩ := exists_output_of_isMineIn hMine
  refine ⟨?_, wtx, hGet, txin, hIn, rfl⟩
  by_contra hNot
  rw [get_eq_none_iff.mpr hNot] at hPrev
  cases hPrev

theorem AcyclicSpends.exists_rank (h : w.AcyclicSpends) :
    ∃ rank : ℕ → ℕ, ∀ hash k, w.SpendsTx hash k → rank hash < rank k := by
  apply exists_rank_of_acyclic w.mapWallet.keys.toFinset _ h
  rintro hash k ⟨hMem, _⟩
  exact List.mem_toFinset.mpr (AList.mem_keys.mp hMem)

/-- A rank shows that the spends do not go round in a circle. -/
theorem acyclicSpends_of_rank
    (rank : ℕ → ℕ) (h : ∀ hash k, w.SpendsTx hash k → rank hash < rank k) : w.AcyclicSpends := by
  have hLess : ∀ hash k, Relation.TransGen w.SpendsTx hash k → rank hash < rank k := by
    intro hash k hReach
    induction hReach with
    | single hSpends => exact h _ _ hSpends
    | tail _ hSpends ih => exact ih.trans (h _ _ hSpends)
  exact fun hash hReach => absurd (hLess hash hash hReach) (lt_irrefl _)

theorem exists_isDepth (hAcyclic : w.AcyclicSpends) : ∃ depth, w.IsDepth keys depth := by
  obtain ⟨rank, hRank⟩ := hAcyclic.exists_rank
  have hWF : WellFounded fun o o' : COutPoint => rank o.hash < rank o'.hash :=
    InvImage.wf (fun o : COutPoint => rank o.hash) Nat.lt_wfRel.wf
  refine ⟨hWF.fix fun o found => (w.get o.hash).elim 0 fun wtx => w.depthBy keys
    (fun o' => if hLess : rank o'.hash < rank o.hash then found o' hLess else 0) wtx o.n, ?_⟩
  intro o wtx hGet
  rw [hWF.fix_eq, hGet, Option.elim_some]
  apply depthBy_congr
  intro txin hIn hMine
  rw [dif_pos (hRank _ _ (spendsTx_of_isMineIn hGet hIn hMine))]

theorem IsDepth.unique
    (hAcyclic : w.AcyclicSpends) (h : w.IsDepth keys depth) (h' : w.IsDepth keys depth')
    {o : COutPoint} (hHas : (w.get o.hash).isSome = true) : depth o = depth' o := by
  obtain ⟨rank, hRank⟩ := hAcyclic.exists_rank
  induction hMeasure : rank o.hash using Nat.strong_induction_on generalizing o with
  | _ n ih =>
      obtain ⟨wtx, hGet⟩ := Option.isSome_iff_exists.mp hHas
      rw [h o wtx hGet, h' o wtx hGet]
      apply depthBy_congr
      intro txin hIn hMine
      obtain ⟨prev, hPrev, _⟩ := exists_output_of_isMineIn hMine
      have hLess := hRank _ _ (spendsTx_of_isMineIn hGet hIn hMine)
      exact ih _ (hMeasure ▸ hLess) (Option.isSome_iff_exists.mpr ⟨prev, hPrev⟩) rfl

end Depth

/-! ## Queries -/

section Queries

variable {keys : WalletKeys} {w : CWallet} {outRounds depth : COutPoint → ℤ}
  {memo memo' : DenomWtxes}

theorem storeRounds_ne_diverges {o : COutPoint} {nRounds : ℤ} :
    storeRounds memo o nRounds ≠ .error .diverges := by
  unfold storeRounds storeAt
  split_ifs
  · intro h
    cases h
  · intro h
    cases h

theorem shortestChain_ne_diverges
    {query : CTxIn → DenomWtxes → Checked (ℤ × DenomWtxes)}
    (hQuery : ∀ txin memo, query txin memo ≠ .error .diverges) {vin : List CTxIn} {nShortest : ℤ}
    {fDenomFound : Bool} :
    w.shortestChain keys query vin nShortest fDenomFound memo ≠ .error .diverges := by
  induction vin generalizing nShortest fDenomFound memo with
  | nil =>
      intro h
      cases h
  | cons in2 vin ih =>
      unfold shortestChain
      split_ifs with hMine
      · cases hAsked : query in2 memo with
        | error fault =>
            intro h
            rw [error_bind] at h
            obtain rfl := Except.error.inj h
            exact hQuery in2 memo hAsked
        | ok found =>
            rw [ok_bind]
            split_ifs
            · exact ih
            · exact ih
      · exact ih

theorem findRounds_ne_diverges
    {query : CTxIn → DenomWtxes → Checked (ℤ × DenomWtxes)}
    (hQuery : ∀ txin memo, query txin memo ≠ .error .diverges) {wtx : CWalletTx} {o : COutPoint} :
    w.findRounds keys query wtx o memo ≠ .error .diverges := by
  unfold findRounds
  cases wtx.vout[o.n]? with
  | none =>
      intro h
      cases h
  | some txout =>
      dsimp only
      split_ifs
      · exact storeRounds_ne_diverges
      · exact storeRounds_ne_diverges
      · cases hLoop : w.shortestChain keys query wtx.vin (-10) false memo with
        | error fault =>
            intro h
            rw [error_bind] at h
            obtain rfl := Except.error.inj h
            exact shortestChain_ne_diverges hQuery hLoop
        | ok shortest =>
            rw [ok_bind]
            exact storeRounds_ne_diverges
      · exact storeRounds_ne_diverges

/-- The recursion ends: sixteen rounds are the most. -/
theorem roundsWithin_ne_diverges
    {calls rounds : ℕ} (hCalls : 17 ≤ rounds + calls) (hPos : 0 < calls) (txin : CTxIn)
    (memo : DenomWtxes) :
    w.roundsWithin keys outRounds calls rounds txin memo ≠ .error .diverges := by
  induction calls generalizing rounds txin memo with
  | zero => exact absurd hPos (lt_irrefl 0)
  | succ calls ih =>
      unfold roundsWithin
      split_ifs with hLimit
      · intro h
        cases h
      · have hDeeper : ∀ txin memo,
            w.roundsWithin keys outRounds calls (rounds + 1) txin memo ≠ .error .diverges :=
          ih (by omega) (by omega)
        cases w.get txin.prevout.hash with
        | none =>
            intro h
            cases h
        | some wtx =>
            dsimp only
            cases memo.lookup txin.prevout.hash with
            | none => exact findRounds_ne_diverges hDeeper
            | some known =>
                dsimp only
                by_cases hInside : txin.prevout.n < known.length
                · rw [elementAt_of_lt hInside, ok_bind]
                  split_ifs
                  · intro h
                    cases h
                  · exact findRounds_ne_diverges hDeeper
                · rw [elementAt_of_le (not_lt.mp hInside), error_bind]
                  intro h
                  cases h

theorem roundsWithin_of_missing
    {calls rounds : ℕ} {txin : CTxIn} (hRounds : rounds < 16)
    (hGet : w.get txin.prevout.hash = none) :
    w.roundsWithin keys outRounds (calls + 1) rounds txin memo = .ok ((rounds : ℤ) - 1, memo) := by
  unfold roundsWithin
  rw [if_neg (not_le.mpr hRounds), hGet]

theorem getRealInputDarksendRounds_eq
    {txin : CTxIn} (hDepth : w.IsDepth keys depth) (hSound : MemoSound w depth memo)
    (hHas : (w.get txin.prevout.hash).isSome = true)
    (hFits : w.QueryFits keys outRounds memo txin) :
    ∃ memo', w.getRealInputDarksendRounds keys outRounds txin 0 memo =
      .ok (depth txin.prevout, memo') ∧ MemoSound w depth memo' := by
  obtain ⟨wtx, hGet⟩ := Option.isSome_iff_exists.mp hHas
  obtain ⟨hInside, hShort⟩ := hFits wtx hGet
  obtain ⟨memo', hFound, hGrows⟩ :=
    @roundsWithin_eq _ _ _ _ _ _ 17 0 _ _ hDepth rfl (by omega) hSound hGet hInside hShort
  exact ⟨memo', hFound, hGrows.sound⟩

/-- Queries that fit leave the map sound. -/
theorem memoSound_of_queries
    {queries : List CTxIn} (hDepth : w.IsDepth keys depth)
    (hRun : Trace (w.QueryStep keys outRounds (w.QueryFits keys outRounds)) ∅ queries memo) :
    MemoSound w depth memo := by
  refine Trace.invariant (I := fun _ memo => MemoSound w depth memo) memoSound_empty ?_ hRun
  rintro _ memo _ memo' hSound ⟨txin, nRounds, rfl, hFits, hFound⟩
  cases hGet : w.get txin.prevout.hash with
  | none =>
      have hMissing : w.getRealInputDarksendRounds keys outRounds txin 0 memo =
          .ok ((0 : ℕ) - 1, memo) :=
        roundsWithin_of_missing (by omega) hGet
      rw [hMissing] at hFound
      obtain ⟨_, rfl⟩ := Prod.ext_iff.mp (Except.ok.inj hFound)
      exact hSound
  | some wtx =>
      have hHas := Option.isSome_iff_exists.mpr ⟨wtx, hGet⟩
      obtain ⟨memo'', hFound', hSound'⟩ := getRealInputDarksendRounds_eq hDepth hSound hHas hFits
      rw [hFound] at hFound'
      obtain ⟨_, rfl⟩ := Prod.ext_iff.mp (Except.ok.inj hFound')
      exact hSound'

/-- As long as every query fits, each is answered with the depth, whatever was asked before.  The
recursion ends in any case. -/
theorem queries_answer_depth (outRounds : COutPoint → ℤ) (hAcyclic : w.AcyclicSpends) :
    (∀ txin memo, w.getRealInputDarksendRounds keys outRounds txin 0 memo ≠ .error .diverges) ∧
    ∃ depth, w.IsDepth keys depth ∧
      (∀ depth', w.IsDepth keys depth' → ∀ o, (w.get o.hash).isSome = true →
        depth' o = depth o) ∧
      ∀ queries memo,
        Trace (w.QueryStep keys outRounds (w.QueryFits keys outRounds)) ∅ queries memo →
        ∀ txin, (w.get txin.prevout.hash).isSome = true → w.QueryFits keys outRounds memo txin →
          ∃ memo', w.getRealInputDarksendRounds keys outRounds txin 0 memo =
            .ok (depth txin.prevout, memo') := by
  obtain ⟨depth, hDepth⟩ := @exists_isDepth keys _ hAcyclic
  refine ⟨fun txin memo => roundsWithin_ne_diverges (by omega) (by omega) txin memo,
    depth, hDepth, fun depth' h' o hHas => h'.unique hAcyclic hDepth hHas, ?_⟩
  intro queries memo hRun txin hHas hFits
  obtain ⟨memo', hFound, _⟩ :=
    getRealInputDarksendRounds_eq hDepth (memoSound_of_queries hDepth hRun) hHas hFits
  exact ⟨memo', hFound⟩

end Queries

end CWallet

/-! ## A chain that is longer than the search -/

namespace Sample

open CWallet

/-- A transaction that mixes one denominated output. -/
def mixTx (prev : ℕ) : CTransaction :=
  { coinbase 1000 11 100 with
    vin := [⟨⟨prev, 0⟩, [], UINT_MAX⟩]
    vout := [⟨COIN + 1000, keyHashScript 7⟩] }

/-- So many of them in a row, the latest first. -/
def mixChain : ℕ → List (ℕ × CTransaction)
  | 0 => []
  | k + 1 =>
      let tx := mixTx ((mixChain k).head?.elim 5 Prod.fst)
      (tx.getHash prims, tx) :: mixChain k

def mixWallet : CWallet :=
  (mixChain 17).foldr (fun e w =>
    w.insertTx e.1 (CWalletTx.ofMerkleTx (CMerkleTx.ofTransaction e.2))) (CWallet.empty false)

/-- All outputs were read. -/
def readRounds : COutPoint → ℤ := fun _ => initialRounds

/-- An input that spends the output of a transaction of the chain. -/
def mixInput (i : ℕ) : CTxIn := ⟨⟨((mixChain 17).map Prod.fst).getD i 0, 0⟩, [], UINT_MAX⟩

theorem mixWallet_acyclic : mixWallet.AcyclicSpends := by
  -- the place in the chain, from the latest on
  apply acyclicSpends_of_rank fun hash => 17 - ((mixChain 17).map Prod.fst).idxOf hash
  rintro hash k ⟨hMem, wtx, hGet, txin, hIn, rfl⟩
  obtain ⟨entry, hLookup, rfl⟩ := Option.map_eq_some_iff.mp hGet
  have hEntry := AList.mem_lookup_iff.mp hLookup
  have hAll : ∀ e ∈ mixWallet.mapWallet.entries, ∀ txin ∈ e.2.wtx.vin,
      txin.prevout.hash ∈ mixWallet.mapWallet.keys →
        17 - ((mixChain 17).map Prod.fst).idxOf txin.prevout.hash <
          17 - ((mixChain 17).map Prod.fst).idxOf e.1 := by
    decide +kernel
  exact hAll ⟨k, entry⟩ hEntry txin hIn (AList.mem_keys.mp hMem)

def mixWtx (prev : ℕ) : CWalletTx :=
  CWalletTx.ofMerkleTx (CMerkleTx.ofTransaction (mixTx prev))

theorem mixWtx_searches (prev i : ℕ) :
    SearchesInputs (mixWtx prev) (mixInput i).prevout.n := by
  have hDenom : COIN + 1000 ∈ darkSendDenominations := by
    decide
  refine ⟨⟨⟨COIN + 1000, keyHashScript 7⟩, rfl, by decide⟩, ?_⟩
  intro txout hMem
  obtain rfl := List.mem_singleton.mp hMem
  exact hDenom

/-- The last two transactions of the chain and their inputs. -/
theorem mixWallet_end :
    (mixWallet.get (mixInput 16).prevout.hash = some (mixWtx 5) ∧
        (mixWtx 5).vin.filter (mixWallet.isMineIn twoKeysBook.keys) = []) ∧
      mixWallet.get (mixInput 15).prevout.hash = some (mixWtx (mixInput 16).prevout.hash) ∧
        (mixWtx (mixInput 16).prevout.hash).vin.filter
          (mixWallet.isMineIn twoKeysBook.keys) = [mixInput 16] := by
  decide +kernel

theorem has_mixInput_next : (mixWallet.get (mixInput 15).prevout.hash).isSome = true := by
  rw [mixWallet_end.2.1]
  rfl

theorem depth_mixInput
    {depth : COutPoint → ℤ} (hDepth : mixWallet.IsDepth twoKeysBook.keys depth) :
    depth (mixInput 15).prevout = 1 := by
  obtain ⟨⟨hGetLast, hNone⟩, hGetNext, hOne⟩ := mixWallet_end
  have hLast : depth (mixInput 16).prevout = 0 := by
    rw [hDepth _ _ hGetLast, depthBy_of_searches (mixWtx_searches 5 16), hNone]
    rfl
  rw [hDepth _ _ hGetNext, depthBy_of_searches (mixWtx_searches _ 15), hOne,
    List.map_singleton, hLast]
  rfl

/-- The query for the latest output of the chain stops at sixteen rounds and leaves a wrong depth
in the map, which a later query returns. -/
theorem mixWallet_misremembers :
    ¬∀ (keys : WalletKeys) (w : CWallet) (outRounds : COutPoint → ℤ), w.AcyclicSpends →
      ∀ depth, w.IsDepth keys depth →
        ∀ queries memo, Trace (w.QueryStep keys outRounds fun _ _ => True) ∅ queries memo →
          ∀ txin, (w.get txin.prevout.hash).isSome = true → ∃ memo',
            w.getRealInputDarksendRounds keys outRounds txin 0 memo =
              .ok (depth txin.prevout, memo') := by
  intro h
  obtain ⟨depth, hDepth⟩ := @exists_isDepth twoKeysBook.keys _ mixWallet_acyclic
  obtain ⟨⟨nRounds, memo⟩, hFirst, hSecond⟩ := exists_ok_of_test
    (x := mixWallet.getRealInputDarksendRounds twoKeysBook.keys readRounds (mixInput 0) 0 ∅)
    (Q := fun found => (mixWallet.getRealInputDarksendRounds twoKeysBook.keys readRounds
      (mixInput 15) 0 found.2).toOption.map Prod.fst = some 16) (by decide +kernel)
  have hRun : Trace (mixWallet.QueryStep twoKeysBook.keys readRounds fun _ _ => True) ∅
      [mixInput 0] memo :=
    Trace.start.next ⟨mixInput 0, nRounds, rfl, trivial, hFirst⟩
  obtain ⟨memo', hFound⟩ := h _ _ _ mixWallet_acyclic depth hDepth _ memo hRun (mixInput 15)
    has_mixInput_next
  rw [hFound, depth_mixInput hDepth] at hSecond
  have hWrong : (1 : ℤ) = 16 := Option.some.inj hSecond
  exact absurd hWrong (by decide)

/-- Before any other query the same input gets its depth. -/
theorem mixInput_answered :
    ∃ depth, mixWallet.IsDepth twoKeysBook.keys depth ∧ ∃ memo',
      mixWallet.getRealInputDarksendRounds twoKeysBook.keys readRounds (mixInput 15) 0 ∅ =
        .ok (depth (mixInput 15).prevout, memo') := by
  obtain ⟨-, depth, hDepth, -, hAnswers⟩ :=
    @queries_answer_depth twoKeysBook.keys _ readRounds mixWallet_acyclic
  refine ⟨depth, hDepth, hAnswers [] ∅ Trace.start (mixInput 15) has_mixInput_next ?_⟩
  intro wtx _
  refine ⟨Or.inr (AList.notMem_empty _), Or.inr fun wtx hGet => ⟨fun _ _ => rfl, ?_⟩⟩
  intro _ txin hIn hMine
  obtain rfl := Option.some.inj (mixWallet_end.2.1.symm.trans hGet)
  obtain rfl := List.mem_singleton.mp hIn
  refine Or.inr fun wtx hGet => ⟨fun _ _ => rfl, ?_⟩
  intro _ txin hIn hMine
  obtain rfl := Option.some.inj (mixWallet_end.1.1.symm.trans hGet)
  exact absurd hMine (List.filter_eq_nil_iff.mp mixWallet_end.1.2 txin hIn)

end Sample

end SocietyGold
