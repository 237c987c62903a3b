import SocietyGold.InstantX
import SocietyGold.MasternodeRanks
import SocietyGold.PaymentVotes
import SocietyGold.ScriptText
import SocietyGold.SecretKeys

/-!
# Choosing the next payee

`ProcessBlock` first looks for the masternode that has waited longest, then for one that was paid
recently.  The second search keeps its result in a variable of its own, and what comes after both
reads the variable of the first one.  The winner is signed with a key that is read from the text
to be signed.
-/

namespace SocietyGold

open Support

/-! ## The text of a winner -/

/-- `COutPoint::ToString`. -/
def COutPoint.toString (prevout : COutPoint) : List UInt8 :=
  textBytes "COutPoint(" ++ (uint256ToString prevout.hash).take 10 ++ textBytes ", " ++
    lexicalCast prevout.n ++ textBytes ")"

/-- `CTxIn::ToString`. -/
def CTxIn.toString (txin : CTxIn) : List UInt8 :=
  textBytes "CTxIn(" ++ txin.prevout.toString ++
    (if txin.prevout.isNull then textBytes ", coinbase " ++ textBytes (hexStr txin.scriptSig)
      else textBytes ", scriptSig=" ++ (textBytes (CScript.toString txin.scriptSig)).take 24) ++
    (if txin.nSequence ≠ UINT_MAX then textBytes ", nSequence=" ++ lexicalCast txin.nSequence
      else []) ++
    textBytes ")"

/-- The text that is signed for a winner. -/
def CMasternodePaymentWinner.strMessage (winner : CMasternodePaymentWinner) : List UInt8 :=
  cString winner.vin.toString ++ lexicalCast winner.nBlockHeight ++
    textBytes (CScript.toString winner.payee)

/-- `CMasternodePaymentWinner()`. -/
def CMasternodePaymentWinner.null : CMasternodePaymentWinner := ⟨0, CTxIn.null, [], [], 0⟩

/-! ## The node -/

/-- What `ProcessBlock` reads and changes: the masternode list, the cache of block hashes and the
fields of `masternodePayments`. -/
structure PaymentNode where
  vMasternodes : List CMasternode
  mapCacheBlockHashes : Table ℤ ℕ
  payments : CMasternodePayments
  strMasterPrivKey : List UInt8
  enabled : Bool
  nLastBlockHeight : ℤ

/-- What `ProcessBlock` leaves behind, with the hashes that `Relay` announces. -/
structure ProcessedPayment where
  fRet : Bool
  node : PaymentNode
  relayed : List ℕ

namespace PaymentNode

open CMasternodeMan

section Code

variable (env : MasternodeEnv) (signer : CDarkSendSigner) (keys : SecretKeyTools) (st : ChainState)

/-- `Sign`.  The call with `strMasterPrivKey` is commented out in the source; the one that replaces
it reads the key from the text to be signed. -/
def sign (winner : CMasternodePaymentWinner) : Checked (Bool × CMasternodePaymentWinner) := do
  let strMessage := winner.strMessage
  let secret ← keys.setKey env.prims strMessage
  match secret with
  | none => .ok (false, winner)
  | some (key2, pubkey2) =>
      let (fSigned, vchSig) := signer.signMessage strMessage winner.vchSig key2
      let winner := { winner with vchSig := vchSig }
      if !fSigned then .ok (false, winner)
      else .ok ((signer.verifyMessage pubkey2 vchSig strMessage).1, winner)

/-- The inputs paid last, latest first.  The loop ends once there are more than `nMinimumAge`. -/
def vecLastPayments (vWinning : List CMasternodePaymentWinner) (nMinimumAge : ℕ) : List CTxIn :=
  (vWinning.reverse.map CMasternodePaymentWinner.vin).take (nMinimumAge + 1)

/-- The number drawn from the hash of a block: two of its bytes, over two bytes that are not
initialised. -/
def drawnHash (hash uninitialised : ℕ) : ℕ :=
  hash % 2 ^ 16 + uninitialised % 2 ^ 16 * 2 ^ 16

/-- The winner that a masternode becomes. -/
def winnerOf (nBlockHeight : ℤ) (nHash : ℕ) (mn : CMasternode) : CMasternodePaymentWinner where
  nBlockHeight := nBlockHeight
  vin := mn.vin
  payee :=
    if mn.rewardPercentage > 0 ∧ nHash % 100 ≤ mn.rewardPercentage then mn.rewardAddress
    else scriptForKeyID (mn.pubkey.getID signer.prims)
  vchSig := []
  score := 0

/-- The first search: the list afterwards and the position that `pmn` points to.  The reward of
what is found is set. -/
def oldestPayee (vMasternodes : List CMasternode) (vecLastPayments : List CTxIn)
    (nMinimumAge : ℕ) : Checked (List CMasternode × Option ℕ) := do
  let (vMasternodes, pmn) ← findOldestNotInVec env st vMasternodes vecLastPayments nMinimumAge
  match pmn with
  | none => .ok (vMasternodes, none)
  | some i =>
      .ok (vMasternodes.modify i fun mn => { mn with rewardPercentage := 40 }, some i)

/-- The loop of the second search: the list afterwards and the masternode that is found. -/
def recentPayee (vMasternodes : List CMasternode) :
    List CTxIn → Checked (List CMasternode × Option CMasternode)
  | [] => .ok (vMasternodes, none)
  | vinLP :: rest =>
      match findIdx vMasternodes vinLP with
      | none => recentPayee vMasternodes rest
      | some i => do
          let mn ← elementAt vMasternodes i
          let mn ← mn.check env st
          let vMasternodes := vMasternodes.set i mn
          if !mn.isEnabled then recentPayee vMasternodes rest
          else .ok (vMasternodes, some mn)

/-- Both searches: the list afterwards, what `pmn` points to after the first one, and the winner. -/
def chooseWinner (vMasternodes : List CMasternode) (vecLastPayments : List CTxIn)
    (nMinimumAge : ℕ) (nBlockHeight : ℤ) (nHash : ℕ) :
    Checked (List CMasternode × Option CMasternode × CMasternodePaymentWinner) := do
  let (vMasternodes, pos) ← oldestPayee env st vMasternodes vecLastPayments nMinimumAge
  let pmn := pos.bind (vMasternodes[·]?)
  let newWinner := (pmn.map (winnerOf signer nBlockHeight nHash)).getD .null
  if newWinner.nBlockHeight = 0 ∧ nMinimumAge > 0 then do
    -- the masternode found here is not the one `pmn` names outside
    let (vMasternodes, found) ← recentPayee env st vMasternodes vecLastPayments.reverse
    .ok (vMasternodes, pmn, (found.map (winnerOf signer nBlockHeight nHash)).getD newWinner)
  else .ok (vMasternodes, pmn, newWinner)

/-- `ProcessBlock`, with the bytes that its number is drawn over. -/
def processBlock (uninitialised : ℕ) (node : PaymentNode) (nBlockHeight : ℤ) :
    Checked ProcessedPayment :=
  if nBlockHeight ≤ node.nLastBlockHeight then .ok ⟨false, node, []⟩
  else do
    let (vMasternodes, nMinimumAge) ← countEnabled env st node.vMasternodes (-1)
    let (found, cache) ← getBlockHash st node.mapCacheBlockHashes (nBlockHeight - 10)
    let node :=
      { node with enabled := true, vMasternodes := vMasternodes, mapCacheBlockHashes := cache }
    match found with
    | none => .ok ⟨false, node, []⟩
    | some hash => do
        let (vMasternodes, pmn, newWinner) ← chooseWinner env signer st vMasternodes
          (vecLastPayments node.payments.vWinning nMinimumAge) nMinimumAge nBlockHeight
          (drawnHash hash uninitialised)
        let node := { node with vMasternodes := vMasternodes }
        if newWinner.nBlockHeight = 0 then .ok ⟨false, node, []⟩
        else do
          -- the address of `pmn` is made and not used
          let _ ← deref pmn
          let (fSigned, newWinner) ← sign env signer keys newWinner
          if !fSigned then .ok ⟨false, node, []⟩
          else do
            let (fAdded, cache, payments) ← CMasternodePayments.addWinningMasternode env.prims st
              node.mapCacheBlockHashes node.payments newWinner
            let node := { node with mapCacheBlockHashes := cache, payments := payments }
            if !fAdded then .ok ⟨false, node, []⟩
            else .ok ⟨true, { node with nLastBlockHeight := nBlockHeight },
              [newWinner.getHash env.prims]⟩

end Code

/-! ## The signature -/

/-- The text of a winner is no secret. -/
theorem setKey_strMessage
    (keys : SecretKeyTools) (prims : Primitives) (winner : CMasternodePaymentWinner) :
    keys.setKey prims winner.strMessage = .ok none := by
  have hStart : ∃ rest, winner.strMessage = 0x43 :: [0x54, 0x78] ++ 0x49 :: rest := by
    unfold CMasternodePaymentWinner.strMessage CTxIn.toString
    exact ⟨_, rfl⟩
  obtain ⟨rest, hText⟩ := hStart
  rw [hText]
  apply setKey_eq_none <;> decide +kernel

/-- So no winner is signed. -/
theorem sign_eq
    (env : MasternodeEnv) (signer : CDarkSendSigner) (keys : SecretKeyTools)
    (winner : CMasternodePaymentWinner) :
    sign env signer keys winner = .ok (false, winner) := by
  rw [sign, setKey_strMessage]
  rfl

/-! ## What the searches look at -/

section Entries

variable {env : MasternodeEnv} {st : ChainState}

/-- What `Find`, `Check` and `IsEnabled` read of a masternode. -/
def searched (mn : CMasternode) : CTxIn × Bool × ℤ × Bool :=
  (mn.vin, mn.isPortOpen, mn.activeState, mn.unitTest)

theorem isEnabled_of_searched
    {mn mn' : CMasternode} (h : searched mn = searched mn') : mn.isEnabled = mn'.isEnabled := by
  simp only [searched, Prod.mk.injEq] at h
  unfold CMasternode.isEnabled
  rw [h.2.1, h.2.2.1]

/-- A masternode stays as its check has left it, also when its other fields have changed. -/
theorem check_of_searched
    {mn mn' : CMasternode} (h : searched mn = searched mn') (hSettled : mn.check env st = .ok mn) :
    mn'.check env st = .ok mn' := by
  simp only [searched, Prod.mk.injEq] at h
  obtain ⟨hVin, -, hState, hTest⟩ := h
  cases hShutdown : env.fRequestShutdown with
  | true =>
      unfold CMasternode.check
      rw [hShutdown, if_pos rfl]
  | false =>
      obtain ⟨hEnabled, hReturns⟩ := (check_eq_ok_iff hShutdown).mp hSettled
      have hActive : mn'.activeState = MASTERNODE_ENABLED := by
        rw [← hState, hEnabled]
      refine (check_eq_ok_iff hShutdown).mpr ⟨?_, ?_⟩
      · rw [← hActive]
      · rwa [← hTest, ← hVin]

/-- What `Find` points to. -/
def entryOf (vMasternodes : List CMasternode) (vin : CTxIn) : Option CMasternode :=
  (findIdx vMasternodes vin).bind (vMasternodes[·]?)

theorem map_searched_modify
    {f : CMasternode → CMasternode} (h : ∀ mn, searched (f mn) = searched mn)
    (vMasternodes : List CMasternode) (i : ℕ) :
    (vMasternodes.modify i f).map searched = vMasternodes.map searched := by
  apply List.ext_getElem?
  intro j
  rw [List.getElem?_map, List.getElem?_modify, List.getElem?_map]
  split_ifs
  · simp [Function.comp_def, h]
  · simp

theorem findIdx_of_searched
    {vMasternodes after : List CMasternode} (h : after.map searched = vMasternodes.map searched)
    (vin : CTxIn) : findIdx after vin = findIdx vMasternodes vin := by
  have hMap : ∀ list : List CMasternode, findIdx list vin =
      (list.map searched).findIdx? fun s => s.1.prevout = vin.prevout := by
    intro list
    rw [List.findIdx?_map]
    rfl
  rw [hMap, hMap, h]

theorem entryOf_of_searched
    {vMasternodes after : List CMasternode} (h : after.map searched = vMasternodes.map searched)
    (vin : CTxIn) : (entryOf after vin).map searched = (entryOf vMasternodes vin).map searched := by
  unfold entryOf
  rw [findIdx_of_searched h]
  cases findIdx vMasternodes vin with
  | none => rfl
  | some i => simp only [Option.bind_some, ← List.getElem?_map, h]

/-- `CountEnabled` leaves every masternode as its check does. -/
theorem check_of_countEnabledLoop
    {protocolVersion : ℤ} {vMasternodes checked : List CMasternode} {i n : ℕ}
    (h : countEnabledLoop env st protocolVersion vMasternodes i = .ok (checked, n)) :
    ∀ mn ∈ checked, mn.check env st = .ok mn := by
  induction vMasternodes generalizing checked i n with
  | nil =>
      simp only [countEnabledLoop, Except.ok.injEq, Prod.mk.injEq] at h
      simp [← h.1]
  | cons mn rest ih =>
      rw [countEnabledLoop] at h
      obtain ⟨first, hFirst, h⟩ := bind_eq_ok.mp h
      obtain ⟨⟨rest', n'⟩, hRest, h⟩ := bind_eq_ok.mp h
      simp only [Except.ok.injEq, Prod.mk.injEq] at h
      rw [← h.1]
      intro other hMem
      rcases List.mem_cons.mp hMem with rfl | hTail
      · exact check_again hFirst
      · exact ih hRest other hTail

end Entries

/-! ## Who may be chosen -/

section Candidates

variable (env : MasternodeEnv) (st : ChainState)

/-- The input of the masternode is among those paid recently. -/
def RecentlyPaid (vecLastPayments : List CTxIn) (mn : CMasternode) : Prop :=
  ∃ vin ∈ vecLastPayments, mn.vin.prevout = vin.prevout

instance (vecLastPayments : List CTxIn) (mn : CMasternode) :
    Decidable (RecentlyPaid vecLastPayments mn) :=
  inferInstanceAs (Decidable (∃ vin ∈ vecLastPayments, mn.vin.prevout = vin.prevout))

/-- Enabled, old enough and not paid recently. -/
def Payable (vecLastPayments : List CTxIn) (nMinimumAge : ℕ) (mn : CMasternode) : Prop :=
  mn.isEnabled = true ∧
    (∃ age mn', mn.getMasternodeInputAge env.toEnv st = .ok (age, mn') ∧ nMinimumAge ≤ age) ∧
    ¬RecentlyPaid vecLastPayments mn

/-- `Find` leads from one of the inputs to an enabled masternode. -/
def FindsEnabled (vMasternodes : List CMasternode) (vecLastPayments : List CTxIn) : Prop :=
  ∃ vin ∈ vecLastPayments, ∃ mn, entryOf vMasternodes vin = some mn ∧ mn.isEnabled = true

end Candidates

/-! ## The searches -/

section Searches

variable {env : MasternodeEnv} {st : ChainState} {vecLastPayments : List CTxIn} {nMinimumAge : ℕ}
  {vMasternodes : List CMasternode}

/-- With a best block the age of an input is known; what is remembered of it may change. -/
theorem getMasternodeInputAge_eq
    {pindexBest : CBlockIndex} (hBest : st.entry st.pindexBest = some pindexBest)
    (mn : CMasternode) :
    ∃ age mn', mn.getMasternodeInputAge env.toEnv st = .ok (age, mn') ∧
      searched mn' = searched mn := by
  have hAge : ∃ age, getInputAge env.toEnv st mn.vin = .ok age := by
    unfold getInputAge
    dsimp only
    split_ifs
    · split
      · exact ⟨_, by rw [hBest]; rfl⟩
      · exact ⟨0, rfl⟩
    · exact ⟨0, rfl⟩
  obtain ⟨age, hAge⟩ := hAge
  unfold CMasternode.getMasternodeInputAge
  rw [hBest]
  dsimp only
  split_ifs
  · rw [hAge]
    exact ⟨_, _, rfl, rfl⟩
  · exact ⟨_, _, rfl, rfl⟩

/-- One masternode in the first search. -/
theorem testOldest_eq
    {pindexBest : CBlockIndex} (hBest : st.entry st.pindexBest = some pindexBest)
    {mn : CMasternode} (hSettled : mn.check env st = .ok mn) :
    ∃ after eligible, testOldest env st vecLastPayments nMinimumAge mn = .ok (after, eligible) ∧
      searched after = searched mn ∧
      (eligible = true ↔ Payable env st vecLastPayments nMinimumAge mn) := by
  obtain ⟨age, after, hAge, hAfter⟩ := @getMasternodeInputAge_eq env st _ hBest mn
  have hPayable : Payable env st vecLastPayments nMinimumAge mn ↔
      mn.isEnabled = true ∧ nMinimumAge ≤ age ∧ ¬RecentlyPaid vecLastPayments mn := by
    simp [Payable, hAge]
  rw [hPayable, testOldest, hSettled, ok_bind]
  cases hEnabled : mn.isEnabled with
  | false => exact ⟨mn, false, rfl, rfl, by simp⟩
  | true =>
      simp only [Bool.not_true, Bool.false_eq_true, if_false, hAge, ok_bind, true_and]
      by_cases hYoung : age < nMinimumAge
      · rw [if_pos hYoung]
        exact ⟨after, false, rfl, hAfter, by simp [hYoung]⟩
      · have hVin : after.vin = mn.vin := congrArg Prod.fst hAfter
        rw [if_neg hYoung]
        refine ⟨after, _, rfl, hAfter, ?_⟩
        simp [RecentlyPaid, hVin, not_lt.mp hYoung]

/-- The first search finds a position unless nobody may be paid. -/
theorem findOldestLoop_eq
    {pindexBest : CBlockIndex} (hBest : st.entry st.pindexBest = some pindexBest)
    (hSettled : ∀ mn ∈ vMasternodes, mn.check env st = .ok mn)
    (pos : ℕ) (pOldest : Option (ℕ × CMasternode)) (hPos : ∀ oldest ∈ pOldest, oldest.1 < pos) :
    ∃ after found, findOldestLoop env st vecLastPayments nMinimumAge vMasternodes pos pOldest =
        .ok (after, found) ∧
      after.map searched = vMasternodes.map searched ∧
      (found = none ↔ pOldest = none ∧
        ∀ mn ∈ vMasternodes, ¬Payable env st vecLastPayments nMinimumAge mn) ∧
      ∀ oldest ∈ found, oldest.1 < pos + vMasternodes.length := by
  induction vMasternodes generalizing pos pOldest with
  | nil => exact ⟨[], pOldest, rfl, rfl, by simp, hPos⟩
  | cons mn rest ih =>
      obtain ⟨first, eligible, hTest, hFirst, hEligible⟩ :=
        @testOldest_eq env st vecLastPayments nMinimumAge _ hBest mn
          (hSettled mn List.mem_cons_self)
      rw [findOldestLoop, hTest, ok_bind]
      dsimp only
      generalize hNext : (if (eligible && _) = true then some (pos, first) else pOldest) = next
      have hNextPos : ∀ oldest ∈ next, oldest.1 < pos + 1 := by
        intro oldest hMem
        rw [← hNext] at hMem
        split_ifs at hMem
        · rw [Option.mem_some_iff.mp hMem.symm]
          exact Nat.lt_succ_self pos
        · exact Nat.lt_succ_of_lt (hPos oldest hMem)
      have hNextNone : next = none ↔ pOldest = none ∧ eligible = false := by
        rw [← hNext]
        cases pOldest with
        | none => cases eligible <;> simp
        | some oldest => split_ifs <;> simp
      obtain ⟨after, found, hRest, hAfter, hNone, hFound⟩ :=
        ih (fun other hMem => hSettled other (List.mem_cons_of_mem mn hMem)) (pos + 1) next hNextPos
      refine ⟨first :: after, found, ?_, ?_, ?_, ?_⟩
      · rw [hRest, ok_bind]
      · rw [List.map_cons, List.map_cons, hFirst, hAfter]
      · rw [hNone, hNextNone, List.forall_mem_cons, ← hEligible, Bool.not_eq_true, and_assoc]
      · intro oldest hMem
        have hLt := hFound oldest hMem
        rw [List.length_cons]
        omega

theorem oldestPayee_eq
    {pindexBest : CBlockIndex} (hBest : st.entry st.pindexBest = some pindexBest)
    (hSettled : ∀ mn ∈ vMasternodes, mn.check env st = .ok mn) :
    ∃ after pos, oldestPayee env st vMasternodes vecLastPayments nMinimumAge = .ok (after, pos) ∧
      after.map searched = vMasternodes.map searched ∧
      (pos.bind (after[·]?) = none ↔
        ∀ mn ∈ vMasternodes, ¬Payable env st vecLastPayments nMinimumAge mn) := by
  obtain ⟨after, found, hLoop, hAfter, hNone, hFound⟩ :=
    @findOldestLoop_eq env st vecLastPayments nMinimumAge _ _ hBest hSettled 0 none (by simp)
  have hRun : findOldestNotInVec env st vMasternodes vecLastPayments nMinimumAge =
      .ok (after, found.map Prod.fst) := by
    rw [findOldestNotInVec, hLoop, ok_bind]
  rw [oldestPayee, hRun, ok_bind]
  cases found with
  | none => exact ⟨after, none, rfl, hAfter, by simpa using hNone⟩
  | some oldest =>
      have hLength : after.length = vMasternodes.length := by
        simpa using congrArg List.length hAfter
      have hLt := hFound oldest rfl
      rw [zero_add, ← hLength] at hLt
      refine ⟨_, some oldest.1, rfl, ?_, ?_⟩
      · rw [← hAfter, map_searched_modify]
        intro mn
        rfl
      · simpa [hLt] using hNone

/-- The second search finds one of the inputs' masternodes unless none of them is enabled. -/
theorem recentPayee_eq
    (hSettled : ∀ mn ∈ vMasternodes, mn.check env st = .ok mn) (vins : List CTxIn) :
    ∃ found, recentPayee env st vMasternodes vins = .ok (vMasternodes, found) ∧
      (found = none ↔ ¬FindsEnabled vMasternodes vins) := by
  induction vins with
  | nil => exact ⟨none, rfl, by simp [FindsEnabled]⟩
  | cons vinLP rest ih =>
      obtain ⟨found, hRest, hFound⟩ := ih
      have hCons : FindsEnabled vMasternodes (vinLP :: rest) ↔
          (∃ mn, entryOf vMasternodes vinLP = some mn ∧ mn.isEnabled = true) ∨
            FindsEnabled vMasternodes rest := by
        simp [FindsEnabled]
      rw [recentPayee, hCons]
      cases hFind : findIdx vMasternodes vinLP with
      | none => exact ⟨found, hRest, by simpa [entryOf, hFind] using hFound⟩
      | some i =>
          have hLt : i < vMasternodes.length := by
            obtain ⟨hLt, -⟩ := List.findIdx?_eq_some_iff_getElem.mp hFind
            exact hLt
          have hEntry : entryOf vMasternodes vinLP = some vMasternodes[i] := by
            simp [entryOf, hFind, hLt]
          simp only [elementAt_of_lt hLt, ok_bind, hSettled _ (List.getElem_mem hLt),
            List.set_getElem_self, hEntry, Option.some.injEq, exists_eq_left']
          cases hEnabled : vMasternodes[i].isEnabled with
          | false => exact ⟨found, by simpa using hRest, by simpa using hFound⟩
          | true => exact ⟨some vMasternodes[i], by simp, by simp⟩

theorem check_of_map_searched
    {after : List CMasternode} (h : after.map searched = vMasternodes.map searched)
    (hSettled : ∀ mn ∈ vMasternodes, mn.check env st = .ok mn) :
    ∀ mn ∈ after, mn.check env st = .ok mn := by
  intro mn hMem
  have hThere : searched mn ∈ vMasternodes.map searched := h ▸ List.mem_map_of_mem hMem
  obtain ⟨before, hBefore, hSame⟩ := List.mem_map.mp hThere
  exact check_of_searched hSame (hSettled before hBefore)

theorem findsEnabled_of_searched
    {after : List CMasternode} (h : after.map searched = vMasternodes.map searched) :
    FindsEnabled after vecLastPayments.reverse ↔ FindsEnabled vMasternodes vecLastPayments := by
  have hEntry : ∀ vin, (∃ mn, entryOf after vin = some mn ∧ mn.isEnabled = true) ↔
      ∃ mn, entryOf vMasternodes vin = some mn ∧ mn.isEnabled = true := by
    intro vin
    have hSame := entryOf_of_searched h vin
    cases hAfter : entryOf after vin with
    | none =>
        rw [hAfter, Option.map_none, eq_comm, Option.map_eq_none_iff] at hSame
        rw [hSame]
    | some mn =>
        rw [hAfter, Option.map_some, eq_comm, Option.map_eq_some_iff] at hSame
        obtain ⟨mn', hBefore, hMn⟩ := hSame
        simp [hBefore, isEnabled_of_searched hMn]
  simp only [FindsEnabled, List.mem_reverse, hEntry]

/-- Both searches: `pmn` tells of the first one only, the winner of both. -/
theorem chooseWinner_eq
    (signer : CDarkSendSigner) {pindexBest : CBlockIndex}
    (hBest : st.entry st.pindexBest = some pindexBest)
    (hSettled : ∀ mn ∈ vMasternodes, mn.check env st = .ok mn) (nBlockHeight : ℤ) (nHash : ℕ) :
    ∃ after pmn newWinner, chooseWinner env signer st vMasternodes vecLastPayments nMinimumAge
        nBlockHeight nHash = .ok (after, pmn, newWinner) ∧
      (pmn = none ↔ ∀ mn ∈ vMasternodes, ¬Payable env st vecLastPayments nMinimumAge mn) ∧
      (newWinner.nBlockHeight = 0 ↔ nBlockHeight = 0 ∨ (pmn = none ∧
        (nMinimumAge = 0 ∨ ¬FindsEnabled vMasternodes vecLastPayments))) := by
  obtain ⟨after, pos, hOldest, hAfter, hNone⟩ :=
    @oldestPayee_eq env st vecLastPayments nMinimumAge _ _ hBest hSettled
  obtain ⟨found, hRecent, hFound⟩ :=
    recentPayee_eq (check_of_map_searched hAfter hSettled) vecLastPayments.reverse
  rw [findsEnabled_of_searched hAfter] at hFound
  rw [chooseWinner, hOldest, ok_bind]
  dsimp only
  generalize pos.bind (after[·]?) = pmn at hNone ⊢
  have hFirst : ((pmn.map (winnerOf signer nBlockHeight nHash)).getD .null).nBlockHeight = 0 ↔
      pmn = none ∨ nBlockHeight = 0 := by
    cases pmn with
    | none => simp [CMasternodePaymentWinner.null]
    | some mn => simp [winnerOf]
  split_ifs with hSecond
  · rw [hFirst] at hSecond
    rw [hRecent, ok_bind]
    refine ⟨after, pmn, _, rfl, hNone, ?_⟩
    cases found with
    | none =>
        have hNot := hFound.mp rfl
        have hThen : pmn = none → nMinimumAge = 0 ∨
            ¬FindsEnabled vMasternodes vecLastPayments := fun _ => Or.inr hNot
        rw [Option.map_none, Option.getD_none, hFirst, and_iff_left_of_imp hThen, or_comm]
    | some mn =>
        have hFinds : FindsEnabled vMasternodes vecLastPayments := by
          by_contra hNot
          cases hFound.mpr hNot
        have hPos : nMinimumAge ≠ 0 := hSecond.2.ne'
        simp [winnerOf, hFinds, hPos]
  · rw [hFirst] at hSecond
    refine ⟨after, pmn, _, rfl, hNone, ?_⟩
    have hThen : pmn = none → nMinimumAge = 0 ∨
        ¬FindsEnabled vMasternodes vecLastPayments := by
      intro hPmn
      left
      by_contra hPos
      exact hSecond ⟨Or.inl hPmn, Nat.pos_of_ne_zero hPos⟩
    rw [hFirst, and_iff_left_of_imp hThen, or_comm]

end Searches

/-! ## When the choice is safe and effective -/

section Choice

variable (env : MasternodeEnv) (signer : CDarkSendSigner) (keys : SecretKeyTools) (st : ChainState)

/-- The key that is configured is a secret key. -/
def HasMasterKey (prims : Primitives) (node : PaymentNode) : Prop :=
  ∃ secret, keys.setKey prims node.strMasterPrivKey = .ok (some secret)

/-- Some masternode is enabled and old enough without having been paid recently, or enabled and
among those paid recently. -/
def HasCandidate (vecLastPayments : List CTxIn) (nMinimumAge : ℕ)
    (vMasternodes : List CMasternode) : Prop :=
  ∃ mn ∈ vMasternodes, Payable env st vecLastPayments nMinimumAge mn ∨
    (mn.isEnabled = true ∧ RecentlyPaid vecLastPayments mn)

/-- What the choice of a payee is to do, once `CountEnabled` has left a list and a number. -/
structure ChoosesPayee (uninitialised : ℕ) (node : PaymentNode) (nBlockHeight : ℤ)
    (checked : List CMasternode) (nMinimumAge : ℕ) : Prop where
  safe : processBlock env signer keys st uninitialised node nBlockHeight ≠
    .error .nullDereference
  effective : HasCandidate env st (vecLastPayments node.payments.vWinning nMinimumAge)
      nMinimumAge checked →
    HasMasterKey keys env.prims node →
    ∃ processed, processBlock env signer keys st uninitialised node nBlockHeight =
        .ok processed ∧
      processed.fRet = true ∧ processed.node.nLastBlockHeight = nBlockHeight ∧
      ∃ winner ∈ processed.node.payments.vWinning, winner.nBlockHeight = nBlockHeight

variable {env signer keys st}

variable {uninitialised hash : ℕ} {node : PaymentNode} {nBlockHeight : ℤ}
  {checked after : List CMasternode} {nMinimumAge : ℕ} {cache : Table ℤ ℕ}
  {pmn : Option CMasternode} {newWinner : CMasternodePaymentWinner}

/-- Where a block hash is known there is a best block. -/
theorem exists_best_of_getBlockHash
    {known : Table ℤ ℕ} {height : ℤ} (h : getBlockHash st known height = .ok (some hash, cache)) :
    ∃ pindexBest, st.entry st.pindexBest = some pindexBest := by
  unfold getBlockHash at h
  cases hBest : st.entry st.pindexBest with
  | none =>
      rw [hBest] at h
      cases h
  | some pindexBest => exact ⟨pindexBest, rfl⟩

/-- `ProcessBlock` follows a null pointer if the first search fails and the second one does not.
Otherwise it returns false. -/
theorem processBlock_eq
    (hHeight : node.nLastBlockHeight < nBlockHeight)
    (hCount : countEnabled env st node.vMasternodes (-1) = .ok (checked, nMinimumAge))
    (hHash : getBlockHash st node.mapCacheBlockHashes (nBlockHeight - 10) =
      .ok (some hash, cache))
    (hChosen : chooseWinner env signer st checked
      (vecLastPayments node.payments.vWinning nMinimumAge) nMinimumAge nBlockHeight
      (drawnHash hash uninitialised) = .ok (after, pmn, newWinner)) :
    (newWinner.nBlockHeight ≠ 0 → pmn = none →
      processBlock env signer keys st uninitialised node nBlockHeight = .error .nullDereference) ∧
    (newWinner.nBlockHeight = 0 ∨ pmn ≠ none →
      ∃ node', processBlock env signer keys st uninitialised node nBlockHeight =
        .ok ⟨false, node', []⟩) := by
  rw [processBlock, if_neg (not_le.mpr hHeight), hCount, ok_bind]
  dsimp only
  rw [hHash, ok_bind]
  dsimp only
  rw [hChosen, ok_bind]
  dsimp only
  constructor
  · intro hWinner hPmn
    rw [if_neg hWinner, hPmn]
    rfl
  · intro h
    by_cases hWinner : newWinner.nBlockHeight = 0
    · rw [if_pos hWinner]
      exact ⟨_, rfl⟩
    · obtain ⟨mn, hMn⟩ := Option.ne_none_iff_exists'.mp (h.resolve_left hWinner)
      rw [if_neg hWinner, hMn, sign_eq]
      exact ⟨_, rfl⟩

/-- Nothing is recorded, whatever is found. -/
theorem processBlock_fRet
    (hHeight : node.nLastBlockHeight < nBlockHeight)
    (hCount : countEnabled env st node.vMasternodes (-1) = .ok (checked, nMinimumAge))
    (hHash : getBlockHash st node.mapCacheBlockHashes (nBlockHeight - 10) =
      .ok (some hash, cache))
    (hChosen : chooseWinner env signer st checked
      (vecLastPayments node.payments.vWinning nMinimumAge) nMinimumAge nBlockHeight
      (drawnHash hash uninitialised) = .ok (after, pmn, newWinner))
    {processed : ProcessedPayment}
    (hRun : processBlock env signer keys st uninitialised node nBlockHeight = .ok processed) :
    processed.fRet = false := by
  obtain ⟨hFault, hReturn⟩ := processBlock_eq hHeight hCount hHash hChosen
  by_cases hSafe : newWinner.nBlockHeight = 0 ∨ pmn ≠ none
  · obtain ⟨node', hFalse⟩ := hReturn hSafe
    rw [hFalse, Except.ok.injEq] at hRun
    rw [← hRun]
  · rw [not_or, not_not] at hSafe
    rw [hFault hSafe.1 hSafe.2] at hRun
    cases hRun

theorem processBlock_safe_iff
    (hHeight : node.nLastBlockHeight < nBlockHeight)
    (hCount : countEnabled env st node.vMasternodes (-1) = .ok (checked, nMinimumAge))
    (hHash : getBlockHash st node.mapCacheBlockHashes (nBlockHeight - 10) =
      .ok (some hash, cache))
    (hChosen : chooseWinner env signer st checked
      (vecLastPayments node.payments.vWinning nMinimumAge) nMinimumAge nBlockHeight
      (drawnHash hash uninitialised) = .ok (after, pmn, newWinner)) :
    processBlock env signer keys st uninitialised node nBlockHeight ≠ .error .nullDereference ↔
      newWinner.nBlockHeight = 0 ∨ pmn ≠ none := by
  obtain ⟨hFault, hReturn⟩ := processBlock_eq hHeight hCount hHash hChosen
  constructor
  · intro hRun
    by_contra hNull
    rw [not_or, not_not] at hNull
    exact hRun (hFault hNull.1 hNull.2)
  · intro h hRun
    obtain ⟨node', hFalse⟩ := hReturn h
    rw [hFalse] at hRun
    cases hRun

/-- The choice is safe and effective exactly if no master key is configured where there is a
candidate, and where `Find` leads to an enabled masternode that was paid recently, the first search
has a result as well, or nobody is counted, or the height is zero. -/
theorem choosesPayee_iff
    (hHeight : node.nLastBlockHeight < nBlockHeight)
    (hCount : countEnabled env st node.vMasternodes (-1) = .ok (checked, nMinimumAge))
    (hHash : getBlockHash st node.mapCacheBlockHashes (nBlockHeight - 10) =
      .ok (some hash, cache)) :
    ChoosesPayee env signer keys st uninitialised node nBlockHeight checked nMinimumAge ↔
      (HasCandidate env st (vecLastPayments node.payments.vWinning nMinimumAge) nMinimumAge
          checked → ¬HasMasterKey keys env.prims node) ∧
        (FindsEnabled checked (vecLastPayments node.payments.vWinning nMinimumAge) →
          (∃ mn ∈ checked, Payable env st
            (vecLastPayments node.payments.vWinning nMinimumAge) nMinimumAge mn) ∨
          nMinimumAge = 0 ∨ nBlockHeight = 0) := by
  obtain ⟨pindexBest, hBest⟩ := exists_best_of_getBlockHash hHash
  obtain ⟨after, pmn, newWinner, hChosen, hPmn, hWinner⟩ :=
    @chooseWinner_eq env st (vecLastPayments node.payments.vWinning nMinimumAge) nMinimumAge checked
      signer pindexBest hBest (check_of_countEnabledLoop hCount) nBlockHeight
      (drawnHash hash uninitialised)
  have hSafe : processBlock env signer keys st uninitialised node nBlockHeight ≠ _ ↔ _ :=
    processBlock_safe_iff hHeight hCount hHash hChosen
  rw [hWinner] at hSafe
  constructor
  · rintro ⟨hFollows, hEffective⟩
    refine ⟨?_, ?_⟩
    · intro hCandidate hKey
      obtain ⟨processed, hRun, hTrue, -⟩ := hEffective hCandidate hKey
      rw [processBlock_fRet hHeight hCount hHash hChosen hRun] at hTrue
      cases hTrue
    · intro hFinds
      rcases hSafe.mp hFollows with (hZero | ⟨-, hNobody | hNot⟩) | hFirst
      · exact Or.inr (Or.inr hZero)
      · exact Or.inr (Or.inl hNobody)
      · exact absurd hFinds hNot
      · left
        by_contra hNone
        exact hFirst (hPmn.mpr fun mn hMem hPayable => hNone ⟨mn, hMem, hPayable⟩)
  · rintro ⟨hNoKey, hFirst⟩
    refine ⟨hSafe.mpr ?_, fun hCandidate hKey => absurd hKey (hNoKey hCandidate)⟩
    by_cases hNone : pmn = none
    · left
      by_cases hFinds : FindsEnabled checked (vecLastPayments node.payments.vWinning nMinimumAge)
      · rcases hFirst hFinds with ⟨mn, hMem, hPayable⟩ | hNobody | hZero
        · exact absurd hPayable (hPmn.mp hNone mn hMem)
        · exact Or.inr ⟨hNone, Or.inl hNobody⟩
        · exact Or.inl hZero
      · exact Or.inr ⟨hNone, Or.inr hFinds⟩
    · exact Or.inr hNone

end Choice

end PaymentNode

/-! ## One masternode, paid in the block before -/

namespace Sample

open CMasternodeMan PaymentNode

/-- Every secret is a key. -/
def secretKeyTools : SecretKeyTools where
  secretKeyVersion := [152]
  check _ := true
  getPubKey key fCompressed := CPubKey.ofBytes ((if fCompressed then 2 else 4) :: key)

/-- A node that has paid the masternode with the collateral in transaction 7 at height 11. -/
def paidNode (vMasternodes : List CMasternode) : PaymentNode where
  vMasternodes := vMasternodes
  mapCacheBlockHashes := ∅
  payments := ⟨[{ voteFor [] with nBlockHeight := 11 }], ∅⟩
  strMasterPrivKey := []
  enabled := false
  nLastBlockHeight := 11

theorem countEnabled_paid :
    countEnabled (masternodeEnv 900) (nodeAtHeight 2) [masternodeSeen 900 true] (-1) =
      .ok ([masternodeSeen 900 true], 1) := by
  decide +kernel

theorem getBlockHash_two :
    getBlockHash (nodeAtHeight 2) ∅ (12 - 10) =
      .ok (some 501, (∅ : Table ℤ ℕ).insert 2 501) := by
  rfl

/-- Only the second search finds a masternode, and the first one's null pointer is followed. -/
theorem paidMasternode_nullDereference :
    ¬∀ (env : MasternodeEnv) (signer : CDarkSendSigner) (keys : SecretKeyTools) (st : ChainState)
      (uninitialised : ℕ) (node : PaymentNode) (nBlockHeight : ℤ) (checked : List CMasternode)
      (nMinimumAge hash : ℕ) (cache : Table ℤ ℕ),
      node.nLastBlockHeight < nBlockHeight →
      countEnabled env st node.vMasternodes (-1) = .ok (checked, nMinimumAge) →
      getBlockHash st node.mapCacheBlockHashes (nBlockHeight - 10) = .ok (some hash, cache) →
      ChoosesPayee env signer keys st uninitialised node nBlockHeight checked nMinimumAge := by
  intro h
  have hChooses := h (masternodeEnv 900) announceSigner secretKeyTools (nodeAtHeight 2) 0
    (paidNode [masternodeSeen 900 true]) 12 _ _ _ _ (by decide) countEnabled_paid
    getBlockHash_two
  exact hChooses.safe (eq_error_of_test (by decide +kernel))

/-- Another masternode, with a collateral that has been there for some time. -/
def agedMasternode : CMasternode :=
  { masternodeSeen 900 true with
    vin := ⟨⟨8, 0⟩, [], UINT_MAX⟩
    cacheInputAge := 100
    cacheInputAgeBlock := 1 }

/-- With the other masternode the first search has a result, and without a master key nothing
more is asked. -/
theorem agedMasternode_found :
    ChoosesPayee (masternodeEnv 900) announceSigner secretKeyTools (nodeAtHeight 2) 0
      (paidNode [masternodeSeen 900 true, agedMasternode]) 12
      [masternodeSeen 900 true, agedMasternode] 2 := by
  refine (choosesPayee_iff (by decide) (by decide +kernel) getBlockHash_two).mpr ⟨?_, ?_⟩
  · rintro - ⟨secret, hSecret⟩
    have hNone : secretKeyTools.setKey (masternodeEnv 900).prims [] = .ok none := by
      decide +kernel
    cases hSecret.symm.trans hNone
  · intro _
    left
    refine ⟨agedMasternode, by simp, by decide +kernel, ?_, by decide +kernel⟩
    exact ⟨101, agedMasternode, by decide +kernel, by norm_num⟩

end Sample

end SocietyGold
