import SocietyGold.ScoreHash
import Mathlib.Data.List.MinMax

/-!
# Votes for the masternode to be paid

`AddWinningMasternode` keeps one vote for each height and replaces it by a vote with a higher
score.  The score is computed from the transaction of the collateral alone, so votes for
different payees may have the same score, and of those the first one stays.
-/

namespace SocietyGold

open Support

/-- `CMasternodePaymentWinner`: a vote for the masternode to be paid at a height. -/
structure CMasternodePaymentWinner where
  nBlockHeight : ℤ
  vin : CTxIn
  payee : CScript
  vchSig : List UInt8
  score : ℕ
  deriving DecidableEq

/-- The difference of two numbers of 256 bits. -/
def uint256Distance (a b : ℕ) : ℕ := if a > b then a - b else b - a

def CMasternodePaymentWinner.getHash (prims : Primitives) (winner : CMasternodePaymentWinner) :
    ℕ :=
  uint256Distance winner.vin.prevout.hash (prims.hash (intToBytesLE 4 winner.nBlockHeight))

structure CMasternodePayments where
  vWinning : List CMasternodePaymentWinner
  mapSeenMasternodeVotes : Table ℕ CMasternodePaymentWinner

namespace CMasternodePayments

/-- `CalculateScore`: the low 64 bits of the distance of two hashes. -/
def calculateScore (prims : Primitives) (blockHash : ℕ) (vin : CTxIn) : ℕ :=
  uint256Distance (prims.hash (toBytesLE 32 vin.prevout.hash))
    (prims.hash (toBytesLE 32 blockHash)) % 2 ^ 64

/-- `GetBlockPayee`: payee and input of the first vote for the height. -/
def getBlockPayee (vWinning : List CMasternodePaymentWinner) (nBlockHeight : ℤ) :
    Option (CScript × CTxIn) :=
  (vWinning.find? fun winner => winner.nBlockHeight = nBlockHeight).map fun winner =>
    (winner.payee, winner.vin)

/-- The loop of `AddWinningMasternode`: overwrite the first vote for the same height that has a
lower score. -/
def replaceWinner (winnerIn : CMasternodePaymentWinner) :
    List CMasternodePaymentWinner → Option (List CMasternodePaymentWinner)
  | [] => none
  | winner :: rest =>
      if winner.nBlockHeight = winnerIn.nBlockHeight ∧ winner.score < winnerIn.score then
        some ({ winner with
          score := winnerIn.score
          vin := winnerIn.vin
          payee := winnerIn.payee
          vchSig := winnerIn.vchSig } :: rest)
      else (replaceWinner winnerIn rest).map fun rest => winner :: rest

/-- What `AddWinningMasternode` does to the votes once the score is known. -/
def addWinner (vWinning : List CMasternodePaymentWinner)
    (winnerIn : CMasternodePaymentWinner) : Bool × List CMasternodePaymentWinner :=
  match replaceWinner winnerIn vWinning with
  | some vWinning => (true, vWinning)
  | none =>
      if vWinning.any fun winner => winner.nBlockHeight = winnerIn.nBlockHeight then
        (false, vWinning)
      else (true, vWinning ++ [winnerIn])

section Process

variable (prims : Primitives) (st : ChainState)

/-- `AddWinningMasternode`, with the cache of block hashes. -/
def addWinningMasternode (cache : Table ℤ ℕ) (payments : CMasternodePayments)
    (winnerIn : CMasternodePaymentWinner) : Checked (Bool × Table ℤ ℕ × CMasternodePayments) := do
  let (found, cache) ← getBlockHash st cache (winnerIn.nBlockHeight - 576)
  match found with
  | none => .ok (false, cache, payments)
  | some blockHash =>
      let winnerIn := { winnerIn with score := calculateScore prims blockHash winnerIn.vin }
      let (added, vWinning) := addWinner payments.vWinning winnerIn
      .ok (added, cache,
        { vWinning := vWinning
          mapSeenMasternodeVotes :=
            if added then
              payments.mapSeenMasternodeVotes.touch (winnerIn.getHash prims) winnerIn
            else payments.mapSeenMasternodeVotes })

/-- Messages one after the other. -/
def processWinners (cache : Table ℤ ℕ) (payments : CMasternodePayments) :
    List CMasternodePaymentWinner → Checked (Table ℤ ℕ × CMasternodePayments)
  | [] => .ok (cache, payments)
  | winnerIn :: rest => do
      let (_, cache, payments) ← addWinningMasternode prims st cache payments winnerIn
      processWinners cache payments rest

end Process

def empty : CMasternodePayments := ⟨[], ∅⟩

/-! ## The vote that stays -/

/-- The vote for a height. -/
def winnerAt (vWinning : List CMasternodePaymentWinner) (nBlockHeight : ℤ) :
    Option CMasternodePaymentWinner :=
  vWinning.find? fun winner => winner.nBlockHeight = nBlockHeight

/-- No two votes are for one height. -/
def OnePerHeight (vWinning : List CMasternodePaymentWinner) : Prop :=
  (vWinning.map CMasternodePaymentWinner.nBlockHeight).Nodup

section Winner

variable {vWinning : List CMasternodePaymentWinner} {winnerIn : CMasternodePaymentWinner}

theorem mem_of_winnerAt
    {winner : CMasternodePaymentWinner} {nBlockHeight : ℤ}
    (h : winnerAt vWinning nBlockHeight = some winner) :
    winner ∈ vWinning ∧ winner.nBlockHeight = nBlockHeight := by
  refine ⟨List.mem_of_find?_eq_some h, ?_⟩
  simpa using List.find?_some h

theorem winnerAt_of_mem
    {winner : CMasternodePaymentWinner} (hOne : OnePerHeight vWinning) (hMem : winner ∈ vWinning) :
    winnerAt vWinning winner.nBlockHeight = some winner := by
  induction vWinning with
  | nil => cases hMem
  | cons first rest ih =>
      obtain ⟨hNew, hRest⟩ := List.nodup_cons.mp hOne
      unfold winnerAt
      rcases List.mem_cons.mp hMem with rfl | hTail
      · simp
      · have hOther : first.nBlockHeight ≠ winner.nBlockHeight := by
          intro hSame
          exact hNew (hSame ▸ List.mem_map_of_mem hTail)
        rw [List.find?_cons_of_neg (by simpa using hOther)]
        exact ih hRest hTail

/-- The overwritten vote is the one for the height, and it was worse. -/
theorem replaceWinner_spec
    (hOne : OnePerHeight vWinning) {replaced : List CMasternodePaymentWinner}
    (h : replaceWinner winnerIn vWinning = some replaced) :
    replaced.map CMasternodePaymentWinner.nBlockHeight =
        vWinning.map CMasternodePaymentWinner.nBlockHeight ∧
      (∃ winner, winnerAt vWinning winnerIn.nBlockHeight = some winner ∧
        winner.score < winnerIn.score) ∧
      ∀ nBlockHeight, winnerAt replaced nBlockHeight =
        if nBlockHeight = winnerIn.nBlockHeight then some winnerIn
        else winnerAt vWinning nBlockHeight := by
  induction vWinning generalizing replaced with
  | nil => cases h
  | cons winner rest ih =>
      obtain ⟨hNew, hRest⟩ := List.nodup_cons.mp hOne
      unfold replaceWinner at h
      by_cases hHere : winner.nBlockHeight = winnerIn.nBlockHeight ∧ winner.score < winnerIn.score
      · rw [if_pos hHere, Option.some.injEq] at h
        have hAll : ({ winner with
            score := winnerIn.score
            vin := winnerIn.vin
            payee := winnerIn.payee
            vchSig := winnerIn.vchSig } : CMasternodePaymentWinner) = winnerIn := by
          rw [hHere.1]
        rw [hAll] at h
        subst h
        refine ⟨by simp [hHere.1], ⟨winner, by simp [winnerAt, hHere.1], hHere.2⟩, ?_⟩
        intro nBlockHeight
        by_cases hSame : nBlockHeight = winnerIn.nBlockHeight
        · simp [winnerAt, hSame]
        · rw [if_neg hSame]
          unfold winnerAt
          rw [List.find?_cons_of_neg (by simpa using Ne.symm hSame),
            List.find?_cons_of_neg (by rw [hHere.1]; simpa using Ne.symm hSame)]
      · rw [if_neg hHere] at h
        obtain ⟨rest', hRest', rfl⟩ := Option.map_eq_some_iff.mp h
        obtain ⟨hHeights, ⟨old, hOld, hWorse⟩, hFind⟩ := ih hRest hRest'
        obtain ⟨hOldMem, hOldHeight⟩ := mem_of_winnerAt hOld
        have hOther : winner.nBlockHeight ≠ winnerIn.nBlockHeight := by
          intro hSame
          exact hNew (hSame ▸ hOldHeight ▸ List.mem_map_of_mem hOldMem)
        refine ⟨by rw [List.map_cons, List.map_cons, hHeights], ⟨old, ?_, hWorse⟩, ?_⟩
        · unfold winnerAt
          rw [List.find?_cons_of_neg (by simpa using hOther)]
          exact hOld
        · intro nBlockHeight
          by_cases hThis : winner.nBlockHeight = nBlockHeight
          · rw [if_neg (fun hSame => hOther (hThis.trans hSame))]
            simp [winnerAt, hThis]
          · unfold winnerAt
            rw [List.find?_cons_of_neg (by simpa using hThis),
              List.find?_cons_of_neg (by simpa using hThis)]
            exact hFind nBlockHeight

/-- Nothing is overwritten where no vote for the height is worse. -/
theorem replaceWinner_eq_none
    (h : replaceWinner winnerIn vWinning = none) {winner : CMasternodePaymentWinner}
    (hMem : winner ∈ vWinning) (hHeight : winner.nBlockHeight = winnerIn.nBlockHeight) :
    winnerIn.score ≤ winner.score := by
  induction vWinning with
  | nil => cases hMem
  | cons first rest ih =>
      unfold replaceWinner at h
      split_ifs at h with hHere
      rw [Option.map_eq_none_iff] at h
      rcases List.mem_cons.mp hMem with rfl | hTail
      · exact not_lt.mp fun hLess => hHere ⟨hHeight, hLess⟩
      · exact ih h hTail

/-- The better of the vote that is there and a new one. -/
def elect (winner : Option CMasternodePaymentWinner) (winnerIn : CMasternodePaymentWinner) :
    CMasternodePaymentWinner :=
  match winner with
  | none => winnerIn
  | some winner => if winner.score < winnerIn.score then winnerIn else winner

/-- One call keeps one vote for each height and elects the vote for the height of the new one. -/
theorem addWinner_spec
    (hOne : OnePerHeight vWinning) :
    OnePerHeight (addWinner vWinning winnerIn).2 ∧
      ∀ nBlockHeight, winnerAt (addWinner vWinning winnerIn).2 nBlockHeight =
        if nBlockHeight = winnerIn.nBlockHeight then
          some (elect (winnerAt vWinning nBlockHeight) winnerIn)
        else winnerAt vWinning nBlockHeight := by
  unfold addWinner
  cases hReplaced : replaceWinner winnerIn vWinning with
  | some replaced =>
      obtain ⟨hHeights, ⟨old, hOld, hWorse⟩, hFind⟩ := replaceWinner_spec hOne hReplaced
      refine ⟨by dsimp only; rw [OnePerHeight, hHeights]; exact hOne, fun nBlockHeight => ?_⟩
      dsimp only
      rw [hFind]
      split_ifs with hSame
      · rw [hSame, hOld, elect, if_pos hWorse]
      · rfl
  | none =>
      dsimp only
      by_cases hAny :
          vWinning.any (fun winner => winner.nBlockHeight = winnerIn.nBlockHeight) = true
      · rw [if_pos hAny]
        refine ⟨hOne, fun nBlockHeight => ?_⟩
        split_ifs with hSame
        · obtain ⟨winner, hMem, hHeight⟩ := List.any_eq_true.mp hAny
          rw [decide_eq_true_eq] at hHeight
          have hAt := winnerAt_of_mem hOne hMem
          rw [hSame, ← hHeight, hAt, elect,
            if_neg (not_lt.mpr (replaceWinner_eq_none hReplaced hMem hHeight))]
        · rfl
      · rw [if_neg hAny]
        have hNone : ∀ winner ∈ vWinning, winner.nBlockHeight ≠ winnerIn.nBlockHeight := by
          simpa using hAny
        constructor
        · unfold OnePerHeight
          rw [List.map_append, List.nodup_append]
          refine ⟨hOne, List.nodup_singleton _, ?_⟩
          intro height hMem height' hMem'
          obtain ⟨winner, hWinner, rfl⟩ := List.mem_map.mp hMem
          obtain rfl := List.mem_singleton.mp hMem'
          exact hNone winner hWinner
        · intro nBlockHeight
          unfold winnerAt
          rw [List.find?_append]
          by_cases hSame : nBlockHeight = winnerIn.nBlockHeight
          · have hFind :
                vWinning.find? (fun winner => winner.nBlockHeight = nBlockHeight) = none := by
              rw [List.find?_eq_none]
              intro winner hMem
              simpa [hSame] using hNone winner hMem
            rw [if_pos hSame, hFind, elect]
            simp [hSame]
          · rw [if_neg hSame]
            simp [Ne.symm hSame]

end Winner

/-! ## The result of an order -/

section Order

variable {prims : Primitives} {st : ChainState} {hashes : List ℕ} {cache : Table ℤ ℕ}

/-- A vote with the score it gets on a chain, if the chain has the block for it. -/
def scored (prims : Primitives) (hashes : List ℕ) (vote : CMasternodePaymentWinner) :
    Option CMasternodePaymentWinner :=
  (chainHash hashes (vote.nBlockHeight - 576)).map fun blockHash =>
    { vote with score := calculateScore prims blockHash vote.vin }

/-- The scored votes for a height among messages. -/
def votesFor (prims : Primitives) (hashes : List ℕ) (messages : List CMasternodePaymentWinner)
    (nBlockHeight : ℤ) : List CMasternodePaymentWinner :=
  (messages.filterMap (scored prims hashes)).filter fun vote => vote.nBlockHeight = nBlockHeight

theorem mem_votesFor
    {messages : List CMasternodePaymentWinner} {nBlockHeight : ℤ}
    {vote : CMasternodePaymentWinner} :
    vote ∈ votesFor prims hashes messages nBlockHeight ↔
      ∃ message ∈ messages, message.nBlockHeight = nBlockHeight ∧
        scored prims hashes message = some vote := by
  unfold votesFor
  rw [List.mem_filter, List.mem_filterMap, decide_eq_true_eq]
  constructor
  · rintro ⟨⟨message, hMem, hScored⟩, hHeight⟩
    refine ⟨message, hMem, ?_, hScored⟩
    obtain ⟨blockHash, -, rfl⟩ := Option.map_eq_some_iff.mp hScored
    exact hHeight
  · rintro ⟨message, hMem, hHeight, hScored⟩
    refine ⟨⟨message, hMem, hScored⟩, ?_⟩
    obtain ⟨blockHash, -, rfl⟩ := Option.map_eq_some_iff.mp hScored
    exact hHeight

/-- Over one chain, the votes depend on the scored messages alone. -/
theorem processWinners_eq
    (hChain : HasBestChain st hashes) (hFits : CacheFits hashes cache)
    (payments : CMasternodePayments) (messages : List CMasternodePaymentWinner) :
    ∃ after, processWinners prims st cache payments messages = .ok after ∧
      after.2.vWinning = (messages.filterMap (scored prims hashes)).foldl
        (fun vWinning vote => (addWinner vWinning vote).2) payments.vWinning := by
  induction messages generalizing cache payments with
  | nil => exact ⟨_, rfl, rfl⟩
  | cons winnerIn rest ih =>
      obtain ⟨cache', hEq, hFits', -⟩ := getBlockHash_eq hChain hFits (winnerIn.nBlockHeight - 576)
      rw [processWinners, addWinningMasternode, hEq, ok_bind]
      cases hHash : chainHash hashes (winnerIn.nBlockHeight - 576) with
      | none =>
          obtain ⟨after, hAfter, hVotes⟩ := ih hFits' payments
          have hScored : scored prims hashes winnerIn = none := by
            rw [scored, hHash, Option.map_none]
          rw [List.filterMap_cons_none hScored]
          exact ⟨after, hAfter, hVotes⟩
      | some blockHash =>
          have hScored : scored prims hashes winnerIn =
              some { winnerIn with score := calculateScore prims blockHash winnerIn.vin } := by
            rw [scored, hHash, Option.map_some]
          rw [List.filterMap_cons_some hScored, List.foldl_cons]
          obtain ⟨after, hAfter, hVotes⟩ := ih hFits' _
          exact ⟨after, hAfter, hVotes⟩

/-- The vote for a height is the first among those with the highest score. -/
theorem winnerAt_foldl (votes : List CMasternodePaymentWinner) :
    OnePerHeight (votes.foldl (fun vWinning vote => (addWinner vWinning vote).2) []) ∧
      ∀ nBlockHeight,
        winnerAt (votes.foldl (fun vWinning vote => (addWinner vWinning vote).2) [])
            nBlockHeight =
          (votes.filter fun vote => vote.nBlockHeight = nBlockHeight).argmax
            CMasternodePaymentWinner.score := by
  induction votes using List.reverseRecOn with
  | nil => exact ⟨List.nodup_nil, fun _ => rfl⟩
  | append_singleton votes vote ih =>
      obtain ⟨hOne, hFind⟩ := ih
      rw [List.foldl_append]
      obtain ⟨hOne', hFind'⟩ := @addWinner_spec _ vote hOne
      refine ⟨hOne', fun nBlockHeight => (hFind' nBlockHeight).trans ?_⟩
      rw [hFind nBlockHeight, List.filter_append]
      by_cases hSame : nBlockHeight = vote.nBlockHeight
      · rw [if_pos hSame, List.filter_singleton, decide_eq_true hSame.symm, cond_true,
          List.argmax_concat]
        cases (votes.filter fun vote => vote.nBlockHeight = nBlockHeight).argmax
            CMasternodePaymentWinner.score with
        | none => rfl
        | some winner => exact apply_ite some (winner.score < vote.score) vote winner
      · rw [if_neg hSame, List.filter_singleton, decide_eq_false (Ne.symm hSame), cond_false,
          List.append_nil]

end Order

/-! ## Convergence -/

section Converge

variable (prims : Primitives) (st st' : ChainState) (cache cache' : Table ℤ ℕ)
  (hashes : List ℕ) (messages : List CMasternodePaymentWinner)

/-- One vote for each height, one of the messages for the height, with the highest score. -/
structure ElectsMaximum (vWinning : List CMasternodePaymentWinner) : Prop where
  onePerHeight : OnePerHeight vWinning
  maximal : ∀ winner ∈ vWinning, winner ∈ votesFor prims hashes messages winner.nBlockHeight ∧
    ∀ vote ∈ votesFor prims hashes messages winner.nBlockHeight, vote.score ≤ winner.score

/-- Two lists of votes have the same masternode and the same payee for every height. -/
def SameWinners (vWinning vWinning' : List CMasternodePaymentWinner) : Prop :=
  ∀ nBlockHeight, getBlockPayee vWinning nBlockHeight = getBlockPayee vWinning' nBlockHeight

/-- Whatever the orders in which two nodes process the messages, both elect maximal votes, and
the same ones. -/
def Converges : Prop :=
  ∀ order order' : List CMasternodePaymentWinner, order.Perm messages → order'.Perm messages →
    ∃ after after', processWinners prims st cache empty order = .ok after ∧
      processWinners prims st' cache' empty order' = .ok after' ∧
      ElectsMaximum prims hashes messages after.2.vWinning ∧
      ElectsMaximum prims hashes messages after'.2.vWinning ∧
      SameWinners after.2.vWinning after'.2.vWinning

/-- The best votes for a height name one masternode and one payee. -/
def AgreeAtTop : Prop :=
  ∀ nBlockHeight, ∀ vote ∈ votesFor prims hashes messages nBlockHeight,
    ∀ vote' ∈ votesFor prims hashes messages nBlockHeight,
      (∀ other ∈ votesFor prims hashes messages nBlockHeight,
        other.score ≤ vote.score ∧ other.score ≤ vote'.score) →
      vote.payee = vote'.payee ∧ vote.vin = vote'.vin

variable {prims st st' cache cache' hashes messages}

/-- What a node ends with after any order. -/
theorem processWinners_spec
    (hChain : HasBestChain st hashes) (hFits : CacheFits hashes cache)
    {order : List CMasternodePaymentWinner} (hOrder : order.Perm messages) :
    ∃ after, processWinners prims st cache empty order = .ok after ∧
      ElectsMaximum prims hashes messages after.2.vWinning ∧
      ∀ nBlockHeight, winnerAt after.2.vWinning nBlockHeight =
        (votesFor prims hashes order nBlockHeight).argmax CMasternodePaymentWinner.score := by
  obtain ⟨after, hAfter, hVotes⟩ := @processWinners_eq prims _ _ _ hChain hFits empty order
  obtain ⟨hOne, hFind⟩ := winnerAt_foldl (order.filterMap (scored prims hashes))
  rw [show empty.vWinning = [] from rfl] at hVotes
  rw [← hVotes] at hOne hFind
  refine ⟨after, hAfter, ⟨hOne, fun winner hMem => ?_⟩, hFind⟩
  have hSame : ∀ vote, vote ∈ votesFor prims hashes order winner.nBlockHeight ↔
      vote ∈ votesFor prims hashes messages winner.nBlockHeight := by
    intro vote
    simp only [mem_votesFor, hOrder.mem_iff]
  have hMax := (hFind winner.nBlockHeight).symm.trans (winnerAt_of_mem hOne hMem)
  refine ⟨(hSame winner).mp (List.argmax_mem hMax), fun vote hVote => ?_⟩
  exact List.le_of_mem_argmax ((hSame vote).mpr hVote) hMax

/-- An order that begins with a best vote ends with it. -/
theorem argmax_of_head
    {vote : CMasternodePaymentWinner} {rest : List CMasternodePaymentWinner}
    (h : ∀ other ∈ rest, other.score ≤ vote.score) :
    (vote :: rest).argmax CMasternodePaymentWinner.score = some vote := by
  rw [List.argmax_cons]
  cases hRest : rest.argmax CMasternodePaymentWinner.score with
  | none => rfl
  | some other =>
      have hLe := h other (List.argmax_mem hRest)
      dsimp only
      rw [if_neg (not_lt.mpr hLe)]

theorem votesFor_cons
    {message vote : CMasternodePaymentWinner} (hScored : scored prims hashes message = some vote)
    (rest : List CMasternodePaymentWinner) :
    votesFor prims hashes (message :: rest) vote.nBlockHeight =
      vote :: votesFor prims hashes rest vote.nBlockHeight := by
  unfold votesFor
  rw [List.filterMap_cons_some hScored, List.filter_cons_of_pos (by simp)]

/-- A best vote is the one that stays if its message comes first. -/
theorem getBlockPayee_of_first
    (hChain : HasBestChain st hashes) (hFits : CacheFits hashes cache)
    {vote : CMasternodePaymentWinner} {nBlockHeight : ℤ}
    (hVote : vote ∈ votesFor prims hashes messages nBlockHeight)
    (hMax : ∀ other ∈ votesFor prims hashes messages nBlockHeight, other.score ≤ vote.score) :
    ∃ order after, order.Perm messages ∧
      processWinners prims st cache empty order = .ok after ∧
      getBlockPayee after.2.vWinning nBlockHeight = some (vote.payee, vote.vin) := by
  obtain ⟨message, hMem, hHeight, hScored⟩ := mem_votesFor.mp hVote
  have hPerm : (message :: messages.erase message).Perm messages :=
    (List.perm_cons_erase hMem).symm
  obtain ⟨after, hAfter, -, hFind⟩ := @processWinners_spec prims _ _ _ _ hChain hFits _ hPerm
  refine ⟨_, after, hPerm, hAfter, ?_⟩
  have hVoteHeight : vote.nBlockHeight = nBlockHeight := by
    obtain ⟨blockHash, -, rfl⟩ := Option.map_eq_some_iff.mp hScored
    exact hHeight
  subst hVoteHeight
  have hWinner : winnerAt after.2.vWinning vote.nBlockHeight = some vote := by
    rw [hFind, votesFor_cons hScored]
    refine argmax_of_head fun other hOther => hMax other ?_
    obtain ⟨message', hMem', hRest⟩ := mem_votesFor.mp hOther
    exact mem_votesFor.mpr ⟨message', List.mem_of_mem_erase hMem', hRest⟩
  unfold winnerAt at hWinner
  rw [getBlockPayee, hWinner, Option.map_some]

/-- Two nodes over one chain converge, whatever the orders, exactly if the best votes for each
height name one masternode and one payee. -/
theorem converges_iff
    (hChain : HasBestChain st hashes) (hFits : CacheFits hashes cache)
    (hChain' : HasBestChain st' hashes) (hFits' : CacheFits hashes cache') :
    Converges prims st st' cache cache' hashes messages ↔ AgreeAtTop prims hashes messages := by
  constructor
  · intro hConverges nBlockHeight vote hVote vote' hVote' hMax
    obtain ⟨order, after, hPerm, hAfter, hPayee⟩ :=
      getBlockPayee_of_first hChain hFits hVote fun other hOther => (hMax other hOther).1
    obtain ⟨order', after', hPerm', hAfter', hPayee'⟩ :=
      getBlockPayee_of_first hChain' hFits' hVote' fun other hOther => (hMax other hOther).2
    obtain ⟨found, found', hFound, hFound', -, -, hSame⟩ := hConverges order order' hPerm hPerm'
    cases hAfter.symm.trans hFound
    cases hAfter'.symm.trans hFound'
    have hEq := hSame nBlockHeight
    rw [hPayee, hPayee', Option.some.injEq, Prod.mk.injEq] at hEq
    exact hEq
  · intro hAgree order order' hPerm hPerm'
    obtain ⟨after, hAfter, hElects, hFind⟩ :=
      @processWinners_spec prims _ _ _ _ hChain hFits _ hPerm
    obtain ⟨after', hAfter', hElects', hFind'⟩ :=
      @processWinners_spec prims _ _ _ _ hChain' hFits' _ hPerm'
    refine ⟨after, after', hAfter, hAfter', hElects, hElects', fun nBlockHeight => ?_⟩
    have hSame : ∀ vote, vote ∈ votesFor prims hashes order nBlockHeight ↔
        vote ∈ votesFor prims hashes order' nBlockHeight := by
      intro vote
      simp only [mem_votesFor, hPerm.mem_iff, hPerm'.mem_iff]
    have hIn : ∀ vote, vote ∈ votesFor prims hashes order' nBlockHeight ↔
        vote ∈ votesFor prims hashes messages nBlockHeight := by
      intro vote
      simp only [mem_votesFor, hPerm'.mem_iff]
    have hWinner := hFind nBlockHeight
    have hWinner' := hFind' nBlockHeight
    unfold winnerAt at hWinner hWinner'
    rw [getBlockPayee, getBlockPayee, hWinner, hWinner']
    cases hMax : (votesFor prims hashes order nBlockHeight).argmax
        CMasternodePaymentWinner.score with
    | none =>
        have hEmpty : votesFor prims hashes order' nBlockHeight = [] := by
          rw [List.argmax_eq_none] at hMax
          refine List.eq_nil_iff_forall_not_mem.mpr fun vote hVote => ?_
          rw [← hSame vote, hMax] at hVote
          cases hVote
        rw [hEmpty, List.argmax_nil]
    | some vote =>
        have hVote := (hSame vote).mp (List.argmax_mem hMax)
        cases hMax' : (votesFor prims hashes order' nBlockHeight).argmax
            CMasternodePaymentWinner.score with
        | none =>
            rw [List.argmax_eq_none] at hMax'
            rw [hMax'] at hVote
            cases hVote
        | some vote' =>
            have hVote' := List.argmax_mem hMax'
            have hTop := hAgree nBlockHeight vote ((hIn vote).mp hVote) vote'
              ((hIn vote').mp hVote') fun other hOther =>
                ⟨List.le_of_mem_argmax ((hSame other).mpr ((hIn other).mpr hOther)) hMax,
                  List.le_of_mem_argmax ((hIn other).mpr hOther) hMax'⟩
            rw [Option.map_some, Option.map_some, hTop.1, hTop.2]

end Converge

end CMasternodePayments

/-! ## One masternode, two payees -/

namespace Sample

open CMasternodePayments

/-- A vote of the masternode with the collateral in transaction 7 for a payee at height 578. -/
def voteFor (payee : CScript) : CMasternodePaymentWinner where
  nBlockHeight := 578
  vin := ⟨⟨7, 0⟩, [], UINT_MAX⟩
  payee := payee
  vchSig := []
  score := 0

/-- Two votes with one score: each node keeps the payee it has heard of first. -/
theorem twoPayees_diverge :
    ¬Converges prims (nodeAtHeight 2) (nodeAtHeight 2) ∅ ∅ [502, 501, 500]
      [voteFor [0x51], voteFor [0x52]] := by
  intro hConverges
  obtain ⟨after, after', hAfter, hAfter', -, -, hSame⟩ :=
    hConverges [voteFor [0x51], voteFor [0x52]] [voteFor [0x52], voteFor [0x51]]
      (List.Perm.refl _) (List.Perm.swap _ _ _)
  have hPayee : (processWinners prims (nodeAtHeight 2) ∅ empty
      [voteFor [0x51], voteFor [0x52]]).toOption.map
        (fun after => getBlockPayee after.2.vWinning 578) =
      some (some ([0x51], (voteFor []).vin)) := by
    decide +kernel
  have hPayee' : (processWinners prims (nodeAtHeight 2) ∅ empty
      [voteFor [0x52], voteFor [0x51]]).toOption.map
        (fun after => getBlockPayee after.2.vWinning 578) =
      some (some ([0x52], (voteFor []).vin)) := by
    decide +kernel
  rw [hAfter] at hPayee
  rw [hAfter'] at hPayee'
  have hBoth := (Option.some.inj hPayee).symm.trans
    ((hSame 578).trans (Option.some.inj hPayee'))
  exact absurd hBoth (by decide)

/-- With one payee they converge. -/
theorem onePayee_converges :
    Converges prims (nodeAtHeight 2) (nodeAtHeight 2) ∅ ∅ [502, 501, 500] [voteFor [0x51]] ↔
      AgreeAtTop prims [502, 501, 500] [voteFor [0x51]] :=
  converges_iff hasBestChain_nodeAtHeight (by intro _ _ h; simp at h)
    hasBestChain_nodeAtHeight (by intro _ _ h; simp at h)

end Sample

end SocietyGold
