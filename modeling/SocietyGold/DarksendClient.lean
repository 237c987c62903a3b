import SocietyGold.Darksend
import SocietyGold.ScriptText
import SocietyGold.SignSignature
import SocietyGold.Support.OrderedMatch

/-!
# What a mixing client signs

Before a client signs its inputs in a final transaction it compares the outputs of the
transaction with those of its entry: it counts the pairs with one script text and adds up their
values, and looks at the two totals only.
-/

namespace SocietyGold

open Support PoolStatus CScript

/-! ## The comparison -/

/-- The signatures that leave others free to add inputs. -/
def SIGHASH_ALL_ANYONECANPAY : ℕ := SIGHASH_ALL.toNat ||| SIGHASH_ANYONECANPAY.toNat

/-- Do two outputs have one script text? -/
def sameText (out o : CTxOut) : Bool := out.scriptPubKey.toString = o.scriptPubKey.toString

namespace CDarkSendEntry

variable (e : CDarkSendEntry)

/-- The loop over the outputs of a transaction: the number of those met for an output of the
entry, `foundOutputs`, and the sum of their values, `nValue1`. -/
def foundOutputs (vout : List CTxOut) : ℤ × ℤ :=
  vout.foldl (fun found out =>
    e.vout.foldl (fun found o =>
      if sameText out o then (wrap32 (found.1 + 1), wrap64 (found.2 + out.nValue)) else found)
      found) (0, 0)

/-- The test that the outputs of an entry are in a final transaction. -/
def outputsCorrect (vout : List CTxOut) : Bool :=
  !((e.foundOutputs vout).1 < wrap32 e.vout.length ||
    (e.foundOutputs vout).2 ≠ sumValues e.vout)

end CDarkSendEntry

/-! ## Signing -/

/-- The wallet that signs. -/
structure DarksendWallet (CKey : Type) where
  prims : ScriptPrimitives
  keystore : CKeyStore CKey
  /-- What `SignSignature` leaves in the signature script when it returns false. -/
  unsigned : (fromPubKey : CScript) → CTransaction → (nIn : ℕ) → CScript

section Sign

variable {CKey : Type} (wallet : DarksendWallet CKey)

/-- The final transaction after `SignSignature`, whose result is ignored. -/
def DarksendWallet.sign (prevPubKey : CScript) (tx : CTransaction) (mine : ℕ) : CTransaction :=
  (signSignature wallet.prims wallet.keystore prevPubKey tx mine
    SIGHASH_ALL_ANYONECANPAY).getD (tx.withScriptSig mine (wallet.unsigned prevPubKey tx mine))

/-- The final transaction and the signatures made so far. -/
structure SigningState where
  finalTransaction : CTransaction
  sigs : List CTxIn

/-- One turn of the loop of `SignFinalTransaction`, for an entry and one of its inputs.  The
client refuses to sign if the outputs of the entry are not found. -/
def signInput (e : CDarkSendEntry) (s : CTxDSIn) (st : SigningState) : Option SigningState :=
  match findInput st.finalTransaction.vin s.toCTxIn with
  | none => some st
  | some mine =>
      if !e.outputsCorrect st.finalTransaction.vout then none
      else
        let finalTransaction := wallet.sign s.prevPubKey st.finalTransaction mine
        some ⟨finalTransaction, st.sigs ++ (finalTransaction.vin[mine]?).toList⟩

def signInputs : List (CDarkSendEntry × CTxDSIn) → SigningState → Option SigningState
  | [], st => some st
  | (e, s) :: rest, st => (signInput wallet e s st).bind (signInputs rest)

/-- The inputs of entries in the order of the loop. -/
def turnsOf (entries : List CDarkSendEntry) : List (CDarkSendEntry × CTxDSIn) :=
  entries.flatMap fun e => e.sev.map fun s => (e, s)

/-- `SignFinalTransaction`: what it returns, the pool, and the signatures it sends. -/
def CDarksendPool.signFinalTransaction (fMasterNode hasNode : Bool) (nTimeMillis : ℤ)
    (finalTransactionNew : CTransaction) (pool : CDarksendPool) :
    Bool × CDarksendPool × Option (List CTxIn) :=
  if fMasterNode then (false, pool, none)
  else
    let pool := { pool with finalTransaction := finalTransactionNew }
    match signInputs wallet (turnsOf pool.entries) ⟨finalTransactionNew, []⟩ with
    | none => (false, pool.setNull nTimeMillis, none)
    | some st =>
        (true, { pool with finalTransaction := st.finalTransaction },
          if st.sigs.length > 0 ∧ hasNode then some st.sigs else none)

end Sign

/-! ## Totals -/

/-- The sum of the values of outputs. -/
def totalValue (vout : List CTxOut) : ℤ := (vout.map CTxOut.nValue).sum

theorem totalValue_append (vout vout' : List CTxOut) :
    totalValue (vout ++ vout') = totalValue vout + totalValue vout' := by
  unfold totalValue
  rw [List.map_append, List.sum_append]

theorem totalValue_perm {vout vout' : List CTxOut} (h : vout.Perm vout') :
    totalValue vout = totalValue vout' :=
  (h.map _).sum_eq

/-- Adding 64-bit integers gives the total up to a multiple of the range. -/
theorem dvd_foldl_wrap64 (vout : List CTxOut) (start : ℤ) :
    2 ^ 64 ∣ vout.foldl (fun sum o => wrap64 (sum + o.nValue)) start -
      (start + totalValue vout) := by
  induction vout generalizing start with
  | nil => simp [totalValue]
  | cons o vout ih =>
      have hWrap : (2 ^ 64 : ℤ) ∣ wrap64 (start + o.nValue) - (start + o.nValue) :=
        Int.dvd_bmod_sub_self
      have hRest := ih (wrap64 (start + o.nValue))
      rw [List.foldl_cons, show totalValue (o :: vout) = o.nValue + totalValue vout from
        List.sum_cons]
      omega

theorem dvd_sumValues (vout : List CTxOut) : 2 ^ 64 ∣ sumValues vout - totalValue vout := by
  have hDvd := dvd_foldl_wrap64 vout 0
  rwa [zero_add] at hDvd

section Outputs

variable {e : CDarkSendEntry} {vout : List CTxOut}

/-- The loop adds up the values of the coincidences. -/
theorem foundOutputs_value (e : CDarkSendEntry) (vout : List CTxOut) :
    (e.foundOutputs vout).2 = sumValues (coincidences sameText vout e.vout) := by
  have hLoop : e.foundOutputs vout = (coincidences sameText vout e.vout).foldl
      (fun found out => (wrap32 (found.1 + 1), wrap64 (found.2 + out.nValue))) (0, 0) := by
    unfold CDarkSendEntry.foundOutputs coincidences
    rw [List.foldl_flatMap]
    congr 1
    funext found out
    rw [List.foldl_map, List.foldl_filter]
  rw [hLoop]
  unfold sumValues
  induction coincidences sameText vout e.vout using List.reverseRecOn with
  | nil => rfl
  | append_singleton rest out ih => rw [List.foldl_concat, List.foldl_concat, ih]

/-- The outputs of an entry are matched by distinct outputs with the same scripts that are at
least as large, and all other coincidences of script texts add up to nothing. -/
def MatchedBy (e : CDarkSendEntry) (vout paid others : List CTxOut) : Prop :=
  paid.Subperm vout ∧
    List.Forall₂ (fun o out => out.scriptPubKey = o.scriptPubKey ∧ o.nValue ≤ out.nValue)
      e.vout paid ∧
    totalValue paid - totalValue e.vout < 2 ^ 64 ∧
    (coincidences sameText vout e.vout).Perm (paid ++ others) ∧ 2 ^ 64 ∣ totalValue others

/-- The totals agree up to a multiple of the range if the test passes. -/
theorem dvd_of_outputsCorrect (h : e.outputsCorrect vout = true) :
    2 ^ 64 ∣ totalValue (coincidences sameText vout e.vout) - totalValue e.vout := by
  have hTotals : (e.foundOutputs vout).2 = sumValues e.vout := by
    by_contra hNe
    simp [CDarkSendEntry.outputsCorrect, hNe] at h
  rw [foundOutputs_value] at hTotals
  have hFound := dvd_sumValues (coincidences sameText vout e.vout)
  have hOwn := dvd_sumValues e.vout
  omega

/-- Outputs with the same scripts that are at least as large and have the same total are the
same. -/
theorem eq_of_matched
    {owed paid : List CTxOut} (hPairs : List.Forall₂ (fun o out =>
      out.scriptPubKey = o.scriptPubKey ∧ o.nValue ≤ out.nValue) owed paid)
    (hTotal : totalValue paid = totalValue owed) : owed = paid := by
  have hValues : owed.map CTxOut.nValue = paid.map CTxOut.nValue := by
    refine eq_of_forall₂_le_of_sum_le ?_ hTotal.le
    rw [List.forall₂_map_left_iff, List.forall₂_map_right_iff]
    exact hPairs.imp fun o out hPair => hPair.2
  clear hTotal
  induction hPairs with
  | nil => rfl
  | @cons o out owed paid hPair _ ih =>
      rw [List.map_cons, List.map_cons, List.cons.injEq] at hValues
      rw [ih hValues.2]
      congr 1
      cases o
      cases out
      simp only [CTxOut.mk.injEq]
      exact ⟨hValues.1, hPair.1.symm⟩

/-- If the test passes, the outputs of the entry occur among others exactly if others match
them. -/
theorem subperm_iff_matched
    (hCorrect : e.outputsCorrect vout = true) :
    e.vout.Subperm vout ↔ ∃ paid others, MatchedBy e vout paid others := by
  have hTotals := dvd_of_outputsCorrect hCorrect
  constructor
  · intro hIncluded
    have hPartner : ∀ out ∈ e.vout, ∃ o ∈ e.vout, sameText out o = true :=
      fun out hMem => ⟨out, hMem, decide_eq_true rfl⟩
    obtain ⟨own, hOwn, hSub⟩ := subperm_coincidences hIncluded hPartner
    obtain ⟨others, hRest⟩ := hSub.exists_perm_append
    have hPerm : (coincidences sameText vout e.vout).Perm (e.vout ++ others) :=
      hRest.trans (hOwn.append_right others)
    rw [totalValue_perm hPerm, totalValue_append] at hTotals
    refine ⟨e.vout, others, hIncluded, ?_, by omega, hPerm, by simpa using hTotals⟩
    exact List.forall₂_same.mpr fun o _ => ⟨rfl, le_rfl⟩
  · rintro ⟨paid, others, hSub, hPairs, hSurplus, hPerm, hNothing⟩
    rw [totalValue_perm hPerm, totalValue_append] at hTotals
    have hLe : totalValue e.vout ≤ totalValue paid := by
      refine List.Forall₂.sum_le_sum ?_
      rw [List.forall₂_map_left_iff, List.forall₂_map_right_iff]
      exact hPairs.imp fun o out hPair => hPair.2
    rw [eq_of_matched hPairs (by omega)]
    exact hSub

theorem totalValue_nonneg {vout : List CTxOut} (h : ∀ out ∈ vout, 0 ≤ out.nValue) :
    0 ≤ totalValue vout := by
  refine List.sum_nonneg fun value hMem => ?_
  obtain ⟨out, hOut, rfl⟩ := List.mem_map.mp hMem
  exact h out hOut

/-- With amounts in range it is enough that outputs with the same scripts are as large. -/
theorem matched_iff_of_amounts
    (hCorrect : e.outputsCorrect vout = true) (hAmounts : ∀ out ∈ vout, 0 ≤ out.nValue)
    (hOwn : 0 ≤ totalValue e.vout)
    (hRange : totalValue (coincidences sameText vout e.vout) < 2 ^ 64) :
    (∃ paid others, MatchedBy e vout paid others) ↔
      ∃ paid, paid.Subperm vout ∧ List.Forall₂
        (fun o out => out.scriptPubKey = o.scriptPubKey ∧ o.nValue ≤ out.nValue) e.vout paid := by
  constructor
  · rintro ⟨paid, others, hSub, hPairs, -⟩
    exact ⟨paid, hSub, hPairs⟩
  · rintro ⟨paid, hSub, hPairs⟩
    have hPartner : ∀ out ∈ paid, ∃ o ∈ e.vout, sameText out o = true := by
      intro out hMem
      obtain ⟨o, hOwed, hPair, -⟩ := exists_left_of_forall₂ hPairs hMem
      exact ⟨o, hOwed, decide_eq_true (by rw [hPair])⟩
    obtain ⟨own, hPaid, hAll⟩ := subperm_coincidences hSub hPartner
    obtain ⟨others, hRest⟩ := hAll.exists_perm_append
    have hPerm : (coincidences sameText vout e.vout).Perm (paid ++ others) :=
      hRest.trans (hPaid.append_right others)
    have hOthers : 0 ≤ totalValue others := by
      refine totalValue_nonneg fun out hMem => hAmounts out ?_
      have hFound : out ∈ coincidences sameText vout e.vout :=
        hPerm.mem_iff.mpr (List.mem_append_right paid hMem)
      obtain ⟨b, hPool, hSame⟩ := List.mem_flatMap.mp hFound
      obtain ⟨o, -, rfl⟩ := List.mem_map.mp hSame
      exact hPool
    have hLe : totalValue e.vout ≤ totalValue paid := by
      refine List.Forall₂.sum_le_sum ?_
      rw [List.forall₂_map_left_iff, List.forall₂_map_right_iff]
      exact hPairs.imp fun o out hPair => hPair.2
    have hTotals := dvd_of_outputsCorrect hCorrect
    rw [totalValue_perm hPerm, totalValue_append] at hTotals hRange
    exact ⟨paid, others, hSub, hPairs, by omega, hPerm, by omega⟩

end Outputs

/-! ## What the client signs -/

section Client

variable {CKey : Type} {wallet : DarksendWallet CKey}

/-- The client signs an input of an entry: the loop comes to it, finds it in the final
transaction, and the outputs of the entry pass the test. -/
def Signs (wallet : DarksendWallet CKey) (entries : List CDarkSendEntry)
    (finalTransaction : CTransaction) (e : CDarkSendEntry) (s : CTxDSIn) : Prop :=
  ∃ before after st, turnsOf entries = before ++ (e, s) :: after ∧
    signInputs wallet before ⟨finalTransaction, []⟩ = some st ∧
    (findInput st.finalTransaction.vin s.toCTxIn).isSome = true ∧
    e.outputsCorrect st.finalTransaction.vout = true

/-- Signing changes one signature script. -/
theorem sign_eq (wallet : DarksendWallet CKey) (prevPubKey : CScript) (tx : CTransaction)
    (mine : ℕ) : ∃ scriptSig, wallet.sign prevPubKey tx mine = tx.withScriptSig mine scriptSig := by
  unfold DarksendWallet.sign
  cases hSigned : signSignature wallet.prims wallet.keystore prevPubKey tx mine
      SIGHASH_ALL_ANYONECANPAY with
  | none => exact ⟨_, rfl⟩
  | some tx' =>
      unfold signSignature at hSigned
      split_ifs at hSigned
      obtain ⟨scriptSig, -, hTested⟩ := Option.bind_eq_some_iff.mp hSigned
      dsimp only at hTested
      split_ifs at hTested
      exact ⟨scriptSig, (Option.some.inj hTested).symm⟩

theorem signInput_cases
    {e : CDarkSendEntry} {s : CTxDSIn} {st st' : SigningState}
    (h : signInput wallet e s st = some st') :
    (findInput st.finalTransaction.vin s.toCTxIn = none ∧ st' = st) ∨
      ∃ mine, findInput st.finalTransaction.vin s.toCTxIn = some mine ∧
        e.outputsCorrect st.finalTransaction.vout = true ∧
        st'.finalTransaction = wallet.sign s.prevPubKey st.finalTransaction mine ∧
        st'.sigs = st.sigs ++ (st'.finalTransaction.vin[mine]?).toList := by
  unfold signInput at h
  cases hFound : findInput st.finalTransaction.vin s.toCTxIn with
  | none =>
      rw [hFound] at h
      exact Or.inl ⟨rfl, (Option.some.inj h).symm⟩
  | some mine =>
      rw [hFound] at h
      dsimp only at h
      split_ifs at h with hCorrect
      rw [← Option.some.inj h]
      exact Or.inr ⟨mine, rfl, by simpa using hCorrect, rfl, rfl⟩

/-- Signing leaves the outputs of the final transaction as they are. -/
theorem vout_signInputs
    {turns : List (CDarkSendEntry × CTxDSIn)} {st st' : SigningState}
    (h : signInputs wallet turns st = some st') :
    st'.finalTransaction.vout = st.finalTransaction.vout := by
  induction turns generalizing st with
  | nil => rw [Option.some.inj h]
  | cons turn turns ih =>
      obtain ⟨st₁, hTurn, hRest⟩ := Option.bind_eq_some_iff.mp h
      rw [ih hRest]
      rcases signInput_cases hTurn with ⟨-, rfl⟩ | ⟨mine, -, -, hTx, -⟩
      · rfl
      · obtain ⟨scriptSig, hSign⟩ := sign_eq wallet turn.2.prevPubKey st.finalTransaction mine
        rw [hTx, hSign]
        rfl

theorem Signs.outputsCorrect
    {entries : List CDarkSendEntry} {finalTransaction : CTransaction} {e : CDarkSendEntry}
    {s : CTxDSIn} (h : Signs wallet entries finalTransaction e s) :
    e.outputsCorrect finalTransaction.vout = true := by
  obtain ⟨before, after, st, -, hRun, -, hCorrect⟩ := h
  rwa [vout_signInputs hRun] at hCorrect

theorem signInputs_append (turns turns' : List (CDarkSendEntry × CTxDSIn)) (st : SigningState) :
    signInputs wallet (turns ++ turns') st =
      (signInputs wallet turns st).bind (signInputs wallet turns') := by
  induction turns generalizing st with
  | nil => rfl
  | cons turn turns ih =>
      show (signInput wallet turn.1 turn.2 st).bind (signInputs wallet (turns ++ turns')) =
        ((signInput wallet turn.1 turn.2 st).bind (signInputs wallet turns)).bind _
      rw [Option.bind_assoc]
      exact congrArg _ (funext ih)

/-- Each signature is for an input that the client signs. -/
theorem signs_of_mem_sigs
    {entries : List CDarkSendEntry} {finalTransaction : CTransaction}
    {turns after : List (CDarkSendEntry × CTxDSIn)} {st : SigningState}
    (hTurns : turnsOf entries = turns ++ after)
    (hRun : signInputs wallet turns ⟨finalTransaction, []⟩ = some st) :
    ∀ sig ∈ st.sigs, ∃ e s, Signs wallet entries finalTransaction e s ∧
      sig.prevout = s.prevout := by
  induction turns using List.reverseRecOn generalizing after st with
  | nil =>
      rw [← Option.some.inj hRun]
      simp
  | append_singleton turns turn ih =>
      rw [signInputs_append] at hRun
      obtain ⟨st₁, hBefore, hTurn⟩ := Option.bind_eq_some_iff.mp hRun
      obtain ⟨st₂, hLast, hNil⟩ := Option.bind_eq_some_iff.mp hTurn
      obtain rfl : st₂ = st := Option.some.inj hNil
      rw [List.append_assoc, List.singleton_append] at hTurns
      rcases signInput_cases hLast with ⟨-, rfl⟩ | ⟨mine, hFound, hCorrect, hTx, hSigs⟩
      · exact ih hTurns hBefore
      · intro sig hMem
        rw [hSigs, List.mem_append] at hMem
        rcases hMem with hOld | hNew
        · exact ih hTurns hBefore sig hOld
        · refine ⟨turn.1, turn.2, ⟨turns, after, st₁, hTurns, hBefore, ?_, hCorrect⟩, ?_⟩
          · rw [hFound, Option.isSome_some]
          · obtain ⟨scriptSig, hSign⟩ :=
              sign_eq wallet turn.2.prevPubKey st₁.finalTransaction mine
            have hAt := getElem?_of_findInput hFound
            rw [hTx, hSign] at hNew
            have hSig : sig = { turn.2.toCTxIn with scriptSig := scriptSig } := by
              simpa [CTransaction.withScriptSig, hAt] using hNew
            rw [hSig]

/-- The signatures that `SignFinalTransaction` sends are for inputs that the client signs. -/
theorem signs_of_signFinalTransaction
    {fMasterNode hasNode signed : Bool} {nTimeMillis : ℤ} {finalTransactionNew : CTransaction}
    {pool pool' : CDarksendPool} {sigs : List CTxIn}
    (h : pool.signFinalTransaction wallet fMasterNode hasNode nTimeMillis finalTransactionNew =
      (signed, pool', some sigs)) :
    fMasterNode = false ∧ ∀ sig ∈ sigs, ∃ e s,
      Signs wallet pool.entries finalTransactionNew e s ∧ sig.prevout = s.prevout := by
  unfold CDarksendPool.signFinalTransaction at h
  cases fMasterNode with
  | true => cases h
  | false =>
      refine ⟨rfl, ?_⟩
      cases hRun : signInputs wallet (turnsOf pool.entries) ⟨finalTransactionNew, []⟩ with
      | none =>
          simp only [hRun] at h
          cases h
      | some st =>
          simp only [Bool.false_eq_true, if_false, hRun, Prod.mk.injEq] at h
          have hSent := h.2.2
          split_ifs at hSent
          rw [← Option.some.inj hSent]
          exact signs_of_mem_sigs (List.append_nil _).symm hRun

/-- The outputs of every entry that the client signs for occur in the final transaction exactly
if outputs of the final transaction match those of each such entry. -/
theorem signed_outputs_iff
    (wallet : DarksendWallet CKey) (entries : List CDarkSendEntry)
    (finalTransaction : CTransaction) :
    (∀ e s, Signs wallet entries finalTransaction e s → e.vout.Subperm finalTransaction.vout) ↔
      ∀ e s, Signs wallet entries finalTransaction e s →
        ∃ paid others, MatchedBy e finalTransaction.vout paid others :=
  forall₂_congr fun _ _ =>
    forall_congr' fun hSigns => subperm_iff_matched hSigns.outputsCorrect

end Client

/-! ## Outputs with other values -/

namespace Sample

/-- A script that pays to a key hash. -/
def payToKeyHash (k : UInt8) : CScript :=
  [OP_DUP, OP_HASH160, 20] ++ List.replicate 20 k ++ [OP_EQUALVERIFY, OP_CHECKSIG]

def mixingWallet : DarksendWallet Unit where
  prims := scriptPrims
  keystore := scriptStore []
  unsigned _ _ _ := []

/-- An entry with an input the wallet can sign and two denominations. -/
def mixingEntry : CDarkSendEntry where
  isSet := true
  sev := [⟨⟨⟨7, 0⟩, [], UINT_MAX⟩, pushBytes [] (compressedKey 1) ++ [OP_CHECKSIG], false⟩]
  vout := [⟨10 * COIN + 10000, payToKeyHash 1⟩, ⟨COIN + 1000, payToKeyHash 2⟩]
  amount := 11 * COIN + 11000
  collateral := spending
  addedTime := 1000

def mixingPool : CDarksendPool where
  entries := [mixingEntry]
  finalTransaction := { spending with vin := [], vout := [] }
  state := POOL_STATUS_SIGNING
  sessionID := 5
  sessionUsers := 0
  sessionDenom := 6
  vecSessionCollateral := []
  lastTimeChanged := 0

/-- A final transaction that pays all to one of the two scripts. -/
def revaluedTransaction : CTransaction :=
  { spending with vout := [⟨11 * COIN + 11000, payToKeyHash 1⟩, ⟨0, payToKeyHash 2⟩] }

/-- The client signs, and sends its signature, although neither output is there. -/
theorem revaluedTransaction_signed :
    (mixingPool.signFinalTransaction mixingWallet false true 0 revaluedTransaction).1 = true ∧
      (mixingPool.signFinalTransaction mixingWallet false true 0
        revaluedTransaction).2.2.isSome = true ∧
      (∃ s, Signs mixingWallet mixingPool.entries revaluedTransaction mixingEntry s) ∧
      ¬mixingEntry.vout.Subperm revaluedTransaction.vout := by
  refine ⟨by decide +kernel, by decide +kernel, ?_, ?_⟩
  · exact ⟨⟨⟨⟨7, 0⟩, [], UINT_MAX⟩, pushBytes [] (compressedKey 1) ++ [OP_CHECKSIG], false⟩, [],
      [], ⟨revaluedTransaction, []⟩, rfl, rfl, by decide, by decide +kernel⟩
  · intro hSub
    have hMem : (⟨COIN + 1000, payToKeyHash 2⟩ : CTxOut) ∈ revaluedTransaction.vout :=
      hSub.subset (by simp [mixingEntry])
    revert hMem
    decide

end Sample

end SocietyGold
