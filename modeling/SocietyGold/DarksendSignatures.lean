import SocietyGold.Darksend
import SocietyGold.Solver

/-!
# Signatures that a mixing masternode accepts

A masternode adds a received signature to the final transaction after it has checked it against
its entries.  The check looks for an input with the received signature script, while a signature
whose script is already there is refused, so that a new signature is never verified.
-/

namespace SocietyGold

open Support PoolStatus

/-! ## Adding a signature -/

/-- Is this input the same, but for the signature script? -/
def CTxIn.names (newVin txin : CTxIn) : Bool :=
  txin.prevout = newVin.prevout && txin.nSequence = newVin.nSequence

/-- The input with a received signature, which comes without the script it spends. -/
def CTxDSIn.signedBy (s : CTxDSIn) (vin : CTxIn) : CTxDSIn :=
  { s with scriptSig := vin.scriptSig, prevPubKey := [], fHasSig := true }

/-- The loop of `AddSig`: the inputs after it, if it returns true. -/
def signFirst (vin : CTxIn) : List CTxDSIn → Option (List CTxDSIn)
  | [] => none
  | s :: sev =>
      if vin.names s.toCTxIn then
        if s.fHasSig then none else some (s.signedBy vin :: sev)
      else (signFirst vin sev).map (s :: ·)

/-- `AddSig`: the entry after it, if it returns true. -/
def CDarkSendEntry.addSig (e : CDarkSendEntry) (vin : CTxIn) : Option CDarkSendEntry :=
  (signFirst vin e.sev).map fun sev => { e with sev := sev }

/-- The loop over the entries, until one takes the signature. -/
def addSigToEntries (newVin : CTxIn) : List CDarkSendEntry → Option (List CDarkSendEntry)
  | [] => none
  | e :: entries =>
      match e.addSig newVin with
      | some e => some (e :: entries)
      | none => (addSigToEntries newVin entries).map (e :: ·)

/-- The flags of `SignatureValid`. -/
def DARKSEND_VERIFY_FLAGS : ℕ := SCRIPT_VERIFY_P2SH ||| SCRIPT_VERIFY_STRICTENC

/-- A received signature in every input of the final transaction that it names. -/
def CTransaction.signInputsNamed (tx : CTransaction) (newVin : CTxIn) : CTransaction :=
  { tx with
    vin := tx.vin.map fun vin =>
      if newVin.names vin then { vin with scriptSig := newVin.scriptSig } else vin }

namespace CDarksendPool

section AddScriptSig

variable (P : ScriptPrimitives) (cache : CSignatureCache P) (adjustedTime : ℕ)
  (pool : CDarksendPool)

/-- `SignatureValid`: the transaction is made again of the inputs and outputs in the order of the
entries.  A signature for an input that is not found is taken for valid. -/
def signatureValid (newSig : CScript) (newVin : CTxIn) : Bool :=
  let txNew := { CTransaction.null adjustedTime with vin := pool.vin, vout := pool.vout }
  match findInput txNew.vin newVin with
  | none => true
  | some n =>
      let sigPubKey := ((pool.inputs[n]?).map CTxDSIn.prevPubKey).getD []
      verifyScript P cache newSig sigPubKey (txNew.withScriptSig n newSig) n
        DARKSEND_VERIFY_FLAGS 0

/-- Is the signature script already there? -/
def hasScriptSig (scriptSig : CScript) : Bool :=
  pool.inputs.any fun s => s.scriptSig = scriptSig

/-- `AddScriptSig`: its result, and the pool after it. -/
def addScriptSig (newVin : CTxIn) : Bool × CDarksendPool :=
  if pool.hasScriptSig newVin.scriptSig then (false, pool)
  else if !pool.signatureValid P cache adjustedTime newVin.scriptSig newVin then (false, pool)
  else
    let pool := { pool with finalTransaction := pool.finalTransaction.signInputsNamed newVin }
    match addSigToEntries newVin pool.entries with
    | some entries => (true, { pool with entries := entries })
    | none => (false, pool)

def signaturesComplete : Bool := pool.inputs.all CTxDSIn.fHasSig

end AddScriptSig

end CDarksendPool

/-! ## Where a signature goes -/

section Named

variable {newVin : CTxIn} {sev sev' : List CTxDSIn}

/-- The first input that a signature names is not signed. -/
def FirstUnsigned (newVin : CTxIn) (sev : List CTxDSIn) : Prop :=
  ∃ s, (sev.find? fun s => newVin.names s.toCTxIn) = some s ∧ s.fHasSig = false

/-- One input that the signature names and that is not signed is signed by it. -/
def MarksSigned (newVin : CTxIn) (inputs inputs' : List CTxDSIn) : Prop :=
  ∃ before s after, inputs = before ++ s :: after ∧ newVin.names s.toCTxIn = true ∧
    s.fHasSig = false ∧ inputs' = before ++ s.signedBy newVin :: after

theorem MarksSigned.append
    (h : MarksSigned newVin sev sev') (front back : List CTxDSIn) :
    MarksSigned newVin (front ++ (sev ++ back)) (front ++ (sev' ++ back)) := by
  obtain ⟨before, s, after, rfl, hNames, hUnsigned, rfl⟩ := h
  exact ⟨front ++ before, s, after ++ back, by simp, hNames, hUnsigned, by simp⟩

theorem isSome_signFirst_iff : (signFirst newVin sev).isSome = true ↔ FirstUnsigned newVin sev := by
  unfold FirstUnsigned
  induction sev with
  | nil => simp [signFirst]
  | cons s sev ih =>
      unfold signFirst
      by_cases hNames : newVin.names s.toCTxIn = true
      · simp only [List.find?_cons, hNames, if_true, Option.some.injEq, exists_eq_left']
        cases s.fHasSig <;> simp
      · have hNot : newVin.names s.toCTxIn = false := by simpa using hNames
        simp only [List.find?_cons, hNot, Bool.false_eq_true, if_false, Option.isSome_map, ih]

theorem marksSigned_of_signFirst (h : signFirst newVin sev = some sev') :
    MarksSigned newVin sev sev' := by
  induction sev generalizing sev' with
  | nil => cases h
  | cons s sev ih =>
      unfold signFirst at h
      split_ifs at h with hNames hSigned
      · rw [← Option.some.inj h]
        exact ⟨[], s, sev, rfl, hNames, by simpa using hSigned, rfl⟩
      · obtain ⟨rest, hRest, rfl⟩ := Option.map_eq_some_iff.mp h
        simpa using (ih hRest).append [s] []

variable {entries entries' : List CDarkSendEntry}

theorem isSome_addSigToEntries_iff :
    (addSigToEntries newVin entries).isSome = true ↔
      ∃ e ∈ entries, FirstUnsigned newVin e.sev := by
  induction entries with
  | nil => simp [addSigToEntries]
  | cons e entries ih =>
      unfold addSigToEntries
      have hEntry : (e.addSig newVin).isSome = true ↔ FirstUnsigned newVin e.sev := by
        unfold CDarkSendEntry.addSig
        rw [Option.isSome_map, isSome_signFirst_iff]
      cases hAdd : e.addSig newVin with
      | some e' =>
          rw [hAdd] at hEntry
          simp [hEntry.mp rfl]
      | none =>
          rw [hAdd] at hEntry
          have hNot : ¬FirstUnsigned newVin e.sev := fun hFirst => by
            cases hEntry.mpr hFirst
          rw [Option.isSome_map, ih]
          simp [hNot]

theorem marksSigned_of_addSigToEntries (h : addSigToEntries newVin entries = some entries') :
    MarksSigned newVin (entries.flatMap CDarkSendEntry.sev)
      (entries'.flatMap CDarkSendEntry.sev) := by
  induction entries generalizing entries' with
  | nil => cases h
  | cons e entries ih =>
      unfold addSigToEntries at h
      cases hAdd : e.addSig newVin with
      | some e' =>
          rw [hAdd] at h
          obtain ⟨sev, hFirst, rfl⟩ := Option.map_eq_some_iff.mp hAdd
          rw [← Option.some.inj h, List.flatMap_cons, List.flatMap_cons]
          exact (marksSigned_of_signFirst hFirst).append [] _
      | none =>
          rw [hAdd] at h
          obtain ⟨rest, hRest, rfl⟩ := Option.map_eq_some_iff.mp h
          rw [List.flatMap_cons, List.flatMap_cons]
          simpa using (ih hRest).append e.sev []

end Named

/-! ## What a verification looks at -/

section Verify

variable (P : ScriptPrimitives) (cache : CSignatureCache P)

/-- A verification does not look at the signature scripts of the transaction. -/
theorem verifyScript_withScriptSigs
    (scriptSig scriptPubKey : CScript) (txTo : CTransaction) (nIn flags : ℕ)
    (scriptSigs : ℕ → CTxIn → CScript) :
    verifyScript P cache scriptSig scriptPubKey
        { txTo with
          vin := txTo.vin.mapIdx fun i txin => { txin with scriptSig := scriptSigs i txin } }
        nIn flags 0 =
      verifyScript P cache scriptSig scriptPubKey txTo nIn flags 0 := by
  have hRules : txRules P cache
      { txTo with
        vin := txTo.vin.mapIdx fun i txin => { txin with scriptSig := scriptSigs i txin } }
      nIn flags 0 = txRules P cache txTo nIn flags 0 := by
    unfold txRules
    congr 1
    funext vchSig vchPubKey scriptCode
    rw [checkSig_eq_signatureChecker, checkSig_eq_signatureChecker]
    unfold signatureChecker
    simp only [signatureHash_withScriptSigs]
  unfold verifyScript evalScript
  rw [hRules]

theorem verifyScript_withScriptSig
    (scriptSig scriptPubKey : CScript) (txTo : CTransaction) (n nIn flags : ℕ)
    (newSig : CScript) :
    verifyScript P cache scriptSig scriptPubKey (txTo.withScriptSig n newSig) nIn flags 0 =
      verifyScript P cache scriptSig scriptPubKey txTo nIn flags 0 :=
  verifyScript_withScriptSigs P cache scriptSig scriptPubKey txTo nIn flags
    fun i txin => if i = n then newSig else txin.scriptSig

theorem verifyScript_signInputsNamed
    (scriptSig scriptPubKey : CScript) (txTo : CTransaction) (nIn flags : ℕ) (newVin : CTxIn) :
    verifyScript P cache scriptSig scriptPubKey (txTo.signInputsNamed newVin) nIn flags 0 =
      verifyScript P cache scriptSig scriptPubKey txTo nIn flags 0 := by
  have hSame : txTo.signInputsNamed newVin =
      { txTo with
        vin := txTo.vin.mapIdx fun _ txin =>
          { txin with
            scriptSig := if newVin.names txin then newVin.scriptSig else txin.scriptSig } } := by
    unfold CTransaction.signInputsNamed
    congr 1
    apply List.ext_getElem?
    intro i
    rw [List.getElem?_map, List.getElem?_mapIdx]
    cases txTo.vin[i]? with
    | none => rfl
    | some txin =>
        rw [Option.map_some, Option.map_some]
        split_ifs <;> rfl
  rw [hSame]
  exact verifyScript_withScriptSigs P cache scriptSig scriptPubKey txTo nIn flags
    fun _ txin => if newVin.names txin then newVin.scriptSig else txin.scriptSig

end Verify

/-! ## What is accepted -/

section Accept

variable {P : ScriptPrimitives} {cache : CSignatureCache P} {adjustedTime : ℕ}
  {pool : CDarksendPool} {newVin : CTxIn}

/-- An input whose signature script is new is not found, and so taken for valid. -/
theorem signatureValid_of_new (hNew : pool.hasScriptSig newVin.scriptSig = false)
    (newSig : CScript) : pool.signatureValid P cache adjustedTime newSig newVin = true := by
  unfold CDarksendPool.signatureValid
  dsimp only
  cases hFound : findInput pool.vin newVin with
  | none => rfl
  | some n =>
      have hMem := List.mem_of_getElem? (getElem?_of_findInput hFound)
      obtain ⟨e, hEntry, hVin⟩ := List.mem_flatMap.mp hMem
      obtain ⟨s, hSev, hSame⟩ := List.mem_map.mp hVin
      have hInput : s ∈ pool.inputs := List.mem_flatMap.mpr ⟨e, hEntry, hSev⟩
      have hOld : pool.hasScriptSig newVin.scriptSig = true :=
        List.any_eq_true.mpr ⟨s, hInput, decide_eq_true (by rw [hSame])⟩
      rw [hNew] at hOld
      cases hOld

/-- A signature with a new script goes into the final transaction, and into the first entry that
takes it. -/
theorem addScriptSig_of_new
    (P : ScriptPrimitives) (cache : CSignatureCache P) (adjustedTime : ℕ)
    (hNew : pool.hasScriptSig newVin.scriptSig = false) :
    (pool.addScriptSig P cache adjustedTime newVin).1 =
        (addSigToEntries newVin pool.entries).isSome ∧
      (pool.addScriptSig P cache adjustedTime newVin).2 =
        { pool with
          finalTransaction := pool.finalTransaction.signInputsNamed newVin
          entries := (addSigToEntries newVin pool.entries).getD pool.entries } := by
  unfold CDarksendPool.addScriptSig
  rw [if_neg (by simp [hNew]), signatureValid_of_new hNew, if_neg (by simp)]
  dsimp only
  cases addSigToEntries newVin pool.entries <;> exact ⟨rfl, rfl⟩

theorem addScriptSig_of_old
    (P : ScriptPrimitives) (cache : CSignatureCache P) (adjustedTime : ℕ)
    (hOld : pool.hasScriptSig newVin.scriptSig = true) :
    pool.addScriptSig P cache adjustedTime newVin = (false, pool) := by
  unfold CDarksendPool.addScriptSig
  rw [if_pos hOld]

/-- A signature is accepted: the result is true, and an input it names is signed. -/
def Accepts (P : ScriptPrimitives) (cache : CSignatureCache P) (adjustedTime : ℕ)
    (pool : CDarksendPool) (newVin : CTxIn) : Prop :=
  (pool.addScriptSig P cache adjustedTime newVin).1 = true ∧
    MarksSigned newVin pool.inputs (pool.addScriptSig P cache adjustedTime newVin).2.inputs

theorem accepts_iff :
    Accepts P cache adjustedTime pool newVin ↔
      pool.hasScriptSig newVin.scriptSig = false ∧
        ∃ e ∈ pool.entries, FirstUnsigned newVin e.sev := by
  unfold Accepts
  cases hOld : pool.hasScriptSig newVin.scriptSig with
  | true => simp [addScriptSig_of_old P cache adjustedTime hOld]
  | false =>
      obtain ⟨hResult, hPool⟩ := addScriptSig_of_new P cache adjustedTime hOld
      rw [hResult, isSome_addSigToEntries_iff]
      refine ⟨fun hAccepts => ⟨rfl, hAccepts.1⟩, fun ⟨_, hFirst⟩ => ⟨hFirst, ?_⟩⟩
      obtain ⟨entries, hEntries⟩ :=
        Option.isSome_iff_exists.mp (isSome_addSigToEntries_iff.mpr hFirst)
      rw [hPool, hEntries]
      exact marksSigned_of_addSigToEntries hEntries

end Accept

/-! ## Exactly the valid signatures -/

section Exact

/-- An input that the signature names is not signed. -/
def NamesUnsigned (pool : CDarksendPool) (newVin : CTxIn) : Prop :=
  ∃ s ∈ pool.inputs, newVin.names s.toCTxIn = true ∧ s.fHasSig = false

/-- The signature verifies for each input of the final transaction that it names, against the
script of the output that the input spends. -/
def VerifiesWhereNamed (P : ScriptPrimitives) (cache : CSignatureCache P)
    (spent : COutPoint → CScript) (finalTransaction : CTransaction) (newVin : CTxIn) : Prop :=
  ∀ i txin, finalTransaction.vin[i]? = some txin → newVin.names txin = true →
    verifyScript P cache newVin.scriptSig (spent txin.prevout)
      (finalTransaction.withScriptSig i newVin.scriptSig) i DARKSEND_VERIFY_FLAGS 0 = true

/-- The signature names an input of the final transaction, and verifies for it. -/
def Verifies (P : ScriptPrimitives) (cache : CSignatureCache P)
    (spent : COutPoint → CScript) (finalTransaction : CTransaction) (newVin : CTxIn) : Prop :=
  (∃ txin ∈ finalTransaction.vin, newVin.names txin = true) ∧
    VerifiesWhereNamed P cache spent finalTransaction newVin

/-- An input of the final transaction carries a valid signature. -/
def CarriesSignature (P : ScriptPrimitives) (cache : CSignatureCache P)
    (spent : COutPoint → CScript) (finalTransaction : CTransaction) (i : ℕ) : Prop :=
  ∀ txin, finalTransaction.vin[i]? = some txin →
    verifyScript P cache txin.scriptSig (spent txin.prevout) finalTransaction i
      DARKSEND_VERIFY_FLAGS 0 = true

variable {P : ScriptPrimitives} {cache : CSignatureCache P} {adjustedTime : ℕ}
  {spent : COutPoint → CScript} {pool : CDarksendPool} {newVin : CTxIn}

theorem names_iff {txin : CTxIn} :
    newVin.names txin = true ↔
      txin.prevout = newVin.prevout ∧ txin.nSequence = newVin.nSequence := by
  simp [CTxIn.names]

theorem namesUnsigned_of_firstUnsigned
    (h : ∃ e ∈ pool.entries, FirstUnsigned newVin e.sev) : NamesUnsigned pool newVin := by
  obtain ⟨e, hEntry, s, hFind, hUnsigned⟩ := h
  have hNames := List.find?_some hFind
  exact ⟨s, List.mem_flatMap.mpr ⟨e, hEntry, List.mem_of_find?_eq_some hFind⟩, hNames,
    hUnsigned⟩

theorem accepts_iff_verifies_iff :
    (Accepts P cache adjustedTime pool newVin ↔
        NamesUnsigned pool newVin ∧ Verifies P cache spent pool.finalTransaction newVin) ↔
      (NamesUnsigned pool newVin →
        (Verifies P cache spent pool.finalTransaction newVin ↔
          pool.hasScriptSig newVin.scriptSig = false ∧
            ∃ e ∈ pool.entries, FirstUnsigned newVin e.sev)) := by
  rw [accepts_iff]
  by_cases hNames : NamesUnsigned pool newVin
  · simp only [hNames, true_and, true_imp_iff]
    exact iff_comm
  · have hNone : ¬∃ e ∈ pool.entries, FirstUnsigned newVin e.sev :=
      fun hFirst => hNames (namesUnsigned_of_firstUnsigned hFirst)
    simp only [hNames, hNone, and_false, false_and, iff_self, false_imp_iff]

/-! ## All signatures -/

/-- A session that starts to sign: the final transaction has the inputs and outputs of the
entries in some order, and nothing is signed. -/
structure StartsSigning (pool : CDarksendPool) : Prop where
  state : pool.state = POOL_STATUS_SIGNING
  vin : pool.finalTransaction.vin.Perm pool.vin
  vout : pool.finalTransaction.vout.Perm pool.vout
  unsigned : ∀ s ∈ pool.inputs, s.fHasSig = false

/-- Each input of the final transaction is one of the entries, and carries a valid signature if
that is signed. -/
structure SignedSoundly (P : ScriptPrimitives) (cache : CSignatureCache P)
    (spent : COutPoint → CScript) (pool : CDarksendPool) : Prop where
  named : ∀ txin ∈ pool.finalTransaction.vin, ∃ s ∈ pool.inputs, s.toCTxIn.names txin = true
  signed : ∀ i txin, pool.finalTransaction.vin[i]? = some txin →
    (∃ s ∈ pool.inputs, s.toCTxIn.names txin = true ∧ s.fHasSig = true) →
    CarriesSignature P cache spent pool.finalTransaction i

theorem StartsSigning.signedSoundly (h : StartsSigning pool) :
    SignedSoundly P cache spent pool where
  named := by
    intro txin hMem
    obtain ⟨e, hEntry, hVin⟩ := List.mem_flatMap.mp (h.vin.subset hMem)
    obtain ⟨s, hSev, rfl⟩ := List.mem_map.mp hVin
    exact ⟨s, List.mem_flatMap.mpr ⟨e, hEntry, hSev⟩, names_iff.mpr ⟨rfl, rfl⟩⟩
  signed := by
    rintro i txin - ⟨s, hMem, -, hSigned⟩
    rw [h.unsigned s hMem] at hSigned
    cases hSigned

/-- The inputs after a signature: one is signed, or none. -/
theorem inputs_addScriptSig_of_new
    (P : ScriptPrimitives) (cache : CSignatureCache P) (adjustedTime : ℕ)
    (hNew : pool.hasScriptSig newVin.scriptSig = false) :
    (pool.addScriptSig P cache adjustedTime newVin).2.inputs = pool.inputs ∨
      MarksSigned newVin pool.inputs (pool.addScriptSig P cache adjustedTime newVin).2.inputs := by
  rw [(addScriptSig_of_new P cache adjustedTime hNew).2]
  cases hAdd : addSigToEntries newVin pool.entries with
  | none => exact Or.inl rfl
  | some entries => exact Or.inr (marksSigned_of_addSigToEntries hAdd)

/-- Inputs keep their names, and a signed one is either signed before or named. -/
theorem MarksSigned.mem_cases
    {inputs inputs' : List CTxDSIn} (h : MarksSigned newVin inputs inputs') :
    (∀ s ∈ inputs, ∃ s' ∈ inputs', s'.prevout = s.prevout ∧ s'.nSequence = s.nSequence) ∧
      ∀ s' ∈ inputs', s' ∈ inputs ∨ newVin.names s'.toCTxIn = true := by
  obtain ⟨before, s, after, rfl, hNames, -, rfl⟩ := h
  constructor
  · intro t hMem
    rw [List.mem_append, List.mem_cons] at hMem
    rcases hMem with hBefore | rfl | hAfter
    · exact ⟨t, by simp [hBefore], rfl, rfl⟩
    · exact ⟨t.signedBy newVin, by simp, rfl, rfl⟩
    · exact ⟨t, by simp [hAfter], rfl, rfl⟩
  · intro t hMem
    rw [List.mem_append, List.mem_cons] at hMem
    rcases hMem with hBefore | rfl | hAfter
    · exact Or.inl (by simp [hBefore])
    · exact Or.inr (names_iff.mpr (names_iff.mp hNames))
    · exact Or.inl (by simp [hAfter])

theorem SignedSoundly.addScriptSig
    (h : SignedSoundly P cache spent pool)
    (hValid : pool.hasScriptSig newVin.scriptSig = false →
      VerifiesWhereNamed P cache spent pool.finalTransaction newVin) :
    SignedSoundly P cache spent (pool.addScriptSig P cache adjustedTime newVin).2 := by
  cases hNew : pool.hasScriptSig newVin.scriptSig with
  | true =>
      rw [addScriptSig_of_old P cache adjustedTime hNew]
      exact h
  | false =>
      have hFinal : (pool.addScriptSig P cache adjustedTime newVin).2.finalTransaction =
          pool.finalTransaction.signInputsNamed newVin := by
        rw [(addScriptSig_of_new P cache adjustedTime hNew).2]
      have hInputs := inputs_addScriptSig_of_new P cache adjustedTime hNew
      generalize (pool.addScriptSig P cache adjustedTime newVin).2 = pool' at hFinal hInputs ⊢
      have hKeep : ∀ s ∈ pool.inputs, ∃ s' ∈ pool'.inputs,
          s'.prevout = s.prevout ∧ s'.nSequence = s.nSequence := by
        rcases hInputs with hSame | hMarks
        · rw [hSame]
          exact fun s hMem => ⟨s, hMem, rfl, rfl⟩
        · exact hMarks.mem_cases.1
      have hFrom : ∀ s' ∈ pool'.inputs, s' ∈ pool.inputs ∨ newVin.names s'.toCTxIn = true := by
        rcases hInputs with hSame | hMarks
        · rw [hSame]
          exact fun s hMem => Or.inl hMem
        · exact hMarks.mem_cases.2
      constructor
      · intro txin' hMem
        rw [hFinal] at hMem
        obtain ⟨txin, hOld, rfl⟩ := List.mem_map.mp hMem
        obtain ⟨s, hInput, hNamed⟩ := h.named txin hOld
        obtain ⟨s', hInput', hPrevout, hSequence⟩ := hKeep s hInput
        refine ⟨s', hInput', names_iff.mpr ?_⟩
        rw [hPrevout, hSequence]
        have hBoth := names_iff.mp hNamed
        split_ifs <;> exact hBoth
      · rintro i txin' hAt ⟨s', hInput', hNamed', hSigned'⟩ txin'' hAt'
        obtain rfl : txin' = txin'' := Option.some.inj (hAt.symm.trans hAt')
        rw [hFinal] at hAt ⊢
        obtain ⟨txin, hOld, hEq⟩ : ∃ txin, pool.finalTransaction.vin[i]? = some txin ∧
            (if newVin.names txin then { txin with scriptSig := newVin.scriptSig } else txin) =
              txin' := by
          rw [CTransaction.signInputsNamed, List.getElem?_map] at hAt
          exact Option.map_eq_some_iff.mp hAt
        rw [verifyScript_signInputsNamed]
        split_ifs at hEq with hNames
        · have hVerified := hValid hNew i txin hOld hNames
          rw [verifyScript_withScriptSig] at hVerified
          rw [← hEq]
          exact hVerified
        · subst hEq
          rcases hFrom s' hInput' with hBefore | hMarked
          · exact h.signed i txin hOld ⟨s', hBefore, hNamed', hSigned'⟩ txin hOld
          · refine absurd (names_iff.mpr ?_) hNames
            have hFirst := names_iff.mp hNamed'
            have hSecond := names_iff.mp hMarked
            exact ⟨hFirst.1.trans hSecond.1, hFirst.2.trans hSecond.2⟩

/-- The pool after signatures that are received one after the other. -/
def addScriptSigs (P : ScriptPrimitives) (cache : CSignatureCache P) (adjustedTime : ℕ)
    (sigs : List CTxIn) (pool : CDarksendPool) : CDarksendPool :=
  sigs.foldl (fun pool newVin => (pool.addScriptSig P cache adjustedTime newVin).2) pool

theorem SignedSoundly.addScriptSigs
    {sigs : List CTxIn} (h : SignedSoundly P cache spent pool)
    (hValid : ∀ before newVin after, sigs = before ++ newVin :: after →
      (addScriptSigs P cache adjustedTime before pool).hasScriptSig newVin.scriptSig = false →
      VerifiesWhereNamed P cache spent
        (addScriptSigs P cache adjustedTime before pool).finalTransaction newVin) :
    SignedSoundly P cache spent (SocietyGold.addScriptSigs P cache adjustedTime sigs pool) := by
  induction sigs using List.reverseRecOn with
  | nil => exact h
  | append_singleton sigs newVin ih =>
      have hBefore := ih fun before newVin' after hSplit =>
        hValid before newVin' (after ++ [newVin]) (by simp [hSplit])
      rw [SocietyGold.addScriptSigs, List.foldl_concat]
      exact hBefore.addScriptSig (hValid sigs newVin [] rfl)

theorem SignedSoundly.carriesSignature
    (h : SignedSoundly P cache spent pool) (hComplete : pool.signaturesComplete = true) (i : ℕ) :
    CarriesSignature P cache spent pool.finalTransaction i := by
  intro txin hAt
  obtain ⟨s, hInput, hNamed⟩ := h.named txin (List.mem_of_getElem? hAt)
  have hSigned : s.fHasSig = true := List.all_eq_true.mp hComplete s hInput
  exact h.signed i txin hAt ⟨s, hInput, hNamed, hSigned⟩ txin hAt

end Exact

/-! ## A signature that is none -/

namespace Sample

/-- The session of one entry, whose input spends an output for a key. -/
def signingPool : CDarksendPool where
  entries := [CDarkSendEntry.add [⟨⟨7, 0⟩, [], UINT_MAX⟩] 50 spending [⟨50, [OP_1]⟩] 1000]
  finalTransaction := spending
  state := POOL_STATUS_SIGNING
  sessionID := 5
  sessionUsers := 3
  sessionDenom := 1
  vecSessionCollateral := []
  lastTimeChanged := 0

def keyOutput : CScript := CScript.pushBytes [] (compressedKey 1) ++ [OP_CHECKSIG]

/-- The input of the entry, with a signature script that is no signature. -/
def garbageSignature : CTxIn := ⟨⟨7, 0⟩, [OP_1], UINT_MAX⟩

end Sample

end SocietyGold
