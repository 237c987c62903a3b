import SocietyGold.StandardTx

/-!
# What `AreInputsStandard` vouches for

The function is to return true only if every input is standard for the output it
spends.  Two things come between: `GetOutputFor` returns an output of the
transaction itself, and a redeem script of no known form ends the loop with the
answer for its input.  The loop is right about a transaction exactly when it is
stopped by an input that is not standard as it reads it, or there is nothing to
object to.
-/

namespace SocietyGold

open Support TxnOutType

/-! ## One input -/

/-- What a round of the loop makes of an input: it is refused, it is accepted, or
it is accepted and no other input is looked at. -/
inductive InputVerdict
  | nonstandard
  | standard
  | unknownRedeemScript
  deriving DecidableEq, Repr

open InputVerdict

section Verdict

variable (env : RelayEnv) (tx : CTransaction)

/-- The rule for an input, given the script of the output. -/
def inputVerdict (txin : CTxIn) (i : ℕ) (prevScript : CScript) : InputVerdict :=
  match solver prevScript with
  | none => nonstandard
  | some (whichType, vSolutions) =>
      let nArgsExpected := scriptSigArgsExpected whichType vSolutions
      if nArgsExpected < 0 then nonstandard
      else
        match evalScript env.scriptPrims env.signatureCache [] txin.scriptSig tx i
            SCRIPT_VERIFY_NONE 0 with
        | none => nonstandard
        | some stack =>
            if whichType = TX_SCRIPTHASH then
              match stack with
              | [] => nonstandard
              | subscript :: _ =>
                  match solver subscript with
                  | none =>
                      if CScript.getSigOpCount subscript true ≤ MAX_P2SH_SIGOPS then
                        unknownRedeemScript
                      else nonstandard
                  | some (whichType2, vSolutions2) =>
                      let tmpExpected := scriptSigArgsExpected whichType2 vSolutions2
                      if whichType2 = TX_SCRIPTHASH then nonstandard
                      else if tmpExpected < 0 then nonstandard
                      else if (stack.length : ℤ) ≠ nArgsExpected + tmpExpected then nonstandard
                      else standard
            else if (stack.length : ℤ) ≠ nArgsExpected then nonstandard
            else standard

/-- How the loop goes on after an input. -/
def afterVerdict (rest : Checked Bool) : InputVerdict → Checked Bool
  | nonstandard => .ok false
  | standard => rest
  | unknownRedeemScript => .ok true

theorem standardInputsLoop_cons (txin : CTxIn) (i : ℕ) (rest : List (CTxIn × ℕ)) :
    standardInputsLoop env tx ((txin, i) :: rest) =
      tx.getOutputFor txin >>= fun prev =>
        afterVerdict (standardInputsLoop env tx rest)
          (inputVerdict env tx txin i prev.scriptPubKey) := by
  rw [standardInputsLoop]
  apply bind_congr
  intro prev
  unfold inputVerdict
  rcases solver prev.scriptPubKey with _ | ⟨whichType, vSolutions⟩
  · rfl
  dsimp only
  by_cases hArgs : scriptSigArgsExpected whichType vSolutions < 0
  · rw [if_pos hArgs, if_pos hArgs]
    rfl
  rw [if_neg hArgs, if_neg hArgs]
  cases evalScript env.scriptPrims env.signatureCache [] txin.scriptSig tx i
      SCRIPT_VERIFY_NONE 0 with
  | none => rfl
  | some stack =>
      dsimp only
      rw [apply_ite (afterVerdict (standardInputsLoop env tx rest)),
        apply_ite (afterVerdict (standardInputsLoop env tx rest))]
      congr 1
      cases stack with
      | nil => rfl
      | cons subscript stack =>
          dsimp only
          rcases solver subscript with _ | ⟨whichType2, vSolutions2⟩
          · dsimp only
            by_cases hSigOps : CScript.getSigOpCount subscript true ≤ MAX_P2SH_SIGOPS
            · rw [if_pos hSigOps, decide_eq_true hSigOps]
              rfl
            · rw [if_neg hSigOps, decide_eq_false hSigOps]
              rfl
          · dsimp only
            rw [apply_ite (afterVerdict (standardInputsLoop env tx rest)),
              apply_ite (afterVerdict (standardInputsLoop env tx rest)),
              apply_ite (afterVerdict (standardInputsLoop env tx rest))]
            rfl

/-! ## The loop -/

/-- The verdict on an input when the output is the one `GetOutputFor` returns. -/
def ReadAs (v : InputVerdict) (input : CTxIn × ℕ) : Prop :=
  ∃ prev, tx.getOutputFor input.1 = .ok prev ∧
    inputVerdict env tx input.1 input.2 prev.scriptPubKey = v

/-- The first input that is not simply standard, as the loop reads them, has this
verdict. -/
def StopsWith (v : InputVerdict) (inputs : List (CTxIn × ℕ)) : Prop :=
  ∃ before input after, inputs = before ++ input :: after ∧ ReadAs env tx v input ∧
    ∀ earlier ∈ before, ReadAs env tx standard earlier

variable {env tx}

theorem ReadAs.unique {v v' : InputVerdict} {input : CTxIn × ℕ} (h : ReadAs env tx v input)
    (h' : ReadAs env tx v' input) : v = v' := by
  obtain ⟨prev, hPrev, rfl⟩ := h
  obtain ⟨prev', hPrev', rfl⟩ := h'
  rw [hPrev] at hPrev'
  rw [Except.ok.inj hPrev']

theorem standardInputsLoop_of_standard
    {input : CTxIn × ℕ} (h : ReadAs env tx standard input) (rest : List (CTxIn × ℕ)) :
    standardInputsLoop env tx (input :: rest) = standardInputsLoop env tx rest := by
  obtain ⟨prev, hPrev, hVerdict⟩ := h
  rw [standardInputsLoop_cons, hPrev, ok_bind, hVerdict]
  rfl

theorem stopsWith_cons_of_standard
    {v : InputVerdict} (hv : v ≠ standard) {input : CTxIn × ℕ}
    (h : ReadAs env tx standard input) (rest : List (CTxIn × ℕ)) :
    StopsWith env tx v (input :: rest) ↔ StopsWith env tx v rest := by
  constructor
  · rintro ⟨before, stop, after, hSplit, hStop, hBefore⟩
    cases before with
    | nil =>
        obtain ⟨rfl, rfl⟩ := List.cons.inj hSplit
        exact absurd (hStop.unique h) hv
    | cons first before =>
        obtain ⟨rfl, hRest⟩ := List.cons.inj hSplit
        exact ⟨before, stop, after, hRest, hStop,
          fun earlier hMem => hBefore earlier (List.mem_cons_of_mem _ hMem)⟩
  · rintro ⟨before, stop, after, rfl, hStop, hBefore⟩
    refine ⟨input :: before, stop, after, rfl, hStop, ?_⟩
    intro earlier hMem
    rcases List.mem_cons.mp hMem with rfl | hMem
    · exact h
    · exact hBefore earlier hMem

theorem stopsWith_head
    {v : InputVerdict} {input : CTxIn × ℕ} (h : ReadAs env tx v input)
    (rest : List (CTxIn × ℕ)) : StopsWith env tx v (input :: rest) :=
  ⟨[], input, rest, rfl, h, fun _ hMem => absurd hMem List.not_mem_nil⟩

/-- A stop at the first input is no later one. -/
theorem not_stopsWith_cons
    {v v' : InputVerdict} (hv : v ≠ standard) (hNe : v' ≠ v) {input : CTxIn × ℕ}
    (h : ReadAs env tx v input) (rest : List (CTxIn × ℕ)) :
    ¬ StopsWith env tx v' (input :: rest) := by
  rintro ⟨before, stop, after, hSplit, hStop, hBefore⟩
  cases before with
  | nil =>
      obtain ⟨rfl, rfl⟩ := List.cons.inj hSplit
      exact hNe (hStop.unique h)
  | cons first before =>
      obtain ⟨rfl, -⟩ := List.cons.inj hSplit
      exact hv (h.unique (hBefore _ List.mem_cons_self))

theorem StopsWith.ne_nil {v : InputVerdict} {inputs : List (CTxIn × ℕ)}
    (h : StopsWith env tx v inputs) : inputs ≠ [] := by
  obtain ⟨before, input, after, rfl, -, -⟩ := h
  simp

theorem StopsWith.readAs_head
    {v : InputVerdict} {input : CTxIn × ℕ} {rest : List (CTxIn × ℕ)}
    (h : StopsWith env tx v (input :: rest)) : ∃ v', ReadAs env tx v' input := by
  obtain ⟨before, stop, after, hSplit, hStop, hBefore⟩ := h
  cases before with
  | nil =>
      obtain ⟨rfl, rfl⟩ := List.cons.inj hSplit
      exact ⟨v, hStop⟩
  | cons first before =>
      obtain ⟨rfl, -⟩ := List.cons.inj hSplit
      exact ⟨standard, hBefore _ List.mem_cons_self⟩

/-- The inputs after which the loop answers true: all are standard as it reads
them, or those before an unknown redeem script are. -/
def LetThrough (env : RelayEnv) (tx : CTransaction) (inputs : List (CTxIn × ℕ)) : Prop :=
  (∀ input ∈ inputs, ReadAs env tx standard input) ∨
    StopsWith env tx unknownRedeemScript inputs

theorem letThrough_cons_of_standard
    {input : CTxIn × ℕ} (h : ReadAs env tx standard input) (rest : List (CTxIn × ℕ)) :
    LetThrough env tx (input :: rest) ↔ LetThrough env tx rest := by
  unfold LetThrough
  rw [stopsWith_cons_of_standard (by decide) h, List.forall_mem_cons]
  exact or_congr_left ⟨fun hAll => hAll.2, fun hRest => ⟨h, hRest⟩⟩

/-- The loop answers false exactly when it stops at an input that is not
standard, and true exactly when nothing it looks at is in its way. -/
theorem standardInputsLoop_eq_ok_iff (inputs : List (CTxIn × ℕ)) :
    (standardInputsLoop env tx inputs = .ok false ↔ StopsWith env tx nonstandard inputs) ∧
      (standardInputsLoop env tx inputs = .ok true ↔ LetThrough env tx inputs) := by
  induction inputs with
  | nil =>
      constructor
      · exact iff_of_false (by simp [standardInputsLoop]) fun h => h.ne_nil rfl
      · exact iff_of_true rfl (Or.inl fun _ hMem => absurd hMem List.not_mem_nil)
  | cons input rest ih =>
      cases hPrev : tx.getOutputFor input.1 with
      | error fault =>
          have hNone {v : InputVerdict} : ¬ ReadAs env tx v input := by
            rintro ⟨prev, hOk, -⟩
            rw [hPrev] at hOk
            cases hOk
          have hNever {v : InputVerdict} : ¬ StopsWith env tx v (input :: rest) :=
            fun h => hNone h.readAs_head.choose_spec
          rw [standardInputsLoop_cons, hPrev, error_bind]
          constructor
          · exact iff_of_false (by simp) hNever
          · refine iff_of_false (by simp) ?_
            rintro (hAll | hStop)
            · exact hNone (hAll input List.mem_cons_self)
            · exact hNever hStop
      | ok prev =>
          cases hVerdict : inputVerdict env tx input.1 input.2 prev.scriptPubKey with
          | standard =>
              have hRead : ReadAs env tx standard input := ⟨prev, hPrev, hVerdict⟩
              rw [standardInputsLoop_of_standard hRead,
                stopsWith_cons_of_standard (by decide) hRead, letThrough_cons_of_standard hRead]
              exact ih
          | nonstandard =>
              have hRead : ReadAs env tx nonstandard input := ⟨prev, hPrev, hVerdict⟩
              rw [standardInputsLoop_cons, hPrev, ok_bind, hVerdict]
              constructor
              · exact iff_of_true rfl (stopsWith_head hRead rest)
              · refine iff_of_false (by simp [afterVerdict]) ?_
                rintro (hAll | hStop)
                · exact absurd (hRead.unique (hAll input List.mem_cons_self)) (by decide)
                · exact not_stopsWith_cons (by decide) (by decide) hRead rest hStop
          | unknownRedeemScript =>
              have hRead : ReadAs env tx unknownRedeemScript input := ⟨prev, hPrev, hVerdict⟩
              rw [standardInputsLoop_cons, hPrev, ok_bind, hVerdict]
              constructor
              · exact iff_of_false (by simp [afterVerdict])
                  (not_stopsWith_cons (by decide) (by decide) hRead rest)
              · exact iff_of_true rfl (Or.inr (stopsWith_head hRead rest))

end Verdict

/-! ## What it vouches for -/

/-- The output that an input spends, by the transactions that were fetched. -/
def outputSpentBy (inputs : MapPrevTx) (txin : CTxIn) : Option CTxOut :=
  (inputs.lookup txin.prevout.hash).bind fun entry => entry.2.vout[txin.prevout.n]?

/-- An input is standard for the output it spends. -/
def SpendsStandardly (env : RelayEnv) (tx : CTransaction) (inputs : MapPrevTx)
    (input : CTxIn × ℕ) : Prop :=
  ∃ prev, outputSpentBy inputs input.1 = some prev ∧
    inputVerdict env tx input.1 input.2 prev.scriptPubKey ≠ nonstandard

/-- The function has an answer, and true stands for every input. -/
def VouchesForInputs (env : RelayEnv) (tx : CTransaction) (inputs : MapPrevTx) : Prop :=
  ∃ answer, areInputsStandard env tx = .ok answer ∧
    (answer = true → tx.isCoinBase = false →
      ∀ input ∈ tx.vin.zipIdx, SpendsStandardly env tx inputs input)

namespace Sample

theorem standardnessEnv_prims : prims = (env 900).prims := rfl

def standardnessEnv : RelayEnv where
  toEnv := env 900
  fTestNet := false
  mapDarksendBroadcastTxes := ∅
  scriptPrims :=
    { toPrimitives := prims
      ripemd160 := id
      sha1 := id
      sha256 := id
      checkLowS := fun _ => true }
  signatureCache := CSignatureCache.empty
  prims_eq := standardnessEnv_prims

/-- A payment to a public key, and one to the hash of a script. -/
def payToKeyOutput : CTxOut := ⟨50, 33 :: (2 :: List.replicate 32 7) ++ [OP_CHECKSIG]⟩

def scriptOutput : CTxOut := ⟨50, OP_HASH160 :: 20 :: List.replicate 20 7 ++ [OP_EQUAL]⟩

/-- The previous transactions: one with the number 7. -/
def spentFrom (vout : List CTxOut) : MapPrevTx :=
  (∅ : MapPrevTx).insert 7 (CTxIndex.null, ⟨1, 1000, [], vout, 0⟩)

/-- It spends an output with an unknown script, and pays to a key. -/
def misread : CTransaction := ⟨1, 1000, [⟨⟨7, 0⟩, [1, 1], UINT_MAX⟩], [payToKeyOutput], 0⟩

/-- Its first input has an unknown redeem script, and its second one no signature.
Its outputs are like those it spends. -/
def stopsEarly : CTransaction where
  nVersion := 1
  nTime := 1000
  vin := [⟨⟨7, 0⟩, [1, OP_NOP], UINT_MAX⟩, ⟨⟨7, 1⟩, [], UINT_MAX⟩]
  vout := [scriptOutput, payToKeyOutput]
  nLockTime := 0

end Sample

/-- An input that spends an output it is not standard for is missed. -/
theorem not_vouchesForInputs
    {env : RelayEnv} {tx : CTransaction} {inputs : MapPrevTx} (input : CTxIn × ℕ) (prev : CTxOut)
    (hTrue : areInputsStandard env tx = .ok true) (hCoinBase : tx.isCoinBase = false)
    (hMem : input ∈ tx.vin.zipIdx) (hPrev : outputSpentBy inputs input.1 = some prev)
    (hVerdict : inputVerdict env tx input.1 input.2 prev.scriptPubKey = nonstandard) :
    ¬ VouchesForInputs env tx inputs := by
  rintro ⟨answer, hAnswer, hAll⟩
  rw [hTrue] at hAnswer
  obtain rfl := Except.ok.inj hAnswer
  obtain ⟨prev', hPrev', hNot⟩ := hAll rfl hCoinBase input hMem
  rw [hPrev] at hPrev'
  obtain rfl := Option.some.inj hPrev'
  exact hNot hVerdict

end SocietyGold
