import SocietyGold.Kernel
import SocietyGold.SignSignature

/-!
# Merging partial signatures

`CombineSignatures` takes what two signature scripts leave on the stack and makes
one signature script of it.  For a multisig script it matches the signatures with the
keys through a map and pushes them in the order of the keys, which is the order in
which `OP_CHECKMULTISIG` looks for them.
-/

namespace SocietyGold

open Support CScript TxnOutType

/-! ## What a script leaves -/

section Left

variable (P : ScriptPrimitives) (r : Rules)

/-- The stack where the switch over the opcodes fails.  A verifying opcode has put
the truth value in the place of its arguments, and `OP_PICK` and `OP_ROLL` have taken
the position. -/
def stackAtFault (op : GetOpResult) (m : Machine) : List Valtype :=
  if op.opcodeRet ∈ [OP_EQUALVERIFY, OP_NUMEQUALVERIFY, OP_CHECKSIGVERIFY,
      OP_CHECKMULTISIGVERIFY] then
    match exec P r { op with opcodeRet := op.opcodeRet - 1 } m with
    | some judged => judged.stack
    | none => m.stack
  else if op.opcodeRet = OP_PICK ∨ op.opcodeRet = OP_ROLL then
    match m.stack with
    | [] => []
    | top :: rest => if rest ≠ [] ∧ (r.intOperand top).isSome then rest else top :: rest
  else m.stack

/-- The stack where a round of the loop fails. -/
def stackAtFailure (op : GetOpResult) (m : Machine) : List Valtype :=
  if op.fRet = false ∨ op.vchRet.length > MAX_SCRIPT_ELEMENT_SIZE ∨
      (op.opcodeRet > OP_16 ∧ m.nOpCount + 1 > 201) ∨ isDisabled op.opcodeRet then m.stack
  else
    match dispatch P r op (countOp op m) with
    | some tooMany => tooMany.stack
    | none => stackAtFault P r op (countOp op m)

/-- The loop over the instructions, wherever it ends. -/
def stackLeft : (ops : List GetOpResult) → Machine → List Valtype
  | [], m => m.stack
  | op :: ops, m =>
      match step P r m op with
      | some next => stackLeft ops next
      | none => stackAtFailure P r op m

end Left

/-- `CombineSignatures` evaluates the signature scripts over an empty transaction, made at
the given time, and does not ask whether that succeeds. -/
def evalStack (P : ScriptPrimitives) (cache : CSignatureCache P) (adjustedTime : ℕ)
    (script : CScript) : List Valtype :=
  if script.length > 10000 then []
  else
    stackLeft P (txRules P cache (CTransaction.null adjustedTime) 0 SCRIPT_VERIFY_NONE 0)
      script.instructions (Machine.start [] script)

/-! ## Merging -/

/-- What is in a `set<valtype>`, in its order. -/
def inSetOrder (items : List Valtype) : List Valtype :=
  items.dedup.insertionSort fun v w => v.map UInt8.toNat ≤ w.map UInt8.toNat

/-- The loop of `CombineMultisig` over the keys for one signature. -/
def matchKey (check : (sig pubkey : Valtype) → Bool) (sig : Valtype) :
    (pubkeys : List Valtype) → (sigs : Table Valtype Valtype) → Table Valtype Valtype
  | [], sigs => sigs
  | pubkey :: pubkeys, sigs =>
      -- already got a signature for this key
      if pubkey ∈ sigs then matchKey check sig pubkeys sigs
      else if check sig pubkey then sigs.insert pubkey sig
      else matchKey check sig pubkeys sigs

/-- The loop that pushes the signatures in the order of their keys: how many there are, and
the script with them. -/
def mergeSigs (sigs : Table Valtype Valtype) (nSigsRequired : ℕ) :
    (pubkeys : List Valtype) → (nSigsHave : ℕ) → (result : CScript) → ℕ × CScript
  | [], nSigsHave, result => (nSigsHave, result)
  | pubkey :: pubkeys, nSigsHave, result =>
      if nSigsHave < nSigsRequired then
        match sigs.lookup pubkey with
        | some sig => mergeSigs sigs nSigsRequired pubkeys (nSigsHave + 1) (result.pushBytes sig)
        | none => mergeSigs sigs nSigsRequired pubkeys nSigsHave result
      else (nSigsHave, result)

section Combine

variable (P : ScriptPrimitives) (cache : CSignatureCache P) (txTo : CTransaction) (nIn : ℕ)

def combineMultisig (scriptPubKey : CScript) (vSolutions sigs1 sigs2 : List Valtype) : CScript :=
  let allsigs := inSetOrder ((sigs1 ++ sigs2).filter (· ≠ []))
  let nSigsRequired := smallInteger vSolutions.head?
  let pubkeys := vSolutions.tail.dropLast
  let sigs := allsigs.foldl
    (fun sigs sig => matchKey
      (fun sig pubkey => checkSig P cache sig pubkey scriptPubKey txTo nIn 0) sig pubkeys sigs) ∅
  let (nSigsHave, result) := mergeSigs sigs nSigsRequired pubkeys 0 [OP_0]
  -- what is missing
  result ++ List.replicate (nSigsRequired - nSigsHave) OP_0

/-- The type and the solutions that `Solver` leaves, whatever it returns. -/
def scanTemplatesOut (ops : List GetOpResult) :
    List (TxnOutType × List Opcodetype) → TxnOutType × List Valtype
  | [] => (TX_NONSTANDARD, [])
  | (type, template) :: rest =>
      match matchTemplate template ops [] with
      | some vSolutions => (type, vSolutions)
      | none => scanTemplatesOut ops rest

def solverOut (scriptPubKey : CScript) : TxnOutType × List Valtype :=
  if scriptPubKey.isPayToScriptHash then (TX_SCRIPTHASH, [(scriptPubKey.drop 2).take 20])
  else scanTemplatesOut scriptPubKey.instructions mTemplates

/-- `CombineSignatures` of two stacks, with their tops first. -/
def combineStacks : (sigs1 sigs2 : List Valtype) → (scriptPubKey : CScript) →
    (solved : TxnOutType × List Valtype) → CScript
  | sigs1, sigs2, scriptPubKey, solved =>
      match solved.1 with
      | TX_NONSTANDARD | TX_NULL_DATA =>
          -- assume the bigger one is correct
          if sigs1.length ≥ sigs2.length then pushAll sigs1.reverse else pushAll sigs2.reverse
      | TX_PUBKEY | TX_PUBKEYHASH =>
          if sigs1 = [] ∨ sigs1.getLast? = some [] then pushAll sigs2.reverse
          else pushAll sigs1.reverse
      | TX_SCRIPTHASH =>
          match sigs1, sigs2 with
          | [], sigs2 => pushAll sigs2.reverse
          | spk :: rest1, sigs2 =>
              if spk = [] then pushAll sigs2.reverse
              else
                match sigs2 with
                | [] => pushAll (spk :: rest1).reverse
                | spk2 :: rest2 =>
                    if spk2 = [] then pushAll (spk :: rest1).reverse
                    else (combineStacks rest1 rest2 spk (solverOut spk)).pushBytes spk
      | TX_MULTISIG => combineMultisig P cache txTo nIn scriptPubKey solved.2 sigs1 sigs2

def combineSignatures (adjustedTime : ℕ) (scriptPubKey scriptSig1 scriptSig2 : CScript) :
    CScript :=
  combineStacks P cache txTo nIn (evalStack P cache adjustedTime scriptSig1)
    (evalStack P cache adjustedTime scriptSig2) scriptPubKey (solverOut scriptPubKey)

end Combine

/-! ## The stack that is left -/

section Stack

variable {P : ScriptPrimitives} {r : Rules}

/-- A script that is too long leaves nothing. -/
theorem evalStack_of_long
    {cache : CSignatureCache P} {adjustedTime : ℕ} {script : CScript}
    (h : script.length > 10000) : evalStack P cache adjustedTime script = [] := by
  rw [evalStack, if_pos h]

/-- Pushes leave no element that is too long, wherever they end. -/
theorem length_le_of_mem_stackLeft
    (hr : r.Standard) {ops : List GetOpResult} (hPush : ∀ op ∈ ops, IsPush op) {m : Machine}
    (hExec : m.vfExec = []) (hStack : ∀ b ∈ m.stack, b.length ≤ MAX_SCRIPT_ELEMENT_SIZE) :
    ∀ b ∈ stackLeft P r ops m, b.length ≤ MAX_SCRIPT_ELEMENT_SIZE := by
  induction ops generalizing m with
  | nil => exact hStack
  | cons op ops ih =>
      have hFirst := hPush op List.mem_cons_self
      have hRest : ∀ op ∈ ops, IsPush op := fun op' hMem => hPush op' (List.mem_cons_of_mem op hMem)
      by_cases hSize : op.vchRet.length ≤ MAX_SCRIPT_ELEMENT_SIZE
      · have hPushed : ∀ b ∈ (m.push op.vchRet).stack, b.length ≤ MAX_SCRIPT_ELEMENT_SIZE := by
          intro b hMem
          rcases List.mem_cons.mp hMem with rfl | hOld
          · exact hSize
          · exact hStack b hOld
        rw [stackLeft, step_push hr hFirst hSize hExec, withinStackLimit]
        split_ifs
        · -- the element that is one too many is left
          have hSmall : op.opcodeRet ≤ OP_16 := UInt8.le_trans hFirst.2 (by decide)
          have hNotCounted : ¬op.opcodeRet > OP_16 := UInt8.not_lt.mpr hSmall
          have hFailure : ¬(op.fRet = false ∨ op.vchRet.length > MAX_SCRIPT_ELEMENT_SIZE ∨
              (op.opcodeRet > OP_16 ∧ m.nOpCount + 1 > 201) ∨
              isDisabled op.opcodeRet = true) := by
            rw [hFirst.1, not_isDisabled_of_le hSmall]
            simp [hNotCounted]
            omega
          have hBoth : m.fExec = true ∧ op.opcodeRet ≤ OP_PUSHDATA4 := by
            simp [Machine.fExec, hExec, hFirst.2]
          dsimp only
          rw [stackAtFailure, if_neg hFailure, countOp, if_neg hNotCounted, dispatch,
            if_pos hBoth, if_pos (hr.push _ _)]
          exact hPushed
        · exact ih hRest hExec hPushed
      · have hNone : step P r m op = none := by
          rw [step, if_neg (by simp [hFirst.1]), if_pos (by omega)]
        rw [stackLeft, hNone]
        dsimp only
        rw [stackAtFailure, if_pos (Or.inr (Or.inl (by omega)))]
        exact hStack

theorem length_le_of_mem_evalStack
    {cache : CSignatureCache P} {adjustedTime : ℕ} {script : CScript}
    (hPush : ∀ op ∈ script.instructions, IsPush op) :
    ∀ b ∈ evalStack P cache adjustedTime script, b.length ≤ MAX_SCRIPT_ELEMENT_SIZE := by
  unfold evalStack
  split_ifs
  · simp
  · exact length_le_of_mem_stackLeft txRules_standard hPush rfl (by simp [Machine.start])

end Stack

/-! ## Matching signatures with keys -/

theorem mem_inSetOrder {items : List Valtype} {v : Valtype} :
    v ∈ inSetOrder items ↔ v ∈ items := by
  rw [inSetOrder, List.mem_insertionSort, List.mem_dedup]

/-- A set depends on what is in it only. -/
theorem inSetOrder_congr
    {items items' : List Valtype} (h : ∀ v, v ∈ items ↔ v ∈ items') :
    inSetOrder items = inSetOrder items' := by
  have : Std.Total fun v w : Valtype => v.map UInt8.toNat ≤ w.map UInt8.toNat :=
    ⟨fun v w => le_total _ _⟩
  have : IsTrans Valtype fun v w => v.map UInt8.toNat ≤ w.map UInt8.toNat :=
    ⟨fun _ _ _ hFirst hSecond => hFirst.trans hSecond⟩
  have : Std.Antisymm fun v w : Valtype => v.map UInt8.toNat ≤ w.map UInt8.toNat := by
    refine ⟨fun v w hFirst hSecond => ?_⟩
    have hInjective : Function.Injective UInt8.toNat := fun _ _ => UInt8.toNat_inj.mp
    exact hInjective.list_map (hFirst.antisymm hSecond)
  have hPerm : items.dedup.Perm items'.dedup := by
    rw [List.perm_ext_iff_of_nodup items.nodup_dedup items'.nodup_dedup]
    intro v
    rw [List.mem_dedup, List.mem_dedup, h]
  apply List.Perm.eq_of_pairwise' (List.pairwise_insertionSort _ _)
    (List.pairwise_insertionSort _ _)
  exact (List.perm_insertionSort _ _).trans (hPerm.trans (List.perm_insertionSort _ _).symm)

section Matching

variable {check : (sig pubkey : Valtype) → Bool} {pubkeys : List Valtype}
  {sigs : Table Valtype Valtype} {sig : Valtype}

/-- A signature is filed under the first free key that accepts it, if there is one. -/
theorem matchKey_cases
    (check : (sig pubkey : Valtype) → Bool) (pubkeys : List Valtype)
    (sigs : Table Valtype Valtype) (sig : Valtype) :
    (matchKey check sig pubkeys sigs = sigs ∧
      ∀ pubkey ∈ pubkeys, check sig pubkey = true → pubkey ∈ sigs) ∨
    ∃ pubkey ∈ pubkeys, pubkey ∉ sigs ∧ check sig pubkey = true ∧
      matchKey check sig pubkeys sigs = sigs.insert pubkey sig := by
  induction pubkeys with
  | nil => exact Or.inl ⟨rfl, by simp⟩
  | cons pubkey pubkeys ih =>
      rw [matchKey]
      by_cases hGot : pubkey ∈ sigs
      · rw [if_pos hGot]
        rcases ih with ⟨hSame, hAll⟩ | ⟨other, hMem, hRest⟩
        · refine Or.inl ⟨hSame, ?_⟩
          intro other hMem hAccepts
          rcases List.mem_cons.mp hMem with rfl | hLater
          · exact hGot
          · exact hAll other hLater hAccepts
        · exact Or.inr ⟨other, List.mem_cons_of_mem pubkey hMem, hRest⟩
      · rw [if_neg hGot]
        by_cases hAccepts : check sig pubkey = true
        · rw [if_pos hAccepts]
          exact Or.inr ⟨pubkey, List.mem_cons_self, hGot, hAccepts, rfl⟩
        · rw [if_neg hAccepts]
          rcases ih with ⟨hSame, hAll⟩ | ⟨other, hMem, hRest⟩
          · refine Or.inl ⟨hSame, ?_⟩
            intro other hMem hOther
            rcases List.mem_cons.mp hMem with rfl | hLater
            · exact absurd hOther hAccepts
            · exact hAll other hLater hOther
          · exact Or.inr ⟨other, List.mem_cons_of_mem pubkey hMem, hRest⟩

/-- The map after some signatures: what is filed under a key verifies for it, and a key for
which one of them verifies is not left out. -/
structure Matched (check : (sig pubkey : Valtype) → Bool) (pubkeys done : List Valtype)
    (sigs : Table Valtype Valtype) : Prop where
  sound : ∀ pubkey sig, sigs.lookup pubkey = some sig → sig ∈ done ∧ check sig pubkey = true
  complete : ∀ pubkey ∈ pubkeys, ∀ sig ∈ done, check sig pubkey = true → pubkey ∈ sigs

/-- No two of the keys accept the signature. -/
def FitsOneKey (check : (sig pubkey : Valtype) → Bool) (pubkeys : List Valtype) (sig : Valtype) :
    Prop :=
  ∀ pubkey ∈ pubkeys, ∀ other ∈ pubkeys, check sig pubkey = true → check sig other = true →
    pubkey = other

theorem Matched.matchKey
    {done : List Valtype} (h : Matched check pubkeys done sigs)
    (hOne : FitsOneKey check pubkeys sig) :
    Matched check pubkeys (done ++ [sig]) (matchKey check sig pubkeys sigs) := by
  have hSound : ∀ pubkey old, sigs.lookup pubkey = some old →
      old ∈ done ++ [sig] ∧ check old pubkey = true := by
    intro pubkey old hLookup
    obtain ⟨hMem, hAccepts⟩ := h.sound pubkey old hLookup
    exact ⟨List.mem_append_left _ hMem, hAccepts⟩
  rcases matchKey_cases check pubkeys sigs sig with
    ⟨hSame, hAll⟩ | ⟨pubkey, hKey, -, hAccepts, hInsert⟩
  · rw [hSame]
    refine ⟨hSound, ?_⟩
    intro other hOther v hMem hOtherAccepts
    rcases List.mem_append.mp hMem with hDone | hNew
    · exact h.complete other hOther v hDone hOtherAccepts
    · rw [List.mem_singleton.mp hNew] at hOtherAccepts
      exact hAll other hOther hOtherAccepts
  · rw [hInsert]
    constructor
    · intro other v hLookup
      rw [Table.lookup_insert_ite] at hLookup
      split_ifs at hLookup with hIs
      · rw [hIs, ← Option.some.inj hLookup]
        exact ⟨List.mem_append_right _ List.mem_cons_self, hAccepts⟩
      · exact hSound other v hLookup
    · intro other hOther v hMem hOtherAccepts
      rw [Table.mem_iff_lookup, Table.lookup_insert_ite]
      by_cases hIs : other = pubkey
      · exact ⟨sig, if_pos hIs⟩
      · rw [if_neg hIs]
        rcases List.mem_append.mp hMem with hDone | hNew
        · exact Table.mem_iff_lookup.mp (h.complete other hOther v hDone hOtherAccepts)
        · rw [List.mem_singleton.mp hNew] at hOtherAccepts
          exact absurd (hOne other hOther pubkey hKey hOtherAccepts hAccepts) hIs

/-- The map after all signatures. -/
theorem matched_foldl
    {allsigs : List Valtype} (hOne : ∀ sig ∈ allsigs, FitsOneKey check pubkeys sig) :
    Matched check pubkeys allsigs
      (allsigs.foldl (fun sigs sig => SocietyGold.matchKey check sig pubkeys sigs) ∅) := by
  induction allsigs using List.reverseRecOn with
  | nil =>
      constructor
      · intro pubkey sig hLookup
        simp at hLookup
      · intro pubkey _ sig hMem
        cases hMem
  | append_singleton allsigs sig ih =>
      rw [List.foldl_append, List.foldl_cons, List.foldl_nil]
      apply Matched.matchKey
      · exact ih fun v hMem => hOne v (List.mem_append_left _ hMem)
      · exact hOne sig (List.mem_append_right _ List.mem_cons_self)

/-- The signatures of the first keys that have one, in the order of the keys. -/
theorem mergeSigs_eq
    (nSigsRequired : ℕ) (pubkeys : List Valtype) (nSigsHave : ℕ) (result : CScript) :
    mergeSigs sigs nSigsRequired pubkeys nSigsHave result =
      let merged := (pubkeys.filterMap sigs.lookup).take (nSigsRequired - nSigsHave)
      (nSigsHave + merged.length, result ++ pushAll merged) := by
  induction pubkeys generalizing nSigsHave result with
  | nil => simp [mergeSigs]
  | cons pubkey pubkeys ih =>
      rw [mergeSigs]
      by_cases hFew : nSigsHave < nSigsRequired
      · rw [if_pos hFew]
        cases hLookup : sigs.lookup pubkey with
        | none =>
            rw [List.filterMap_cons_none (f := fun pubkey => sigs.lookup pubkey) hLookup]
            exact ih nSigsHave result
        | some sig =>
            obtain ⟨k, hk⟩ : ∃ k, nSigsRequired - nSigsHave = k + 1 :=
              ⟨nSigsRequired - nSigsHave - 1, by omega⟩
            have hNext : nSigsRequired - (nSigsHave + 1) = k := by omega
            dsimp only
            rw [ih, List.filterMap_cons_some (f := fun pubkey => sigs.lookup pubkey) hLookup, hk,
              List.take_succ_cons, hNext, pushBytes_eq_append]
            simp [pushAll]
            omega
      · have hZero : nSigsRequired - nSigsHave = 0 := by omega
        rw [if_neg hFew, hZero]
        simp

end Matching

/-! ## The merged script -/

section Merged

variable {P : ScriptPrimitives} {cache : CSignatureCache P} {txTo : CTransaction} {nIn flags : ℕ}
  {script : CScript} {vSolutions sigs1 sigs2 : List Valtype}

/-- `CheckSig` as `CombineMultisig` calls it. -/
def checksOut (P : ScriptPrimitives) (cache : CSignatureCache P) (txTo : CTransaction) (nIn : ℕ)
    (script : CScript) (sig pubkey : Valtype) : Bool :=
  checkSig P cache sig pubkey script txTo nIn 0

/-- The signatures in two stacks, placeholders aside. -/
def signaturesIn (sigs1 sigs2 : List Valtype) : List Valtype := (sigs1 ++ sigs2).filter (· ≠ [])

/-- The result depends on what is on the two stacks only, not on where. -/
theorem combineMultisig_congr
    {sigs1' sigs2' : List Valtype}
    (h : ∀ v, v ∈ signaturesIn sigs1 sigs2 ↔ v ∈ signaturesIn sigs1' sigs2') :
    combineMultisig P cache txTo nIn script vSolutions sigs1 sigs2 =
      combineMultisig P cache txTo nIn script vSolutions sigs1' sigs2' := by
  have hSet := inSetOrder_congr h
  unfold signaturesIn at hSet
  unfold combineMultisig
  rw [hSet]

/-- What is asked of the signatures for a multisig script.  Those that verify for one of
the keys verify for one only, are well encoded and are not pushed by the script itself,
there are enough of them, and their keys are well encoded; under
`SCRIPT_VERIFY_STRICTENC` all keys are. -/
structure Mergeable (P : ScriptPrimitives) (cache : CSignatureCache P) (txTo : CTransaction)
    (nIn flags : ℕ) (script : CScript) (nSigsRequired : ℕ) (pubkeys sigs : List Valtype) :
    Prop where
  one : ∀ sig ∈ sigs, FitsOneKey (checksOut P cache txTo nIn script) pubkeys sig
  encoded : ∀ sig ∈ sigs, ∀ pubkey ∈ pubkeys,
    checksOut P cache txTo nIn script sig pubkey = true → checkSignatureEncoding P sig = true
  outside : ∀ sig ∈ sigs, ∀ pubkey ∈ pubkeys,
    checksOut P cache txTo nIn script sig pubkey = true →
      ∀ op ∈ script.instructions, op.vchRet ≠ sig
  enough : nSigsRequired ≤ (pubkeys.filter fun pubkey =>
    sigs.any fun sig => checksOut P cache txTo nIn script sig pubkey).length
  keys : ∀ pubkey ∈ pubkeys, ∀ sig ∈ sigs,
    checksOut P cache txTo nIn script sig pubkey = true → checkPubKeyEncoding pubkey = true
  strict : hasFlag flags SCRIPT_VERIFY_STRICTENC = true →
    ∀ pubkey ∈ pubkeys, checkPubKeyEncoding pubkey = true

/-- Signatures as `OP_CHECKMULTISIG` wants them: as many as the script requires, well
encoded, and in the order of keys for which they verify. -/
structure InKeyOrder (P : ScriptPrimitives) (cache : CSignatureCache P) (txTo : CTransaction)
    (nIn : ℕ) (script : CScript) (nSigsRequired : ℕ) (pubkeys sigs : List Valtype) : Prop where
  length_eq : sigs.length = nSigsRequired
  encoded : ∀ sig ∈ sigs, checkSignatureEncoding P sig = true
  outside : ∀ sig ∈ sigs, ∀ op ∈ script.instructions, op.vchRet ≠ sig
  fits : List.SublistForall₂ (fun sig pubkey => checkPubKeyEncoding pubkey = true ∧
    checksOut P cache txTo nIn script sig pubkey = true) sigs pubkeys

/-- The signatures filed under their keys, each under the first key for which it verifies. -/
theorem filed_of_mergeable
    {nSigsRequired : ℕ} {pubkeys sigs : List Valtype} {filed : Table Valtype Valtype}
    (h : Mergeable P cache txTo nIn flags script nSigsRequired pubkeys sigs)
    (hFiled : filed = (inSetOrder sigs).foldl (fun filed sig =>
      matchKey (checksOut P cache txTo nIn script) sig pubkeys filed) ∅) :
    (∀ pubkey sig, filed.lookup pubkey = some sig →
      sig ∈ sigs ∧ checksOut P cache txTo nIn script sig pubkey = true) ∧
      nSigsRequired ≤ (pubkeys.filterMap fun pubkey => filed.lookup pubkey).length := by
  have hMatched := matched_foldl fun sig hMem => h.one sig (mem_inSetOrder.mp hMem)
  rw [← hFiled] at hMatched
  constructor
  · intro pubkey sig hLookup
    obtain ⟨hMem, hChecks⟩ := hMatched.sound pubkey sig hLookup
    exact ⟨mem_inSetOrder.mp hMem, hChecks⟩
  · apply h.enough.trans
    rw [← List.countP_eq_length_filter, List.length_filterMap_eq_countP]
    apply List.countP_mono_left
    intro pubkey hKey hAny
    obtain ⟨sig, hMem, hChecks⟩ := List.any_eq_true.mp hAny
    have hIn := hMatched.complete pubkey hKey sig (mem_inSetOrder.mpr hMem) hChecks
    exact Option.isSome_iff_exists.mpr (Table.mem_iff_lookup.mp hIn)

/-- Enough signatures are merged in the order of their keys, without any padding. -/
theorem combineMultisig_eq
    (h : Mergeable P cache txTo nIn flags script (smallInteger vSolutions.head?)
      vSolutions.tail.dropLast (signaturesIn sigs1 sigs2)) :
    ∃ merged, combineMultisig P cache txTo nIn script vSolutions sigs1 sigs2 =
        pushAll ([] :: merged) ∧
      InKeyOrder P cache txTo nIn script (smallInteger vSolutions.head?)
        vSolutions.tail.dropLast merged := by
  set pubkeys := vSolutions.tail.dropLast with hPubkeys
  set nSigsRequired := smallInteger vSolutions.head? with hRequired
  set filed := (inSetOrder (signaturesIn sigs1 sigs2)).foldl (fun filed sig =>
    matchKey (checksOut P cache txTo nIn script) sig pubkeys filed) ∅ with hFiled
  obtain ⟨hSound, hMany⟩ := filed_of_mergeable h hFiled
  set merged := (pubkeys.filterMap fun pubkey => filed.lookup pubkey).take nSigsRequired
    with hMerged
  have hFrom : ∀ sig ∈ merged, ∃ pubkey ∈ pubkeys,
      sig ∈ signaturesIn sigs1 sigs2 ∧ checksOut P cache txTo nIn script sig pubkey = true := by
    intro sig hMem
    obtain ⟨pubkey, hKey, hLookup⟩ := List.mem_filterMap.mp (List.mem_of_mem_take hMem)
    exact ⟨pubkey, hKey, hSound pubkey sig hLookup⟩
  have hLength : merged.length = nSigsRequired := by
    rw [hMerged, List.length_take]
    omega
  refine ⟨merged, ?_, hLength, ?_, ?_, ?_⟩
  · have hUnfold : combineMultisig P cache txTo nIn script vSolutions sigs1 sigs2 =
        (mergeSigs filed nSigsRequired pubkeys 0 [OP_0]).2 ++
          List.replicate (nSigsRequired - (mergeSigs filed nSigsRequired pubkeys 0 [OP_0]).1)
            OP_0 := rfl
    rw [hUnfold, mergeSigs_eq]
    dsimp only
    rw [Nat.sub_zero, hLength, Nat.zero_add, Nat.sub_self, List.replicate_zero, List.append_nil]
    rfl
  · intro sig hMem
    obtain ⟨pubkey, hKey, hIn, hChecks⟩ := hFrom sig hMem
    exact h.encoded sig hIn pubkey hKey hChecks
  · intro sig hMem
    obtain ⟨pubkey, hKey, hIn, hChecks⟩ := hFrom sig hMem
    exact h.outside sig hIn pubkey hKey hChecks
  · apply sublistForall₂_take_filterMap
    intro pubkey hKey sig hLookup
    obtain ⟨hIn, hChecks⟩ := hSound pubkey sig hLookup
    exact ⟨h.keys pubkey hKey sig hIn hChecks, hChecks⟩

/-- A well encoded signature is short. -/
theorem length_le_of_encoded {sig : Valtype} (h : checkSignatureEncoding P sig = true) :
    sig.length ≤ 73 := by
  simp only [checkSignatureEncoding, isLowDERSignature, Bool.and_eq_true] at h
  exact (isDERSignature_facts h.1.1).2.1

/-- Validation's check of a well encoded signature. -/
theorem txRules_checkSig
    {sig : Valtype} (hSig : checkSignatureEncoding P sig = true) (pubkey : Valtype) :
    (txRules P cache txTo nIn flags 0).checkSig sig pubkey script =
      if (!hasFlag flags SCRIPT_VERIFY_STRICTENC || checkPubKeyEncoding pubkey) = true then
        some (checkPubKeyEncoding pubkey && checksOut P cache txTo nIn script sig pubkey)
      else none := by
  unfold txRules checksOut
  dsimp only
  rw [hSig]
  cases hasFlag flags SCRIPT_VERIFY_STRICTENC <;> cases checkPubKeyEncoding pubkey <;> rfl

/-- The script accepts such signatures. -/
theorem evalWith_of_inKeyOrder
    (hSolver : solver script = some (TX_MULTISIG, vSolutions)) {sigs : List Valtype}
    (h : InKeyOrder P cache txTo nIn script (smallInteger vSolutions.head?)
      vSolutions.tail.dropLast sigs)
    (hStrict : hasFlag flags SCRIPT_VERIFY_STRICTENC = true →
      ∀ pubkey ∈ vSolutions.tail.dropLast, checkPubKeyEncoding pubkey = true) :
    evalWith P (txRules P cache txTo nIn flags 0) (sigs.reverse ++ [[]]) script =
      some [boolVch true] := by
  obtain ⟨mOp, keyOps, nOp, checkOp, hOps, hM, hKeyOps, hN, hCheck, -, hCounts, hMany, hPubkeys⟩ :=
    instructions_of_multisig hSolver
  have hFits := h.fits
  rw [hPubkeys] at hFits hStrict
  rw [← h.length_eq, ← List.length_reverse] at hM hCounts
  have hCode : scriptCodeWithout script sigs.reverse = script := by
    apply scriptCodeWithout_eq
    · intro sig hMem
      have hSize := length_le_of_encoded (h.encoded sig (List.mem_reverse.mp hMem))
      omega
    · exact fun sig hMem => h.outside sig (List.mem_reverse.mp hMem)
  have hAll : (keyOps.map GetOpResult.vchRet).reverse.takeWhile (fun pubkey =>
      !hasFlag flags SCRIPT_VERIFY_STRICTENC || checkPubKeyEncoding pubkey) =
      (keyOps.map GetOpResult.vchRet).reverse := by
    rw [List.takeWhile_eq_self_iff]
    intro pubkey hMem
    cases hFlag : hasFlag flags SCRIPT_VERIFY_STRICTENC with
    | false => rfl
    | true => exact hStrict hFlag pubkey (List.mem_reverse.mp hMem)
  have hMatch : matchSigs (fun sig pubkey =>
      if (!hasFlag flags SCRIPT_VERIFY_STRICTENC || checkPubKeyEncoding pubkey) = true then
        some (checkPubKeyEncoding pubkey && checksOut P cache txTo nIn script sig pubkey)
      else none) sigs.reverse (keyOps.map GetOpResult.vchRet).reverse = some true := by
    rw [matchSigs_iff (by simpa using hCounts), hAll]
    apply sublistForall₂_reverse
    simpa only [Bool.and_eq_true] using hFits
  rw [evalWith_multisig txRules_standard hOps hM hKeyOps hN hCheck hCounts hMany
    (length_le_of_multisig hSolver), hCode, matchSigs_congr _ fun sig hMem pubkey =>
      txRules_checkSig (h.encoded sig (List.mem_reverse.mp hMem)) pubkey, hMatch]
  rfl

/-- Signatures in the order of their keys are short and few enough to be pushed. -/
theorem evalWith_pushAll_inKeyOrder
    (flags : ℕ) (hSolver : solver script = some (TX_MULTISIG, vSolutions)) {sigs : List Valtype}
    (h : InKeyOrder P cache txTo nIn script (smallInteger vSolutions.head?)
      vSolutions.tail.dropLast sigs) (last : List Valtype) (hOne : last.length ≤ 1)
    (hLast : ∀ b ∈ last, b.length ≤ MAX_SCRIPT_ELEMENT_SIZE) :
    evalWith P (txRules P cache txTo nIn flags 0) [] (pushAll ([] :: (sigs ++ last))) =
        some (last.reverse ++ (sigs.reverse ++ [[]])) ∧
      (pushAll ([] :: (sigs ++ last))).isPushOnly = true := by
  obtain ⟨mOp, keyOps, nOp, checkOp, -, -, -, -, -, -, hCounts, hMany, -⟩ :=
    instructions_of_multisig hSolver
  rw [← h.length_eq] at hCounts
  unfold MAX_SCRIPT_ELEMENT_SIZE at hLast
  have hSize : ∀ b ∈ [] :: (sigs ++ last), b.length ≤ 520 := by
    intro b hMem
    rcases List.mem_cons.mp hMem with rfl | hMem
    · exact Nat.zero_le _
    · rcases List.mem_append.mp hMem with hSig | hIs
      · exact (length_le_of_encoded (h.encoded b hSig)).trans (by decide)
      · exact hLast b hIs
  have hCount : ([] :: (sigs ++ last)).length ≤ 18 := by
    rw [List.length_cons, List.length_append]
    omega
  have hLength : (pushAll ([] :: (sigs ++ last))).length ≤ 10000 := by
    have hSum : (([] :: (sigs ++ last) : List Valtype).map fun b => 5 + b.length).sum ≤
        ([] :: (sigs ++ last)).length * 525 := by
      rw [← List.length_map (f := fun b : Valtype => 5 + b.length), ← smul_eq_mul]
      apply List.sum_le_card_nsmul
      intro n hMem
      obtain ⟨b, hb, rfl⟩ := List.mem_map.mp hMem
      have hLe := hSize b hb
      omega
    have hAll := length_pushAll_le ([] :: (sigs ++ last))
    omega
  constructor
  · rw [evalWith_pushAll txRules_standard hSize (by omega) hLength]
    simp
  · apply isPushOnly_pushAll
    intro b hMem
    have hLe := hSize b hMem
    omega

theorem not_isPayToScriptHash_of_multisig
    (hSolver : solver script = some (TX_MULTISIG, vSolutions)) :
    script.isPayToScriptHash = false := by
  rw [Bool.eq_false_iff]
  intro hHash
  exact absurd ((solver_scripthash_iff hSolver).mpr hHash) (by decide)

theorem scanTemplatesOut_eq
    {ops : List GetOpResult} {templates : List (TxnOutType × List Opcodetype)}
    {out : TxnOutType × List Valtype} (h : scanTemplates ops templates = some out) :
    scanTemplatesOut ops templates = out := by
  induction templates with
  | nil => cases h
  | cons entry rest ih =>
      obtain ⟨type, template⟩ := entry
      rw [scanTemplates] at h
      rw [scanTemplatesOut]
      cases hMatch : matchTemplate template ops [] with
      | none =>
          rw [hMatch] at h
          exact ih h
      | some sols =>
          rw [hMatch] at h
          dsimp only at h
          split_ifs at h
          exact Option.some.inj h

theorem solverOut_eq {out : TxnOutType × List Valtype} (h : solver script = some out) :
    solverOut script = out := by
  unfold solver at h
  unfold solverOut
  split_ifs at h ⊢
  · exact Option.some.inj h
  · exact scanTemplatesOut_eq h

/-- The script an output asks signatures for, and the signatures on a stack: the output has
the script itself, or its hash, and then the script is on top. -/
inductive AsksFor (P : ScriptPrimitives) :
    (scriptPubKey script : CScript) → (stack sigs : List Valtype) → Prop
  | bare (script : CScript) (sigs : List Valtype) : AsksFor P script script sigs sigs
  | scripthash {scriptPubKey script : CScript} (sigs : List Valtype)
      (hHash : scriptPubKey.isPayToScriptHash = true)
      (hSame : toBytesLE 20 (P.hash160 script) = (scriptPubKey.drop 2).take 20) :
      AsksFor P scriptPubKey script (script :: sigs) sigs

/-- What is made of two stacks for an output that asks for a multisig script. -/
theorem combineStacks_cases
    (hSolver : solver script = some (TX_MULTISIG, vSolutions)) {scriptPubKey : CScript}
    {stack1 stack2 : List Valtype} (h1 : AsksFor P scriptPubKey script stack1 sigs1)
    (h2 : AsksFor P scriptPubKey script stack2 sigs2) :
    (scriptPubKey = script ∧
      combineStacks P cache txTo nIn stack1 stack2 scriptPubKey (solverOut scriptPubKey) =
        combineMultisig P cache txTo nIn script vSolutions sigs1 sigs2) ∨
    (scriptPubKey.isPayToScriptHash = true ∧
      toBytesLE 20 (P.hash160 script) = (scriptPubKey.drop 2).take 20 ∧ script ∈ stack1 ∧
      combineStacks P cache txTo nIn stack1 stack2 scriptPubKey (solverOut scriptPubKey) =
        (combineMultisig P cache txTo nIn script vSolutions sigs1 sigs2).pushBytes script) := by
  have hNot := not_isPayToScriptHash_of_multisig hSolver
  cases h1 with
  | bare =>
      cases h2 with
      | bare =>
          rw [solverOut_eq hSolver]
          exact Or.inl ⟨rfl, by unfold combineStacks; rfl⟩
      | scripthash _ hHash => exact absurd hHash (by rw [hNot]; decide)
  | scripthash _ hHash hSame =>
      cases h2 with
      | bare => exact absurd hHash (by rw [hNot]; decide)
      | scripthash _ _ _ =>
          have hNe : script ≠ [] := by
            rintro rfl
            have hNone : solver [] = none := by decide
            rw [hNone] at hSolver
            cases hSolver
          have hOut : solverOut scriptPubKey =
              (TX_SCRIPTHASH, [(scriptPubKey.drop 2).take 20]) := by
            rw [solverOut, if_pos hHash]
          refine Or.inr ⟨hHash, hSame, List.mem_cons_self, ?_⟩
          rw [hOut, combineStacks]
          dsimp only
          rw [if_neg hNe, if_neg hNe, solverOut_eq hSolver]
          unfold combineStacks
          rfl

/-- Such signatures satisfy an output that has the script itself. -/
theorem verifyScript_multisig
    (hSolver : solver script = some (TX_MULTISIG, vSolutions)) {sigs : List Valtype}
    (h : InKeyOrder P cache txTo nIn script (smallInteger vSolutions.head?)
      vSolutions.tail.dropLast sigs)
    (hStrict : hasFlag flags SCRIPT_VERIFY_STRICTENC = true →
      ∀ pubkey ∈ vSolutions.tail.dropLast, checkPubKeyEncoding pubkey = true) :
    verifyScript P cache (pushAll ([] :: sigs)) script txTo nIn flags 0 = true := by
  obtain ⟨hPushed, -⟩ := evalWith_pushAll_inKeyOrder flags hSolver h [] (Nat.zero_le _) (by simp)
  rw [List.append_nil] at hPushed
  unfold verifyScript evalScript
  rw [verifyWith_iff]
  refine ⟨_, _, _, hPushed, evalWith_of_inKeyOrder hSolver h hStrict, rfl, ?_⟩
  intro hBoth
  rw [not_isPayToScriptHash_of_multisig hSolver] at hBoth
  cases hBoth

/-- With the script after them they satisfy an output that has its hash. -/
theorem verifyScript_scripthash
    (hSolver : solver script = some (TX_MULTISIG, vSolutions)) {sigs : List Valtype}
    (h : InKeyOrder P cache txTo nIn script (smallInteger vSolutions.head?)
      vSolutions.tail.dropLast sigs)
    (hStrict : hasFlag flags SCRIPT_VERIFY_STRICTENC = true →
      ∀ pubkey ∈ vSolutions.tail.dropLast, checkPubKeyEncoding pubkey = true)
    (hSmall : script.length ≤ MAX_SCRIPT_ELEMENT_SIZE) {scriptPubKey : CScript}
    (hHash : scriptPubKey.isPayToScriptHash = true)
    (hSame : toBytesLE 20 (P.hash160 script) = (scriptPubKey.drop 2).take 20) :
    verifyScript P cache (pushAll ([] :: (sigs ++ [script]))) scriptPubKey txTo nIn flags 0 =
      true := by
  obtain ⟨mOp, keyOps, nOp, checkOp, -, -, -, -, -, -, hCounts, hMany, -⟩ :=
    instructions_of_multisig hSolver
  rw [← h.length_eq] at hCounts
  obtain ⟨hPushed, hOnly⟩ := evalWith_pushAll_inKeyOrder flags hSolver h [script] le_rfl
    (by simpa using hSmall)
  have hFew : (sigs.reverse ++ [[]]).length + 2 ≤ 1000 := by
    rw [List.length_append, List.length_reverse, List.length_singleton]
    omega
  have hStandard : (txRules P cache txTo nIn flags 0).Standard := txRules_standard
  have hOutput := evalWith_scripthash (P := P) hStandard hHash script hFew
  have hRedeem : evalRedeemScript
      (fun stack script => evalWith P (txRules P cache txTo nIn flags 0) stack script)
      (script :: (sigs.reverse ++ [[]])) = true := by
    have hEval : evalWith P (txRules P cache txTo nIn flags 0) (sigs.reverse ++ [[]]) script =
        (some true).map fun fSuccess => [boolVch fSuccess] :=
      evalWith_of_inKeyOrder hSolver h hStrict
    exact (evalRedeemScript_iff hEval).mpr rfl
  unfold verifyScript evalScript
  rw [verifyWith_iff]
  refine ⟨_, _, _, hPushed, hOutput, ?_, fun _ => ⟨hOnly, hRedeem⟩⟩
  rw [castToBool_boolVch, decide_eq_true_eq]
  exact hSame

/-- Signatures for a multisig script that reach the stack from two signature scripts are
merged into one that `VerifyScript` accepts; what is merged depends on which signatures
these are only, not on their order or on where they come from. -/
theorem combineSignatures_verifies
    (P : ScriptPrimitives) (cache : CSignatureCache P) (txTo : CTransaction)
    (nIn flags adjustedTime : ℕ) {scriptPubKey script scriptSig1 scriptSig2 : CScript}
    {vSolutions sigs1 sigs2 : List Valtype}
    (hSolver : solver script = some (TX_MULTISIG, vSolutions))
    (hPushes : ∀ op ∈ scriptSig1.instructions, IsPush op)
    (hAsks1 : AsksFor P scriptPubKey script (evalStack P cache adjustedTime scriptSig1) sigs1)
    (hAsks2 : AsksFor P scriptPubKey script (evalStack P cache adjustedTime scriptSig2) sigs2)
    (hMergeable : Mergeable P cache txTo nIn flags script (smallInteger vSolutions.head?)
      vSolutions.tail.dropLast (signaturesIn sigs1 sigs2)) :
    verifyScript P cache
        (combineSignatures P cache txTo nIn adjustedTime scriptPubKey scriptSig1 scriptSig2)
        scriptPubKey txTo nIn flags 0 = true ∧
      ∀ scriptSig1' scriptSig2' sigs1' sigs2',
        AsksFor P scriptPubKey script (evalStack P cache adjustedTime scriptSig1') sigs1' →
        AsksFor P scriptPubKey script (evalStack P cache adjustedTime scriptSig2') sigs2' →
        (∀ v, v ∈ signaturesIn sigs1 sigs2 ↔ v ∈ signaturesIn sigs1' sigs2') →
        combineSignatures P cache txTo nIn adjustedTime scriptPubKey scriptSig1' scriptSig2' =
          combineSignatures P cache txTo nIn adjustedTime scriptPubKey scriptSig1
            scriptSig2 := by
  have hNot := not_isPayToScriptHash_of_multisig hSolver
  obtain ⟨merged, hMerged, hOrder⟩ := combineMultisig_eq hMergeable
  unfold combineSignatures
  constructor
  · rcases combineStacks_cases hSolver hAsks1 hAsks2 with
      ⟨rfl, hCombined⟩ | ⟨hHash, hSame, hMem, hCombined⟩
    · rw [hCombined, hMerged]
      exact verifyScript_multisig hSolver hOrder hMergeable.strict
    · rw [hCombined, hMerged, ← pushAll_append_singleton]
      exact verifyScript_scripthash hSolver hOrder hMergeable.strict
        (length_le_of_mem_evalStack hPushes script hMem) hHash hSame
  · intro scriptSig1' scriptSig2' sigs1' sigs2' hAsks1' hAsks2' hSame
    have hCongr : combineMultisig P cache txTo nIn script vSolutions sigs1' sigs2' =
        combineMultisig P cache txTo nIn script vSolutions sigs1 sigs2 :=
      combineMultisig_congr fun v => (hSame v).symm
    rcases combineStacks_cases hSolver hAsks1 hAsks2 with
      ⟨rfl, hCombined⟩ | ⟨hHash, -, -, hCombined⟩
    · rcases combineStacks_cases hSolver hAsks1' hAsks2' with
        ⟨-, hCombined'⟩ | ⟨hHash', -⟩
      · rw [hCombined, hCombined', hCongr]
      · rw [hNot] at hHash'
        cases hHash'
    · rcases combineStacks_cases hSolver hAsks1' hAsks2' with
        ⟨rfl, -⟩ | ⟨-, -, -, hCombined'⟩
      · rw [hNot] at hHash
        cases hHash
      · rw [hCombined, hCombined', hCongr]

end Merged

/-! ## Signatures of three keys -/

namespace Sample

/-- A signature that the keys with the given last byte accept. -/
def keyedSig (b : UInt8) : Valtype := [0x30, 6, 2, 1, 1, 2, 1, b, SIGHASH_ALL]

def keyedPrims : ScriptPrimitives :=
  { scriptPrims with
    toPrimitives := { prims with
      verifyKey := fun vch _ vchSig =>
        vchSig = [0x30, 6, 2, 1, 1, 2, 1] ++ vch.getLast?.toList } }

/-- A multisig script over the keys. -/
def multisigScript (nRequired nKeys : UInt8) (pubkeys : List Valtype) : CScript :=
  [nRequired + (OP_1 - 1)] ++ pushAll pubkeys ++ [nKeys + (OP_1 - 1), OP_CHECKMULTISIG]

def twoOfThreeKeys : CScript :=
  multisigScript 2 3 [compressedKey 1, compressedKey 2, compressedKey 3]

def twoOfThreeSolutions : List Valtype :=
  [[2], compressedKey 1, compressedKey 2, compressedKey 3, [3]]

/-- The third key has signed, and a placeholder is left. -/
def thirdSigned : CScript := pushAll [[], keyedSig 3, [], twoOfThreeKeys]

def firstSigned : CScript := pushAll [[], [], keyedSig 1, twoOfThreeKeys]

theorem twoOfThreeKeys_mergeable :
    Mergeable keyedPrims CSignatureCache.empty spending 0 STANDARD_SCRIPT_VERIFY_FLAGS
      twoOfThreeKeys 2 [compressedKey 1, compressedKey 2, compressedKey 3]
      [keyedSig 3, keyedSig 1] := by
  constructor
  · unfold FitsOneKey
    decide +kernel
  · decide +kernel
  · decide +kernel
  · decide +kernel
  · decide +kernel
  · decide +kernel

theorem twoOfThreeKeys_merged :
    verifyScript keyedPrims CSignatureCache.empty
        (combineSignatures keyedPrims CSignatureCache.empty spending 0 900
          (scriptHashOutput twoOfThreeKeys) thirdSigned firstSigned)
        (scriptHashOutput twoOfThreeKeys) spending 0 STANDARD_SCRIPT_VERIFY_FLAGS 0 = true ∧
      combineSignatures keyedPrims CSignatureCache.empty spending 0 900
          (scriptHashOutput twoOfThreeKeys) firstSigned thirdSigned =
        combineSignatures keyedPrims CSignatureCache.empty spending 0 900
          (scriptHashOutput twoOfThreeKeys) thirdSigned firstSigned := by
  have hSolver : solver twoOfThreeKeys = some (TX_MULTISIG, twoOfThreeSolutions) := by
    decide +kernel
  have hPushes : ∀ op ∈ thirdSigned.instructions, IsPush op := by
    unfold IsPush
    decide +kernel
  have hThird : evalStack keyedPrims CSignatureCache.empty 900 thirdSigned =
      twoOfThreeKeys :: [[], keyedSig 3, []] := by decide +kernel
  have hFirst : evalStack keyedPrims CSignatureCache.empty 900 firstSigned =
      twoOfThreeKeys :: [keyedSig 1, [], []] := by decide +kernel
  have hHash : (scriptHashOutput twoOfThreeKeys).isPayToScriptHash = true := by decide +kernel
  have hSame : toBytesLE 20 (keyedPrims.hash160 twoOfThreeKeys) =
      ((scriptHashOutput twoOfThreeKeys).drop 2).take 20 := by decide +kernel
  have hAsksThird : AsksFor keyedPrims (scriptHashOutput twoOfThreeKeys) twoOfThreeKeys
      (evalStack keyedPrims CSignatureCache.empty 900 thirdSigned) [[], keyedSig 3, []] := by
    rw [hThird]
    exact .scripthash _ hHash hSame
  have hAsksFirst : AsksFor keyedPrims (scriptHashOutput twoOfThreeKeys) twoOfThreeKeys
      (evalStack keyedPrims CSignatureCache.empty 900 firstSigned) [keyedSig 1, [], []] := by
    rw [hFirst]
    exact .scripthash _ hHash hSame
  obtain ⟨hVerifies, hSwapped⟩ := combineSignatures_verifies keyedPrims CSignatureCache.empty
    spending 0 STANDARD_SCRIPT_VERIFY_FLAGS 900 hSolver hPushes hAsksThird hAsksFirst
    twoOfThreeKeys_mergeable
  refine ⟨hVerifies, hSwapped _ _ _ _ hAsksFirst hAsksThird ?_⟩
  intro v
  rw [signaturesIn, signaturesIn, List.mem_filter, List.mem_filter, List.mem_append,
    List.mem_append, or_comm]

/-- A key whose first byte says that it is longer than it has to be. -/
def hybridKey : Valtype := 0x06 :: (List.replicate 63 0 ++ [1])

def hybridScript : CScript := multisigScript 1 2 [hybridKey, compressedKey 2]

/-- No signature is needed for its second key. -/
def unencodedScript : CScript := multisigScript 1 2 [compressedKey 1, unencodedKey]

def oneKeyScript : CScript := multisigScript 1 1 [compressedKey 1]

/-- A signature after more placeholders than a script may have. -/
def longScriptSig : CScript := pushAll (List.replicate 10001 []) ++ pushAll [keyedSig 1]

/-- Enough signatures for a multisig script, whatever its keys look like and wherever the
signatures are. -/
def EnoughSigned (script : CScript) (vSolutions sigs : List Valtype) : Prop :=
  solver script = some (TX_MULTISIG, vSolutions) ∧ vSolutions.tail.dropLast.Nodup ∧
    (∀ sig ∈ sigs, checkSignatureEncoding keyedPrims sig = true ∧
      ∀ op ∈ script.instructions, op.vchRet ≠ sig) ∧
    (∀ sig ∈ sigs, FitsOneKey (checksOut keyedPrims CSignatureCache.empty spending 0 script)
      vSolutions.tail.dropLast sig) ∧
    smallInteger vSolutions.head? ≤ (vSolutions.tail.dropLast.filter fun pubkey =>
      sigs.any fun sig =>
        checksOut keyedPrims CSignatureCache.empty spending 0 script sig pubkey).length

/-- Does the merged script satisfy the multisig script? -/
def mergedVerifies (script scriptSig1 scriptSig2 : CScript) (flags : ℕ) : Bool :=
  verifyScript keyedPrims CSignatureCache.empty
    (combineSignatures keyedPrims CSignatureCache.empty spending 0 900 script scriptSig1 scriptSig2)
    script spending 0 flags 0

/-- The merge takes a signature for a key that `OP_CHECKMULTISIG` does not accept; under
`SCRIPT_VERIFY_STRICTENC` such a key is an error even if it needs no signature; and a
signature script that is too long leaves nothing to merge. -/
theorem signatures_not_merged :
    (EnoughSigned hybridScript [[1], hybridKey, compressedKey 2, [2]]
        [keyedSig 1, keyedSig 2] ∧
      mergedVerifies hybridScript (pushAll [[], keyedSig 1]) (pushAll [[], keyedSig 2])
        SCRIPT_VERIFY_NONE = false) ∧
    (EnoughSigned unencodedScript [[1], compressedKey 1, unencodedKey, [2]] [keyedSig 1] ∧
      mergedVerifies unencodedScript (pushAll [[], keyedSig 1]) (pushAll [[], keyedSig 1])
        STANDARD_SCRIPT_VERIFY_FLAGS = false) ∧
    EnoughSigned oneKeyScript [[1], compressedKey 1, [1]] [keyedSig 1] ∧
      mergedVerifies oneKeyScript longScriptSig longScriptSig SCRIPT_VERIFY_NONE = false := by
  unfold EnoughSigned FitsOneKey
  refine ⟨⟨by decide +kernel, by decide +kernel⟩, ⟨by decide +kernel, by decide +kernel⟩,
    by decide +kernel, ?_⟩
  have hLong : longScriptSig.length > 10000 := by
    have hCount : (pushAll (List.replicate 10001 [])).length = 10001 := by
      rw [pushAll, List.length_flatMap, List.map_replicate, List.sum_replicate]
      rfl
    rw [longScriptSig, List.length_append, hCount]
    omega
  unfold mergedVerifies combineSignatures
  rw [evalStack_of_long hLong]
  decide +kernel

end Sample

end SocietyGold
