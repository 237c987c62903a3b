import SocietyGold.StackAccess
import SocietyGold.Templates

/-!
# The loop of `OP_CHECKMULTISIG`

The opcode finds its arguments by their distance from the top of the stack: the
number of keys, the keys, the number of signatures, the signatures, and one
element more.  The loop walks down two positions.  It reads the slots that the
two numbers count and no others, it ends, and though it never goes back to a key
it finds a matching of the signatures with the keys whenever there is one.
-/

namespace SocietyGold

open Support

/-! ## The opcode with its stack accesses -/

/-- `while (fSuccess && nSigsCount > 0)`, for at most `rounds` rounds.  The slots
are read by `top`, at their distance from the top of the stack. -/
def multisigLoop (top : ℕ → Guarded Valtype)
    (check : (vchSig vchPubKey : Valtype) → Option Bool) :
    (rounds isig ikey : ℕ) → (nSigsCount nKeysCount : ℤ) → Guarded Bool
  | 0, _, _, _, _ => .error (.fault .diverges)
  | rounds + 1, isig, ikey, nSigsCount, nKeysCount =>
      if nSigsCount > 0 then do
        let vchSig ← top isig
        let vchPubKey ← top ikey
        let fOk ← answer (check vchSig vchPubKey)
        let isig := if fOk then isig + 1 else isig
        let nSigsCount := if fOk then nSigsCount - 1 else nSigsCount
        let ikey := ikey + 1
        let nKeysCount := nKeysCount - 1
        if nSigsCount > nKeysCount then .ok false
        else multisigLoop top check rounds isig ikey nSigsCount nKeysCount
      else .ok true

def popstacks : ℕ → List Valtype → Guarded (List Valtype)
  | 0, stack => .ok stack
  | n + 1, stack => do
      let stack ← popstack stack
      popstacks n stack

def checkedMultisig (r : Rules) (opcode : Opcodetype) (m : Machine) : Guarded Machine := do
  let i := 1
  returnFalseIf (stackSize m.stack < i)
  let vch ← stacktop m.stack 1
  let nKeysCount ← answer (r.intOperand vch)
  returnFalseIf (nKeysCount < 0 ∨ nKeysCount > 20)
  returnFalseIf (m.nOpCount + nKeysCount > 201)
  let ikey := 2
  let i := 2 + nKeysCount.toNat
  returnFalseIf (stackSize m.stack < i)
  let vch ← stacktop m.stack i
  let nSigsCount ← answer (r.intOperand vch)
  returnFalseIf (nSigsCount < 0 ∨ nSigsCount > nKeysCount)
  let isig := i + 1
  let i := isig + nSigsCount.toNat
  returnFalseIf (stackSize m.stack < i)
  let vchSigs ← (List.range nSigsCount.toNat).mapM fun k => stacktop m.stack (isig + k)
  let scriptCode := scriptCodeWithout m.pbegincodehash vchSigs
  let fSuccess ← multisigLoop (stacktop m.stack)
    (fun vchSig vchPubKey => r.checkSig vchSig vchPubKey scriptCode)
    (nKeysCount.toNat + 1) isig ikey nSigsCount nKeysCount
  let stack ← popstacks (i - 1) m.stack
  returnFalseIf (stack.length < 1)
  let dummy ← stacktop stack 1
  returnFalseIf (r.acceptsDummy dummy = false)
  let stack ← popstack stack
  checkedResult { m with stack := stack, nOpCount := m.nOpCount + nKeysCount.toNat }
    (opcode = OP_CHECKMULTISIGVERIFY) fSuccess

/-! ## The loop -/

/-- The slots from `i` downwards hold the elements. -/
def Holds (top : ℕ → Guarded Valtype) (i : ℕ) (items : List Valtype) : Prop :=
  ∀ j vch, items[j]? = some vch → top (i + j) = .ok vch

section Loop

variable {top : ℕ → Guarded Valtype} {check : Valtype → Valtype → Option Bool}

theorem Holds.head {i : ℕ} {vch : Valtype} {items : List Valtype}
    (h : Holds top i (vch :: items)) : top i = .ok vch :=
  h 0 vch rfl

theorem Holds.tail {i : ℕ} {vch : Valtype} {items : List Valtype}
    (h : Holds top i (vch :: items)) : Holds top (i + 1) items := by
  intro j vch' hj
  rw [Nat.add_assoc, Nat.add_comm 1 j]
  exact h (j + 1) vch' hj

/-- The loop over positions is the loop over lists.  There is a key for each
round, so it ends. -/
theorem multisigLoop_eq
    {rounds isig ikey : ℕ} {sigs keys : List Valtype}
    (hSigs : Holds top isig sigs) (hKeys : Holds top ikey keys)
    (hCounts : sigs.length ≤ keys.length) (hRounds : keys.length < rounds) :
    multisigLoop top check rounds isig ikey sigs.length keys.length =
      answer (matchSigs check sigs keys) := by
  induction keys generalizing rounds isig ikey sigs with
  | nil =>
      obtain ⟨rounds, rfl⟩ := Nat.exists_eq_succ_of_ne_zero (Nat.ne_of_gt hRounds)
      have hNil : sigs = [] := by simpa using hCounts
      subst hNil
      rfl
  | cons vchPubKey keys ih =>
      have hPos : 0 < rounds := Nat.zero_lt_of_lt hRounds
      obtain ⟨rounds, rfl⟩ := Nat.exists_eq_succ_of_ne_zero (Nat.ne_of_gt hPos)
      have hRounds' : keys.length < rounds := Nat.lt_of_succ_lt_succ hRounds
      cases sigs with
      | nil => rfl
      | cons vchSig sigs =>
          have hMore : (((vchSig :: sigs).length : ℕ) : ℤ) > 0 := by simp
          have hOneKey : (((vchPubKey :: keys).length : ℕ) : ℤ) - 1 = keys.length := by simp
          have hOneSig : (((vchSig :: sigs).length : ℕ) : ℤ) - 1 = sigs.length := by simp
          rw [multisigLoop, if_pos hMore, hSigs.head, ok_bind, hKeys.head, ok_bind, matchSigs,
            answer_bind]
          apply bind_congr
          intro fOk
          dsimp only
          rw [hOneKey]
          cases fOk with
          | true =>
              have hFewer : sigs.length ≤ keys.length := Nat.le_of_succ_le_succ hCounts
              rw [if_pos rfl, if_pos rfl, if_pos rfl, hOneSig, if_neg (by omega),
                if_neg (by omega)]
              exact ih hSigs.tail hKeys.tail hFewer hRounds'
          | false =>
              rw [if_neg Bool.false_ne_true, if_neg Bool.false_ne_true, if_neg Bool.false_ne_true]
              by_cases hMany : (vchSig :: sigs).length > keys.length
              · rw [if_pos hMany, if_pos (by exact_mod_cast hMany)]
                rfl
              · rw [if_neg hMany, if_neg (by exact_mod_cast hMany)]
                exact ih hSigs hKeys.tail (by omega) hRounds'

end Loop

/-! ## The stack it runs on -/

section Layout

/-- The arguments of the opcode, each list with its last element on top. -/
def multisigStack (vchKeysCount : Valtype) (keys : List Valtype) (vchSigsCount : Valtype)
    (sigs below : List Valtype) : List Valtype :=
  vchKeysCount :: (keys ++ vchSigsCount :: (sigs ++ below))

variable (vchKeysCount vchSigsCount : Valtype) (keys sigs below : List Valtype)

theorem multisigStack_keys :
    Holds (stacktop (multisigStack vchKeysCount keys vchSigsCount sigs below)) 2 keys := by
  intro j vch hj
  have hLt : j < keys.length := (List.getElem?_eq_some_iff.mp hj).1
  rw [show 2 + j = (j + 1) + 1 by omega]
  apply stacktop_of_getElem?
  rw [multisigStack, List.getElem?_cons_succ, List.getElem?_append_left hLt, hj]

theorem multisigStack_sigsCount :
    stacktop (multisigStack vchKeysCount keys vchSigsCount sigs below) (2 + keys.length) =
      .ok vchSigsCount := by
  rw [show 2 + keys.length = (keys.length + 1) + 1 by omega]
  apply stacktop_of_getElem?
  rw [multisigStack, List.getElem?_cons_succ, List.getElem?_append_right le_rfl, Nat.sub_self]
  rfl

theorem multisigStack_sigs :
    Holds (stacktop (multisigStack vchKeysCount keys vchSigsCount sigs below))
      (2 + keys.length + 1) sigs := by
  intro j vch hj
  have hLt : j < sigs.length := (List.getElem?_eq_some_iff.mp hj).1
  rw [show 2 + keys.length + 1 + j = (keys.length + (j + 1) + 1) + 1 by omega]
  apply stacktop_of_getElem?
  rw [multisigStack, List.getElem?_cons_succ, List.getElem?_append_right (by omega),
    show keys.length + (j + 1) - keys.length = j + 1 by omega, List.getElem?_cons_succ,
    List.getElem?_append_left hLt, hj]

/-- What is left when the arguments are cleaned up. -/
theorem drop_multisigStack :
    (multisigStack vchKeysCount keys vchSigsCount sigs below).drop
      (2 + keys.length + 1 + sigs.length - 1) = below := by
  rw [show 2 + keys.length + 1 + sigs.length - 1 = keys.length + (sigs.length + 1) + 1 by omega,
    multisigStack, List.drop_succ_cons, List.drop_append, List.drop_eq_nil_of_le (by omega),
    show keys.length + (sigs.length + 1) - keys.length = sigs.length + 1 by omega,
    List.drop_succ_cons, List.drop_left' rfl]
  rfl

end Layout

theorem popstacks_eq {n : ℕ} {stack : List Valtype} (h : n ≤ stack.length) :
    popstacks n stack = .ok (stack.drop n) := by
  induction n generalizing stack with
  | zero => rfl
  | succ n ih =>
      cases stack with
      | nil => exact absurd h (by simp)
      | cons vch stack =>
          rw [popstacks, popstack_cons, ok_bind, ih (Nat.le_of_succ_le_succ h)]
          rfl

/-- Reading a list that the slots hold. -/
theorem mapM_holds
    {top : ℕ → Guarded Valtype} {i : ℕ} {items : List Valtype} (h : Holds top i items) :
    ((List.range items.length).mapM fun k => top (i + k)) = .ok items := by
  induction items using List.reverseRecOn with
  | nil => rfl
  | append_singleton items vch ih =>
      have hInit : Holds top i items := by
        intro j vch' hj
        exact h j vch' (by rw [List.getElem?_append_left (List.getElem?_eq_some_iff.mp hj).1, hj])
      have hLast : top (i + items.length) = .ok vch := h items.length vch (by simp)
      rw [List.length_append, List.length_singleton, List.range_succ, List.mapM_append, ih hInit,
        ok_bind, List.mapM_cons, List.mapM_nil, hLast]
      rfl

/-! ## The opcode follows the interpreter -/

section Opcode

variable (r : Rules) (opcode : Opcodetype) (m : Machine)

/-- The first so many elements of a list that has more. -/
theorem exists_prefix (n : ℕ) (stack : List Valtype) (h : n < stack.length) :
    ∃ items vch rest, stack = items ++ vch :: rest ∧ items.length = n := by
  refine ⟨stack.take n, stack[n], stack.drop (n + 1), ?_, List.length_take_of_le (Nat.le_of_lt h)⟩
  rw [List.getElem_cons_drop, List.take_append_drop]

theorem takeCounted_none_of_short
    {intOperand : Valtype → Option ℤ} {max : ℕ} {vchCount : Valtype} {nCount : ℤ}
    {stack : List Valtype} (hCount : intOperand vchCount = some nCount)
    (hShort : (stack.length : ℤ) < nCount + 1) :
    takeCounted intOperand max (vchCount :: stack) = none := by
  rw [takeCounted, hCount, Option.bind_some, if_pos hShort, ite_self]

theorem takeCounted_none_of_range
    {intOperand : Valtype → Option ℤ} {max : ℕ} {vchCount : Valtype} {nCount : ℤ}
    {stack : List Valtype} (hCount : intOperand vchCount = some nCount)
    (hRange : nCount < 0 ∨ nCount > max) :
    takeCounted intOperand max (vchCount :: stack) = none := by
  rw [takeCounted, hCount, Option.bind_some, if_pos hRange]

/-- The arguments are cleaned up, and below them is the dummy. -/
theorem afterLoop_eq
    (verify fSuccess : Bool) (vchKeysCount vchSigsCount dummy : Valtype)
    (keys sigs below : List Valtype) :
    (do
      let stack ← popstacks (2 + keys.length + 1 + sigs.length - 1)
        (multisigStack vchKeysCount keys vchSigsCount sigs (dummy :: below))
      returnFalseIf (stack.length < 1)
      let dummy ← stacktop stack 1
      returnFalseIf (r.acceptsDummy dummy = false)
      let stack ← popstack stack
      checkedResult { m with stack := stack } verify fSuccess) =
      answer (if r.acceptsDummy dummy then { m with stack := below }.result verify fSuccess
        else none) := by
  have hLength : 2 + keys.length + 1 + sigs.length - 1 ≤
      (multisigStack vchKeysCount keys vchSigsCount sigs (dummy :: below)).length := by
    simp only [multisigStack, List.length_cons, List.length_append]
    omega
  have hDummy : returnFalseIf ((dummy :: below).length < 1) = .ok () := rfl
  rw [popstacks_eq hLength, drop_multisigStack, ok_bind, hDummy, ok_bind, stacktop_cons_one,
    ok_bind, popstack_cons]
  cases hAccepts : r.acceptsDummy dummy with
  | false => rfl
  | true => exact checkedResult_eq _ _ _

/-- The tests on the size pass only where the slots are there, so the opcode
reads what the interpreter takes from the stack. -/
theorem checkedMultisig_mirrors :
    Mirrors (SizeFitsInt m.stack) (checkedMultisig r opcode m) (checkMultisigOp r opcode m) := by
  rcases m with ⟨stack, altstack, vfExec, code, nOpCount⟩
  have hSize := stackSize_le stack
  unfold checkedMultisig checkMultisigOp multisigArgs
  dsimp only
  apply Mirrors.test
  · intro hEmpty hFits
    rw [stackSize_eq hFits] at hEmpty
    have hNil : stack = [] := List.length_eq_zero_iff.mp (by omega)
    rw [hNil]
    rfl
  intro hSome
  obtain ⟨vchKeysCount, stack, rfl⟩ := List.exists_cons_of_length_pos (l := stack) (by omega)
  rw [stacktop_cons_one, ok_bind]
  apply Mirrors.answer_bind
  · intro hNone _
    rw [takeCounted, hNone]
    rfl
  intro nKeysCount hKeysCount
  apply Mirrors.test
  · intro hRange _
    rw [takeCounted_none_of_range hKeysCount hRange]
    rfl
  intro hRange
  obtain ⟨n, rfl⟩ := Int.eq_ofNat_of_zero_le (a := nKeysCount) (by omega)
  rw [Int.toNat_natCast]
  apply Mirrors.test
  · intro hOps _
    by_cases hShort : (stack.length : ℤ) < n + 1
    · rw [takeCounted_none_of_short hKeysCount hShort]
      rfl
    · obtain ⟨keys, vch, rest, rfl, rfl⟩ := exists_prefix n stack (by omega)
      rw [takeCounted_eq hKeysCount (by omega) (by simp), Option.bind_some]
      dsimp only
      rw [if_pos (by omega)]
      rfl
  intro hOps
  apply Mirrors.test
  · intro hShort hFits
    rw [stackSize_eq hFits, List.length_cons] at hShort
    rw [takeCounted_none_of_short hKeysCount (by omega)]
    rfl
  intro hEnough
  rw [List.length_cons] at hSize
  obtain ⟨keys, vchSigsCount, stack, rfl, rfl⟩ :=
    exists_prefix n stack (by omega)
  have hTop : stacktop (vchKeysCount :: (keys ++ vchSigsCount :: stack)) (2 + keys.length) =
      .ok vchSigsCount := multisigStack_sigsCount vchKeysCount vchSigsCount keys [] stack
  rw [hTop, ok_bind, takeCounted_eq hKeysCount (by omega) (by simp), Option.bind_some]
  dsimp only
  rw [if_neg (by omega)]
  apply Mirrors.answer_bind
  · intro hNone _
    rw [takeCounted, hNone]
    rfl
  intro nSigsCount hSigsCount
  apply Mirrors.test
  · intro hRange _
    rw [takeCounted_none_of_range hSigsCount hRange]
    rfl
  intro hRange'
  obtain ⟨k, rfl⟩ := Int.eq_ofNat_of_zero_le (a := nSigsCount) (by omega)
  rw [Int.toNat_natCast]
  apply Mirrors.test
  · intro hShort hFits
    rw [stackSize_eq hFits] at hShort
    simp only [List.length_cons, List.length_append] at hShort
    rw [takeCounted_none_of_short hSigsCount (by omega)]
    rfl
  intro hEnough'
  simp only [List.length_cons, List.length_append] at hSize
  obtain ⟨sigs, dummy, below, rfl, rfl⟩ := exists_prefix k stack (by omega)
  have hSigs : Holds (stacktop (vchKeysCount :: (keys ++ vchSigsCount :: (sigs ++ dummy :: below))))
      (2 + keys.length + 1) sigs := multisigStack_sigs _ _ _ _ _
  have hKeys : Holds (stacktop (vchKeysCount :: (keys ++ vchSigsCount :: (sigs ++ dummy :: below))))
      2 keys := multisigStack_keys _ _ _ _ _
  rw [takeCounted_eq hSigsCount (by omega) (by simp), Option.bind_some, Option.bind_some,
    mapM_holds hSigs, ok_bind, multisigLoop_eq hSigs hKeys (by omega) (Nat.lt_succ_self _)]
  apply mirrors_of_eq
  dsimp only
  rw [answer_bind]
  apply bind_congr
  intro fSuccess
  exact afterLoop_eq r ⟨below, altstack, vfExec, code, nOpCount + keys.length⟩ _ fSuccess
    vchKeysCount vchSigsCount dummy keys sigs below

end Opcode

/-! ## The loop is complete -/

/-- Where badly encoded signatures make the script fail, the loop succeeds
exactly when all signatures it has to match are well encoded and can be matched,
in order. -/
theorem matchSigs_eq_true_iff
    {encoded : Valtype → Bool} {verifies : Valtype → Valtype → Bool} {sigs keys : List Valtype}
    (hLength : sigs.length ≤ keys.length) :
    matchSigs (fun vchSig vchPubKey =>
        if encoded vchSig then some (verifies vchSig vchPubKey) else none) sigs keys =
        some true ↔
      List.SublistForall₂
        (fun vchSig vchPubKey => (encoded vchSig && verifies vchSig vchPubKey) = true)
        sigs keys := by
  induction keys generalizing sigs with
  | nil =>
      have hNil : sigs = [] := by simpa using hLength
      rw [hNil]
      exact ⟨fun _ => List.SublistForall₂.nil, fun _ => rfl⟩
  | cons vchPubKey keys ih =>
      cases sigs with
      | nil => exact ⟨fun _ => List.SublistForall₂.nil, fun _ => rfl⟩
      | cons vchSig sigs =>
          have hFewer : sigs.length ≤ keys.length := Nat.le_of_succ_le_succ hLength
          rw [matchSigs]
          by_cases hEncoded : encoded vchSig = true
          · rw [if_pos hEncoded, Option.bind_some]
            by_cases hVerifies : verifies vchSig vchPubKey = true
            · rw [hVerifies, if_pos rfl, if_neg (Nat.not_lt.mpr hFewer), ih hFewer]
              exact (sublistForall₂_cons_of_rel (by simp [hEncoded, hVerifies])).symm
            · rw [if_neg hVerifies, sublistForall₂_cons_of_not_rel (by simp [hVerifies])]
              by_cases hMany : (vchSig :: sigs).length > keys.length
              · rw [if_pos hMany]
                constructor
                · intro h
                  exact absurd h (by simp)
                · intro h
                  have hShort := sublistForall₂_length_le h
                  omega
              · rw [if_neg hMany]
                exact ih (Nat.le_of_not_lt hMany)
          · rw [if_neg hEncoded]
            constructor
            · intro h
              exact absurd h (by simp)
            · intro h
              -- a badly encoded signature has no partner anywhere
              obtain ⟨vch, -, hRel⟩ := exists_right_of_sublistForall₂ h List.mem_cons_self
              exact absurd hRel (by simp [hEncoded])

/-- The slots that the two numbers count. -/
def countedSlots (stack : List Valtype) (nKeysCount nSigsCount k : ℕ) : Guarded Valtype :=
  if 2 ≤ k ∧ k < 2 + nKeysCount ∨
      2 + nKeysCount + 1 ≤ k ∧ k < 2 + nKeysCount + 1 + nSigsCount then
    stacktop stack k
  else .error (.fault .outOfRange)

theorem countedSlots_keys
    {stack : List Valtype} {keys : List Valtype} (nSigsCount : ℕ)
    (h : Holds (stacktop stack) 2 keys) :
    Holds (countedSlots stack keys.length nSigsCount) 2 keys := by
  intro j vch hj
  have hLt : j < keys.length := (List.getElem?_eq_some_iff.mp hj).1
  rw [countedSlots, if_pos (Or.inl ⟨by omega, by omega⟩), h j vch hj]

theorem countedSlots_sigs
    {stack : List Valtype} {sigs : List Valtype} {nKeysCount : ℕ}
    (h : Holds (stacktop stack) (2 + nKeysCount + 1) sigs) :
    Holds (countedSlots stack nKeysCount sigs.length) (2 + nKeysCount + 1) sigs := by
  intro j vch hj
  have hLt : j < sigs.length := (List.getElem?_eq_some_iff.mp hj).1
  rw [countedSlots, if_pos (Or.inr ⟨by omega, by omega⟩), h j vch hj]

/-- The loop as the opcode starts it, with the two numbers it found. -/
def multisigLoopFrom (top : ℕ → Guarded Valtype)
    (check : (vchSig vchPubKey : Valtype) → Option Bool) (nKeysCount nSigsCount : ℕ) :
    Guarded Bool :=
  multisigLoop top check (nKeysCount + 1) (2 + nKeysCount + 1) 2 nSigsCount nKeysCount

/-- The loop ends, it would not notice if all slots but the counted ones were
missing, and it succeeds exactly when the signatures verify, in order, under some
of the keys. -/
structure LoopMatches (stack sigs keys : List Valtype)
    (check : (vchSig vchPubKey : Valtype) → Option Bool)
    (verifies : (vchSig vchPubKey : Valtype) → Bool) : Prop where
  ends : ∀ f, multisigLoopFrom (stacktop stack) check keys.length sigs.length ≠
    .error (.fault f)
  counted : multisigLoopFrom (countedSlots stack keys.length sigs.length) check keys.length
      sigs.length = multisigLoopFrom (stacktop stack) check keys.length sigs.length
  success : multisigLoopFrom (stacktop stack) check keys.length sigs.length = .ok true ↔
    ∃ f : Fin sigs.length → Fin keys.length, StrictMono f ∧
      ∀ i, verifies (sigs.get i) (keys.get (f i)) = true

section Complete

variable {sigs keys : List Valtype} {vchKeysCount vchSigsCount : Valtype} {below : List Valtype}

theorem loopMatches_of_check
    {check : Valtype → Valtype → Option Bool} {accepts : Valtype → Valtype → Bool}
    (encoded : Valtype → Bool) (verifies : Valtype → Valtype → Bool)
    (hCounts : sigs.length ≤ keys.length)
    (hCheck : ∀ vchSig vchPubKey, check vchSig vchPubKey =
      if encoded vchSig then some (verifies vchSig vchPubKey) else none)
    (hAccepts : ∀ vchSig vchPubKey,
      accepts vchSig vchPubKey = (encoded vchSig && verifies vchSig vchPubKey)) :
    LoopMatches (multisigStack vchKeysCount keys.reverse vchSigsCount sigs.reverse below)
      sigs keys check accepts := by
  have hCheck' : check = fun vchSig vchPubKey =>
      if encoded vchSig then some (verifies vchSig vchPubKey) else none := by
    funext vchSig vchPubKey
    exact hCheck vchSig vchPubKey
  have hKeys := multisigStack_keys vchKeysCount vchSigsCount keys.reverse sigs.reverse below
  have hSigs := multisigStack_sigs vchKeysCount vchSigsCount keys.reverse sigs.reverse below
  have hKeys' := countedSlots_keys sigs.length hKeys
  have hSigs' := countedSlots_sigs hSigs
  rw [List.length_reverse] at hSigs hKeys'
  rw [List.length_reverse, List.length_reverse] at hSigs'
  -- from the top both lists run backwards
  have hRun {top : ℕ → Guarded Valtype} (hKeys : Holds top 2 keys.reverse)
      (hSigs : Holds top (2 + keys.length + 1) sigs.reverse) :
      multisigLoopFrom top check keys.length sigs.length =
        answer (matchSigs check sigs.reverse keys.reverse) := by
    have hRounds : keys.reverse.length < keys.length + 1 := by simp
    have hLoop := @multisigLoop_eq top check _ _ _ _ _ hSigs hKeys (by simpa using hCounts) hRounds
    rwa [List.length_reverse, List.length_reverse] at hLoop
  have hMatch : List.SublistForall₂ (fun vchSig vchPubKey =>
        (encoded vchSig && verifies vchSig vchPubKey) = true) sigs.reverse keys.reverse ↔
      List.SublistForall₂ (fun vchSig vchPubKey => accepts vchSig vchPubKey = true) sigs keys := by
    simp only [hAccepts]
    constructor
    · intro h
      simpa using sublistForall₂_reverse h
    · exact sublistForall₂_reverse
  constructor
  · intro f
    rw [hRun hKeys hSigs]
    exact answer_ne_fault _ f
  · rw [hRun hKeys' hSigs', hRun hKeys hSigs]
  · rw [hRun hKeys hSigs, answer_eq_ok, hCheck', matchSigs_eq_true_iff (by simpa using hCounts),
      hMatch]
    exact sublistForall₂_iff_exists_strictMono

end Complete

/-- Without `SCRIPT_VERIFY_STRICTENC` the greedy loop of both interpreters
matches the signatures with the keys whenever that can be done, whatever the
checks of single signatures say. -/
theorem checkmultisig_complete
    (P : ScriptPrimitives) {flags : ℕ} (hStrict : hasFlag flags SCRIPT_VERIFY_STRICTENC = false)
    {sigs keys : List Valtype} (hCounts : sigs.length ≤ keys.length)
    (vchKeysCount vchSigsCount : Valtype) (below : List Valtype) (scriptCode : CScript) :
    (∀ (cache : CSignatureCache P) (txTo : CTransaction) (nIn : ℕ) (nHashType : ℤ),
      LoopMatches (multisigStack vchKeysCount keys.reverse vchSigsCount sigs.reverse below)
        sigs keys
        (fun vchSig vchPubKey =>
          (txRules P cache txTo nIn flags nHashType).checkSig vchSig vchPubKey scriptCode)
        fun vchSig vchPubKey =>
          checkSignatureEncoding P vchSig && checkPubKeyEncoding vchPubKey &&
            checkSig P cache vchSig vchPubKey scriptCode txTo nIn nHashType) ∧
    ∀ checker : BaseSignatureChecker,
      LoopMatches (multisigStack vchKeysCount keys.reverse vchSigsCount sigs.reverse below)
        sigs keys
        (fun vchSig vchPubKey =>
          (checkerRules P flags checker).checkSig vchSig vchPubKey scriptCode)
        fun vchSig vchPubKey =>
          checkSignatureEncodingFor P vchSig flags && checker vchSig vchPubKey scriptCode := by
  constructor
  · intro cache txTo nIn nHashType
    apply loopMatches_of_check (fun _ => true) _ hCounts
    · intro vchSig vchPubKey
      dsimp only [txRules]
      rw [hStrict, Bool.false_and, if_neg Bool.false_ne_true]
      rfl
    · exact fun _ _ => rfl
  · intro checker
    apply loopMatches_of_check (fun vchSig => checkSignatureEncodingFor P vchSig flags) _ hCounts
    · intro vchSig vchPubKey
      dsimp only [checkerRules]
      have hKey : checkPubKeyEncodingFor vchPubKey flags = true := by
        simp [checkPubKeyEncodingFor, hStrict]
      rw [hKey]
      cases checkSignatureEncodingFor P vchSig flags <;> rfl
    · exact fun _ _ => rfl

/-- Two signatures with three keys, for a checker that compares bytes. -/
theorem checkmultisig_complete_twoOfThree :
    LoopMatches (multisigStack [3] [[13], [12], [11]] [2] [[13], [12]] [[]])
      [[12], [13]] [[11], [12], [13]]
      (fun vchSig vchPubKey =>
        (checkerRules Sample.scriptPrims 0 fun vchSig vchPubKey _ =>
          vchSig = vchPubKey).checkSig vchSig vchPubKey [])
      (fun vchSig vchPubKey =>
        checkSignatureEncodingFor Sample.scriptPrims vchSig 0 && vchSig = vchPubKey) :=
  (@checkmultisig_complete Sample.scriptPrims 0 (by decide) [[12], [13]] [[11], [12], [13]]
    (by decide) [3] [2] [[]] []).2
    fun vchSig vchPubKey _ => vchSig = vchPubKey

end SocietyGold
