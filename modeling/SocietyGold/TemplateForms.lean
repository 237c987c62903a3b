import SocietyGold.Templates

/-!
# What Solver accepts

For each of the standard output types `Solver` recognizes the scripts of one form and no
others, whatever encodings their pushes have.  The form of a multisig script leaves the
number of its keys open: the loop that collects them stops at the first instruction that
is not as long as a key, which has to be their count.
-/

namespace SocietyGold

open Support CScript TxnOutType

/-! ## The forms -/

/-- A push of a key and a signature check. -/
def IsPubKeyForm (script : CScript) (key : Valtype) : Prop :=
  ∃ keyOp checkOp, script.instructions = [keyOp, checkOp] ∧ IsKeyPush keyOp ∧
    keyOp.vchRet = key ∧ IsOpcode OP_CHECKSIG checkOp

/-- The check of a key against its hash, which is pushed, and a signature check. -/
def IsPubKeyHashForm (script : CScript) (hash : Valtype) : Prop :=
  ∃ dupOp hashOp pushOp equalOp checkOp,
    script.instructions = [dupOp, hashOp, pushOp, equalOp, checkOp] ∧
    IsOpcode OP_DUP dupOp ∧ IsOpcode OP_HASH160 hashOp ∧
    IsPush pushOp ∧ pushOp.vchRet = hash ∧ hash.length = 20 ∧
    IsOpcode OP_EQUALVERIFY equalOp ∧ IsOpcode OP_CHECKSIG checkOp

/-- The bytes of a payment to the hash of a script. -/
def IsScriptHashForm (script : CScript) (hash : Valtype) : Prop :=
  hash.length = 20 ∧ script = OP_HASH160 :: 0x14 :: (hash ++ [OP_EQUAL])

/-- The number of signatures, pushes of the keys, their number, and the check. -/
def IsMultisigForm (script : CScript) (m : ℕ) (keys : List Valtype) : Prop :=
  ∃ mOp keyOps nOp checkOp, script.instructions = mOp :: (keyOps ++ [nOp, checkOp]) ∧
    IsSmallInteger m mOp ∧ (∀ keyOp ∈ keyOps, IsKeyPush keyOp) ∧
    keyOps.map GetOpResult.vchRet = keys ∧ IsSmallInteger keys.length nOp ∧
    IsOpcode OP_CHECKMULTISIG checkOp ∧ 1 ≤ m ∧ m ≤ keys.length ∧ keys.length ≤ 16

/-- The solutions of a multisig script. -/
def multisigSolutions (m : ℕ) (keys : List Valtype) : List Valtype :=
  [UInt8.ofNat m] :: (keys ++ [[UInt8.ofNat keys.length]])

/-! ## Scanning the templates -/

section Match

variable {op : GetOpResult} {ops : List GetOpResult} {template : List Opcodetype}
  {vSolutions : List Valtype}

/-- One opcode of a template, other than the one for keys. -/
theorem matchTemplate_step
    {opcode2 : Opcodetype} {found : List Valtype} (hKeys : opcode2 ≠ OP_PUBKEYS)
    (hRet : op.fRet = true) (hFound : matchOpcode opcode2 op = some found) :
    matchTemplate (opcode2 :: template) (op :: ops) vSolutions =
      matchTemplate template ops (vSolutions ++ found) := by
  conv_lhs => unfold matchTemplate
  rw [if_neg (by simp [hRet]), if_neg hKeys, hFound, Option.bind_some]

theorem matchTemplate_differs
    {opcode2 : Opcodetype} (hKeys : opcode2 ≠ OP_PUBKEYS) (hNone : matchOpcode opcode2 op = none) :
    matchTemplate (opcode2 :: template) (op :: ops) vSolutions = none := by
  unfold matchTemplate
  split_ifs
  · rfl
  · rw [hNone, Option.bind_none]

theorem matchOpcode_key (h : IsKeyPush op) : matchOpcode OP_PUBKEY op = some [op.vchRet] := by
  rw [matchOpcode, if_pos rfl, if_pos h.2]

theorem matchOpcode_hash (h : op.vchRet.length = 20) :
    matchOpcode OP_PUBKEYHASH op = some [op.vchRet] := by
  rw [matchOpcode, if_neg (by decide), if_pos rfl, if_pos h]

theorem matchOpcode_count {n : ℕ} (h : IsSmallInteger n op) :
    matchOpcode OP_SMALLINTEGER op = some [[UInt8.ofNat n]] := by
  obtain ⟨-, -, hLow, hHigh, rfl⟩ := h
  rw [matchOpcode, if_neg (by decide), if_neg (by decide), if_pos rfl,
    if_pos (Or.inr ⟨hLow, hHigh⟩)]

/-- An opcode that stands for itself matches itself and nothing else. -/
theorem matchOpcode_self
    {opcode2 : Opcodetype} (hLiteral : opcode2 < OP_SMALLDATA) :
    matchOpcode opcode2 op =
      if op.opcodeRet ≠ opcode2 ∨ op.vchRet ≠ [] then none else some [] := by
  have hNe {param : Opcodetype} (hParam : OP_SMALLDATA ≤ param) : opcode2 ≠ param := by
    intro hEq
    rw [hEq] at hLiteral
    exact UInt8.not_lt.mpr hParam hLiteral
  rw [matchOpcode, if_neg (hNe (by decide)), if_neg (hNe (by decide)), if_neg (hNe (by decide)),
    if_neg (hNe (by decide))]

theorem matchOpcode_opcode
    {opcode2 : Opcodetype} (hLiteral : opcode2 < OP_SMALLDATA) (h : IsOpcode opcode2 op) :
    matchOpcode opcode2 op = some [] := by
  rw [matchOpcode_self hLiteral, if_neg (by simp [h.2.1, h.2.2])]

/-- An instruction without data is no key. -/
theorem not_hasKeySize_nil (h : op.vchRet = []) : ¬hasKeySize op.vchRet = true := by
  rw [h]
  decide

theorem matchOpcode_key_none (h : op.vchRet = []) : matchOpcode OP_PUBKEY op = none := by
  rw [matchOpcode, if_pos rfl, if_neg (not_hasKeySize_nil h)]

/-- The loop for the keys takes all of them and stops at the instruction after them. -/
theorem takePubKeys_eq
    {keyOps : List GetOpResult} {nOp : GetOpResult}
    (hKeys : ∀ keyOp ∈ keyOps, IsKeyPush keyOp) (hStop : nOp.vchRet = []) {op : GetOpResult}
    {rest : List GetOpResult} (hOps : op :: rest = keyOps ++ nOp :: ops) :
    takePubKeys op rest vSolutions =
      (vSolutions ++ keyOps.map GetOpResult.vchRet, nOp, ops) := by
  induction keyOps generalizing op rest vSolutions with
  | nil =>
      obtain ⟨rfl, rfl⟩ := List.cons.inj hOps
      cases rest with
      | nil => rw [takePubKeys, if_neg (not_hasKeySize_nil hStop), List.map_nil, List.append_nil]
      | cons next rest =>
          rw [takePubKeys, if_neg (not_hasKeySize_nil hStop), List.map_nil, List.append_nil]
  | cons keyOp keyOps ih =>
      obtain ⟨rfl, rfl⟩ := List.cons.inj hOps
      have hKey := (hKeys op List.mem_cons_self).2
      obtain ⟨next, later, hNext⟩ := List.exists_cons_of_ne_nil
        (List.append_ne_nil_of_right_ne_nil keyOps (List.cons_ne_nil nOp ops))
      have hRest := @ih (vSolutions ++ [op.vchRet])
        (fun keyOp hMem => hKeys keyOp (List.mem_cons_of_mem _ hMem)) next later hNext.symm
      change takePubKeys op (keyOps ++ nOp :: ops) vSolutions = _
      rw [hNext, takePubKeys, if_pos hKey, hRest, List.map_cons, List.append_assoc,
        List.singleton_append]

theorem scanTemplates_skip
    {type : TxnOutType} {templates : List (TxnOutType × List Opcodetype)}
    (h : matchTemplate template ops [] = none) :
    scanTemplates ops ((type, template) :: templates) = scanTemplates ops templates := by
  rw [scanTemplates, h]

theorem scanTemplates_found
    {type : TxnOutType} {templates : List (TxnOutType × List Opcodetype)}
    (h : matchTemplate template ops [] = some vSolutions)
    (hFit : type = TX_MULTISIG → multisigCountsFit vSolutions = true) :
    scanTemplates ops ((type, template) :: templates) = some (type, vSolutions) := by
  have hGood : ¬(type = TX_MULTISIG ∧ (!multisigCountsFit vSolutions) = true) := by
    rintro ⟨hType, hBad⟩
    rw [hFit hType] at hBad
    cases hBad
  rw [scanTemplates, h]
  dsimp only
  rw [if_neg hGood]

end Match

/-! ## Scripts of each form are accepted -/

/-- A script whose first instruction is not `OP_HASH160` pays to no script hash. -/
theorem not_scripthash_of_first
    {script : CScript} {op : GetOpResult} {ops : List GetOpResult}
    (hOps : script.instructions = op :: ops) (hOp : op.opcodeRet ≠ OP_HASH160) :
    ¬script.isPayToScriptHash = true := by
  intro hHash
  obtain ⟨hashOp, pushOp, equalOp, hOps', hHashOp, -, -⟩ := instructions_of_scripthash hHash
  rw [hOps] at hOps'
  rw [(List.cons.inj hOps').1] at hOp
  exact hOp hHashOp.2.1

theorem solver_eq_scan
    {script : CScript} (h : ¬script.isPayToScriptHash = true) :
    solver script = scanTemplates script.instructions mTemplates := by
  rw [solver, if_neg h]

theorem solver_of_pubkey
    {script : CScript} {key : Valtype} (h : IsPubKeyForm script key) :
    solver script = some (TX_PUBKEY, [key]) := by
  obtain ⟨keyOp, checkOp, hOps, hKey, rfl, hCheck⟩ := h
  have hFirst : keyOp.opcodeRet ≠ OP_HASH160 := by
    intro hEq
    have hPush := hKey.1.2
    rw [hEq] at hPush
    exact absurd hPush (by decide)
  have hMatch : matchTemplate [OP_PUBKEY, OP_CHECKSIG] [keyOp, checkOp] [] =
      some [keyOp.vchRet] := by
    rw [matchTemplate_step (by decide) hKey.1.1 (matchOpcode_key hKey),
      matchTemplate_step (by decide) hCheck.1 (matchOpcode_opcode (by decide) hCheck)]
    rfl
  rw [solver_eq_scan (not_scripthash_of_first hOps hFirst), hOps]
  exact scanTemplates_found hMatch fun hType => absurd hType (by decide)

theorem solver_of_pubkeyhash
    {script : CScript} {hash : Valtype} (h : IsPubKeyHashForm script hash) :
    solver script = some (TX_PUBKEYHASH, [hash]) := by
  obtain ⟨dupOp, hashOp, pushOp, equalOp, checkOp, hOps, hDup, hHash, hPush, rfl, hSize, hEqual,
    hCheck⟩ := h
  have hFirst : dupOp.opcodeRet ≠ OP_HASH160 := by
    rw [hDup.2.1]
    decide
  have hMatch : matchTemplate [OP_DUP, OP_HASH160, OP_PUBKEYHASH, OP_EQUALVERIFY, OP_CHECKSIG]
      [dupOp, hashOp, pushOp, equalOp, checkOp] [] = some [pushOp.vchRet] := by
    rw [matchTemplate_step (by decide) hDup.1 (matchOpcode_opcode (by decide) hDup),
      matchTemplate_step (by decide) hHash.1 (matchOpcode_opcode (by decide) hHash),
      matchTemplate_step (by decide) hPush.1 (matchOpcode_hash hSize),
      matchTemplate_step (by decide) hEqual.1 (matchOpcode_opcode (by decide) hEqual),
      matchTemplate_step (by decide) hCheck.1 (matchOpcode_opcode (by decide) hCheck)]
    rfl
  rw [solver_eq_scan (not_scripthash_of_first hOps hFirst), hOps, mTemplates,
    scanTemplates_skip (matchTemplate_differs (by decide) (matchOpcode_key_none hDup.2.2))]
  exact scanTemplates_found hMatch fun hType => absurd hType (by decide)

theorem matchTemplate_of_multisig
    {m : ℕ} {mOp nOp checkOp : GetOpResult} {keyOps : List GetOpResult} {n : ℕ}
    (hM : IsSmallInteger m mOp) (hKeys : ∀ keyOp ∈ keyOps, IsKeyPush keyOp)
    (hN : IsSmallInteger n nOp) (hCheck : IsOpcode OP_CHECKMULTISIG checkOp) :
    matchTemplate [OP_SMALLINTEGER, OP_PUBKEYS, OP_SMALLINTEGER, OP_CHECKMULTISIG]
        (mOp :: (keyOps ++ [nOp, checkOp])) [] =
      some ([UInt8.ofNat m] :: (keyOps.map GetOpResult.vchRet ++ [[UInt8.ofNat n]])) := by
  obtain ⟨next, later, hNext⟩ := List.exists_cons_of_ne_nil
    (List.append_ne_nil_of_right_ne_nil keyOps (List.cons_ne_nil nOp [checkOp]))
  have hRet : next.fRet = true := by
    have hMem : next ∈ keyOps ++ [nOp, checkOp] := by simp [hNext]
    rcases List.mem_append.mp hMem with hKey | hLast
    · exact (hKeys next hKey).1.1
    · rcases List.mem_pair.mp hLast with rfl | rfl
      · exact hN.1
      · exact hCheck.1
  have hTake : takePubKeys next later [[UInt8.ofNat m]] =
      ([[UInt8.ofNat m]] ++ keyOps.map GetOpResult.vchRet, nOp, [checkOp]) :=
    takePubKeys_eq hKeys hN.2.1 hNext.symm
  rw [matchTemplate_step (by decide) hM.1 (matchOpcode_count hM), hNext, List.nil_append]
  unfold matchTemplate
  rw [if_neg (by simp [hRet]), if_pos rfl, hTake]
  dsimp only
  rw [matchOpcode_count hN, Option.bind_some,
    matchTemplate_step (by decide) hCheck.1 (matchOpcode_opcode (by decide) hCheck)]
  simp [matchTemplate]

theorem smallInteger_ofNat {n : ℕ} (h : n ≤ 16) : smallInteger (some [UInt8.ofNat n]) = n := by
  simp only [smallInteger, Option.bind_some, List.head?_cons, Option.map_some, Option.getD_some,
    UInt8.toNat_ofNat']
  omega

theorem solver_of_multisig
    {script : CScript} {m : ℕ} {keys : List Valtype} (h : IsMultisigForm script m keys) :
    solver script = some (TX_MULTISIG, multisigSolutions m keys) := by
  obtain ⟨mOp, keyOps, nOp, checkOp, hOps, hM, hKeys, hSame, hN, hCheck, hPos, hFew, hMany⟩ := h
  obtain ⟨-, hData, hLow, hHigh, -⟩ := id hM
  have hFirst : mOp.opcodeRet ≠ OP_HASH160 := by
    intro hEq
    rw [hEq] at hHigh
    exact absurd hHigh (by decide)
  have hNotDup : matchOpcode OP_DUP mOp = none := by
    have hDiffers : mOp.opcodeRet ≠ OP_DUP := by
      intro hEq
      rw [hEq] at hHigh
      exact absurd hHigh (by decide)
    rw [matchOpcode_self (by decide), if_pos (Or.inl hDiffers)]
  have hMatch := matchTemplate_of_multisig hM hKeys hN hCheck
  rw [hSame] at hMatch
  have hFit : multisigCountsFit (multisigSolutions m keys) = true := by
    rw [multisigSolutions, multisigCountsFit_iff, smallInteger_ofNat (by omega),
      smallInteger_ofNat hMany]
    omega
  rw [solver_eq_scan (not_scripthash_of_first hOps hFirst), hOps, mTemplates,
    scanTemplates_skip (matchTemplate_differs (by decide) (matchOpcode_key_none hData)),
    scanTemplates_skip (matchTemplate_differs (by decide) hNotDup)]
  exact scanTemplates_found hMatch fun _ => hFit

theorem solver_of_scripthash
    {script : CScript} {hash : Valtype} (h : IsScriptHashForm script hash) :
    solver script = some (TX_SCRIPTHASH, [hash]) := by
  obtain ⟨hLength, rfl⟩ := h
  have hHash : isPayToScriptHash (OP_HASH160 :: 0x14 :: (hash ++ [OP_EQUAL])) = true := by
    simp [isPayToScriptHash, hLength]
  have hTake : (hash ++ [OP_EQUAL]).take 20 = hash := List.take_left' hLength
  rw [solver, if_pos hHash, List.drop_succ_cons, List.drop_succ_cons, List.drop_zero, hTake]

/-! ## Nothing else is accepted -/

theorem pubkeyForm_of_solver
    {script : CScript} {vSolutions : List Valtype}
    (h : solver script = some (TX_PUBKEY, vSolutions)) :
    ∃ key, vSolutions = [key] ∧ IsPubKeyForm script key := by
  obtain ⟨keyOp, checkOp, hOps, hKey, hCheck, rfl⟩ := instructions_of_pubkey h
  exact ⟨keyOp.vchRet, rfl, keyOp, checkOp, hOps, hKey, rfl, hCheck⟩

theorem pubkeyhashForm_of_solver
    {script : CScript} {vSolutions : List Valtype}
    (h : solver script = some (TX_PUBKEYHASH, vSolutions)) :
    ∃ hash, vSolutions = [hash] ∧ IsPubKeyHashForm script hash := by
  obtain ⟨dupOp, hashOp, pushOp, equalOp, checkOp, hOps, hDup, hHash, ⟨hPush, hSize⟩, hEqual,
    hCheck, rfl⟩ := instructions_of_pubkeyhash h
  exact ⟨pushOp.vchRet, rfl, dupOp, hashOp, pushOp, equalOp, checkOp, hOps, hDup, hHash, hPush,
    rfl, hSize, hEqual, hCheck⟩

theorem scripthashForm_of_solver
    {script : CScript} {vSolutions : List Valtype}
    (h : solver script = some (TX_SCRIPTHASH, vSolutions)) :
    ∃ hash, vSolutions = [hash] ∧ IsScriptHashForm script hash := by
  have hHash := (solver_scripthash_iff h).mp rfl
  rw [solver, if_pos hHash] at h
  refine ⟨(script.drop 2).take 20, (Prod.mk.inj (Option.some.inj h)).2.symm, ?_⟩
  unfold isPayToScriptHash at hHash
  rcases script with _ | ⟨opcode, _ | ⟨size, rest⟩⟩
  · exact absurd hHash (by decide)
  · exact absurd hHash (by simp)
  · simp only [List.length_cons, Bool.and_eq_true, decide_eq_true_eq, List.getElem?_cons_zero,
      List.getElem?_cons_succ, Option.some.injEq] at hHash
    obtain ⟨⟨⟨hLength, rfl⟩, rfl⟩, hEqual⟩ := hHash
    obtain ⟨hLast, hByte⟩ := List.getElem?_eq_some_iff.mp hEqual
    have hTail : rest.drop 20 = [OP_EQUAL] := by
      rw [List.drop_eq_getElem_cons hLast, hByte, List.drop_eq_nil_of_le (by omega)]
    change (rest.take 20).length = 20 ∧ OP_HASH160 :: 0x14 :: rest =
      OP_HASH160 :: 0x14 :: (rest.take 20 ++ [OP_EQUAL])
    rw [← hTail, List.take_append_drop, List.length_take]
    exact ⟨by omega, rfl⟩

/-- The solutions of a multisig script hold its counts and its keys. -/
theorem multisigForm_of_solver
    {script : CScript} {vSolutions : List Valtype}
    (h : solver script = some (TX_MULTISIG, vSolutions)) :
    ∃ m keys, vSolutions = multisigSolutions m keys ∧ IsMultisigForm script m keys := by
  obtain ⟨hMatch, -⟩ := matchTemplate_of_solver
    [OP_SMALLINTEGER, OP_PUBKEYS, OP_SMALLINTEGER, OP_CHECKMULTISIG]
    (by decide) (by simp [mTemplates]) h
  obtain ⟨mOp, keyOps, nOp, checkOp, hOps, hM, hKeys, hN, hCheck, hPos, hFew, hMany, -⟩ :=
    instructions_of_multisig h
  have hForm := matchTemplate_of_multisig hM hKeys hN hCheck
  rw [← hOps, hMatch] at hForm
  refine ⟨_, keyOps.map GetOpResult.vchRet, ?_, mOp, keyOps, nOp, checkOp, hOps, hM, hKeys, rfl,
    ?_, hCheck, hPos, ?_, ?_⟩
  · rw [multisigSolutions, List.length_map]
    exact Option.some.inj hForm
  · rwa [List.length_map]
  · rwa [List.length_map]
  · rwa [List.length_map]

/-- `Solver` returns each of these types, with its solutions, for the scripts of its form
and for no others. -/
theorem solver_iff_forms (script : CScript) (vSolutions : List Valtype) :
    (solver script = some (TX_MULTISIG, vSolutions) ↔
      ∃ m keys, vSolutions = multisigSolutions m keys ∧ IsMultisigForm script m keys) ∧
    (solver script = some (TX_PUBKEYHASH, vSolutions) ↔
      ∃ hash, vSolutions = [hash] ∧ IsPubKeyHashForm script hash) ∧
    (solver script = some (TX_PUBKEY, vSolutions) ↔
      ∃ key, vSolutions = [key] ∧ IsPubKeyForm script key) ∧
    (solver script = some (TX_SCRIPTHASH, vSolutions) ↔
      ∃ hash, vSolutions = [hash] ∧ IsScriptHashForm script hash) := by
  refine ⟨⟨multisigForm_of_solver, ?_⟩, ⟨pubkeyhashForm_of_solver, ?_⟩,
    ⟨pubkeyForm_of_solver, ?_⟩, ⟨scripthashForm_of_solver, ?_⟩⟩
  · rintro ⟨m, keys, rfl, hForm⟩
    exact solver_of_multisig hForm
  · rintro ⟨hash, rfl, hForm⟩
    exact solver_of_pubkeyhash hForm
  · rintro ⟨key, rfl, hForm⟩
    exact solver_of_pubkey hForm
  · rintro ⟨hash, rfl, hForm⟩
    exact solver_of_scripthash hForm

end SocietyGold
