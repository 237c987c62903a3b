import SocietyGold.ForkChoice
import SocietyGold.ScriptNum
import SocietyGold.Support.RoundTrip

/-!
# The height in the coinbase

`AcceptBlock` wants the coinbase to start with the height of its block, as
`CScript() << nHeight` writes it: one opcode for the heights 1 to 16, and otherwise a
push of the sign-magnitude bytes of the number.  The first byte tells the two kinds
apart and how many bytes follow.
-/

namespace SocietyGold

open Support

/-! ## Pushed numbers as a code -/

/-- The numbers that have an opcode of their own. -/
def HasOpcode (n : ℤ) : Prop := n = -1 ∨ (1 ≤ n ∧ n ≤ 16)

instance (n : ℤ) : Decidable (HasOpcode n) := inferInstanceAs (Decidable (_ ∨ _))

/-- The numbers whose bytes fit into a push without a size operand. -/
def directPushes : Set ℤ := {n | (CBigNum.getvch n).length < OP_PUSHDATA1.toNat}

/-- The first byte of a pushed number. -/
def pushHeader (n : ℤ) : UInt8 :=
  if HasOpcode n then UInt8.ofNat (n + 80).toNat
  else UInt8.ofNat (CBigNum.getvch n).length

/-- The bytes after the first one. -/
def pushBody (n : ℤ) : List UInt8 := if HasOpcode n then [] else CBigNum.getvch n

theorem pushInt64_eq {n : ℤ} (h : n ∈ directPushes) :
    CScript.pushInt64 [] n = pushHeader n :: pushBody n := by
  have hShort : (CBigNum.getvch n).length < OP_PUSHDATA1.toNat := h
  have hByte : OP_PUSHDATA1.toNat = 76 := by decide
  unfold CScript.pushInt64 pushHeader pushBody
  by_cases hOpcode : HasOpcode n
  · have hLow : (n + 80) % 256 = n + 80 := by
      unfold HasOpcode at hOpcode
      omega
    have hOne : ((OP_1.toNat : ℤ) - 1) = 80 := by decide
    have hOpcode' : n = -1 ∨ (1 ≤ n ∧ n ≤ 16) := hOpcode
    rw [if_pos hOpcode', if_pos hOpcode, if_pos hOpcode, hOne]
    have hSmall : (n + 80).toNat < 256 := by
      unfold HasOpcode at hOpcode
      omega
    simp [intToBytesLE, toBytesLE, hLow, Nat.mod_eq_of_lt hSmall]
  · have hOpcode' : ¬(n = -1 ∨ (1 ≤ n ∧ n ≤ 16)) := hOpcode
    rw [if_neg hOpcode', if_neg hOpcode, if_neg hOpcode]
    have hSmall : (CBigNum.getvch n).length < 256 := by omega
    simp [CScript.pushBytes, hShort, toBytesLE, Nat.mod_eq_of_lt hSmall]

/-- The first byte of a number with an opcode is above every direct push size. -/
theorem toNat_pushHeader_of_hasOpcode {n : ℤ} (h : HasOpcode n) :
    ((pushHeader n).toNat : ℤ) = n + 80 := by
  unfold pushHeader
  rw [if_pos h]
  unfold HasOpcode at h
  simp only [UInt8.toNat_ofNat']
  omega

theorem toNat_pushHeader_of_not_hasOpcode
    {n : ℤ} (hShort : n ∈ directPushes) (h : ¬HasOpcode n) :
    (pushHeader n).toNat = (CBigNum.getvch n).length := by
  have hShort' : (CBigNum.getvch n).length < OP_PUSHDATA1.toNat := hShort
  have hByte : OP_PUSHDATA1.toNat = 76 := by decide
  unfold pushHeader
  rw [if_neg h]
  simp only [UInt8.toNat_ofNat']
  omega

theorem not_hasOpcode_iff_pushHeader_lt {n : ℤ} (hShort : n ∈ directPushes) :
    ¬HasOpcode n ↔ (pushHeader n).toNat < 76 := by
  constructor
  · intro h
    rw [toNat_pushHeader_of_not_hasOpcode hShort h]
    exact hShort
  · intro hLow h
    have hHeader := toNat_pushHeader_of_hasOpcode h
    unfold HasOpcode at h
    omega

/-- The first byte decides between the two kinds. -/
theorem hasOpcode_congr
    {a b : ℤ} (ha : a ∈ directPushes) (hb : b ∈ directPushes)
    (hHeader : pushHeader a = pushHeader b) : HasOpcode a ↔ HasOpcode b := by
  rw [← not_iff_not, not_hasOpcode_iff_pushHeader_lt ha, not_hasOpcode_iff_pushHeader_lt hb,
    hHeader]

theorem getvch_injective : Function.Injective CBigNum.getvch :=
  Function.LeftInverse.injective (g := CBigNum.setvch) setvch_getvch

/-- Numbers pushed without a size operand form a prefix code. -/
theorem pushInt64_prefixFree : PrefixFreeOn (CScript.pushInt64 []) directPushes := by
  refine PrefixFreeOn.of_header (fun n hn => pushInt64_eq hn) ?_ ?_
  · intro a ha b hb hHeader
    have hKind := hasOpcode_congr ha hb hHeader
    unfold pushBody
    by_cases hOpcode : HasOpcode b
    · rw [if_pos (hKind.mpr hOpcode), if_pos hOpcode]
    · have hOpcode' : ¬HasOpcode a := fun h => hOpcode (hKind.mp h)
      rw [if_neg hOpcode', if_neg hOpcode,
        ← toNat_pushHeader_of_not_hasOpcode ha hOpcode',
        ← toNat_pushHeader_of_not_hasOpcode hb hOpcode, hHeader]
  · intro a ha b hb hHeader hBody
    have hKind := hasOpcode_congr ha hb hHeader
    by_cases hOpcode : HasOpcode b
    · have hA := toNat_pushHeader_of_hasOpcode (hKind.mpr hOpcode)
      have hB := toNat_pushHeader_of_hasOpcode hOpcode
      rw [hHeader] at hA
      omega
    · have hOpcode' : ¬HasOpcode a := fun h => hOpcode (hKind.mp h)
      unfold pushBody at hBody
      rw [if_neg hOpcode', if_neg hOpcode] at hBody
      exact getvch_injective hBody

/-! ## Heights -/

/-- The heights a block can have. -/
def blockHeights : Set ℤ := {nHeight | 0 ≤ nHeight ∧ nHeight < 2 ^ 31}

/-- A number of at most `k` bytes takes one more byte when the sign needs it. -/
theorem length_getvch_le {n : ℤ} {k : ℕ} (h : n.natAbs < 256 ^ k) :
    (CBigNum.getvch n).length ≤ k + 1 := by
  have hDigits : ((Nat.digits 256 n.natAbs).reverse.map UInt8.ofNat).length ≤ k := by
    simpa using (Nat.digits_length_le_iff (by decide) n.natAbs).mpr h
  unfold CBigNum.getvch CBigNum.bn2mpi
  rw [List.length_reverse]
  cases hMagnitude : (Nat.digits 256 n.natAbs).reverse.map UInt8.ofNat with
  | nil => simp
  | cons b bs =>
      rw [hMagnitude, List.length_cons] at hDigits
      simp only
      split_ifs <;> simp <;> omega

theorem blockHeights_subset : blockHeights ⊆ directPushes := by
  rintro nHeight ⟨hLow, hHigh⟩
  have hBytes : nHeight.natAbs < 256 ^ 4 := by omega
  have hLength := length_getvch_le hBytes
  have hByte : OP_PUSHDATA1.toNat = 76 := by decide
  change (CBigNum.getvch nHeight).length < OP_PUSHDATA1.toNat
  omega

theorem startsWithHeight_iff (scriptSig : CScript) (nHeight : ℤ) :
    startsWithHeight scriptSig nHeight = true ↔ CScript.pushInt64 [] nHeight <+: scriptSig := by
  unfold startsWithHeight
  exact List.isPrefixOf_iff_prefix

/-- A script starts with at most one height. -/
theorem startsWithHeight_unique
    {scriptSig : CScript} {nHeight₁ nHeight₂ : ℤ}
    (h₁ : nHeight₁ ∈ blockHeights) (h₂ : nHeight₂ ∈ blockHeights)
    (hStart₁ : startsWithHeight scriptSig nHeight₁ = true)
    (hStart₂ : startsWithHeight scriptSig nHeight₂ = true) : nHeight₁ = nHeight₂ := by
  have hFree := pushInt64_prefixFree.mono blockHeights_subset
  rw [startsWithHeight_iff] at hStart₁ hStart₂
  exact hFree.eq_of_prefixes h₁ h₂ hStart₁ hStart₂

/-! ## Accepted blocks -/

/-- `AcceptBlock` accepts the block, at one more than the height of its previous
block. -/
def AcceptedAt (env : Env) (fromNode : Bool) (st : ChainState) (block : CBlock) (nHeight : ℤ)
    (st' : ChainState) : Prop :=
  acceptBlock env fromNode st block = .ok (.ok (), st') ∧
    ∃ pindexPrev, st.mapBlockIndex.lookup block.hashPrevBlock = some pindexPrev ∧
      nHeight = pindexPrev.nHeight + 1

/-- The script of the first input of the first transaction. -/
def CBlock.coinbaseScriptSig (block : CBlock) : Option CScript :=
  (block.vtx[0]?.bind fun tx => tx.vin[0]?).map CTxIn.scriptSig

theorem startsWithHeight_of_accepted
    {env : Env} {fromNode : Bool} {st st' : ChainState} {block : CBlock} {nHeight : ℤ}
    (h : AcceptedAt env fromNode st block nHeight st') :
    ∃ scriptSig, block.coinbaseScriptSig = some scriptSig ∧
      startsWithHeight scriptSig nHeight = true := by
  obtain ⟨hAccept, pindexPrev, hPrev, rfl⟩ := h
  obtain ⟨pindexPrev', -, hPrev', -, hNext⟩ :=
    (acceptBlock_cases hAccept).resolve_left fun hRefused => hRefused.2 rfl
  cases hPrev.symm.trans hPrev'
  obtain ⟨coinbase, _, hCoinbase, -, -, -, ⟨txin, hInput, hStarts⟩, -⟩ :=
    (acceptNext_cases hNext).resolve_left fun hRefused => hRefused.2 rfl
  have hFirst := elementAt_eq_ok.mp hCoinbase
  have hScript := elementAt_eq_ok.mp hInput
  exact ⟨txin.scriptSig, by simp [CBlock.coinbaseScriptSig, hFirst, hScript], hStarts⟩

/-- The height in the coinbase is unambiguous: no pushed height starts another one, a
script passes the rule for one height only, and blocks accepted at different heights
have different coinbase scripts. -/
theorem coinbaseHeight_unambiguous :
    (∀ nHeight₁ ∈ blockHeights, ∀ nHeight₂ ∈ blockHeights, nHeight₁ ≠ nHeight₂ →
      ¬CScript.pushInt64 [] nHeight₁ <+: CScript.pushInt64 [] nHeight₂) ∧
    (∀ scriptSig, ∀ nHeight₁ ∈ blockHeights, ∀ nHeight₂ ∈ blockHeights,
      startsWithHeight scriptSig nHeight₁ = true →
      startsWithHeight scriptSig nHeight₂ = true → nHeight₁ = nHeight₂) ∧
    ∀ env₁ env₂ fromNode₁ fromNode₂ st₁ st₂ st₁' st₂' block₁ block₂,
      ∀ nHeight₁ ∈ blockHeights, ∀ nHeight₂ ∈ blockHeights,
      AcceptedAt env₁ fromNode₁ st₁ block₁ nHeight₁ st₁' →
      AcceptedAt env₂ fromNode₂ st₂ block₂ nHeight₂ st₂' → nHeight₁ ≠ nHeight₂ →
      block₁.coinbaseScriptSig ≠ block₂.coinbaseScriptSig := by
  refine ⟨?_, ?_, ?_⟩
  · intro nHeight₁ h₁ nHeight₂ h₂ hNe hPrefix
    exact hNe (pushInt64_prefixFree.mono blockHeights_subset nHeight₁ h₁ nHeight₂ h₂ hPrefix)
  · intro scriptSig nHeight₁ h₁ nHeight₂ h₂ hStart₁ hStart₂
    exact startsWithHeight_unique h₁ h₂ hStart₁ hStart₂
  · intro env₁ env₂ fromNode₁ fromNode₂ st₁ st₂ st₁' st₂' block₁ block₂ nHeight₁ h₁ nHeight₂ h₂
      hAccept₁ hAccept₂ hNe hSame
    obtain ⟨scriptSig₁, hScript₁, hStart₁⟩ := startsWithHeight_of_accepted hAccept₁
    obtain ⟨scriptSig₂, hScript₂, hStart₂⟩ := startsWithHeight_of_accepted hAccept₂
    have hEqual : scriptSig₁ = scriptSig₂ := by
      rw [hScript₁, hScript₂] at hSame
      exact Option.some.inj hSame
    subst hEqual
    exact hNe (startsWithHeight_unique h₁ h₂ hStart₁ hStart₂)

namespace Sample

theorem acceptedAt_delivered
    {st : ChainState} {block : CBlock} {pindexPrev : CBlockIndex} {nHeight : ℤ}
    (hVerdict : (acceptBlock (env 900) true st block).map Prod.fst = .ok (.ok ()))
    (hPrev : st.mapBlockIndex.lookup block.hashPrevBlock = some pindexPrev)
    (hHeight : nHeight = pindexPrev.nHeight + 1) :
    AcceptedAt (env 900) true st block nHeight (delivered st block) := by
  refine ⟨?_, pindexPrev, hPrev, hHeight⟩
  unfold delivered
  cases hRun : acceptBlock (env 900) true st block with
  | error fault => simp [hRun, Except.map] at hVerdict
  | ok out =>
      obtain ⟨verdict, st'⟩ := out
      simpa [hRun, Except.map] using hVerdict

/-- The entry of the block at height 11 once it is the tip. -/
def rightEntry : CBlockIndex :=
  (afterRight.mapBlockIndex.lookup (right.getHash prims)).getD tipEntry

theorem heights_of_right :
    AcceptedAt (env 900) true (nodeWith []) right 11 afterRight ∧
      AcceptedAt (env 900) true afterRight rightChild 12 afterRightChild ∧
      right.coinbaseScriptSig ≠ rightChild.coinbaseScriptSig ∧
      ¬CScript.pushInt64 [] 11 <+: CScript.pushInt64 [] 12 := by
  have hRight : AcceptedAt (env 900) true (nodeWith []) right 11 afterRight :=
    acceptedAt_delivered (by decide +kernel) (show _ = some tipEntry by decide +kernel)
      (by decide +kernel)
  have hChild : AcceptedAt (env 900) true afterRight rightChild 12 afterRightChild :=
    acceptedAt_delivered (by decide +kernel) (show _ = some rightEntry by decide +kernel)
      (by decide +kernel)
  obtain ⟨hFree, -, hScripts⟩ := coinbaseHeight_unambiguous
  have h11 : (11 : ℤ) ∈ blockHeights := ⟨by decide, by decide⟩
  have h12 : (12 : ℤ) ∈ blockHeights := ⟨by decide, by decide⟩
  exact ⟨hRight, hChild,
    hScripts _ _ _ _ _ _ _ _ _ _ 11 h11 12 h12 hRight hChild (by decide),
    hFree 11 h11 12 h12 (by decide)⟩

end Sample

end SocietyGold
