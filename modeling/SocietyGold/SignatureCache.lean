import SocietyGold.CheckSig
import SocietyGold.Inputs
import SocietyGold.Support.RandomEviction
import Mathlib.Data.Prod.Lex
import Mathlib.Data.List.Lex

/-!
# The signature cache

`CheckSig` keeps the triples of hash, signature and key that it has verified in an ordered
set, from which random entries are dropped before it grows beyond a size.  Only verified
triples are ever stored, and a triple holds everything that verification depends on: what
is found in the cache would be verified again.
-/

namespace SocietyGold

open Support

/-! ## Entries and their order -/

/-- `sigdata_type`: signature hash, signature and public key. -/
structure SigData where
  hash : ℕ
  vchSig : Valtype
  pubkey : CPubKey
  deriving DecidableEq

/-- The first byte in memory, which is 0xFF for an invalid key. -/
def CPubKey.firstByte (pubkey : CPubKey) : ℕ := (pubkey.vch.map UInt8.toNat).headD 0xFF

namespace SigData

/-- The parts that are compared, one after the other. -/
def orderKey (k : SigData) : ℕ ×ₗ List ℕ ×ₗ ℕ ×ₗ List ℕ :=
  toLex (k.hash, toLex (k.vchSig.map UInt8.toNat,
    toLex (k.pubkey.firstByte, k.pubkey.vch.map UInt8.toNat)))

theorem map_toNat_injective : Function.Injective (List.map UInt8.toNat) :=
  List.map_injective_iff.mpr fun _ _ h => UInt8.toNat_inj.mp h

theorem orderKey_injective : Function.Injective orderKey := by
  rintro ⟨hash, vchSig, ⟨vch, hLength⟩⟩ ⟨hash', vchSig', ⟨vch', hLength'⟩⟩ h
  simp only [orderKey, EmbeddingLike.apply_eq_iff_eq, Prod.mk.injEq] at h
  obtain ⟨rfl, hSig, -, hKey⟩ := h
  obtain rfl := map_toNat_injective hSig
  obtain rfl := map_toNat_injective hKey
  rfl

instance : LinearOrder SigData := LinearOrder.lift' orderKey orderKey_injective

end SigData

/-! ## The cache -/

namespace SigCache

/-- `Get`: entries that are equivalent for the order are equal. -/
def get (setValid : Finset SigData) (k : SigData) : Bool := k ∈ setValid

/-- The entry that is looked for to make room. -/
def randomKey (randomHash : ℕ) : SigData := ⟨randomHash, [], CPubKey.ofBytes []⟩

/-- `Set`, with the hashes that are drawn for it.  There is no result if the loop does not
end within one round for each entry and a last one. -/
def set (nMaxCacheSize : ℤ) (randomHashes : ℕ → ℕ) (setValid : Finset SigData) (k : SigData) :
    Option (Finset SigData) :=
  if nMaxCacheSize ≤ 0 then some setValid
  else
    (runLoop (evictRound (fun i => randomKey (randomHashes i)) nMaxCacheSize)
      (setValid.card + 1) (setValid, 0)).map fun left => insert k left.1

/-- Whatever is drawn, `Set` returns; it adds at most the entry, and not beyond the size. -/
theorem set_spec
    (nMaxCacheSize : ℤ) (randomHashes : ℕ → ℕ) (setValid : Finset SigData) (k : SigData) :
    ∃ left, set nMaxCacheSize randomHashes setValid k = some left ∧
      left ⊆ insert k setValid ∧
      (left = setValid ∨ (left.card : ℤ) ≤ nMaxCacheSize + 1) := by
  unfold set
  by_cases hNone : nMaxCacheSize ≤ 0
  · rw [if_pos hNone]
    exact ⟨setValid, rfl, Finset.subset_insert k setValid, Or.inl rfl⟩
  · rw [if_neg hNone]
    obtain ⟨left, i, hRun, hSubset, hRoom⟩ :=
      runLoop_evictRound (fun i => randomKey (randomHashes i)) (not_le.mp hNone).le setValid 0
        (Nat.lt_succ_self _)
    rw [hRun]
    refine ⟨insert k left, rfl, Finset.insert_subset_insert k hSubset, Or.inr ?_⟩
    have hInsert := Finset.card_insert_le k left
    omega

end SigCache

/-! ## Checks -/

/-- A call of `CheckSig`, with the size that is configured and the hashes that are drawn. -/
structure CheckSigCall where
  vchSig : Valtype
  vchPubKey : Valtype
  scriptCode : CScript
  txTo : CTransaction
  nIn : ℕ
  nHashType : ℤ
  flags : ℕ
  nMaxCacheSize : ℤ
  randomHashes : ℕ → ℕ

namespace CheckSigCall

variable (P : ScriptPrimitives) (call : CheckSigCall)

/-- The end of `CheckSig`: what is not found is verified, and stored unless a flag forbids
it. -/
def checkEntry (k : SigData) (setValid : Finset SigData) : Option (Bool × Finset SigData) :=
  if SigCache.get setValid k then some (true, setValid)
  else if !P.verifyKey k.pubkey.vch k.hash k.vchSig then some (false, setValid)
  else if hasFlag call.flags SCRIPT_VERIFY_NOCACHE then some (true, setValid)
  else
    (SigCache.set call.nMaxCacheSize call.randomHashes setValid k).map fun left => (true, left)

/-- `CheckSig`: its result and the cache afterwards. -/
def checkSig (setValid : Finset SigData) : Option (Bool × Finset SigData) :=
  let pubkey := CPubKey.ofBytes call.vchPubKey
  if !pubkey.isValid then some (false, setValid)
  else
    match call.vchSig.getLast? with
    | none => some (false, setValid)
    | some b =>
        if call.nHashType ≠ 0 ∧ call.nHashType ≠ b.toNat then some (false, setValid)
        else
          let vchSig := call.vchSig.dropLast
          let sighash := signatureHash P call.scriptCode call.txTo call.nIn b.toNat
          call.checkEntry P ⟨sighash, vchSig, pubkey⟩ setValid

end CheckSigCall

/-- Calls one after the other: their results and the cache afterwards. -/
def runChecks (P : ScriptPrimitives) :
    List CheckSigCall → Finset SigData → Option (List Bool × Finset SigData)
  | [], setValid => some ([], setValid)
  | call :: calls, setValid => do
      let (result, setValid) ← call.checkSig P setValid
      let (results, setValid) ← runChecks P calls setValid
      some (result :: results, setValid)

/-! ## What the cache holds -/

/-- Every entry of the cache is a valid signature. -/
def HoldsVerified (P : ScriptPrimitives) (setValid : Finset SigData) : Prop :=
  ∀ k ∈ setValid, P.verifyKey k.pubkey.vch k.hash k.vchSig = true

/-- The result of a check that verifies the signature itself. -/
def CheckSigCall.verified (P : ScriptPrimitives) (call : CheckSigCall) : Bool :=
  SocietyGold.checkSig P CSignatureCache.empty call.vchSig call.vchPubKey call.scriptCode
    call.txTo call.nIn call.nHashType

section Checks

variable {P : ScriptPrimitives} {setValid : Finset SigData}

theorem checkEntry_spec
    (h : HoldsVerified P setValid) (call : CheckSigCall) (k : SigData) :
    ∃ left,
      call.checkEntry P k setValid = some (P.verifyKey k.pubkey.vch k.hash k.vchSig, left) ∧
        HoldsVerified P left ∧
        (left = setValid ∨ (left.card : ℤ) ≤ call.nMaxCacheSize + 1) := by
  unfold CheckSigCall.checkEntry
  by_cases hFound : SigCache.get setValid k = true
  · rw [if_pos hFound, h k (of_decide_eq_true hFound)]
    exact ⟨setValid, rfl, h, Or.inl rfl⟩
  · rw [if_neg hFound]
    cases hVerify : P.verifyKey k.pubkey.vch k.hash k.vchSig with
    | false => exact ⟨setValid, rfl, h, Or.inl rfl⟩
    | true =>
        cases hasFlag call.flags SCRIPT_VERIFY_NOCACHE with
        | true => exact ⟨setValid, rfl, h, Or.inl rfl⟩
        | false =>
            obtain ⟨left, hSet, hSubset, hCard⟩ :=
              SigCache.set_spec call.nMaxCacheSize call.randomHashes setValid k
            refine ⟨left, by rw [hSet]; rfl, ?_, hCard⟩
            intro entry hMem
            rcases Finset.mem_insert.mp (hSubset hMem) with rfl | hOld
            · exact hVerify
            · exact h entry hOld

/-- A call returns what verification returns, adds at most a valid entry, and does not let
the cache grow beyond the size. -/
theorem checkSig_spec
    (h : HoldsVerified P setValid) (call : CheckSigCall) :
    ∃ left, call.checkSig P setValid = some (call.verified P, left) ∧ HoldsVerified P left ∧
      (left = setValid ∨ (left.card : ℤ) ≤ call.nMaxCacheSize + 1) := by
  unfold CheckSigCall.checkSig CheckSigCall.verified SocietyGold.checkSig
  by_cases hKey : (CPubKey.ofBytes call.vchPubKey).isValid = true
  · simp only [hKey, Bool.not_true, Bool.false_eq_true, if_false]
    cases call.vchSig.getLast? with
    | none => exact ⟨setValid, rfl, h, Or.inl rfl⟩
    | some b =>
        by_cases hType : call.nHashType ≠ 0 ∧ call.nHashType ≠ b.toNat
        · simp only [if_pos hType]
          exact ⟨setValid, rfl, h, Or.inl rfl⟩
        · simp only [if_neg hType]
          exact checkEntry_spec h call _
  · simp only [hKey, Bool.not_false, if_true]
    exact ⟨setValid, rfl, h, Or.inl rfl⟩

/-- What one call keeps, a run keeps. -/
theorem runChecks_spec
    (h : HoldsVerified P setValid) (calls : List CheckSigCall) :
    ∃ left, runChecks P calls setValid = some (calls.map (·.verified P), left) ∧
      HoldsVerified P left ∧
      ∀ bound : ℤ, (setValid.card : ℤ) ≤ bound →
        (∀ call ∈ calls, call.nMaxCacheSize + 1 ≤ bound) → (left.card : ℤ) ≤ bound := by
  induction calls generalizing setValid with
  | nil => exact ⟨setValid, rfl, h, fun _ hCard _ => hCard⟩
  | cons call calls ih =>
      obtain ⟨next, hCall, hNext, hGrowth⟩ := checkSig_spec h call
      obtain ⟨left, hRun, hLeft, hBound⟩ := ih hNext
      refine ⟨left, ?_, hLeft, ?_⟩
      · rw [runChecks, hCall, Option.bind_eq_bind, Option.bind_some]
        dsimp only
        rw [hRun]
        rfl
      · intro bound hCard hSizes
        obtain ⟨hSize, hLater⟩ := List.forall_mem_cons.mp hSizes
        apply hBound bound ?_ hLater
        rcases hGrowth with rfl | hGrown
        · exact hCard
        · exact hGrown.trans hSize

end Checks

/-- In every sequence of calls each one returns what it returns with an empty cache, every
loop that makes room ends, and the cache stays within the size and one more entry. -/
theorem signatureCache_transparent
    (P : ScriptPrimitives) (calls : List CheckSigCall) :
    ∃ results setValid, runChecks P calls ∅ = some (results, setValid) ∧
      results.map some = calls.map (fun call => (call.checkSig P ∅).map Prod.fst) ∧
      ∀ maxsigcachesize : ℤ, (∀ call ∈ calls, call.nMaxCacheSize ≤ maxsigcachesize) →
        (setValid.card : ℤ) ≤ max maxsigcachesize 0 + 1 := by
  have hEmpty : HoldsVerified P ∅ := by
    intro k hMem
    exact absurd hMem (Finset.notMem_empty k)
  obtain ⟨setValid, hRun, -, hBound⟩ := runChecks_spec hEmpty calls
  refine ⟨calls.map (·.verified P), setValid, hRun, ?_, ?_⟩
  · rw [List.map_map]
    apply List.map_congr_left
    intro call _
    obtain ⟨left, hCall, -⟩ := checkSig_spec hEmpty call
    rw [hCall]
    rfl
  · intro maxsigcachesize hSizes
    apply hBound
    · rw [Finset.card_empty]
      have hNonneg := le_max_right maxsigcachesize 0
      omega
    · intro call hMem
      have hSize := (hSizes call hMem).trans (le_max_left _ 0)
      omega

namespace Sample

/-- A check of a signature that every key accepts, with room for one entry and one more. -/
def checkWith (b : UInt8) : CheckSigCall where
  vchSig := derSig ++ [SIGHASH_ALL]
  vchPubKey := compressedKey b
  scriptCode := []
  txTo := spending
  nIn := 0
  nHashType := 0
  flags := 0
  nMaxCacheSize := 1
  randomHashes _ := 0

end Sample

-- the bound is reached: there is room for a second entry while the size is not exceeded
example : (runChecks Sample.scriptPrims [Sample.checkWith 1, Sample.checkWith 2,
    Sample.checkWith 1] ∅).map (fun checked => (checked.1, checked.2.card)) =
      some ([true, true, true], 2) := by
  decide +kernel

end SocietyGold
