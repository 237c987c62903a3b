import SocietyGold.Masternode

/-!
# The masternode list

How entries are found, scored, ranked, counted and selected.  Most of these functions check
each entry first, so the list they leave differs from the one they start with.
-/

namespace SocietyGold

open Support

/-! ## The transaction of an outpoint -/

/-- What a lookup of a transaction leaves behind. -/
structure FoundTransaction where
  fFound : Bool
  tx : CTransaction
  hashBlock : ℕ

section Age

variable (env : Env) (st : ChainState)

/-- `GetTransaction`, called with a transaction object and a block hash: the pool first, then
the index, with the header of the block the record names. -/
def getTransaction (hash : ℕ) (tx : CTransaction) (hashBlock : ℕ) : FoundTransaction :=
  match st.mempool.lookup hash with
  | some tx => ⟨true, tx, hashBlock⟩
  | none =>
      let read := CTransaction.readFromDiskHash st st.txdb tx hash
      if read.success then
        match CBlock.readHeaderFromDisk st read.txindexRet.pos.nFile
            read.txindexRet.pos.nBlockPos with
        | some header => ⟨true, read.this, header.getHash env.prims⟩
        | none => ⟨true, read.this, hashBlock⟩
      else ⟨false, read.this, hashBlock⟩

/-- `GetInputAge`: how far the block of the transaction lies below the best block. -/
def getInputAge (vin : CTxIn) : Checked ℤ :=
  let found := getTransaction env st vin.prevout.hash (CTransaction.null env.adjustedTime) 0
  if found.fFound then
    match st.mapBlockIndex.lookup found.hashBlock with
    | some pindex => do
        let pindexBest ← deref (st.entry st.pindexBest)
        .ok (pindexBest.nHeight - pindex.nHeight)
    | none => .ok 0
  else .ok 0

/-- `GetMasternodeInputAge`: the age, and the entry with the age it remembers. -/
def CMasternode.getMasternodeInputAge (mn : CMasternode) : Checked (ℤ × CMasternode) :=
  match st.entry st.pindexBest with
  | none => .ok (0, mn)
  | some pindexBest => do
      let mn ←
        if mn.cacheInputAge = 0 then do
          let age ← getInputAge env st mn.vin
          .ok { mn with cacheInputAge := age, cacheInputAgeBlock := pindexBest.nHeight }
        else .ok mn
      .ok (mn.cacheInputAge + (pindexBest.nHeight - mn.cacheInputAgeBlock), mn)

end Age

/-! ## Scores -/

section Score

variable (prims : Primitives) (st : ChainState)

/-- The loop of `GetBlockHash` down the chain, with the number of rounds so far. -/
def blockHashBelow (nBlocksAgo : ℤ) : List CBlockIndex → (n : ℕ) → Option ℕ
  | [], _ => none
  | blockReading :: rest, n =>
      if blockReading.nHeight > 0 then
        if n ≥ nBlocksAgo then some blockReading.phashBlock
        else blockHashBelow nBlocksAgo rest (n + 1)
      else none

/-- The value of a 64-bit integer after its conversion to `int`. -/
def wrap32 (z : ℤ) : ℤ := z.bmod (2 ^ 32)

/-- `GetBlockHash` with the cache of the hashes it has found. -/
def getBlockHash (cache : Table ℤ ℕ) (nBlockHeight : ℤ) : Checked (Option ℕ × Table ℤ ℕ) :=
  match st.entry st.pindexBest with
  | none => .ok (none, cache)
  | some pindexBest =>
      let nBlockHeight := if nBlockHeight = 0 then pindexBest.nHeight else nBlockHeight
      match cache.lookup nBlockHeight with
      | some hash => .ok (some hash, cache)
      | none =>
          if pindexBest.nHeight = 0 ∨ pindexBest.nHeight + 1 < nBlockHeight then
            .ok (none, cache)
          else do
            let nBlocksAgo := if nBlockHeight > 0 then pindexBest.nHeight + 1 - nBlockHeight else 0
            assertThat (decide (nBlocksAgo ≥ 0))
            match blockHashBelow nBlocksAgo (st.chainFrom pindexBest) 0 with
            | some hash => .ok (some hash, cache.insert nBlockHeight hash)
            | none => .ok (none, cache)

/-- `CalculateScore`; its first parameter is not used. -/
def CMasternode.calculateScore (mn : CMasternode) (cache : Table ℤ ℕ) (nBlockHeight : ℤ) :
    Checked (ℕ × Table ℤ ℕ) :=
  match st.entry st.pindexBest with
  | none => .ok (0, cache)
  | some _ => do
      let aux := (mn.vin.prevout.hash + mn.vin.prevout.n) % 2 ^ 256
      let (found, cache) ← getBlockHash st cache (wrap32 nBlockHeight)
      match found with
      | none => .ok (0, cache)
      | some hash =>
          let hash2 := prims.hash (toBytesLE 32 hash)
          let hash3 := prims.hash (toBytesLE 32 hash ++ toBytesLE 32 aux)
          .ok (if hash3 > hash2 then hash3 - hash2 else hash2 - hash3, cache)

/-- The part of a score that takes part in the election, its low 32 bits. -/
def CMasternode.shortScore (mn : CMasternode) (cache : Table ℤ ℕ) (nBlockHeight : ℤ) :
    Checked (ℕ × Table ℤ ℕ) := do
  let (n, cache) ← mn.calculateScore prims st cache nBlockHeight
  .ok (n % 2 ^ 32, cache)

end Score

/-! ## Finding -/

namespace CMasternodeMan

/-- `Find(vin)`: the index of the first entry with the outpoint. -/
def findIdx (vMasternodes : List CMasternode) (vin : CTxIn) : Option ℕ :=
  vMasternodes.findIdx? fun mn => mn.vin.prevout = vin.prevout

/-- `Add`: only an entry whose outpoint is not in the list is added, as a copy. -/
def add (adjustedTime : ℕ) (vMasternodes : List CMasternode) (mn : CMasternode) :
    Bool × List CMasternode :=
  match findIdx vMasternodes mn.vin with
  | none => (true, vMasternodes ++ [mn.copy adjustedTime])
  | some _ => (false, vMasternodes)

section Select

variable (env : MasternodeEnv) (st : ChainState)

/-! ## Counting -/

def MIN_MASTERNODE_PAYMENT_PROTO_VERSION_1 : ℤ := 10007

/-- The loop of `CountEnabled`. -/
def countEnabledLoop (protocolVersion : ℤ) :
    List CMasternode → (i : ℕ) → Checked (List CMasternode × ℕ)
  | [], i => .ok ([], i)
  | mn :: rest, i => do
      let mn ← mn.check env st
      let i := if mn.protocolVersion < protocolVersion ∨ !mn.isEnabled then i else i + 1
      let (rest, i) ← countEnabledLoop protocolVersion rest i
      .ok (mn :: rest, i)

/-- `CountEnabled`: the list after the checks and the number of enabled entries. -/
def countEnabled (vMasternodes : List CMasternode) (protocolVersion : ℤ) :
    Checked (List CMasternode × ℕ) :=
  countEnabledLoop env st
    (if protocolVersion = -1 then MIN_MASTERNODE_PAYMENT_PROTO_VERSION_1 else protocolVersion)
    vMasternodes 0

/-! ## The entry that waits longest -/

/-- One entry in the loop of `FindOldestNotInVec`: the entry after the checks, and whether it
may be selected. -/
def testOldest (vVins : List CTxIn) (nMinimumAge : ℤ) (mn : CMasternode) :
    Checked (CMasternode × Bool) := do
  let mn ← mn.check env st
  if !mn.isEnabled then .ok (mn, false)
  else do
    let (age, mn) ← mn.getMasternodeInputAge env.toEnv st
    if age < nMinimumAge then .ok (mn, false)
    else .ok (mn, !(vVins.any fun vin => mn.vin.prevout = vin.prevout))

/-- The loop of `FindOldestNotInVec`, with the number of entries before the rest and the entry
that has waited longest so far. -/
def findOldestLoop (vVins : List CTxIn) (nMinimumAge : ℤ) :
    List CMasternode → (pos : ℕ) → (pOldest : Option (ℕ × CMasternode)) →
      Checked (List CMasternode × Option (ℕ × CMasternode))
  | [], _, pOldest => .ok ([], pOldest)
  | mn :: rest, pos, pOldest => do
      let (mn, eligible) ← testOldest env st vVins nMinimumAge mn
      let waitsLonger :=
        match pOldest with
        | none => true
        | some (_, oldest) =>
            decide (oldest.secondsSincePayment env.adjustedTime <
              mn.secondsSincePayment env.adjustedTime)
      let pOldest := if eligible && waitsLonger then some (pos, mn) else pOldest
      let (rest, pOldest) ← findOldestLoop vVins nMinimumAge rest (pos + 1) pOldest
      .ok (mn :: rest, pOldest)

/-- `FindOldestNotInVec`: the list after the checks and the position of the selected entry. -/
def findOldestNotInVec (vMasternodes : List CMasternode) (vVins : List CTxIn)
    (nMinimumAge : ℤ) : Checked (List CMasternode × Option ℕ) := do
  let (vMasternodes, pOldest) ← findOldestLoop env st vVins nMinimumAge vMasternodes 0 none
  .ok (vMasternodes, pOldest.map Prod.fst)

/-! ## Ranks -/

/-- The loop of `GetMasternodeRank` that collects the scores. -/
def rankLoop (nBlockHeight minProtocol : ℤ) (fOnlyActive : Bool) :
    List CMasternode → (cache : Table ℤ ℕ) →
      Checked (List CMasternode × List (ℕ × CTxIn) × Table ℤ ℕ)
  | [], cache => .ok ([], [], cache)
  | mn :: rest, cache =>
      if mn.protocolVersion < minProtocol then do
        let (rest, scores, cache) ← rankLoop nBlockHeight minProtocol fOnlyActive rest cache
        .ok (mn :: rest, scores, cache)
      else do
        let mn ← if fOnlyActive then mn.check env st else .ok mn
        if fOnlyActive && !mn.isEnabled then do
          let (rest, scores, cache) ← rankLoop nBlockHeight minProtocol fOnlyActive rest cache
          .ok (mn :: rest, scores, cache)
        else do
          let (n2, cache) ← mn.shortScore env.prims st cache nBlockHeight
          let (rest, scores, cache) ← rankLoop nBlockHeight minProtocol fOnlyActive rest cache
          .ok (mn :: rest, (n2, mn.vin) :: scores, cache)

/-- The position of an input among the sorted scores, counted from one, or -1. -/
def rankOf (vin : CTxIn) (scores : List (ℕ × CTxIn)) : ℤ :=
  match scores.findIdx? fun s => s.2 = vin with
  | some i => i + 1
  | none => -1

/-- `GetMasternodeRank`: the list after the checks, the cache of block hashes and the rank. -/
def getMasternodeRank (vMasternodes : List CMasternode) (cache : Table ℤ ℕ) (vin : CTxIn)
    (nBlockHeight minProtocol : ℤ) (fOnlyActive : Bool) :
    Checked (List CMasternode × Table ℤ ℕ × ℤ) := do
  let (found, cache) ← getBlockHash st cache (wrap32 nBlockHeight)
  match found with
  | none => .ok (vMasternodes, cache, -1)
  | some _ => do
      let (vMasternodes, scores, cache) ←
        rankLoop env st nBlockHeight minProtocol fOnlyActive vMasternodes cache
      .ok (vMasternodes, cache, rankOf vin (env.scoreSort.sort scores))

end Select

end CMasternodeMan

end SocietyGold
