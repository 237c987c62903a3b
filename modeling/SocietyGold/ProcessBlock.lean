import SocietyGold.AcceptBlock

/-!
# Received blocks

`ProcessBlock` stores a received block in the array `Block_Checker`, and when enough
blocks have come in it calls `AcceptBlock` for those that extend the tip.

The function returns in every branch of its second phase.  What stands after that in
the source (the rule for duplicate stakes, the tests of the block signature and
`CheckBlock`) is never reached and left out.
-/

namespace SocietyGold

open Support

def MAXIMUM_ARRAY_OF_BLOCKS : ℕ := 30

def SYNCH_BLOCK_BUFFER_SIZE : ℕ := 3

def BLOCKER_END_OF_BUFFER : ℕ := MAXIMUM_ARRAY_OF_BLOCKS - 1

/-- Entries of `marked_blocks_for_processing`, which is filled from the second on. -/
def maxMarkedBlocks : ℕ := 25

/-! ## The array of received blocks -/

/-- `blank_block`. -/
def CBlock.blank : CBlock where
  nVersion := CBlock.CURRENT_VERSION
  hashPrevBlock := 0
  hashMerkleRoot := 0
  nTime := 0
  nBits := 0
  nNonce := 0
  vtx := []
  vchBlockSig := []

/-- A slot is blank if it has no previous block. -/
def CBlock.isBlank (block : CBlock) : Bool := block.hashPrevBlock = 0

/-- `Block_Checker`. -/
structure BlockChecker where
  slots : List CBlock
  length_slots : slots.length = MAXIMUM_ARRAY_OF_BLOCKS

namespace BlockChecker

def blank : BlockChecker where
  slots := List.replicate MAXIMUM_ARRAY_OF_BLOCKS CBlock.blank
  length_slots := List.length_replicate

variable (checker : BlockChecker)

def slot (i : ℕ) : CBlock := checker.slots.getD i CBlock.blank

def put (i : ℕ) (block : CBlock) : BlockChecker where
  slots := checker.slots.set i block
  length_slots := by rw [List.length_set, checker.length_slots]

/-- Apply a function to the first slots. -/
def mapFirst (size : ℕ) (f : CBlock → CBlock) : BlockChecker where
  slots := (checker.slots.take size).map f ++ checker.slots.drop size
  length_slots := by
    rw [List.length_append, List.length_map, ← List.length_append, List.take_append_drop,
      checker.length_slots]

/-- The first blank slot. -/
def firstBlank (size : ℕ) : Option ℕ := (checker.slots.take size).findIdx? CBlock.isBlank

end BlockChecker

/-! ## The node -/

/-- The chain state with the variables of `ProcessBlock`. -/
structure Node where
  chain : ChainState
  blockChecker : BlockChecker
  /-- `Block_Checker_Array` is `INITIALISED`. -/
  blockCheckerArray : Bool
  bufferEntries : ℕ
  synchCheck : ℕ
  lastKnownBlockHeight : ℤ
  /-- The block of the last block message. -/
  blockToCheck : CBlock

/-- A call of `AcceptBlock`, with the states around it. -/
structure Attempt where
  block : CBlock
  before : ChainState
  after : ChainState

/-- What `ProcessBlock` returns; one branch returns without a value. -/
abbrev ReturnValue := Option Bool

namespace Node

def initBuffer (node : Node) : Node :=
  if node.blockCheckerArray then node
  else
    { node with
      blockChecker := BlockChecker.blank
      bufferEntries := 0
      blockCheckerArray := true }

/-- Give up the blocks in the array at the next call. -/
def resetBuffer (node : Node) : Node :=
  { node with
    bufferEntries := 0
    blockCheckerArray := false }

/-- `One_Block_Mode`: the node is close to the height of its peers. -/
def oneBlockMode (node : Node) : Bool :=
  node.chain.nBestHeight + 20 > node.lastKnownBlockHeight

def synchModeBufferSize (node : Node) : ℕ :=
  if node.oneBlockMode then SYNCH_BLOCK_BUFFER_SIZE else MAXIMUM_ARRAY_OF_BLOCKS

/-- Store the last received block in a blank slot. -/
def storeReceived (node : Node) (size : ℕ) : Node :=
  match node.blockChecker.firstBlank size with
  | none => node
  | some i =>
      { node with
        blockChecker := node.blockChecker.put i node.blockToCheck
        bufferEntries := node.bufferEntries + 1 }

/-- The value returned while more blocks are awaited. -/
def waits (node : Node) (env : Env) (pindexBest : CBlockIndex) (size : ℕ) : Option ReturnValue :=
  let blockSynchedTime := ((env.time : ℤ) - pindexBest.nTime) % 2 ^ 64
  if blockSynchedTime > 240 ∧ node.oneBlockMode = false then
    if node.bufferEntries < BLOCKER_END_OF_BUFFER then some none else none
  else if node.bufferEntries < size - 1 then some (some true)
  else none

end Node

/-! ## Scanning the array -/

/-- The time of a block is too far from that of the best block. -/
def timeTooFar (pindexBest : CBlockIndex) (block : CBlock) : Bool :=
  decide (((block.nTime : ℤ) - pindexBest.nTime) % 2 ^ 32 > 10000000) &&
    !decide (((pindexBest.nTime : ℤ) - block.nTime) % 2 ^ 32 < 1000)

/-- What the scan leaves in a slot. -/
def scanSlot (pindexBest : CBlockIndex) (block : CBlock) : CBlock :=
  if block.nTime = 0 || timeTooFar pindexBest block || block.isBlank then CBlock.blank else block

/-- The keys of `Match_Block_Map`: the blocks that extend the best block. -/
def matchBlockMap (prims : Primitives) (pindexBest : CBlockIndex) (slots : List CBlock) :
    List ℕ :=
  let matching := slots.filter fun block =>
    !block.isBlank && decide (block.hashPrevBlock = pindexBest.phashBlock)
  (matching.map (CBlock.getHash prims)).dedup

/-- Of several matches, blank the slots whose block is late. -/
def blankIfLate (pindexBest : CBlockIndex) (block : CBlock) : CBlock :=
  if block.nTime > (pindexBest.nTime + 1000) % 2 ^ 32 then CBlock.blank else block

/-- No block extends the tip.  The loop over the block index does not advance on an
entry that is higher than the tip. -/
def processNoMatch (node : Node) (pindexBest : CBlockIndex) : Checked Node :=
  let entries := node.chain.mapBlockIndex.entries
  if (entries.length : ℤ) > pindexBest.nHeight ∧
      entries.any fun entry => entry.2.nHeight > pindexBest.nHeight then
    .error .diverges
  else
    let node := { node with synchCheck := node.synchCheck + 1 }
    if node.synchCheck > MAXIMUM_ARRAY_OF_BLOCKS then do
      let previousIndex ← deref (node.chain.entry pindexBest.pprev)
      let _ ← deref (node.chain.entry previousIndex.pprev)
      .ok { node with
        blockCheckerArray := false
        synchCheck := 0 }
    else .ok node

/-- The loop over the array.  A block that `AcceptBlock` refuses is tried again until
the loop has run once more than there are entries. -/
def processLoop (env : Env) (size : ℕ) :
    (remaining : ℕ) → (blocksProcessed : ℕ) → Node → Checked (List Attempt × Node)
  | 0, _, node => .ok ([], node.resetBuffer)
  | remaining + 1, blocksProcessed, node =>
      if blocksProcessed = size then .ok ([], node.resetBuffer)
      else do
        let pindexBest ← deref (node.chain.entry node.chain.pindexBest)
        let block := node.blockChecker.slot blocksProcessed
        if !block.isBlank && decide (pindexBest.phashBlock = block.hashPrevBlock) then do
          let (verdict, chain) ← acceptBlock env true node.chain block
          let attempt := ⟨block, node.chain, chain⟩
          let node := { node with chain := chain }
          match verdict with
          | .ok _ => do
              let node := { node with
                blockChecker := node.blockChecker.put blocksProcessed CBlock.blank }
              let (attempts, node) ← processLoop env size remaining (blocksProcessed + 1) node
              .ok (attempt :: attempts, node)
          | .error _ => do
              let (attempts, node) ← processLoop env size remaining blocksProcessed node
              .ok (attempt :: attempts, node)
        else processLoop env size remaining (blocksProcessed + 1) node

/-- The second phase of `ProcessBlock`. -/
def processBuffer (env : Env) (node : Node) (pindexBest : CBlockIndex) (size : ℕ) :
    Checked (ReturnValue × List Attempt × Node) :=
  let node := { node with
    blockChecker := node.blockChecker.mapFirst size (scanSlot pindexBest) }
  let blockMatches :=
    (matchBlockMap env.prims pindexBest (node.blockChecker.slots.take size)).length
  if blockMatches ≥ maxMarkedBlocks then .error .outOfRange
  else if blockMatches = 0 ∧ pindexBest.nHeight > 1000 then do
    let node ← processNoMatch node pindexBest
    .ok (some true, [], node)
  else if blockMatches > 1 then
    .ok (some true, [],
      { node with
        blockChecker := node.blockChecker.mapFirst blockMatches (blankIfLate pindexBest) })
  else do
    let (attempts, node) ← processLoop env size (node.bufferEntries + 1) 0 node
    .ok (some true, attempts, node)

/-- `ProcessBlock`.  Asking the sending node for blocks reads its address, which is
null for a block of this node. -/
def processBlock (env : Env) (fromNode : Bool) (node : Node) (pblock : CBlock) :
    Checked (ReturnValue × List Attempt × Node) :=
  if pblock.getHash env.prims ∈ node.chain.mapBlockIndex then .ok (some false, [], node)
  else if env.fRequestShutdown then .ok (some false, [], node)
  else do
    let pindexBest ← deref (node.chain.entry node.chain.pindexBest)
    let node := node.initBuffer
    pushGetBlocks fromNode
    let size := node.synchModeBufferSize
    if node.bufferEntries < size then
      let node := node.storeReceived size
      match node.waits env pindexBest size with
      | some value => .ok (value, [], node)
      | none => processBuffer env node pindexBest size
    else processBuffer env node pindexBest size

end SocietyGold
