import SocietyGold.DarkSendSigner
import SocietyGold.MasternodeMan
import SocietyGold.RoundTrips

/-!
# Announcements of masternodes

The messages `dsee` and `dsee+` announce a masternode; the second also says what share of
its reward goes where.  Both handlers test the fields, update an entry that is in the list,
and then go on to add one, for which the signature, the owner of the collateral and the
collateral itself are examined.
-/

namespace SocietyGold

open Support

def MIN_POOL_PEER_PROTO_VERSION : ℤ := 10007

def MASTERNODE_MIN_CONFIRMATIONS : ℤ := 15

def MASTERNODE_MIN_DSEE_SECONDS : ℤ := 5 * 60

def MASTERNODE_REMOTELY_ENABLED : ℤ := 9

/-- `CTxIn()`. -/
def CTxIn.null : CTxIn := ⟨COutPoint.null, [], UINT_MAX⟩

/-- The script that `SetDestination` makes of a key id. -/
def scriptForKeyID (id : ℕ) : CScript :=
  [OP_DUP, OP_HASH160, 20] ++ toBytesLE 20 id ++ [OP_EQUALVERIFY, OP_CHECKSIG]

/-! ## Messages and state -/

/-- The fields of an announcement; the reward is in `dsee+` only. -/
structure Announcement where
  vin : CTxIn
  addr : CService
  vchSig : List UInt8
  sigTime : ℤ
  pubkey : CPubKey
  pubkey2 : CPubKey
  count : ℤ
  current : ℤ
  lastUpdated : ℤ
  protocolVersion : ℤ
  /-- `rewardAddress` and `rewardPercentage`. -/
  reward : Option (CScript × ℤ)

/-- The masternode that runs on this node. -/
structure CActiveMasternode where
  status : ℤ
  vin : CTxIn
  service : CService
  pubKeyMasternode : CPubKey

/-- What the handlers keep between messages. -/
structure AnnouncedNodes where
  vMasternodes : List CMasternode
  activeMasternode : CActiveMasternode
  MN_CTransaction_Map : Table ℕ CTransaction
  Active_Transaction_List : Table ℕ CTransaction
  pblockindexFBBHLast : Option ℕ

/-- What stays the same from message to message: the keys, how addresses and scripts are
written as texts, and the sizes of elements of vectors in memory. -/
structure AnnounceTools where
  signer : CDarkSendSigner
  serviceToString : CService → List UInt8
  scriptToString : CScript → List UInt8
  sizes : ElementSizes
  fLiteMode : Bool
  fMasterNode : Bool

/-- What a handler meets when a message arrives: the chain, the peer's height, whether
`cs_main` is free, and whether connections to the announced node succeed. -/
structure AnnounceContext where
  env : MasternodeEnv
  st : ChainState
  fBlockchainSynced : Bool
  nStartingHeight : ℤ
  lockMain : Bool
  checkNode : ℕ → Bool

/-! ## The text and the tests of the fields -/

section Fields

variable (tools : AnnounceTools)

/-- The text of the fields that both messages have. -/
def announcementText (addr : CService) (sigTime : ℤ) (pubkey pubkey2 : CPubKey)
    (protocolVersion : ℤ) : List UInt8 :=
  tools.serviceToString addr ++ lexicalCast sigTime ++ pubkey.vch ++ pubkey2.vch ++
    lexicalCast protocolVersion

/-- The text that is signed. -/
def Announcement.strMessage (msg : Announcement) : List UInt8 :=
  announcementText tools msg.addr msg.sigTime msg.pubkey msg.pubkey2 msg.protocolVersion ++
    match msg.reward with
    | none => []
    | some (rewardAddress, rewardPercentage) =>
        tools.scriptToString rewardAddress ++ lexicalCast rewardPercentage

/-- Is one of the fields refused? -/
def Announcement.malformed (adjustedTime : ℕ) (msg : Announcement) : Bool :=
  msg.sigTime < 1511159400 || msg.sigTime > msg.lastUpdated || msg.addr.port = 0 ||
    msg.sigTime > adjustedTime + 60 * 60 ||
    (match msg.reward with
      | none => false
      | some (_, rewardPercentage) => rewardPercentage < 0 || rewardPercentage > 100) ||
    msg.protocolVersion < MIN_POOL_PEER_PROTO_VERSION ||
    (scriptForKeyID (msg.pubkey.getID tools.signer.prims)).length ≠ 25 ||
    (scriptForKeyID (msg.pubkey2.getID tools.signer.prims)).length ≠ 25 ||
    msg.vin.scriptSig ≠ []

end Fields

/-! ## Looking for the collateral -/

section Lookup

variable (tools : AnnounceTools) (ctx : AnnounceContext)

/-- `CBlock::ReadFromDisk(pindex)` with all transactions. -/
def readBlock (pindex : CBlockIndex) : Option CBlock := do
  let file ← ctx.st.openBlockFile pindex.nFile
  let (block, _) ← CBlock.unserialize tools.sizes (fileFrom file pindex.nBlockPos)
  if block.isProofOfWork &&
      !(checkProofOfWork ctx.env.toEnv (block.getPoWHash ctx.env.prims) block.nBits).isOk then none
  else if block.getHash ctx.env.prims ≠ pindex.phashBlock then none
  else some block

/-- The search of `Get_MN_Transaction` through the blocks outside of the main chain. -/
def findInForks (hash : ℕ) : List (ℕ × CBlockIndex) → Option (CTransaction × ℕ)
  | [] => none
  | (key, pindex) :: rest =>
      if ctx.st.pindexBest = some key || pindex.pnext ≠ none then findInForks hash rest
      else
        match readBlock tools ctx pindex with
        | none => findInForks hash rest
        | some block =>
            match block.vtx.find? fun tx => tx.getHash ctx.env.prims = hash with
            | some tx => some (tx, block.getHash ctx.env.prims)
            | none => findInForks hash rest

/-- `Get_MN_Transaction`, with the list of the transactions it has found in blocks.  A hit
in that list leaves the transaction object as it is. -/
def get_MN_Transaction (listed : Table ℕ CTransaction) (hash : ℕ) (tx : CTransaction)
    (hashBlock : ℕ) : FoundTransaction × Table ℕ CTransaction :=
  match ctx.st.mempool.lookup hash with
  | some tx => (⟨true, tx, hashBlock⟩, listed)
  | none =>
      let read := CTransaction.readFromDiskHash ctx.st ctx.st.txdb tx hash
      if read.success then
        match CBlock.readHeaderFromDisk ctx.st read.txindexRet.pos.nFile
            read.txindexRet.pos.nBlockPos with
        | some header => (⟨true, read.this, header.getHash ctx.env.prims⟩, listed)
        | none => (⟨true, read.this, hashBlock⟩, listed)
      else if listed.inKeyOrder.any fun entry => entry.2.getHash ctx.env.prims = hash then
        (⟨true, read.this, hash⟩, listed)
      else
        match findInForks tools ctx hash ctx.st.mapBlockIndex.inKeyOrder with
        | some (tx, hashBlock) =>
            (⟨true, tx, hashBlock⟩,
              if hashBlock ∈ listed then listed else listed.insert hashBlock tx)
        | none => (⟨false, read.this, hashBlock⟩, listed)

/-- The loop of `IsVinAssociatedWithPubkey` over the outputs. -/
def paysCollateralTo (payee2 : CScript) : List CTxOut → Checked Bool
  | [] => .ok false
  | out :: rest => do
      let pindexBest ← deref (ctx.st.entry ctx.st.pindexBest)
      if out.nValue = getMNCollateral pindexBest.nHeight * COIN && out.scriptPubKey = payee2 then
        .ok true
      else paysCollateralTo payee2 rest

/-- `IsVinAssociatedWithPubkey`: the answer is the same for all. -/
def isVinAssociatedWithPubkey (listed : Table ℕ CTransaction) (vin : CTxIn) (pubkey : CPubKey) :
    Checked (Bool × Table ℕ CTransaction) := do
  let payee2 := scriptForKeyID (pubkey.getID tools.signer.prims)
  let (found, listed) := get_MN_Transaction tools ctx listed vin.prevout.hash
    (CTransaction.null ctx.env.adjustedTime) 0
  if found.fFound then do
    let paid ← paysCollateralTo ctx payee2 found.tx.vout
    if paid then .ok (true, listed)
    else .ok (true, listed)
  else .ok (true, listed)

end Lookup

/-! ## The block of the last confirmation -/

section Walk

variable (st : ChainState)

/-- `while (pblockindex->nHeight > nHeight) pblockindex = pblockindex->pprev`. -/
def walkDown (nHeight : ℤ) : (fuel : ℕ) → CBlockIndex → Checked CBlockIndex
  | 0, _ => .error .diverges
  | fuel + 1, pblockindex =>
      if pblockindex.nHeight > nHeight then do
        let pprev ← deref (st.entry pblockindex.pprev)
        walkDown nHeight fuel pprev
      else .ok pblockindex

/-- `while (pblockindex->nHeight < nHeight) pblockindex = pblockindex->pnext`. -/
def walkUp (nHeight : ℤ) : (fuel : ℕ) → CBlockIndex → Checked CBlockIndex
  | 0, _ => .error .diverges
  | fuel + 1, pblockindex =>
      if pblockindex.nHeight < nHeight then do
        let pnext ← deref (st.entry pblockindex.pnext)
        walkUp nHeight fuel pnext
      else .ok pblockindex

/-- `FindBlockByHeight`, from the genesis block, the best one or the one found last. -/
def findBlockByHeight (last : Option ℕ) (nHeight : ℤ) : Checked CBlockIndex := do
  let pblockindex ← deref (st.entry
    (if nHeight < st.nBestHeight.tdiv 2 then st.pindexGenesisBlock else st.pindexBest))
  let pblockindex :=
    match st.entry last with
    | none => pblockindex
    | some pblockindexLast =>
        if (nHeight - pblockindex.nHeight).natAbs > (nHeight - pblockindexLast.nHeight).natAbs then
          pblockindexLast
        else pblockindex
  -- a walk that is longer than the index has entries goes round in circles
  let fuel := st.mapBlockIndex.entries.length + 1
  let pblockindex ← walkDown st nHeight fuel pblockindex
  walkUp st nHeight fuel pblockindex

end Walk

/-! ## The steps of the handlers -/

section Handler

variable (tools : AnnounceTools) (ctx : AnnounceContext) (msg : Announcement)

/-- Does the handler leave before it looks at the message? -/
def ignoresMessages : Checked Bool :=
  if tools.fLiteMode then .ok true
  else if ctx.fBlockchainSynced then .ok false
  else do
    let _ ← deref (ctx.st.entry ctx.st.pindexBest)
    .ok (decide (¬ctx.st.nBestHeight + 20 > ctx.nStartingHeight))

/-- The newer data of a known masternode. -/
def renewed (mn : CMasternode) : CMasternode :=
  let mn := { mn with
    isPortOpen := match msg.reward with
      | none => ctx.checkNode 0
      | some _ => true
    pubkey2 := msg.pubkey2
    sigTime := msg.sigTime
    sig := msg.vchSig
    protocolVersion := msg.protocolVersion
    addr := msg.addr }
  match msg.reward with
  | none => mn
  | some (rewardAddress, rewardPercentage) =>
      { mn with rewardAddress := rewardAddress, rewardPercentage := rewardPercentage }

/-- The update of a known masternode. -/
def updateKnown (mn : CMasternode) : Checked CMasternode := do
  if msg.count = -1 && mn.pubkey = msg.pubkey &&
      !mn.updatedWithin ctx.env.adjustedTime MASTERNODE_MIN_DSEE_SECONDS then do
    let mn := mn.updateLastSeen ctx.env.adjustedTime 0
    if mn.sigTime < msg.sigTime then do
      let mn ← (renewed ctx msg mn).check ctx.env ctx.st
      .ok { mn with isOldNode := msg.reward.isNone }
    else .ok mn
  else .ok mn

/-- The announcement is that of the node itself, which has no input yet. -/
def announcesItself (active : CActiveMasternode) : Bool :=
  tools.fMasterNode && active.vin = CTxIn.null && msg.pubkey2 = active.pubKeyMasternode

/-- The part of the handlers for a masternode in the list. -/
def updateList (active : CActiveMasternode) (vMasternodes : List CMasternode) :
    Checked (List CMasternode) :=
  match CMasternodeMan.findIdx vMasternodes msg.vin with
  | none => .ok vMasternodes
  | some pos =>
      if announcesItself tools msg active then .ok vMasternodes
      else do
        let pmn ← elementAt vMasternodes pos
        let mn ← updateKnown ctx msg pmn
        .ok (vMasternodes.set pos mn)

/-- The transaction that would spend the announced collateral; `dsee` takes one coin off. -/
def announcedSpend (pindexBest : CBlockIndex) : CTransaction :=
  { CTransaction.null ctx.env.adjustedTime with
    vin := [msg.vin]
    vout := [⟨(getMNCollateral pindexBest.nHeight - if msg.reward.isNone then 1 else 0) * COIN,
      ctx.env.collateralPubKey⟩] }

/-- The two lookups of `dsee` for the table of collaterals.  The second can only write an
entry that is there already. -/
def recordLooked (pindexBest : CBlockIndex) (recorded : Table ℕ CTransaction) :
    Table ℕ CTransaction :=
  let hash := msg.vin.prevout.hash
  let found :=
    getTransaction ctx.env.toEnv ctx.st hash (announcedSpend ctx msg pindexBest) 0
  let recorded :=
    if recorded.entries.length = 0 && !found.fFound then recorded.touch hash found.tx
    else recorded
  if hash ∈ recorded && !found.fFound then recorded.touch hash found.tx else recorded

/-- The two lookups of `dsee+`; the handler leaves when the table is empty and nothing is
found. -/
def recordFound (recorded listed : Table ℕ CTransaction) :
    Option (Table ℕ CTransaction × Table ℕ CTransaction) := do
  let hash := msg.vin.prevout.hash
  let check_tx := CTransaction.null ctx.env.adjustedTime
  let (recorded, listed, check_tx) ←
    if recorded.entries.length = 0 then
      let (found, listed) := get_MN_Transaction tools ctx listed hash check_tx 0
      if found.fFound then some (recorded.touch hash found.tx, listed, found.tx) else none
    else some (recorded, listed, check_tx)
  if hash ∈ recorded then
    let (found, listed) := get_MN_Transaction tools ctx listed hash check_tx 0
    some (if found.fFound then recorded else recorded.touch hash found.tx, listed)
  else some (recorded, listed)

/-- The table of collaterals and the list of found transactions, if the handler goes on. -/
def recordCollateral (node : AnnouncedNodes) :
    Checked (Option (Table ℕ CTransaction × Table ℕ CTransaction)) :=
  if msg.reward.isNone then do
    let pindexBest ← deref (ctx.st.entry ctx.st.pindexBest)
    .ok (some (recordLooked ctx msg pindexBest node.MN_CTransaction_Map,
      node.Active_Transaction_List))
  else .ok (recordFound tools ctx msg node.MN_CTransaction_Map node.Active_Transaction_List)

/-- Is the collateral accepted?  The statement that is to depend on a refusal follows an
empty one, so it is always executed, and it looks at the value of the spending transaction
itself. -/
def acceptsAnnounced : Checked Bool := do
  let pindexBest ← deref (ctx.st.entry ctx.st.pindexBest)
  let tx := announcedSpend ctx msg pindexBest
  let fAcceptable ← acceptableInputs ctx.env.toRelayEnv ctx.st tx false false false
  match msg.reward with
  | none => do
      let fAcceptable := fAcceptable || tx.vout.any fun out => out.nValue ≥ 149999
      let out ← elementAt tx.vout 0
      .ok (fAcceptable || decide (out.nValue > 149999))
  | some _ => .ok (fAcceptable || tx.vout.any fun out => out.nValue > 149990)

/-- Was the announcement signed before the collateral had enough confirmations?  Only
`dsee+` leaves then. -/
def signedTooEarly (node : AnnouncedNodes) : Checked (Bool × AnnouncedNodes) := do
  let pindexBest ← deref (ctx.st.entry ctx.st.pindexBest)
  let tx := announcedSpend ctx msg pindexBest
  let (found, listed) :=
    if msg.reward.isNone then
      (getTransaction ctx.env.toEnv ctx.st msg.vin.prevout.hash tx 0,
        node.Active_Transaction_List)
    else get_MN_Transaction tools ctx node.Active_Transaction_List msg.vin.prevout.hash tx 0
  let node := { node with Active_Transaction_List := listed }
  match ctx.st.mapBlockIndex.lookup found.hashBlock with
  | none => .ok (false, node)
  | some pMNIndex => do
      let pConfIndex ← findBlockByHeight ctx.st node.pblockindexFBBHLast
        (pMNIndex.nHeight + MASTERNODE_MIN_CONFIRMATIONS - 1)
      .ok (decide ((pConfIndex.nTime : ℤ) > msg.sigTime) && msg.reward.isSome,
        { node with pblockindexFBBHLast := some pConfIndex.phashBlock })

/-- The constructor of an entry.  It leaves the time of the last payment open, which the copy
into the list sets. -/
def newMasternode (rewardAddress : CScript) (rewardPercentage : ℤ) : CMasternode where
  vin := msg.vin
  addr := msg.addr
  pubkey := msg.pubkey
  pubkey2 := msg.pubkey2
  sig := msg.vchSig
  activeState := MASTERNODE_ENABLED
  sigTime := msg.sigTime
  lastDseep := 0
  lastTimeSeen := 0
  cacheInputAge := 0
  cacheInputAgeBlock := 0
  unitTest := false
  allowFreeTx := true
  protocolVersion := msg.protocolVersion
  nLastDsq := 0
  rewardAddress := rewardAddress
  rewardPercentage := rewardPercentage
  nVote := 0
  lastVote := 0
  nScanningErrorCount := 0
  nLastScanningErrorBlockHeight := 0
  nLastPaid := 0
  isPortOpen := true
  isOldNode := true

/-- The entry that is added; a reward to a script is dropped. -/
def announcedEntry : CMasternode :=
  let mn :=
    match msg.reward with
    | none => newMasternode msg [] 0
    | some (rewardAddress, rewardPercentage) =>
        if CScript.isPayToScriptHash rewardAddress then newMasternode msg [] 0
        else newMasternode msg rewardAddress rewardPercentage
  let mn := mn.updateLastSeen ctx.env.adjustedTime msg.lastUpdated
  let mn :=
    match msg.reward with
    | none => if ctx.checkNode 1 then mn else mn.changePortStatus false
    | some _ => mn.changePortStatus true
  mn.changeNodeStatus true

/-- `EnableHotColdMasterNode`. -/
def enableHotColdMasterNode (active : CActiveMasternode) : CActiveMasternode :=
  if tools.fMasterNode then
    { active with
      status := MASTERNODE_REMOTELY_ENABLED
      vin := msg.vin
      service := msg.addr }
  else active

/-- The end of the handlers: add the entry, and start this node when it is announced. -/
def addAnnounced (node : AnnouncedNodes) : AnnouncedNodes :=
  { node with
    vMasternodes :=
      (CMasternodeMan.add ctx.env.adjustedTime node.vMasternodes (announcedEntry ctx msg)).2
    activeMasternode :=
      if msg.pubkey2 = node.activeMasternode.pubKeyMasternode &&
          msg.protocolVersion = PROTOCOL_VERSION then
        enableHotColdMasterNode tools msg node.activeMasternode
      else node.activeMasternode }

/-- The handlers after the tests of the message itself. -/
def examine (node : AnnouncedNodes) : Checked AnnouncedNodes := do
  let (associated, listed) ← isVinAssociatedWithPubkey tools ctx node.Active_Transaction_List
    msg.vin msg.pubkey
  let node := { node with Active_Transaction_List := listed }
  if !associated then .ok node
  else do
    let recorded ← recordCollateral tools ctx msg node
    match recorded with
    | none => .ok node
    | some (recorded, listed) => do
        let node := { node with
          MN_CTransaction_Map := recorded
          Active_Transaction_List := listed }
        if !ctx.lockMain then .ok node
        else do
          let fAcceptable ← acceptsAnnounced ctx msg
          if !fAcceptable then .ok node
          else do
            -- the age of the input is computed for a log line
            let _ ← getInputAge ctx.env.toEnv ctx.st msg.vin
            let (early, node) ← signedTooEarly tools ctx msg node
            if early then .ok node else .ok (addAnnounced tools ctx msg node)

/-- `ProcessMessage` for `dsee` and `dsee+`. -/
def processAnnouncement (node : AnnouncedNodes) : Checked AnnouncedNodes := do
  let ignored ← ignoresMessages tools ctx
  if ignored then .ok node
  else if msg.malformed tools ctx.env.adjustedTime then .ok node
  else if !(tools.signer.verifyMessage msg.pubkey msg.vchSig (msg.strMessage tools)).1 then
    .ok node
  else do
    let vMasternodes ← updateList tools ctx msg node.activeMasternode node.vMasternodes
    examine tools ctx msg { node with vMasternodes := vMasternodes }

end Handler

end SocietyGold
