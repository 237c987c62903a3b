import SocietyGold.MasternodeAnnounce
import SocietyGold.PreviousTransaction
import SocietyGold.SporkAuthority

/-!
# Which masternodes get into the list

The list never has two entries for one outpoint.  Nothing that is examined about the
signature and the collateral keeps an announcement out, so an entry is sound when the
announcements that made it are genuine, and otherwise need not be.
-/

namespace SocietyGold

open Support

/-! ## Sound entries and genuine announcements -/

section Sound

variable (tools : AnnounceTools) (ctx : AnnounceContext)

/-- The outpoint refers to an unspent output that is worth a collateral and pays the key. -/
def RefersToCollateral (prevout : COutPoint) (pubkey : CPubKey) : Prop :=
  ∃ record tx out, ctx.st.txdb.readTxIndex prevout.hash = some record ∧
    CTransaction.recordedTransaction ctx.st record = some tx ∧
    tx.getHash ctx.env.prims = prevout.hash ∧
    tx.vout[prevout.n]? = some out ∧ record.vSpent[prevout.n]? = some CDiskTxPos.null ∧
    out.nValue = getMNCollateral ctx.st.nBestHeight * COIN ∧
    out.scriptPubKey = scriptForKeyID (pubkey.getID tools.signer.prims)

/-- The entry has a signature of its key over its address, time, second key and version. -/
def CMasternode.Signed (mn : CMasternode) : Prop :=
  ∃ tail, tools.signer.Recovers mn.pubkey mn.sig
    (announcementText tools mn.addr mn.sigTime mn.pubkey mn.pubkey2 mn.protocolVersion ++ tail)

structure CMasternode.Sound (mn : CMasternode) : Prop where
  collateral : RefersToCollateral tools ctx mn.vin.prevout mn.pubkey
  signed : mn.Signed tools

/-- A well-formed announcement is signed by its key and names a collateral of that key. -/
def Announcement.Genuine (msg : Announcement) : Prop :=
  msg.malformed tools ctx.env.adjustedTime = false →
    RefersToCollateral tools ctx msg.vin.prevout msg.pubkey ∧
      tools.signer.Recovers msg.pubkey msg.vchSig (msg.strMessage tools)

end Sound

variable {tools : AnnounceTools} {ctx : AnnounceContext} {msg : Announcement}

/-! ## What a handler does to the list -/

/-- The entry that an announcement makes of a known one: the output and the key stay, and
the rest stays too or is taken from the announcement. -/
structure Announcement.Updates (msg : Announcement) (mn mn' : CMasternode) : Prop where
  outpoint : mn.vin.prevout = msg.vin.prevout
  vin : mn'.vin = mn.vin
  pubkey : mn'.pubkey = mn.pubkey
  changed : mn' ≠ mn → mn.pubkey = msg.pubkey
  data : (mn'.addr = mn.addr ∧ mn'.sigTime = mn.sigTime ∧ mn'.pubkey2 = mn.pubkey2 ∧
      mn'.protocolVersion = mn.protocolVersion ∧ mn'.sig = mn.sig) ∨
    (mn.pubkey = msg.pubkey ∧ mn'.addr = msg.addr ∧ mn'.sigTime = msg.sigTime ∧
      mn'.pubkey2 = msg.pubkey2 ∧ mn'.protocolVersion = msg.protocolVersion ∧
      mn'.sig = msg.vchSig)

theorem check_eq_activeState
    {env : MasternodeEnv} {st : ChainState} {mn checked : CMasternode}
    (h : mn.check env st = .ok checked) :
    ∃ activeState, checked = { mn with activeState := activeState } := by
  unfold CMasternode.check at h
  by_cases hShutdown : env.fRequestShutdown = true
  · rw [if_pos hShutdown, Except.ok.injEq] at h
    exact ⟨mn.activeState, h.symm⟩
  · rw [if_neg hShutdown] at h
    obtain ⟨marked, hMarked, hChecked⟩ := bind_eq_ok.mp h
    obtain ⟨unseenState, hUnseen⟩ := CMasternode.markUnseen_eq env.adjustedTime mn
    obtain ⟨spentState, rfl⟩ := CMasternode.markSpent_eq_ok hMarked
    rw [Except.ok.injEq] at hChecked
    rw [← hChecked, hUnseen]
    exact ⟨_, rfl⟩

theorem updateKnown_eq_ok
    {mn mn' : CMasternode} (hVin : mn.vin.prevout = msg.vin.prevout)
    (h : updateKnown ctx msg mn = .ok mn') : msg.Updates mn mn' := by
  unfold updateKnown at h
  by_cases hKnown : (msg.count = -1 && mn.pubkey = msg.pubkey &&
      !mn.updatedWithin ctx.env.adjustedTime MASTERNODE_MIN_DSEE_SECONDS) = true
  · rw [if_pos hKnown] at h
    have hKey : mn.pubkey = msg.pubkey := by
      simp only [Bool.and_eq_true, decide_eq_true_eq] at hKnown
      exact hKnown.1.2
    dsimp only at h
    by_cases hNewer : (mn.updateLastSeen ctx.env.adjustedTime 0).sigTime < msg.sigTime
    · rw [if_pos hNewer] at h
      obtain ⟨checked, hChecked, hResult⟩ := bind_eq_ok.mp h
      obtain ⟨activeState, rfl⟩ := check_eq_activeState hChecked
      rw [Except.ok.injEq] at hResult
      subst hResult
      unfold renewed
      cases msg.reward with
      | none => exact ⟨hVin, rfl, rfl, fun _ => hKey, Or.inr ⟨hKey, rfl, rfl, rfl, rfl, rfl⟩⟩
      | some reward =>
          exact ⟨hVin, rfl, rfl, fun _ => hKey, Or.inr ⟨hKey, rfl, rfl, rfl, rfl, rfl⟩⟩
    · rw [if_neg hNewer, Except.ok.injEq] at h
      subst h
      exact ⟨hVin, rfl, rfl, fun _ => hKey, Or.inl ⟨rfl, rfl, rfl, rfl, rfl⟩⟩
  · rw [if_neg hKnown, Except.ok.injEq] at h
    subst h
    exact ⟨hVin, rfl, rfl, fun hNe => absurd rfl hNe, Or.inl ⟨rfl, rfl, rfl, rfl, rfl⟩⟩

/-- The list after the update of a known entry. -/
theorem updateList_eq_ok
    {active : CActiveMasternode} {vMasternodes after : List CMasternode}
    (h : updateList tools ctx msg active vMasternodes = .ok after) :
    after = vMasternodes ∨ ∃ pos mn mn', vMasternodes[pos]? = some mn ∧
      after = vMasternodes.set pos mn' ∧ msg.Updates mn mn' := by
  unfold updateList at h
  cases hFind : CMasternodeMan.findIdx vMasternodes msg.vin with
  | none =>
      rw [hFind, Except.ok.injEq] at h
      exact Or.inl h.symm
  | some pos =>
      rw [hFind] at h
      dsimp only at h
      by_cases hItself : announcesItself tools msg active = true
      · rw [if_pos hItself, Except.ok.injEq] at h
        exact Or.inl h.symm
      · rw [if_neg hItself] at h
        obtain ⟨mn, hAt, hRest⟩ := bind_eq_ok.mp h
        obtain ⟨mn', hUpdate, hAfter⟩ := bind_eq_ok.mp hRest
        rw [elementAt_eq_ok] at hAt
        rw [Except.ok.injEq] at hAfter
        have hVin : mn.vin.prevout = msg.vin.prevout := by
          unfold CMasternodeMan.findIdx at hFind
          obtain ⟨hLt, hIs, -⟩ := List.findIdx?_eq_some_iff_getElem.mp hFind
          obtain ⟨hLt', hGet⟩ := List.getElem?_eq_some_iff.mp hAt
          rw [hGet] at hIs
          simpa using hIs
        exact Or.inr ⟨pos, mn, mn', hAt, hAfter.symm, updateKnown_eq_ok hVin hUpdate⟩

theorem signedTooEarly_eq_ok
    {node node' : AnnouncedNodes} {early : Bool}
    (h : signedTooEarly tools ctx msg node = .ok (early, node')) :
    node'.vMasternodes = node.vMasternodes := by
  unfold signedTooEarly at h
  obtain ⟨pindexBest, -, hRest⟩ := bind_eq_ok.mp h
  dsimp only at hRest
  split at hRest
  · rw [Except.ok.injEq, Prod.mk.injEq] at hRest
    rw [← hRest.2]
  · obtain ⟨pConfIndex, -, hResult⟩ := bind_eq_ok.mp hRest
    rw [Except.ok.injEq, Prod.mk.injEq] at hResult
    rw [← hResult.2]

/-- The examination adds the announced entry or leaves the list as it is. -/
theorem examine_eq_ok
    {node node' : AnnouncedNodes} (h : examine tools ctx msg node = .ok node') :
    node'.vMasternodes = node.vMasternodes ∨
      node'.vMasternodes = (CMasternodeMan.add ctx.env.adjustedTime node.vMasternodes
        (announcedEntry ctx msg)).2 := by
  unfold examine at h
  obtain ⟨⟨associated, listed⟩, -, hRest⟩ := bind_eq_ok.mp h
  dsimp only at hRest
  split at hRest
  · rw [Except.ok.injEq] at hRest
    exact Or.inl (by rw [← hRest])
  obtain ⟨recorded, -, hRest⟩ := bind_eq_ok.mp hRest
  split at hRest
  · rw [Except.ok.injEq] at hRest
    exact Or.inl (by rw [← hRest])
  split at hRest
  · rw [Except.ok.injEq] at hRest
    exact Or.inl (by rw [← hRest])
  obtain ⟨fAcceptable, -, hRest⟩ := bind_eq_ok.mp hRest
  split at hRest
  · rw [Except.ok.injEq] at hRest
    exact Or.inl (by rw [← hRest])
  obtain ⟨age, -, hRest⟩ := bind_eq_ok.mp hRest
  obtain ⟨⟨early, node₁⟩, hEarly, hRest⟩ := bind_eq_ok.mp hRest
  have hSame := signedTooEarly_eq_ok hEarly
  dsimp only at hRest hSame
  split at hRest
  · rw [Except.ok.injEq] at hRest
    exact Or.inl (by rw [← hRest, hSame])
  · rw [Except.ok.injEq] at hRest
    refine Or.inr ?_
    rw [← hRest, ← hSame]
    rfl

/-- The list after a step of the handler: a known entry may have been updated, and then an
entry may have been added. -/
structure Announcement.Changes (ctx : AnnounceContext) (msg : Announcement)
    (before after : List CMasternode) : Prop where
  steps : ∃ between : List CMasternode,
    (between = before ∨ ∃ pos mn mn', before[pos]? = some mn ∧ between = before.set pos mn' ∧
      msg.Updates mn mn') ∧
    (after = between ∨
      after = (CMasternodeMan.add ctx.env.adjustedTime between (announcedEntry ctx msg)).2)

/-- Only a well-formed announcement changes the list. -/
theorem processAnnouncement_eq_ok
    {node node' : AnnouncedNodes} (h : processAnnouncement tools ctx msg node = .ok node') :
    node'.vMasternodes = node.vMasternodes ∨
      msg.malformed tools ctx.env.adjustedTime = false ∧
        msg.Changes ctx node.vMasternodes node'.vMasternodes := by
  unfold processAnnouncement at h
  obtain ⟨ignored, -, hRest⟩ := bind_eq_ok.mp h
  split at hRest
  · rw [Except.ok.injEq] at hRest
    exact Or.inl (by rw [← hRest])
  rw [CDarkSendSigner.verifyMessage_fst, Bool.not_true, if_neg Bool.false_ne_true] at hRest
  split at hRest
  · rw [Except.ok.injEq] at hRest
    exact Or.inl (by rw [← hRest])
  rename_i hFormed
  obtain ⟨between, hUpdate, hExamine⟩ := bind_eq_ok.mp hRest
  exact Or.inr ⟨Bool.eq_false_iff.mpr hFormed, between, updateList_eq_ok hUpdate,
    examine_eq_ok hExamine⟩

/-! ## One entry for an outpoint -/

/-- The outpoints of the entries are distinct. -/
def DistinctOutpoints (vMasternodes : List CMasternode) : Prop :=
  (vMasternodes.map fun mn => mn.vin.prevout).Nodup

theorem distinctOutpoints_add
    {vMasternodes : List CMasternode} (h : DistinctOutpoints vMasternodes) (adjustedTime : ℕ)
    (mn : CMasternode) :
    DistinctOutpoints (CMasternodeMan.add adjustedTime vMasternodes mn).2 := by
  unfold CMasternodeMan.add
  cases hFind : CMasternodeMan.findIdx vMasternodes mn.vin with
  | some pos => exact h
  | none =>
      have hFresh : ∀ old ∈ vMasternodes, old.vin.prevout ≠ mn.vin.prevout := by
        intro old hMem
        unfold CMasternodeMan.findIdx at hFind
        simpa using List.findIdx?_eq_none_iff.mp hFind old hMem
      change ((vMasternodes ++ [mn.copy adjustedTime]).map fun mn => mn.vin.prevout).Nodup
      rw [List.map_append, List.nodup_append']
      refine ⟨h, List.nodup_singleton _, ?_⟩
      intro prevout hOld hNew
      obtain ⟨old, hMem, rfl⟩ := List.mem_map.mp hOld
      exact hFresh old hMem (by simpa [CMasternode.copy] using hNew)

theorem distinctOutpoints_of_changes
    {before after : List CMasternode} (h : msg.Changes ctx before after)
    (hBefore : DistinctOutpoints before) : DistinctOutpoints after := by
  obtain ⟨between, hUpdate, hAdd⟩ := h.steps
  have hBetween : DistinctOutpoints between := by
    rcases hUpdate with rfl | ⟨pos, mn, mn', hAt, rfl, hUpdates⟩
    · exact hBefore
    · have hSame : (before.set pos mn').map (fun mn => mn.vin.prevout) =
          before.map fun mn => mn.vin.prevout := by
        have hOld : (before.map fun mn => mn.vin.prevout)[pos]? = some mn.vin.prevout := by
          rw [List.getElem?_map, hAt, Option.map_some]
        obtain ⟨hLt, hGet⟩ := List.getElem?_eq_some_iff.mp hOld
        rw [List.map_set, hUpdates.vin, ← hGet]
        exact List.set_getElem_self hLt
      unfold DistinctOutpoints
      rw [hSame]
      exact hBefore
  rcases hAdd with rfl | rfl
  · exact hBetween
  · exact distinctOutpoints_add hBetween _ _

/-! ## The entries that change -/

/-- An entry that was not there before is an update of the one in its place, or the announced
one. -/
theorem changed_entry
    {before after : List CMasternode} (h : msg.Changes ctx before after) {i : ℕ}
    {mn : CMasternode} (hAfter : after[i]? = some mn) (hBefore : before[i]? ≠ some mn) :
    (∃ old, before[i]? = some old ∧ mn ≠ old ∧ msg.Updates old mn) ∨
      mn = (announcedEntry ctx msg).copy ctx.env.adjustedTime := by
  obtain ⟨between, hUpdate, hAdd⟩ := h.steps
  have hBetween : between[i]? = some mn →
      ∃ old, before[i]? = some old ∧ mn ≠ old ∧ msg.Updates old mn := by
    intro hIn
    rcases hUpdate with rfl | ⟨pos, old, mn', hAt, rfl, hUpdates⟩
    · exact absurd hIn hBefore
    · rw [List.getElem?_set] at hIn
      split_ifs at hIn with hPos hLt
      · rw [Option.some.injEq] at hIn
        subst hIn hPos
        refine ⟨old, hAt, ?_, hUpdates⟩
        rintro rfl
        exact hBefore hAt
      · exact absurd hIn hBefore
  rcases hAdd with rfl | rfl
  · exact Or.inl (hBetween hAfter)
  · unfold CMasternodeMan.add at hAfter
    cases hFind : CMasternodeMan.findIdx between (announcedEntry ctx msg).vin with
    | some pos =>
        rw [hFind] at hAfter
        exact Or.inl (hBetween hAfter)
    | none =>
        rw [hFind] at hAfter
        rw [List.getElem?_append] at hAfter
        split_ifs at hAfter with hLt
        · exact Or.inl (hBetween hAfter)
        · obtain ⟨hIndex, hEq⟩ := List.getElem?_eq_some_iff.mp hAfter
          exact Or.inr (by simpa using hEq.symm)

/-- What the announced entry takes from the announcement. -/
theorem announcedEntry_fields :
    (announcedEntry ctx msg).vin = msg.vin ∧ (announcedEntry ctx msg).pubkey = msg.pubkey ∧
      (announcedEntry ctx msg).addr = msg.addr ∧ (announcedEntry ctx msg).sigTime = msg.sigTime ∧
      (announcedEntry ctx msg).pubkey2 = msg.pubkey2 ∧
      (announcedEntry ctx msg).protocolVersion = msg.protocolVersion ∧
      (announcedEntry ctx msg).sig = msg.vchSig := by
  unfold announcedEntry
  cases msg.reward with
  | none =>
      dsimp only
      split_ifs <;> exact ⟨rfl, rfl, rfl, rfl, rfl, rfl, rfl⟩
  | some reward =>
      dsimp only
      split_ifs <;> exact ⟨rfl, rfl, rfl, rfl, rfl, rfl, rfl⟩

/-- A genuine announcement leaves sound entries, as far as it changes them. -/
theorem sound_of_changes
    {before after : List CMasternode} (h : msg.Changes ctx before after)
    (hFormed : msg.malformed tools ctx.env.adjustedTime = false)
    (hGenuine : msg.Genuine tools ctx) (hSigned : ∀ mn ∈ before, mn.Signed tools) {i : ℕ}
    {mn : CMasternode} (hAfter : after[i]? = some mn) (hBefore : before[i]? ≠ some mn) :
    mn.Sound tools ctx := by
  obtain ⟨hCollateral, hRecovers⟩ := hGenuine hFormed
  have hText : ∃ tail, msg.strMessage tools =
      announcementText tools msg.addr msg.sigTime msg.pubkey msg.pubkey2 msg.protocolVersion ++
        tail := ⟨_, rfl⟩
  obtain ⟨tail, hTail⟩ := hText
  rw [hTail] at hRecovers
  rcases changed_entry h hAfter hBefore with ⟨old, hOld, hNe, hUpdates⟩ | rfl
  · have hKey := hUpdates.changed hNe
    constructor
    · rw [hUpdates.vin, hUpdates.pubkey, hUpdates.outpoint, hKey]
      exact hCollateral
    · rcases hUpdates.data with ⟨hAddr, hTime, hKey2, hVersion, hSig⟩ |
        ⟨-, hAddr, hTime, hKey2, hVersion, hSig⟩
      · obtain ⟨oldTail, hOldSigned⟩ := hSigned old (List.mem_of_getElem? hOld)
        refine ⟨oldTail, ?_⟩
        rw [hAddr, hTime, hKey2, hVersion, hSig, hUpdates.pubkey]
        exact hOldSigned
      · refine ⟨tail, ?_⟩
        rw [hAddr, hTime, hKey2, hVersion, hSig, hUpdates.pubkey, hKey]
        exact hRecovers
  · obtain ⟨hVin, hKey, hAddr, hTime, hKey2, hVersion, hSig⟩ :=
      @announcedEntry_fields ctx msg
    constructor
    · change RefersToCollateral tools ctx (announcedEntry ctx msg).vin.prevout
        (announcedEntry ctx msg).pubkey
      rw [hVin, hKey]
      exact hCollateral
    · refine ⟨tail, ?_⟩
      change tools.signer.Recovers (announcedEntry ctx msg).pubkey (announcedEntry ctx msg).sig
        (announcementText tools (announcedEntry ctx msg).addr (announcedEntry ctx msg).sigTime
          (announcedEntry ctx msg).pubkey (announcedEntry ctx msg).pubkey2
          (announcedEntry ctx msg).protocolVersion ++ tail)
      rw [hKey, hAddr, hTime, hKey2, hVersion, hSig]
      exact hRecovers

/-! ## Runs -/

/-- An announcement, and what the handler meets when it arrives. -/
structure Arrival where
  ctx : AnnounceContext
  msg : Announcement

def processAnnouncements (tools : AnnounceTools) (node : AnnouncedNodes)
    (arrivals : List Arrival) : Checked AnnouncedNodes :=
  arrivals.foldlM (fun node a => processAnnouncement tools a.ctx a.msg node) node

theorem signed_of_step
    {node node' : AnnouncedNodes} (h : processAnnouncement tools ctx msg node = .ok node')
    (hGenuine : msg.Genuine tools ctx) (hSigned : ∀ mn ∈ node.vMasternodes, mn.Signed tools) :
    ∀ mn ∈ node'.vMasternodes, mn.Signed tools := by
  intro mn hMem
  rcases processAnnouncement_eq_ok h with hSame | ⟨hFormed, hChanges⟩
  · exact hSigned mn (hSame ▸ hMem)
  · obtain ⟨i, hAt⟩ := List.mem_iff_getElem?.mp hMem
    by_cases hBefore : node.vMasternodes[i]? = some mn
    · exact hSigned mn (List.mem_of_getElem? hBefore)
    · exact (sound_of_changes hChanges hFormed hGenuine hSigned hAt hBefore).signed

theorem distinctOutpoints_of_step
    {node node' : AnnouncedNodes} (h : processAnnouncement tools ctx msg node = .ok node')
    (hDistinct : DistinctOutpoints node.vMasternodes) :
    DistinctOutpoints node'.vMasternodes := by
  rcases processAnnouncement_eq_ok h with hSame | ⟨-, hChanges⟩
  · rw [hSame]
    exact hDistinct
  · exact distinctOutpoints_of_changes hChanges hDistinct

theorem distinctOutpoints_of_run
    {arrivals : List Arrival} {start node : AnnouncedNodes}
    (hDistinct : DistinctOutpoints start.vMasternodes)
    (hRun : processAnnouncements tools start arrivals = .ok node) :
    DistinctOutpoints node.vMasternodes := by
  induction arrivals generalizing start with
  | nil =>
      cases hRun
      exact hDistinct
  | cons a arrivals ih =>
      rw [processAnnouncements, List.foldlM_cons] at hRun
      obtain ⟨node₁, hStep, hRest⟩ := bind_eq_ok.mp hRun
      exact ih (distinctOutpoints_of_step hStep hDistinct) hRest

theorem signed_of_run
    {arrivals : List Arrival} {start node : AnnouncedNodes}
    (hGenuine : ∀ a ∈ arrivals, a.msg.Genuine tools a.ctx)
    (hSigned : ∀ mn ∈ start.vMasternodes, mn.Signed tools)
    (hRun : processAnnouncements tools start arrivals = .ok node) :
    ∀ mn ∈ node.vMasternodes, mn.Signed tools := by
  induction arrivals generalizing start with
  | nil =>
      cases hRun
      exact hSigned
  | cons a arrivals ih =>
      rw [processAnnouncements, List.foldlM_cons] at hRun
      obtain ⟨node₁, hStep, hRest⟩ := bind_eq_ok.mp hRun
      exact ih (fun a ha => hGenuine a (List.mem_cons_of_mem _ ha))
        (signed_of_step hStep (hGenuine a List.mem_cons_self) hSigned) hRest

/-- In a run of announcements from an empty list there is one entry for an outpoint.  When
all announcements are genuine, every entry that an announcement adds or changes is sound at
that moment. -/
theorem announcements_admit_sound
    {arrivals : List Arrival} {start node node' : AnnouncedNodes}
    (hStart : start.vMasternodes = [])
    (hRun : processAnnouncements tools start arrivals = .ok node)
    (hStep : processAnnouncement tools ctx msg node = .ok node') :
    DistinctOutpoints node'.vMasternodes ∧
      ((∀ a ∈ arrivals, a.msg.Genuine tools a.ctx) → msg.Genuine tools ctx →
        ∀ (i : ℕ) (mn : CMasternode), node'.vMasternodes[i]? = some mn →
          node.vMasternodes[i]? ≠ some mn → mn.Sound tools ctx) := by
  have hEmpty : DistinctOutpoints start.vMasternodes := by
    rw [hStart]
    exact List.nodup_nil
  refine ⟨distinctOutpoints_of_step hStep (distinctOutpoints_of_run hEmpty hRun), ?_⟩
  intro hGenuine hLast i mn hAfter hBefore
  have hSigned : ∀ mn ∈ start.vMasternodes, mn.Signed tools := by
    rw [hStart]
    simp
  rcases processAnnouncement_eq_ok hStep with hSame | ⟨hFormed, hChanges⟩
  · rw [hSame] at hAfter
    exact absurd hAfter hBefore
  · exact sound_of_changes hChanges hFormed hLast (signed_of_run hGenuine hSigned hRun) hAfter
      hBefore

/-! ## Two announcements -/

namespace Sample

def announceSigner : CDarkSendSigner where
  prims := scriptPrims
  recoverCompact hash vchSig :=
    if vchSig = toBytesLE 32 hash then some (CPubKey.ofBytes (compressedKey 1)) else none
  signCompact _ hash := some (toBytesLE 32 hash)
  setKey _ := none

def elementSizes : ElementSizes where
  txIn := ⟨1, by decide, by decide⟩
  txOut := ⟨1, by decide, by decide⟩
  transaction := ⟨1, by decide, by decide⟩

def announceTools : AnnounceTools where
  signer := announceSigner
  serviceToString addr := addr.getKey
  scriptToString script := script
  sizes := elementSizes
  fLiteMode := false
  fMasterNode := false

/-- A payment of a collateral to the first key. -/
def collateralPayment : CTransaction where
  nVersion := 1
  nTime := 1000
  vin := [⟨⟨7, 0⟩, [], UINT_MAX⟩]
  vout := [⟨150000 * COIN, scriptForKeyID ((CPubKey.ofBytes (compressedKey 1)).getID scriptPrims)⟩]
  nLockTime := 0

/-- A node that has the payment on disk. -/
def nodeWithCollateral : ChainState :=
  { nodeWith [(collateralPayment.getHash prims, CTxIndex.unspent ⟨1, 8, 8⟩ 1)] with
    blockFiles := (∅ : Table ℕ (List UInt8)).insert 1
      (List.replicate 8 0 ++ collateralPayment.serialize) }

def announceContext (st : ChainState) : AnnounceContext where
  env := masternodeEnv 1600000000
  st := st
  fBlockchainSynced := true
  nStartingHeight := 10
  lockMain := true
  checkNode _ := true

/-- An announcement that nobody has signed. -/
def unsignedAnnouncement (hash : ℕ) : Announcement where
  vin := ⟨⟨hash, 0⟩, [], UINT_MAX⟩
  addr := serviceAt 1 23980
  vchSig := []
  sigTime := 1599999000
  pubkey := CPubKey.ofBytes (compressedKey 1)
  pubkey2 := CPubKey.ofBytes (compressedKey 2)
  count := -1
  current := 0
  lastUpdated := 1599999000
  protocolVersion := PROTOCOL_VERSION
  reward := none

def signed (msg : Announcement) : Announcement :=
  { msg with
    vchSig := toBytesLE 32 (announceSigner.messageHash (msg.strMessage announceTools)) }

def noMasternodes : AnnouncedNodes where
  vMasternodes := []
  activeMasternode := ⟨0, CTxIn.null, serviceAt 9 23980, CPubKey.ofBytes (compressedKey 9)⟩
  MN_CTransaction_Map := ∅
  Active_Transaction_List := ∅
  pblockindexFBBHLast := none

/-- A genuine announcement is admitted, and its entry is sound. -/
theorem genuineAnnouncement_admitted :
    ∃ node' mn, processAnnouncement announceTools (announceContext nodeWithCollateral)
        (signed (unsignedAnnouncement (collateralPayment.getHash prims))) noMasternodes =
        .ok node' ∧
      node'.vMasternodes[0]? = some mn ∧ DistinctOutpoints node'.vMasternodes ∧
      mn.Sound announceTools (announceContext nodeWithCollateral) := by
  have hCount : (processAnnouncement announceTools (announceContext nodeWithCollateral)
      (signed (unsignedAnnouncement (collateralPayment.getHash prims)))
      noMasternodes).toOption.map (fun node => node.vMasternodes.length) = some 1 := by
    decide +kernel
  cases hStep : processAnnouncement announceTools (announceContext nodeWithCollateral)
      (signed (unsignedAnnouncement (collateralPayment.getHash prims))) noMasternodes with
  | error e =>
      rw [hStep] at hCount
      cases hCount
  | ok node' =>
      rw [hStep] at hCount
      have hLength : node'.vMasternodes.length = 1 := Option.some.inj hCount
      have hLt : 0 < node'.vMasternodes.length := by
        omega
      obtain ⟨hDistinct, hSound⟩ := @announcements_admit_sound _ _ _ [] _ _ _ rfl rfl hStep
      refine ⟨node', node'.vMasternodes[0], rfl, List.getElem?_eq_getElem hLt, hDistinct, ?_⟩
      refine hSound (fun a ha => by cases ha) (fun _ => ⟨?_, ?_⟩) 0 _
        (List.getElem?_eq_getElem hLt) (by simp [noMasternodes])
      · refine ⟨CTxIndex.unspent ⟨1, 8, 8⟩ 1, collateralPayment,
          ⟨150000 * COIN, scriptForKeyID ((CPubKey.ofBytes (compressedKey 1)).getID scriptPrims)⟩,
          ?_, ?_, rfl, rfl, rfl, rfl, rfl⟩
        · decide +kernel
        · decide +kernel
      · decide +kernel

/-- An announcement without a signature, for an output that does not exist, is admitted. -/
theorem unsignedAnnouncement_admitted :
    ∃ node' mn, processAnnouncement announceTools (announceContext (nodeWith []))
        (unsignedAnnouncement 99) noMasternodes = .ok node' ∧
      node'.vMasternodes[0]? = some mn ∧
      ¬mn.Sound announceTools (announceContext (nodeWith [])) := by
  have hOutpoints : (processAnnouncement announceTools (announceContext (nodeWith []))
      (unsignedAnnouncement 99) noMasternodes).toOption.map
        (fun node => node.vMasternodes.map fun mn => mn.vin.prevout) = some [⟨99, 0⟩] := by
    decide +kernel
  cases hStep : processAnnouncement announceTools (announceContext (nodeWith []))
      (unsignedAnnouncement 99) noMasternodes with
  | error e =>
      rw [hStep] at hOutpoints
      cases hOutpoints
  | ok node' =>
      rw [hStep] at hOutpoints
      have hPrevouts : node'.vMasternodes.map (fun mn => mn.vin.prevout) = [⟨99, 0⟩] :=
        Option.some.inj hOutpoints
      obtain ⟨mn, hList, hPrevout⟩ := List.map_eq_singleton_iff.mp hPrevouts
      refine ⟨node', mn, rfl, by rw [hList]; rfl, ?_⟩
      intro hSound
      obtain ⟨record, -, -, hRecord, -⟩ := hSound.collateral
      rw [hPrevout] at hRecord
      have hNone : (announceContext (nodeWith [])).st.txdb.readTxIndex 99 = none := by
        decide +kernel
      rw [hNone] at hRecord
      cases hRecord

end Sample

end SocietyGold
