import SocietyGold.Sporks

/-!
# Who has signed the active sporks

The active sporks of a node are to be signed with the main key.  This holds along a run
exactly as long as every spork that passes the other tests of `ProcessSpork` is: nothing but
the sender decides.
-/

namespace SocietyGold

open Support

section Authority

variable (signer : CDarkSendSigner)

/-- Every active spork is signed with the main key. -/
def SporkState.Authentic (st : SporkState) : Prop :=
  ∀ nSporkID spork, st.mapSporksActive.lookup nSporkID = some spork → spork.ValidlySigned signer

/-- The key of the node is the main key, with which it can sign. -/
def HoldsMasterKey (ctx : SporkContext) : Prop :=
  ∃ key, signer.setKey ctx.strMasterPrivKey = some (key, strMainPubKey) ∧
    ∀ hash, ∃ vchSig, signer.signCompact key hash = some vchSig ∧
      signer.recoverCompact hash vchSig = some strMainPubKey

/-- Only the holder of the master key makes sporks. -/
def UpdatesByHolder (events : List (SporkContext × SporkAction)) : Prop :=
  ∀ ctx nSporkID nValue, (ctx, SporkAction.updated nSporkID nValue) ∈ events →
    HoldsMasterKey signer ctx

/-- Each spork of a run that passes the tests before the signature is signed with the main
key. -/
def PassingSporksSigned (events : List (SporkContext × SporkAction)) : Prop :=
  ∀ before ctx spork, before ++ [(ctx, SporkAction.received spork)] <+: events →
    (sporksAfter signer before).passesTests ctx spork = true → spork.ValidlySigned signer

end Authority

section Results

variable {signer : CDarkSendSigner} {ctx : SporkContext} {st : SporkState}
  {events before : List (SporkContext × SporkAction)}

theorem sporksAfter_concat (event : SporkContext × SporkAction) :
    sporksAfter signer (before ++ [event]) = (sporksAfter signer before).step signer event := by
  simp [sporksAfter]

/-- What the holder of the master key makes is signed with the main key. -/
theorem validlySigned_of_update
    (hHolder : HoldsMasterKey signer ctx) {nSporkID nValue : ℤ} {msg : CSporkMessage}
    (h : sporkOfUpdate signer ctx nSporkID nValue = some msg) : msg.ValidlySigned signer := by
  obtain ⟨key, hKey, hSigns⟩ := hHolder
  let unsigned : CSporkMessage := ⟨[], nSporkID, nValue, ctx.time⟩
  obtain ⟨vchSig, hSig, hRecover⟩ := hSigns (signer.messageHash unsigned.strMessage)
  have hSign : signer.signMessage unsigned.strMessage [] key = (true, vchSig) := by
    unfold CDarkSendSigner.signMessage
    rw [hSig]
  have hMade : sporkOfUpdate signer ctx nSporkID nValue =
      some { unsigned with vchSig := vchSig } := by
    unfold sporkOfUpdate signSpork
    rw [hKey]
    dsimp only
    rw [hSign]
    simp [unsigned]
  rw [hMade, Option.some.injEq] at h
  rw [← h]
  exact hRecover

theorem authentic_store
    {spork : CSporkMessage} (hOld : st.Authentic signer) (hSigned : spork.ValidlySigned signer) :
    (st.store signer ctx spork).Authentic signer := by
  intro nSporkID active hActive
  rw [store_lookup] at hActive
  split_ifs at hActive
  · cases hActive
    exact hSigned
  · exact hOld nSporkID active hActive

/-- One step keeps the active sporks authentic if a spork that comes in and passes is signed
with the main key. -/
theorem authentic_step
    {event : SporkContext × SporkAction} (hOld : st.Authentic signer)
    (hReceived : ∀ spork, event.2 = .received spork → st.passesTests event.1 spork = true →
      spork.ValidlySigned signer)
    (hUpdated : ∀ nSporkID nValue, event.2 = .updated nSporkID nValue →
      HoldsMasterKey signer event.1) :
    (st.step signer event).Authentic signer := by
  obtain ⟨ctx, action⟩ := event
  cases action with
  | received spork =>
      simp only [SporkState.step, processSpork_eq]
      split_ifs with hPasses
      · exact authentic_store hOld (hReceived spork rfl hPasses)
      · exact hOld
  | updated nSporkID nValue =>
      simp only [SporkState.step, updateSpork]
      cases hMsg : sporkOfUpdate signer ctx nSporkID nValue with
      | none => exact hOld
      | some msg =>
          exact authentic_store hOld
            (validlySigned_of_update (hUpdated nSporkID nValue rfl) hMsg)

/-- In a run in which only the holder of the master key makes sporks, the active sporks are
authentic in every state exactly if every spork that passes the tests before the signature is
signed with the main key. -/
theorem sporks_authentic_iff (hHolder : UpdatesByHolder signer events) :
    (∀ before, before <+: events → (sporksAfter signer before).Authentic signer) ↔
      PassingSporksSigned signer events := by
  constructor
  · intro hAuthentic before ctx spork hBefore hPasses
    have hAfter := hAuthentic _ hBefore
    rw [sporksAfter_concat] at hAfter
    simp only [SporkState.step, processSpork_eq, hPasses, if_true] at hAfter
    refine hAfter spork.nSporkID spork ?_
    rw [store_lookup, if_pos rfl]
  · intro hSigned before hBefore
    induction before using List.reverseRecOn with
    | nil =>
        intro nSporkID spork hActive
        simp [sporksAfter, SporkState.empty] at hActive
    | append_singleton before event ih =>
        have hShorter : before <+: events := (List.prefix_append _ _).trans hBefore
        rw [sporksAfter_concat]
        apply authentic_step (ih hShorter)
        · intro spork hReceived hPasses
          obtain ⟨ctx, action⟩ := event
          cases hReceived
          exact hSigned before ctx spork hBefore hPasses
        · intro nSporkID nValue hUpdated
          obtain ⟨ctx, action⟩ := event
          cases hUpdated
          exact hHolder ctx nSporkID nValue (hBefore.subset (by simp))

end Results

/-! ## A forged spork -/

namespace Sample

/-- A signature is the hash it signs, and all are by the main key. -/
def sporkSigner : CDarkSendSigner where
  prims := scriptPrims
  recoverCompact hash vchSig :=
    if vchSig = toBytesLE 32 hash then some strMainPubKey else none
  signCompact _ hash := some (toBytesLE 32 hash)
  setKey strSecret := if strSecret = [1] then some ([1], strMainPubKey) else none

def sporkContext (time : ℤ) : SporkContext where
  fLiteMode := false
  hasBestBlock := true
  time := time
  strMasterPrivKey := [1]
  padding := [0, 0, 0, 0]

/-- A spork without a signature. -/
def forgedSpork : CSporkMessage := ⟨[], 10007, 1, 1600000000⟩

/-- A spork with the signature of the main key. -/
def signedSpork (nTimeSigned : ℤ) : CSporkMessage :=
  let spork : CSporkMessage := ⟨[], 10007, 1, nTimeSigned⟩
  { spork with vchSig := toBytesLE 32 (sporkSigner.messageHash spork.strMessage) }

/-- The forged spork becomes active. -/
theorem forgedSpork_active :
    (sporksAfter sporkSigner [(sporkContext 0, .received forgedSpork)]).mapSporksActive.lookup
        10007 = some forgedSpork ∧
      ¬forgedSpork.ValidlySigned sporkSigner ∧
      ¬∀ before, before <+: [(sporkContext 0, SporkAction.received forgedSpork)] →
        (sporksAfter sporkSigner before).Authentic sporkSigner := by
  have hActive : (sporksAfter sporkSigner
      [(sporkContext 0, .received forgedSpork)]).mapSporksActive.lookup 10007 =
        some forgedSpork := by
    decide +kernel
  have hForged : ¬forgedSpork.ValidlySigned sporkSigner := by decide +kernel
  refine ⟨hActive, hForged, ?_⟩
  intro hAuthentic
  exact hForged (hAuthentic _ (List.prefix_refl _) 10007 forgedSpork hActive)

theorem holdsMasterKey_sporkContext (time : ℤ) :
    HoldsMasterKey sporkSigner (sporkContext time) :=
  ⟨[1], rfl, fun hash => ⟨toBytesLE 32 hash, rfl, by simp [sporkSigner]⟩⟩

/-- A run with a signed spork and an update by the holder of the master key. -/
theorem signedSpork_authentic :
    ∃ events : List (SporkContext × SporkAction), events.length = 2 ∧
      ∀ before, before <+: events → (sporksAfter sporkSigner before).Authentic sporkSigner := by
  refine ⟨[(sporkContext 0, .received (signedSpork 1600000000)),
    (sporkContext 1600000001, .updated 10007 5)], rfl, (sporks_authentic_iff ?_).mpr ?_⟩
  · intro ctx nSporkID nValue hMem
    simp only [List.mem_cons, Prod.mk.injEq, reduceCtorEq, and_false, false_or,
      List.not_mem_nil, or_false] at hMem
    rw [hMem.1]
    exact holdsMasterKey_sporkContext _
  · intro before ctx spork hBefore _
    have hMem := hBefore.subset (List.mem_append_right before (List.mem_singleton_self _))
    simp only [List.mem_cons, Prod.mk.injEq, SporkAction.received.injEq, reduceCtorEq,
      and_false, List.not_mem_nil, or_false] at hMem
    rw [hMem.2]
    decide +kernel

end Sample

end SocietyGold
