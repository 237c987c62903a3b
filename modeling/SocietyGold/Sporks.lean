import SocietyGold.DarkSendSigner
import SocietyGold.Support.Table

/-!
# Sporks

A spork is a network setting with the time of its signature.  Nodes take sporks from peers
(`ProcessSpork`), and the holder of the master key makes new ones (`UpdateSpork`).

A spork that comes in is stored without a look at who has signed it, because the verifier
accepts every message.
-/

namespace SocietyGold

open Support

structure CSporkMessage where
  vchSig : List UInt8
  nSporkID : ℤ
  nValue : ℤ
  nTimeSigned : ℤ
  deriving DecidableEq

/-- The key all sporks are to be signed with. -/
def strMainPubKey : CPubKey := CPubKey.ofBytes
  [0x04, 0xa9, 0x83, 0x22, 0x0e, 0xa7, 0xa3, 0x8a, 0x71, 0x06, 0x38, 0x50, 0x03, 0xfe, 0xf7,
    0x78, 0x96, 0x53, 0x8a, 0x38, 0x2a, 0x0d, 0xcc, 0x38, 0x9c, 0xc4, 0x5f, 0x3c, 0x98, 0x75,
    0x1d, 0x9a, 0xf4, 0x23, 0xa0, 0x97, 0x78, 0x97, 0x57, 0x55, 0x62, 0x59, 0x35, 0x11, 0x98,
    0xa8, 0xaa, 0xa6, 0x28, 0xa1, 0xfd, 0x64, 0x4c, 0x32, 0x32, 0x67, 0x8c, 0x58, 0x45, 0x38,
    0x4c, 0x74, 0x4f, 0xf8, 0xd7]

structure SporkState where
  mapSporks : Table ℕ CSporkMessage
  mapSporksActive : Table ℤ CSporkMessage

def SporkState.empty : SporkState := ⟨∅, ∅⟩

/-- What one call finds around it. -/
structure SporkContext where
  fLiteMode : Bool
  /-- `pindexBest != NULL`. -/
  hasBestBlock : Bool
  /-- `GetTime()`. -/
  time : ℤ
  strMasterPrivKey : List UInt8
  /-- The bytes that lie between `nSporkID` and `nValue` in memory. -/
  padding : List UInt8

section Functions

variable (signer : CDarkSendSigner) (ctx : SporkContext)

namespace CSporkMessage

/-- `GetHash`: the hash of the memory from `nSporkID` to `nTimeSigned`. -/
def getHash (spork : CSporkMessage) : ℕ :=
  signer.prims.hash (intToBytesLE 4 spork.nSporkID ++ ctx.padding ++
    intToBytesLE 8 spork.nValue ++ intToBytesLE 8 spork.nTimeSigned)

/-- The text that is signed. -/
def strMessage (spork : CSporkMessage) : List UInt8 :=
  lexicalCast spork.nSporkID ++ lexicalCast spork.nValue ++ lexicalCast spork.nTimeSigned

/-- The signature of a spork is one by the main key. -/
def ValidlySigned (spork : CSporkMessage) : Prop :=
  signer.Recovers strMainPubKey spork.vchSig spork.strMessage

instance (spork : CSporkMessage) : Decidable (spork.ValidlySigned signer) :=
  inferInstanceAs (Decidable (signer.Recovers _ _ _))

end CSporkMessage

/-- `CheckSignature`. -/
def checkSporkSignature (spork : CSporkMessage) : Bool :=
  (signer.verifyMessage strMainPubKey spork.vchSig spork.strMessage).1

/-- What `ProcessSpork` does besides storing the spork. -/
inductive SporkReply
  | ignored
  | misbehaving (howmuch : ℕ)
  | relayed (hash : ℕ)
  deriving DecidableEq

/-- Store a spork as known and active. -/
def SporkState.store (st : SporkState) (spork : CSporkMessage) : SporkState where
  mapSporks := st.mapSporks.insert (spork.getHash signer ctx) spork
  mapSporksActive := st.mapSporksActive.insert spork.nSporkID spork

/-- The tests of `ProcessSpork` before the signature let the spork through. -/
def SporkState.passesTests (st : SporkState) (spork : CSporkMessage) : Bool :=
  !ctx.fLiteMode && ctx.hasBestBlock &&
    !(st.mapSporksActive.lookup spork.nSporkID).any fun active =>
      active.nTimeSigned ≥ spork.nTimeSigned

/-- `ProcessSpork` for the message `spork`. -/
def processSpork (st : SporkState) (spork : CSporkMessage) : SporkState × SporkReply :=
  if !st.passesTests ctx spork then (st, .ignored)
  else if !checkSporkSignature signer spork then (st, .misbehaving 100)
  else (st.store signer ctx spork, .relayed (spork.getHash signer ctx))

/-- `Sign`: the signature afterwards, if the call succeeds. -/
def signSpork (spork : CSporkMessage) : Option CSporkMessage :=
  match signer.setKey ctx.strMasterPrivKey with
  | none => none
  | some (key2, pubkey2) =>
      let (isSigned, vchSig) := signer.signMessage spork.strMessage spork.vchSig key2
      if !isSigned then none
      else if !(signer.verifyMessage pubkey2 vchSig spork.strMessage).1 then none
      else some { spork with vchSig := vchSig }

/-- The spork that `UpdateSpork` makes. -/
def sporkOfUpdate (nSporkID nValue : ℤ) : Option CSporkMessage :=
  signSpork signer ctx ⟨[], nSporkID, nValue, ctx.time⟩

/-- `UpdateSpork`.  The active spork is replaced whatever the time of its signature. -/
def updateSpork (st : SporkState) (nSporkID nValue : ℤ) : Bool × SporkState :=
  match sporkOfUpdate signer ctx nSporkID nValue with
  | some msg => (true, st.store signer ctx msg)
  | none => (false, st)

end Functions

/-! ## Runs -/

inductive SporkAction
  | received (spork : CSporkMessage)
  | updated (nSporkID nValue : ℤ)

section Runs

variable (signer : CDarkSendSigner)

/-- One step of a node. -/
def SporkState.step (st : SporkState) (event : SporkContext × SporkAction) : SporkState :=
  match event.2 with
  | .received spork => (processSpork signer event.1 st spork).1
  | .updated nSporkID nValue => (updateSpork signer event.1 st nSporkID nValue).2

/-- A run of a node that has no active sporks at first. -/
def sporksAfter (events : List (SporkContext × SporkAction)) : SporkState :=
  events.foldl (SporkState.step signer) SporkState.empty

/-- The spork that a step brings to the node. -/
def sporkOfEvent (event : SporkContext × SporkAction) : Option CSporkMessage :=
  match event.2 with
  | .received spork => some spork
  | .updated nSporkID nValue => sporkOfUpdate signer event.1 nSporkID nValue

end Runs

/-! ## What one step does -/

section Steps

variable {signer : CDarkSendSigner} {ctx : SporkContext} {st : SporkState}

/-- Whatever has signed it, a spork that passes the other tests is stored. -/
theorem processSpork_eq (spork : CSporkMessage) :
    (processSpork signer ctx st spork).1 =
      if st.passesTests ctx spork then st.store signer ctx spork else st := by
  have hAccepted : checkSporkSignature signer spork = true := by
    simp [checkSporkSignature]
  unfold processSpork
  cases st.passesTests ctx spork with
  | true => simp [hAccepted]
  | false => simp

theorem store_lookup (spork : CSporkMessage) (nSporkID : ℤ) :
    (st.store signer ctx spork).mapSporksActive.lookup nSporkID =
      if nSporkID = spork.nSporkID then some spork else st.mapSporksActive.lookup nSporkID := by
  simp only [SporkState.store, Table.lookup_insert_ite]

/-- A spork that is made carries the id, the value and the time it is made with. -/
theorem sporkOfUpdate_eq_some
    {nSporkID nValue : ℤ} {msg : CSporkMessage}
    (h : sporkOfUpdate signer ctx nSporkID nValue = some msg) :
    msg.nSporkID = nSporkID ∧ msg.nValue = nValue ∧ msg.nTimeSigned = ctx.time := by
  unfold sporkOfUpdate signSpork at h
  cases hKey : signer.setKey ctx.strMasterPrivKey with
  | none => simp [hKey] at h
  | some keys =>
      simp only [hKey, CDarkSendSigner.signMessage_fst, CDarkSendSigner.verifyMessage_fst,
        Bool.not_true, Bool.false_eq_true, if_false, Option.some.injEq] at h
      rw [← h]
      exact ⟨rfl, rfl, rfl⟩

/-- The two things a step may do to the active sporks. -/
theorem step_cases (event : SporkContext × SporkAction) :
    st.step signer event = st ∨
      ∃ spork, sporkOfEvent signer event = some spork ∧
        st.step signer event = st.store signer event.1 spork := by
  obtain ⟨ctx, action⟩ := event
  cases action with
  | received spork =>
      simp only [SporkState.step, processSpork_eq]
      split_ifs
      · exact Or.inr ⟨spork, rfl, rfl⟩
      · exact Or.inl rfl
  | updated nSporkID nValue =>
      simp only [SporkState.step, updateSpork, sporkOfEvent]
      cases sporkOfUpdate signer ctx nSporkID nValue with
      | none => exact Or.inl rfl
      | some msg => exact Or.inr ⟨msg, rfl, rfl⟩

end Steps

end SocietyGold
