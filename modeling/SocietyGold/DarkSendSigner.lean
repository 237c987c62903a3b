import SocietyGold.CheckSig

/-!
# Signed messages

Sporks, masternode announcements and payment votes are signed as texts.  The verifier recovers
a public key from the signature, reports whether that went well, and accepts the message in
any case.
-/

namespace SocietyGold

/-- The elliptic curve operations on messages.  Secrets are kept as bytes. -/
structure CDarkSendSigner where
  prims : ScriptPrimitives
  /-- `RecoverCompact`. -/
  recoverCompact : (hash : ℕ) → (vchSig : List UInt8) → Option CPubKey
  /-- `SignCompact`. -/
  signCompact : (key : List UInt8) → (hash : ℕ) → Option (List UInt8)
  /-- `SetKey`: the key and public key of a secret, as a text. -/
  setKey : (strSecret : List UInt8) → Option (List UInt8 × CPubKey)

/-- `SocietyG Signed Message:` and a line break. -/
def strMessageMagic : List UInt8 :=
  [0x53, 0x6f, 0x63, 0x69, 0x65, 0x74, 0x79, 0x47, 0x20, 0x53, 0x69, 0x67, 0x6e, 0x65, 0x64,
    0x20, 0x4d, 0x65, 0x73, 0x73, 0x61, 0x67, 0x65, 0x3a, 0x0a]

/-- `boost::lexical_cast<std::string>` of a number. -/
def lexicalCast (n : ℤ) : List UInt8 :=
  (if n < 0 then [0x2d] else []) ++
    (Nat.toDigits 10 n.natAbs).map fun c => UInt8.ofNat c.toNat

namespace CDarkSendSigner

variable (signer : CDarkSendSigner)

/-- The hash of a text that is signed. -/
def messageHash (strMessage : List UInt8) : ℕ :=
  signer.prims.hash (serializeBytes strMessageMagic ++ serializeBytes strMessage)

/-- `SignMessage`: the signature afterwards.  A signature that cannot be made is reported and
taken for success. -/
def signMessage (strMessage : List UInt8) (vchSig : List UInt8) (key : List UInt8) :
    Bool × List UInt8 :=
  match signer.signCompact key (signer.messageHash strMessage) with
  | some vchSig => (true, vchSig)
  | none => (true, vchSig)

/-- `VerifyMessage`, with the error message.  The comparison of the recovered key with the
given one stands behind `return true`. -/
def verifyMessage (_pubkey : CPubKey) (vchSig : List UInt8) (strMessage : List UInt8) :
    Bool × String :=
  match signer.recoverCompact (signer.messageHash strMessage) vchSig with
  | none => (true, "Error recovering public key.")
  | some _ => (true, "")

/-- The signature of the text is one by the key. -/
def Recovers (pubkey : CPubKey) (vchSig : List UInt8) (strMessage : List UInt8) : Prop :=
  signer.recoverCompact (signer.messageHash strMessage) vchSig = some pubkey

instance (pubkey : CPubKey) (vchSig strMessage : List UInt8) :
    Decidable (signer.Recovers pubkey vchSig strMessage) :=
  inferInstanceAs (Decidable (_ = _))

/-- Every message is accepted. -/
@[simp] theorem verifyMessage_fst (pubkey : CPubKey) (vchSig strMessage : List UInt8) :
    (signer.verifyMessage pubkey vchSig strMessage).1 = true := by
  unfold verifyMessage
  cases signer.recoverCompact (signer.messageHash strMessage) vchSig <;> rfl

@[simp] theorem signMessage_fst (strMessage vchSig key : List UInt8) :
    (signer.signMessage strMessage vchSig key).1 = true := by
  unfold signMessage
  cases signer.signCompact key (signer.messageHash strMessage) <;> rfl

end CDarkSendSigner

end SocietyGold
