import SocietyGold.CompactSizes
import SocietyGold.LaxDER
import SocietyGold.Support.Table

/-!
# The key store

The keys of a wallet are stored as they are, or encrypted under a master key that is known
while the store is unlocked.  Unlocking tries the given master key on the first of the
encrypted keys only.
-/

namespace SocietyGold

open Support CBigNum

/-! ## Keys -/

/-- `CKey::Check`, by `secp256k1_ec_seckey_verify`. -/
def checkKey (vch : List UInt8) : Bool :=
  vch.length = 32 && 0 < fromBytesBE vch && fromBytesBE vch < SECP256K1_N

/-- A valid key; an invalid one is the lack of a key. -/
structure CKey where
  vch : List UInt8
  fCompressed : Bool
  valid : checkKey vch = true
  deriving DecidableEq

/-- `CKey::Set`. -/
def CKey.set (bytes : List UInt8) (fCompressedIn : Bool) : Option CKey :=
  if h : checkKey bytes = true then some ⟨bytes, fCompressedIn, h⟩ else none

/-! ## Encryption -/

def WALLET_CRYPTO_KEY_SIZE : ℕ := 32
def WALLET_CRYPTO_SALT_SIZE : ℕ := 8

/-- AES-256-CBC, and keys from passphrases. -/
structure WalletCrypto where
  /-- `EVP_BytesToKey`, for the method with number 1 after scrypt: a key and an IV. -/
  bytesToKey : (nDerivationMethod : ℕ) → (strKeyData chSalt : List UInt8) → (nRounds : ℕ) →
    List UInt8 × List UInt8
  encrypt : (chKey chIV vchPlaintext : List UInt8) → List UInt8
  decrypt : (chKey chIV vchCiphertext : List UInt8) → Option (List UInt8)
  /-- There is no padding in an empty text. -/
  decrypt_nil : ∀ chKey chIV, decrypt chKey chIV [] = none

/-- A crypter whose key is set. -/
structure CCrypter where
  chKey : List UInt8
  chIV : List UInt8

namespace CCrypter

/-- `CCrypter::SetKeyFromPassphrase`. -/
def setKeyFromPassphrase (crypto : WalletCrypto) (strKeyData chSalt : List UInt8)
    (nRounds nDerivationMethod : ℕ) : Option CCrypter :=
  if nRounds < 1 ∨ chSalt.length ≠ WALLET_CRYPTO_SALT_SIZE then none
  else if nDerivationMethod = 0 ∨ nDerivationMethod = 1 then
    let derived := crypto.bytesToKey nDerivationMethod strKeyData chSalt nRounds
    some ⟨derived.1, derived.2⟩
  else none

/-- `CCrypter::SetKey`. -/
def setKey (chNewKey chNewIV : List UInt8) : Option CCrypter :=
  if chNewKey.length ≠ WALLET_CRYPTO_KEY_SIZE ∨ chNewIV.length ≠ WALLET_CRYPTO_KEY_SIZE then none
  else some ⟨chNewKey, chNewIV⟩

end CCrypter

def encryptSecret (crypto : WalletCrypto) (vMasterKey vchPlaintext : List UInt8) (nIV : ℕ) :
    Option (List UInt8) :=
  (CCrypter.setKey vMasterKey (toBytesLE 32 nIV)).map fun cKeyCrypter =>
    crypto.encrypt cKeyCrypter.chKey cKeyCrypter.chIV vchPlaintext

def decryptSecret (crypto : WalletCrypto) (vMasterKey vchCiphertext : List UInt8) (nIV : ℕ) :
    Option (List UInt8) :=
  (CCrypter.setKey vMasterKey (toBytesLE 32 nIV)).bind fun cKeyCrypter =>
    crypto.decrypt cKeyCrypter.chKey cKeyCrypter.chIV vchCiphertext

/-- A missing secret opens under no master key. -/
theorem decryptSecret_nil (crypto : WalletCrypto) (vMasterKey : List UInt8) (nIV : ℕ) :
    decryptSecret crypto vMasterKey [] nIV = none := by
  unfold decryptSecret
  cases CCrypter.setKey vMasterKey (toBytesLE 32 nIV) with
  | none => rfl
  | some cKeyCrypter => exact crypto.decrypt_nil _ _

/-! ## The store -/

/-- What the keys of a wallet depend on. -/
structure KeyTools where
  prims : ScriptPrimitives
  crypto : WalletCrypto
  /-- `CKey::GetPubKey`. -/
  getPubKey : CKey → CPubKey
  /-- `CKey::GetPrivKey`, the text that the wallet file has. -/
  getPrivKey : CKey → List UInt8
  /-- `CKey::Load` of such a text. -/
  load : (privkey : List UInt8) → (vchPubKey : CPubKey) → (fSkipCheck : Bool) → Option CKey

/-- `CPubKey::IsCompressed`. -/
def CPubKey.isCompressed (pubkey : CPubKey) : Bool := pubkey.vch.length = 33

/-- `CPubKey::GetHash`. -/
def CPubKey.getHash (P : ScriptPrimitives) (pubkey : CPubKey) : ℕ := P.hash pubkey.vch

/-- `CCryptoKeyStore`.  With encryption there are no plain keys, without it there is nothing
encrypted and no master key. -/
structure CCryptoKeyStore where
  fUseCrypto : Bool
  mapKeys : Table ℕ CKey
  mapCryptedKeys : Table ℕ (CPubKey × List UInt8)
  vMasterKey : List UInt8
  mapKeys_of_crypted : fUseCrypto = true → mapKeys = ∅
  crypted_of_plain : fUseCrypto = false → mapCryptedKeys = ∅ ∧ vMasterKey = []

namespace CCryptoKeyStore

variable (tools : KeyTools)

def empty : CCryptoKeyStore :=
  ⟨false, ∅, ∅, [], fun h => absurd h Bool.false_ne_true, fun _ => ⟨rfl, rfl⟩⟩

/-- A store with encryption. -/
def crypted (mapCryptedKeys : Table ℕ (CPubKey × List UInt8)) (vMasterKey : List UInt8) :
    CCryptoKeyStore :=
  ⟨true, ∅, mapCryptedKeys, vMasterKey, fun _ => rfl, fun h => absurd h.symm Bool.false_ne_true⟩

/-- A store without encryption. -/
def plain (mapKeys : Table ℕ CKey) : CCryptoKeyStore :=
  ⟨false, mapKeys, ∅, [], fun h => absurd h Bool.false_ne_true, fun _ => ⟨rfl, rfl⟩⟩

def isLocked (store : CCryptoKeyStore) : Bool := store.fUseCrypto && store.vMasterKey.isEmpty

/-- `SetCrypted`; there is no result where the code returns false. -/
def setCrypted (store : CCryptoKeyStore) : Option CCryptoKeyStore :=
  if store.fUseCrypto then some store
  else if store.mapKeys.entries ≠ [] then none
  else some (crypted store.mapCryptedKeys store.vMasterKey)

/-- `LockKeyStore`. -/
def lockKeyStore (store : CCryptoKeyStore) : Option CCryptoKeyStore :=
  store.setCrypted.map fun store => crypted store.mapCryptedKeys []

/-- Does the master key open the entry?  `GetPubKey` asserts that the key is valid. -/
def opens (vMasterKeyIn : List UInt8) (entry : CPubKey × List UInt8) : Checked Bool :=
  match decryptSecret tools.crypto vMasterKeyIn entry.2 (entry.1.getHash tools.prims) with
  | none => .ok false
  | some vchSecret =>
      if vchSecret.length ≠ 32 then .ok false
      else
        match CKey.set vchSecret entry.1.isCompressed with
        | none => .error .assertionFailed
        | some key => .ok (tools.getPubKey key = entry.1)

/-- `Unlock`: the loop over the encrypted keys ends with the first of them. -/
def unlock (store : CCryptoKeyStore) (vMasterKeyIn : List UInt8) :
    Checked (Option CCryptoKeyStore) :=
  match store.setCrypted with
  | none => .ok none
  | some store =>
      match store.mapCryptedKeys.inKeyOrder with
      | [] => .ok (some (crypted store.mapCryptedKeys vMasterKeyIn))
      | (_, entry) :: _ => do
          let fOpens ← opens tools vMasterKeyIn entry
          .ok (if fOpens then some (crypted store.mapCryptedKeys vMasterKeyIn) else none)

/-- `AddCryptedKey`. -/
def addCryptedKey (store : CCryptoKeyStore) (vchPubKey : CPubKey)
    (vchCryptedSecret : List UInt8) : Option CCryptoKeyStore :=
  store.setCrypted.map fun store =>
    crypted (store.mapCryptedKeys.insert (vchPubKey.getID tools.prims)
      (vchPubKey, vchCryptedSecret)) store.vMasterKey

/-- The secret of a key that is added to an encrypted store: `AddKeyPubKey` up to the call of
`AddCryptedKey`. -/
def cryptedSecret (store : CCryptoKeyStore) (key : CKey) (pubkey : CPubKey) :
    Option (List UInt8) :=
  if store.isLocked then none
  else encryptSecret tools.crypto store.vMasterKey key.vch (pubkey.getHash tools.prims)

/-- `GetKey`; a stored key that is not valid is no key. -/
def getKey (store : CCryptoKeyStore) (address : ℕ) : Option (Option CKey) :=
  if !store.fUseCrypto then (store.mapKeys.lookup address).map some
  else do
    let (vchPubKey, vchCryptedSecret) ← store.mapCryptedKeys.lookup address
    let vchSecret ← decryptSecret tools.crypto store.vMasterKey vchCryptedSecret
      (vchPubKey.getHash tools.prims)
    if vchSecret.length ≠ 32 then none
    else some (CKey.set vchSecret vchPubKey.isCompressed)

/-- `HaveKey`. -/
def haveKey (store : CCryptoKeyStore) (address : ℕ) : Bool :=
  if !store.fUseCrypto then address ∈ store.mapKeys else address ∈ store.mapCryptedKeys

/-! ## Stores with encryption -/

theorem eq_crypted {store : CCryptoKeyStore} (h : store.fUseCrypto = true) :
    store = crypted store.mapCryptedKeys store.vMasterKey := by
  obtain ⟨fUseCrypto, mapKeys, mapCryptedKeys, vMasterKey, hKeys, hPlain⟩ := store
  obtain rfl : fUseCrypto = true := h
  obtain rfl := hKeys rfl
  rfl

/-- The key under an address of a locked store is out of reach. -/
theorem getKey_of_locked {store : CCryptoKeyStore} (h : store.isLocked = true) (address : ℕ) :
    store.getKey tools address = none := by
  obtain ⟨hCrypted, hEmpty⟩ := Bool.and_eq_true_iff.mp h
  have hMaster := List.isEmpty_iff.mp hEmpty
  unfold getKey
  rw [if_neg (by simp [hCrypted]), hMaster]
  cases store.mapCryptedKeys.lookup address with
  | none => rfl
  | some entry => rfl

/-- An entry without a secret opens under no master key. -/
theorem opens_nil (vMasterKeyIn : List UInt8) (pubkey : CPubKey) :
    opens tools vMasterKeyIn (pubkey, []) = .ok false := by
  unfold opens
  rw [decryptSecret_nil]

end CCryptoKeyStore

end SocietyGold
