import SocietyGold.CryptoKeyStore
import SocietyGold.Support.Guarded
import SocietyGold.Support.Trace

/-!
# The keys of a wallet and their file

Every key is stored in memory and written to the wallet file, in an encrypted wallet as an
encrypted record that replaces a plain one.  Payments to stealth addresses that arrive while the
wallet is locked leave entries without a secret; unlocking fills them in.
-/

namespace SocietyGold

open Support

/-! ## The file -/

/-- `CMasterKey`. -/
structure CMasterKey where
  vchCryptedKey : List UInt8
  vchSalt : List UInt8
  nDerivationMethod : ℕ
  nDeriveIterations : ℕ
  deriving DecidableEq

/-- The records about keys, by the types they start with. -/
structure WalletFile where
  key : Table (List UInt8) (List UInt8 × ℕ)
  ckey : Table (List UInt8) (List UInt8)
  mkey : Table ℕ CMasterKey
  keymeta : Table (List UInt8) ℤ

namespace WalletFile

def empty : WalletFile := ⟨∅, ∅, ∅, ∅⟩

/-- `WriteKey`: neither record is overwritten. -/
def writeKey (P : ScriptPrimitives) (file : WalletFile) (vchPubKey : CPubKey)
    (vchPrivKey : List UInt8) (keyMeta : ℤ) : Bool × WalletFile :=
  if vchPubKey.vch ∈ file.keymeta then (false, file)
  else
    let file := { file with keymeta := file.keymeta.insert vchPubKey.vch keyMeta }
    if vchPubKey.vch ∈ file.key then (false, file)
    else (true, { file with
      key := file.key.insert vchPubKey.vch (vchPrivKey, P.hash (vchPubKey.vch ++ vchPrivKey)) })

/-- `WriteCryptedKey`: the encrypted secret is not overwritten, the plain one is erased. -/
def writeCryptedKey (file : WalletFile) (vchPubKey : CPubKey) (vchCryptedSecret : List UInt8)
    (keyMeta : ℤ) : Bool × WalletFile :=
  let file := { file with keymeta := file.keymeta.insert vchPubKey.vch keyMeta }
  if vchPubKey.vch ∈ file.ckey then (false, file)
  else (true, { file with
    ckey := file.ckey.insert vchPubKey.vch vchCryptedSecret
    key := file.key.erase vchPubKey.vch })

/-- `WriteMasterKey`. -/
def writeMasterKey (file : WalletFile) (nID : ℕ) (kMasterKey : CMasterKey) : WalletFile :=
  { file with mkey := file.mkey.insert nID kMasterKey }

end WalletFile

/-! ## The wallet -/

/-- The part of `CWallet` about keys. -/
structure KeyWallet where
  keystore : CCryptoKeyStore
  mapMasterKeys : Table ℕ CMasterKey
  nMasterKeyMaxID : ℕ
  /-- The creation times. -/
  mapKeyMetadata : Table ℕ ℤ
  file : WalletFile

namespace KeyWallet

variable (tools : KeyTools)

def empty : KeyWallet := ⟨.empty, ∅, 0, ∅, .empty⟩

def isLocked (wallet : KeyWallet) : Bool := wallet.keystore.isLocked

/-- `CWallet::AddCryptedKey`. -/
def addCryptedKey (wallet : KeyWallet) (vchPubKey : CPubKey) (vchCryptedSecret : List UInt8) :
    Bool × KeyWallet :=
  match wallet.keystore.addCryptedKey tools vchPubKey vchCryptedSecret with
  | none => (false, wallet)
  | some keystore =>
      let keyId := vchPubKey.getID tools.prims
      let keyMeta := (wallet.mapKeyMetadata.lookup keyId).getD 0
      let written := wallet.file.writeCryptedKey vchPubKey vchCryptedSecret keyMeta
      (written.1, { wallet with
        keystore := keystore
        mapKeyMetadata := wallet.mapKeyMetadata.touch keyId 0
        file := written.2 })

/-- `AddKeyPubKey` for a key with its own public key, as `AddKey` and the callers pass it. -/
def addKey (wallet : KeyWallet) (key : CKey) : Bool × KeyWallet :=
  let pubkey := tools.getPubKey key
  let keyId := pubkey.getID tools.prims
  if !wallet.keystore.fUseCrypto then
    let written := wallet.file.writeKey tools.prims pubkey (tools.getPrivKey key)
      ((wallet.mapKeyMetadata.lookup keyId).getD 0)
    (written.1, { wallet with
      keystore := .plain (wallet.keystore.mapKeys.insert keyId key)
      mapKeyMetadata := wallet.mapKeyMetadata.touch keyId 0
      file := written.2 })
  else
    match wallet.keystore.cryptedSecret tools key pubkey with
    | none => (false, wallet)
    | some vchCryptedSecret => wallet.addCryptedKey tools pubkey vchCryptedSecret

/-- `Lock`. -/
def lock (wallet : KeyWallet) : Bool × KeyWallet :=
  if wallet.isLocked then (true, wallet)
  else
    match wallet.keystore.lockKeyStore with
    | none => (false, wallet)
    | some keystore => (true, { wallet with keystore := keystore })

/-- One round of `UnlockStealthAddresses` over the encrypted keys; `expand` is the secret that
the stealth addresses give for a public key. -/
def fillSecret (expand : CPubKey → Option CKey) (wallet : KeyWallet)
    (entry : CPubKey × List UInt8) : KeyWallet :=
  if entry.2.length ≠ 0 then wallet
  else
    match expand entry.1 with
    | none => wallet
    | some key =>
        if tools.getPubKey key ≠ entry.1 then wallet else (wallet.addKey tools key).2

/-- `UnlockStealthAddresses`. -/
def unlockStealthAddresses (expand : CPubKey → Option CKey) (wallet : KeyWallet) : KeyWallet :=
  (wallet.keystore.mapCryptedKeys.inKeyOrder.map Prod.snd).foldl (fillSecret tools expand) wallet

/-- The master key that a passphrase decrypts from a record. -/
def openMasterKey (strWalletPassphrase : List UInt8) (kMasterKey : CMasterKey) :
    Option (List UInt8) :=
  (CCrypter.setKeyFromPassphrase tools.crypto strWalletPassphrase kMasterKey.vchSalt
    kMasterKey.nDeriveIterations kMasterKey.nDerivationMethod).bind fun crypter =>
      tools.crypto.decrypt crypter.chKey crypter.chIV kMasterKey.vchCryptedKey

/-- `Unlock`: of the master keys the first one is tried. -/
def unlock (expand : CPubKey → Option CKey) (wallet : KeyWallet)
    (strWalletPassphrase : List UInt8) : Checked (Bool × KeyWallet) :=
  if !wallet.isLocked then .ok (true, wallet)
  else
    match wallet.mapMasterKeys.inKeyOrder with
    | [] => .ok (true, wallet.unlockStealthAddresses tools expand)
    | (_, kMasterKey) :: _ =>
        match openMasterKey tools strWalletPassphrase kMasterKey with
        | none => .ok (false, wallet)
        | some vMasterKey => do
            match ← wallet.keystore.unlock tools vMasterKey with
            | none => .ok (false, wallet)
            | some keystore =>
                .ok (true,
                  { wallet with keystore := keystore }.unlockStealthAddresses tools expand)

/-- The number of rounds that is used for a measured one. -/
def deriveIterations (nMeasured : ℕ) : ℕ := if nMeasured < 25000 then 25000 else nMeasured

/-- `ChangeWalletPassphrase` once a record is open: it is encrypted anew. -/
def rewrapMasterKey (wallet : KeyWallet) (nID : ℕ) (kMasterKey : CMasterKey)
    (vMasterKey strNewWalletPassphrase : List UInt8) (nMeasured : ℕ) : Bool × KeyWallet :=
  let kMasterKey := { kMasterKey with nDeriveIterations := deriveIterations nMeasured }
  match CCrypter.setKeyFromPassphrase tools.crypto strNewWalletPassphrase kMasterKey.vchSalt
      kMasterKey.nDeriveIterations kMasterKey.nDerivationMethod with
  | none => (false, { wallet with mapMasterKeys := wallet.mapMasterKeys.insert nID kMasterKey })
  | some crypter =>
      let kMasterKey := { kMasterKey with
        vchCryptedKey := tools.crypto.encrypt crypter.chKey crypter.chIV vMasterKey }
      (true, { wallet with
        mapMasterKeys := wallet.mapMasterKeys.insert nID kMasterKey
        file := wallet.file.writeMasterKey nID kMasterKey })

/-- The loop of `ChangeWalletPassphrase` over the master keys. -/
def changePassphraseLoop (expand : CPubKey → Option CKey)
    (strOld strNew : List UInt8) (nMeasured : ℕ) (fWasLocked : Bool) :
    List (ℕ × CMasterKey) → KeyWallet → Checked (Bool × KeyWallet)
  | [], wallet => .ok (false, wallet)
  | (nID, kMasterKey) :: rest, wallet =>
      match openMasterKey tools strOld kMasterKey with
      | none => .ok (false, wallet)
      | some vMasterKey => do
          match ← wallet.keystore.unlock tools vMasterKey with
          | none =>
              changePassphraseLoop expand strOld strNew nMeasured fWasLocked rest wallet
          | some keystore =>
              let wallet := { wallet with keystore := keystore }.unlockStealthAddresses tools expand
              let rewrapped :=
                wallet.rewrapMasterKey tools nID kMasterKey vMasterKey strNew nMeasured
              if rewrapped.1 && fWasLocked then .ok (true, rewrapped.2.lock.2)
              else .ok rewrapped

/-- `ChangeWalletPassphrase`. -/
def changeWalletPassphrase (expand : CPubKey → Option CKey) (wallet : KeyWallet)
    (strOld strNew : List UInt8) (nMeasured : ℕ) : Checked (Bool × KeyWallet) :=
  let fWasLocked := wallet.isLocked
  let wallet := wallet.lock.2
  changePassphraseLoop tools expand strOld strNew nMeasured fWasLocked
    wallet.mapMasterKeys.inKeyOrder wallet

end KeyWallet

/-! ## Loading -/

/-- The records in the order of the cursor. -/
inductive WalletRecord
  | key (vchPubKey vchPrivKey : List UInt8) (hash : ℕ)
  | ckey (vchPubKey vchCryptedSecret : List UInt8)
  | mkey (nID : ℕ) (kMasterKey : CMasterKey)
  | keymeta (vchPubKey : List UInt8) (nCreateTime : ℤ)
  deriving DecidableEq

def WalletFile.records (file : WalletFile) : List WalletRecord :=
  file.key.entries.map (fun e => .key e.1 e.2.1 e.2.2) ++
    file.ckey.entries.map (fun e => .ckey e.1 e.2) ++
    file.mkey.entries.map (fun e => .mkey e.1 e.2) ++
    file.keymeta.entries.map (fun e => .keymeta e.1 e.2)

namespace KeyWallet

variable (tools : KeyTools)

/-- A plain key from the file, unless it is corrupt. -/
def loadKey (wallet : KeyWallet) (vchPubKey : CPubKey) (vchPrivKey : List UInt8) (hash : ℕ) :
    Guarded KeyWallet := do
  returnFalseIf (!vchPubKey.isValid)
  returnFalseIf (hash ≠ 0 ∧ tools.prims.hash (vchPubKey.vch ++ vchPrivKey) ≠ hash)
  let key ← answer (tools.load vchPrivKey vchPubKey (hash ≠ 0))
  let keyId := vchPubKey.getID tools.prims
  -- `LoadKey` is `AddKeyPubKey` of the key store
  if !wallet.keystore.fUseCrypto then
    .ok { wallet with keystore := .plain (wallet.keystore.mapKeys.insert keyId key) }
  else do
    let vchCryptedSecret ← answer (wallet.keystore.cryptedSecret tools key vchPubKey)
    let keystore ← answer (wallet.keystore.addCryptedKey tools vchPubKey vchCryptedSecret)
    .ok { wallet with keystore := keystore }

/-- `ReadKeyValue`, for the records about keys. -/
def readKeyValue (wallet : KeyWallet) : WalletRecord → Guarded KeyWallet
  | .key vchPubKey vchPrivKey hash => wallet.loadKey tools (.ofBytes vchPubKey) vchPrivKey hash
  | .ckey vchPubKey vchCryptedSecret => do
      let keystore ← answer
        (wallet.keystore.addCryptedKey tools (.ofBytes vchPubKey) vchCryptedSecret)
      .ok { wallet with keystore := keystore }
  | .mkey nID kMasterKey => do
      returnFalseIf (nID ∈ wallet.mapMasterKeys)
      .ok { wallet with
        mapMasterKeys := wallet.mapMasterKeys.insert nID kMasterKey
        nMasterKeyMaxID := if wallet.nMasterKeyMaxID < nID then nID else wallet.nMasterKeyMaxID }
  | .keymeta vchPubKey nCreateTime =>
      .ok { wallet with
        mapKeyMetadata := wallet.mapKeyMetadata.insert
          ((CPubKey.ofBytes vchPubKey).getID tools.prims) nCreateTime }

/-- `LoadWallet`.  A record about keys that cannot be read makes the file corrupt. -/
def loadWallet (file : WalletFile) (records : List WalletRecord) : Guarded KeyWallet :=
  records.foldlM (readKeyValue tools) { empty with file := file }

/-! ## Events -/

/-- What happens to a wallet. -/
inductive Event
  | addKey (key : CKey)
  /-- A payment to a stealth address of the wallet. -/
  | receiveStealth (pubkey : CPubKey)
  | lock
  | unlock (strWalletPassphrase : List UInt8)
  | changeWalletPassphrase (strOld strNew : List UInt8) (nMeasured : ℕ)
  /-- The program ends and loads the file, in which the cursor finds these records. -/
  | restart (records : List WalletRecord)

/-- The locked branch of `FindStealthTransactions`: a key that is not there yet is added without
its secret. -/
def receiveStealth (wallet : KeyWallet) (pubkey : CPubKey) : Bool × KeyWallet :=
  if wallet.keystore.haveKey (pubkey.getID tools.prims) || !wallet.isLocked then (false, wallet)
  else wallet.addCryptedKey tools pubkey []

/-- The event with the result of its call; a file that is not loaded ends the program. -/
def apply (expand : CPubKey → Option CKey) (wallet : KeyWallet) : Event → Checked (Bool × KeyWallet)
  | .addKey key => .ok (wallet.addKey tools key)
  | .receiveStealth pubkey => .ok (wallet.receiveStealth tools pubkey)
  | .lock => .ok wallet.lock
  | .unlock strWalletPassphrase => wallet.unlock tools expand strWalletPassphrase
  | .changeWalletPassphrase strOld strNew nMeasured =>
      wallet.changeWalletPassphrase tools expand strOld strNew nMeasured
  | .restart records =>
      if records.Perm wallet.file.records then
        match loadWallet tools wallet.file records with
        | .ok wallet => .ok (true, wallet)
        | .error _ => .error .uncaughtException
      else .ok (false, wallet)

end KeyWallet

end SocietyGold
