import SocietyGold.KeyWallet

/-!
# Histories of an encrypted wallet

Once a wallet is encrypted its file gets no plain key any more, and an encrypted record is never
replaced, across any number of restarts.  The second has a price.  A payment to a stealth address
that arrives while the wallet is locked leaves an entry without a secret, in memory and in the
file.  As unlocking tries the first entry only, such an entry in the first place keeps every
passphrase from unlocking the wallet, for good.
-/

namespace SocietyGold

open Support

namespace KeyWallet

variable {tools : KeyTools} {expand : CPubKey → Option CKey} {wallet wallet' wallet'' : KeyWallet}

/-- A step is an event with the result of its call. -/
def Step (tools : KeyTools) (expand : CPubKey → Option CKey) (wallet : KeyWallet)
    (labels : List (Event × Bool)) (wallet' : KeyWallet) : Prop :=
  ∃ event fResult, labels = [(event, fResult)] ∧
    wallet.apply tools expand event = .ok (fResult, wallet')

/-! ## What an encrypted wallet keeps -/

/-- Memory has an entry for each encrypted record of the file. -/
def Recorded (tools : KeyTools) (wallet : KeyWallet) : Prop :=
  ∀ bytes ∈ wallet.file.ckey,
    (CPubKey.ofBytes bytes).getID tools.prims ∈ wallet.keystore.mapCryptedKeys

/-- The wallet stays encrypted, no plain key is written, and no encrypted record is replaced. -/
structure Keeps (tools : KeyTools) (wallet wallet' : KeyWallet) : Prop where
  crypted : wallet'.keystore.fUseCrypto = true
  plain : ∀ bytes ∈ wallet'.file.key, bytes ∈ wallet.file.key
  records : ∀ bytes secret, wallet.file.ckey.lookup bytes = some secret →
    wallet'.file.ckey.lookup bytes = some secret
  recorded : Recorded tools wallet → Recorded tools wallet'

namespace Keeps

theorem refl (h : wallet.keystore.fUseCrypto = true) : Keeps tools wallet wallet :=
  ⟨h, fun _ hMem => hMem, fun _ _ hLookup => hLookup, fun hRecorded => hRecorded⟩

theorem trans (h : Keeps tools wallet wallet') (h' : Keeps tools wallet' wallet'') :
    Keeps tools wallet wallet'' :=
  ⟨h'.crypted, fun bytes hMem => h.plain bytes (h'.plain bytes hMem),
    fun bytes secret hLookup => h'.records bytes secret (h.records bytes secret hLookup),
    fun hRecorded => h'.recorded (h.recorded hRecorded)⟩

/-- A change that leaves the keys alone. -/
theorem ofSame
    (hCrypted : wallet'.keystore.fUseCrypto = true) (hPlain : wallet'.file.key = wallet.file.key)
    (hRecords : wallet'.file.ckey = wallet.file.ckey)
    (hEntries : wallet'.keystore.mapCryptedKeys = wallet.keystore.mapCryptedKeys) :
    Keeps tools wallet wallet' := by
  constructor
  · exact hCrypted
  · rw [hPlain]
    exact fun _ hMem => hMem
  · rw [hRecords]
    exact fun _ _ hLookup => hLookup
  · unfold Recorded
    rw [hRecords, hEntries]
    exact fun hRecorded => hRecorded

end Keeps

theorem ofBytes_vch (pubkey : CPubKey) : CPubKey.ofBytes pubkey.vch = pubkey := by
  unfold CPubKey.ofBytes
  rw [dif_pos pubkey.length_eq]

/-- What adding an entry does to an encrypted wallet. -/
theorem addCryptedKey_eq
    (hCrypted : wallet.keystore.fUseCrypto = true) (pubkey : CPubKey) (secret : List UInt8) :
    (wallet.addCryptedKey tools pubkey secret).2.keystore =
        .crypted (wallet.keystore.mapCryptedKeys.insert (pubkey.getID tools.prims)
          (pubkey, secret)) wallet.keystore.vMasterKey ∧
      ∃ keyMeta, (wallet.addCryptedKey tools pubkey secret).2.file =
        (wallet.file.writeCryptedKey pubkey secret keyMeta).2 := by
  unfold addCryptedKey CCryptoKeyStore.addCryptedKey CCryptoKeyStore.setCrypted
  rw [if_pos hCrypted]
  exact ⟨rfl, _, rfl⟩

theorem addCryptedKey_keeps
    (hCrypted : wallet.keystore.fUseCrypto = true) (pubkey : CPubKey) (secret : List UInt8) :
    Keeps tools wallet (wallet.addCryptedKey tools pubkey secret).2 := by
  obtain ⟨hStore, keyMeta, hFile⟩ := @addCryptedKey_eq tools wallet hCrypted pubkey secret
  generalize (wallet.addCryptedKey tools pubkey secret).2 = added at *
  unfold WalletFile.writeCryptedKey at hFile
  by_cases hMem : pubkey.vch ∈ wallet.file.ckey
  · rw [if_pos hMem] at hFile
    constructor
    · rw [hStore]
      rfl
    · rw [hFile]
      exact fun _ hPlain => hPlain
    · rw [hFile]
      exact fun _ _ hLookup => hLookup
    · unfold Recorded
      rw [hFile, hStore]
      exact fun hOld bytes hBytes => (AList.mem_insert _).mpr (Or.inr (hOld bytes hBytes))
  · rw [if_neg hMem] at hFile
    constructor
    · rw [hStore]
      rfl
    · rw [hFile]
      exact fun bytes hPlain => (AList.mem_erase.mp hPlain).2
    · intro bytes stored hLookup
      have hOther : bytes ≠ pubkey.vch := by
        rintro rfl
        exact hMem (Table.mem_iff_lookup.mpr ⟨_, hLookup⟩)
      rw [hFile]
      exact (Table.lookup_insert_ite _ _ _ _).trans ((if_neg hOther).trans hLookup)
    · unfold Recorded
      rw [hFile, hStore]
      intro hOld bytes hBytes
      refine (AList.mem_insert _).mpr ?_
      rcases (AList.mem_insert _).mp hBytes with rfl | hBefore
      · exact Or.inl (by rw [ofBytes_vch])
      · exact Or.inr (hOld bytes hBefore)

/-! ## The operations -/

section Operations

variable (hCrypted : wallet.keystore.fUseCrypto = true)

include hCrypted

theorem addKey_keeps (key : CKey) : Keeps tools wallet (wallet.addKey tools key).2 := by
  unfold addKey
  dsimp only
  rw [hCrypted, Bool.not_true, if_neg Bool.false_ne_true]
  cases wallet.keystore.cryptedSecret tools key (tools.getPubKey key) with
  | none => exact Keeps.refl hCrypted
  | some secret => exact addCryptedKey_keeps hCrypted _ secret

theorem unlockStealthAddresses_keeps :
    Keeps tools wallet (wallet.unlockStealthAddresses tools expand) := by
  unfold unlockStealthAddresses
  generalize wallet.keystore.mapCryptedKeys.inKeyOrder.map Prod.snd = entries
  induction entries generalizing wallet with
  | nil => exact Keeps.refl hCrypted
  | cons entry entries ih =>
      have hFirst : Keeps tools wallet (wallet.fillSecret tools expand entry) := by
        unfold fillSecret
        split_ifs
        · exact Keeps.refl hCrypted
        · cases expand entry.1 with
          | none => exact Keeps.refl hCrypted
          | some key =>
              dsimp only
              split_ifs
              · exact Keeps.refl hCrypted
              · exact addKey_keeps hCrypted key
      exact hFirst.trans (ih hFirst.crypted)

theorem setCrypted_eq : wallet.keystore.setCrypted = some wallet.keystore := if_pos hCrypted

theorem lock_keeps : Keeps tools wallet wallet.lock.2 := by
  unfold lock CCryptoKeyStore.lockKeyStore
  rw [setCrypted_eq hCrypted]
  split_ifs
  · exact Keeps.refl hCrypted
  · exact Keeps.ofSame rfl rfl rfl rfl

/-- The store is unlocked, and the missing secrets are filled in. -/
theorem unlocked_keeps
    {vMasterKey : List UInt8} {store : CCryptoKeyStore}
    (h : wallet.keystore.unlock tools vMasterKey = .ok (some store)) :
    Keeps tools wallet ({ wallet with keystore := store }.unlockStealthAddresses tools expand) := by
  have hStore : store = .crypted wallet.keystore.mapCryptedKeys vMasterKey := by
    unfold CCryptoKeyStore.unlock at h
    rw [setCrypted_eq hCrypted] at h
    dsimp only at h
    cases hOrder : wallet.keystore.mapCryptedKeys.inKeyOrder with
    | nil =>
        rw [hOrder] at h
        cases h
        rfl
    | cons first rest =>
        rw [hOrder] at h
        obtain ⟨fOpens, -, hResult⟩ := bind_eq_ok.mp h
        cases fOpens with
        | false => cases hResult
        | true =>
            cases hResult
            rfl
  subst hStore
  refine Keeps.trans ?_ (unlockStealthAddresses_keeps ?_)
  · exact Keeps.ofSame rfl rfl rfl rfl
  · rfl

theorem unlock_keeps
    {strWalletPassphrase : List UInt8} {result : Bool × KeyWallet}
    (h : wallet.unlock tools expand strWalletPassphrase = .ok result) :
    Keeps tools wallet result.2 := by
  unfold unlock at h
  split_ifs at h
  · cases h
    exact Keeps.refl hCrypted
  · cases hOrder : wallet.mapMasterKeys.inKeyOrder with
    | nil =>
        rw [hOrder] at h
        cases h
        exact unlockStealthAddresses_keeps hCrypted
    | cons first rest =>
        rw [hOrder] at h
        dsimp only at h
        cases hOpen : openMasterKey tools strWalletPassphrase first.2 with
        | none =>
            rw [hOpen] at h
            cases h
            exact Keeps.refl hCrypted
        | some vMasterKey =>
            rw [hOpen] at h
            obtain ⟨store, hUnlock, hResult⟩ := bind_eq_ok.mp h
            cases store with
            | none =>
                cases hResult
                exact Keeps.refl hCrypted
            | some store =>
                cases hResult
                exact unlocked_keeps hCrypted hUnlock

theorem rewrapMasterKey_keeps
    (nID : ℕ) (kMasterKey : CMasterKey) (vMasterKey strNew : List UInt8) (nMeasured : ℕ) :
    Keeps tools wallet
      (wallet.rewrapMasterKey tools nID kMasterKey vMasterKey strNew nMeasured).2 := by
  unfold rewrapMasterKey
  dsimp only
  split
  · exact Keeps.ofSame hCrypted rfl rfl rfl
  · exact Keeps.ofSame hCrypted rfl rfl rfl

theorem changePassphraseLoop_keeps
    {strOld strNew : List UInt8} {nMeasured : ℕ} {fWasLocked : Bool} {result : Bool × KeyWallet}
    {masterKeys : List (ℕ × CMasterKey)}
    (h : changePassphraseLoop tools expand strOld strNew nMeasured fWasLocked masterKeys wallet =
      .ok result) : Keeps tools wallet result.2 := by
  induction masterKeys with
  | nil =>
      cases h
      exact Keeps.refl hCrypted
  | cons entry masterKeys ih =>
      unfold changePassphraseLoop at h
      dsimp only at h
      cases hOpen : openMasterKey tools strOld entry.2 with
      | none =>
          rw [hOpen] at h
          cases h
          exact Keeps.refl hCrypted
      | some vMasterKey =>
          rw [hOpen] at h
          obtain ⟨store, hUnlock, hResult⟩ := bind_eq_ok.mp h
          cases store with
          | none => exact ih hResult
          | some store =>
              dsimp only at hResult
              have hUnlocked : Keeps tools wallet ({ wallet with
                  keystore := store }.unlockStealthAddresses tools expand) :=
                unlocked_keeps hCrypted hUnlock
              generalize { wallet with
                keystore := store }.unlockStealthAddresses tools expand = unlocked at *
              have hRewrapped := hUnlocked.trans (rewrapMasterKey_keeps hUnlocked.crypted
                entry.1 entry.2 vMasterKey strNew nMeasured)
              split_ifs at hResult
              · cases hResult
                exact hRewrapped.trans (lock_keeps hRewrapped.crypted)
              · obtain rfl := Except.ok.inj hResult
                exact hRewrapped

theorem changeWalletPassphrase_keeps
    {strOld strNew : List UInt8} {nMeasured : ℕ} {result : Bool × KeyWallet}
    (h : wallet.changeWalletPassphrase tools expand strOld strNew nMeasured = .ok result) :
    Keeps tools wallet result.2 := by
  have hLock : Keeps tools wallet wallet.lock.2 := lock_keeps hCrypted
  exact hLock.trans (changePassphraseLoop_keeps hLock.crypted h)

theorem receiveStealth_keeps (pubkey : CPubKey) :
    Keeps tools wallet (wallet.receiveStealth tools pubkey).2 := by
  unfold receiveStealth
  split_ifs
  · exact Keeps.refl hCrypted
  · exact addCryptedKey_keeps hCrypted pubkey []

end Operations

/-! ## Loading -/

/-- What reading records does to the keys in memory. -/
structure Reads (tools : KeyTools) (wallet : KeyWallet) (records : List WalletRecord)
    (next : KeyWallet) : Prop where
  file : next.file = wallet.file
  locked : next.keystore.vMasterKey = []
  stays : ∀ address ∈ wallet.keystore.mapCryptedKeys, address ∈ next.keystore.mapCryptedKeys
  recorded : ∀ bytes secret, .ckey bytes secret ∈ records →
    (CPubKey.ofBytes bytes).getID tools.prims ∈ next.keystore.mapCryptedKeys
  origin : ∀ address entry, next.keystore.mapCryptedKeys.lookup address = some entry →
    wallet.keystore.mapCryptedKeys.lookup address = some entry ∨
      ∃ bytes secret, .ckey bytes secret ∈ records ∧ entry = (.ofBytes bytes, secret) ∧
        entry.1.getID tools.prims = address
  plain : next.keystore.mapKeys = ∅ → wallet.keystore.mapKeys = ∅ ∧
    ∀ bytes privKey hash, .key bytes privKey hash ∉ records

namespace Reads

variable {records records' : List WalletRecord}

theorem trans (h : Reads tools wallet records wallet')
    (h' : Reads tools wallet' records' wallet'') :
    Reads tools wallet (records ++ records') wallet'' := by
  constructor
  · exact h'.file.trans h.file
  · exact h'.locked
  · exact fun address hMem => h'.stays address (h.stays address hMem)
  · intro bytes secret hMem
    rcases List.mem_append.mp hMem with hFirst | hLater
    · exact h'.stays _ (h.recorded bytes secret hFirst)
    · exact h'.recorded bytes secret hLater
  · intro address entry hLookup
    rcases h'.origin address entry hLookup with hBefore | ⟨bytes, secret, hMem, hEntry⟩
    · rcases h.origin address entry hBefore with hOld | ⟨bytes, secret, hMem, hEntry⟩
      · exact Or.inl hOld
      · exact Or.inr ⟨bytes, secret, List.mem_append_left _ hMem, hEntry⟩
    · exact Or.inr ⟨bytes, secret, List.mem_append_right _ hMem, hEntry⟩
  · intro hNone
    obtain ⟨hNone', hLater⟩ := h'.plain hNone
    obtain ⟨hNone'', hFirst⟩ := h.plain hNone'
    refine ⟨hNone'', fun bytes privKey hash hMem => ?_⟩
    rcases List.mem_append.mp hMem with hMem | hMem
    · exact hFirst bytes privKey hash hMem
    · exact hLater bytes privKey hash hMem

/-- Records that are not about single keys. -/
theorem ofSame
    (hLocked : wallet.keystore.vMasterKey = []) (hFile : wallet'.file = wallet.file)
    (hStore : wallet'.keystore = wallet.keystore)
    (hKey : ∀ bytes privKey hash, .key bytes privKey hash ∉ records)
    (hCkey : ∀ bytes secret, .ckey bytes secret ∉ records) :
    Reads tools wallet records wallet' := by
  constructor
  · exact hFile
  · rw [hStore, hLocked]
  · rw [hStore]
    exact fun _ hMem => hMem
  · exact fun bytes secret hMem => absurd hMem (hCkey bytes secret)
  · rw [hStore]
    exact fun _ _ hLookup => Or.inl hLookup
  · rw [hStore]
    exact fun hNone => ⟨hNone, hKey⟩

end Reads

theorem setCrypted_eq_some
    {store store' : CCryptoKeyStore} (h : store.setCrypted = some store') :
    store.mapKeys = ∅ ∧ store' = .crypted store.mapCryptedKeys store.vMasterKey := by
  unfold CCryptoKeyStore.setCrypted at h
  split_ifs at h with hCrypted hKeys
  · obtain rfl := Option.some.inj h
    exact ⟨store.mapKeys_of_crypted hCrypted, CCryptoKeyStore.eq_crypted hCrypted⟩
  · exact ⟨AList.ext (not_not.mp hKeys), (Option.some.inj h).symm⟩

theorem reads_ckey
    {bytes secret : List UInt8} {next : KeyWallet} (hLocked : wallet.keystore.vMasterKey = [])
    (h : wallet.readKeyValue tools (.ckey bytes secret) = .ok next) :
    Reads tools wallet [.ckey bytes secret] next := by
  unfold readKeyValue CCryptoKeyStore.addCryptedKey at h
  dsimp only at h
  cases hSet : wallet.keystore.setCrypted with
  | none =>
      rw [hSet] at h
      cases h
  | some store =>
      obtain ⟨hKeys, rfl⟩ := setCrypted_eq_some hSet
      rw [hSet] at h
      cases h
      constructor
      · rfl
      · exact hLocked
      · exact fun address hMem => (AList.mem_insert _).mpr (Or.inr hMem)
      · rintro _ _ (_ | ⟨_, ⟨⟩⟩)
        exact (AList.mem_insert _).mpr (Or.inl rfl)
      · intro address entry hLookup
        change (AList.insert _ _ _).lookup address = _ at hLookup
        rw [Table.lookup_insert_ite] at hLookup
        split_ifs at hLookup with hSame
        · obtain rfl := Option.some.inj hLookup
          exact Or.inr ⟨bytes, secret, List.mem_singleton_self _, rfl, hSame.symm⟩
        · exact Or.inl hLookup
      · exact fun _ => ⟨hKeys, by simp⟩

/-- A plain key is read into a plain wallet only. -/
theorem reads_key
    {bytes privKey : List UInt8} {hash : ℕ} {next : KeyWallet}
    (hLocked : wallet.keystore.vMasterKey = [])
    (h : wallet.readKeyValue tools (.key bytes privKey hash) = .ok next) :
    Reads tools wallet [.key bytes privKey hash] next := by
  unfold readKeyValue loadKey at h
  obtain ⟨-, -, h⟩ := bind_eq_ok.mp h
  obtain ⟨-, -, h⟩ := bind_eq_ok.mp h
  obtain ⟨key, -, h⟩ := bind_eq_ok.mp h
  cases hCrypted : wallet.keystore.fUseCrypto with
  | false =>
      rw [hCrypted, Bool.not_false, if_pos rfl] at h
      cases h
      have hEntries := (wallet.keystore.crypted_of_plain hCrypted).1
      constructor
      · rfl
      · rfl
      · exact fun address hMem => absurd (hEntries ▸ hMem) (AList.notMem_empty address)
      · simp
      · exact fun _ _ hNone => absurd hNone (Option.some_ne_none _).symm
      · intro hNone
        have hMem : (CPubKey.ofBytes bytes).getID tools.prims ∈
            wallet.keystore.mapKeys.insert ((CPubKey.ofBytes bytes).getID tools.prims) key :=
          (AList.mem_insert _).mpr (Or.inl rfl)
        change AList.insert _ _ _ = ∅ at hNone
        rw [hNone] at hMem
        exact absurd hMem (AList.notMem_empty _)
  | true =>
      have hNone : wallet.keystore.cryptedSecret tools key (CPubKey.ofBytes bytes) = none := by
        unfold CCryptoKeyStore.cryptedSecret CCryptoKeyStore.isLocked
        rw [hCrypted, hLocked]
        rfl
      rw [hCrypted, Bool.not_true, if_neg Bool.false_ne_true, hNone] at h
      cases h

theorem reads_records
    {records : List WalletRecord} {next : KeyWallet} (hLocked : wallet.keystore.vMasterKey = [])
    (h : records.foldlM (readKeyValue tools) wallet = .ok next) :
    Reads tools wallet records next := by
  induction records generalizing wallet with
  | nil =>
      cases h
      exact Reads.ofSame hLocked rfl rfl (by simp) (by simp)
  | cons record records ih =>
      rw [List.foldlM_cons] at h
      obtain ⟨read, hRead, hRest⟩ := bind_eq_ok.mp h
      have hFirst : Reads tools wallet [record] read := by
        cases record with
        | key bytes privKey hash => exact reads_key hLocked hRead
        | ckey bytes secret => exact reads_ckey hLocked hRead
        | mkey nID kMasterKey =>
            obtain ⟨-, -, hRead⟩ := bind_eq_ok.mp hRead
            cases hRead
            exact Reads.ofSame hLocked rfl rfl (by simp) (by simp)
        | keymeta bytes nCreateTime =>
            cases hRead
            exact Reads.ofSame hLocked rfl rfl (by simp) (by simp)
      exact hFirst.trans (ih hFirst.locked hRest)

theorem mem_records_ckey {file : WalletFile} {bytes secret : List UInt8} :
    .ckey bytes secret ∈ file.records ↔ file.ckey.lookup bytes = some secret := by
  rw [← Option.mem_def, AList.mem_lookup_iff]
  unfold WalletFile.records
  simp only [List.mem_append, List.mem_map, WalletRecord.ckey.injEq, reduceCtorEq, and_false,
    exists_false, or_false, false_or]
  constructor
  · rintro ⟨⟨bytes', secret'⟩, hMem, rfl, rfl⟩
    exact hMem
  · intro hMem
    exact ⟨_, hMem, rfl, rfl⟩

/-- An encrypted file has no plain key, and is loaded as a locked wallet with an entry for each of
its encrypted records. -/
theorem loadWallet_eq_ok
    {file : WalletFile} {records : List WalletRecord} {loaded : KeyWallet}
    (hPerm : records.Perm file.records) (hSome : ∃ bytes, bytes ∈ file.ckey)
    (h : loadWallet tools file records = .ok loaded) :
    loaded.file = file ∧ loaded.isLocked = true ∧ (∀ bytes, bytes ∉ file.key) ∧
      Recorded tools loaded ∧ ∀ address entry,
        loaded.keystore.mapCryptedKeys.lookup address = some entry → ∃ bytes secret,
          file.ckey.lookup bytes = some secret ∧ entry = (.ofBytes bytes, secret) ∧
            entry.1.getID tools.prims = address := by
  have hReads : Reads tools { empty with file := file } records loaded := reads_records rfl h
  have hRecorded : Recorded tools loaded := by
    intro bytes hBytes
    rw [hReads.file] at hBytes
    obtain ⟨secret, hRecord⟩ := Table.mem_iff_lookup.mp hBytes
    exact hReads.recorded bytes secret (hPerm.mem_iff.mpr (mem_records_ckey.mpr hRecord))
  have hCrypted : loaded.keystore.fUseCrypto = true := by
    obtain ⟨bytes, hBytes⟩ := hSome
    by_contra hPlain
    have hNone := (loaded.keystore.crypted_of_plain (Bool.not_eq_true _ ▸ hPlain)).1
    exact AList.notMem_empty _ (hNone ▸ hRecorded bytes (hReads.file ▸ hBytes))
  refine ⟨hReads.file, ?_, ?_, hRecorded, ?_⟩
  · unfold isLocked CCryptoKeyStore.isLocked
    rw [hCrypted, hReads.locked]
    rfl
  · intro bytes hBytes
    obtain ⟨record, hRecord⟩ := Table.mem_iff_lookup.mp hBytes
    refine (hReads.plain (loaded.keystore.mapKeys_of_crypted hCrypted)).2 bytes record.1 record.2
      (hPerm.mem_iff.mpr ?_)
    unfold WalletFile.records
    simp only [List.mem_append, List.mem_map]
    exact Or.inl (Or.inl (Or.inl ⟨⟨bytes, record⟩, AList.mem_lookup_iff.mp hRecord, rfl⟩))
  · intro address entry hLookup
    rcases hReads.origin address entry hLookup with hNone | ⟨bytes, secret, hMem, hEntry⟩
    · exact absurd (Table.mem_iff_lookup.mpr ⟨_, hNone⟩) (AList.notMem_empty address)
    · exact ⟨bytes, secret, mem_records_ckey.mp (hPerm.mem_iff.mp hMem), hEntry⟩

/-! ## Runs of an encrypted wallet -/

theorem apply_restart
    {records : List WalletRecord} {result : Bool × KeyWallet}
    (h : wallet.apply tools expand (.restart records) = .ok result) :
    result.2 = wallet ∨
      records.Perm wallet.file.records ∧ loadWallet tools wallet.file records = .ok result.2 := by
  unfold apply at h
  dsimp only at h
  split_ifs at h with hPerm
  · cases hLoad : loadWallet tools wallet.file records with
    | error halt =>
        rw [hLoad] at h
        cases h
    | ok loaded =>
        rw [hLoad] at h
        cases h
        exact Or.inr ⟨hPerm, rfl⟩
  · cases h
    exact Or.inl rfl

theorem apply_keeps
    {event : Event} {result : Bool × KeyWallet} (hCrypted : wallet.keystore.fUseCrypto = true)
    (hSome : ∃ bytes, bytes ∈ wallet.file.ckey)
    (h : wallet.apply tools expand event = .ok result) : Keeps tools wallet result.2 := by
  cases event with
  | addKey key =>
      obtain rfl := Except.ok.inj h
      exact addKey_keeps hCrypted key
  | receiveStealth pubkey =>
      obtain rfl := Except.ok.inj h
      exact receiveStealth_keeps hCrypted pubkey
  | lock =>
      obtain rfl := Except.ok.inj h
      exact lock_keeps hCrypted
  | unlock strWalletPassphrase => exact unlock_keeps hCrypted h
  | changeWalletPassphrase strOld strNew nMeasured => exact changeWalletPassphrase_keeps hCrypted h
  | restart records =>
      rcases apply_restart h with hSame | ⟨hPerm, hLoad⟩
      · rw [hSame]
        exact Keeps.refl hCrypted
      · obtain ⟨hFile, hLocked, -, hRecorded, -⟩ := loadWallet_eq_ok hPerm hSome hLoad
        refine ⟨(Bool.and_eq_true_iff.mp hLocked).1, ?_, ?_, fun _ => hRecorded⟩
        · rw [hFile]
          exact fun _ hMem => hMem
        · rw [hFile]
          exact fun _ _ hLookup => hLookup

theorem keeps_of_run
    {labels : List (Event × Bool)} (hCrypted : wallet.keystore.fUseCrypto = true)
    (hSome : ∃ bytes, bytes ∈ wallet.file.ckey)
    (hRun : Trace (Step tools expand) wallet labels wallet') : Keeps tools wallet wallet' := by
  refine Trace.invariant (I := fun _ wallet' => Keeps tools wallet wallet') (Keeps.refl hCrypted)
    ?_ hRun
  rintro _ before _ after hKeeps ⟨event, fResult, -, hApply⟩
  refine hKeeps.trans (apply_keeps hKeeps.crypted ?_ hApply)
  obtain ⟨bytes, hBytes⟩ := hSome
  obtain ⟨secret, hSecret⟩ := Table.mem_iff_lookup.mp hBytes
  exact ⟨bytes, Table.mem_iff_lookup.mpr ⟨secret, hKeeps.records bytes secret hSecret⟩⟩

/-- Whatever happens to the wallet of an encrypted file, it stays encrypted, no plain key is written
to the file, and no encrypted record is lost or replaced. -/
theorem encrypted_file_is_kept
    {file : WalletFile} {records : List WalletRecord} {loaded : KeyWallet}
    {labels : List (Event × Bool)} (hPerm : records.Perm file.records)
    (hSome : ∃ bytes, bytes ∈ file.ckey) (hLoad : loadWallet tools file records = .ok loaded)
    (hRun : Trace (Step tools expand) loaded labels wallet) :
    wallet.keystore.fUseCrypto = true ∧ (∀ bytes, bytes ∉ wallet.file.key) ∧
      ∀ bytes secret, file.ckey.lookup bytes = some secret →
        wallet.file.ckey.lookup bytes = some secret := by
  obtain ⟨rfl, hLocked, hPlain, -, -⟩ := loadWallet_eq_ok hPerm hSome hLoad
  have hKeeps := keeps_of_run (Bool.and_eq_true_iff.mp hLocked).1 hSome hRun
  exact ⟨hKeeps.crypted, fun bytes hMem => hPlain bytes (hKeeps.plain bytes hMem), hKeeps.records⟩

/-! ## A wallet that cannot be unlocked -/

/-- The wallet is locked, and its first entry has no secret in memory nor in the file. -/
structure Shut (tools : KeyTools) (wallet : KeyWallet) : Prop where
  locked : wallet.isLocked = true
  recorded : Recorded tools wallet
  first : ∃ pubkey, wallet.keystore.mapCryptedKeys.lookup (pubkey.getID tools.prims) =
      some (pubkey, []) ∧
    wallet.file.ckey.lookup pubkey.vch = some [] ∧
    (∀ address ∈ wallet.keystore.mapCryptedKeys, pubkey.getID tools.prims ≤ address) ∧
    ∀ bytes ∈ wallet.file.ckey,
      (CPubKey.ofBytes bytes).getID tools.prims = pubkey.getID tools.prims → bytes = pubkey.vch

section Locked

variable (hLocked : wallet.isLocked = true)

include hLocked

theorem fUseCrypto_of_locked : wallet.keystore.fUseCrypto = true :=
  (Bool.and_eq_true_iff.mp hLocked).1

theorem addKey_locked (key : CKey) : wallet.addKey tools key = (false, wallet) := by
  have hStore : wallet.keystore.isLocked = true := hLocked
  unfold addKey CCryptoKeyStore.cryptedSecret
  simp only [fUseCrypto_of_locked hLocked, Bool.not_true, Bool.false_eq_true, if_false]
  rw [if_pos hStore]

theorem unlockStealthAddresses_locked : wallet.unlockStealthAddresses tools expand = wallet := by
  unfold unlockStealthAddresses
  generalize wallet.keystore.mapCryptedKeys.inKeyOrder.map Prod.snd = entries
  induction entries with
  | nil => rfl
  | cons entry entries ih =>
      have hFill : wallet.fillSecret tools expand entry = wallet := by
        unfold fillSecret
        split_ifs
        · rfl
        · cases expand entry.1 with
          | none => rfl
          | some key =>
              dsimp only
              split_ifs
              · rfl
              · rw [addKey_locked hLocked]
      rw [List.foldl_cons, hFill, ih]

theorem lock_locked : wallet.lock = (true, wallet) := if_pos hLocked

end Locked

namespace Shut

/-- No master key unlocks the wallet. -/
theorem keystore_unlock (h : Shut tools wallet) (vMasterKey : List UInt8) :
    wallet.keystore.unlock tools vMasterKey = .ok none := by
  obtain ⟨pubkey, hEntry, -, hLeast, -⟩ := h.first
  obtain ⟨rest, hOrder⟩ := Table.head_inKeyOrder hEntry hLeast
  unfold CCryptoKeyStore.unlock
  rw [setCrypted_eq (fUseCrypto_of_locked h.locked)]
  dsimp only
  rw [hOrder]
  dsimp only
  rw [CCryptoKeyStore.opens_nil]
  rfl

theorem unlock (h : Shut tools wallet) (strWalletPassphrase : List UInt8) :
    ∃ fResult, wallet.unlock tools expand strWalletPassphrase = .ok (fResult, wallet) := by
  unfold KeyWallet.unlock
  rw [h.locked, Bool.not_true, if_neg Bool.false_ne_true]
  cases wallet.mapMasterKeys.inKeyOrder with
  | nil =>
      dsimp only
      rw [unlockStealthAddresses_locked h.locked]
      exact ⟨_, rfl⟩
  | cons first rest =>
      dsimp only
      cases openMasterKey tools strWalletPassphrase first.2 with
      | none => exact ⟨_, rfl⟩
      | some vMasterKey =>
          dsimp only
          rw [h.keystore_unlock]
          exact ⟨_, rfl⟩

theorem changeWalletPassphrase
    (h : Shut tools wallet) (strOld strNew : List UInt8) (nMeasured : ℕ) :
    wallet.changeWalletPassphrase tools expand strOld strNew nMeasured = .ok (false, wallet) := by
  unfold KeyWallet.changeWalletPassphrase
  rw [lock_locked h.locked]
  dsimp only
  induction wallet.mapMasterKeys.inKeyOrder with
  | nil => rfl
  | cons first rest ih =>
      unfold changePassphraseLoop
      cases openMasterKey tools strOld first.2 with
      | none => rfl
      | some vMasterKey =>
          dsimp only
          rw [h.keystore_unlock]
          exact ih

end Shut

/-- A payment that arrives while the wallet is locked adds an entry and a record without a
secret, unless the address has an entry. -/
theorem receiveStealth_locked
    {pubkey : CPubKey} (hLocked : wallet.isLocked = true) (hRecorded : Recorded tools wallet)
    (hNew : pubkey.getID tools.prims ∉ wallet.keystore.mapCryptedKeys) :
    (wallet.receiveStealth tools pubkey).2.isLocked = true ∧
      (wallet.receiveStealth tools pubkey).2.keystore.mapCryptedKeys =
        wallet.keystore.mapCryptedKeys.insert (pubkey.getID tools.prims) (pubkey, []) ∧
      (wallet.receiveStealth tools pubkey).2.file.ckey =
        wallet.file.ckey.insert pubkey.vch [] := by
  have hCrypted := fUseCrypto_of_locked hLocked
  have hAbsent : pubkey.vch ∉ wallet.file.ckey := by
    intro hMem
    have hEntry := hRecorded _ hMem
    rw [ofBytes_vch] at hEntry
    exact hNew hEntry
  have hAdded : ¬(wallet.keystore.haveKey (pubkey.getID tools.prims) ||
      !wallet.isLocked) = true := by
    simp [CCryptoKeyStore.haveKey, hCrypted, hLocked, hNew]
  obtain ⟨hStore, keyMeta, hFile⟩ := @addCryptedKey_eq tools wallet hCrypted pubkey []
  unfold receiveStealth
  rw [if_neg hAdded, isLocked, hStore, hFile, WalletFile.writeCryptedKey, if_neg hAbsent]
  exact ⟨(Bool.and_eq_true_iff.mp hLocked).2, rfl, rfl⟩

/-- A payment to the first of the addresses leaves the wallet shut. -/
theorem shut_of_payment
    {pubkey : CPubKey} (hLocked : wallet.isLocked = true) (hRecorded : Recorded tools wallet)
    (hFirst : ∀ address ∈ wallet.keystore.mapCryptedKeys, pubkey.getID tools.prims < address) :
    Shut tools (wallet.receiveStealth tools pubkey).2 := by
  have hNew : pubkey.getID tools.prims ∉ wallet.keystore.mapCryptedKeys :=
    fun hMem => lt_irrefl _ (hFirst _ hMem)
  obtain ⟨hStill, hEntries, hRecords⟩ := receiveStealth_locked hLocked hRecorded hNew
  refine ⟨hStill, (receiveStealth_keeps (fUseCrypto_of_locked hLocked) pubkey).recorded hRecorded,
    pubkey, ?_⟩
  rw [hEntries, hRecords, Table.lookup_insert_ite, if_pos rfl, Table.lookup_insert_ite, if_pos rfl]
  refine ⟨rfl, rfl, ?_, ?_⟩
  · intro address hMem
    rcases (AList.mem_insert _).mp hMem with rfl | hOld
    · exact le_rfl
    · exact (hFirst address hOld).le
  · intro bytes hMem hAddress
    rcases (AList.mem_insert _).mp hMem with rfl | hOld
    · rfl
    · exact absurd (hAddress ▸ hRecorded bytes hOld) hNew

namespace Shut

/-- With another payment the wallet stays shut. -/
theorem receiveStealth (h : Shut tools wallet) (pubkey : CPubKey) :
    Shut tools (wallet.receiveStealth tools pubkey).2 := by
  obtain ⟨first, hEntry, hRecord, hLeast, hUnique⟩ := h.first
  by_cases hMem : pubkey.getID tools.prims ∈ wallet.keystore.mapCryptedKeys
  · unfold KeyWallet.receiveStealth CCryptoKeyStore.haveKey
    simp only [fUseCrypto_of_locked h.locked, hMem, Bool.not_true, Bool.false_eq_true, if_false,
      decide_true, Bool.true_or, if_true]
    exact h
  · rcases lt_or_ge (pubkey.getID tools.prims) (first.getID tools.prims) with hBefore | hAfter
    · exact shut_of_payment h.locked h.recorded fun address hOld =>
        hBefore.trans_le (hLeast address hOld)
    · obtain ⟨hStill, hEntries, hRecords⟩ := receiveStealth_locked h.locked h.recorded hMem
      have hOther : first.getID tools.prims ≠ pubkey.getID tools.prims := by
        intro hSame
        exact hMem (hSame ▸ Table.mem_iff_lookup.mpr ⟨_, hEntry⟩)
      have hVch : first.vch ≠ pubkey.vch := by
        intro hSame
        rw [← ofBytes_vch first, hSame, ofBytes_vch] at hOther
        exact hOther rfl
      refine ⟨hStill,
        (receiveStealth_keeps (fUseCrypto_of_locked h.locked) pubkey).recorded h.recorded,
        first, ?_⟩
      rw [hEntries, hRecords, Table.lookup_insert_ite, if_neg hOther, Table.lookup_insert_ite,
        if_neg hVch]
      refine ⟨hEntry, hRecord, ?_, ?_⟩
      · intro address hAddress
        rcases (AList.mem_insert _).mp hAddress with rfl | hOld
        · exact hAfter
        · exact hLeast address hOld
      · intro bytes hBytes hAddress
        rcases (AList.mem_insert _).mp hBytes with rfl | hOld
        · rw [ofBytes_vch] at hAddress
          exact absurd hAddress.symm hOther
        · exact hUnique bytes hOld hAddress

/-- A restart finds the record of the first entry again, which has no secret. -/
theorem restart
    {records : List WalletRecord} {loaded : KeyWallet} (h : Shut tools wallet)
    (hPerm : records.Perm wallet.file.records)
    (hLoad : loadWallet tools wallet.file records = .ok loaded) : Shut tools loaded := by
  obtain ⟨first, -, hRecord, hLeast, hUnique⟩ := h.first
  obtain ⟨hFile, hLocked, -, hRecorded, hOrigin⟩ :=
    loadWallet_eq_ok hPerm ⟨_, Table.mem_iff_lookup.mpr ⟨_, hRecord⟩⟩ hLoad
  refine ⟨hLocked, hRecorded, first, ?_⟩
  rw [hFile]
  refine ⟨?_, hRecord, ?_, hUnique⟩
  · have hFirst := hRecorded first.vch (hFile ▸ Table.mem_iff_lookup.mpr ⟨_, hRecord⟩)
    rw [ofBytes_vch] at hFirst
    obtain ⟨entry, hEntry⟩ := Table.mem_iff_lookup.mp hFirst
    obtain ⟨bytes, secret, hStored, rfl, hAddress⟩ := hOrigin _ entry hEntry
    obtain rfl := hUnique bytes (Table.mem_iff_lookup.mpr ⟨_, hStored⟩) hAddress
    rw [hEntry, ofBytes_vch, Option.some.inj (hStored.symm.trans hRecord)]
  · intro address hMem
    obtain ⟨entry, hEntry⟩ := Table.mem_iff_lookup.mp hMem
    obtain ⟨bytes, secret, hStored, rfl, rfl⟩ := hOrigin _ entry hEntry
    exact hLeast _ (h.recorded bytes (Table.mem_iff_lookup.mpr ⟨_, hStored⟩))

theorem apply
    {event : Event} {result : Bool × KeyWallet} (h : Shut tools wallet)
    (hApply : wallet.apply tools expand event = .ok result) : Shut tools result.2 := by
  cases event with
  | addKey key =>
      obtain rfl := Except.ok.inj hApply
      rw [addKey_locked h.locked]
      exact h
  | receiveStealth pubkey =>
      obtain rfl := Except.ok.inj hApply
      exact h.receiveStealth pubkey
  | lock =>
      obtain rfl := Except.ok.inj hApply
      rw [lock_locked h.locked]
      exact h
  | unlock strWalletPassphrase =>
      obtain ⟨fResult, hUnlock⟩ := h.unlock strWalletPassphrase
      cases hUnlock.symm.trans hApply
      exact h
  | changeWalletPassphrase strOld strNew nMeasured =>
      cases (h.changeWalletPassphrase strOld strNew nMeasured).symm.trans hApply
      exact h
  | restart records =>
      rcases apply_restart hApply with hSame | ⟨hPerm, hLoad⟩
      · rw [hSame]
        exact h
      · exact h.restart hPerm hLoad

end Shut

/-- A payment to a stealth address shuts a wallet for good.  The wallet was loaded from an encrypted
file some time ago and is locked, and the address of the new key comes before all the others:
whatever happens next, with whatever passphrases, the wallet is locked and gives no key back. -/
theorem payment_shuts_wallet
    {file : WalletFile} {records : List WalletRecord} {loaded : KeyWallet} {pubkey : CPubKey}
    {before after : List (Event × Bool)} (hPerm : records.Perm file.records)
    (hSome : ∃ bytes, bytes ∈ file.ckey) (hLoad : loadWallet tools file records = .ok loaded)
    (hRun : Trace (Step tools expand) loaded before wallet) (hLocked : wallet.isLocked = true)
    (hFirst : ∀ address ∈ wallet.keystore.mapCryptedKeys, pubkey.getID tools.prims < address)
    (hLater : Trace (Step tools expand) (wallet.receiveStealth tools pubkey).2 after wallet') :
    wallet'.isLocked = true ∧ ∀ address, wallet'.keystore.getKey tools address = none := by
  obtain ⟨hFile, hLoaded, -, hRecorded, -⟩ := loadWallet_eq_ok hPerm hSome hLoad
  have hKeeps := keeps_of_run (fUseCrypto_of_locked hLoaded) (hFile ▸ hSome) hRun
  have hShut : Shut tools wallet' := by
    refine Trace.invariant (I := fun _ wallet => Shut tools wallet)
      (shut_of_payment hLocked (hKeeps.recorded hRecorded) hFirst) ?_ hLater
    rintro _ before _ after hShut ⟨event, fResult, -, hApply⟩
    exact hShut.apply hApply
  exact ⟨hShut.locked, CCryptoKeyStore.getKey_of_locked tools hShut.locked⟩

end KeyWallet

/-! ## A wallet with one key -/

namespace Sample

/-- A cipher that writes its key before the text. -/
def walletCrypto : WalletCrypto where
  bytesToKey _ strKeyData chSalt _ := (strKeyData ++ chSalt, [])
  encrypt chKey _ vchPlaintext := 0x01 :: (chKey ++ vchPlaintext)
  decrypt chKey _ vchCiphertext :=
    if vchCiphertext.take (chKey.length + 1) = 0x01 :: chKey then
      some (vchCiphertext.drop (chKey.length + 1))
    else none
  decrypt_nil chKey chIV := by simp

def keyTools : KeyTools where
  prims := scriptPrims
  crypto := walletCrypto
  getPubKey key := .ofBytes (compressedKey (key.vch.getLastD 0))
  getPrivKey key := key.vch
  load privkey _ _ := CKey.set privkey true

def secretTwo : List UInt8 := 0x01 :: (List.replicate 32 7 ++ (toBytesLE 32 2).reverse)

/-- A file with an encrypted key, whose master key the passphrase 5 opens. -/
def keyFile : WalletFile :=
  { WalletFile.empty with
    ckey := (∅ : Table _ _).insert (compressedKey 2) secretTwo
    mkey := (∅ : Table _ _).insert 1
      ⟨0x01 :: 5 :: (List.replicate 8 3 ++ List.replicate 32 7), List.replicate 8 3, 0, 25000⟩ }

def loadedWallet : KeyWallet where
  keystore := .crypted ((∅ : Table _ _).insert
    ((CPubKey.ofBytes (compressedKey 2)).getID scriptPrims) (.ofBytes (compressedKey 2), secretTwo))
    []
  mapMasterKeys := keyFile.mkey
  nMasterKeyMaxID := 1
  mapKeyMetadata := ∅
  file := keyFile

theorem loadWallet_keyFile :
    KeyWallet.loadWallet keyTools keyFile keyFile.records = .ok loadedWallet := rfl

/-- A payment to another key. -/
def paidWallet : KeyWallet :=
  (loadedWallet.receiveStealth keyTools (.ofBytes (compressedKey 1))).2

theorem run_paidWallet :
    Trace (KeyWallet.Step keyTools fun _ => none) loadedWallet
      [(.receiveStealth (.ofBytes (compressedKey 1)), true)] paidWallet :=
  .next .start ⟨_, _, rfl, rfl⟩

theorem encrypted_file_is_kept_paidWallet :
    paidWallet.keystore.fUseCrypto = true ∧ (∀ bytes, bytes ∉ paidWallet.file.key) ∧
      ∀ bytes secret, keyFile.ckey.lookup bytes = some secret →
        paidWallet.file.ckey.lookup bytes = some secret :=
  KeyWallet.encrypted_file_is_kept (List.Perm.refl _) ⟨compressedKey 2, by decide⟩
    loadWallet_keyFile run_paidWallet

/-- The passphrase unlocks the wallet before the payment, and not after it. -/
theorem unlock_paidWallet :
    (∃ wallet, loadedWallet.unlock keyTools (fun _ => none) [5] = .ok (true, wallet)) ∧
      paidWallet.unlock keyTools (fun _ => none) [5] = .ok (false, paidWallet) :=
  ⟨⟨_, rfl⟩, rfl⟩

theorem payment_shuts_wallet_paidWallet :
    paidWallet.isLocked = true ∧ ∀ address, paidWallet.keystore.getKey keyTools address = none :=
  KeyWallet.payment_shuts_wallet (List.Perm.refl _) ⟨compressedKey 2, by decide⟩
    loadWallet_keyFile .start rfl (by decide +kernel)
    (.next .start ⟨.unlock [5], false, rfl, unlock_paidWallet.2⟩)

end Sample

end SocietyGold
