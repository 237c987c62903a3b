import SocietyGold.CheckSig
import SocietyGold.MessageStream
import SocietyGold.SecureMsgBounds

/-!
# Decrypting a secure message

Whoever knows a public key can encrypt any bytes for it, so that the plaintext of a message that
passes the test of its authentication code is as the sender chooses.  It starts with a header of
nine bytes, or of ninety with a signature of the sender, whose last four bytes give the length of
the text.  The length of the plaintext is compared neither with the length of the header nor with
that of a short text, and the lengths become `int`s where a long text is decompressed.
-/

namespace SocietyGold

open Support

/-! ## Libraries -/

/-- An `int` that is given an unsigned number of 32 bits. -/
def asInt (n : ℕ) : ℤ := (n : ℤ).bmod (2 ^ 32)

/-- What `SecureMsgDecrypt` calls, and the chain parameters it uses. -/
structure DecryptTools extends SmsgTools where
  script : ScriptPrimitives
  /-- The key that the wallet has for an address, if that is one. -/
  getKey : (address : String) → Option Valtype
  /-- The point that two parties share, if the public key is one and the library succeeds. -/
  ecdhComputeKey : (secret cpkR : Valtype) → Option Valtype
  sha512 : Valtype → Valtype
  evpDecryptUpdate : (key iv ciphertext : Valtype) → Option Valtype
  evpDecryptFinal : (key iv ciphertext : Valtype) → Option Valtype
  /-- Is there memory for a vector of this size? -/
  canResize : ℕ → Bool
  /-- The value it returns, and the bytes it writes from the start of the destination on. -/
  lz4DecompressSafe : (source : Valtype) → (maxOutputSize : ℤ) → ℤ × Valtype
  recoverCompact : (hash : ℕ) → (vchSig : Valtype) → CPubKey
  pubkeyAddress : Valtype
  scriptAddress : Valtype
  encodeBase58Check : Valtype → String

/-- `memcpy` to the start of a vector. -/
def fillStart (buf bytes : List UInt8) : Checked (List UInt8) :=
  if bytes.length ≤ buf.length then .ok (overwrite buf 0 bytes) else .error .outOfRange

namespace SecureMessage

def ivOf (header : List UInt8) : List UInt8 := (header.drop 15).take 16

def cpkROf (header : List UInt8) : List UInt8 := (header.drop 31).take 33

def macOf (header : List UInt8) : List UInt8 := (header.drop 64).take 32

end SecureMessage

/-- `SecMsgCrypter::Decrypt`, which writes the plaintext in two parts. -/
def secMsgCrypterDecrypt (tools : DecryptTools) (key iv chCiphertext : Valtype) :
    Option Valtype := do
  let nPLen ← tools.evpDecryptUpdate key iv chCiphertext
  let nFLen ← tools.evpDecryptFinal key iv chCiphertext
  some (nPLen ++ nFLen)

/-! ## Addresses -/

structure CSocietyGcoinAddress where
  vchVersion : Valtype
  vchData : Valtype
  deriving DecidableEq

namespace CSocietyGcoinAddress

/-- `Set(CKeyID)`. -/
def set (tools : DecryptTools) (id : Valtype) : CSocietyGcoinAddress := ⟨tools.pubkeyAddress, id⟩

def isValid (tools : DecryptTools) (address : CSocietyGcoinAddress) : Bool :=
  address.vchData.length = 20 &&
    (address.vchVersion = tools.pubkeyAddress || address.vchVersion = tools.scriptAddress)

def toString (tools : DecryptTools) (address : CSocietyGcoinAddress) : String :=
  tools.encodeBase58Check (address.vchVersion ++ address.vchData)

end CSocietyGcoinAddress

/-- The public keys of senders, by their addresses. -/
abbrev SecMsgDB := Table Valtype CPubKey

/-- `SecureMsgInsertAddress`; the caller only logs what it returns.  The database is there. -/
def secureMsgInsertAddress (hashKey : Valtype) (pubKey : CPubKey) (addrpkdb : SecMsgDB) :
    ℕ × SecMsgDB :=
  if hashKey ∈ addrpkdb then (4, addrpkdb) else (0, addrpkdb.insert hashKey pubKey)

/-! ## Decrypting -/

structure MessageData where
  timestamp : ℤ
  sToAddress : String
  sFromAddress : String
  /-- The text, and a byte zero after it. -/
  vchMessage : List UInt8

/-- The value returned, the message and the keys of the senders. -/
abbrev Decrypted := ℕ × MessageData × SecMsgDB

/-- The first half of `SecureMsgDecrypt`: the key to the payload, when the message
authentication code matches, or else the value returned. -/
def payloadKey (tools : DecryptTools) (address : String) (header pPayload : Valtype) :
    Except ℕ Valtype :=
  if (SecureMessage.ofBytes header).version.head? ≠ some 1 then .error 2
  else match tools.getKey address with
  | none => .error 3
  | some keyDest =>
      let cpkR := CPubKey.ofBytes (SecureMessage.cpkROf header)
      if !cpkR.isValid then .error 1
      else match tools.ecdhComputeKey keyDest cpkR.vch with
      | none => .error 1
      | some vchP =>
          if vchP.length ≠ 32 then .error 1
          else
            let vchHashedDec := tools.sha512 vchP
            let key_e := vchHashedDec.take 32
            let key_m := (vchHashedDec.drop 32).take 32
            match tools.hmac key_m ((header.drop 7).take 8 ++ pPayload) with
            | none => .error 1
            | some mac =>
                if mac.length ≠ 32 then .error 1
                else if mac ≠ SecureMessage.macOf header then .error 1
                else .ok key_e

/-- The address of the sender and the key, when the key has signed the text. -/
def checkSender (tools : DecryptTools) (vchUint160 vchSig text : Valtype) :
    Option (CSocietyGcoinAddress × CPubKey) :=
  let coinAddrFrom := CSocietyGcoinAddress.set tools vchUint160
  if !coinAddrFrom.isValid tools then none
  else
    let cpkFromSig := tools.recoverCompact (tools.script.hash text) vchSig
    if !cpkFromSig.isValid then none
    else if coinAddrFrom ≠ CSocietyGcoinAddress.set tools
        (toBytesLE 20 (cpkFromSig.getID tools.script)) then none
    else some (coinAddrFrom, cpkFromSig)

/-- The end of `SecureMsgDecrypt`, once the text is in its vector. -/
def finishMessage (tools : DecryptTools) (vchPayload : Valtype) (fFromAnonymous : Bool)
    (lenPlain : ℕ) (msg : MessageData) (addrpkdb : SecMsgDB) : Checked Decrypted := do
  let vchMessage ← storeAt msg.vchMessage lenPlain 0
  let msg := { msg with vchMessage := vchMessage }
  if fFromAnonymous then .ok (0, { msg with sFromAddress := "anon" }, addrpkdb)
  else do
    let vchUint160 ← readRange vchPayload 1 20
    let vchSig ← readRange vchPayload (1 + 20) 65
    match checkSender tools vchUint160 vchSig vchMessage.dropLast with
    | none => .ok (1, msg, addrpkdb)
    | some (coinAddrFrom, cpkFromSig) =>
        .ok (0, { msg with sFromAddress := coinAddrFrom.toString tools },
          (secureMsgInsertAddress vchUint160 cpkFromSig addrpkdb).2)

/-- The second half of `SecureMsgDecrypt`, from the decrypted payload on. -/
def readPayload (tools : DecryptTools) (vchPayload : Valtype) (msg : MessageData)
    (addrpkdb : SecMsgDB) : Checked Decrypted := do
  let id ← elementAt vchPayload 0
  let fFromAnonymous : Bool := id.toNat = 250
  let lenHeader := if fFromAnonymous then 9 else SMSG_PL_HDR_LEN
  let lenData := (((vchPayload.length : ℤ) - lenHeader) % 2 ^ 32).toNat
  let lenPlain := fromBytesLE (← readRange vchPayload
    (if fFromAnonymous then 5 else 1 + 20 + 65) 4)
  if !tools.canResize ((lenPlain + 1) % 2 ^ 32) then .ok (8, msg, addrpkdb)
  else
    let vchMessage := resizeTo ((lenPlain + 1) % 2 ^ 32) msg.vchMessage
    if lenPlain > 128 then do
      -- the lengths are handed on as `int`s
      let pMsgData ← readRange vchPayload lenHeader (asInt lenData).toNat
      let decompressed := tools.lz4DecompressSafe pMsgData (asInt lenPlain)
      let vchMessage ← fillStart vchMessage decompressed.2
      if decompressed.1 ≠ asInt lenPlain then
        .ok (1, { msg with vchMessage := vchMessage }, addrpkdb)
      else
        finishMessage tools vchPayload fFromAnonymous lenPlain
          { msg with vchMessage := vchMessage } addrpkdb
    else do
      let pMsgData ← readRange vchPayload lenHeader lenPlain
      let vchMessage ← fillStart vchMessage pMsgData
      finishMessage tools vchPayload fFromAnonymous lenPlain
        { msg with vchMessage := vchMessage } addrpkdb

/-- `SecureMsgDecrypt`. -/
def secureMsgDecrypt (tools : DecryptTools) (fTestOnly : Bool) (address : String)
    (header pPayload : Valtype) (msg : MessageData) (addrpkdb : SecMsgDB) : Checked Decrypted :=
  match payloadKey tools address header pPayload with
  | .error rv => .ok (rv, msg, addrpkdb)
  | .ok key_e =>
      if fTestOnly then .ok (0, msg, addrpkdb)
      else match secMsgCrypterDecrypt tools key_e (SecureMessage.ivOf header) pPayload with
      | none => .ok (1, msg, addrpkdb)
      | some vchPayload =>
          readPayload tools vchPayload
            { msg with timestamp := (SecureMessage.ofBytes header).timestamp } addrpkdb

/-! ## What the payload says -/

section Payloads

variable (tools : DecryptTools) (vchPayload : Valtype)

def isAnonymous : Bool := (vchPayload.head?.map UInt8.toNat) = some 250

def headerSize : ℕ := if isAnonymous vchPayload then 9 else SMSG_PL_HDR_LEN

/-- The length that the sender gives for the text. -/
def statedLength : ℕ := fromBytesLE ((vchPayload.drop (headerSize vchPayload - 4)).take 4)

def textData : Valtype := vchPayload.drop (headerSize vchPayload)

/-- The text is the bytes after the header, or what these decompress to. -/
def IsText (text : Valtype) : Prop :=
  text.length = statedLength vchPayload ∧
    if statedLength vchPayload ≤ 128 then
      text = (textData vchPayload).take (statedLength vchPayload)
    else
      tools.lz4DecompressSafe (textData vchPayload) (asInt (statedLength vchPayload)) =
        ((statedLength vchPayload : ℤ), text)

/-- The text needs no signature, or has that of the sender. -/
def SenderAccepted (text : Valtype) : Prop :=
  isAnonymous vchPayload = true ∨
    (checkSender tools ((vchPayload.drop 1).take 20) ((vchPayload.drop (1 + 20)).take 65)
      text).isSome = true

/-- The payload has its header, and the text in it when that is short.  A length that is negative
as an `int` is no error code of the decompression, unless the signature fails after that. -/
structure PayloadFits (msg : MessageData) : Prop where
  header : headerSize vchPayload ≤ vchPayload.length
  short : tools.canResize ((statedLength vchPayload + 1) % 2 ^ 32) = true →
    statedLength vchPayload ≤ 128 →
      headerSize vchPayload + statedLength vchPayload ≤ vchPayload.length
  long : tools.canResize ((statedLength vchPayload + 1) % 2 ^ 32) = true →
    2 ^ 31 ≤ statedLength vchPayload →
    (tools.lz4DecompressSafe (textData vchPayload) (asInt (statedLength vchPayload))).1 =
      asInt (statedLength vchPayload) →
    statedLength vchPayload + 1 ≠ 2 ^ 32 ∧
      ¬SenderAccepted tools vchPayload (resizeTo (statedLength vchPayload) msg.vchMessage)

end Payloads

/-- The libraries stay within the lengths they are given, which are `int`s. -/
structure DecryptTools.WithinLengths (tools : DecryptTools) : Prop where
  decrypted : ∀ {key iv chCiphertext vchPlaintext : Valtype},
    secMsgCrypterDecrypt tools key iv chCiphertext = some vchPlaintext →
      vchPlaintext.length ≤ chCiphertext.length ∧ chCiphertext.length < 2 ^ 31
  written : ∀ (source : Valtype) (maxOutputSize : ℤ),
    ((tools.lz4DecompressSafe source maxOutputSize).2.length : ℤ) ≤ max maxOutputSize 0
  counted : ∀ (source : Valtype) (maxOutputSize : ℤ),
    0 ≤ (tools.lz4DecompressSafe source maxOutputSize).1 →
      (tools.lz4DecompressSafe source maxOutputSize).1 =
        (tools.lz4DecompressSafe source maxOutputSize).2.length

/-- The message authentication code of a message matches, and this is its payload. -/
def OpensTo (tools : DecryptTools) (address : String) (header pPayload vchPayload : Valtype) :
    Prop :=
  ∃ key_e, payloadKey tools address header pPayload = .ok key_e ∧
    secMsgCrypterDecrypt tools key_e (SecureMessage.ivOf header) pPayload = some vchPayload

/-- A computation has no access out of range, and with the value 0 the message is the text of a
payload. -/
def DeliversText (tools : DecryptTools) (isPayload : Valtype → Prop) (x : Checked Decrypted) :
    Prop :=
  ∃ decrypted, x = .ok decrypted ∧ (decrypted.1 = 0 →
    ∃ vchPayload text, isPayload vchPayload ∧ IsText tools vchPayload text ∧
      decrypted.2.1.vchMessage = text ++ [0])

/-! ## Reading the payload -/

section Reading

variable {tools : DecryptTools} {vchPayload : Valtype} {msg : MessageData} {addrpkdb : SecMsgDB}

theorem fillStart_of_le {buf bytes : List UInt8} (h : bytes.length ≤ buf.length) :
    fillStart buf bytes = .ok (bytes ++ buf.drop bytes.length) := by
  rw [fillStart, if_pos h]
  simp [overwrite]

theorem nine_le_headerSize (vchPayload : Valtype) :
    9 ≤ headerSize vchPayload ∧ headerSize vchPayload ≤ 90 := by
  unfold headerSize SMSG_PL_HDR_LEN
  split_ifs <;> omega

theorem statedLength_lt (vchPayload : Valtype) : statedLength vchPayload < 2 ^ 32 := by
  have hLt := fromBytesLE_lt ((vchPayload.drop (headerSize vchPayload - 4)).take 4)
  have hLe : ((vchPayload.drop (headerSize vchPayload - 4)).take 4).length ≤ 4 :=
    List.length_take_le _ _
  calc
    statedLength vchPayload < 256 ^ _ := hLt
    _ ≤ 256 ^ 4 := Nat.pow_le_pow_right (by omega) hLe
    _ = 2 ^ 32 := by norm_num

theorem asInt_of_lt {n : ℕ} (h : n < 2 ^ 31) : asInt n = n := by
  unfold asInt
  rw [Int.bmod_def]
  split_ifs <;> omega

theorem asInt_of_le {n : ℕ} (h : 2 ^ 31 ≤ n) (hLt : n < 2 ^ 32) :
    asInt n = (n : ℤ) - 2 ^ 32 := by
  unfold asInt
  rw [Int.bmod_def]
  split_ifs <;> omega

/-- Without its header the payload is read beyond its end. -/
theorem readPayload_of_short (hHeader : vchPayload.length < headerSize vchPayload) :
    readPayload tools vchPayload msg addrpkdb = .error .outOfRange := by
  unfold readPayload
  cases hPayload : vchPayload with
  | nil => rfl
  | cons id rest =>
      rw [elementAt_of_lt (Nat.zero_lt_succ _), ok_bind]
      dsimp only
      rw [readRange, if_neg, error_bind]
      rw [hPayload] at hHeader
      by_cases hId : id.toNat = 250
      · simp [headerSize, isAnonymous, hId] at hHeader
        simp [hId]
        omega
      · simp [headerSize, isAnonymous, hId, SMSG_PL_HDR_LEN] at hHeader
        simp [hId]
        omega

theorem lenData_eq
    (hHeader : headerSize vchPayload ≤ vchPayload.length) (hSize : vchPayload.length < 2 ^ 31) :
    (asInt (((vchPayload.length : ℤ) - headerSize vchPayload) % 2 ^ 32).toNat).toNat =
      vchPayload.length - headerSize vchPayload := by
  have hNat : (((vchPayload.length : ℤ) - headerSize vchPayload) % 2 ^ 32).toNat =
      vchPayload.length - headerSize vchPayload := by
    omega
  rw [hNat, asInt_of_lt (by omega), Int.toNat_natCast]

/-- With its header the payload has its length field and all the data after it. -/
theorem readPayload_of_header
    (hHeader : headerSize vchPayload ≤ vchPayload.length) (hSize : vchPayload.length < 2 ^ 31) :
    readPayload tools vchPayload msg addrpkdb =
      if !tools.canResize ((statedLength vchPayload + 1) % 2 ^ 32) then .ok (8, msg, addrpkdb)
      else if statedLength vchPayload > 128 then
        fillStart (resizeTo ((statedLength vchPayload + 1) % 2 ^ 32) msg.vchMessage)
            (tools.lz4DecompressSafe (textData vchPayload)
              (asInt (statedLength vchPayload))).2 >>= fun vchMessage =>
          if (tools.lz4DecompressSafe (textData vchPayload)
              (asInt (statedLength vchPayload))).1 ≠ asInt (statedLength vchPayload) then
            .ok (1, { msg with vchMessage := vchMessage }, addrpkdb)
          else
            finishMessage tools vchPayload (isAnonymous vchPayload) (statedLength vchPayload)
              { msg with vchMessage := vchMessage } addrpkdb
      else
        readRange vchPayload (headerSize vchPayload) (statedLength vchPayload) >>= fun text =>
          fillStart (resizeTo ((statedLength vchPayload + 1) % 2 ^ 32) msg.vchMessage) text >>=
            fun vchMessage =>
              finishMessage tools vchPayload (isAnonymous vchPayload) (statedLength vchPayload)
                { msg with vchMessage := vchMessage } addrpkdb := by
  have hNine := nine_le_headerSize vchPayload
  have hPos : 0 < vchPayload.length := by omega
  have hId : elementAt vchPayload 0 = .ok vchPayload[0] := elementAt_of_lt hPos
  have hAnonymous : decide (vchPayload[0].toNat = 250) = isAnonymous vchPayload := by
    unfold isAnonymous
    rw [List.head?_eq_getElem?, List.getElem?_eq_getElem hPos]
    simp
  have hField : (if isAnonymous vchPayload = true then 5 else 1 + 20 + 65) =
      headerSize vchPayload - 4 := by
    unfold headerSize SMSG_PL_HDR_LEN
    split_ifs <;> rfl
  have hData : readRange vchPayload (headerSize vchPayload)
      (vchPayload.length - headerSize vchPayload) = .ok (textData vchPayload) := by
    rw [readRange_of_le (by omega), List.take_of_length_le (by simp), textData]
  unfold readPayload
  rw [hId, ok_bind]
  dsimp only
  rw [hAnonymous, hField, readRange_of_le (by omega), ok_bind]
  rw [← headerSize, lenData_eq hHeader hSize, hData, ok_bind]
  rfl

theorem set_filled
    {buf bytes : List UInt8} {n : ℕ} (hBytes : bytes.length = n) (hBuf : buf.length = n + 1) :
    (bytes ++ buf.drop bytes.length).set n 0 = bytes ++ [0] := by
  have hRest : (buf.drop bytes.length).length = 1 := by
    rw [List.length_drop]
    omega
  obtain ⟨b, hb⟩ := List.length_eq_one_iff.mp hRest
  rw [hb, List.set_append_right _ _ (by omega), hBytes, Nat.sub_self]
  rfl

theorem dropLast_set_resizeTo (n : ℕ) (buf : List UInt8) :
    ((resizeTo (n + 1) buf).set n 0).dropLast = resizeTo n buf := by
  have hTake : (resizeTo (n + 1) buf).take n = resizeTo n buf := by
    simp only [resizeTo, List.take_append, List.take_take, List.take_replicate, List.length_take]
    congr 2 <;> omega
  rw [List.dropLast_eq_take, List.length_set, length_resizeTo, Nat.add_sub_cancel,
    List.take_set_of_le (le_refl n), hTake]

/-- The vector has one byte more than the text. -/
theorem length_resized {n : ℕ} (h : n < 2 ^ 31) (buf : List UInt8) :
    (resizeTo ((n + 1) % 2 ^ 32) buf).length = n + 1 := by
  rw [length_resizeTo]
  omega

/-- The last byte is set inside the message, and the sender is checked. -/
theorem finishMessage_of_lt
    (hHeader : headerSize vchPayload ≤ vchPayload.length) {lenPlain : ℕ}
    (hLength : lenPlain < msg.vchMessage.length) :
    ∃ decrypted, finishMessage tools vchPayload (isAnonymous vchPayload) lenPlain msg addrpkdb =
        .ok decrypted ∧
      decrypted.2.1.vchMessage = msg.vchMessage.set lenPlain 0 ∧
      (decrypted.1 = 0 ↔
        SenderAccepted tools vchPayload (msg.vchMessage.set lenPlain 0).dropLast) := by
  unfold finishMessage SenderAccepted
  rw [storeAt, if_pos hLength, ok_bind]
  by_cases hAnonymous : isAnonymous vchPayload = true
  · rw [if_pos hAnonymous]
    exact ⟨_, rfl, rfl, iff_of_true rfl (Or.inl hAnonymous)⟩
  · rw [if_neg hAnonymous]
    rw [headerSize, if_neg hAnonymous, SMSG_PL_HDR_LEN] at hHeader
    rw [readRange_of_le (by omega), ok_bind, readRange_of_le (by omega), ok_bind]
    dsimp only
    cases hSender : checkSender tools ((vchPayload.drop 1).take 20)
        ((vchPayload.drop (1 + 20)).take 65) (msg.vchMessage.set lenPlain 0).dropLast with
    | none =>
        refine ⟨_, rfl, rfl, iff_of_false Nat.one_ne_zero ?_⟩
        simp [hAnonymous]
    | some sender => exact ⟨_, rfl, rfl, iff_of_true rfl (Or.inr rfl)⟩

theorem finishMessage_of_ge {lenPlain : ℕ} (hLength : msg.vchMessage.length ≤ lenPlain) :
    finishMessage tools vchPayload (isAnonymous vchPayload) lenPlain msg addrpkdb =
      .error .outOfRange := by
  rw [finishMessage, storeAt, if_neg (not_lt_of_ge hLength)]
  rfl

/-- What is in the message before its last byte is the text. -/
theorem deliversText_finishMessage
    (hHeader : headerSize vchPayload ≤ vchPayload.length) (text : Valtype)
    (hText : IsText tools vchPayload text)
    (hLength : msg.vchMessage.length = statedLength vchPayload + 1)
    (hMessage : msg.vchMessage.set (statedLength vchPayload) 0 = text ++ [0]) :
    DeliversText tools (· = vchPayload)
      (finishMessage tools vchPayload (isAnonymous vchPayload) (statedLength vchPayload) msg
        addrpkdb) := by
  obtain ⟨decrypted, hFinish, hVch, -⟩ :=
    @finishMessage_of_lt tools vchPayload msg addrpkdb hHeader (statedLength vchPayload)
      (by omega)
  refine ⟨decrypted, hFinish, ?_⟩
  intro _
  exact ⟨vchPayload, text, rfl, hText, by rw [hVch, hMessage]⟩

theorem not_deliversText_error {isPayload : Valtype → Prop} (fault : Fault) :
    ¬DeliversText tools isPayload (.error fault) := by
  rintro ⟨decrypted, hError, -⟩
  cases hError

theorem deliversText_of_ne_zero
    {isPayload : Valtype → Prop} {decrypted : Decrypted} (h : decrypted.1 ≠ 0) :
    DeliversText tools isPayload (.ok decrypted) :=
  ⟨decrypted, rfl, fun hZero => absurd hZero h⟩

/-- A short text is copied. -/
theorem deliversText_copy
    (hHeader : headerSize vchPayload ≤ vchPayload.length)
    (hShort : statedLength vchPayload ≤ 128) :
    DeliversText tools (· = vchPayload)
        (readRange vchPayload (headerSize vchPayload) (statedLength vchPayload) >>= fun text =>
          fillStart (resizeTo ((statedLength vchPayload + 1) % 2 ^ 32) msg.vchMessage) text >>=
            fun vchMessage =>
              finishMessage tools vchPayload (isAnonymous vchPayload) (statedLength vchPayload)
                { msg with vchMessage := vchMessage } addrpkdb) ↔
      headerSize vchPayload + statedLength vchPayload ≤ vchPayload.length := by
  by_cases hInside : headerSize vchPayload + statedLength vchPayload ≤ vchPayload.length
  · apply iff_of_true _ hInside
    have hBytes : ((vchPayload.drop (headerSize vchPayload)).take
        (statedLength vchPayload)).length = statedLength vchPayload := by
      rw [List.length_take, List.length_drop]
      omega
    have hResized := length_resized (n := statedLength vchPayload) (by omega) msg.vchMessage
    rw [readRange_of_le hInside, ok_bind, fillStart_of_le (by omega), ok_bind]
    apply deliversText_finishMessage hHeader
      ((vchPayload.drop (headerSize vchPayload)).take (statedLength vchPayload))
    · exact ⟨hBytes, by rw [if_pos hShort, textData]⟩
    · rw [List.length_append, List.length_drop]
      omega
    · exact set_filled hBytes hResized
  · apply iff_of_false _ hInside
    have hRead : readRange vchPayload (headerSize vchPayload) (statedLength vchPayload) =
        .error .outOfRange := by
      rw [readRange, if_neg]
      omega
    rw [hRead, error_bind]
    exact not_deliversText_error _

/-- A text whose length is an `int` is decompressed, or refused. -/
theorem deliversText_decompress
    (hWithin : tools.WithinLengths) (hHeader : headerSize vchPayload ≤ vchPayload.length)
    (hLong : 128 < statedLength vchPayload) (hInt : statedLength vchPayload < 2 ^ 31) :
    DeliversText tools (· = vchPayload)
      (fillStart (resizeTo ((statedLength vchPayload + 1) % 2 ^ 32) msg.vchMessage)
          (tools.lz4DecompressSafe (textData vchPayload)
            (asInt (statedLength vchPayload))).2 >>= fun vchMessage =>
        if (tools.lz4DecompressSafe (textData vchPayload)
            (asInt (statedLength vchPayload))).1 ≠ asInt (statedLength vchPayload) then
          .ok (1, { msg with vchMessage := vchMessage }, addrpkdb)
        else
          finishMessage tools vchPayload (isAnonymous vchPayload) (statedLength vchPayload)
            { msg with vchMessage := vchMessage } addrpkdb) := by
  have hWritten := hWithin.written (textData vchPayload) (asInt (statedLength vchPayload))
  have hCounted := hWithin.counted (textData vchPayload) (asInt (statedLength vchPayload))
  have hResized := length_resized hInt msg.vchMessage
  have hAsInt := asInt_of_lt hInt
  cases hLz4 : tools.lz4DecompressSafe (textData vchPayload) (asInt (statedLength vchPayload)) with
  | mk rv text =>
      rw [hLz4] at hWritten hCounted
      dsimp only at hWritten hCounted ⊢
      rw [fillStart_of_le (by omega), ok_bind]
      by_cases hRv : rv = asInt (statedLength vchPayload)
      · have hBytes : text.length = statedLength vchPayload := by omega
        rw [if_neg (not_not_intro hRv)]
        apply deliversText_finishMessage hHeader text
        · refine ⟨hBytes, ?_⟩
          rw [if_neg (by omega), hLz4, hRv, hAsInt]
        · rw [List.length_append, List.length_drop]
          omega
        · exact set_filled hBytes hResized
      · rw [if_pos hRv]
        exact deliversText_of_ne_zero Nat.one_ne_zero

/-- A length that is negative as an `int` is that of no text. -/
theorem not_isText_of_negative
    (hWithin : tools.WithinLengths) (hNegative : 2 ^ 31 ≤ statedLength vchPayload)
    (text : Valtype) : ¬IsText tools vchPayload text := by
  rintro ⟨hLength, hText⟩
  have hAsInt := asInt_of_le hNegative (statedLength_lt vchPayload)
  have hLt := statedLength_lt vchPayload
  have hWritten := hWithin.written (textData vchPayload) (asInt (statedLength vchPayload))
  rw [if_neg (by omega)] at hText
  rw [hText] at hWritten
  dsimp only at hWritten
  omega

/-- Nothing is decompressed for a negative length.  A value returned that is the same number lets
the message pass. -/
theorem deliversText_negative
    (hWithin : tools.WithinLengths) (hHeader : headerSize vchPayload ≤ vchPayload.length)
    (hNegative : 2 ^ 31 ≤ statedLength vchPayload) :
    DeliversText tools (· = vchPayload)
        (fillStart (resizeTo ((statedLength vchPayload + 1) % 2 ^ 32) msg.vchMessage)
            (tools.lz4DecompressSafe (textData vchPayload)
              (asInt (statedLength vchPayload))).2 >>= fun vchMessage =>
          if (tools.lz4DecompressSafe (textData vchPayload)
              (asInt (statedLength vchPayload))).1 ≠ asInt (statedLength vchPayload) then
            .ok (1, { msg with vchMessage := vchMessage }, addrpkdb)
          else
            finishMessage tools vchPayload (isAnonymous vchPayload) (statedLength vchPayload)
              { msg with vchMessage := vchMessage } addrpkdb) ↔
      ((tools.lz4DecompressSafe (textData vchPayload) (asInt (statedLength vchPayload))).1 =
          asInt (statedLength vchPayload) →
        statedLength vchPayload + 1 ≠ 2 ^ 32 ∧
          ¬SenderAccepted tools vchPayload
            (resizeTo (statedLength vchPayload) msg.vchMessage)) := by
  have hLt := statedLength_lt vchPayload
  have hAsInt := asInt_of_le hNegative hLt
  have hWritten := hWithin.written (textData vchPayload) (asInt (statedLength vchPayload))
  have hNothing : (tools.lz4DecompressSafe (textData vchPayload)
      (asInt (statedLength vchPayload))).2 = [] := by
    apply List.eq_nil_of_length_eq_zero
    omega
  rw [hNothing, fillStart_of_le (Nat.zero_le _), ok_bind, List.nil_append, List.length_nil,
    List.drop_zero]
  by_cases hRv : (tools.lz4DecompressSafe (textData vchPayload)
      (asInt (statedLength vchPayload))).1 = asInt (statedLength vchPayload)
  · rw [if_neg (not_not_intro hRv)]
    by_cases hWrap : statedLength vchPayload + 1 = 2 ^ 32
    · -- the vector is empty
      apply iff_of_false _ (fun h => (h hRv).1 hWrap)
      rw [finishMessage_of_ge]
      · exact not_deliversText_error _
      · rw [length_resizeTo, hWrap]
        omega
    · have hMod : (statedLength vchPayload + 1) % 2 ^ 32 = statedLength vchPayload + 1 := by omega
      rw [hMod]
      obtain ⟨decrypted, hFinish, -, hZero⟩ :=
        @finishMessage_of_lt tools vchPayload
          { msg with vchMessage := resizeTo (statedLength vchPayload + 1) msg.vchMessage } addrpkdb
          hHeader (statedLength vchPayload) (by rw [length_resizeTo]; omega)
      rw [dropLast_set_resizeTo] at hZero
      rw [hFinish]
      constructor
      · rintro ⟨_, hEq, hText⟩ _
        obtain rfl := Except.ok.inj hEq
        refine ⟨hWrap, fun hAccepted => ?_⟩
        obtain ⟨_, text, rfl, hIsText, -⟩ := hText (hZero.mpr hAccepted)
        exact not_isText_of_negative hWithin hNegative text hIsText
      · intro h
        apply deliversText_of_ne_zero
        exact fun hRv' => (h hRv).2 (hZero.mp hRv')
  · rw [if_pos hRv]
    apply iff_of_true
    · exact deliversText_of_ne_zero Nat.one_ne_zero
    · exact fun h => absurd h hRv

theorem deliversText_readPayload_iff
    (hWithin : tools.WithinLengths) (hSize : vchPayload.length < 2 ^ 31) :
    DeliversText tools (· = vchPayload) (readPayload tools vchPayload msg addrpkdb) ↔
      PayloadFits tools vchPayload msg := by
  by_cases hHeader : headerSize vchPayload ≤ vchPayload.length
  · rw [readPayload_of_header hHeader hSize]
    by_cases hResize : tools.canResize ((statedLength vchPayload + 1) % 2 ^ 32) = true
    · rw [hResize, Bool.not_true, if_neg Bool.false_ne_true]
      by_cases hLong : statedLength vchPayload > 128
      · rw [if_pos hLong]
        by_cases hInt : statedLength vchPayload < 2 ^ 31
        · apply iff_of_true (deliversText_decompress hWithin hHeader hLong hInt)
          refine ⟨hHeader, ?_, ?_⟩
          · intro _ hShort
            omega
          · intro _ hNegative
            omega
        · rw [deliversText_negative hWithin hHeader (not_lt.mp hInt)]
          constructor
          · intro h
            refine ⟨hHeader, ?_, fun _ _ => h⟩
            intro _ hShort
            omega
          · exact fun h => h.long hResize (not_lt.mp hInt)
      · rw [if_neg hLong, deliversText_copy hHeader (not_lt.mp hLong)]
        constructor
        · intro h
          refine ⟨hHeader, fun _ _ => h, ?_⟩
          intro _ hNegative
          omega
        · exact fun h => h.short hResize (not_lt.mp hLong)
    · rw [Bool.not_eq_true _ |>.mp hResize, Bool.not_false, if_pos rfl]
      apply iff_of_true (deliversText_of_ne_zero (by norm_num))
      exact ⟨hHeader, fun h => absurd h hResize, fun h => absurd h hResize⟩
  · rw [readPayload_of_short (not_le.mp hHeader)]
    exact iff_of_false (not_deliversText_error _) (fun h => hHeader h.header)

end Reading

/-! ## Whole messages -/

section Messages

variable {tools : DecryptTools} {address : String} {header pPayload : Valtype}

theorem ne_zero_of_error
    {α : Type} {n rv : ℕ} (hn : n ≠ 0) (h : (Except.error n : Except ℕ α) = .error rv) :
    rv ≠ 0 := by
  obtain rfl := Except.error.inj h
  exact hn

/-- A message that is not decrypted has an error code. -/
theorem payloadKey_error
    {rv : ℕ} (h : payloadKey tools address header pPayload = .error rv) : rv ≠ 0 := by
  unfold payloadKey at h
  dsimp only at h
  split at h
  · exact ne_zero_of_error (Nat.succ_ne_zero 1) h
  split at h
  · exact ne_zero_of_error (Nat.succ_ne_zero 2) h
  split at h
  · exact ne_zero_of_error Nat.one_ne_zero h
  split at h
  · exact ne_zero_of_error Nat.one_ne_zero h
  split at h
  · exact ne_zero_of_error Nat.one_ne_zero h
  split at h
  · exact ne_zero_of_error Nat.one_ne_zero h
  split_ifs at h
  · exact ne_zero_of_error Nat.one_ne_zero h
  · exact ne_zero_of_error Nat.one_ne_zero h

theorem OpensTo.unique
    {vchPayload vchPayload' : Valtype} (h : OpensTo tools address header pPayload vchPayload)
    (h' : OpensTo tools address header pPayload vchPayload') : vchPayload' = vchPayload := by
  obtain ⟨key_e, hKey, hDecrypt⟩ := h
  obtain ⟨key_e', hKey', hDecrypt'⟩ := h'
  obtain rfl := Except.ok.inj (hKey.symm.trans hKey')
  exact Option.some.inj (hDecrypt'.symm.trans hDecrypt)

theorem secureMsgDecrypt_of_opensTo
    {vchPayload : Valtype} (h : OpensTo tools address header pPayload vchPayload)
    (msg : MessageData) (addrpkdb : SecMsgDB) :
    secureMsgDecrypt tools false address header pPayload msg addrpkdb =
      readPayload tools vchPayload
        { msg with timestamp := (SecureMessage.ofBytes header).timestamp } addrpkdb := by
  obtain ⟨key_e, hKey, hDecrypt⟩ := h
  rw [secureMsgDecrypt, hKey]
  dsimp only
  rw [hDecrypt]
  rfl

/-- A message that does not open leaves an error code. -/
theorem secureMsgDecrypt_of_not_opensTo
    (h : ∀ vchPayload, ¬OpensTo tools address header pPayload vchPayload)
    (msg : MessageData) (addrpkdb : SecMsgDB) :
    ∃ rv, rv ≠ 0 ∧ secureMsgDecrypt tools false address header pPayload msg addrpkdb =
      .ok (rv, msg, addrpkdb) := by
  cases hKey : payloadKey tools address header pPayload with
  | error rv =>
      refine ⟨rv, payloadKey_error hKey, ?_⟩
      rw [secureMsgDecrypt, hKey]
  | ok key_e =>
      refine ⟨1, Nat.one_ne_zero, ?_⟩
      cases hDecrypt : secMsgCrypterDecrypt tools key_e (SecureMessage.ivOf header) pPayload with
      | none =>
          rw [secureMsgDecrypt, hKey]
          dsimp only
          rw [hDecrypt]
          rfl
      | some vchPayload => exact absurd ⟨key_e, hKey, hDecrypt⟩ (h vchPayload)

/-- Decrypting a message is safe, and what it delivers is the text, exactly when the payload has
its header and a text of the length it states. -/
theorem secureMsgDecrypt_safe_iff
    (hWithin : tools.WithinLengths) (address : String) (header pPayload : Valtype)
    (msg : MessageData) (addrpkdb : SecMsgDB) :
    DeliversText tools (OpensTo tools address header pPayload)
        (secureMsgDecrypt tools false address header pPayload msg addrpkdb) ↔
      ∀ vchPayload, OpensTo tools address header pPayload vchPayload →
        PayloadFits tools vchPayload msg := by
  by_cases hOpens : ∃ vchPayload, OpensTo tools address header pPayload vchPayload
  · obtain ⟨vchPayload, hPayload⟩ := hOpens
    have hOnly : OpensTo tools address header pPayload = (· = vchPayload) := by
      funext vchPayload'
      apply propext
      constructor
      · exact fun h => hPayload.unique h
      · rintro rfl
        exact hPayload
    have hSize : vchPayload.length < 2 ^ 31 := by
      obtain ⟨key_e, -, hDecrypt⟩ := hPayload
      have hDecrypted := hWithin.decrypted hDecrypt
      omega
    rw [secureMsgDecrypt_of_opensTo hPayload, hOnly, deliversText_readPayload_iff hWithin hSize]
    constructor
    · rintro hFits _ rfl
      exact ⟨hFits.header, hFits.short, hFits.long⟩
    · intro h
      have hFits := h vchPayload rfl
      exact ⟨hFits.header, hFits.short, hFits.long⟩
  · obtain ⟨rv, hRv, hDecrypt⟩ := secureMsgDecrypt_of_not_opensTo
      (fun vchPayload h => hOpens ⟨vchPayload, h⟩) msg addrpkdb
    rw [hDecrypt]
    apply iff_of_true (deliversText_of_ne_zero hRv)
    intro vchPayload h
    exact absurd ⟨vchPayload, h⟩ hOpens

end Messages

/-! ## Payloads without a header or without their text -/

namespace Sample

/-- The padding of the last block says how many bytes it has. -/
def unpadded (block : Valtype) : Option Valtype :=
  match block.getLast? with
  | none => none
  | some n =>
      if 1 ≤ n.toNat ∧ n.toNat ≤ 16 ∧
          block.drop (16 - n.toNat) = List.replicate n.toNat n then
        some (block.take (16 - n.toNat))
      else none

/-- Libraries with a cipher that only pads, whose codes are all zero, and no compression. -/
def decryptTools : DecryptTools where
  hmac := fun _ _ => some (List.replicate 32 0)
  script := scriptPrims
  getKey := fun _ => some (List.replicate 32 1)
  ecdhComputeKey := fun _ _ => some (List.replicate 32 2)
  sha512 := fun _ => List.replicate 64 3
  evpDecryptUpdate := fun _ _ ciphertext =>
    if ciphertext.length < 2 ^ 31 then some (ciphertext.take (ciphertext.length - 16)) else none
  evpDecryptFinal := fun _ _ ciphertext =>
    if 16 ≤ ciphertext.length ∧ ciphertext.length % 16 = 0 then
      unpadded (ciphertext.drop (ciphertext.length - 16))
    else none
  canResize := fun n => n < 2 ^ 30
  lz4DecompressSafe := fun _ _ => (-1, [])
  recoverCompact := fun _ _ => CPubKey.ofBytes []
  pubkeyAddress := [63]
  scriptAddress := [85]
  encodeBase58Check := fun _ => "S"

theorem decryptTools_within : decryptTools.WithinLengths where
  decrypted := by
    intro key iv chCiphertext vchPlaintext h
    simp only [secMsgCrypterDecrypt, decryptTools, Option.bind_eq_bind] at h
    obtain ⟨nPLen, hUpdate, h⟩ := Option.bind_eq_some_iff.mp h
    obtain ⟨nFLen, hFinal, h⟩ := Option.bind_eq_some_iff.mp h
    obtain rfl := Option.some.inj h
    split_ifs at hUpdate with hInt
    split_ifs at hFinal with hBlocks
    obtain rfl := Option.some.inj hUpdate
    have hLast : nFLen.length ≤ 16 := by
      unfold unpadded at hFinal
      split at hFinal
      · cases hFinal
      · split_ifs at hFinal
        obtain rfl := Option.some.inj hFinal
        exact (List.length_take_le _ _).trans (Nat.sub_le _ _)
    refine ⟨?_, hInt⟩
    rw [List.length_append, List.length_take]
    omega
  written := by
    intro source maxOutputSize
    exact le_max_right _ _
  counted := by
    intro source maxOutputSize h
    have hNegative : ¬(0 : ℤ) ≤ -1 := by decide
    exact absurd h hNegative

/-- A header whose message authentication code is zero, with the key of a compressed point. -/
def sealedHeader : Valtype :=
  List.replicate 4 0 ++ [1, 1, 0] ++ List.replicate 24 0 ++ (2 :: List.replicate 32 7) ++
    List.replicate 40 0

def emptyMessage : MessageData := ⟨0, "", "", []⟩

/-- A block with the start of a message without a sender, and with so many bytes of padding. -/
def anonymousBlock (lenPlain : UInt8) (text : Valtype) : Valtype :=
  let vchPayload := [250, 0, 0, 0, 0, lenPlain, 0, 0, 0] ++ text
  vchPayload ++ List.replicate (16 - vchPayload.length) (UInt8.ofNat (16 - vchPayload.length))

/-- A text of three bytes is delivered. -/
theorem decrypt_threeBytes :
    DeliversText decryptTools
      (OpensTo decryptTools "S" sealedHeader (anonymousBlock 3 [104, 105, 33]))
      (secureMsgDecrypt decryptTools false "S" sealedHeader (anonymousBlock 3 [104, 105, 33])
        emptyMessage ∅) := by
  apply (secureMsgDecrypt_safe_iff decryptTools_within "S" sealedHeader
    (anonymousBlock 3 [104, 105, 33]) emptyMessage ∅).mpr
  intro vchPayload hPayload
  have hOpens : OpensTo decryptTools "S" sealedHeader (anonymousBlock 3 [104, 105, 33])
      [250, 0, 0, 0, 0, 3, 0, 0, 0, 104, 105, 33] :=
    ⟨List.replicate 32 3, by decide +kernel, by decide +kernel⟩
  obtain rfl := hOpens.unique hPayload
  exact ⟨by decide +kernel, fun _ _ => by decide +kernel,
    fun _ hNegative => absurd hNegative (by decide +kernel)⟩

/-- The code of an empty payload matches, as that of a payload of a header alone that states a
text of 128 bytes; both are read beyond their end. -/
theorem decrypt_beyondPayload :
    OpensTo decryptTools "S" sealedHeader (List.replicate 16 16) [] ∧
      OpensTo decryptTools "S" sealedHeader (anonymousBlock 128 [])
        [250, 0, 0, 0, 0, 128, 0, 0, 0] ∧
      secureMsgDecrypt decryptTools false "S" sealedHeader (List.replicate 16 16) emptyMessage ∅ =
        .error .outOfRange ∧
      secureMsgDecrypt decryptTools false "S" sealedHeader (anonymousBlock 128 []) emptyMessage ∅ =
        .error .outOfRange := by
  have hEmpty : OpensTo decryptTools "S" sealedHeader (List.replicate 16 16) [] :=
    ⟨List.replicate 32 3, by decide +kernel, by decide +kernel⟩
  have hHeaderOnly : OpensTo decryptTools "S" sealedHeader (anonymousBlock 128 [])
      [250, 0, 0, 0, 0, 128, 0, 0, 0] :=
    ⟨List.replicate 32 3, by decide +kernel, by decide +kernel⟩
  refine ⟨hEmpty, hHeaderOnly, ?_, ?_⟩
  · rw [secureMsgDecrypt_of_opensTo hEmpty]
    rfl
  · rw [secureMsgDecrypt_of_opensTo hHeaderOnly]
    apply eq_error_of_test
    decide +kernel

end Sample

end SocietyGold
