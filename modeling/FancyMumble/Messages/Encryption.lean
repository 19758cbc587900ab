import FancyMumble.Messages.Inbound
import FancyMumble.Persistent.Encryptor
import FancyMumble.Persistent.SignedData

/-!
# Encrypted messages

The key manager encrypts a message with the archive key of its channel, bound to the
channel, the message id and the timestamp: with the same three it decrypts again, and with
any other it does not. No byte string makes decryption panic.
-/

namespace FancyMumble.Messages

open Lib Lib.Outcome Persistent

structure UuidBytes where
  bytes : List UInt8
  length_bytes : bytes.length = 16

/-- What the key manager uses to encrypt. `groupEncrypt` is that of the bridge, if it is
loaded. -/
structure Suite where
  aead : Aead
  uuidParseStr : String → Except String UuidBytes
  epochFingerprint : List UInt8 → List UInt8
  groupEncrypt : UInt32 → List UInt8 → Except Error (List UInt8)

structure EncryptedPayload where
  ciphertext : List UInt8
  epoch : Option UInt32 := none
  chainIndex : Option UInt32 := none
  epochFingerprint : List UInt8

structure Address where
  channelId : UInt32
  messageId : String
  timestamp : UInt64

namespace Suite

variable (suite : Suite)

def uuidToBytes (messageId : String) : Lib.Outcome Error UuidBytes :=
  ofExcept (fun e => .invalidState s!"invalid UUID: {e}") (suite.uuidParseStr messageId)

def encrypt (km : KeyManager) (nextU32 : UInt32) (nonce : XNonce) (protocol : PchatProtocol)
    (address : Address) (plaintext : List UInt8) : Lib.Outcome Error EncryptedPayload := do
  let uuidBytes ← suite.uuidToBytes address.messageId
  let aad := buildAad address.channelId uuidBytes.bytes address.timestamp
  match protocol with
  | .fancyV1FullArchive =>
      match km.archiveKeys address.channelId with
      | none => .err (.invalidState "no archive key for channel")
      | some (key, _) => do
          let ciphertext ←
            XChaChaEncryptor.encrypt suite.aead nextU32 nonce key.bytes plaintext aad
          pure { ciphertext, epochFingerprint := suite.epochFingerprint key.bytes }
  | .signalV1 =>
      if km.signalBridge then do
        let ciphertext ← ofExcept id (suite.groupEncrypt address.channelId plaintext)
        pure { ciphertext, epochFingerprint := List.replicate 8 0 }
      else .err (.invalidState "signal bridge not loaded")
  | .none => .err (.invalidState s!"cannot encrypt for protocol {protocol.debugName}")

def decrypt (km : KeyManager) (protocol : PchatProtocol) (address : Address)
    (payload : EncryptedPayload) : Lib.Outcome Error (List UInt8) := do
  let uuidBytes ← suite.uuidToBytes address.messageId
  let aad := buildAad address.channelId uuidBytes.bytes address.timestamp
  match protocol with
  | .fancyV1FullArchive =>
      match km.archiveKeys address.channelId with
      | none => .err (.invalidState "no archive key for channel")
      | some (key, _) => XChaChaEncryptor.decrypt suite.aead key.bytes payload.ciphertext aad
  | _ => .err (.invalidState s!"cannot decrypt for protocol {protocol.debugName}")

/-! ## Addresses -/

def SameAddress (address address' : Address) : Prop :=
  address'.channelId = address.channelId ∧
    suite.uuidParseStr address'.messageId = suite.uuidParseStr address.messageId ∧
    address'.timestamp = address.timestamp

end Suite

theorem buildAad_inj {channelId channelId' : UInt32} {uuid uuid' : UuidBytes}
    {timestamp timestamp' : UInt64}
    (h : buildAad channelId uuid.bytes timestamp = buildAad channelId' uuid'.bytes timestamp') :
    channelId = channelId' ∧ uuid = uuid' ∧ timestamp = timestamp' := by
  have hwidth : (toBeBytes 4 channelId.toNat ++ uuid.bytes).length =
      (toBeBytes 4 channelId'.toNat ++ uuid'.bytes).length := by
    rw [List.length_append, List.length_append, length_toBeBytes, length_toBeBytes,
      uuid.length_bytes, uuid'.length_bytes]
  obtain ⟨hfront, htimestamp⟩ := List.append_inj h hwidth
  have hchannelWidth : (toBeBytes 4 channelId.toNat).length =
      (toBeBytes 4 channelId'.toNat).length := by
    rw [length_toBeBytes, length_toBeBytes]
  obtain ⟨hchannel, huuid⟩ := List.append_inj hfront hchannelWidth
  refine ⟨toBeBytes_uint32_inj hchannel, ?_, toBeBytes_uint64_inj htimestamp⟩
  cases uuid with
  | mk bytes length_bytes =>
      cases uuid' with
      | mk bytes' length_bytes' =>
          cases huuid
          rfl

/-! ## What an encrypted message opens with -/

namespace Suite

variable {suite : Suite} {km km' : KeyManager} {nextU32 : UInt32} {nonce : XNonce}
  {address address' : Address} {plaintext : List UInt8} {payload : EncryptedPayload}

theorem encrypt_archive_eq_ok
    (h : suite.encrypt km nextU32 nonce .fancyV1FullArchive address plaintext = .ok payload) :
    ∃ uuidBytes key trust, suite.uuidParseStr address.messageId = .ok uuidBytes ∧
      km.archiveKeys address.channelId = some (key, trust) ∧
      XChaChaEncryptor.encrypt suite.aead nextU32 nonce key.bytes plaintext
        (buildAad address.channelId uuidBytes.bytes address.timestamp) =
          .ok payload.ciphertext := by
  rw [encrypt] at h
  obtain ⟨uuidBytes, huuid, h⟩ := bind_eq_ok_iff.mp h
  dsimp only at h
  cases hkey : km.archiveKeys address.channelId with
  | none =>
      rw [hkey] at h
      cases h
  | some entry =>
      obtain ⟨key, trust⟩ := entry
      rw [hkey] at h
      obtain ⟨ciphertext, hciphertext, h⟩ := bind_eq_ok_iff.mp h
      cases h
      exact ⟨uuidBytes, key, trust, ofExcept_eq_ok_iff.mp huuid, rfl, hciphertext⟩

theorem exists_encrypt_archive_iff :
    (∃ payload,
      suite.encrypt km nextU32 nonce .fancyV1FullArchive address plaintext = .ok payload) ↔
      ∃ uuidBytes key trust ciphertext, suite.uuidParseStr address.messageId = .ok uuidBytes ∧
        km.archiveKeys address.channelId = some (key, trust) ∧
        XChaChaEncryptor.encrypt suite.aead nextU32 nonce key.bytes plaintext
          (buildAad address.channelId uuidBytes.bytes address.timestamp) = .ok ciphertext := by
  constructor
  · rintro ⟨payload, h⟩
    obtain ⟨uuidBytes, key, trust, huuid, hkey, hencrypt⟩ := encrypt_archive_eq_ok h
    exact ⟨uuidBytes, key, trust, payload.ciphertext, huuid, hkey, hencrypt⟩
  · rintro ⟨uuidBytes, key, trust, ciphertext, huuid, hkey, hencrypt⟩
    rw [encrypt, uuidToBytes, huuid, ofExcept_ok, ok_bind]
    dsimp only
    rw [hkey]
    dsimp only
    rw [hencrypt]
    exact ⟨_, rfl⟩

theorem decrypt_encrypt (hideal : suite.aead.Ideal)
    (h : suite.encrypt km nextU32 nonce .fancyV1FullArchive address plaintext = .ok payload)
    (hkey : (km'.archiveKeys address.channelId).map Prod.fst =
      (km.archiveKeys address.channelId).map Prod.fst) :
    suite.decrypt km' .fancyV1FullArchive address payload = .ok plaintext := by
  obtain ⟨uuidBytes, key, trust, huuid, harchive, hencrypt⟩ := encrypt_archive_eq_ok h
  rw [harchive, Option.map_some, Option.map_eq_some_iff] at hkey
  obtain ⟨⟨key', trust'⟩, harchive', rfl⟩ := hkey
  rw [decrypt, uuidToBytes, huuid, ofExcept_ok, ok_bind]
  dsimp only
  rw [harchive']
  exact XChaChaEncryptor.decrypt_encrypt hideal hencrypt

theorem decrypt_encrypt_ne (hideal : suite.aead.Ideal)
    (h : suite.encrypt km nextU32 nonce .fancyV1FullArchive address plaintext = .ok payload)
    (hother : ¬suite.SameAddress address address') :
    ∃ e, suite.decrypt km' .fancyV1FullArchive address' payload = .err e := by
  obtain ⟨uuidBytes, key, trust, huuid, harchive, hencrypt⟩ := encrypt_archive_eq_ok h
  rw [decrypt, uuidToBytes]
  cases huuid' : suite.uuidParseStr address'.messageId with
  | error e => exact ⟨_, rfl⟩
  | ok uuidBytes' =>
      rw [ofExcept_ok, ok_bind]
      dsimp only
      cases km'.archiveKeys address'.channelId with
      | none => exact ⟨_, rfl⟩
      | some entry =>
          refine XChaChaEncryptor.decrypt_encrypt_ne hideal hencrypt fun haad => hother ?_
          obtain ⟨hchannel, hbytes, htimestamp⟩ := buildAad_inj haad
          refine ⟨hchannel, ?_, htimestamp⟩
          rw [huuid', huuid, hbytes]

theorem noPanic_decrypt (suite : Suite) (km : KeyManager) (protocol : PchatProtocol)
    (address : Address) (payload : EncryptedPayload) :
    NoPanic (suite.decrypt km protocol address payload) := by
  rw [decrypt, noPanic_bind]
  refine ⟨noPanic_ofExcept _ _, fun uuidBytes _ => ?_⟩
  cases protocol with
  | fancyV1FullArchive =>
      dsimp only
      cases km.archiveKeys address.channelId with
      | none => exact noPanic_err _
      | some entry => exact XChaChaEncryptor.noPanic_decrypt _ _ _
  | signalV1 => exact noPanic_err _
  | none => exact noPanic_err _

end Suite

/-! ## The handlers' view -/

inductive Shown {α β : Type} (f : β → α) : Lib.Outcome Error α → Except String β → Prop where
  | ok (value : β) : Shown f (.ok (f value)) (.ok value)
  | err (e : Error) : Shown f (.err e) (.error e.display)

theorem shown_decryptArchive {lib : Signal.Libraries} {codecs : Codecs lib} {suite : Suite}
    {bytes : lib.Bytes → List UInt8}
    (huuid : ∀ messageId, codecs.uuidParseStr messageId =
      (suite.uuidParseStr messageId).map UuidBytes.bytes)
    (haead : ∀ (key : ChannelKey) ciphertext aad, Shown bytes
      (XChaChaEncryptor.decrypt suite.aead key.bytes (bytes ciphertext) aad)
      (codecs.aeadDecrypt key ciphertext aad))
    (km : KeyManager) (protocol : PchatProtocol) (address : Address) (ciphertext : lib.Bytes)
    (epochFingerprint : List UInt8) :
    Shown bytes
      (suite.decrypt km protocol address { ciphertext := bytes ciphertext, epochFingerprint })
      (decryptArchive codecs km protocol address.channelId address.messageId address.timestamp
        ciphertext) := by
  rw [Suite.decrypt, Suite.uuidToBytes, decryptArchive, huuid]
  cases suite.uuidParseStr address.messageId with
  | error e => exact .err _
  | ok uuidBytes =>
      cases protocol with
      | fancyV1FullArchive =>
          rw [ofExcept_ok, ok_bind]
          dsimp only [Except.map]
          cases km.archiveKeys address.channelId with
          | none => exact .err _
          | some entry => exact haead _ _ _
      | signalV1 => exact .err _
      | none => exact .err _

/-! ## Encryption as a whole -/

structure Suite.Sound (suite : Suite) : Prop where
  /-- Padding has room for every plaintext, and comes off again. -/
  padding : ∀ nextU32 plaintext, ∃ padded, padPlaintext nextU32 plaintext = .ok padded ∧
    unpadPlaintext padded = .ok plaintext
  /-- Encryption fails for the key's length or in the cipher only. -/
  room : ∀ {nextU32 nonce key plaintext aad},
    (∀ payload, XChaChaEncryptor.encrypt suite.aead nextU32 nonce key plaintext aad ≠
      .ok payload) →
      key.length ≠ keyLen ∨ (∃ e, suite.aead.newFromSlice key = .error e) ∨
        ∃ cipher padded e, suite.aead.newFromSlice key = .ok cipher ∧
          padPlaintext nextU32 plaintext = .ok padded ∧
          suite.aead.encrypt cipher nonce padded aad = .error e
  /-- The encryptor's payload decrypts under the same key and associated data. -/
  inverts : ∀ {nextU32 nonce key plaintext aad payload},
    XChaChaEncryptor.encrypt suite.aead nextU32 nonce key plaintext aad = .ok payload →
      XChaChaEncryptor.decrypt suite.aead key payload aad = .ok plaintext
  /-- It decrypts for no other channel, UUID or timestamp. -/
  binds : ∀ {nextU32 nonce key plaintext payload key'} {channelId channelId' : UInt32}
    {uuid uuid' : UuidBytes} {timestamp timestamp' : UInt64},
    XChaChaEncryptor.encrypt suite.aead nextU32 nonce key plaintext
      (buildAad channelId uuid.bytes timestamp) = .ok payload →
    ¬(channelId' = channelId ∧ uuid' = uuid ∧ timestamp' = timestamp) →
      ∃ e, XChaChaEncryptor.decrypt suite.aead key' payload
        (buildAad channelId' uuid'.bytes timestamp') = .err e
  /-- A key manager encrypts exactly if the id is a UUID, the channel has a key, and the
  encryptor succeeds under it. -/
  encrypts : ∀ {km nextU32 nonce address plaintext},
    (∃ payload,
      suite.encrypt km nextU32 nonce .fancyV1FullArchive address plaintext = .ok payload) ↔
      ∃ uuidBytes key trust ciphertext, suite.uuidParseStr address.messageId = .ok uuidBytes ∧
        km.archiveKeys address.channelId = some (key, trust) ∧
        XChaChaEncryptor.encrypt suite.aead nextU32 nonce key.bytes plaintext
          (buildAad address.channelId uuidBytes.bytes address.timestamp) = .ok ciphertext
  /-- The same of the messages that the key managers exchange. -/
  messages : ∀ {km nextU32 nonce address plaintext payload},
    suite.encrypt km nextU32 nonce .fancyV1FullArchive address plaintext = .ok payload →
      ∀ km' : KeyManager,
        ((km'.archiveKeys address.channelId).map Prod.fst =
            (km.archiveKeys address.channelId).map Prod.fst →
          suite.decrypt km' .fancyV1FullArchive address payload = .ok plaintext) ∧
        ∀ address', ¬suite.SameAddress address address' →
          ∃ e, suite.decrypt km' .fancyV1FullArchive address' payload = .err e
  /-- Nothing that is decrypted or unpadded panics. -/
  total : (∀ padded, NoPanic (unpadPlaintext padded)) ∧
    (∀ key payload aad, NoPanic (XChaChaEncryptor.decrypt suite.aead key payload aad)) ∧
    ∀ km protocol address payload, NoPanic (suite.decrypt km protocol address payload)

/-- An ideal cipher makes the suite sound, whatever the rest of it is. -/
theorem Suite.sound_of_ideal (suite : Suite) (hideal : suite.aead.Ideal) : suite.Sound where
  padding nextU32 plaintext := by
    obtain ⟨zeros, -, hpad⟩ := exists_padPlaintext_eq nextU32 plaintext
    exact ⟨_, hpad, unpadPlaintext_padPlaintext hpad⟩
  room h := XChaChaEncryptor.encrypt_fails h
  inverts h := XChaChaEncryptor.decrypt_encrypt hideal h
  binds h hother := by
    refine XChaChaEncryptor.decrypt_encrypt_ne hideal h fun haad => hother ?_
    exact buildAad_inj haad
  encrypts := exists_encrypt_archive_iff
  messages h km' :=
    ⟨fun hkey => decrypt_encrypt hideal h hkey,
      fun address' hother => decrypt_encrypt_ne hideal h hother⟩
  total := ⟨noPanic_unpadPlaintext, XChaChaEncryptor.noPanic_decrypt, noPanic_decrypt suite⟩

/-! ### A cipher that writes its key and its associated data in front -/

def frame : List UInt8 → List UInt8
  | [] => [0]
  | b :: bs => 1 :: b :: frame bs

theorem frame_append_inj {xs ys r s : List UInt8} (h : frame xs ++ r = frame ys ++ s) :
    xs = ys ∧ r = s := by
  induction xs generalizing ys with
  | nil =>
      cases ys with
      | nil => exact ⟨rfl, List.cons_injective h⟩
      | cons y ys => exact absurd (List.head_eq_of_cons_eq h) (by decide)
  | cons x xs ih =>
      cases ys with
      | nil => exact absurd (List.head_eq_of_cons_eq h) (by decide)
      | cons y ys =>
          have htail := List.tail_eq_of_cons_eq h
          obtain ⟨hxs, hr⟩ := ih (List.tail_eq_of_cons_eq htail)
          exact ⟨by rw [List.head_eq_of_cons_eq htail, hxs], hr⟩

def framedFront (key : List UInt8) (nonce : XNonce) (aad : List UInt8) : List UInt8 :=
  frame key ++ (frame nonce.bytes ++ frame aad)

def framedAead : Aead where
  Cipher := List UInt8
  newFromSlice key := if key.length = keyLen then .ok key else .error "Invalid Length"
  encrypt key nonce msg aad := .ok (framedFront key nonce aad ++ (msg ++ List.replicate 16 0))
  decrypt key nonce ciphertext aad :=
    let msg := (ciphertext.drop (framedFront key nonce aad).length).take
      (ciphertext.length - (framedFront key nonce aad).length - 16)
    if ciphertext = framedFront key nonce aad ++ (msg ++ List.replicate 16 0) then .ok msg
    else .error "aead::Error"

theorem framedAead_ideal : framedAead.Ideal where
  decrypt_encrypt := by
    rintro key nonce msg aad ciphertext h
    cases h
    have hlength : (framedFront key nonce aad ++ (msg ++ List.replicate 16 (0 : UInt8))).length -
        (framedFront key nonce aad).length - 16 = msg.length := by
      simp only [List.length_append, List.length_replicate]
      omega
    simp only [framedAead]
    rw [hlength, List.drop_left, List.take_left, if_pos rfl]
  encrypt_decrypt := by
    rintro key nonce ciphertext aad msg h
    simp only [framedAead] at h ⊢
    split at h
    · rename_i heq
      cases h
      rw [← heq]
    · cases h
  binding := by
    rintro key key' nonce msg msg' aad aad' ciphertext h h'
    rw [← h'] at h
    have hfront : framedFront key nonce aad ++ (msg ++ List.replicate 16 0) =
        framedFront key' nonce aad' ++ (msg' ++ List.replicate 16 0) := Except.ok.inj h
    simp only [framedFront, List.append_assoc] at hfront
    exact (frame_append_inj (frame_append_inj (frame_append_inj hfront).2).2).1
  tag := by
    rintro key nonce msg aad ciphertext h
    cases h
    simp only [List.length_append, List.length_replicate]
    omega

def framedSuite : Suite where
  aead := framedAead
  uuidParseStr s :=
    if h : (s.toList.map fun c => UInt8.ofNat c.toNat).length = 16 then .ok ⟨_, h⟩
    else .error "invalid length"
  epochFingerprint key := key.take 8
  groupEncrypt _ _ := .error (.other "")

def framedManager : KeyManager :=
  ({} : KeyManager).storeArchiveKey 7 (.replicate 1) .verified

def framedAddress : Address := ⟨7, "0123456789abcdef", 5⟩

/-- A message is encrypted and decrypts, but not in another channel. -/
theorem Suite.sound_of_ideal_framed :
    framedSuite.aead.Ideal ∧ framedSuite.Sound ∧
      ∃ payload,
        framedSuite.encrypt framedManager 3 ⟨List.replicate 24 9, rfl⟩ .fancyV1FullArchive
          framedAddress [1, 2, 3] = .ok payload ∧
        framedSuite.decrypt framedManager .fancyV1FullArchive framedAddress payload =
          .ok [1, 2, 3] ∧
        ∃ e, framedSuite.decrypt framedManager .fancyV1FullArchive
          { framedAddress with channelId := 8 } payload = .err e := by
  have hsound := framedSuite.sound_of_ideal framedAead_ideal
  obtain ⟨payload, hpayload⟩ : ∃ payload,
      framedSuite.encrypt framedManager 3 ⟨List.replicate 24 9, rfl⟩ .fancyV1FullArchive
        framedAddress [1, 2, 3] = .ok payload :=
    hsound.encrypts.mpr ⟨_, _, _, _, rfl, rfl, rfl⟩
  obtain ⟨hsame, hother⟩ := hsound.messages hpayload framedManager
  exact ⟨framedAead_ideal, hsound, payload, hpayload, hsame rfl,
    hother _ fun h => absurd h.1 (by decide)⟩

end FancyMumble.Messages
