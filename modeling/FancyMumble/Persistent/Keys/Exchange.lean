import FancyMumble.Persistent.Keys.KeyManager

/-!
# Received key exchanges

A key exchange is checked and opened, and its key is stored: with the responses to
the request that it names, or, if it names none, as the archive key of the channel.
The cryptographic primitives are a parameter.
-/

namespace FancyMumble.Persistent

/-- The cryptographic primitives: the identity and the cipher suite of the key
manager, the signature scheme and the key fingerprint. -/
structure Crypto where
  /-- Key agreement of our identity with a public key. -/
  dhAgree : List UInt8 → List UInt8
  /-- Key derivation from a secret, a salt and an info text. -/
  derive : List UInt8 → List UInt8 → List UInt8 → Except Error (List UInt8)
  /-- Decryption of a payload under a key with associated data. -/
  decrypt : List UInt8 → List UInt8 → List UInt8 → Except Error (List UInt8)
  verifyingKeyFromBytes : List UInt8 → Except String (List UInt8)
  signatureFromSlice : List UInt8 → Except String (List UInt8)
  /-- Verification of signed data by a public key. -/
  verify : List UInt8 → List UInt8 → List UInt8 → Except String Unit
  epochFingerprint : List UInt8 → List UInt8

/-- Primitives for examples: keys travel in the clear, every signature is accepted, and
the fingerprint of a key is its first bytes. -/
def Crypto.plain : Crypto where
  dhAgree := fun publicKey => publicKey
  derive := fun secret _ _ => .ok secret
  decrypt := fun _ payload _ => .ok payload
  verifyingKeyFromBytes := .ok
  signatureFromSlice := .ok
  verify := fun _ _ _ => .ok ()
  epochFingerprint := fun key => key.take 8

def keyExchangeFreshnessMs : UInt64 :=
  5 * 60 * 1000

def hkdfSaltIdentity : List UInt8 :=
  asBytes "fancy-pchat-v1"

/-- `validate_timestamp_freshness`: an answer to a known request is not older than the
request and not more than the window newer. -/
def validateTimestampFreshness (requestTimestamp : Option UInt64)
    (exchangeTimestamp : UInt64) : Except Error Unit :=
  match requestTimestamp with
  | none => .ok ()
  | some requestTs =>
      if exchangeTimestamp < requestTs then
        .error (.invalidState "key-exchange timestamp before request")
      else if exchangeTimestamp > requestTs + keyExchangeFreshnessMs then
        .error (.invalidState "key-exchange timestamp too far after request")
      else
        .ok ()

def unwrapKey (crypto : Crypto) (dhPublic encryptedKey : List UInt8) :
    Except Error ChannelKey := do
  let sharedSecret := crypto.dhAgree dhPublic
  let decryptKey ← crypto.derive sharedSecret hkdfSaltIdentity (asBytes "key-wrap")
  let decrypted ← crypto.decrypt decryptKey encryptedKey []
  match ChannelKey.ofBytes? decrypted with
  | some key => .ok key
  | none => .error (.invalidState s!"decrypted key is {decrypted.length} bytes, expected 32")

namespace KeyManager

def verifyKeyExchangeSignature (crypto : Crypto) (km : KeyManager)
    (exchange : PchatKeyExchange) : Except Error Unit :=
  match km.peerKeys exchange.senderHash with
  | none => .error (.invalidState s!"unknown sender: {exchange.senderHash}")
  | some peer =>
      if exchange.algorithmVersion ≠ peer.algorithmVersion then
        .error (.invalidState "algorithm_version mismatch with sender's announced version")
      else
        let signedData := buildKeyExchangeSignedData exchange.algorithmVersion
          exchange.channelId (.fromWireStr exchange.protocol) exchange.epoch
          exchange.encryptedKey exchange.recipientHash exchange.requestId exchange.timestamp
        match crypto.signatureFromSlice exchange.signature with
        | .error e => .error (.invalidState s!"invalid signature bytes: {e}")
        | .ok signature =>
            match crypto.verify peer.signingPublic signedData signature with
            | .error e => .error (.invalidState s!"key-exchange signature invalid: {e}")
            | .ok () => .ok ()

def decryptExchangedKey (crypto : Crypto) (km : KeyManager) (exchange : PchatKeyExchange) :
    Except Error ChannelKey :=
  match km.peerKeys exchange.senderHash with
  | none => .error (.invalidState "unknown sender")
  | some peer => unwrapKey crypto peer.dhPublic exchange.encryptedKey

/-- The checks of `receive_key_exchange`: signature, freshness, decryption and
fingerprint. -/
def openKeyExchange (crypto : Crypto) (km : KeyManager) (exchange : PchatKeyExchange)
    (requestTimestamp : Option UInt64) : Except Error ChannelKey := do
  km.verifyKeyExchangeSignature crypto exchange
  validateTimestampFreshness requestTimestamp exchange.timestamp
  let key ← km.decryptExchangedKey crypto exchange
  if exchange.epochFingerprint.length ≠ 8 ∨
      crypto.epochFingerprint key.bytes ≠ exchange.epochFingerprint.take 8 then
    .error (.invalidState "epoch_fingerprint mismatch")
  else
    .ok key

def collectorOf (km : KeyManager) (requestId : String) (requestTimestamp : Option UInt64) :
    ConsensusCollector :=
  (km.pendingConsensus requestId).getD
    { responses := ∅, requestTimestamp := requestTimestamp.getD 0, observedMembers := 0 }

def collectedBy (km : KeyManager) (exchange : PchatKeyExchange) (requestId : String)
    (key : ChannelKey) (requestTimestamp : Option UInt64) : ConsensusCollector :=
  let collector := km.collectorOf requestId requestTimestamp
  { collector with responses := collector.responses.insert exchange.senderHash key }

def setCollector (km : KeyManager) (requestId : String) (collector : ConsensusCollector) :
    KeyManager :=
  { km with
    pendingConsensus := Function.update km.pendingConsensus requestId (some collector) }

@[simp] theorem setCollector_pendingConsensus (km : KeyManager) (requestId : String)
    (collector : ConsensusCollector) :
    (km.setCollector requestId collector).pendingConsensus =
      Function.update km.pendingConsensus requestId (some collector) := rfl

def storeExchangedKey (km : KeyManager) (protocol : PchatProtocol)
    (exchange : PchatKeyExchange) (key : ChannelKey) (requestTimestamp : Option UInt64) :
    KeyManager × Except Error Unit :=
  match protocol with
  | .fancyV1FullArchive =>
      match exchange.requestId with
      | some requestId =>
          (km.setCollector requestId
            (km.collectedBy exchange requestId key requestTimestamp), .ok ())
      | none => (km.storeArchiveKey exchange.channelId key .unverified, .ok ())
  | protocol =>
      (km, .error (.invalidState
        s!"unexpected protocol in key-exchange: {protocol.debugName}"))

/-- `receive_key_exchange`. An inline countersignature is checked last; the outcome of
that check is dropped and changes nothing. -/
def receiveKeyExchange (crypto : Crypto) (km : KeyManager) (exchange : PchatKeyExchange)
    (requestTimestamp : Option UInt64) : KeyManager × Except Error Unit :=
  match km.openKeyExchange crypto exchange requestTimestamp with
  | .error e => (km, .error e)
  | .ok key =>
      km.storeExchangedKey (.fromWireStr exchange.protocol) exchange key requestTimestamp

def Accepts (crypto : Crypto) (km : KeyManager) (exchange : PchatKeyExchange)
    (requestTimestamp : Option UInt64) (key : ChannelKey) : Prop :=
  km.openKeyExchange crypto exchange requestTimestamp = .ok key ∧
    PchatProtocol.fromWireStr exchange.protocol = .fancyV1FullArchive

theorem unwrapKey_of_accepts {crypto : Crypto} {km : KeyManager}
    {exchange : PchatKeyExchange} {requestTimestamp : Option UInt64} {key : ChannelKey}
    (h : km.Accepts crypto exchange requestTimestamp key) :
    ∃ peer, km.peerKeys exchange.senderHash = some peer ∧
      unwrapKey crypto peer.dhPublic exchange.encryptedKey = .ok key := by
  obtain ⟨hopen, -⟩ := h
  unfold openKeyExchange at hopen
  simp only [bind, Except.bind] at hopen
  split at hopen
  · cases hopen
  split at hopen
  · cases hopen
  split at hopen
  · cases hopen
  next opened hdecrypt =>
  split at hopen
  · cases hopen
  cases hopen
  unfold decryptExchangedKey at hdecrypt
  split at hdecrypt
  · cases hdecrypt
  next peer hpeer => exact ⟨peer, hpeer, hdecrypt⟩

theorem receiveKeyExchange_cases (crypto : Crypto) (km : KeyManager)
    (exchange : PchatKeyExchange) (requestTimestamp : Option UInt64) :
    ((∀ key, ¬km.Accepts crypto exchange requestTimestamp key) ∧
        ∃ e, km.receiveKeyExchange crypto exchange requestTimestamp = (km, .error e)) ∨
      ∃ key, km.Accepts crypto exchange requestTimestamp key ∧
        ((∃ requestId, exchange.requestId = some requestId ∧
            km.receiveKeyExchange crypto exchange requestTimestamp =
              (km.setCollector requestId
                (km.collectedBy exchange requestId key requestTimestamp), .ok ())) ∨
          exchange.requestId = none ∧
            km.receiveKeyExchange crypto exchange requestTimestamp =
              (km.storeArchiveKey exchange.channelId key .unverified, .ok ())) := by
  unfold receiveKeyExchange
  cases hopen : km.openKeyExchange crypto exchange requestTimestamp with
  | error e =>
      refine .inl ⟨fun key haccepts => ?_, e, rfl⟩
      rw [haccepts.1] at hopen
      cases hopen
  | ok key =>
      cases hprotocol : PchatProtocol.fromWireStr exchange.protocol with
      | none =>
          refine .inl ⟨fun key haccepts => ?_, _, rfl⟩
          rw [haccepts.2] at hprotocol
          cases hprotocol
      | signalV1 =>
          refine .inl ⟨fun key haccepts => ?_, _, rfl⟩
          rw [haccepts.2] at hprotocol
          cases hprotocol
      | fancyV1FullArchive =>
          refine .inr ⟨key, ⟨hopen, hprotocol⟩, ?_⟩
          cases hrequest : exchange.requestId with
          | some requestId =>
              refine .inl ⟨requestId, rfl, ?_⟩
              simp only [storeExchangedKey, hrequest]
          | none =>
              refine .inr ⟨rfl, ?_⟩
              simp only [storeExchangedKey, hrequest]

end KeyManager

end FancyMumble.Persistent
