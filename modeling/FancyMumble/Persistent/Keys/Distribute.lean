import FancyMumble.Persistent.Keys.Exchange

/-!
# Announced and distributed keys

A client announces the public keys of its identity, and it seals its archive key for
a peer whose keys it knows. What one client seals, the other one opens to the same
key.
-/

namespace FancyMumble.Persistent

def algorithmVersion : UInt8 := 1

structure PchatKeyAnnounce where
  algorithmVersion : UInt8
  identityPublic : List UInt8
  signingPublic : List UInt8
  certHash : String
  timestamp : UInt64
  signature : List UInt8
  tlsSignature : List UInt8 := []

def buildKeyAnnounceSignedData (algorithmVersion : UInt8) (certHash : String)
    (timestamp : UInt64) (identityPublic signingPublic : List UInt8) : List UInt8 :=
  [algorithmVersion] ++ asBytes certHash ++ toBeBytes 8 timestamp.toNat ++ identityPublic ++
    signingPublic

/-- The identity of a client: its public keys, what it signs and seals with, and the
primitives that it opens with. -/
structure Identity where
  crypto : Crypto
  dhPublic : List UInt8
  signingPublic : List UInt8
  sign : List UInt8 → List UInt8
  /-- Encryption with a nonce, of a payload under a key with associated data. -/
  encrypt : List UInt8 → List UInt8 → List UInt8 → List UInt8 → Except Error (List UInt8)

/-- What clients rely on among each other: two of them agree on a secret, they derive
alike, and each opens what another has sealed under the same key. -/
structure LawfulIdentities (identity : String → Identity) : Prop where
  dhAgree_comm : ∀ x y, (identity x).crypto.dhAgree (identity y).dhPublic =
    (identity y).crypto.dhAgree (identity x).dhPublic
  derive_eq : ∀ x y, (identity x).crypto.derive = (identity y).crypto.derive
  decrypt_encrypt : ∀ x y nonce key payload associated ciphertext,
    (identity y).encrypt nonce key payload associated = .ok ciphertext →
      (identity x).crypto.decrypt key ciphertext associated = .ok payload

def Identity.plain : Identity where
  crypto := .plain
  dhPublic := List.replicate 32 0
  signingPublic := List.replicate 32 0
  sign := fun _ => []
  encrypt := fun _ _ payload _ => .ok payload

theorem lawfulIdentities_plain : LawfulIdentities fun _ => .plain where
  dhAgree_comm := fun _ _ => rfl
  derive_eq := fun _ _ => rfl
  decrypt_encrypt := fun _ _ _ _ _ _ _ h => h.symm

namespace KeyManager

def buildKeyAnnounce (identity : Identity) (certHash : String) (timestamp : UInt64) :
    PchatKeyAnnounce where
  algorithmVersion := Persistent.algorithmVersion
  identityPublic := identity.dhPublic
  signingPublic := identity.signingPublic
  certHash := certHash
  timestamp := timestamp
  signature := identity.sign (buildKeyAnnounceSignedData Persistent.algorithmVersion certHash
    timestamp identity.dhPublic identity.signingPublic)

def verifyKeyAnnounce (crypto : Crypto) (announce : PchatKeyAnnounce) :
    Except Error (List UInt8) :=
  if announce.algorithmVersion ≠ algorithmVersion then
    .error (.invalidState
      s!"unsupported algorithm_version: {announce.algorithmVersion.toNat}")
  else if announce.identityPublic.length ≠ 32 ∨ announce.signingPublic.length ≠ 32 then
    .error (.invalidState "invalid key lengths")
  else
    let signedData := buildKeyAnnounceSignedData announce.algorithmVersion announce.certHash
      announce.timestamp announce.identityPublic announce.signingPublic
    match crypto.verifyingKeyFromBytes announce.signingPublic with
    | .error e => .error (.invalidState s!"invalid Ed25519 key: {e}")
    | .ok verifyingKey =>
        match crypto.signatureFromSlice announce.signature with
        | .error e => .error (.invalidState s!"invalid signature: {e}")
        | .ok signature =>
            match crypto.verify verifyingKey signedData signature with
            | .error e => .error (.invalidState s!"signature verification failed: {e}")
            | .ok () => .ok verifyingKey

/-- An announcement is valid exactly if it has the version, both keys have 32 bytes, and its
signature over the signed data is one by its signing key. -/
theorem verifyKeyAnnounce_eq_ok_iff {crypto : Crypto} {announce : PchatKeyAnnounce}
    {verifyingKey : List UInt8} :
    verifyKeyAnnounce crypto announce = .ok verifyingKey ↔
      announce.algorithmVersion = algorithmVersion ∧ announce.identityPublic.length = 32 ∧
        announce.signingPublic.length = 32 ∧
        crypto.verifyingKeyFromBytes announce.signingPublic = .ok verifyingKey ∧
        ∃ signature, crypto.signatureFromSlice announce.signature = .ok signature ∧
          crypto.verify verifyingKey (buildKeyAnnounceSignedData announce.algorithmVersion
            announce.certHash announce.timestamp announce.identityPublic
            announce.signingPublic) signature = .ok () := by
  unfold verifyKeyAnnounce
  constructor
  · intro h
    split at h
    · cases h
    next hversion =>
    split at h
    · cases h
    next hlengths =>
    rw [not_or, not_not, not_not] at hlengths
    dsimp only at h
    split at h
    · cases h
    next key hkey =>
    split at h
    · cases h
    next signature hsignature =>
    split at h
    · cases h
    next hverify =>
    cases h
    exact ⟨not_not.mp hversion, hlengths.1, hlengths.2, hkey, signature, hsignature, hverify⟩
  · rintro ⟨hversion, hidentity, hsigning, hkey, signature, hsignature, hverify⟩
    rw [if_neg (not_not.mpr hversion), if_neg (by simp [hidentity, hsigning])]
    simp only [hkey, hsignature, hverify]

/-- `record_peer_key`: the keys of a peer, unless the announcement is not newer than
the known ones. -/
def recordPeerKey (crypto : Crypto) (km : KeyManager) (announce : PchatKeyAnnounce) :
    KeyManager × Except Error Bool :=
  match verifyKeyAnnounce crypto announce with
  | .error e => (km, .error e)
  | .ok verifyingKey =>
      if (km.peerKeys announce.certHash).any (announce.timestamp ≤ ·.highestAnnounceTs) then
        (km, .ok false)
      else
        ({ km with
          peerKeys := Function.update km.peerKeys announce.certHash
            (some
              { algorithmVersion := announce.algorithmVersion
                dhPublic := announce.identityPublic
                signingPublic := verifyingKey
                highestAnnounceTs := announce.timestamp }) }, .ok true)

theorem recordPeerKey_cases (crypto : Crypto) (km : KeyManager) (announce : PchatKeyAnnounce) :
    (km.recordPeerKey crypto announce).1 = km ∨
      ∃ peer : PeerKeyRecord, peer.dhPublic = announce.identityPublic ∧
        (km.recordPeerKey crypto announce).1 =
          { km with peerKeys := Function.update km.peerKeys announce.certHash (some peer) } := by
  unfold recordPeerKey
  split
  · exact .inl rfl
  split
  · exact .inl rfl
  · exact .inr ⟨_, rfl, rfl⟩

/-- `distribute_key`: the archive key of a channel, sealed for a recipient. The caller
fills in the hash of the sender. -/
def distributeKey (identity : Identity) (km : KeyManager) (nonce : List UInt8)
    (channelId : UInt32) (protocol : PchatProtocol) (epoch : UInt32) (recipientHash : String)
    (recipientPublic : List UInt8) (requestId : Option String) (timestamp : UInt64) :
    Except Error PchatKeyExchange :=
  match protocol with
  | .fancyV1FullArchive =>
      match km.archiveKeys channelId with
      | none => .error (.invalidState "no archive key")
      | some (channelKey, _) => do
          let sharedSecret := identity.crypto.dhAgree recipientPublic
          let wrapKey ← identity.crypto.derive sharedSecret hkdfSaltIdentity (asBytes "key-wrap")
          let encryptedKey ← identity.encrypt nonce wrapKey channelKey.bytes []
          let signedData := buildKeyExchangeSignedData algorithmVersion channelId protocol epoch
            encryptedKey recipientHash requestId timestamp
          .ok
            { channelId
              protocol := protocol.asWireStr
              epoch
              encryptedKey
              senderHash := ""
              recipientHash
              requestId
              timestamp
              algorithmVersion
              signature := identity.sign signedData
              epochFingerprint := identity.crypto.epochFingerprint channelKey.bytes }
  | protocol =>
      .error (.invalidState s!"cannot distribute key for protocol {protocol.debugName}")

/-- The recipient opens a distributed key to the archive key of the sender. -/
theorem unwrapKey_distributeKey {identity : String → Identity}
    (hlawful : LawfulIdentities identity) {sender recipient : String} {km : KeyManager}
    {nonce : List UInt8} {c : UInt32} {protocol : PchatProtocol} {epoch : UInt32}
    {recipientHash : String} {requestId : Option String} {timestamp : UInt64}
    {exchange : PchatKeyExchange}
    (h : km.distributeKey (identity sender) nonce c protocol epoch recipientHash
      (identity recipient).dhPublic requestId timestamp = .ok exchange) :
    exchange.channelId = c ∧ exchange.recipientHash = recipientHash ∧
      ∃ key trust, km.archiveKeys c = some (key, trust) ∧
        unwrapKey (identity recipient).crypto (identity sender).dhPublic exchange.encryptedKey =
          .ok key := by
  unfold distributeKey at h
  split at h
  · split at h
    · cases h
    next key trust hkey =>
    simp only [bind, Except.bind] at h
    split at h
    · cases h
    next wrapKey hderive =>
    split at h
    · cases h
    next encryptedKey hencrypt =>
    cases h
    refine ⟨rfl, rfl, key, trust, hkey, ?_⟩
    have hagree := hlawful.dhAgree_comm recipient sender
    have hopen := hlawful.decrypt_encrypt recipient sender _ _ _ _ _ hencrypt
    unfold unwrapKey
    simp only [hagree, hlawful.derive_eq recipient sender, hderive, hopen, bind, Except.bind,
      ChannelKey.ofBytes?, key.length_bytes, dif_pos]
  · cases h

end KeyManager

end FancyMumble.Persistent
