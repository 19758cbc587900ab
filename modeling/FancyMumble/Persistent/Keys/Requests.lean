import FancyMumble.Persistent.Keys.Peers

/-!
# Key requests

The key of a channel leaves the client in two ways: as the answer to a key request, which
is sealed for the public key in the request, and as a share that the user approves, which
is sealed for the recorded public key of the peer. A ledger of a connection tells what was
announced and how many exchanges were produced.
-/

namespace FancyMumble.Persistent

open Lib.Runs Lib.Newest

structure PchatKeyRequest where
  channelId : UInt32
  protocol : String
  requesterHash : String
  requesterPublic : List UInt8
  requestId : String
  timestamp : UInt64
  relayCap : UInt32 := 3

namespace KeyManager

def holdsKeyFor (km : KeyManager) (request : PchatKeyRequest) : Bool :=
  match PchatProtocol.fromWireStr request.protocol with
  | .fancyV1FullArchive => (km.archiveKeys request.channelId).isSome
  | _ => false

theorem holdsKeyFor_iff {km : KeyManager} {request : PchatKeyRequest} :
    km.holdsKeyFor request = true ↔
      PchatProtocol.fromWireStr request.protocol = .fancyV1FullArchive ∧
        (km.archiveKeys request.channelId).isSome := by
  unfold holdsKeyFor
  cases hprotocol : PchatProtocol.fromWireStr request.protocol <;> simp

def handleKeyRequest (identity : Identity) (nonce : List UInt8) (now : UInt64)
    (km : KeyManager) (request : PchatKeyRequest) (ourCertHash : String) :
    KeyManager × Except Error (Option PchatKeyExchange) :=
  if km.requestsProcessed ≥ km.maxRequestsPerConnection then
    (km, .ok none)
  else if request.requesterPublic.length ≠ 32 then
    (km, .error (.invalidState "invalid requester public key length"))
  else if !km.holdsKeyFor request then
    (km, .ok none)
  else
    match km.distributeKey identity nonce request.channelId (.fromWireStr request.protocol) 0
        request.requesterHash request.requesterPublic (some request.requestId) now with
    | .error e => (km, .error e)
    | .ok exchange =>
        ({ km with requestsProcessed := km.requestsProcessed + 1 },
          .ok (some { exchange with senderHash := ourCertHash }))

/-- The exchange of `approve_key_share`: the key of a channel, sealed for the recorded
public key of a peer. -/
def shareKey (identity : Identity) (nonce : List UInt8) (now : UInt64) (km : KeyManager)
    (ourCertHash : String) (channelId : UInt32) (peerCertHash : String)
    (requestId : Option String) : Option PchatKeyExchange :=
  match km.peerKeys peerCertHash with
  | none => none
  | some peer =>
      match km.distributeKey identity nonce channelId .fancyV1FullArchive 0 peerCertHash
          peer.dhPublic requestId now with
      | .error _ => none
      | .ok exchange => some { exchange with senderHash := ourCertHash }

def wrapKey (identity : Identity) (dhPublic : List UInt8) : Except Error (List UInt8) :=
  identity.crypto.derive (identity.crypto.dhAgree dhPublic) hkdfSaltIdentity (asBytes "key-wrap")

def WrappedFor (identity : Identity) (km : KeyManager) (exchange : PchatKeyExchange)
    (dhPublic : List UInt8) : Prop :=
  ∃ key trust sealing nonce, km.archiveKeys exchange.channelId = some (key, trust) ∧
    wrapKey identity dhPublic = .ok sealing ∧
    identity.encrypt nonce sealing key.bytes [] = .ok exchange.encryptedKey

theorem wrappedFor_of_distributeKey {identity : Identity} {km : KeyManager}
    {nonce : List UInt8} {c : UInt32} {protocol : PchatProtocol} {epoch : UInt32}
    {recipientHash : String} {dhPublic : List UInt8} {requestId : Option String}
    {timestamp : UInt64} {exchange : PchatKeyExchange}
    (h : km.distributeKey identity nonce c protocol epoch recipientHash dhPublic requestId
      timestamp = .ok exchange) (ourCertHash : String) :
    exchange.recipientHash = recipientHash ∧
      km.WrappedFor identity { exchange with senderHash := ourCertHash } dhPublic := by
  unfold distributeKey at h
  split at h
  · split at h
    · cases h
    next key trust hkey =>
    simp only [bind, Except.bind] at h
    split at h
    · cases h
    next sealing hderive =>
    split at h
    · cases h
    next encryptedKey hencrypt =>
    cases h
    exact ⟨rfl, key, trust, sealing, nonce, hkey, hderive, hencrypt⟩
  · cases h

theorem channelId_distributeKey {identity : Identity} {km : KeyManager} {nonce : List UInt8}
    {c : UInt32} {protocol : PchatProtocol} {epoch : UInt32} {recipientHash : String}
    {dhPublic : List UInt8} {requestId : Option String} {timestamp : UInt64}
    {exchange : PchatKeyExchange}
    (h : km.distributeKey identity nonce c protocol epoch recipientHash dhPublic requestId
      timestamp = .ok exchange) : exchange.channelId = c := by
  unfold distributeKey at h
  split at h
  · split at h
    · cases h
    simp only [bind, Except.bind] at h
    split at h
    · cases h
    split at h
    · cases h
    cases h
    rfl
  · cases h

/-- The request is within the limit, its public key has the right size, and there is a key
for it. -/
def Answerable (km : KeyManager) (request : PchatKeyRequest) : Prop :=
  km.requestsProcessed < km.maxRequestsPerConnection ∧ request.requesterPublic.length = 32 ∧
    PchatProtocol.fromWireStr request.protocol = .fancyV1FullArchive ∧
    (km.archiveKeys request.channelId).isSome

/-- Sealing for a public key never fails, and a sealed key tells whose shared secret it was
sealed with: key derivation has no collisions, and a ciphertext belongs to one key. -/
structure SoundWrap (identity : Identity) : Prop where
  derive_total : ∀ secret, ∃ sealing,
    identity.crypto.derive secret hkdfSaltIdentity (asBytes "key-wrap") = .ok sealing
  derive_injective : ∀ secret secret' sealing,
    identity.crypto.derive secret hkdfSaltIdentity (asBytes "key-wrap") = .ok sealing →
      identity.crypto.derive secret' hkdfSaltIdentity (asBytes "key-wrap") = .ok sealing →
        secret = secret'
  encrypt_total : ∀ nonce sealing (key : ChannelKey), ∃ ciphertext,
    identity.encrypt nonce sealing key.bytes [] = .ok ciphertext
  encrypt_key : ∀ nonce nonce' sealing sealing' (key key' : ChannelKey) ciphertext,
    identity.encrypt nonce sealing key.bytes [] = .ok ciphertext →
      identity.encrypt nonce' sealing' key'.bytes [] = .ok ciphertext → sealing = sealing'

theorem WrappedFor.dhAgree_eq {identity : Identity} (hsound : SoundWrap identity)
    {km : KeyManager} {exchange : PchatKeyExchange} {dhPublic dhPublic' : List UInt8}
    (h : km.WrappedFor identity exchange dhPublic)
    (h' : km.WrappedFor identity exchange dhPublic') :
    identity.crypto.dhAgree dhPublic = identity.crypto.dhAgree dhPublic' := by
  obtain ⟨key, trust, sealing, nonce, -, hderive, hencrypt⟩ := h
  obtain ⟨key', trust', sealing', nonce', -, hderive', hencrypt'⟩ := h'
  cases hsound.encrypt_key _ _ _ _ _ _ _ hencrypt hencrypt'
  exact hsound.derive_injective _ _ _ hderive hderive'

theorem WrappedFor.of_dhAgree_eq {identity : Identity} {km : KeyManager}
    {exchange : PchatKeyExchange} {dhPublic dhPublic' : List UInt8}
    (h : km.WrappedFor identity exchange dhPublic)
    (heq : identity.crypto.dhAgree dhPublic = identity.crypto.dhAgree dhPublic') :
    km.WrappedFor identity exchange dhPublic' := by
  unfold WrappedFor wrapKey at h ⊢
  rwa [← heq]

theorem exists_distributeKey {identity : Identity} (hsound : SoundWrap identity)
    {km : KeyManager} {c : UInt32} (hkey : (km.archiveKeys c).isSome) (nonce : List UInt8)
    (epoch : UInt32) (recipientHash : String) (dhPublic : List UInt8)
    (requestId : Option String) (timestamp : UInt64) :
    ∃ exchange, km.distributeKey identity nonce c .fancyV1FullArchive epoch recipientHash
      dhPublic requestId timestamp = .ok exchange := by
  obtain ⟨⟨key, trust⟩, hkey⟩ := Option.isSome_iff_exists.mp hkey
  obtain ⟨sealing, hderive⟩ := hsound.derive_total (identity.crypto.dhAgree dhPublic)
  obtain ⟨ciphertext, hencrypt⟩ := hsound.encrypt_total nonce sealing key
  simp only [distributeKey, hkey, hderive, hencrypt, bind, Except.bind]
  exact ⟨_, rfl⟩

theorem handleKeyRequest_cases (identity : Identity) (nonce : List UInt8) (now : UInt64)
    (km : KeyManager) (request : PchatKeyRequest) (ourCertHash : String) :
    ((km.handleKeyRequest identity nonce now request ourCertHash).1 = km ∧
        ∀ exchange, (km.handleKeyRequest identity nonce now request ourCertHash).2 ≠
          .ok (some exchange)) ∨
      km.Answerable request ∧ ∃ exchange,
        km.handleKeyRequest identity nonce now request ourCertHash =
            ({ km with requestsProcessed := km.requestsProcessed + 1 }, .ok (some exchange)) ∧
          exchange.recipientHash = request.requesterHash ∧
          km.WrappedFor identity exchange request.requesterPublic := by
  unfold handleKeyRequest
  split
  · exact .inl ⟨rfl, nofun⟩
  next hlimit =>
  split
  · exact .inl ⟨rfl, nofun⟩
  next hlength =>
  split
  · exact .inl ⟨rfl, nofun⟩
  next hkey =>
  split
  · exact .inl ⟨rfl, nofun⟩
  next exchange hdistribute =>
    obtain ⟨hrecipient, hwrapped⟩ :=
      wrappedFor_of_distributeKey hdistribute ourCertHash
    have hholds : km.holdsKeyFor request = true := by simpa using hkey
    exact .inr ⟨⟨by simpa using hlimit, by simpa using hlength, holdsKeyFor_iff.mp hholds⟩, _,
      rfl, hrecipient, hwrapped⟩

theorem exists_of_answerable {identity : Identity} (hsound : SoundWrap identity)
    {km : KeyManager} {request : PchatKeyRequest} (h : km.Answerable request)
    (nonce : List UInt8) (now : UInt64) (ourCertHash : String) :
    ∃ exchange, (km.handleKeyRequest identity nonce now request ourCertHash).2 =
      .ok (some exchange) := by
  obtain ⟨hlimit, hlength, hprotocol, hkey⟩ := h
  obtain ⟨exchange, hdistribute⟩ := exists_distributeKey hsound hkey nonce 0
    request.requesterHash request.requesterPublic (some request.requestId) now
  have hbelow : ¬km.requestsProcessed ≥ km.maxRequestsPerConnection := by simpa using hlimit
  have hholds := holdsKeyFor_iff.mpr ⟨hprotocol, hkey⟩
  refine ⟨{ exchange with senderHash := ourCertHash }, ?_⟩
  simp only [handleKeyRequest, if_neg hbelow, if_neg (not_not.mpr hlength), hprotocol, hholds,
    Bool.not_true, Bool.false_eq_true, if_false, hdistribute]

theorem shareKey_eq_some {identity : Identity} {nonce : List UInt8} {now : UInt64}
    {km : KeyManager} {ourCertHash : String} {c : UInt32} {peerCertHash : String}
    {requestId : Option String} {exchange : PchatKeyExchange}
    (h : km.shareKey identity nonce now ourCertHash c peerCertHash requestId = some exchange) :
    exchange.recipientHash = peerCertHash ∧ ∃ peer, km.peerKeys peerCertHash = some peer ∧
      (km.archiveKeys c).isSome ∧ km.WrappedFor identity exchange peer.dhPublic := by
  unfold shareKey at h
  split at h
  · cases h
  next peer hpeer =>
  split at h
  · cases h
  next shared hdistribute =>
    cases h
    obtain ⟨hrecipient, hwrapped⟩ :=
      wrappedFor_of_distributeKey hdistribute ourCertHash
    refine ⟨hrecipient, peer, hpeer, ?_, hwrapped⟩
    unfold distributeKey at hdistribute
    dsimp only at hdistribute
    split at hdistribute
    · cases hdistribute
    next key trust hkey => exact Option.isSome_of_eq_some hkey

end KeyManager

/-! ## The keys that leave on a connection -/

/-- A key manager on a connection, with the announcements that it has seen and the number
of exchanges that it has produced. -/
structure ReleaseState where
  keyManager : KeyManager
  announces : List PchatKeyAnnounce := []
  produced : Nat := 0

/-- What happens to the key manager on a connection. -/
inductive ReleaseEvent where
  | announce (announce : PchatKeyAnnounce)
  | request (nonce : List UInt8) (now : UInt64) (request : PchatKeyRequest)
  | share (nonce : List UInt8) (now : UInt64) (channelId : UInt32) (peerCertHash : String)
      (requestId : Option String)
  /-- Any other operation; it changes neither the recorded peer keys nor the counter. -/
  | other (keyManager : KeyManager)

namespace ReleaseState

open KeyManager

def start (km : KeyManager) : ReleaseState where
  keyManager := { km with peerKeys := fun _ => none, requestsProcessed := 0 }

def exchangeOf (identity : Identity) (ourCertHash : String) (s : ReleaseState) :
    ReleaseEvent → Option PchatKeyExchange
  | .request nonce now request =>
      match (s.keyManager.handleKeyRequest identity nonce now request ourCertHash).2 with
      | .ok exchange => exchange
      | .error _ => none
  | .share nonce now channelId peerCertHash requestId =>
      s.keyManager.shareKey identity nonce now ourCertHash channelId peerCertHash requestId
  | .announce _ | .other _ => none

def step (identity : Identity) (ourCertHash : String) (s : ReleaseState) (event : ReleaseEvent) :
    ReleaseState where
  keyManager :=
    match event with
    | .announce announce => s.keyManager.announced identity.crypto announce
    | .request nonce now request =>
        (s.keyManager.handleKeyRequest identity nonce now request ourCertHash).1
    | .share _ _ _ _ _ => s.keyManager
    | .other km =>
        { km with
          peerKeys := s.keyManager.peerKeys
          requestsProcessed := s.keyManager.requestsProcessed
          maxRequestsPerConnection := s.keyManager.maxRequestsPerConnection }
  announces :=
    match event with
    | .announce announce => announce :: s.announces
    | .request _ _ _ | .share _ _ _ _ _ | .other _ => s.announces
  produced := s.produced + (s.exchangeOf identity ourCertHash event).toList.length

/-- A public key that a certificate hash has announced, validly signed and currently
recorded. -/
def RecordedKey (crypto : Crypto) (s : ReleaseState) (hash : String) (dhPublic : List UInt8) :
    Prop :=
  ∃ announce ∈ s.announces, ∃ record, announcedRecord crypto hash announce = some record ∧
    s.keyManager.peerKeys hash = some record ∧ record.dhPublic = dhPublic

/-- What is produced is within the limit, and sealed for the recorded key of the recipient
and no other key. -/
def ReleasesToRecipient (identity : Identity) (ourCertHash : String) (s : ReleaseState)
    (event : ReleaseEvent) : Prop :=
  ∀ exchange, s.exchangeOf identity ourCertHash event = some exchange →
    s.produced < s.keyManager.maxRequestsPerConnection.toNat ∧
      ∃ dhPublic, s.RecordedKey identity.crypto exchange.recipientHash dhPublic ∧
        s.keyManager.WrappedFor identity exchange dhPublic ∧
        ∀ other, s.keyManager.WrappedFor identity exchange other →
          identity.crypto.dhAgree other = identity.crypto.dhAgree dhPublic

/-- A request that can be answered comes with the recorded key of its sender, and the limit
has not been reached when a request can be answered or a key can be shared. -/
def AsksWithRecordedKey (identity : Identity) (s : ReleaseState) : ReleaseEvent → Prop
  | .request _ _ request =>
      s.keyManager.Answerable request →
        s.produced < s.keyManager.maxRequestsPerConnection.toNat ∧
          ∃ record, s.keyManager.peerKeys request.requesterHash = some record ∧
            identity.crypto.dhAgree request.requesterPublic =
              identity.crypto.dhAgree record.dhPublic
  | .share _ _ channelId peerCertHash _ =>
      (s.keyManager.peerKeys peerCertHash).isSome → (s.keyManager.archiveKeys channelId).isSome →
        s.produced < s.keyManager.maxRequestsPerConnection.toNat
  | .announce _ | .other _ => True

def Recorded (crypto : Crypto) (s : ReleaseState) : Prop :=
  ∀ hash record, s.keyManager.peerKeys hash = some record →
    s.RecordedKey crypto hash record.dhPublic

variable {identity : Identity} {ourCertHash : String} {s : ReleaseState}

theorem exchangeOf_request {nonce : List UInt8} {now : UInt64} {request : PchatKeyRequest}
    {exchange : PchatKeyExchange}
    (h : s.exchangeOf identity ourCertHash (.request nonce now request) = some exchange) :
    s.keyManager.Answerable request ∧ exchange.recipientHash = request.requesterHash ∧
      s.keyManager.WrappedFor identity exchange request.requesterPublic := by
  simp only [exchangeOf] at h
  rcases s.keyManager.handleKeyRequest_cases identity nonce now request ourCertHash with
    ⟨-, hnone⟩ | ⟨hanswerable, answer, hanswer, hrecipient, hwrapped⟩
  · split at h
    next produced hproduced =>
      subst h
      exact absurd hproduced (hnone exchange)
    · cases h
  · rw [hanswer] at h
    cases h
    exact ⟨hanswerable, hrecipient, hwrapped⟩

theorem recorded_start (crypto : Crypto) (km : KeyManager) : (start km).Recorded crypto :=
  nofun

theorem recorded_step (h : s.Recorded identity.crypto) (event : ReleaseEvent) :
    (s.step identity ourCertHash event).Recorded identity.crypto := by
  intro hash record hrecord
  have hkept (hpeers : (s.step identity ourCertHash event).keyManager.peerKeys hash =
      s.keyManager.peerKeys hash) :
      (s.step identity ourCertHash event).RecordedKey identity.crypto hash record.dhPublic := by
    obtain ⟨announce, hmem, record', hannounced, hrecord', hpublic⟩ :=
      h hash record (hpeers ▸ hrecord)
    refine ⟨announce, ?_, record', hannounced, hpeers.trans hrecord', hpublic⟩
    cases event with
    | announce announce' => exact List.mem_cons_of_mem _ hmem
    | request nonce now request => exact hmem
    | share nonce now channelId peerCertHash requestId => exact hmem
    | other km => exact hmem
  cases event with
  | announce announce =>
      have hregister := peerKeys_announced identity.crypto s.keyManager announce hash
      cases hannounced : announcedRecord identity.crypto hash announce with
      | none =>
          rw [hannounced] at hregister
          exact hkept hregister
      | some newRecord =>
          rw [hannounced] at hregister
          simp only [keepNewest] at hregister
          split at hregister
          · exact hkept hregister
          · have hrecord' : (s.keyManager.announced identity.crypto announce).peerKeys hash =
                some record := hrecord
            rw [hregister] at hrecord'
            cases hrecord'
            exact ⟨announce, List.mem_cons_self, record, hannounced, hregister, rfl⟩
  | request nonce now request =>
      apply hkept
      rcases s.keyManager.handleKeyRequest_cases identity nonce now request ourCertHash with
        ⟨hsame, -⟩ | ⟨-, answer, hanswer, -⟩
      · exact congrArg (KeyManager.peerKeys · hash) hsame
      · exact congrArg (fun result => KeyManager.peerKeys result.1 hash) hanswer
  | share nonce now channelId peerCertHash requestId => exact hkept rfl
  | other km => exact hkept rfl

/-- An exchange goes to its recipient exactly if the recorded key was asked for. -/
theorem releasesToRecipient_iff (hsound : SoundWrap identity)
    (hrecorded : s.Recorded identity.crypto) (event : ReleaseEvent) :
    s.ReleasesToRecipient identity ourCertHash event ↔ s.AsksWithRecordedKey identity event := by
  cases event with
  | announce announce => exact iff_of_true nofun trivial
  | other km => exact iff_of_true nofun trivial
  | request nonce now request =>
      constructor
      · intro h hanswerable
        obtain ⟨exchange, hexchange⟩ :=
          exists_of_answerable hsound hanswerable nonce now ourCertHash
        have hproduced : s.exchangeOf identity ourCertHash (.request nonce now request) =
            some exchange := by
          simp only [exchangeOf, hexchange]
        obtain ⟨-, hrecipient, hwrapped⟩ := exchangeOf_request hproduced
        obtain ⟨hlimit, dhPublic, ⟨-, -, record, -, hrecord, rfl⟩, -, hunique⟩ :=
          h exchange hproduced
        exact ⟨hlimit, record, hrecipient ▸ hrecord, hunique _ hwrapped⟩
      · intro h exchange hproduced
        obtain ⟨hanswerable, hrecipient, hwrapped⟩ := exchangeOf_request hproduced
        obtain ⟨hlimit, record, hrecord, hagree⟩ := h hanswerable
        have hrecordWrapped := hwrapped.of_dhAgree_eq hagree
        refine ⟨hlimit, record.dhPublic, hrecipient ▸ hrecorded _ _ hrecord, hrecordWrapped, ?_⟩
        exact fun other hother => hother.dhAgree_eq hsound hrecordWrapped
  | share nonce now channelId peerCertHash requestId =>
      constructor
      · intro h hpeer hkey
        obtain ⟨peer, hpeer⟩ := Option.isSome_iff_exists.mp hpeer
        obtain ⟨shared, hdistribute⟩ := exists_distributeKey hsound hkey nonce 0 peerCertHash
          peer.dhPublic requestId now
        have hproduced : s.exchangeOf identity ourCertHash
            (.share nonce now channelId peerCertHash requestId) =
              some { shared with senderHash := ourCertHash } := by
          simp only [exchangeOf, shareKey, hpeer, hdistribute]
        exact (h _ hproduced).1
      · intro h exchange hproduced
        obtain ⟨hrecipient, peer, hpeer, hkey, hwrapped⟩ := shareKey_eq_some hproduced
        have hlimit := h (Option.isSome_of_eq_some hpeer) hkey
        refine ⟨hlimit, peer.dhPublic, hrecipient ▸ hrecorded _ _ hpeer, hwrapped, ?_⟩
        exact fun other hother => hother.dhAgree_eq hsound hwrapped

/-- On a connection, all exchanges go to their recipients exactly if requests come with the
recorded keys of their senders and the limit is kept. -/
theorem releasesToRecipient_run_iff (identity : Identity) (hsound : SoundWrap identity)
    (ourCertHash : String) (km : KeyManager) (events : List ReleaseEvent) :
    Along (step identity ourCertHash) (ReleasesToRecipient identity ourCertHash) (start km)
        events ↔
      Along (step identity ourCertHash) (AsksWithRecordedKey identity) (start km) events := by
  have hruns : Along (step identity ourCertHash) (fun _ _ => True) (start km) events :=
    along_of_forall (fun _ _ => trivial) _ _
  refine along_iff_along
    (fun s event (hs : s.Recorded identity.crypto) _ => releasesToRecipient_iff hsound hs event)
    ?_ (recorded_start identity.crypto km) hruns
  exact fun s event hs _ _ => recorded_step hs event

def WithinLimit (s : ReleaseState) : Prop :=
  s.keyManager.requestsProcessed ≤ s.keyManager.maxRequestsPerConnection

theorem withinLimit_step (h : s.WithinLimit) (event : ReleaseEvent) :
    (s.step identity ourCertHash event).WithinLimit := by
  cases event with
  | announce announce =>
      simp only [WithinLimit, step]
      rw [announced_eq]
      exact h
  | request nonce now request =>
      simp only [WithinLimit, step]
      rcases s.keyManager.handleKeyRequest_cases identity nonce now request ourCertHash with
        ⟨hsame, -⟩ | ⟨⟨hlimit, -⟩, answer, hanswer, -⟩
      · rwa [hsame]
      · rw [hanswer]
        have hlimit := UInt32.lt_iff_toNat_lt.mp hlimit
        have hmax := s.keyManager.maxRequestsPerConnection.toNat_lt
        rw [UInt32.le_iff_toNat_le, UInt32.toNat_add]
        simp only [UInt32.reduceToNat]
        omega
  | share nonce now channelId peerCertHash requestId => exact h
  | other km => exact h

/-- Requests alone never exceed the limit of a connection. -/
theorem withinLimit_run (identity : Identity) (ourCertHash : String) (km : KeyManager)
    (events : List ReleaseEvent) :
    (run (step identity ourCertHash) (start km) events).WithinLimit := by
  have hruns : Along (step identity ourCertHash) (fun _ _ => True) (start km) events :=
    along_of_forall (fun _ _ => trivial) _ _
  have hstep : ∀ s event, WithinLimit s → True → (s.step identity ourCertHash event).WithinLimit :=
    fun s event hs _ => withinLimit_step hs event
  exact invariant_run hstep UInt32.zero_le hruns

section Example

private def sealing : Identity :=
  { Identity.plain with encrypt := fun _ key payload _ => .ok (key ++ payload) }

private theorem soundWrap_sealing : SoundWrap sealing where
  derive_total := fun secret => ⟨secret, rfl⟩
  derive_injective := by
    rintro secret secret' _ ⟨⟩ ⟨⟩
    rfl
  encrypt_total := fun _ key channelKey => ⟨key ++ channelKey.bytes, rfl⟩
  encrypt_key := by
    intro _ _ key key' channelKey channelKey' ciphertext h h'
    have heq : key ++ channelKey.bytes = key' ++ channelKey'.bytes :=
      Except.ok.inj (h.trans h'.symm)
    exact (List.append_inj' heq
      (channelKey.length_bytes.trans channelKey'.length_bytes.symm)).1

private def announceOfPeer : PchatKeyAnnounce where
  algorithmVersion := 1
  identityPublic := List.replicate 32 1
  signingPublic := List.replicate 32 0
  certHash := "peer"
  timestamp := 1
  signature := []

/-- A request in the name of "peer" for the key of channel 7, with a public key that
consists of the given byte. -/
private def requestWith (byte : UInt8) : PchatKeyRequest where
  channelId := 7
  protocol := "FANCY_V1_FULL_ARCHIVE"
  requesterHash := "peer"
  requesterPublic := List.replicate 32 byte
  requestId := "request"
  timestamp := 0

private def holdsKey : KeyManager where
  archiveKeys := fun c => if c = 7 then some (.replicate 2, .verified) else none

/-- A request with the announced key is answered for that key. -/
theorem releasesToRecipient_run_example :
    Along (step sealing "own") (ReleasesToRecipient sealing "own") (start holdsKey)
      [.announce announceOfPeer, .request [] 0 (requestWith 1)] :=
  (releasesToRecipient_run_iff sealing soundWrap_sealing "own" holdsKey _).mpr
    ⟨trivial, fun _ => ⟨by decide, _, rfl, rfl⟩, trivial⟩

/-- A request in the name of a peer is answered for whatever public key it carries. -/
theorem foreign_key_released :
    ¬∀ (identity : Identity) (ourCertHash : String) (km : KeyManager)
      (events : List ReleaseEvent), SoundWrap identity →
        Along (step identity ourCertHash) (ReleasesToRecipient identity ourCertHash) (start km)
          events := by
  intro h
  obtain ⟨-, hreleases, -⟩ := h sealing "own" holdsKey
    [.announce announceOfPeer, .request [] 0 (requestWith 3)] soundWrap_sealing
  obtain ⟨-, record, hrecord, hagree⟩ :=
    (releasesToRecipient_iff soundWrap_sealing
      (recorded_step (recorded_start _ _) (.announce announceOfPeer)) _).mp hreleases
      (by refine ⟨by decide, by decide, by decide, rfl⟩)
  cases hrecord
  exact absurd hagree (by decide)

end Example

end ReleaseState

end FancyMumble.Persistent
