import FancyMumble.Lib.Decimal
import FancyMumble.Transport.Codec
import Mathlib.Algebra.Group.Nat.Defs

/-!
# The codec of the extension messages

Servers that know the extension messages get them as they are. For the others the
messages between clients are wrapped in `PluginDataTransmission` for relay, and every
client unwraps what it receives.
-/

namespace FancyMumble

open Transport

variable {Rest : TcpMessageType → Type}

/-! ## Server versions -/

def fancyVersionEncode (major minor patch : UInt16) : UInt64 :=
  (major.toUInt64 <<< 48) ||| (minor.toUInt64 <<< 32) ||| (patch.toUInt64 <<< 16)

def fancyNativeMinVersion : UInt64 :=
  fancyVersionEncode 0 2 12

inductive FallbackPolicy where
  | pluginData
  | serverOnly
deriving DecidableEq

structure MessageSupport where
  minVersion : UInt64
  fallback : FallbackPolicy
deriving DecidableEq

def messageSupport : TcpMessageType → Option MessageSupport
  | .pchatMessage | .pchatFetch | .pchatFetchResponse | .pchatMessageDeliver
  | .pchatKeyAnnounce | .pchatKeyExchange | .pchatKeyRequest | .pchatAck
  | .pchatEpochCountersig | .pchatKeyHolderReport | .pchatKeyHoldersQuery
  | .pchatKeyHoldersList | .pchatKeyChallenge | .pchatKeyChallengeResponse
  | .pchatKeyChallengeResult | .pchatDeleteMessages | .pchatOfflineQueueDrain
  | .pchatReaction | .pchatReactionDeliver | .pchatReactionFetchResponse =>
      some ⟨fancyVersionEncode 0 2 12, .serverOnly⟩
  | .webRtcSignal | .pchatSenderKeyDistribution =>
      some ⟨fancyVersionEncode 0 2 12, .pluginData⟩
  | .fancyPushRegister | .fancyPushUpdate | .fancyCustomReactionsConfig
  | .fancySubscribePush | .fancyReadReceipt | .fancyReadReceiptDeliver =>
      some ⟨fancyVersionEncode 0 2 12, .serverOnly⟩
  | .pchatPin | .pchatPinDeliver | .pchatPinFetchResponse =>
      some ⟨fancyVersionEncode 0 2 16, .serverOnly⟩
  | .fancyTypingIndicator => some ⟨fancyVersionEncode 0 2 18, .pluginData⟩
  | .fancyWatchSync => some ⟨fancyVersionEncode 0 2 20, .pluginData⟩
  | .fancyDrawStroke => some ⟨fancyVersionEncode 0 3 0, .serverOnly⟩
  | _ => none

/-! ## Receivers -/

structure User where
  session : UInt32
  channelId : UInt32
deriving DecidableEq

/-- The server state, as far as the codec reads it. The users are listed in the
iteration order of their map. -/
structure ServerState where
  ownSession : Option UInt32 := none
  users : List (UInt32 × User) := []
deriving DecidableEq

def channelMembersExceptSelf (state : ServerState) (ownSession : UInt32) : List UInt32 :=
  let ownChannel := ((state.users.lookup ownSession).map User.channelId).getD 0
  ((state.users.map Prod.snd).filter fun user =>
    user.channelId == ownChannel && user.session != ownSession).map User.session

/-- `extract_receiver_sessions`: to whom a message is relayed, none for the messages
that the server processes. -/
def extractReceiverSessions (msg : ControlMessage Rest) (state : ServerState) :
    List UInt32 :=
  let ownSession := state.ownSession.getD 0
  match msg with
  | ⟨.webRtcSignal, signal⟩ =>
      let target := signal.targetSession.getD 0
      if target ≠ 0 then [target] else channelMembersExceptSelf state ownSession
  | ⟨.pchatSenderKeyDistribution, skd⟩ =>
      let channelId := skd.channelId.getD 0
      ((state.users.map Prod.snd).filter fun user =>
        user.channelId == channelId && user.session != ownSession).map User.session
  | ⟨.fancyTypingIndicator, _⟩ => channelMembersExceptSelf state ownSession
  | ⟨.fancyWatchSync, _⟩ => channelMembersExceptSelf state ownSession
  | _ => []

/-! ## Wrapping and unwrapping -/

def wrappedDataIdPrefix : List Char :=
  "fancy-native:".toList

def wrappedDataId (typeId : UInt16) : String :=
  String.ofList (wrappedDataIdPrefix ++ Nat.toDigits 10 typeId.toNat)

def wrappedTypeId (pd : PluginDataTransmission) : Option UInt16 := do
  let dataId ← pd.dataId
  let typeIdStr ← wrappedDataIdPrefix.isPrefixOf? dataId.toList
  let typeId ← Decimal.parse (2 ^ 16) typeIdStr
  return UInt16.ofNat typeId

def wrappedMessage (protobuf : Protobuf Rest) (pd : PluginDataTransmission) :
    Option (ControlMessage Rest) := do
  let typeId ← wrappedTypeId pd
  let payload ← pd.data
  (deserializeControlMessage protobuf typeId payload).toOption

/-- `patch_sender_session`: the sender of the envelope goes into an empty actor
field. -/
def patchSenderSession (msg : ControlMessage Rest) (sender : Option UInt32) :
    ControlMessage Rest :=
  match msg with
  | ⟨.fancyTypingIndicator, indicator⟩ =>
      if indicator.actor.isNone then
        ⟨.fancyTypingIndicator, { indicator with actor := sender }⟩
      else
        ⟨.fancyTypingIndicator, indicator⟩
  | ⟨.fancyWatchSync, sync⟩ =>
      if sync.actor.isNone then
        ⟨.fancyWatchSync, { sync with actor := sender }⟩
      else
        ⟨.fancyWatchSync, sync⟩
  | msg => msg

/-- `FancyCodec`: the codec for a server with native support, with the version of the
server, and the one for legacy servers. -/
inductive FancyCodec where
  | native (serverVersion : UInt64)
  | legacy
deriving DecidableEq

def selectCodec (serverFancyVersion : Option UInt64) : FancyCodec :=
  match serverFancyVersion with
  | some v => if fancyNativeMinVersion ≤ v then .native v else .legacy
  | none => .legacy

namespace FancyCodec

def legacyEncode (protobuf : Protobuf Rest) (msg : ControlMessage Rest)
    (state : ServerState) : Option (ControlMessage Rest) :=
  if !msg.isFancyExtension then
    some msg
  else
    let receiverSessions := extractReceiverSessions msg state
    if receiverSessions.isEmpty then
      none
    else
      let (typeId, payload) := serializeControlMessage protobuf msg
      some ⟨.pluginDataTransmission,
        { senderSession := none
          receiverSessions := receiverSessions
          data := some payload
          dataId := some (wrappedDataId typeId) }⟩

/-- `LegacyCodec::decode`: a wrapper becomes the message inside; everything else, a
wrapper that does not decode included, stays as it is. -/
def legacyDecode (protobuf : Protobuf Rest) (msg : ControlMessage Rest) :
    ControlMessage Rest :=
  match msg with
  | ⟨.pluginDataTransmission, pd⟩ =>
      match wrappedMessage protobuf pd with
      | some decoded => patchSenderSession decoded pd.senderSession
      | none => msg
  | msg => msg

def encode (protobuf : Protobuf Rest) (codec : FancyCodec) (msg : ControlMessage Rest)
    (state : ServerState) : Option (ControlMessage Rest) :=
  match codec with
  | .native serverVersion =>
      if !msg.isFancyExtension then
        some msg
      else
        match messageSupport msg.messageType with
        | some support =>
            if support.minVersion ≤ serverVersion then
              some msg
            else
              match support.fallback with
              | .pluginData => legacyEncode protobuf msg state
              | .serverOnly => none
        | none => some msg
  | .legacy => legacyEncode protobuf msg state

def decode (protobuf : Protobuf Rest) (codec : FancyCodec) (msg : ControlMessage Rest) :
    ControlMessage Rest :=
  match codec with
  | .native _ => legacyDecode protobuf msg
  | .legacy => legacyDecode protobuf msg

end FancyCodec

/-! ## Relayed messages -/

/-- Clients relay the message to each other: in some state the encoder finds receivers
for it. -/
def ControlMessage.Relayable (msg : ControlMessage Rest) : Prop :=
  ∃ state : ServerState, extractReceiverSessions msg state ≠ []

def relayableTypeIds : List UInt16 :=
  [120, 121, 131, 134]

theorem toU16_mem_relayableTypeIds (messageType : TcpMessageType) :
    messageType.toU16 ∈ relayableTypeIds ↔
      messageType = .webRtcSignal ∨ messageType = .pchatSenderKeyDistribution ∨
        messageType = .fancyTypingIndicator ∨ messageType = .fancyWatchSync := by
  cases messageType <;> decide

private def peerIn (channelId : UInt32) : ServerState where
  users := [(1, { session := 1, channelId := channelId })]

private theorem channelMembers_peerIn :
    channelMembersExceptSelf (peerIn 0) ((peerIn 0).ownSession.getD 0) ≠ [] := by
  decide

theorem relayable_iff (msg : ControlMessage Rest) :
    msg.Relayable ↔ msg.typeId ∈ relayableTypeIds := by
  obtain ⟨messageType, payload⟩ := msg
  rw [ControlMessage.typeId, toU16_mem_relayableTypeIds]
  constructor
  · rintro ⟨state, hstate⟩
    unfold extractReceiverSessions at hstate
    split at hstate
    · next h => exact .inl (congrArg ControlMessage.messageType h)
    · next h => exact .inr (.inl (congrArg ControlMessage.messageType h))
    · next h => exact .inr (.inr (.inl (congrArg ControlMessage.messageType h)))
    · next h => exact .inr (.inr (.inr (congrArg ControlMessage.messageType h)))
    · exact absurd rfl hstate
  · rintro (h | h | h | h) <;> cases h
    · refine ⟨peerIn 0, ?_⟩
      simp only [extractReceiverSessions]
      split
      · exact List.cons_ne_nil _ _
      · exact channelMembers_peerIn
    · refine ⟨peerIn ((PchatSenderKeyDistribution.channelId payload).getD 0), ?_⟩
      simp [extractReceiverSessions, peerIn]
    · exact ⟨peerIn 0, channelMembers_peerIn⟩
    · exact ⟨peerIn 0, channelMembers_peerIn⟩

theorem patchSenderSession_messageType (msg : ControlMessage Rest) (sender : Option UInt32) :
    (patchSenderSession msg sender).messageType = msg.messageType := by
  unfold patchSenderSession
  split
  · split <;> rfl
  · split <;> rfl
  · rfl

theorem patchSenderSession_typeId (msg : ControlMessage Rest) (sender : Option UInt32) :
    (patchSenderSession msg sender).typeId = msg.typeId :=
  congrArg TcpMessageType.toU16 (patchSenderSession_messageType msg sender)

theorem decode_wrapper {protobuf : Protobuf Rest} {pd : PluginDataTransmission}
    {inner : ControlMessage Rest} (codec : FancyCodec)
    (h : wrappedMessage protobuf pd = some inner) :
    codec.decode protobuf ⟨.pluginDataTransmission, pd⟩ =
      patchSenderSession inner pd.senderSession := by
  have hlegacy : FancyCodec.legacyDecode protobuf ⟨.pluginDataTransmission, pd⟩ =
      patchSenderSession inner pd.senderSession := by
    unfold FancyCodec.legacyDecode
    simp only [h]
  cases codec <;> exact hlegacy

theorem decode_of_ne {protobuf : Protobuf Rest} {msg : ControlMessage Rest}
    (codec : FancyCodec) (h : msg.messageType ≠ .pluginDataTransmission) :
    codec.decode protobuf msg = msg := by
  have hlegacy : FancyCodec.legacyDecode protobuf msg = msg := by
    unfold FancyCodec.legacyDecode
    split
    · exact absurd rfl h
    · rfl
  cases codec <;> exact hlegacy

theorem wrappedTypeId_of_dataId {pd : PluginDataTransmission} {typeId : UInt16}
    (h : pd.dataId = some (wrappedDataId typeId)) : wrappedTypeId pd = some typeId := by
  have hprefix : ∀ (p text : List Char), p.isPrefixOf? (p ++ text) = some text := by
    intro p text
    induction p with
    | nil => rfl
    | cons c p ih =>
        have hstep : (c :: p).isPrefixOf? (c :: (p ++ text)) =
            if c == c then p.isPrefixOf? (p ++ text) else none := rfl
        rw [List.cons_append, hstep, if_pos (beq_self_eq_true c), ih]
  unfold wrappedTypeId
  simp only [h, wrappedDataId, String.toList_ofList, hprefix, Option.bind_eq_bind,
    Option.bind_some, Decimal.parse_toDigits typeId.toNat_lt, Option.pure_def,
    UInt16.ofNat_toNat]

theorem toOption_eq_some_iff {ε α : Type} {result : Except ε α} {a : α} :
    result.toOption = some a ↔ result = .ok a := by
  cases result <;> simp [Except.toOption]

theorem wrappedMessage_eq_some_iff {protobuf : Protobuf Rest}
    {pd : PluginDataTransmission} {inner : ControlMessage Rest} :
    wrappedMessage protobuf pd = some inner ↔
      ∃ typeId ∈ wrappedTypeId pd, ∃ payload ∈ pd.data,
        deserializeControlMessage protobuf typeId payload = .ok inner := by
  unfold wrappedMessage
  simp only [Option.bind_eq_bind, Option.bind_eq_some_iff, Option.mem_def,
    toOption_eq_some_iff]

end FancyMumble
