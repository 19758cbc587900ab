import FancyMumble.Error

/-!
# Control messages

The message types of the control connection with their wire numbers, and the
decoded messages. A message type carries the fields that the client reads or
writes; `Rest` stands for what else the messages of a type hold.
-/

namespace FancyMumble

inductive TcpMessageType where
  | version
  | udpTunnel
  | authenticate
  | ping
  | reject
  | serverSync
  | channelRemove
  | channelState
  | userRemove
  | userState
  | banList
  | textMessage
  | permissionDenied
  | acl
  | queryUsers
  | cryptSetup
  | contextActionModify
  | contextAction
  | userList
  | voiceTarget
  | permissionQuery
  | codecVersion
  | userStats
  | requestBlob
  | serverConfig
  | suggestConfig
  | pluginDataTransmission
  | pchatMessage
  | pchatFetch
  | pchatFetchResponse
  | pchatMessageDeliver
  | pchatKeyAnnounce
  | pchatKeyExchange
  | pchatKeyRequest
  | pchatAck
  | pchatEpochCountersig
  | pchatKeyHolderReport
  | pchatKeyHoldersQuery
  | pchatKeyHoldersList
  | pchatKeyChallenge
  | pchatKeyChallengeResponse
  | pchatKeyChallengeResult
  | pchatDeleteMessages
  | pchatOfflineQueueDrain
  | pchatReaction
  | pchatReactionDeliver
  | pchatReactionFetchResponse
  | webRtcSignal
  | pchatSenderKeyDistribution
  | fancyPushRegister
  | fancyPushUpdate
  | fancyCustomReactionsConfig
  | fancySubscribePush
  | fancyReadReceipt
  | fancyReadReceiptDeliver
  | pchatPin
  | pchatPinDeliver
  | pchatPinFetchResponse
  | fancyTypingIndicator
  | fancyLinkPreviewRequest
  | fancyLinkPreviewResponse
  | fancyWatchSync
  | fancyDrawStroke
deriving DecidableEq, Repr

namespace TcpMessageType

def toU16 : TcpMessageType → UInt16
  | .version => 0
  | .udpTunnel => 1
  | .authenticate => 2
  | .ping => 3
  | .reject => 4
  | .serverSync => 5
  | .channelRemove => 6
  | .channelState => 7
  | .userRemove => 8
  | .userState => 9
  | .banList => 10
  | .textMessage => 11
  | .permissionDenied => 12
  | .acl => 13
  | .queryUsers => 14
  | .cryptSetup => 15
  | .contextActionModify => 16
  | .contextAction => 17
  | .userList => 18
  | .voiceTarget => 19
  | .permissionQuery => 20
  | .codecVersion => 21
  | .userStats => 22
  | .requestBlob => 23
  | .serverConfig => 24
  | .suggestConfig => 25
  | .pluginDataTransmission => 26
  | .pchatMessage => 100
  | .pchatFetch => 101
  | .pchatFetchResponse => 102
  | .pchatMessageDeliver => 103
  | .pchatKeyAnnounce => 104
  | .pchatKeyExchange => 105
  | .pchatKeyRequest => 106
  | .pchatAck => 107
  | .pchatEpochCountersig => 108
  | .pchatKeyHolderReport => 109
  | .pchatKeyHoldersQuery => 110
  | .pchatKeyHoldersList => 111
  | .pchatKeyChallenge => 112
  | .pchatKeyChallengeResponse => 113
  | .pchatKeyChallengeResult => 114
  | .pchatDeleteMessages => 115
  | .pchatOfflineQueueDrain => 116
  | .pchatReaction => 117
  | .pchatReactionDeliver => 118
  | .pchatReactionFetchResponse => 119
  | .webRtcSignal => 120
  | .pchatSenderKeyDistribution => 121
  | .fancyPushRegister => 122
  | .fancyPushUpdate => 123
  | .fancyCustomReactionsConfig => 124
  | .fancySubscribePush => 125
  | .fancyReadReceipt => 126
  | .fancyReadReceiptDeliver => 127
  | .pchatPin => 128
  | .pchatPinDeliver => 129
  | .pchatPinFetchResponse => 130
  | .fancyTypingIndicator => 131
  | .fancyLinkPreviewRequest => 132
  | .fancyLinkPreviewResponse => 133
  | .fancyWatchSync => 134
  | .fancyDrawStroke => 135

def mapping : List TcpMessageType :=
  [.version, .udpTunnel, .authenticate, .ping, .reject, .serverSync, .channelRemove,
    .channelState, .userRemove, .userState, .banList, .textMessage, .permissionDenied, .acl,
    .queryUsers, .cryptSetup, .contextActionModify, .contextAction, .userList, .voiceTarget,
    .permissionQuery, .codecVersion, .userStats, .requestBlob, .serverConfig, .suggestConfig,
    .pluginDataTransmission, .pchatMessage, .pchatFetch, .pchatFetchResponse,
    .pchatMessageDeliver, .pchatKeyAnnounce, .pchatKeyExchange, .pchatKeyRequest, .pchatAck,
    .pchatEpochCountersig, .pchatKeyHolderReport, .pchatKeyHoldersQuery, .pchatKeyHoldersList,
    .pchatKeyChallenge, .pchatKeyChallengeResponse, .pchatKeyChallengeResult,
    .pchatDeleteMessages, .pchatOfflineQueueDrain, .pchatReaction, .pchatReactionDeliver,
    .pchatReactionFetchResponse, .webRtcSignal, .pchatSenderKeyDistribution,
    .fancyPushRegister, .fancyPushUpdate, .fancyCustomReactionsConfig, .fancySubscribePush,
    .fancyReadReceipt, .fancyReadReceiptDeliver, .pchatPin, .pchatPinDeliver,
    .pchatPinFetchResponse, .fancyTypingIndicator, .fancyLinkPreviewRequest,
    .fancyLinkPreviewResponse, .fancyWatchSync, .fancyDrawStroke]

def tryFrom (value : UInt16) : Except Error TcpMessageType :=
  match mapping.find? (fun messageType => messageType.toU16 == value) with
  | some messageType => .ok messageType
  | none => .error (.unknownMessageType value)

@[simp] theorem tryFrom_toU16 (messageType : TcpMessageType) :
    tryFrom messageType.toU16 = .ok messageType := by
  cases messageType <;> rfl

theorem tryFrom_eq_ok_iff {value : UInt16} {messageType : TcpMessageType} :
    tryFrom value = .ok messageType ↔ messageType.toU16 = value := by
  constructor
  · intro h
    unfold tryFrom at h
    split at h
    · next found hfound =>
        cases h
        simpa using List.find?_some hfound
    · cases h
  · rintro rfl
    exact tryFrom_toU16 messageType

theorem toU16_injective : Function.Injective toU16 := by
  intro a b h
  have ha : tryFrom b.toU16 = .ok a := tryFrom_eq_ok_iff.mpr h
  rw [tryFrom_toU16] at ha
  exact (Except.ok.inj ha).symm

end TcpMessageType

/-! ## Message contents -/

structure UserRemove where
  session : UInt32
  actor : Option UInt32 := none
  reason : Option String := none
  ban : Option Bool := none
  banCertificate : Option Bool := none
  banIp : Option Bool := none
deriving DecidableEq

structure UserState (Rest : Type) where
  session : Option UInt32 := none
  actor : Option UInt32 := none
  rest : Rest
deriving DecidableEq

structure TextMessage where
  actor : Option UInt32 := none
  session : List UInt32 := []
  channelId : List UInt32 := []
  treeId : List UInt32 := []
  message : String
  messageId : Option String := none
  timestamp : Option UInt64 := none
  editId : Option String := none
  pinTarget : Option String := none
  unpin : Option Bool := none
deriving DecidableEq

structure CryptSetup where
  key : Option (List UInt8) := none
  clientNonce : Option (List UInt8) := none
  serverNonce : Option (List UInt8) := none
deriving DecidableEq

structure PluginDataTransmission where
  senderSession : Option UInt32 := none
  receiverSessions : List UInt32 := []
  data : Option (List UInt8) := none
  dataId : Option String := none
deriving DecidableEq

structure WebRtcSignal where
  targetSession : Option UInt32 := none
  senderSession : Option UInt32 := none
  signalType : Option Int32 := none
  payload : Option String := none
deriving DecidableEq

/-- A message with the hash of its sender's certificate, as `sender_hash`, `cert_hash`,
`requester_hash`, `signer_hash` or `pinner_hash`. -/
structure Authored (Rest : Type) where
  senderHash : Option String := none
  rest : Rest
deriving DecidableEq

structure PchatSenderKeyDistribution where
  channelId : Option UInt32 := none
  senderHash : Option String := none
  distribution : Option (List UInt8) := none
deriving DecidableEq

structure FancyTypingIndicator where
  actor : Option UInt32 := none
  channelId : Option UInt32 := none
deriving DecidableEq

structure FancyWatchSync (Rest : Type) where
  sessionId : Option String := none
  actor : Option UInt32 := none
  rest : Rest
deriving DecidableEq

structure FancyDrawStroke (Rest : Type) where
  senderSession : Option UInt32 := none
  channelId : Option UInt32 := none
  rest : Rest
deriving DecidableEq

abbrev Payload (Rest : TcpMessageType → Type) : TcpMessageType → Type
  | .udpTunnel => List UInt8
  | .userRemove => UserRemove
  | .userState => UserState (Rest .userState)
  | .textMessage => TextMessage
  | .cryptSetup => CryptSetup
  | .pluginDataTransmission => PluginDataTransmission
  | .pchatMessage => Authored (Rest .pchatMessage)
  | .pchatMessageDeliver => Authored (Rest .pchatMessageDeliver)
  | .pchatKeyAnnounce => Authored (Rest .pchatKeyAnnounce)
  | .pchatKeyExchange => Authored (Rest .pchatKeyExchange)
  | .pchatKeyRequest => Authored (Rest .pchatKeyRequest)
  | .pchatEpochCountersig => Authored (Rest .pchatEpochCountersig)
  | .pchatReaction => Authored (Rest .pchatReaction)
  | .pchatReactionDeliver => Authored (Rest .pchatReactionDeliver)
  | .pchatPin => Authored (Rest .pchatPin)
  | .pchatPinDeliver => Authored (Rest .pchatPinDeliver)
  | .webRtcSignal => WebRtcSignal
  | .pchatSenderKeyDistribution => PchatSenderKeyDistribution
  | .fancyTypingIndicator => FancyTypingIndicator
  | .fancyWatchSync => FancyWatchSync (Rest .fancyWatchSync)
  | .fancyDrawStroke => FancyDrawStroke (Rest .fancyDrawStroke)
  | messageType => Rest messageType

structure ControlMessage (Rest : TcpMessageType → Type) where
  messageType : TcpMessageType
  payload : Payload Rest messageType

namespace ControlMessage

variable {Rest : TcpMessageType → Type}

def typeId (msg : ControlMessage Rest) : UInt16 :=
  msg.messageType.toU16

def fancyExtensionTypeThreshold : UInt16 :=
  TcpMessageType.pchatMessage.toU16

def isFancyExtension (msg : ControlMessage Rest) : Bool :=
  fancyExtensionTypeThreshold ≤ msg.typeId

/-- What a message says of its sender. -/
inductive SenderField where
  | session (value : Option UInt32)
  | hash (value : Option String)
deriving DecidableEq

/-- The message's own sender or actor field, for the types that have such a field. -/
def senderField? : ControlMessage Rest → Option SenderField
  | ⟨.userRemove, remove⟩ => some (.session remove.actor)
  | ⟨.userState, state⟩ => some (.session state.actor)
  | ⟨.textMessage, text⟩ => some (.session text.actor)
  | ⟨.pluginDataTransmission, pd⟩ => some (.session pd.senderSession)
  | ⟨.webRtcSignal, signal⟩ => some (.session signal.senderSession)
  | ⟨.fancyTypingIndicator, indicator⟩ => some (.session indicator.actor)
  | ⟨.fancyWatchSync, sync⟩ => some (.session sync.actor)
  | ⟨.fancyDrawStroke, stroke⟩ => some (.session stroke.senderSession)
  | ⟨.pchatSenderKeyDistribution, skd⟩ => some (.hash skd.senderHash)
  | ⟨.pchatMessage, message⟩ | ⟨.pchatMessageDeliver, message⟩ | ⟨.pchatKeyAnnounce, message⟩
  | ⟨.pchatKeyExchange, message⟩ | ⟨.pchatKeyRequest, message⟩
  | ⟨.pchatEpochCountersig, message⟩ | ⟨.pchatReaction, message⟩
  | ⟨.pchatReactionDeliver, message⟩ | ⟨.pchatPin, message⟩ | ⟨.pchatPinDeliver, message⟩ =>
      some (.hash message.senderHash)
  | _ => none

end ControlMessage

end FancyMumble
