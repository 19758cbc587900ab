import FancyMumble.Client.Pchat
import FancyMumble.Messages.Inbound

/-!
# Outbound messages

A message of the user is sent as a text and, in an encrypted channel, a second time
encrypted; then it is stored as an own message.
-/

namespace FancyMumble.Messages

open Client Persistent Signal

variable {lib : Libraries} (codecs : Codecs lib)

structure OutboundMessage where
  channelId : UInt32
  protocol : PchatProtocol
  messageId : String
  body : String
  senderName : String
  senderSession : UInt32
  timestamp : UInt64

structure PchatMessage (lib : Libraries) where
  messageId : Option String
  channelId : Option UInt32
  timestamp : Option UInt64
  senderHash : Option String
  protocol : Option Int32
  envelope : Option lib.Bytes

def protocolToProto : PchatProtocol → Int32
  | .none => 0
  | .fancyV1FullArchive => 2
  | .signalV1 => 4

theorem fromProto_protocolToProto (protocol : PchatProtocol) :
    protoToProtocol (some (protocolToProto protocol)) = protocol := by
  cases protocol <;> decide

namespace PchatState

def encrypt (rng : lib.Rng) (msg : OutboundMessage) (plaintext : lib.Bytes)
    (pchat : PchatState lib) : PchatState lib × Except String lib.Bytes :=
  match codecs.uuidParseStr msg.messageId with
  | .error e => (pchat, .error ("Invalid state: invalid UUID: " ++ e))
  | .ok uuidBytes =>
      match msg.protocol with
      | .fancyV1FullArchive =>
          match pchat.keyManager.archiveKeys msg.channelId with
          | none => (pchat, .error "Invalid state: no archive key for channel")
          | some (key, _) =>
              (pchat, codecs.aeadEncrypt rng key plaintext
                (buildAad msg.channelId uuidBytes msg.timestamp))
      | .signalV1 =>
          match pchat.signalBridge with
          | none => (pchat, .error "Invalid state: signal bridge not loaded")
          | some c =>
              let (c, result) := c.groupEncrypt rng msg.channelId plaintext
              ({ pchat with signalBridge := some c }, result)
      | .none =>
          (pchat, .error ("Invalid state: cannot encrypt for protocol " ++
            msg.protocol.debugName))

def buildEncryptedMessage (rng : lib.Rng) (msg : OutboundMessage) (pchat : PchatState lib) :
    PchatState lib × Except String (PchatMessage lib) :=
  match codecs.encode
    { body := msg.body, senderName := msg.senderName, senderSession := msg.senderSession } with
  | .error e => (pchat, .error ("encode envelope: " ++ e))
  | .ok envelopeBytes =>
      match pchat.encrypt codecs rng msg envelopeBytes with
      | (pchat, .error e) => (pchat, .error ("encrypt message: " ++ e))
      | (pchat, .ok ciphertext) =>
          (pchat, .ok
            { messageId := some msg.messageId
              channelId := some msg.channelId
              timestamp := some msg.timestamp
              senderHash := some pchat.ownCertHash
              protocol := some (protocolToProto msg.protocol)
              envelope := some ciphertext })

end PchatState

def buildPchatEncrypted (rng : lib.Rng) (loaded : Option (SignalBridgeCtx lib))
    (msg : OutboundMessage) (state : SharedState lib) :
    SharedState lib × Except String (Option (PchatMessage lib)) :=
  match state.pchat, state.clientHandle with
  | some pchat, true =>
      -- the bridge is loaded when the first message needs it
      let pchat := if msg.protocol = .signalV1 then pchat.ensureSignalBridge loaded else pchat
      match pchat.buildEncryptedMessage codecs rng msg with
      | (pchat, .ok proto) => ({ state with pchat := some pchat }, .ok (some proto))
      | (pchat, .error e) =>
          ({ state with pchat := some pchat }, .error ("Encryption failed: " ++ e))
  | _, _ => (state, .ok none)

theorem buildPchatEncrypted_of_not_connected {state : SharedState lib}
    (h : state.clientHandle = false) (rng : lib.Rng) (loaded : Option (SignalBridgeCtx lib))
    (msg : OutboundMessage) :
    buildPchatEncrypted codecs rng loaded msg state = (state, .ok none) := by
  unfold buildPchatEncrypted
  split
  next hpchat hhandle =>
    rw [h] at hhandle
    cases hhandle
  next => rfl

structure OwnMessageData where
  channelId : UInt32
  ownSession : Option UInt32
  ownName : String
  ownHash : Option String
  body : String
  messageId : Option String
  timestamp : Option UInt64
  pchatProtocol : Option PchatProtocol

def OwnMessageData.outbound (data : OwnMessageData) (ownSession : Option UInt32) :
    Option OutboundMessage :=
  match data.pchatProtocol.filter isEncrypted, data.messageId with
  | some protocol, some messageId =>
      some
        { channelId := data.channelId
          protocol
          messageId
          body := data.body
          senderName := data.ownName
          senderSession := ownSession.getD 0
          timestamp := data.timestamp.getD 0 }
  | _, _ => none

def prebuiltPchatMessage (rng : lib.Rng) (loaded : Option (SignalBridgeCtx lib))
    (ownSession : Option UInt32) (data : OwnMessageData) (state : SharedState lib) :
    SharedState lib × Except String (Option (PchatMessage lib)) :=
  match data.outbound ownSession with
  | none => (state, .ok none)
  | some msg => buildPchatEncrypted codecs rng loaded msg state

def textBody (disableDualPath : Bool) (data : OwnMessageData) : String :=
  if data.pchatProtocol.any isEncrypted ∧ disableDualPath then "[Encrypted message]"
  else data.body

def OwnMessageData.row (freshId : String) (data : OwnMessageData) : ChatMessage where
  senderName := data.ownName
  senderHash := data.ownHash
  body := data.body
  channelId := data.channelId
  isOwn := true
  messageId := some (data.messageId.getD freshId)
  timestamp := data.timestamp
  decrypted := true

def storeOwnMessage (freshId : String) (data : OwnMessageData) (state : SharedState lib) :
    SharedState lib :=
  let msg : ChatMessage :=
    { senderName := data.ownName
      senderHash := data.ownHash
      body := data.body
      channelId := data.channelId
      isOwn := true
      messageId := some (data.messageId.getD freshId)
      timestamp := data.timestamp
      decrypted := true }
  let cached : CachedMessage :=
    { messageId := data.messageId.getD freshId
      channelId := data.channelId
      timestamp := data.timestamp.getD 0
      senderHash := (state.pchat.map PchatState.ownCertHash).getD ""
      senderName := data.ownName
      body := data.body
      isOwn := true }
  { state with
    pchat := if data.pchatProtocol = some .signalV1 then
        state.pchat.map (·.cacheSignalMessage cached)
      else state.pchat
    byChannel := Function.update state.byChannel data.channelId
      (pushCapped (state.byChannel data.channelId) msg) }

theorem byChannel_storeOwnMessage (freshId : String) (data : OwnMessageData)
    (state : SharedState lib) : (storeOwnMessage freshId data state).byChannel =
      Function.update state.byChannel data.channelId
        (pushCapped (state.byChannel data.channelId) (data.row freshId)) := rfl

end FancyMumble.Messages
