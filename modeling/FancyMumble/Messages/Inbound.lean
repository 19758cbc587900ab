import FancyMumble.Lib.Runs
import FancyMumble.Messages.History
import FancyMumble.Persistent.Keys.KeyManager
import FancyMumble.Signal.Context
import Mathlib.Data.List.Sort

/-!
# Inbound messages

The persistent chat of a connection as the handlers of encrypted messages see it: messages
are decrypted, shown and cached; a Signal message whose key is missing is stashed, and
tried again when a sender key arrives.
-/

namespace FancyMumble.Messages

open Lib Lib.Runs Persistent Signal

/-! ## Libraries -/

structure MessageEnvelope where
  body : String
  senderName : String
  senderSession : UInt32 := 0
deriving DecidableEq

/-- What the handlers call of `uuid`, of the archive cipher and of MessagePack, and how
bytes are absent. -/
structure Codecs (lib : Libraries) where
  empty : lib.Bytes
  isEmpty : lib.Bytes → Bool
  uuidParseStr : String → Except String (List UInt8)
  aeadEncrypt : lib.Rng → ChannelKey → lib.Bytes → List UInt8 → Except String lib.Bytes
  aeadDecrypt : ChannelKey → lib.Bytes → List UInt8 → Except String lib.Bytes
  encode : MessageEnvelope → Except String lib.Bytes
  decode : lib.Bytes → Except String MessageEnvelope

def symbolicCodecs : Codecs symbolic where
  empty := .text ""
  isEmpty bytes := match bytes with
    | .text s => s.isEmpty
    | _ => false
  uuidParseStr s := .ok (s.toList.map fun c => UInt8.ofNat c.toNat)
  aeadEncrypt _ _ _ _ := .error "Invalid state: encryption failed"
  aeadDecrypt _ _ _ := .error "Invalid state: decryption failed"
  encode envelope := .ok (.text envelope.body)
  decode bytes := match bytes with
    | .text s => .ok { body := s, senderName := "Peer" }
    | _ => .error "invalid type"

def buildAad (channelId : UInt32) (messageId : List UInt8) (timestamp : UInt64) : List UInt8 :=
  (Bytes.leBytes 4 channelId.toNat).reverse ++ messageId ++
    (Bytes.leBytes 8 timestamp.toNat).reverse

def decryptArchive {lib : Libraries} (codecs : Codecs lib) (km : KeyManager)
    (protocol : PchatProtocol) (channelId : UInt32) (messageId : String) (timestamp : UInt64)
    (ciphertext : lib.Bytes) : Except String lib.Bytes :=
  match codecs.uuidParseStr messageId with
  | .error e => .error ("Invalid state: invalid UUID: " ++ e)
  | .ok uuidBytes =>
      match protocol with
      | .fancyV1FullArchive =>
          match km.archiveKeys channelId with
          | none => .error "Invalid state: no archive key for channel"
          | some (key, _) =>
              codecs.aeadDecrypt key ciphertext (buildAad channelId uuidBytes timestamp)
      | _ => .error ("Invalid state: cannot decrypt for protocol " ++ protocol.debugName)

def decryptSignal {lib : Libraries} (bridge : Option (SignalBridgeCtx lib))
    (senderHash : String) (channelId : UInt32) (ciphertext : lib.Bytes) :
    Option (SignalBridgeCtx lib) × Except String lib.Bytes :=
  match bridge with
  | none => (none, .error "Invalid state: signal bridge not loaded")
  | some c =>
      if Char.ofNat 0 ∈ senderHash.toList then (some c, .error "sender_hash contains NUL byte")
      else (c.groupDecrypt senderHash channelId ciphertext).map some id

/-! ## State -/

def maxStashedEnvelopes : ℕ := 50

def placeholderBody : String := "[Encrypted message - awaiting key]"

/-- `PendingSignalEnvelope`. How many envelopes were stashed before it is recorded for the
statements only. -/
structure PendingSignalEnvelope (lib : Libraries) where
  messageId : String
  channelId : UInt32
  timestamp : UInt64
  senderHash : String
  envelopeBytes : lib.Bytes
  arrival : ℕ := 0

/-- `PchatState`, with the fields that decryption uses. The envelopes that were ever
stashed, the stashes that were full when another one came, and the stashed envelopes that
were decrypted later are recorded for the statements only. -/
structure PchatState (lib : Libraries) where
  keyManager : KeyManager := {}
  ownCertHash : String := ""
  signalBridge : Option (SignalBridgeCtx lib) := none
  signalBridgeLoadFailed : Bool := false
  localCache : Option LocalMessageCache := none
  pendingSignalEnvelopes : List (PendingSignalEnvelope lib) := []
  stashed : List (PendingSignalEnvelope lib) := []
  full : List (List (PendingSignalEnvelope lib)) := []
  opened : List (PendingSignalEnvelope lib × MessageEnvelope) := []

/-- `SharedState`, with the persistent chat and the messages by channel. -/
structure SharedState (lib : Libraries) where
  pchat : Option (PchatState lib) := none
  byChannel : UInt32 → List ChatMessage := fun _ => []
  /-- The connection can send. -/
  clientHandle : Bool := true

namespace PchatState

variable {lib : Libraries}

def cacheSignalMessage (pchat : PchatState lib) (msg : CachedMessage) : PchatState lib :=
  { pchat with localCache := pchat.localCache.map (·.insert msg) }

def cached (pchat : PchatState lib) (channelId : UInt32) : List CachedMessage :=
  (pchat.localCache.map fun cache => cache.messages channelId).getD []

def stashSignalEnvelope (pchat : PchatState lib) (env : PendingSignalEnvelope lib) :
    PchatState lib :=
  let env := { env with arrival := pchat.stashed.length }
  if maxStashedEnvelopes ≤ pchat.pendingSignalEnvelopes.length then
    { pchat with
      pendingSignalEnvelopes := pchat.pendingSignalEnvelopes.tail ++ [env]
      stashed := pchat.stashed ++ [env]
      full := pchat.full ++ [pchat.pendingSignalEnvelopes] }
  else
    { pchat with
      pendingSignalEnvelopes := pchat.pendingSignalEnvelopes ++ [env]
      stashed := pchat.stashed ++ [env] }

def ensureSignalBridge (loaded : Option (SignalBridgeCtx lib)) (pchat : PchatState lib) :
    PchatState lib :=
  if pchat.signalBridge.isSome then pchat
  else if pchat.signalBridgeLoadFailed then pchat
  else
    { pchat with
      signalBridge := loaded
      signalBridgeLoadFailed := loaded.isNone }

def processSenderKey (loaded : Option (SignalBridgeCtx lib)) (senderHash : String)
    (senderChannel : UInt32) (data : lib.Bytes) (pchat : PchatState lib) :
    PchatState lib × Except String Unit :=
  if pchat.signalBridgeLoadFailed then (pchat, .error "signal bridge not loaded")
  else
    let pchat := pchat.ensureSignalBridge loaded
    match pchat.signalBridge with
    | none => (pchat, .error "signal bridge not loaded, cannot process sender key")
    | some c =>
        if Char.ofNat 0 ∈ senderHash.toList then (pchat, .error "sender_hash contains NUL byte")
        else
          let (c, result) := c.processDistribution senderHash senderChannel data
          ({ pchat with signalBridge := some c }, result)

end PchatState

/-! ## Decryption -/

structure InboundEnvelope (lib : Libraries) where
  protocol : PchatProtocol
  senderHash : String
  channelId : UInt32
  messageId : String
  timestamp : UInt64
  envelopeBytes : lib.Bytes

structure DecryptedMsg where
  messageId : String
  timestamp : UInt64
  senderHash : String
  body : String
  senderName : String
  decrypted : Bool

variable {lib : Libraries} (codecs : Codecs lib)

def decodeEnvelope (plaintext : lib.Bytes) : Except String MessageEnvelope :=
  match codecs.decode plaintext with
  | .error e => .error ("decode envelope: " ++ e)
  | .ok envelope => .ok envelope

def InboundEnvelope.decrypt (env : InboundEnvelope lib) (pchat : PchatState lib) :
    PchatState lib × Except String MessageEnvelope :=
  if env.protocol = .signalV1 then
    let (bridge, result) :=
      decryptSignal pchat.signalBridge env.senderHash env.channelId env.envelopeBytes
    ({ pchat with signalBridge := bridge }, result.bind (decodeEnvelope codecs))
  else
    (pchat,
      (decryptArchive codecs pchat.keyManager env.protocol env.channelId env.messageId
        env.timestamp env.envelopeBytes).bind (decodeEnvelope codecs))

def decryptOrStash (env : InboundEnvelope lib) (pchat : PchatState lib) :
    PchatState lib × DecryptedMsg :=
  match env.decrypt codecs pchat with
  | (pchat, .ok envelope) =>
      (pchat, ⟨env.messageId, env.timestamp, env.senderHash, envelope.body,
        envelope.senderName, true⟩)
  | (pchat, .error _) =>
      let failed : DecryptedMsg := ⟨env.messageId, env.timestamp, env.senderHash,
        placeholderBody, env.senderHash, false⟩
      if env.protocol = .signalV1 then
        (pchat.stashSignalEnvelope
          { messageId := env.messageId
            channelId := env.channelId
            timestamp := env.timestamp
            senderHash := env.senderHash
            envelopeBytes := env.envelopeBytes }, failed)
      else (pchat, failed)

/-- A message is decrypted or stashed, and cached when it is a decrypted Signal message. -/
def receive (env : InboundEnvelope lib) (pchat : PchatState lib) :
    PchatState lib × DecryptedMsg :=
  let (pchat, msg) := decryptOrStash codecs env pchat
  if env.protocol = .signalV1 ∧ msg.decrypted then
    (pchat.cacheSignalMessage
      { messageId := msg.messageId
        channelId := env.channelId
        timestamp := msg.timestamp
        senderHash := msg.senderHash
        senderName := msg.senderName
        body := msg.body
        isOwn := false }, msg)
  else (pchat, msg)

def DecryptedMsg.chatMessage (channelId : UInt32) (msg : DecryptedMsg) : ChatMessage where
  senderName := msg.senderName
  senderHash := some msg.senderHash
  body := msg.body
  channelId := channelId
  messageId := some msg.messageId
  timestamp := some msg.timestamp
  decrypted := msg.decrypted

def InboundEnvelope.outcome (env : InboundEnvelope lib) :
    Except String MessageEnvelope → DecryptedMsg
  | .ok envelope =>
      ⟨env.messageId, env.timestamp, env.senderHash, envelope.body, envelope.senderName, true⟩
  | .error _ =>
      ⟨env.messageId, env.timestamp, env.senderHash, placeholderBody, env.senderHash, false⟩

theorem decryptOrStash_eq_outcome (env : InboundEnvelope lib) (pchat : PchatState lib) :
    (decryptOrStash codecs env pchat).2 = env.outcome (env.decrypt codecs pchat).2 := by
  unfold decryptOrStash
  split
  next after envelope heq => rw [heq]; rfl
  next after e heq =>
    rw [heq]
    dsimp only
    split
    next => rfl
    next => rfl

theorem receive_eq_outcome (env : InboundEnvelope lib) (pchat : PchatState lib) :
    (receive codecs env pchat).2 = env.outcome (env.decrypt codecs pchat).2 := by
  rw [← decryptOrStash_eq_outcome]
  unfold receive
  dsimp only
  split
  next => rfl
  next => rfl

@[simp] theorem InboundEnvelope.messageId_outcome (env : InboundEnvelope lib)
    (result : Except String MessageEnvelope) : (env.outcome result).messageId = env.messageId := by
  cases result <;> rfl

@[simp] theorem InboundEnvelope.senderHash_outcome (env : InboundEnvelope lib)
    (result : Except String MessageEnvelope) :
    (env.outcome result).senderHash = env.senderHash := by
  cases result <;> rfl

theorem messageId_decryptOrStash (env : InboundEnvelope lib) (pchat : PchatState lib) :
    (decryptOrStash codecs env pchat).2.messageId = env.messageId := by
  rw [decryptOrStash_eq_outcome, InboundEnvelope.messageId_outcome]

theorem messageId_receive (env : InboundEnvelope lib) (pchat : PchatState lib) :
    (receive codecs env pchat).2.messageId = env.messageId := by
  rw [receive_eq_outcome, InboundEnvelope.messageId_outcome]

/-! ## Delivery -/

structure PchatMessageDeliver (lib : Libraries) where
  messageId : Option String
  channelId : Option UInt32
  timestamp : Option UInt64
  senderHash : Option String
  protocol : Option Int32
  envelope : Option lib.Bytes
  replacesId : Option String := none

def protoToProtocol (protocol : Option Int32) : PchatProtocol :=
  (protocol.map PchatProtocol.fromProto).getD .none

def PchatMessageDeliver.inbound (msg : PchatMessageDeliver lib) (channelId : UInt32) :
    InboundEnvelope lib where
  protocol := protoToProtocol msg.protocol
  senderHash := msg.senderHash.getD ""
  channelId := channelId
  messageId := msg.messageId.getD ""
  timestamp := msg.timestamp.getD 0
  envelopeBytes := msg.envelope.getD codecs.empty

def handleMsgDeliver (msg : PchatMessageDeliver lib) (state : SharedState lib) :
    SharedState lib :=
  let channelId := msg.channelId.getD 0
  match state.pchat with
  | none => state
  | some pchat =>
      let (pchat, decrypted) := receive codecs (msg.inbound codecs channelId) pchat
      { state with
        pchat := some pchat
        byChannel := Function.update state.byChannel channelId
          (insertOrReplaceMessage ChatMessage.messageId (state.byChannel channelId)
            decrypted.messageId msg.replacesId (decrypted.chatMessage channelId)) }

/-! ## Sender keys -/

def showDecrypted (messageId : String) (envelope : MessageEnvelope) :
    List ChatMessage → List ChatMessage
  | [] => []
  | row :: rows =>
      if row.messageId = some messageId then
        { row with
          body := envelope.body
          senderName := envelope.senderName
          decrypted := true } :: rows
      else row :: showDecrypted messageId envelope rows

def PendingSignalEnvelope.cachedMessage (env : PendingSignalEnvelope lib)
    (envelope : MessageEnvelope) : CachedMessage where
  messageId := env.messageId
  channelId := env.channelId
  timestamp := env.timestamp
  senderHash := env.senderHash
  senderName := envelope.senderName
  body := envelope.body
  isOwn := false

/-- Stashed envelopes are tried again one by one: those that still cannot be decrypted, and
those that can, with what they contain. -/
def openStashed : PchatState lib → List (PendingSignalEnvelope lib) →
    PchatState lib × List (PendingSignalEnvelope lib) ×
      List (PendingSignalEnvelope lib × MessageEnvelope)
  | pchat, [] => (pchat, [], [])
  | pchat, env :: rest =>
      let (bridge, result) :=
        decryptSignal pchat.signalBridge env.senderHash env.channelId env.envelopeBytes
      let pchat := { pchat with signalBridge := bridge }
      match result with
      | .error _ =>
          let (pchat, stillPending, results) := openStashed pchat rest
          (pchat, env :: stillPending, results)
      | .ok plaintext =>
          match codecs.decode plaintext with
          | .ok envelope =>
              let (pchat, stillPending, results) :=
                openStashed (pchat.cacheSignalMessage (env.cachedMessage envelope)) rest
              (pchat, stillPending, (env, envelope) :: results)
          | .error _ => openStashed pchat rest

def PendingSignalEnvelope.IsFrom (env : PendingSignalEnvelope lib) (senderHash : String)
    (senderChannel : UInt32) : Prop :=
  env.senderHash = senderHash ∧ env.channelId = senderChannel

instance (env : PendingSignalEnvelope lib) (senderHash : String) (senderChannel : UInt32) :
    Decidable (env.IsFrom senderHash senderChannel) :=
  inferInstanceAs (Decidable (_ ∧ _))

def retryStashedSignalEnvelopes (senderHash : String) (senderChannel : UInt32)
    (pchat : PchatState lib) (state : SharedState lib) : SharedState lib :=
  let matched := pchat.pendingSignalEnvelopes.filter (·.IsFrom senderHash senderChannel)
  let remaining := pchat.pendingSignalEnvelopes.filter (¬·.IsFrom senderHash senderChannel)
  if matched.isEmpty then { state with pchat := some pchat }
  else
    let (pchat, stillPending, results) :=
      openStashed codecs { pchat with pendingSignalEnvelopes := remaining } matched
    { state with
      pchat := some
        { pchat with
          pendingSignalEnvelopes := pchat.pendingSignalEnvelopes ++ stillPending
          opened := pchat.opened ++ results }
      byChannel := results.foldl
        (fun byChannel result => Function.update byChannel result.1.channelId
          (showDecrypted result.1.messageId result.2 (byChannel result.1.channelId)))
        state.byChannel }

def handleSignalSenderKeyByHash (loaded : Option (SignalBridgeCtx lib)) (senderHash : String)
    (senderChannel : UInt32) (data : lib.Bytes) (state : SharedState lib) : SharedState lib :=
  match state.pchat with
  | none => state
  | some pchat =>
      match pchat.processSenderKey loaded senderHash senderChannel data with
      | (pchat, .error _) => { state with pchat := some pchat }
      | (pchat, .ok ()) =>
          retryStashedSignalEnvelopes codecs senderHash senderChannel pchat state

section SenderKey

variable {state : SharedState lib} {pchat keyed : PchatState lib}
  {loaded : Option (SignalBridgeCtx lib)} {senderHash : String} {senderChannel : UInt32}
  {data : lib.Bytes}

theorem handleSignalSenderKeyByHash_of_none (hpchat : state.pchat = none) :
    handleSignalSenderKeyByHash codecs loaded senderHash senderChannel data state = state := by
  unfold handleSignalSenderKeyByHash
  rw [hpchat]

theorem handleSignalSenderKeyByHash_of_error (hpchat : state.pchat = some pchat) {e : String}
    (h : pchat.processSenderKey loaded senderHash senderChannel data = (keyed, .error e)) :
    handleSignalSenderKeyByHash codecs loaded senderHash senderChannel data state =
      { state with pchat := some keyed } := by
  unfold handleSignalSenderKeyByHash
  rw [hpchat]
  dsimp only
  rw [h]

theorem handleSignalSenderKeyByHash_of_ok (hpchat : state.pchat = some pchat)
    (h : pchat.processSenderKey loaded senderHash senderChannel data = (keyed, .ok ())) :
    handleSignalSenderKeyByHash codecs loaded senderHash senderChannel data state =
      retryStashedSignalEnvelopes codecs senderHash senderChannel keyed state := by
  unfold handleSignalSenderKeyByHash
  rw [hpchat]
  dsimp only
  rw [h]

end SenderKey

/-! ## Offline queue -/

def decryptOfflineBatch (channelId : UInt32) :
    PchatState lib → List (PchatMessageDeliver lib) → PchatState lib × List DecryptedMsg
  | pchat, [] => (pchat, [])
  | pchat, msg :: rest =>
      let (pchat, decrypted) := receive codecs (msg.inbound codecs channelId) pchat
      let (pchat, results) := decryptOfflineBatch channelId pchat rest
      (pchat, decrypted :: results)

/-- `insert_offline_messages`, on the messages of the channel: every id is acknowledged. -/
def insertOfflineMessages (channelId : UInt32) (messages : List ChatMessage)
    (decrypted : List DecryptedMsg) : List ChatMessage × List String :=
  (decrypted.foldl (fun messages msg => insertNew ChatMessage.messageId messages msg.messageId
    (msg.chatMessage channelId)) messages, decrypted.map DecryptedMsg.messageId)

/-- The messages of `handle_proto_offline_queue_drain`, and the acknowledgement that is
sent. -/
def handleOfflineMessages (channelId : UInt32) (messages : List (PchatMessageDeliver lib))
    (state : SharedState lib) : SharedState lib × List String :=
  if messages.isEmpty then (state, [])
  else
    match state.pchat with
    | none => (state, [])
    | some pchat =>
        let (pchat, decrypted) := decryptOfflineBatch codecs channelId pchat messages
        let (rows, ackedIds) :=
          insertOfflineMessages channelId (state.byChannel channelId) decrypted
        ({ state with
            pchat := some pchat
            byChannel := Function.update state.byChannel channelId
              (rows.insertionSort fun a b => a.timestamp.getD 0 ≤ b.timestamp.getD 0) },
          if state.clientHandle then ackedIds else [])

structure PchatSenderKeyDistribution (lib : Libraries) where
  senderHash : Option String
  channelId : Option UInt32
  distribution : Option lib.Bytes

structure PchatOfflineQueueDrain (lib : Libraries) where
  channelId : Option UInt32
  messages : List (PchatMessageDeliver lib)
  distributions : List (PchatSenderKeyDistribution lib)

/-- `handle_proto_offline_queue_drain`: the sender keys first, each under the lock of its
own, then the messages. -/
def handleOfflineQueueDrain (loaded : Option (SignalBridgeCtx lib))
    (msg : PchatOfflineQueueDrain lib) (state : SharedState lib) :
    SharedState lib × List String :=
  let channelId := msg.channelId.getD 0
  let keyed := msg.distributions.foldl (fun state dist =>
    let data := dist.distribution.getD codecs.empty
    if codecs.isEmpty data then state
    else handleSignalSenderKeyByHash codecs loaded (dist.senderHash.getD "")
      (dist.channelId.getD channelId) data state) state
  handleOfflineMessages codecs channelId msg.messages keyed

/-! ## Events -/

/-- What a connection handles under the lock at once. -/
inductive InboundEvent (lib : Libraries) where
  | msgDeliver (msg : PchatMessageDeliver lib)
  | senderKey (loaded : Option (SignalBridgeCtx lib)) (senderHash : String)
      (senderChannel : UInt32) (data : lib.Bytes)
  | offlineMessages (channelId : UInt32) (messages : List (PchatMessageDeliver lib))

namespace SharedState

def step (state : SharedState lib) : InboundEvent lib → SharedState lib
  | .msgDeliver msg => handleMsgDeliver codecs msg state
  | .senderKey loaded senderHash senderChannel data =>
      handleSignalSenderKeyByHash codecs loaded senderHash senderChannel data state
  | .offlineMessages channelId messages => (handleOfflineMessages codecs channelId messages state).1

theorem step_of_none {state : SharedState lib} (hpchat : state.pchat = none)
    (event : InboundEvent lib) : state.step codecs event = state := by
  cases event with
  | msgDeliver msg =>
      unfold SharedState.step handleMsgDeliver
      dsimp only
      rw [hpchat]
  | senderKey loaded senderHash senderChannel data =>
      exact handleSignalSenderKeyByHash_of_none codecs hpchat
  | offlineMessages channelId messages =>
      unfold SharedState.step handleOfflineMessages
      dsimp only
      split
      next => rfl
      next => rw [hpchat]

def acked (state : SharedState lib) : InboundEvent lib → List String
  | .offlineMessages channelId messages => (handleOfflineMessages codecs channelId messages state).2
  | _ => []

def drainEvents (loaded : Option (SignalBridgeCtx lib)) (msg : PchatOfflineQueueDrain lib) :
    List (InboundEvent lib) :=
  let channelId := msg.channelId.getD 0
  ((msg.distributions.filter fun dist =>
      !codecs.isEmpty (dist.distribution.getD codecs.empty)).map fun dist =>
    .senderKey loaded (dist.senderHash.getD "") (dist.channelId.getD channelId)
      (dist.distribution.getD codecs.empty)) ++ [.offlineMessages channelId msg.messages]

/-- A drained queue is handled event by event. -/
theorem handleOfflineQueueDrain_eq_run (loaded : Option (SignalBridgeCtx lib))
    (msg : PchatOfflineQueueDrain lib) (state : SharedState lib) :
    (handleOfflineQueueDrain codecs loaded msg state).1 =
      run (step codecs) state (drainEvents codecs loaded msg) := by
  unfold handleOfflineQueueDrain drainEvents
  dsimp only
  rw [run_append]
  induction msg.distributions generalizing state with
  | nil => rfl
  | cons dist distributions ih =>
      rw [List.foldl_cons]
      cases hempty : codecs.isEmpty (dist.distribution.getD codecs.empty) with
      | true =>
          rw [if_pos rfl, List.filter_cons_of_neg (by simp [hempty])]
          exact ih state
      | false =>
          rw [if_neg Bool.false_ne_true, List.filter_cons_of_pos (by simp [hempty]),
            List.map_cons, run_cons]
          exact ih _

end SharedState

end FancyMumble.Messages
