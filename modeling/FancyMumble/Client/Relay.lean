import FancyMumble.FancyCodec

/-!
# Wrapped messages from peers

Every inbound message passes the codec and is then dispatched by its type. A wrapper
comes from another client: what can be inside, and whom it names as its sender.
-/

namespace FancyMumble.Client

open Transport

variable {Rest : TcpMessageType → Type}

/-! ## Dispatch -/

inductive DispatchCall (Rest : TcpMessageType → Type) where
  | tunnelAudio (data : List UInt8)
  | handleCryptSetup (setup : CryptSetup)
  | handleControlMessage (msg : ControlMessage Rest)
  | selectCodec
  | sendUdpPing
  | onDisconnected

inductive LoopAction where
  | continueLoop
  | breakLoop
deriving DecidableEq

def dispatch (msg : ControlMessage Rest) : List (DispatchCall Rest) × LoopAction :=
  match msg with
  | ⟨.udpTunnel, data⟩ => ([.tunnelAudio data], .continueLoop)
  | ⟨.cryptSetup, setup⟩ =>
      ([.handleCryptSetup setup, .handleControlMessage msg], .continueLoop)
  | ⟨.version, _⟩ => ([.handleControlMessage msg, .selectCodec], .continueLoop)
  | ⟨.ping, _⟩ => ([.handleControlMessage msg, .sendUdpPing], .continueLoop)
  | ⟨.reject, _⟩ => ([.handleControlMessage msg, .onDisconnected], .breakLoop)
  | msg => ([.handleControlMessage msg], .continueLoop)

def handleServerMessage (protobuf : Protobuf Rest) (codec : FancyCodec)
    (msg : ControlMessage Rest) : List (DispatchCall Rest) × LoopAction :=
  dispatch (codec.decode protobuf msg)

/-! ## What a peer can inject -/

/-- What the codec unwraps is a message that clients relay to each other. -/
def InjectsOnlyRelayed (protobuf : Protobuf Rest) (codec : FancyCodec)
    (pd : PluginDataTransmission) : Prop :=
  wrappedMessage protobuf pd ≠ none →
    (codec.decode protobuf ⟨.pluginDataTransmission, pd⟩).Relayable

/-- A wrapper with a readable type number and a payload that decodes has one of the
relayed type numbers. -/
def NamesRelayedType (protobuf : Protobuf Rest) (pd : PluginDataTransmission) : Prop :=
  ∀ typeId ∈ wrappedTypeId pd, ∀ payload ∈ pd.data,
    (deserializeControlMessage protobuf typeId payload).isOk → typeId ∈ relayableTypeIds

/-- A wrapper injects only relayed messages exactly when its type number says so. -/
theorem injectsOnlyRelayed_iff (protobuf : Protobuf Rest) (codec : FancyCodec)
    (pd : PluginDataTransmission) :
    InjectsOnlyRelayed protobuf codec pd ↔ NamesRelayedType protobuf pd := by
  have hinner : ∀ {inner}, wrappedMessage protobuf pd = some inner →
      ((codec.decode protobuf ⟨.pluginDataTransmission, pd⟩).Relayable ↔
        inner.typeId ∈ relayableTypeIds) := by
    intro inner h
    rw [decode_wrapper codec h, relayable_iff, patchSenderSession_typeId]
  constructor
  · intro h typeId htype payload hpayload hok
    cases hresult : deserializeControlMessage protobuf typeId payload with
    | error e => rw [hresult] at hok; cases hok
    | ok inner =>
        have hwrapped : wrappedMessage protobuf pd = some inner :=
          wrappedMessage_eq_some_iff.mpr ⟨typeId, htype, payload, hpayload, hresult⟩
        rw [← typeId_of_deserialize hresult]
        exact (hinner hwrapped).mp (h (by rw [hwrapped]; exact Option.some_ne_none inner))
  · intro h hwrapped
    obtain ⟨inner, hwrapped⟩ := Option.ne_none_iff_exists'.mp hwrapped
    obtain ⟨typeId, htype, payload, hpayload, hresult⟩ :=
      wrappedMessage_eq_some_iff.mp hwrapped
    rw [hinner hwrapped, typeId_of_deserialize hresult]
    exact h typeId htype payload hpayload (by rw [hresult]; rfl)

section Example

/-- The protobuf code on the payloads of the examples: a `Reject` without fields, a typing
indicator with an actor below 128, and a sender key of the certificate "a" that is empty. -/
private def protobufExample : Protobuf (fun _ => Unit) where
  encodeToVec := fun _ _ => []
  decode
    | .reject, [] => .ok ()
    | .fancyTypingIndicator, [0x08, actor] => .ok { actor := some actor.toUInt32 }
    | .pchatSenderKeyDistribution, [0x12, 0x01, 0x61] => .ok { senderHash := some "a" }
    | _, _ => .error "unexpected payload"

private def rejectWrapper : PluginDataTransmission where
  senderSession := some 5
  receiverSessions := [7]
  data := some []
  dataId := some "fancy-native:4"

/-- A peer ends the connection of another client with a wrapped `Reject`. -/
theorem wrapped_reject_injected :
    ¬∀ (protobuf : Protobuf (fun _ => Unit)) (codec : FancyCodec)
      (pd : PluginDataTransmission), InjectsOnlyRelayed protobuf codec pd := by
  intro h
  have hwrapped : wrappedMessage protobufExample rejectWrapper = some ⟨.reject, ()⟩ := rfl
  have hrelayable := h protobufExample .legacy rejectWrapper
    (by rw [hwrapped]; exact Option.some_ne_none _)
  rw [decode_wrapper .legacy hwrapped, relayable_iff] at hrelayable
  exact absurd hrelayable (by decide)

example : (handleServerMessage protobufExample .legacy
    ⟨.pluginDataTransmission, rejectWrapper⟩).2 = .breakLoop := rfl

end Example

/-! ## Whom a relayed message names -/

/-- The types whose empty actor field is filled in. -/
def FillsActor (msg : ControlMessage Rest) : Prop :=
  msg.messageType = .fancyTypingIndicator ∨ msg.messageType = .fancyWatchSync

instance (msg : ControlMessage Rest) : Decidable (FillsActor msg) :=
  inferInstanceAs (Decidable (_ ∨ _))

theorem senderField?_patchSenderSession (msg : ControlMessage Rest)
    (sender : Option UInt32) :
    (patchSenderSession msg sender).senderField? =
      if FillsActor msg ∧ msg.senderField? = some (.session none) then some (.session sender)
      else msg.senderField? := by
  unfold patchSenderSession
  split
  · next indicator =>
      cases hactor : indicator.actor <;>
        simp [ControlMessage.senderField?, FillsActor, hactor]
  · next sync =>
      cases hactor : sync.actor <;>
        simp [ControlMessage.senderField?, FillsActor, hactor]
  · next htyping hwatch =>
      have hfills : ¬FillsActor msg := by
        obtain ⟨messageType, payload⟩ := msg
        rintro (h | h)
        · cases h
          exact htyping payload rfl
        · cases h
          exact hwatch payload rfl
      rw [if_neg (fun h => hfills h.1)]

/-- A certificate hash is not compared with anything: the peer chooses it. -/
theorem senderField?_decode_of_hash {protobuf : Protobuf Rest} (codec : FancyCodec)
    {pd : PluginDataTransmission} {inner : ControlMessage Rest} {value : Option String}
    (hinner : wrappedMessage protobuf pd = some inner)
    (hfield : inner.senderField? = some (.hash value)) :
    (codec.decode protobuf ⟨.pluginDataTransmission, pd⟩).senderField? = some (.hash value) := by
  rw [decode_wrapper codec hinner, senderField?_patchSenderSession, hfield]
  simp

section Example

private def keyWrapper : PluginDataTransmission where
  senderSession := some 5
  receiverSessions := [7]
  data := some [0x12, 0x01, 0x61]
  dataId := some "fancy-native:121"

example : (FancyCodec.legacy.decode protobufExample
    ⟨.pluginDataTransmission, keyWrapper⟩).senderField? = some (.hash (some "a")) := rfl

end Example

end FancyMumble.Client
