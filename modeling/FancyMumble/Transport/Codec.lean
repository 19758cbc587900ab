import FancyMumble.Message

/-!
# Serialisation of control messages

The two helpers under the TCP framing. The protobuf code of each message type is
generated outside the repository and is taken as a parameter.
-/

namespace FancyMumble.Transport

variable {Rest : TcpMessageType → Type}

/-- The generated protobuf code: how the contents of each message type are written
and read. -/
structure Protobuf (Rest : TcpMessageType → Type) where
  encodeToVec : (messageType : TcpMessageType) → Payload Rest messageType → List UInt8
  decode : (messageType : TcpMessageType) → List UInt8 →
    Except String (Payload Rest messageType)

/-- Reading what was written for this message gives its contents back; tunnelled voice is
not written by the protobuf code. -/
def Protobuf.RoundTrips (protobuf : Protobuf Rest) (msg : ControlMessage Rest) : Prop :=
  msg.messageType ≠ .udpTunnel →
    protobuf.decode msg.messageType (protobuf.encodeToVec msg.messageType msg.payload) =
      .ok msg.payload

def serializeControlMessage (protobuf : Protobuf Rest) (msg : ControlMessage Rest) :
    UInt16 × List UInt8 :=
  match msg with
  | ⟨.udpTunnel, data⟩ => (TcpMessageType.udpTunnel.toU16, data)
  | ⟨messageType, payload⟩ =>
      (messageType.toU16, protobuf.encodeToVec messageType payload)

def deserializeControlMessage (protobuf : Protobuf Rest) (typeId : UInt16)
    (payload : List UInt8) : Except Error (ControlMessage Rest) :=
  match TcpMessageType.tryFrom typeId with
  | .error e => .error e
  | .ok .udpTunnel => .ok ⟨.udpTunnel, payload⟩
  | .ok messageType =>
      match protobuf.decode messageType payload with
      | .error message => .error (.decode message)
      | .ok decoded => .ok ⟨messageType, decoded⟩

theorem typeId_of_deserialize {protobuf : Protobuf Rest} {typeId : UInt16}
    {payload : List UInt8} {msg : ControlMessage Rest}
    (h : deserializeControlMessage protobuf typeId payload = .ok msg) :
    msg.typeId = typeId := by
  unfold deserializeControlMessage at h
  split at h
  · cases h
  · next htype =>
      cases h
      exact TcpMessageType.tryFrom_eq_ok_iff.mp htype
  · next messageType _ htype =>
      split at h
      · cases h
      · cases h
        exact TcpMessageType.tryFrom_eq_ok_iff.mp htype

theorem deserialize_serialize_of_roundTrips {protobuf : Protobuf Rest} {msg : ControlMessage Rest}
    (hround : protobuf.RoundTrips msg) :
    deserializeControlMessage protobuf (serializeControlMessage protobuf msg).1
      (serializeControlMessage protobuf msg).2 = .ok msg := by
  obtain ⟨messageType, payload⟩ := msg
  by_cases htunnel : messageType = .udpTunnel
  · subst htunnel
    rfl
  · have hserialize : serializeControlMessage protobuf ⟨messageType, payload⟩ =
        (messageType.toU16, protobuf.encodeToVec messageType payload) := by
      unfold serializeControlMessage
      split
      · next h => exact absurd (congrArg ControlMessage.messageType h) htunnel
      · next h => cases h; rfl
    rw [hserialize]
    unfold deserializeControlMessage
    rw [TcpMessageType.tryFrom_toU16]
    split
    · next h => cases h
    · next h => exact absurd (Except.ok.inj h) htunnel
    · next h =>
        cases h
        rw [show protobuf.decode _ _ = _ from hround htunnel]

end FancyMumble.Transport
