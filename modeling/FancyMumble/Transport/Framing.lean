import FancyMumble.Lib.Bytes
import FancyMumble.Lib.Frames
import FancyMumble.Transport.Codec

/-!
# TCP framing

The wire format of the control connection, `[type:u16][length:u32][payload]`, and the
receive loop over it. The loop gives back the messages whose payloads are within the limit
wherever the stream is cut. `encode` does not look at the limit that `decode` enforces.
-/

namespace FancyMumble.Transport

open Lib.Bytes Lib

variable {Rest : TcpMessageType → Type}

def maxPayloadSize : UInt32 := 8 * 1024 * 1024

def headerSize : Nat := 6

def encode (protobuf : Protobuf Rest) (msg : ControlMessage Rest) : List UInt8 :=
  let (typeId, payload) := serializeControlMessage protobuf msg
  let len := UInt32.ofNat payload.length
  beBytes 2 typeId.toNat ++ beBytes 4 len.toNat ++ payload

def decode (protobuf : Protobuf Rest) (buf : List UInt8) :
    Except Error (Option (ControlMessage Rest)) × List UInt8 :=
  if buf.length < headerSize then (.ok none, buf)
  else
    let msgType := UInt16.ofNat (beNat (buf.take 2))
    let payloadLen := UInt32.ofNat (beNat ((buf.drop 2).take 4))
    if payloadLen > maxPayloadSize then
      (.error (.invalidState s!"payload too large: {payloadLen} bytes"), buf)
    else
      let total := headerSize + payloadLen.toNat
      if buf.length < total then (.ok none, buf)
      else
        let payload := (buf.drop headerSize).take payloadLen.toNat
        let rest := (buf.drop headerSize).drop payloadLen.toNat
        match deserializeControlMessage protobuf msgType payload with
        | .error e => (.error e, rest)
        | .ok msg => (.ok (some msg), rest)

def recv (protobuf : Protobuf Rest) : List UInt8 → List (List UInt8) →
    Except Error (ControlMessage Rest) × List UInt8 × List (List UInt8) :=
  Frames.next (decode protobuf) .connectionClosed

def receiveLoop (protobuf : Protobuf Rest) : Nat → List UInt8 → List (List UInt8) →
    List (ControlMessage Rest) × Option Error × List UInt8 × List (List UInt8) :=
  Frames.collect (decode protobuf) .connectionClosed

def encodedPayload (protobuf : Protobuf Rest) (msg : ControlMessage Rest) : List UInt8 :=
  (serializeControlMessage protobuf msg).2

def WithinLimit (protobuf : Protobuf Rest) (msg : ControlMessage Rest) : Prop :=
  (encodedPayload protobuf msg).length ≤ maxPayloadSize.toNat

/-! ## One frame -/

variable {protobuf : Protobuf Rest} {msg : ControlMessage Rest}

def lengthField (protobuf : Protobuf Rest) (msg : ControlMessage Rest) : Nat :=
  (encodedPayload protobuf msg).length % 2 ^ 32

theorem encode_eq (protobuf : Protobuf Rest) (msg : ControlMessage Rest) :
    encode protobuf msg = beBytes 2 (serializeControlMessage protobuf msg).1.toNat ++
      (beBytes 4 (lengthField protobuf msg) ++ encodedPayload protobuf msg) := by
  change beBytes 2 _ ++ beBytes 4 (UInt32.ofNat (encodedPayload protobuf msg).length).toNat ++
    encodedPayload protobuf msg = _
  rw [List.append_assoc, UInt32.toNat_ofNat']
  rfl

theorem length_encode (protobuf : Protobuf Rest) (msg : ControlMessage Rest) :
    (encode protobuf msg).length = headerSize + (encodedPayload protobuf msg).length := by
  rw [encode_eq]
  simp only [List.length_append, length_beBytes, headerSize]
  omega

theorem lengthField_of_withinLimit (h : WithinLimit protobuf msg) :
    lengthField protobuf msg = (encodedPayload protobuf msg).length := by
  apply Nat.mod_eq_of_lt
  exact Nat.lt_of_le_of_lt h (UInt32.toNat_lt maxPayloadSize)

theorem decode_header {typeId : UInt16} {len : Nat} (hlen : len < 2 ^ 32) (body : List UInt8) :
    decode protobuf (beBytes 2 typeId.toNat ++ (beBytes 4 len ++ body)) =
      if maxPayloadSize.toNat < len then
        (.error (.invalidState s!"payload too large: {UInt32.ofNat len} bytes"),
          beBytes 2 typeId.toNat ++ (beBytes 4 len ++ body))
      else if body.length < len then
        (.ok none, beBytes 2 typeId.toNat ++ (beBytes 4 len ++ body))
      else
        match deserializeControlMessage protobuf typeId (body.take len) with
        | .error e => (.error e, body.drop len)
        | .ok msg => (.ok (some msg), body.drop len) := by
  have htype : (beBytes 2 typeId.toNat ++ (beBytes 4 len ++ body)).take 2 =
      beBytes 2 typeId.toNat := List.take_left' (length_beBytes ..)
  have hdrop : (beBytes 2 typeId.toNat ++ (beBytes 4 len ++ body)).drop 2 =
      beBytes 4 len ++ body := List.drop_left' (length_beBytes ..)
  have hlenBytes : (beBytes 4 len ++ body).take 4 = beBytes 4 len :=
    List.take_left' (length_beBytes ..)
  have hbody : (beBytes 2 typeId.toNat ++ (beBytes 4 len ++ body)).drop headerSize = body := by
    rw [← List.append_assoc]
    exact List.drop_left' (by simp [headerSize])
  have hlength : (beBytes 2 typeId.toNat ++ (beBytes 4 len ++ body)).length =
      headerSize + body.length := by
    simp only [List.length_append, length_beBytes, headerSize]
    omega
  have htypeId : UInt16.ofNat (beNat (beBytes 2 typeId.toNat)) = typeId := by
    have htypeLt : typeId.toNat < 256 ^ 2 := typeId.toNat_lt
    rw [beNat_beBytes, Nat.mod_eq_of_lt htypeLt, UInt16.ofNat_toNat]
  have hvalue : beNat (beBytes 4 len) = len := by
    have hlenLt : len < 256 ^ 4 := hlen
    rw [beNat_beBytes, Nat.mod_eq_of_lt hlenLt]
  have hnat : (UInt32.ofNat len).toNat = len := by
    rw [UInt32.toNat_ofNat', Nat.mod_eq_of_lt hlen]
  unfold decode
  rw [if_neg (by omega)]
  simp only [htype, hdrop, hlenBytes, htypeId, hvalue, hbody, hlength, hnat, gt_iff_lt,
    UInt32.lt_iff_toNat_lt, Nat.add_lt_add_iff_left]

theorem decode_encode_append (hround : protobuf.RoundTrips msg)
    (h : WithinLimit protobuf msg) (rest : List UInt8) :
    decode protobuf (encode protobuf msg ++ rest) = (.ok (some msg), rest) := by
  have hlen := lengthField_of_withinLimit h
  have hbound : lengthField protobuf msg < 2 ^ 32 := Nat.mod_lt _ (by omega)
  have hpayload : (encodedPayload protobuf msg ++ rest).take (lengthField protobuf msg) =
      encodedPayload protobuf msg := List.take_left' hlen.symm
  have hrest : (encodedPayload protobuf msg ++ rest).drop (lengthField protobuf msg) = rest :=
    List.drop_left' hlen.symm
  have hlimit : ¬ maxPayloadSize.toNat < lengthField protobuf msg := by
    rw [hlen]
    exact Nat.not_lt.mpr h
  rw [encode_eq, List.append_assoc, List.append_assoc, decode_header hbound, if_neg hlimit,
    if_neg (by rw [List.length_append]; omega), hpayload, hrest, encodedPayload,
    deserialize_serialize_of_roundTrips hround]

theorem decode_of_prefix (h : WithinLimit protobuf msg) {buf : List UInt8}
    (hcut : buf <+: encode protobuf msg) (hne : buf ≠ encode protobuf msg) :
    decode protobuf buf = (.ok none, buf) := by
  by_cases hshort : buf.length < headerSize
  · rw [decode, if_pos hshort]
  · have hlen := lengthField_of_withinLimit h
    have hbound : lengthField protobuf msg < 2 ^ 32 := Nat.mod_lt _ (by omega)
    have hlt : buf.length < (encode protobuf msg).length :=
      Nat.lt_of_le_of_ne hcut.length_le fun heq => hne (hcut.eq_of_length heq)
    rw [length_encode] at hlt
    have hbuf : buf = beBytes 2 (serializeControlMessage protobuf msg).1.toNat ++
        (beBytes 4 (lengthField protobuf msg) ++ buf.drop headerSize) := by
      have htake : buf.take headerSize = (encode protobuf msg).take headerSize := by
        obtain ⟨tail, htail⟩ := hcut
        rw [← htail, List.take_append_of_le_length (Nat.not_lt.mp hshort)]
      rw [encode_eq, ← List.append_assoc, List.take_left' (by simp [headerSize])] at htake
      rw [← List.append_assoc, ← htake, List.take_append_drop]
    have hdrop : (buf.drop headerSize).length < lengthField protobuf msg := by
      rw [List.length_drop]
      omega
    have hlimit : ¬ maxPayloadSize.toNat < lengthField protobuf msg := by
      rw [hlen]
      exact Nat.not_lt.mpr h
    rw [hbuf, decode_header hbound, if_neg hlimit, if_pos hdrop]

theorem delimits_decode : Frames.Delimits (decode protobuf) (encode protobuf)
    fun msg => protobuf.RoundTrips msg ∧ WithinLimit protobuf msg where
  whole _ hmsg rest := decode_encode_append hmsg.1 hmsg.2 rest
  part _ hmsg _ hcut hne := decode_of_prefix hmsg.2 hcut hne
  nothing := rfl

theorem decode_untouched {buf rest : List UInt8}
    (h : decode protobuf buf = (.ok none, rest)) : rest = buf := by
  unfold decode at h
  split at h
  · exact (Prod.mk.inj h).2.symm
  · dsimp only at h
    split at h
    · cases h
    · split at h
      · exact (Prod.mk.inj h).2.symm
      · split at h <;> cases h

/-! ## Frames that are rejected -/

def Rejected (protobuf : Protobuf Rest) (msg : ControlMessage Rest) : Prop :=
  ∃ e rest, decode protobuf (encode protobuf msg) = (.error e, rest)

/-- The bytes of the payload that the length field covers can be read as a message of the
type. -/
def Readable (protobuf : Protobuf Rest) (msg : ControlMessage Rest) : Prop :=
  msg.messageType = .udpTunnel ∨
    ∃ payload, protobuf.decode msg.messageType
      ((encodedPayload protobuf msg).take (lengthField protobuf msg)) = .ok payload

/-- The length field is within the limit, and it either is the length of the payload or cuts
off a readable message. -/
def FrameAdmitted (protobuf : Protobuf Rest) (msg : ControlMessage Rest) : Prop :=
  lengthField protobuf msg ≤ maxPayloadSize.toNat ∧
    ((encodedPayload protobuf msg).length < 2 ^ 32 ∨ Readable protobuf msg)

theorem serialize_typeId (protobuf : Protobuf Rest) (msg : ControlMessage Rest) :
    (serializeControlMessage protobuf msg).1 = msg.messageType.toU16 := by
  unfold serializeControlMessage
  split <;> rfl

theorem deserialize_ne_error_iff {messageType : TcpMessageType} {payload : List UInt8} :
    (∃ msg, deserializeControlMessage protobuf messageType.toU16 payload = .ok msg) ↔
      messageType = .udpTunnel ∨ ∃ decoded, protobuf.decode messageType payload = .ok decoded := by
  unfold deserializeControlMessage
  rw [TcpMessageType.tryFrom_toU16]
  split
  · next h => cases h
  · next h =>
      have htype := Except.ok.inj h
      exact ⟨fun _ => Or.inl htype, fun _ => ⟨_, rfl⟩⟩
  · next hne h =>
      cases h
      have htunnel : ¬ messageType = .udpTunnel := fun heq => hne (by rw [heq])
      split
      · next herror => simp [htunnel, herror]
      · next decoded hdecoded => simp [hdecoded]

theorem frameAdmitted_of_withinLimit (h : WithinLimit protobuf msg) :
    FrameAdmitted protobuf msg := by
  refine ⟨?_, Or.inl ?_⟩
  · rw [lengthField_of_withinLimit h]
    exact h
  · exact Nat.lt_of_le_of_lt h (UInt32.toNat_lt maxPayloadSize)

/-- A frame is rejected for a length field over the limit, or because the length field cuts off
what is no message. -/
theorem not_rejected_iff (hround : protobuf.RoundTrips msg) :
    ¬Rejected protobuf msg ↔ FrameAdmitted protobuf msg := by
  have hbound : lengthField protobuf msg < 2 ^ 32 := Nat.mod_lt _ (by omega)
  have hle : ¬(encodedPayload protobuf msg).length < lengthField protobuf msg :=
    Nat.not_lt.mpr (Nat.mod_le _ _)
  unfold Rejected FrameAdmitted
  rw [encode_eq, decode_header hbound, serialize_typeId]
  by_cases hlimit : maxPayloadSize.toNat < lengthField protobuf msg
  · rw [if_pos hlimit]
    constructor
    · intro hnot
      exact absurd ⟨_, _, rfl⟩ hnot
    · intro hadmitted
      exact absurd hadmitted.1 (Nat.not_le.mpr hlimit)
  · rw [if_neg hlimit, if_neg hle]
    have hread : (∃ read, deserializeControlMessage protobuf msg.messageType.toU16
        ((encodedPayload protobuf msg).take (lengthField protobuf msg)) = .ok read) ↔
        (encodedPayload protobuf msg).length < 2 ^ 32 ∨ Readable protobuf msg := by
      rw [deserialize_ne_error_iff]
      constructor
      · exact Or.inr
      · intro h
        apply h.elim _ id
        intro hsmall
        have hlen : lengthField protobuf msg = (encodedPayload protobuf msg).length :=
          Nat.mod_eq_of_lt hsmall
        apply deserialize_ne_error_iff.mp
        rw [hlen, List.take_length, ← serialize_typeId protobuf]
        exact ⟨msg, deserialize_serialize_of_roundTrips hround⟩
    rw [← hread]
    constructor
    · intro hnot
      refine ⟨Nat.not_lt.mp hlimit, ?_⟩
      cases hresult : deserializeControlMessage protobuf msg.messageType.toU16
          ((encodedPayload protobuf msg).take (lengthField protobuf msg)) with
      | error e => exact absurd ⟨e, _, by rw [hresult]⟩ hnot
      | ok read => exact ⟨read, rfl⟩
    · rintro ⟨-, read, hresult⟩ ⟨e, rest, herror⟩
      rw [hresult] at herror
      cases herror

/-! ## The stream -/

/-- Framing is a stream codec on these messages: the receive loop gives back the frames of
admitted messages wherever their stream is cut, with nothing left over; asking for more
leaves the buffer alone; and no frame is rejected. -/
structure FramesFaithfully (protobuf : Protobuf Rest) (msgs : List (ControlMessage Rest)) :
    Prop where
  stream : (∀ msg ∈ msgs, WithinLimit protobuf msg) →
    ∀ chunks : List (List UInt8), [] ∉ chunks → chunks.flatten = msgs.flatMap (encode protobuf) →
      ∀ calls, msgs.length < calls →
        receiveLoop protobuf calls [] chunks = (msgs, some .connectionClosed, [], [])
  untouched : ∀ buf rest, decode protobuf buf = (.ok none, rest) → rest = buf
  accepted : ∀ msg ∈ msgs, ¬Rejected protobuf msg

theorem receiveLoop_frames {msgs : List (ControlMessage Rest)}
    (hround : ∀ msg ∈ msgs, protobuf.RoundTrips msg)
    (hlimit : ∀ msg ∈ msgs, WithinLimit protobuf msg) {chunks : List (List UInt8)}
    (hchunks : [] ∉ chunks) (hcut : chunks.flatten = msgs.flatMap (encode protobuf))
    {calls : Nat} (hcalls : msgs.length < calls) :
    receiveLoop protobuf calls [] chunks = (msgs, some .connectionClosed, [], []) := by
  apply Frames.collect_frames delimits_decode
  · exact fun msg hmsg => ⟨hround msg hmsg, hlimit msg hmsg⟩
  · exact hchunks
  · exact hcut
  · exact hcalls

/-- A stream is cut into its messages again exactly if every frame is admitted. -/
theorem framesFaithfully_iff {msgs : List (ControlMessage Rest)}
    (hround : ∀ msg ∈ msgs, protobuf.RoundTrips msg) :
    FramesFaithfully protobuf msgs ↔ ∀ msg ∈ msgs, FrameAdmitted protobuf msg := by
  constructor
  · intro h msg hmsg
    exact (not_rejected_iff (hround msg hmsg)).mp (h.accepted msg hmsg)
  · intro h
    exact {
      stream := fun hlimit _ hchunks hcut _ hcalls =>
        receiveLoop_frames hround hlimit hchunks hcut hcalls
      untouched := fun _ _ => decode_untouched
      accepted := fun msg hmsg => (not_rejected_iff (hround msg hmsg)).mpr (h msg hmsg) }

section Example

/-- The protobuf code on typing indicators with an actor below 128 and nothing else. -/
private def indicatorProtobuf : Protobuf (fun _ => Unit) where
  encodeToVec
    | .fancyTypingIndicator, { actor := some actor, .. } => [0x08, actor.toUInt8]
    | _, _ => []
  decode
    | .fancyTypingIndicator, [0x08, actor] => .ok { actor := some actor.toUInt32 }
    | _, _ => .error "unexpected payload"

private def messagesExample : List (ControlMessage (fun _ => Unit)) :=
  [⟨.udpTunnel, [1, 2, 3]⟩, ⟨.fancyTypingIndicator, { actor := some 9 }⟩]

private theorem roundTrips_example :
    ∀ msg ∈ messagesExample, indicatorProtobuf.RoundTrips msg :=
  List.forall_mem_cons.mpr ⟨fun h => absurd rfl h, List.forall_mem_singleton.mpr fun _ => rfl⟩

private theorem withinLimit_example :
    ∀ msg ∈ messagesExample, WithinLimit indicatorProtobuf msg :=
  List.forall_mem_cons.mpr
    ⟨show 3 ≤ 8388608 by decide, List.forall_mem_singleton.mpr (show 2 ≤ 8388608 by decide)⟩

/-- Two frames in three chunks, both headers cut in the middle. -/
theorem framesFaithfully_example :
    receiveLoop indicatorProtobuf 3 []
      [[0, 1, 0], [0, 0, 3, 1, 2, 3, 0, 131, 0, 0], [0, 2, 8, 9]] =
      (messagesExample, some .connectionClosed, [], []) :=
  ((framesFaithfully_iff roundTrips_example).mpr fun msg hmsg =>
      frameAdmitted_of_withinLimit (withinLimit_example msg hmsg)).stream
    withinLimit_example _ (by decide) rfl 3 (by decide)

theorem encodedPayload_udpTunnel (protobuf : Protobuf Rest) (data : List UInt8) :
    encodedPayload protobuf ⟨.udpTunnel, data⟩ = data := rfl

/-- Voice data of one byte over the limit is framed, and the frame is rejected. -/
theorem oversized_frame_rejected :
    ¬∀ (protobuf : Protobuf (fun _ => Unit)) (msgs : List (ControlMessage (fun _ => Unit))),
      (∀ msg ∈ msgs, protobuf.RoundTrips msg) → FramesFaithfully protobuf msgs := by
  intro h
  have hround : indicatorProtobuf.RoundTrips
      ⟨.udpTunnel, List.replicate (8 * 1024 * 1024 + 1) 0⟩ := fun hne => absurd rfl hne
  have haccepted := (h indicatorProtobuf _ (List.forall_mem_singleton.mpr hround)).accepted _
    List.mem_cons_self
  have hlimit := ((not_rejected_iff hround).mp haccepted).1
  rw [lengthField, encodedPayload_udpTunnel, List.length_replicate] at hlimit
  exact absurd hlimit (by decide)

end Example

end FancyMumble.Transport
