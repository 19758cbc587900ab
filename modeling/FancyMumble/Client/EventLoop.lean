import FancyMumble.Client.Relay
import FancyMumble.Client.TrackedState
import FancyMumble.Lib.Lanes
import FancyMumble.Transport.AudioPackets
import FancyMumble.Transport.Ocb2.CryptState

/-!
# The event loop

The tasks of a connection and the queues between them: a reader takes messages from the
server, a forwarder takes commands of the user, the loop serves one item after the other,
and a writer sends what it is given. However the tasks take turns, the loop has served what
was read and submitted in the order in which it came, and what it writes are the answers in
that order.
-/

namespace FancyMumble.Client.EventLoop

open Lib Lib.Lanes Lib.Runs Transport
open Transport.Ocb2

variable {Rest : TcpMessageType → Type} {UdpPing Command : Type}

/-! ## What is served -/

inductive UdpMessage (UdpPing : Type) where
  | audio (audio : Audio)
  | ping (ping : UdpPing)

inductive ServerMessage (Rest : TcpMessageType → Type) (UdpPing : Type) where
  | control (msg : ControlMessage Rest)
  | udp (msg : UdpMessage UdpPing)

inductive WorkItem (Rest : TcpMessageType → Type) (UdpPing Command : Type) where
  | serverMessage (msg : ServerMessage Rest UdpPing)
  | userCommand (command : Command)
  | shutdown

structure CommandOutput (Rest : TcpMessageType → Type) (UdpPing : Type) where
  tcpMessages : List (ControlMessage Rest) := []
  udpMessages : List (UdpMessage UdpPing) := []
  disconnect : Bool := false

structure Ping where
  good : Option UInt32 := none
  late : Option UInt32 := none
  lost : Option UInt32 := none
  resync : Option UInt32 := none

/-- What the generated code reads from the messages, what the commands do, and the users of the
state in the order of their map. -/
structure Parts (Rest : TcpMessageType → Type) (UdpPing Command : Type) where
  protobuf : Protobuf Rest
  prost : Prost
  version : Rest .version → Option UInt64
  ping : Rest .ping → Ping
  serverSync : Rest .serverSync → Tracked.ServerSync
  userState : Rest .userState → Tracked.UserState
  channelState : Rest .channelState → Tracked.FullChannelState
  channelRemove : Rest .channelRemove → UInt32
  permissionQuery : Rest .permissionQuery → Tracked.PermissionQuery
  execute : Command → Tracked.ServerState → CommandOutput Rest UdpPing
  codecView : Tracked.ServerState → ServerState

/-- The calls of the `EventHandler`; `on_audio_transport_changed` is left to the UDP client. -/
inductive Callback (Rest : TcpMessageType → Type) (UdpPing : Type) where
  | onControlMessage (msg : ControlMessage Rest)
  | onUdpMessage (msg : UdpMessage UdpPing)
  | onConnected
  | onDisconnected
  | onPingStats (fromClient toClient : PacketStats)

structure LoopState where
  tracked : Tracked.ServerState := {}
  codec : FancyCodec := .legacy
  serverPacketStats : PacketStats := {}

namespace Parts

variable (parts : Parts Rest UdpPing Command)

def update : ControlMessage Rest → Tracked.Update
  | ⟨.version, version⟩ => .version (parts.version version)
  | ⟨.serverSync, sync⟩ => .serverSync (parts.serverSync sync)
  | ⟨.userState, state⟩ =>
      .userState { parts.userState state.rest with session := state.session }
  | ⟨.userRemove, remove⟩ => .userRemove remove.session
  | ⟨.channelState, state⟩ => .channelState (parts.channelState state)
  | ⟨.channelRemove, remove⟩ => .channelRemove (parts.channelRemove remove)
  | ⟨.permissionQuery, pq⟩ => .permissionQuery (parts.permissionQuery pq)
  | _ => .other

def handleControlMessage (fromClient : PacketStats) (msg : ControlMessage Rest) (s : LoopState) :
    LoopState × List (Callback Rest UdpPing) :=
  let s := { s with tracked := s.tracked.step (parts.update msg) }
  match msg with
  | ⟨.ping, ping⟩ =>
      let p := parts.ping ping
      let toClient : PacketStats :=
        { good := p.good.getD 0, late := p.late.getD 0, lost := p.lost.getD 0,
          resync := p.resync.getD 0 }
      ({ s with serverPacketStats := toClient },
        [.onPingStats fromClient toClient, .onControlMessage msg])
  | ⟨.serverSync, _⟩ => (s, [.onConnected, .onControlMessage msg])
  | msg => (s, [.onControlMessage msg])

def call (fromClient : PacketStats) (s : LoopState) :
    DispatchCall Rest → LoopState × List (Callback Rest UdpPing)
  | .tunnelAudio data =>
      match decodeTunnelAudio parts.prost data with
      | .ok audio => (s, [.onUdpMessage (.audio audio)])
      | .err _ => (s, [])
      | .panicked => (s, [])
  | .handleCryptSetup _ => (s, [])
  | .handleControlMessage msg => parts.handleControlMessage fromClient msg s
  | .selectCodec => ({ s with codec := selectCodec s.tracked.connection.serverFancyVersion }, [])
  | .sendUdpPing => (s, [])
  | .onDisconnected => (s, [.onDisconnected])

def calls (fromClient : PacketStats) (s : LoopState) :
    List (DispatchCall Rest) → LoopState × List (Callback Rest UdpPing)
  | [] => (s, [])
  | next :: rest =>
      let (s, first) := parts.call fromClient s next
      let (s, others) := calls fromClient s rest
      (s, first ++ others)

def encode (s : LoopState) (msg : ControlMessage Rest) : Option (ControlMessage Rest) :=
  s.codec.encode parts.protobuf msg (parts.codecView s.tracked)

end Parts

/-! ## The tasks -/

inductive Poll where
  | udp
  | tcp
  | command
  | audioOut
  | forceTcp
  | reader

inductive Phase (Rest : TcpMessageType → Type) (UdpPing : Type) where
  | polling (poll : Poll)
  | sending (tcp : List (ControlMessage Rest)) (udp : List (UdpMessage UdpPing))
      (disconnect : Bool)
  | stopped

inductive Origin where
  | command
  | tunnel
  | ping
  | resync
deriving DecidableEq

structure Outgoing (Rest : TcpMessageType → Type) where
  msg : ControlMessage Rest
  origin : Origin

structure Passing (α : Type) where
  hand : Option α := none
  ended : Bool := false

/-- The tasks and the queues between them. Four fields record what has happened: what the reader
has read, what was submitted, what came by UDP, and what was written. -/
structure World (Rest : TcpMessageType → Type) (UdpPing Command : Type) where
  loop : LoopState := {}
  phase : Phase Rest UdpPing := .polling .udp
  /-- `UDP_CHANNEL_SIZE` -/
  udp : Lane (UdpMessage UdpPing) 256 := {}
  /-- `TCP_CHANNEL_SIZE` -/
  tcp : Lane (ControlMessage Rest) 64 := {}
  /-- `CMD_CHANNEL_SIZE` -/
  commands : Lane Command 32 := {}
  /-- `AUDIO_OUT_CHANNEL_SIZE` -/
  audioOut : Lane (UdpMessage UdpPing) 128 := {}
  extCommands : Lane Command 32 := {}
  outbound : Lane (Outgoing Rest) 64 := {}
  reader : Passing (ControlMessage Rest) := {}
  forwarder : Passing Command := {}
  writerEnded : Bool := false
  decryptStats : PacketStats := {}
  forceTcp : Bool := false
  /-- A value of `force_tcp` that the loop has not seen. -/
  forceTcpChange : Option Bool := none
  callbacks : List (Callback Rest UdpPing) := []
  received : List (ControlMessage Rest) := []
  submitted : List Command := []
  heard : List (UdpMessage UdpPing) := []
  wire : List (Outgoing Rest) := []

inductive Action (Rest : TcpMessageType → Type) (UdpPing Command : Type) where
  | read (msg : ControlMessage Rest)
  | passMessage
  | readerEnds
  | submit (command : Command)
  | takeCommand
  | passCommand
  | receiveUdp (msg : UdpMessage UdpPing)
  | publishStats (stats : PacketStats)
  | requestResync
  | sendAudio (msg : UdpMessage UdpPing)
  | setForceTcp (force : Bool)
  | sendPing (msg : Rest .ping)
  | write
  | writeFails
  /-- The loop goes on; a datagram that it sends may fail. -/
  | loop (udpSent : Bool)
  | abortTasks

namespace World

variable (parts : Parts Rest UdpPing Command)

def dispatchItem (w : World Rest UdpPing Command) :
    WorkItem Rest UdpPing Command → World Rest UdpPing Command
  | .serverMessage (.control msg) =>
      let (calls, action) := handleServerMessage parts.protobuf w.loop.codec msg
      let (loop, callbacks) := parts.calls w.decryptStats w.loop calls
      { w with
        loop, callbacks := w.callbacks ++ callbacks
        phase := if action = .breakLoop then .stopped else .polling .udp }
  | .serverMessage (.udp msg) =>
      { w with callbacks := w.callbacks ++ [.onUdpMessage msg], phase := .polling .udp }
  | .userCommand command =>
      let output := parts.execute command w.loop.tracked
      { w with phase := .sending output.tcpMessages output.udpMessages output.disconnect }
  | .shutdown => { w with callbacks := w.callbacks ++ [.onDisconnected], phase := .stopped }

def trySend (origin : Origin) (msg : ControlMessage Rest) (w : World Rest UdpPing Command) :
    World Rest UdpPing Command :=
  if w.writerEnded then w
  else
    match w.outbound.push? { msg, origin } with
    | some outbound => { w with outbound }
    | none => w

def tunnel (audio : Audio) : ControlMessage Rest :=
  ⟨.udpTunnel, ProtobufAudioCodec.encode parts.prost audio⟩

def sendOneAudioPacket (udpSent : Bool) (w : World Rest UdpPing Command) :
    UdpMessage UdpPing → World Rest UdpPing Command
  | .ping _ => w
  | .audio audio => if udpSent then w else w.trySend .tunnel (tunnel parts audio)

/-- One poll of the loop. When nothing is there it starts again, as soon as it is woken. -/
def poll (udpSent : Bool) (w : World Rest UdpPing Command) : Poll → World Rest UdpPing Command
  | .udp =>
      match w.udp.pop? with
      | some (msg, udp) => { w with udp }.dispatchItem parts (.serverMessage (.udp msg))
      | none => { w with phase := .polling .tcp }
  | .tcp =>
      match w.tcp.pop? with
      | some (msg, tcp) => { w with tcp }.dispatchItem parts (.serverMessage (.control msg))
      | none => { w with phase := .polling .command }
  | .command =>
      match w.commands.pop? with
      | some (command, commands) =>
          { w with commands }.dispatchItem parts (.userCommand command)
      | none => { w with phase := .polling .audioOut }
  | .audioOut =>
      match w.audioOut.pop? with
      | some (msg, audioOut) =>
          ({ w with audioOut, phase := .polling .udp }).sendOneAudioPacket parts udpSent msg
      | none => { w with phase := .polling .forceTcp }
  | .forceTcp =>
      match w.forceTcpChange with
      | some forceTcp =>
          { w with forceTcp, forceTcpChange := none, phase := .polling .udp }
      | none => { w with phase := .polling .reader }
  | .reader =>
      if w.reader.ended then w.dispatchItem parts .shutdown
      else { w with phase := .polling .udp }

/-- The loop sends a message of the command, waiting for room. When the writer has ended the
rest is dropped. -/
def sendTcp (msg : ControlMessage Rest) (tcp : List (ControlMessage Rest))
    (udp : List (UdpMessage UdpPing)) (disconnect : Bool) (w : World Rest UdpPing Command) :
    World Rest UdpPing Command :=
  match parts.encode w.loop msg with
  | none => { w with phase := .sending tcp udp disconnect }
  | some msg =>
      if w.writerEnded then { w with phase := .sending [] udp disconnect }
      else
        match w.outbound.push? { msg, origin := .command } with
        | some outbound => { w with outbound, phase := .sending tcp udp disconnect }
        | none => w

def sendUdp (udpSent : Bool) (msg : UdpMessage UdpPing) (udp : List (UdpMessage UdpPing))
    (disconnect : Bool) (w : World Rest UdpPing Command) : World Rest UdpPing Command :=
  match msg with
  | .ping _ => { w with phase := .sending [] udp disconnect }
  | .audio audio =>
      if udpSent then { w with phase := .sending [] udp disconnect }
      else if w.writerEnded then { w with phase := .sending [] [] disconnect }
      else
        match w.outbound.push? { msg := tunnel parts audio, origin := .tunnel } with
        | some outbound => { w with outbound, phase := .sending [] udp disconnect }
        | none => w

def loopStep (udpSent : Bool) (w : World Rest UdpPing Command) : World Rest UdpPing Command :=
  match w.phase with
  | .polling next => w.poll parts udpSent next
  | .sending (msg :: tcp) udp disconnect => w.sendTcp parts msg tcp udp disconnect
  | .sending [] (msg :: udp) disconnect => w.sendUdp parts udpSent msg udp disconnect
  | .sending [] [] disconnect =>
      if disconnect then
        { w with callbacks := w.callbacks ++ [.onDisconnected], phase := .stopped }
      else { w with phase := .polling .udp }
  | .stopped => w

def step (w : World Rest UdpPing Command) :
    Action Rest UdpPing Command → World Rest UdpPing Command
  | .read msg =>
      if w.reader.hand.isNone && !w.reader.ended then
        { w with
          reader := { w.reader with hand := some msg }
          received := w.received ++ [msg] }
      else w
  | .passMessage =>
      if w.reader.ended then w
      else
        match w.reader.hand.bind w.tcp.push? with
        | some tcp => { w with tcp, reader := { w.reader with hand := none } }
        | none => w
  | .readerEnds => { w with reader := { w.reader with ended := true } }
  | .submit command =>
      if w.forwarder.ended then w
      else
        match w.extCommands.push? command with
        | some extCommands => { w with extCommands, submitted := w.submitted ++ [command] }
        | none => w
  | .takeCommand =>
      if w.forwarder.hand.isNone && !w.forwarder.ended then
        match w.extCommands.pop? with
        | some (command, extCommands) =>
            { w with extCommands, forwarder := { w.forwarder with hand := some command } }
        | none => w
      else w
  | .passCommand =>
      if w.forwarder.ended then w
      else
        match w.forwarder.hand.bind w.commands.push? with
        | some commands => { w with commands, forwarder := { w.forwarder with hand := none } }
        | none => w
  | .receiveUdp msg =>
      match w.udp.push? msg with
      | some udp => { w with udp, heard := w.heard ++ [msg] }
      | none => w
  | .publishStats stats => { w with decryptStats := stats }
  | .requestResync => w.trySend .resync ⟨.cryptSetup, {}⟩
  | .sendAudio msg =>
      match w.audioOut.push? msg with
      | some audioOut => { w with audioOut }
      | none => w
  | .setForceTcp force => { w with forceTcpChange := some force }
  | .sendPing msg => w.trySend .ping ⟨.ping, msg⟩
  | .write =>
      if w.writerEnded then w
      else
        match w.outbound.pop? with
        | some (outgoing, outbound) => { w with outbound, wire := w.wire ++ [outgoing] }
        | none => w
  | .writeFails => { w with writerEnded := true, outbound := {} }
  | .loop udpSent => w.loopStep parts udpSent
  | .abortTasks =>
      match w.phase with
      | .stopped =>
          { w with
            reader := { w.reader with ended := true }
            forwarder := { w.forwarder with ended := true }
            writerEnded := true
            outbound := {} }
      | .polling _ | .sending _ _ _ => w

end World

/-! ## One item after the other -/

structure Served (Rest : TcpMessageType → Type) (UdpPing Command : Type) where
  item : WorkItem Rest UdpPing Command
  stats : PacketStats := {}

def Served.control? : Served Rest UdpPing Command → Option (ControlMessage Rest)
  | ⟨.serverMessage (.control msg), _⟩ => some msg
  | _ => none

def Served.udp? : Served Rest UdpPing Command → Option (UdpMessage UdpPing)
  | ⟨.serverMessage (.udp msg), _⟩ => some msg
  | _ => none

def Served.command? : Served Rest UdpPing Command → Option Command
  | ⟨.userCommand command, _⟩ => some command
  | _ => none

/-- A client without tasks and queues: what it keeps, what it has sent for its commands, the
calls of the handler, and whether it has ended. -/
structure Serial (Rest : TcpMessageType → Type) (UdpPing : Type) where
  loop : LoopState := {}
  sent : List (ControlMessage Rest) := []
  callbacks : List (Callback Rest UdpPing) := []
  ended : Bool := false

namespace Serial

variable (parts : Parts Rest UdpPing Command)

def serve (s : Serial Rest UdpPing) (served : Served Rest UdpPing Command) :
    Serial Rest UdpPing :=
  match served.item with
  | .serverMessage (.control msg) =>
      let (calls, action) := handleServerMessage parts.protobuf s.loop.codec msg
      let (loop, callbacks) := parts.calls served.stats s.loop calls
      { s with loop, callbacks := s.callbacks ++ callbacks, ended := action = .breakLoop }
  | .serverMessage (.udp msg) => { s with callbacks := s.callbacks ++ [.onUdpMessage msg] }
  | .userCommand command =>
      let output := parts.execute command s.loop.tracked
      { s with
        sent := s.sent ++ output.tcpMessages.filterMap (parts.encode s.loop)
        callbacks := s.callbacks ++ if output.disconnect then [.onDisconnected] else []
        ended := output.disconnect }
  | .shutdown => { s with callbacks := s.callbacks ++ [.onDisconnected], ended := true }

def after (items : List (Served Rest UdpPing Command)) : Serial Rest UdpPing :=
  run (serve parts) {} items

def Goes (items : List (Served Rest UdpPing Command)) : Prop :=
  Along (serve parts) (fun s _ => s.ended = false) {} items

variable {parts} {items : List (Served Rest UdpPing Command)}
  {served : Served Rest UdpPing Command}

theorem after_concat :
    after parts (items ++ [served]) = (after parts items).serve parts served := by
  rw [after, run_append]
  rfl

theorem goes_concat (h : Goes parts items) (hended : (after parts items).ended = false) :
    Goes parts (items ++ [served]) :=
  along_append.mpr ⟨h, hended, trivial⟩

end Serial

/-! ## What is under way -/

def ofCommands (outgoing : List (Outgoing Rest)) : List (ControlMessage Rest) :=
  outgoing.filterMap fun next => if next.origin = .command then some next.msg else none

namespace Phase

def unsent (parts : Parts Rest UdpPing Command) (s : LoopState) :
    Phase Rest UdpPing → List (ControlMessage Rest)
  | .polling _ => []
  | .sending tcp _ _ => tcp.filterMap (parts.encode s)
  | .stopped => []

def uncalled : Phase Rest UdpPing → List (Callback Rest UdpPing)
  | .polling _ => []
  | .sending _ _ disconnect => if disconnect then [.onDisconnected] else []
  | .stopped => []

def ends : Phase Rest UdpPing → Bool
  | .polling _ => false
  | .sending _ _ disconnect => disconnect
  | .stopped => true

end Phase

variable {parts : Parts Rest UdpPing Command}

structure Flows (w : World Rest UdpPing Command) (items : List (Served Rest UdpPing Command)) :
    Prop where
  /-- What was read is served, or in the queue, or in the hand of the reader. -/
  received : items.filterMap Served.control? ++ w.tcp.items ++ w.reader.hand.toList = w.received
  submitted : items.filterMap Served.command? ++ w.commands.items ++ w.forwarder.hand.toList ++
    w.extCommands.items = w.submitted
  heard : items.filterMap Served.udp? ++ w.udp.items = w.heard

/-- The client is where the client without tasks is, up to what is under way. -/
structure Follows (parts : Parts Rest UdpPing Command) (w : World Rest UdpPing Command)
    (s : Serial Rest UdpPing) : Prop where
  loop : w.loop = s.loop
  callbacks : w.callbacks ++ w.phase.uncalled = s.callbacks
  ended : w.phase.ends = s.ended
  /-- As long as the writer is there, what is not written yet is on its way. -/
  sent : w.writerEnded = false →
    ofCommands w.wire ++ ofCommands w.outbound.items ++ w.phase.unsent parts w.loop = s.sent
  written : ofCommands w.wire <+: s.sent

/-- The client is where serving the items one after the other leads, and the items are what has
come out of the queues. -/
structure Refines (parts : Parts Rest UdpPing Command) (w : World Rest UdpPing Command)
    (items : List (Served Rest UdpPing Command)) : Prop where
  goes : Serial.Goes parts items
  flows : Flows w items
  follows : Follows parts w (Serial.after parts items)

variable {w w' : World Rest UdpPing Command} {items : List (Served Rest UdpPing Command)}
  {s : Serial Rest UdpPing}

theorem refines_start : Refines parts {} [] where
  goes := trivial
  flows := ⟨rfl, rfl, rfl⟩
  follows := ⟨rfl, rfl, rfl, fun _ => rfl, List.nil_prefix⟩

theorem ofCommands_append (before after : List (Outgoing Rest)) :
    ofCommands (before ++ after) = ofCommands before ++ ofCommands after :=
  List.filterMap_append

/-! ## Steps of the loop -/

/-- What is under way depends on the phase only. -/
theorem Follows.at_phase (h : Follows parts w s) {phase : Phase Rest UdpPing}
    (hphase : w.phase = phase) :
    w.callbacks ++ phase.uncalled = s.callbacks ∧ phase.ends = s.ended ∧
      (w.writerEnded = false → ofCommands w.wire ++ ofCommands w.outbound.items ++
        phase.unsent parts w.loop = s.sent) := by
  subst hphase
  exact ⟨h.callbacks, h.ended, h.sent⟩

theorem Follows.of_polling (h : Follows parts w s) {next : Poll}
    (hphase : w.phase = .polling next) :
    w.callbacks = s.callbacks ∧ s.ended = false ∧
      (w.writerEnded = false → ofCommands w.wire ++ ofCommands w.outbound.items = s.sent) := by
  obtain ⟨hcallbacks, hended, hsent⟩ := h.at_phase hphase
  exact ⟨(List.append_nil _).symm.trans hcallbacks, hended.symm,
    fun hwriter => (List.append_nil _).symm.trans (hsent hwriter)⟩

theorem follows_polling (h : Follows parts w s) {next : Poll} (hphase : w.phase = .polling next)
    (later : Poll) : Follows parts { w with phase := .polling later } s where
  loop := h.loop
  callbacks := (List.append_nil _).trans (h.of_polling hphase).1
  ended := (h.of_polling hphase).2.1.symm
  sent := fun hwriter => (List.append_nil _).trans ((h.of_polling hphase).2.2 hwriter)
  written := h.written

theorem follows_trySend (h : Follows parts w s) {origin : Origin} (horigin : origin ≠ .command)
    (msg : ControlMessage Rest) : Follows parts (w.trySend origin msg) s := by
  unfold World.trySend
  split
  next => exact h
  next =>
    split
    next outbound hpush =>
      refine { h with sent := fun hwriter => ?_ }
      rw [← h.sent hwriter, Lane.items_of_push? hpush, ofCommands_append]
      simp [ofCommands, horigin]
    next => exact h

theorem flows_trySend (h : Flows w items) (origin : Origin) (msg : ControlMessage Rest) :
    Flows (w.trySend origin msg) items := by
  unfold World.trySend
  split
  next => exact h
  next =>
    split
    next => exact { h with }
    next => exact h

theorem follows_sendOneAudioPacket (h : Follows parts w s) (udpSent : Bool)
    (msg : UdpMessage UdpPing) : Follows parts (w.sendOneAudioPacket parts udpSent msg) s := by
  cases msg with
  | ping _ => exact h
  | audio audio =>
      cases udpSent with
      | true => exact h
      | false => exact follows_trySend h (by decide : Origin.tunnel ≠ .command) _

theorem flows_sendOneAudioPacket (udpSent : Bool) (msg : UdpMessage UdpPing) (h : Flows w items) :
    Flows (w.sendOneAudioPacket parts udpSent msg) items := by
  cases msg with
  | ping _ => exact h
  | audio audio =>
      cases udpSent with
      | true => exact h
      | false => exact flows_trySend h _ _

theorem follows_dispatchItem (h : Follows parts w s) {next : Poll}
    (hphase : w.phase = .polling next) (item : WorkItem Rest UdpPing Command) :
    Follows parts (w.dispatchItem parts item) (s.serve parts ⟨item, w.decryptStats⟩) := by
  obtain ⟨hcallbacks, hended, hsent⟩ := h.of_polling hphase
  cases item with
  | serverMessage msg =>
      cases msg with
      | control msg =>
          simp only [World.dispatchItem, Serial.serve, ← h.loop, ← hcallbacks]
          cases (handleServerMessage parts.protobuf w.loop.codec msg).2 with
          | continueLoop =>
              exact ⟨rfl, List.append_nil _, rfl,
                fun hwriter => (List.append_nil _).trans (hsent hwriter), h.written⟩
          | breakLoop =>
              exact ⟨rfl, List.append_nil _, rfl,
                fun hwriter => (List.append_nil _).trans (hsent hwriter), h.written⟩
      | udp msg =>
          simp only [World.dispatchItem, Serial.serve, ← hcallbacks]
          exact ⟨h.loop, List.append_nil _, hended.symm,
            fun hwriter => (List.append_nil _).trans (hsent hwriter), h.written⟩
  | userCommand command =>
      simp only [World.dispatchItem, Serial.serve, ← h.loop, ← hcallbacks]
      exact ⟨rfl, rfl, rfl, fun hwriter => congrArg (· ++ _) (hsent hwriter),
        h.written.trans (List.prefix_append _ _)⟩
  | shutdown =>
      simp only [World.dispatchItem, Serial.serve, ← hcallbacks]
      exact ⟨h.loop, List.append_nil _, rfl,
        fun hwriter => (List.append_nil _).trans (hsent hwriter), h.written⟩

theorem flows_dispatchItem (item : WorkItem Rest UdpPing Command) (h : Flows w items) :
    Flows (w.dispatchItem parts item) items := by
  cases item with
  | serverMessage msg => cases msg <;> exact ⟨h.received, h.submitted, h.heard⟩
  | userCommand _ => exact ⟨h.received, h.submitted, h.heard⟩
  | shutdown => exact ⟨h.received, h.submitted, h.heard⟩

/-- An item comes out of its queue, and the other queues stay as they are. -/
theorem flows_concat (h : Flows w items) {served : Served Rest UdpPing Command}
    {tcp : Lane (ControlMessage Rest) 64} {commands : Lane Command 32}
    {udp : Lane (UdpMessage UdpPing) 256}
    (htcp : w.tcp.items = served.control?.toList ++ tcp.items)
    (hcommands : w.commands.items = served.command?.toList ++ commands.items)
    (hudp : w.udp.items = served.udp?.toList ++ udp.items) :
    Flows { w with tcp, commands, udp } (items ++ [served]) := by
  have hlast {β : Type} (f : Served Rest UdpPing Command → Option β) :
      (items ++ [served]).filterMap f = items.filterMap f ++ (f served).toList := by
    rw [List.filterMap_append]
    cases hserved : f served <;> simp [hserved]
  refine ⟨?_, ?_, ?_⟩
  · rw [← h.received, htcp, hlast, List.append_assoc (items.filterMap _)]
  · rw [← h.submitted, hcommands, hlast, List.append_assoc (items.filterMap _)]
  · rw [← h.heard, hudp, hlast, List.append_assoc]

theorem refines_dispatchItem (h : Refines parts w items) {next : Poll}
    (hphase : w.phase = .polling next) {item : WorkItem Rest UdpPing Command}
    (hfollows : Follows parts w' (Serial.after parts items)) (hsame : w'.phase = w.phase)
    (hflows : Flows w' (items ++ [⟨item, w'.decryptStats⟩])) :
    ∃ items, Refines parts (w'.dispatchItem parts item) items := by
  refine ⟨items ++ [⟨item, w'.decryptStats⟩], ?_, flows_dispatchItem item hflows, ?_⟩
  · exact Serial.goes_concat h.goes ((h.follows.of_polling hphase).2.1)
  · rw [Serial.after_concat]
    exact follows_dispatchItem hfollows (hsame.trans hphase) item

theorem refines_poll (h : Refines parts w items) {next : Poll} (hphase : w.phase = .polling next)
    (udpSent : Bool) : ∃ items, Refines parts (w.poll parts udpSent next) items := by
  have hgoes : ∀ later, ∃ items, Refines parts { w with phase := .polling later } items :=
    fun later => ⟨items, h.goes, ⟨h.flows.received, h.flows.submitted, h.flows.heard⟩,
      follows_polling h.follows hphase later⟩
  cases next with
  | udp =>
      simp only [World.poll]
      cases hpop : w.udp.pop? with
      | none => exact hgoes .tcp
      | some popped =>
          obtain ⟨msg, udp⟩ := popped
          have hfollows : Follows parts { w with udp } (Serial.after parts items) :=
            { h.follows with }
          exact refines_dispatchItem h hphase hfollows rfl
            (flows_concat h.flows rfl rfl (Lane.items_of_pop? hpop))
  | tcp =>
      simp only [World.poll]
      cases hpop : w.tcp.pop? with
      | none => exact hgoes .command
      | some popped =>
          obtain ⟨msg, tcp⟩ := popped
          have hfollows : Follows parts { w with tcp } (Serial.after parts items) :=
            { h.follows with }
          exact refines_dispatchItem h hphase hfollows rfl
            (flows_concat h.flows (Lane.items_of_pop? hpop) rfl rfl)
  | command =>
      simp only [World.poll]
      cases hpop : w.commands.pop? with
      | none => exact hgoes .audioOut
      | some popped =>
          obtain ⟨command, commands⟩ := popped
          have hfollows : Follows parts { w with commands } (Serial.after parts items) :=
            { h.follows with }
          exact refines_dispatchItem h hphase hfollows rfl
            (flows_concat h.flows rfl (Lane.items_of_pop? hpop) rfl)
  | audioOut =>
      simp only [World.poll]
      cases hpop : w.audioOut.pop? with
      | none => exact hgoes .forceTcp
      | some popped =>
          obtain ⟨msg, audioOut⟩ := popped
          obtain ⟨items, hrefines⟩ := hgoes .udp
          have hflows : Flows { w with audioOut, phase := .polling .udp } items :=
            { hrefines.flows with }
          have hfollows : Follows parts { w with audioOut, phase := .polling .udp }
            (Serial.after parts items) := { hrefines.follows with }
          exact ⟨items, hrefines.goes, flows_sendOneAudioPacket udpSent msg hflows,
            follows_sendOneAudioPacket hfollows udpSent msg⟩
  | forceTcp =>
      simp only [World.poll]
      split
      next =>
        exact ⟨items, h.goes, ⟨h.flows.received, h.flows.submitted, h.flows.heard⟩,
          { follows_polling h.follows hphase .udp with }⟩
      next => exact hgoes .reader
  | reader =>
      simp only [World.poll]
      split
      next =>
        exact refines_dispatchItem h hphase h.follows rfl (flows_concat h.flows rfl rfl rfl)
      next => exact hgoes .udp

theorem follows_sendTcp (h : Follows parts w s) {msg : ControlMessage Rest}
    {tcp : List (ControlMessage Rest)} {udp : List (UdpMessage UdpPing)} {disconnect : Bool}
    (hphase : w.phase = .sending (msg :: tcp) udp disconnect) :
    Follows parts (w.sendTcp parts msg tcp udp disconnect) s := by
  obtain ⟨hcallbacks, hended, hsent⟩ := h.at_phase hphase
  simp only [Phase.unsent] at hsent
  unfold World.sendTcp
  split
  next hdropped =>
    rw [List.filterMap_cons_none hdropped] at hsent
    exact ⟨h.loop, hcallbacks, hended, hsent, h.written⟩
  next encoded hencoded =>
    rw [List.filterMap_cons_some hencoded] at hsent
    split
    next hwriter => exact ⟨h.loop, hcallbacks, hended, fun hopen => by simp_all, h.written⟩
    next =>
      split
      next outbound hpush =>
        refine ⟨h.loop, hcallbacks, hended, fun hopen => ?_, h.written⟩
        rw [← hsent hopen, Lane.items_of_push? hpush, ofCommands_append]
        simp [ofCommands, Phase.unsent]
      next => exact h

theorem follows_sendUdp (h : Follows parts w s) {msg : UdpMessage UdpPing}
    {udp : List (UdpMessage UdpPing)} {disconnect udpSent : Bool}
    (hphase : w.phase = .sending [] (msg :: udp) disconnect) :
    Follows parts (w.sendUdp parts udpSent msg udp disconnect) s := by
  obtain ⟨hcallbacks, hended, hsent⟩ := h.at_phase hphase
  unfold World.sendUdp
  split
  next => exact ⟨h.loop, hcallbacks, hended, hsent, h.written⟩
  next audio =>
    split
    next => exact ⟨h.loop, hcallbacks, hended, hsent, h.written⟩
    next =>
      split
      next => exact ⟨h.loop, hcallbacks, hended, hsent, h.written⟩
      next =>
        split
        next outbound hpush =>
          refine ⟨h.loop, hcallbacks, hended, fun hopen => ?_, h.written⟩
          rw [← hsent hopen, Lane.items_of_push? hpush, ofCommands_append]
          simp [ofCommands, Phase.unsent]
        next => exact h

theorem flows_sendTcp (h : Flows w items) (msg : ControlMessage Rest)
    (tcp : List (ControlMessage Rest)) (udp : List (UdpMessage UdpPing)) (disconnect : Bool) :
    Flows (w.sendTcp parts msg tcp udp disconnect) items := by
  unfold World.sendTcp
  split
  next => exact { h with }
  next =>
    split
    next => exact { h with }
    next => split <;> exact { h with }

theorem flows_sendUdp (h : Flows w items) (udpSent : Bool) (msg : UdpMessage UdpPing)
    (udp : List (UdpMessage UdpPing)) (disconnect : Bool) :
    Flows (w.sendUdp parts udpSent msg udp disconnect) items := by
  unfold World.sendUdp
  split
  next => exact { h with }
  next =>
    split
    next => exact { h with }
    next =>
      split
      next => exact { h with }
      next => split <;> exact { h with }

theorem refines_loopStep (h : Refines parts w items) (udpSent : Bool) :
    ∃ items, Refines parts (w.loopStep parts udpSent) items := by
  unfold World.loopStep
  split
  next hphase => exact refines_poll h hphase udpSent
  next hphase =>
    exact ⟨items, h.goes, flows_sendTcp h.flows _ _ _ _, follows_sendTcp h.follows hphase⟩
  next hphase =>
    exact ⟨items, h.goes, flows_sendUdp h.flows _ _ _ _, follows_sendUdp h.follows hphase⟩
  next disconnect hphase =>
    obtain ⟨hcallbacks, hended, hsent⟩ := h.follows.at_phase hphase
    split
    next hdisconnect =>
      subst hdisconnect
      exact ⟨items, h.goes, { h.flows with }, h.follows.loop,
        (List.append_nil _).trans hcallbacks, hended, hsent, h.follows.written⟩
    next hstays =>
      rw [Bool.not_eq_true] at hstays
      subst hstays
      exact ⟨items, h.goes, { h.flows with }, h.follows.loop, hcallbacks, hended, hsent,
        h.follows.written⟩
  next => exact ⟨items, h⟩

/-! ## Runs -/

theorem refines_step (h : Refines parts w items) (action : Action Rest UdpPing Command) :
    ∃ items, Refines parts (w.step parts action) items := by
  cases action with
  | loop udpSent => exact refines_loopStep h udpSent
  | read msg =>
      refine ⟨items, h.goes, ?_, ?_⟩
      · simp only [World.step]
        split
        next hidle =>
          rw [Bool.and_eq_true, Option.isNone_iff_eq_none] at hidle
          refine { h.flows with received := ?_ }
          rw [← h.flows.received, hidle.1]
          simp
        next => exact h.flows
      · simp only [World.step]
        split
        next => exact { h.follows with }
        next => exact h.follows
  | passMessage =>
      simp only [World.step]
      split
      next => exact ⟨items, h⟩
      next =>
        split
        next tcp hpush =>
          obtain ⟨msg, hhand, hpush⟩ := Option.bind_eq_some_iff.mp hpush
          refine ⟨items, h.goes, { h.flows with received := ?_ }, { h.follows with }⟩
          rw [← h.flows.received, hhand, Lane.items_of_push? hpush]
          simp
        next => exact ⟨items, h⟩
  | readerEnds => exact ⟨items, h.goes, { h.flows with }, { h.follows with }⟩
  | submit command =>
      simp only [World.step]
      split
      next => exact ⟨items, h⟩
      next =>
        split
        next extCommands hpush =>
          refine ⟨items, h.goes, { h.flows with submitted := ?_ }, { h.follows with }⟩
          rw [← h.flows.submitted, Lane.items_of_push? hpush]
          simp
        next => exact ⟨items, h⟩
  | takeCommand =>
      simp only [World.step]
      split
      next hidle =>
        rw [Bool.and_eq_true, Option.isNone_iff_eq_none] at hidle
        split
        next command extCommands hpop =>
          refine ⟨items, h.goes, { h.flows with submitted := ?_ }, { h.follows with }⟩
          rw [← h.flows.submitted, hidle.1, Lane.items_of_pop? hpop]
          simp
        next => exact ⟨items, h⟩
      next => exact ⟨items, h⟩
  | passCommand =>
      simp only [World.step]
      split
      next => exact ⟨items, h⟩
      next =>
        split
        next commands hpush =>
          obtain ⟨command, hhand, hpush⟩ := Option.bind_eq_some_iff.mp hpush
          refine ⟨items, h.goes, { h.flows with submitted := ?_ }, { h.follows with }⟩
          rw [← h.flows.submitted, hhand, Lane.items_of_push? hpush]
          simp
        next => exact ⟨items, h⟩
  | receiveUdp msg =>
      simp only [World.step]
      split
      next udp hpush =>
        refine ⟨items, h.goes, { h.flows with heard := ?_ }, { h.follows with }⟩
        rw [← h.flows.heard, Lane.items_of_push? hpush, List.append_assoc]
      next => exact ⟨items, h⟩
  | publishStats stats => exact ⟨items, h.goes, { h.flows with }, { h.follows with }⟩
  | requestResync =>
      exact ⟨items, h.goes, flows_trySend h.flows _ _,
        follows_trySend h.follows (by decide : Origin.resync ≠ .command) _⟩
  | sendAudio msg =>
      simp only [World.step]
      split
      next => exact ⟨items, h.goes, { h.flows with }, { h.follows with }⟩
      next => exact ⟨items, h⟩
  | setForceTcp force => exact ⟨items, h.goes, { h.flows with }, { h.follows with }⟩
  | sendPing msg =>
      exact ⟨items, h.goes, flows_trySend h.flows _ _,
        follows_trySend h.follows (by decide : Origin.ping ≠ .command) _⟩
  | write =>
      simp only [World.step]
      split
      next => exact ⟨items, h⟩
      next hopen =>
        rw [Bool.not_eq_true] at hopen
        split
        next outgoing outbound hpop =>
          have hsent : ofCommands (w.wire ++ [outgoing]) ++ ofCommands outbound.items ++
              w.phase.unsent parts w.loop = (Serial.after parts items).sent := by
            rw [← h.follows.sent hopen, Lane.items_of_pop? hpop, ← ofCommands_append,
              ← ofCommands_append, List.append_assoc w.wire, List.singleton_append]
          refine ⟨items, h.goes, { h.flows with },
            { h.follows with sent := fun _ => hsent, written := ?_ }⟩
          exact ⟨_, (List.append_assoc _ _ _).symm.trans hsent⟩
        next => exact ⟨items, h⟩
  | writeFails =>
      exact ⟨items, h.goes, { h.flows with },
        { h.follows with sent := fun hopen => Bool.noConfusion hopen }⟩
  | abortTasks =>
      simp only [World.step]
      split
      next hphase =>
        exact ⟨items, h.goes, { h.flows with },
          { h.follows with sent := fun hopen => Bool.noConfusion hopen }⟩
      next => exact ⟨items, h⟩
      next => exact ⟨items, h⟩

theorem exists_refines (parts : Parts Rest UdpPing Command)
    (actions : List (Action Rest UdpPing Command)) :
    ∃ items, Refines parts (run (World.step parts) {} actions) items := by
  have hstep : ∀ (w : World Rest UdpPing Command) action, (∃ items, Refines parts w items) →
      ∃ items, Refines parts (w.step parts action) items := by
    rintro w action ⟨items, h⟩
    exact refines_step h action
  exact invariant_always hstep ⟨[], refines_start⟩

/-! ## What the client knows -/

def Parts.announcement (parts : Parts Rest UdpPing Command) (msg : ControlMessage Rest) :
    Tracked.Update :=
  parts.update (FancyCodec.legacyDecode parts.protobuf msg)

def CodecChosen (s : LoopState) : Prop :=
  s.codec = selectCodec s.tracked.connection.serverFancyVersion

def ToldAtEnd (callbacks : List (Callback Rest UdpPing)) (ended : Bool) : Prop :=
  if ended then ∃ before, callbacks = before ++ [.onDisconnected] ∧ .onDisconnected ∉ before
  else .onDisconnected ∉ callbacks

theorem ofVersion_update {msg : ControlMessage Rest} (h : msg.messageType ≠ .version) :
    Tracked.ofVersion (parts.update msg) = none := by
  unfold Parts.update
  split
  next => exact absurd rfl h
  all_goals rfl

theorem handleControlMessage_eq (parts : Parts Rest UdpPing Command) (fromClient : PacketStats)
    (msg : ControlMessage Rest) (s : LoopState) :
    (parts.handleControlMessage fromClient msg s).1.tracked = s.tracked.step (parts.update msg) ∧
      (parts.handleControlMessage fromClient msg s).1.codec = s.codec ∧
      .onDisconnected ∉ (parts.handleControlMessage fromClient msg s).2 := by
  unfold Parts.handleControlMessage
  split
  next => exact ⟨rfl, rfl, by simp⟩
  next => exact ⟨rfl, rfl, by simp⟩
  next => exact ⟨rfl, rfl, by simp⟩

theorem codecChosen_handleControlMessage {s : LoopState} (h : CodecChosen s)
    (fromClient : PacketStats) (msg : ControlMessage Rest) (htype : msg.messageType ≠ .version) :
    CodecChosen (parts.handleControlMessage fromClient msg s).1 := by
  obtain ⟨htracked, hcodec, -⟩ := handleControlMessage_eq parts fromClient msg s
  rw [CodecChosen, hcodec, htracked, Tracked.ServerState.connection_step, ofVersion_update htype]
  exact h

theorem calls_dispatch (parts : Parts Rest UdpPing Command) (fromClient : PacketStats)
    (msg : ControlMessage Rest) (s : LoopState) :
    (parts.calls fromClient s (dispatch msg).1).1.tracked =
        s.tracked.step (parts.update msg) ∧
      (CodecChosen s → CodecChosen (parts.calls fromClient s (dispatch msg).1).1) ∧
      ToldAtEnd (parts.calls fromClient s (dispatch msg).1).2
        ((dispatch msg).2 = .breakLoop) := by
  have handled := handleControlMessage_eq parts fromClient msg s
  unfold dispatch
  split
  next data =>
    simp only [Parts.calls, Parts.call]
    split <;> exact ⟨rfl, id, by simp [ToldAtEnd]⟩
  next setup =>
    refine ⟨handled.1, fun h => ?_, ?_⟩
    · exact codecChosen_handleControlMessage h fromClient ⟨.cryptSetup, setup⟩ nofun
    · simpa [ToldAtEnd, Parts.calls, Parts.call] using handled.2.2
  next version =>
    refine ⟨handled.1, fun _ => rfl, ?_⟩
    simpa [ToldAtEnd, Parts.calls, Parts.call] using handled.2.2
  next ping =>
    refine ⟨handled.1, fun h => ?_, ?_⟩
    · exact codecChosen_handleControlMessage h fromClient ⟨.ping, ping⟩ nofun
    · simpa [ToldAtEnd, Parts.calls, Parts.call] using handled.2.2
  next reject =>
    refine ⟨handled.1, fun h => ?_, ?_⟩
    · exact codecChosen_handleControlMessage h fromClient ⟨.reject, reject⟩ nofun
    · simpa [ToldAtEnd, Parts.calls, Parts.call] using handled.2.2
  next hversion _ _ =>
    refine ⟨handled.1, fun h => ?_, ?_⟩
    · refine codecChosen_handleControlMessage h fromClient msg fun htype => ?_
      obtain ⟨messageType, payload⟩ := msg
      subst htype
      exact hversion payload rfl
    · simpa [ToldAtEnd, Parts.calls, Parts.call] using handled.2.2

structure Informed (parts : Parts Rest UdpPing Command) (s : Serial Rest UdpPing)
    (items : List (Served Rest UdpPing Command)) : Prop where
  tracked : s.loop.tracked =
    run Tracked.ServerState.step {} ((items.filterMap Served.control?).map parts.announcement)
  codec : CodecChosen s.loop
  told : ToldAtEnd s.callbacks s.ended

theorem toldAtEnd_append {before after : List (Callback Rest UdpPing)} {ended : Bool}
    (h : .onDisconnected ∉ before) (hafter : ToldAtEnd after ended) :
    ToldAtEnd (before ++ after) ended := by
  unfold ToldAtEnd at hafter ⊢
  split
  next hended =>
    rw [if_pos hended] at hafter
    obtain ⟨calls, rfl, hcalls⟩ := hafter
    refine ⟨before ++ calls, (List.append_assoc _ _ _).symm, ?_⟩
    rw [List.mem_append]
    exact fun hmem => hmem.elim h hcalls
  next hgoes =>
    rw [if_neg hgoes] at hafter
    rw [List.mem_append]
    exact fun hmem => hmem.elim h hafter

theorem informed_serve {s : Serial Rest UdpPing} (h : Informed parts s items)
    (hgoes : s.ended = false) (served : Served Rest UdpPing Command) :
    Informed parts (s.serve parts served) (items ++ [served]) := by
  have htold := h.told
  rw [hgoes, ToldAtEnd, if_neg Bool.false_ne_true] at htold
  have htracked : served.control? = none → s.loop.tracked = run Tracked.ServerState.step {}
      (((items ++ [served]).filterMap Served.control?).map parts.announcement) := fun hnone => by
    rw [List.filterMap_append, List.filterMap_cons_none hnone, List.filterMap_nil, List.append_nil]
    exact h.tracked
  obtain ⟨item, stats⟩ := served
  cases item with
  | serverMessage msg =>
      cases msg with
      | control msg =>
          have hdecode : s.loop.codec.decode parts.protobuf msg =
              FancyCodec.legacyDecode parts.protobuf msg := by
            cases s.loop.codec <;> rfl
          obtain ⟨hstep, hcodec, hcalls⟩ := calls_dispatch parts stats
            (s.loop.codec.decode parts.protobuf msg) s.loop
          refine ⟨?_, hcodec h.codec, toldAtEnd_append htold hcalls⟩
          have hupdate : parts.update (s.loop.codec.decode parts.protobuf msg) =
              parts.announcement msg := congrArg parts.update hdecode
          rw [List.filterMap_append, List.map_append, run_append, ← h.tracked]
          exact hstep.trans (congrArg s.loop.tracked.step hupdate)
      | udp msg =>
          refine ⟨htracked rfl, h.codec, toldAtEnd_append htold ?_⟩
          rw [show (s.serve parts ⟨.serverMessage (.udp msg), stats⟩).ended = false from hgoes]
          simp [ToldAtEnd]
  | userCommand command =>
      refine ⟨htracked rfl, h.codec, toldAtEnd_append htold ?_⟩
      simp only [ToldAtEnd, Serial.serve]
      split
      next => exact ⟨[], rfl, List.not_mem_nil⟩
      next => exact List.not_mem_nil
  | shutdown =>
      exact ⟨htracked rfl, h.codec, toldAtEnd_append htold ⟨[], rfl, List.not_mem_nil⟩⟩

theorem informed_after (h : Serial.Goes parts items) :
    Informed parts (Serial.after parts items) items := by
  induction items using List.reverseRecOn with
  | nil => exact ⟨rfl, rfl, List.not_mem_nil⟩
  | append_singleton items served ih =>
      obtain ⟨hgoes, hended, -⟩ := along_append.mp h
      rw [Serial.after_concat]
      exact informed_serve (ih hgoes) hended served

/-- In every run the client serves, in their order, messages that were read and commands that
were submitted, one after the other; its state is what the served messages announce, and its
codec the one for the announced version. -/
theorem serves_in_order (parts : Parts Rest UdpPing Command)
    (actions : List (Action Rest UdpPing Command)) :
    let w := run (World.step parts) {} actions
    ∃ items, Refines parts w items ∧
      w.loop.tracked =
        Tracked.announced ((items.filterMap Served.control?).map parts.announcement) ∧
      w.loop.codec = selectCodec w.loop.tracked.connection.serverFancyVersion := by
  obtain ⟨items, h⟩ := exists_refines parts actions
  have hinformed := informed_after h.goes
  refine ⟨items, h, ?_, ?_⟩
  · rw [h.follows.loop, hinformed.tracked, Tracked.run_step_eq_announced]
  · rw [h.follows.loop]
    exact hinformed.codec

/-- In every run the handler is told of the disconnection once, when the loop has ended, and is
told nothing after that. -/
theorem told_at_end (parts : Parts Rest UdpPing Command)
    (actions : List (Action Rest UdpPing Command)) :
    let w := run (World.step parts) {} actions
    (w.phase = .stopped →
        ∃ before, w.callbacks = before ++ [.onDisconnected] ∧ .onDisconnected ∉ before) ∧
      (w.phase ≠ .stopped → .onDisconnected ∉ w.callbacks) := by
  obtain ⟨items, h⟩ := exists_refines parts actions
  have htold := (informed_after h.goes).told
  rw [← h.follows.callbacks, ← h.follows.ended] at htold
  dsimp only
  cases hphase : (run (World.step parts) {} actions).phase with
  | polling next =>
      rw [hphase] at htold
      refine ⟨fun hstopped => ?_, fun _ => ?_⟩
      · cases hstopped
      · simpa [ToldAtEnd, Phase.ends, Phase.uncalled] using htold
  | sending tcp udp disconnect =>
      rw [hphase] at htold
      refine ⟨fun hstopped => ?_, fun _ => ?_⟩
      · cases hstopped
      · cases disconnect with
        | false => simpa [ToldAtEnd, Phase.ends, Phase.uncalled] using htold
        | true =>
            obtain ⟨before, hcallbacks, hbefore⟩ := htold
            rw [(List.append_inj' hcallbacks rfl).1]
            exact hbefore
  | stopped =>
      rw [hphase] at htold
      refine ⟨fun _ => ?_, fun hne => absurd rfl hne⟩
      simpa [ToldAtEnd, Phase.ends, Phase.uncalled] using htold

end FancyMumble.Client.EventLoop
