import FancyMumble.Lib.Runs
import Mathlib.Data.List.Basic

/-!
# Outgoing audio

The encoder, the outbound pipeline, and the loop that reads the microphone and queues
packets for the send task.
-/

namespace FancyMumble.Audio

open Lib

inductive AudioError where
  | notEnoughSamples
  | opusCodec (message : String)
  | other (message : String)
deriving DecidableEq

/-! ## The encoder -/

structure EncodedPacket where
  data : List UInt8
  sequence : Nat
  frameSamples : Nat
deriving DecidableEq

/-- The encoder, as far as this side keeps it: the codec itself is the opus library's. -/
structure OpusEncoder where
  frameSize : Nat
  sequence : Nat := 0
deriving DecidableEq

def OpusEncoder.encode (self : OpusEncoder) :
    Except String (List UInt8) → Except AudioError EncodedPacket × OpusEncoder
  | .error message => (.error (.opusCodec message), self)
  | .ok data =>
      (.ok { data, sequence := self.sequence, frameSamples := self.frameSize },
        { self with sequence := self.sequence + 1 })

/-! ## The pipeline -/

inductive OutboundTick where
  | audio (packet : EncodedPacket)
  | terminator (packet : EncodedPacket)
  | silence
  | noData
deriving DecidableEq

/-- What a tick meets: what the capture device has, whether the filters let the frame
through and take it for silence, and what the opus library makes of it. -/
inductive Capture where
  | notEnoughSamples
  | failure (err : AudioError)
  | frame (filtered : Except AudioError Bool) (written : Except String (List UInt8))

def Capture.isSilent? : Capture → Option Bool
  | .frame (.ok isSilent) _ => some isSilent
  | _ => none

structure OutboundPipeline where
  encoder : OpusEncoder
  /-- Whether speech was sent on the previous tick. -/
  wasTalking : Bool := false

def OutboundPipeline.tick (self : OutboundPipeline) :
    Capture → Except AudioError OutboundTick × OutboundPipeline
  | .notEnoughSamples => (.ok .noData, self)
  | .failure err => (.error err, self)
  | .frame (.error err) _ => (.error err, self)
  | .frame (.ok true) written =>
      if self.wasTalking then
        -- speech just ended: one last frame as a terminator
        let self := { self with wasTalking := false }
        match self.encoder.encode written with
        | (.ok packet, encoder) => (.ok (.terminator packet), { self with encoder })
        | (.error err, encoder) => (.error err, { self with encoder })
      else (.ok .silence, self)
  | .frame (.ok false) written =>
      let self := { self with wasTalking := true }
      match self.encoder.encode written with
      | (.ok packet, encoder) => (.ok (.audio packet), { self with encoder })
      | (.error err, encoder) => (.error err, { self with encoder })

/-! ## The loop -/

structure AudioPacketOut where
  data : List UInt8
  sequence : Nat
  isTerminator : Bool
deriving DecidableEq

/-- A place on the line to the network. The pauses are not in the channel: they record
where a silent frame was read for which nothing was queued. -/
inductive Slot where
  | packet (packet : AudioPacketOut)
  | pause
deriving DecidableEq

def Slot.isPacket : Slot → Bool
  | .packet _ => true
  | .pause => false

structure OutboundLoop where
  pipeline : OutboundPipeline
  /-- `guard.is_talking` -/
  isTalking : Bool := false
  /-- What the last `user-talking` event said of the local user. -/
  shown : Bool := false
  queue : List Slot := []
  wire : List Slot := []

def channelCapacity : Nat := 50

namespace OutboundLoop

def start (encoder : OpusEncoder) : OutboundLoop := { pipeline := { encoder } }

def HasRoom (self : OutboundLoop) : Prop :=
  (self.queue.filter Slot.isPacket).length < channelCapacity

instance (self : OutboundLoop) : Decidable self.HasRoom :=
  inferInstanceAs (Decidable (_ < _))

def trySend (self : OutboundLoop) (packet : AudioPacketOut) : OutboundLoop :=
  if self.HasRoom then { self with queue := self.queue ++ [.packet packet] } else self

def setTalking (self : OutboundLoop) (talking : Bool) : OutboundLoop :=
  if self.isTalking ≠ talking then { self with isTalking := talking, shown := talking } else self

/-- Process a single outbound pipeline tick; `true` when more frames may be available. -/
def processOutboundTick (self : OutboundLoop) (capture : Capture) : Bool × OutboundLoop :=
  let (result, pipeline) := self.pipeline.tick capture
  let self := { self with pipeline }
  match result with
  | .ok (.audio packet) =>
      let self := self.setTalking true
      (true, self.trySend
        { data := packet.data, sequence := packet.sequence, isTerminator := false })
  | .ok (.terminator packet) =>
      let self := self.setTalking false
      (true, self.trySend
        { data := packet.data, sequence := packet.sequence, isTerminator := true })
  | .ok .silence => (true, self)
  | .ok .noData => (false, self)
  | .error _ => (false, self)

def drainTick (self : OutboundLoop) (capture : Capture) : Bool × OutboundLoop :=
  let (result, pipeline) := self.pipeline.tick capture
  let self := { self with pipeline }
  match result with
  | .ok .noData => (false, self)
  | .ok _ => (true, self)
  | .error _ => (false, self)

def recv : List Slot → Option (List Slot × AudioPacketOut × List Slot)
  | [] => none
  | .packet packet :: rest => some ([], packet, rest)
  | .pause :: rest => (recv rest).map fun (pauses, packet, rest) => (.pause :: pauses, packet, rest)

/-- What the line holds for a packet `send_audio` did not take: a terminator leaves the
silence it stood for. -/
def unsent (packet : AudioPacketOut) : List Slot :=
  if packet.isTerminator then [.pause] else []

def sendNext (self : OutboundLoop) (taken : Bool) : OutboundLoop :=
  match recv self.queue with
  | none => self
  | some (pauses, packet, rest) =>
      { self with
        queue := rest
        wire := self.wire ++ pauses ++ if taken then [.packet packet] else unsent packet }

def pauseUnlessQueued (before : OutboundLoop) (capture : Capture) (self : OutboundLoop) :
    OutboundLoop :=
  if capture.isSilent? = some true ∧ self.queue = before.queue then
    { self with queue := self.queue ++ [.pause] }
  else self

inductive Event where
  /-- A frame is read by the start-up drain or by the drain after a stall. -/
  | drain (capture : Capture)
  /-- A frame is read by the encoding loop. -/
  | process (capture : Capture)
  /-- The send task takes the next packet. -/
  | send (taken : Bool)

def step (self : OutboundLoop) : Event → OutboundLoop
  | .drain capture => pauseUnlessQueued self capture (self.drainTick capture).2
  | .process capture => pauseUnlessQueued self capture (self.processOutboundTick capture).2
  | .send taken => self.sendNext taken

/-! ## Whole turns of the loop -/

def drainAll (self : OutboundLoop) : List Capture → OutboundLoop
  | [] => self
  | capture :: captures =>
      let next := self.step (.drain capture)
      if (self.drainTick capture).1 then next.drainAll captures else next

def processAll (self : OutboundLoop) : Nat → List Capture → OutboundLoop
  | 0, _ => self
  | _ + 1, [] => self
  | count + 1, capture :: captures =>
      let next := self.step (.process capture)
      if (self.processOutboundTick capture).1 then next.processAll count captures else next

def loopTick (self : OutboundLoop) (stalled : Bool) (captures : List Capture) : OutboundLoop :=
  if stalled then self.drainAll captures else self.processAll 5 captures

theorem drainAll_eq_run (self : OutboundLoop) (captures : List Capture) :
    ∃ read, read <+: captures ∧ self.drainAll captures = Runs.run step self (read.map .drain) := by
  induction captures generalizing self with
  | nil => exact ⟨[], List.prefix_rfl, rfl⟩
  | cons capture captures ih =>
      rw [drainAll]
      split_ifs with hmore
      · obtain ⟨read, hread, hrun⟩ := ih (self.step (.drain capture))
        exact ⟨capture :: read, List.cons_prefix_cons.mpr ⟨rfl, hread⟩, hrun⟩
      · exact ⟨[capture], List.cons_prefix_cons.mpr ⟨rfl, List.nil_prefix⟩, rfl⟩

theorem processAll_eq_run (self : OutboundLoop) (count : Nat) (captures : List Capture) :
    ∃ read, read <+: captures ∧ read.length ≤ count ∧
      self.processAll count captures = Runs.run step self (read.map .process) := by
  induction count generalizing self captures with
  | zero => exact ⟨[], List.nil_prefix, Nat.le_refl 0, by cases captures <;> rfl⟩
  | succ count ih =>
      cases captures with
      | nil => exact ⟨[], List.prefix_rfl, Nat.zero_le _, rfl⟩
      | cons capture captures =>
          rw [processAll]
          split_ifs with hmore
          · obtain ⟨read, hread, hlength, hrun⟩ := ih (self.step (.process capture)) captures
            exact ⟨capture :: read, List.cons_prefix_cons.mpr ⟨rfl, hread⟩,
              Nat.succ_le_succ hlength, hrun⟩
          · exact ⟨[capture], List.cons_prefix_cons.mpr ⟨rfl, List.nil_prefix⟩,
              Nat.succ_le_succ (Nat.zero_le _), rfl⟩

/-- A turn of the loop is a run of single reads. -/
theorem loopTick_eq_run (self : OutboundLoop) (stalled : Bool) (captures : List Capture) :
    ∃ events, self.loopTick stalled captures = Runs.run step self events := by
  rw [loopTick]
  split_ifs
  · obtain ⟨read, -, hrun⟩ := self.drainAll_eq_run captures
    exact ⟨read.map .drain, hrun⟩
  · obtain ⟨read, -, -, hrun⟩ := self.processAll_eq_run 5 captures
    exact ⟨read.map .process, hrun⟩

end OutboundLoop

end FancyMumble.Audio
