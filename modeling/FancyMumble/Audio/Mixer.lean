import FancyMumble.Audio.Outbound
import FancyMumble.Lib.Keyed
import Mathlib.Algebra.Ring.Nat

/-!
# The per-speaker audio mixer

`AudioMixer`: a decoder for each remote speaker, and the buffers of decoded samples that
the playback drains. The samples are of any type; the fades at the ends of a frame change
samples, never their number, and a decoded frame stands here for the frame after them.
-/

namespace FancyMumble.Audio

open Lib

variable {α : Type*}

def maxSpeakerBufferSamples : Nat := 19200

/-- `SAMPLES_PER_SEQ_UNIT`: 10 ms at 48 kHz, the unit of the protocol's frame numbers. -/
def samplesPerSeqUnit : Nat := 480

def maxSilenceFillUnits : Nat := maxSpeakerBufferSamples / samplesPerSeqUnit

def gapTolerance : Nat := 8

/-! ## The shared buffers -/

/-- The shared per-speaker sample buffers, in the order of the map's iteration. -/
abbrev SpeakerBuffers (α : Type*) := List (Nat × List α)

namespace SpeakerBuffers

def buffer (buffers : SpeakerBuffers α) (session : Nat) : List α :=
  ((Keyed.find Prod.fst session buffers).map Prod.snd).getD []

def setBuffer (buffers : SpeakerBuffers α) (session : Nat) (samples : List α) :
    SpeakerBuffers α :=
  Keyed.put Prod.fst (session, samples) buffers

/-- Append `units * 10 ms` of silence to the speaker buffer, as far as there is room. -/
def insertSilence [Zero α] (buffers : SpeakerBuffers α) (session units : Nat) :
    SpeakerBuffers α :=
  let requested := units * samplesPerSeqUnit
  if requested = 0 then buffers
  else
    let buf := buffers.buffer session
    let remaining := maxSpeakerBufferSamples - buf.length
    let toInsert := min requested remaining
    buffers.setBuffer session (buf ++ List.replicate toInsert 0)

def pushSamples (buffers : SpeakerBuffers α) (session : Nat) (frame : List α) :
    SpeakerBuffers α :=
  let buf := buffers.buffer session ++ frame
  if buf.length > maxSpeakerBufferSamples then
    let excess := buf.length - maxSpeakerBufferSamples
    buffers.setBuffer session (buf.drop excess)
  else buffers.setBuffer session buf

/-- What the playback callback takes: up to `count` samples from the front of every buffer. -/
def drainSpeakers (buffers : SpeakerBuffers α) (count : Nat) : SpeakerBuffers α :=
  buffers.map fun (session, buf) => (session, buf.drop count)

@[simp] theorem buffer_setBuffer (buffers : SpeakerBuffers α) (session : Nat) (samples : List α) :
    (buffers.setBuffer session samples).buffer session = samples := by
  rw [buffer, setBuffer, Keyed.find_put, if_pos rfl]
  rfl

theorem buffer_setBuffer_of_ne (buffers : SpeakerBuffers α) {session other : Nat}
    (h : other ≠ session) (samples : List α) :
    (buffers.setBuffer session samples).buffer other = buffers.buffer other := by
  rw [buffer, setBuffer, Keyed.find_put, if_neg h, ← buffer]

theorem buffer_drainSpeakers (buffers : SpeakerBuffers α) (count session : Nat) :
    (buffers.drainSpeakers count).buffer session = (buffers.buffer session).drop count := by
  rw [drainSpeakers, buffer, buffer, Keyed.find, Keyed.find, List.find?_map]
  cases hfind : buffers.find? fun entry => decide (entry.1 = session) with
  | none =>
      have hnone : buffers.find? ((fun entry => decide (entry.1 = session)) ∘
          fun entry : Nat × List α => (entry.1, entry.2.drop count)) = none := hfind
      rw [hnone]
      exact List.drop_nil.symm
  | some entry =>
      have hsome : buffers.find? ((fun entry => decide (entry.1 = session)) ∘
          fun entry : Nat × List α => (entry.1, entry.2.drop count)) = some entry := hfind
      rw [hsome]
      rfl

theorem length_insertSilence [Zero α] (buffers : SpeakerBuffers α) (session units : Nat) :
    ((buffers.insertSilence session units).buffer session).length =
      (buffers.buffer session).length +
        min (units * samplesPerSeqUnit)
          (maxSpeakerBufferSamples - (buffers.buffer session).length) := by
  rw [insertSilence]
  split_ifs with hzero
  · rw [hzero, Nat.zero_min, Nat.add_zero]
  · rw [buffer_setBuffer, List.length_append, List.length_replicate]

end SpeakerBuffers

/-! ## The mixer -/

structure SpeakerDecoder where
  lastSeq : Option Nat := none
  /-- The number we expect the next packet from this speaker to carry. -/
  expectedNextSeq : Option Nat := none
deriving DecidableEq

structure AudioMixer (α : Type*) where
  speakers : Nat → Option SpeakerDecoder
  buffers : SpeakerBuffers α

def detectCertainGap : Option Nat → Nat → Nat
  | none, _ => 0
  | some expected, incoming =>
      if incoming ≤ expected + gapTolerance then 0
      else min (incoming - expected) maxSilenceFillUnits

def frameSeqUnits (samples : Nat) : Nat := max (samples / samplesPerSeqUnit) 1

namespace SpeakerDecoder

/-- The incoming sequence is much lower than the last seen: the sender started a new stream. -/
def Restarts (speaker : SpeakerDecoder) (sequence : Nat) : Prop :=
  match speaker.lastSeq with
  | some prev => prev > sequence ∧ prev - sequence > 10
  | none => False

instance (sequence : Nat) : ∀ speaker : SpeakerDecoder, Decidable (speaker.Restarts sequence)
  | { lastSeq := some prev, .. } =>
      inferInstanceAs (Decidable (prev > sequence ∧ prev - sequence > 10))
  | { lastSeq := none, .. } => inferInstanceAs (Decidable False)

end SpeakerDecoder

namespace AudioMixer

def new (buffers : SpeakerBuffers α) : AudioMixer α := { speakers := fun _ => none, buffers }

/-- The decoder for a packet: a fresh one where there is none, or the stream restarts. -/
def decoderFor (self : AudioMixer α) (session sequence : Nat) : SpeakerDecoder :=
  match self.speakers session with
  | some speaker => if speaker.Restarts sequence then {} else speaker
  | none => {}

def fillGap [Zero α] (self : AudioMixer α) (session sequence : Nat) : SpeakerBuffers α :=
  let silenceUnits := detectCertainGap (self.decoderFor session sequence).expectedNextSeq sequence
  if silenceUnits > 0 then self.buffers.insertSilence session silenceUnits else self.buffers

def feed [Zero α] (self : AudioMixer α) (session : Nat) (packet : EncodedPacket)
    (decoded : Except AudioError (List α)) : Except AudioError Unit × AudioMixer α :=
  let buffers := self.fillGap session packet.sequence
  let speaker := { self.decoderFor session packet.sequence with lastSeq := some packet.sequence }
  match decoded with
  | .error err =>
      (.error err, { speakers := Function.update self.speakers session (some speaker), buffers })
  | .ok frame =>
      let consumedUnits := frameSeqUnits frame.length
      let speaker := { speaker with expectedNextSeq := some (packet.sequence + consumedUnits) }
      (.ok (), {
        speakers := Function.update self.speakers session (some speaker)
        buffers := buffers.pushSamples session frame })

def resetSpeaker (self : AudioMixer α) (session : Nat) : AudioMixer α :=
  { self with speakers := Function.update self.speakers session none }

def onAudio [Zero α] (self : AudioMixer α) (session : Nat) (audio : AudioPacketOut)
    (decoded : Except AudioError (List α)) : AudioMixer α :=
  if audio.data.isEmpty then self
  else
    let packet : EncodedPacket :=
      { data := audio.data, sequence := audio.sequence, frameSamples := 960 }
    let (_, self) := self.feed session packet decoded
    if audio.isTerminator then self.resetSpeaker session else self

/-! ## What the operations do -/

theorem length_fillGap [Zero α] (self : AudioMixer α) (session sequence : Nat) :
    ((self.fillGap session sequence).buffer session).length =
      (self.buffers.buffer session).length +
        min (detectCertainGap (self.decoderFor session sequence).expectedNextSeq sequence *
            samplesPerSeqUnit)
          (maxSpeakerBufferSamples - (self.buffers.buffer session).length) := by
  rw [fillGap]
  split_ifs with hpos
  · exact SpeakerBuffers.length_insertSilence _ _ _
  · rw [Nat.eq_zero_of_not_pos hpos, Nat.zero_mul, Nat.zero_min, Nat.add_zero]

theorem speakers_onAudio [Zero α] (self : AudioMixer α) (session : Nat) {audio : AudioPacketOut}
    (hdata : audio.data ≠ []) (frame : List α) :
    (self.onAudio session audio (.ok frame)).speakers session =
      if audio.isTerminator then none
      else some {
        lastSeq := some audio.sequence
        expectedNextSeq := some (audio.sequence + frameSeqUnits frame.length) } := by
  rw [onAudio, if_neg fun hempty => hdata (List.isEmpty_iff.mp hempty)]
  dsimp only [feed]
  split_ifs
  · exact Function.update_self _ _ _
  · exact Function.update_self _ _ _

theorem speakers_onAudio_of_ne [Zero α] (self : AudioMixer α) {session other : Nat}
    (h : other ≠ session) (audio : AudioPacketOut) (decoded : Except AudioError (List α)) :
    (self.onAudio session audio decoded).speakers other = self.speakers other := by
  have hfeed : ∀ packet : EncodedPacket, (self.feed session packet decoded).2.speakers other =
      self.speakers other := by
    intro packet
    cases decoded with
    | error err => exact Function.update_of_ne h _ _
    | ok frame => exact Function.update_of_ne h _ _
  rw [onAudio]
  by_cases hempty : audio.data.isEmpty = true
  · rw [if_pos hempty]
  · rw [if_neg hempty]
    by_cases hlast : audio.isTerminator = true
    · simp only [hlast, if_true]
      exact (Function.update_of_ne h _ _).trans (hfeed _)
    · simp only [hlast]
      exact hfeed _

end AudioMixer

end FancyMumble.Audio
