import FancyMumble.Audio.Mixer

/-!
# The mixer of streams

The mixer with packets of any 64-bit number and frames of any number of channels. Where its
sums fit, and of one channel, it does what the mono mixer does.
-/

namespace FancyMumble.Audio

open Lib

variable {α : Type*}

/-! ## Any number of channels -/

namespace SpeakerBuffers

def insertSilenceOf [Zero α] (channels : UInt16) (buffers : SpeakerBuffers α)
    (session : Nat) (units : UInt64) : SpeakerBuffers α :=
  let requested := units.toNat * samplesPerSeqUnit * channels.toNat
  if requested = 0 then buffers
  else
    let buf := buffers.buffer session
    let remaining := maxSpeakerBufferSamples - buf.length
    let toInsert := min requested remaining
    buffers.setBuffer session (buf ++ List.replicate toInsert 0)

theorem insertSilenceOf_mono [Zero α] (buffers : SpeakerBuffers α) (session : Nat)
    (units : UInt64) :
    buffers.insertSilenceOf 1 session units = buffers.insertSilence session units.toNat := by
  have hone : (1 : UInt16).toNat = 1 := rfl
  simp only [insertSilenceOf, insertSilence, hone, Nat.mul_one]

end SpeakerBuffers

structure StreamDecoder where
  lastSeq : Option UInt64 := none
  expectedNextSeq : Option UInt64 := none
deriving DecidableEq

namespace StreamDecoder

def Restarts (speaker : StreamDecoder) (sequence : UInt64) : Prop :=
  match speaker.lastSeq with
  | some prev => prev > sequence ∧ prev - sequence > 10
  | none => False

instance (speaker : StreamDecoder) (sequence : UInt64) : Decidable (speaker.Restarts sequence) :=
  match speaker with
  | { lastSeq := some prev, .. } =>
      inferInstanceAs (Decidable (prev > sequence ∧ prev - sequence > 10))
  | { lastSeq := none, .. } => inferInstanceAs (Decidable False)

def toSpeaker (speaker : StreamDecoder) : SpeakerDecoder where
  lastSeq := speaker.lastSeq.map UInt64.toNat
  expectedNextSeq := speaker.expectedNextSeq.map UInt64.toNat

end StreamDecoder

def detectGap : Option UInt64 → UInt64 → UInt64
  | none, _ => 0
  | some expected, incoming =>
      if incoming ≤ expected + UInt64.ofNat gapTolerance then 0
      else min (incoming - expected) (UInt64.ofNat maxSilenceFillUnits)

def frameUnits (channels : UInt16) (samples : Nat) : Nat :=
  max (4 * samples / 4 / max channels.toNat 1 / samplesPerSeqUnit) 1

def openDecoder (channels : UInt16) (opened : Except String Unit) :
    Except AudioError StreamDecoder :=
  if channels = 1 ∨ channels = 2 then
    match opened with
    | .ok () => .ok {}
    | .error message => .error (.opusCodec message)
  else .error (.other s!"Invalid state: Opus only supports 1 or 2 channels, got {channels}")

structure StreamMixer (α : Type*) where
  speakers : Nat → Option StreamDecoder := fun _ => none
  buffers : SpeakerBuffers α := []

namespace StreamMixer

def keptDecoder (self : StreamMixer α) (session : Nat) (sequence : UInt64) :
    Option StreamDecoder :=
  (self.speakers session).filter fun speaker => ¬speaker.Restarts sequence

def decoderFor (channels : UInt16) (self : StreamMixer α) (session : Nat) (sequence : UInt64)
    (opened : Except String Unit) : Except AudioError StreamDecoder :=
  match self.keptDecoder session sequence with
  | some speaker => .ok speaker
  | none => openDecoder channels opened

def fillGap [Zero α] (channels : UInt16) (self : StreamMixer α) (speaker : StreamDecoder)
    (session : Nat) (sequence : UInt64) : SpeakerBuffers α :=
  let silenceUnits := detectGap speaker.expectedNextSeq sequence
  if silenceUnits > 0 then self.buffers.insertSilenceOf channels session silenceUnits
  else self.buffers

def feed [Zero α] (channels : UInt16) (self : StreamMixer α) (session : Nat)
    (sequence : UInt64) (opened : Except String Unit) (decoded : Except String (List α)) :
    Except AudioError Unit × StreamMixer α :=
  match self.decoderFor channels session sequence opened with
  | .error err => (.error err, { self with speakers := Function.update self.speakers session none })
  | .ok speaker =>
      let buffers := self.fillGap channels speaker session sequence
      let speaker := { speaker with lastSeq := some sequence }
      match decoded with
      | .error message =>
          (.error (.opusCodec message),
            { speakers := Function.update self.speakers session (some speaker), buffers })
      | .ok frame =>
          let consumedUnits := UInt64.ofNat (frameUnits channels frame.length)
          let speaker := { speaker with expectedNextSeq := some (sequence + consumedUnits) }
          (.ok (),
            { speakers := Function.update self.speakers session (some speaker)
              buffers := buffers.pushSamples session frame })

def resetSpeaker (self : StreamMixer α) (session : Nat) : StreamMixer α :=
  { self with speakers := Function.update self.speakers session none }

def removeInactiveSpeakers (self : StreamMixer α) (timedOut : Nat → Bool) : StreamMixer α where
  speakers session := if timedOut session then none else self.speakers session
  buffers := self.buffers.filter fun entry =>
    ¬(timedOut entry.1 ∧ (self.speakers entry.1).isSome)

def reset (_self : StreamMixer α) : StreamMixer α := {}

end StreamMixer

/-! ## Arithmetic -/

structure SumsFit (channels : UInt16) (speaker : StreamDecoder) (sequence : UInt64)
    (decoded : Except String (List α)) : Prop where
  tolerance : ∀ expected, speaker.expectedNextSeq = some expected →
    expected.toNat + gapTolerance < 2 ^ 64
  consumed : ∀ frame, decoded = .ok frame →
    sequence.toNat + frameUnits channels frame.length < 2 ^ 64

theorem toNat_detectGap {expectedNextSeq : Option UInt64}
    (h : ∀ expected, expectedNextSeq = some expected → expected.toNat + gapTolerance < 2 ^ 64)
    (incoming : UInt64) :
    (detectGap expectedNextSeq incoming).toNat =
      detectCertainGap (expectedNextSeq.map UInt64.toNat) incoming.toNat := by
  cases expectedNextSeq with
  | none => rfl
  | some expected =>
      have htolerance : (expected + UInt64.ofNat gapTolerance).toNat =
          expected.toNat + gapTolerance := by
        rw [UInt64.toNat_add]
        exact Nat.mod_eq_of_lt (h expected rfl)
      have hnear : incoming ≤ expected + UInt64.ofNat gapTolerance ↔
          incoming.toNat ≤ expected.toNat + gapTolerance := by
        rw [UInt64.le_iff_toNat_le, htolerance]
      rw [detectGap, Option.map_some, detectCertainGap]
      by_cases hle : incoming ≤ expected + UInt64.ofNat gapTolerance
      · rw [if_pos hle, if_pos (hnear.mp hle)]
        rfl
      · have hlate : ¬incoming.toNat ≤ expected.toNat + gapTolerance :=
          fun hle' => hle (hnear.mpr hle')
        have hsub : (incoming - expected).toNat = incoming.toNat - expected.toNat := by
          apply UInt64.toNat_sub_of_le
          rw [UInt64.le_iff_toNat_le]
          omega
        have hcap : (UInt64.ofNat maxSilenceFillUnits).toNat = maxSilenceFillUnits := rfl
        rw [if_neg hle, if_neg hlate, ← hsub]
        by_cases hmin : incoming - expected ≤ UInt64.ofNat maxSilenceFillUnits
        · have hmin' := UInt64.le_iff_toNat_le.mp hmin
          rw [hcap] at hmin'
          rw [Nat.min_eq_left hmin']
          exact congrArg UInt64.toNat (if_pos hmin)
        · rw [UInt64.le_iff_toNat_le, hcap] at hmin
          rw [Nat.min_eq_right (Nat.le_of_not_le hmin), ← hcap]
          exact congrArg UInt64.toNat (if_neg fun hle' => hmin (UInt64.le_iff_toNat_le.mp hle'))

theorem frameUnits_mono (samples : Nat) : frameUnits 1 samples = frameSeqUnits samples := by
  have hone : max (1 : UInt16).toNat 1 = 1 := rfl
  rw [frameUnits, frameSeqUnits, hone, Nat.mul_div_cancel_left _ (by decide), Nat.div_one]

theorem restarts_toSpeaker (speaker : StreamDecoder) (sequence : UInt64) :
    speaker.toSpeaker.Restarts sequence.toNat ↔ speaker.Restarts sequence := by
  obtain ⟨lastSeq, expectedNextSeq⟩ := speaker
  cases lastSeq with
  | none => exact Iff.rfl
  | some prev =>
      change prev.toNat > sequence.toNat ∧ prev.toNat - sequence.toNat > 10 ↔
        prev > sequence ∧ prev - sequence > 10
      rw [gt_iff_lt, gt_iff_lt, gt_iff_lt, gt_iff_lt, UInt64.lt_iff_toNat_lt]
      refine and_congr_right fun hlt => ?_
      rw [UInt64.lt_iff_toNat_lt, UInt64.toNat_sub_of_le prev sequence
        (UInt64.le_iff_toNat_le.mpr (Nat.le_of_lt hlt))]
      rfl

/-! ## The mono mixer -/

namespace StreamMixer

def toMixer (self : StreamMixer α) : AudioMixer α where
  speakers session := (self.speakers session).map StreamDecoder.toSpeaker
  buffers := self.buffers

theorem map_update_speakers (self : StreamMixer α) (session : Nat) (speaker : StreamDecoder) :
    (fun other => (Function.update self.speakers session (some speaker) other).map
        StreamDecoder.toSpeaker) =
      Function.update self.toMixer.speakers session (some speaker.toSpeaker) := by
  funext other
  by_cases hother : other = session
  · subst hother
    rw [Function.update_self, Function.update_self, Option.map_some]
  · rw [Function.update_of_ne hother, Function.update_of_ne hother]
    rfl

/-- Where the sums fit, a mixer of one channel feeds as the mono mixer. -/
theorem toMixer_feed [Zero α] (self : StreamMixer α) (session : Nat) (packet : EncodedPacket)
    {sequence : UInt64} (hsequence : packet.sequence = sequence.toNat)
    (decoded : Except String (List α))
    (hfit : ∀ speaker, self.decoderFor 1 session sequence (.ok ()) = .ok speaker →
      SumsFit 1 speaker sequence decoded) :
    ((self.feed 1 session sequence (.ok ()) decoded).1,
        (self.feed 1 session sequence (.ok ()) decoded).2.toMixer) =
      self.toMixer.feed session packet (decoded.mapError .opusCodec) := by
  have hdecoder : ∃ speaker, self.decoderFor 1 session sequence (.ok ()) = .ok speaker ∧
      self.toMixer.decoderFor session sequence.toNat = speaker.toSpeaker := by
    rw [decoderFor, keptDecoder, AudioMixer.decoderFor, toMixer]
    dsimp only
    cases self.speakers session with
    | none => exact ⟨{}, rfl, rfl⟩
    | some speaker =>
        rw [Option.map_some, Option.filter_some]
        dsimp only
        by_cases hrestarts : speaker.Restarts sequence
        · rw [if_pos ((restarts_toSpeaker speaker sequence).mpr hrestarts)]
          simp only [hrestarts, not_true_eq_false, decide_false]
          exact ⟨{}, rfl, rfl⟩
        · rw [if_neg fun h => hrestarts ((restarts_toSpeaker speaker sequence).mp h)]
          simp only [hrestarts, not_false_eq_true, decide_true, if_true]
          exact ⟨speaker, rfl, rfl⟩
  obtain ⟨speaker, hspeaker, hmono⟩ := hdecoder
  have hsums := hfit speaker hspeaker
  have hgap := toNat_detectGap hsums.tolerance sequence
  have hfill : self.toMixer.fillGap session sequence.toNat =
      self.fillGap 1 speaker session sequence := by
    rw [AudioMixer.fillGap, hmono, fillGap, SpeakerBuffers.insertSilenceOf_mono, hgap]
    dsimp only [StreamDecoder.toSpeaker]
    have hpos : detectGap speaker.expectedNextSeq sequence > 0 ↔
        detectCertainGap (speaker.expectedNextSeq.map UInt64.toNat) sequence.toNat > 0 := by
      rw [← hgap, gt_iff_lt, gt_iff_lt, UInt64.lt_iff_toNat_lt]
      rfl
    simp only [hpos]
    rfl
  cases hdecoded : decoded with
  | error message =>
      simp only [feed, hspeaker, Except.mapError, AudioMixer.feed, hsequence, hfill, hmono]
      simp only [toMixer, map_update_speakers]
      rfl
  | ok frame =>
      have hsum : (sequence + UInt64.ofNat (frameUnits 1 frame.length)).toNat =
          sequence.toNat + frameSeqUnits frame.length := by
        have hlt := hsums.consumed frame hdecoded
        rw [UInt64.toNat_add, UInt64.toNat_ofNat', ← frameUnits_mono,
          Nat.mod_eq_of_lt (a := frameUnits 1 frame.length) (by omega), Nat.mod_eq_of_lt hlt]
      simp only [feed, hspeaker, Except.mapError, AudioMixer.feed, hsequence, hfill]
      simp only [toMixer, map_update_speakers, StreamDecoder.toSpeaker, Option.map_some, hsum]

end StreamMixer

end FancyMumble.Audio
