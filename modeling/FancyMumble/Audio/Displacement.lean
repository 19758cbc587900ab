import FancyMumble.Audio.StreamMixer
import FancyMumble.Lib.BoundedLog

/-!
# Silence and speech in the mixer's buffers

Silence is inserted only as far as there is room, but it then takes the room of the frame
that follows, and the oldest samples go: speech is displaced by the silence behind it.
-/

namespace FancyMumble.Audio

open Lib Lib.Runs

variable {β : Type*}

/-! ## Samples told apart -/

/-- A sample: one of inserted silence, or a decoded one. -/
inductive Sample (β : Type*) where
  | silence
  | speech (sample : β)
deriving DecidableEq

namespace Sample

instance : Zero (Sample β) := ⟨.silence⟩

def isSpeech : Sample β → Bool
  | .silence => false
  | .speech _ => true

theorem isSpeech_eq_false_iff {x : Sample β} : x.isSpeech = false ↔ x = .silence := by
  cases x with
  | silence => simp [isSpeech]
  | speech sample => simp [isSpeech]

theorem countP_replicate_silence (n : Nat) :
    (List.replicate n (0 : Sample β)).countP isSpeech = 0 := by
  rw [List.countP_replicate]
  rfl

theorem countP_map_speech (frame : List β) : (frame.map speech).countP isSpeech = frame.length := by
  rw [List.countP_map, List.countP_eq_length]
  exact fun _ _ => rfl

end Sample

/-! ## Events -/

inductive MixerEvent (β : Type*) where
  | feed (session : Nat) (sequence : UInt64) (opened : Except String Unit)
      (decoded : Except String (List β))
  /-- The playback takes up to this many samples of every speaker. -/
  | play (count : Nat)
  | resetSpeaker (session : Nat)
  | removeInactiveSpeakers (timedOut : Nat → Bool)
  | reset

namespace StreamMixer

variable (channels : UInt16)

def feedSpeech (s : StreamMixer (Sample β)) (session : Nat) (sequence : UInt64)
    (opened : Except String Unit) (decoded : Except String (List β)) : StreamMixer (Sample β) :=
  (s.feed channels session sequence opened (decoded.map (List.map .speech))).2

def step (s : StreamMixer (Sample β)) : MixerEvent β → StreamMixer (Sample β)
  | .feed session sequence opened decoded =>
      s.feedSpeech channels session sequence opened decoded
  | .play count => { s with buffers := s.buffers.drainSpeakers count }
  | .resetSpeaker session => s.resetSpeaker session
  | .removeInactiveSpeakers timedOut => s.removeInactiveSpeakers timedOut
  | .reset => s.reset

def speech (s : StreamMixer (Sample β)) (session : Nat) : Nat :=
  (s.buffers.buffer session).countP Sample.isSpeech

def Bounded (s : StreamMixer (Sample β)) : Prop :=
  ∀ session, (s.buffers.buffer session).length ≤ maxSpeakerBufferSamples

/-! ## The claims of a packet -/

/-- A packet overflows no sum, and its frame drops only the decoded samples that find no room
among the decoded ones. -/
def Lawful (s : StreamMixer (Sample β)) : MixerEvent β → Prop
  | .feed session sequence opened decoded =>
      ∀ speaker, s.decoderFor channels session sequence opened = .ok speaker →
        SumsFit channels speaker sequence decoded ∧
          ∀ frame, decoded = .ok frame →
            s.speech session + frame.length ≤
              (s.feedSpeech channels session sequence opened decoded).speech session +
                (s.speech session + frame.length - maxSpeakerBufferSamples)
  | _ => True

/-- No silence is inserted before a packet of the speaker. -/
def AddsNoSilence (session : Nat) (s : StreamMixer (Sample β)) : MixerEvent β → Prop
  | .feed session' sequence opened _ =>
      session' = session → ∀ speaker, s.decoderFor channels session sequence opened = .ok speaker →
        (s.fillGap channels speaker session sequence).buffer session = s.buffers.buffer session
  | _ => True

/-- The 10 ms units of the packets of a speaker that were delivered: the first, and how many. -/
def delivered (session : Nat) (events : List (MixerEvent β)) : List (Nat × Nat) :=
  events.filterMap fun
    | .feed session' sequence _ (.ok frame) =>
        if session' = session then some (sequence.toNat, frameUnits channels frame.length) else none
    | .feed session' sequence _ (.error _) =>
        if session' = session then some (sequence.toNat, 1) else none
    | _ => none

/-- No unit between two that were delivered is lost. -/
def Lossless (session : Nat) (events : List (MixerEvent β)) : Prop :=
  ∀ a ∈ delivered channels session events, ∀ b ∈ delivered channels session events,
    ∀ unit, a.1 ≤ unit → unit < b.1 →
      ∃ c ∈ delivered channels session events, c.1 ≤ unit ∧ unit < c.1 + c.2

/-! ## When they hold -/

/-- The sums over the packet's number fit, and of the samples that go beyond the cap with its
frame all are silence, or all the silence is among them. -/
def SparesSpeech (s : StreamMixer (Sample β)) : MixerEvent β → Prop
  | .feed session sequence opened decoded =>
      ∀ speaker, s.decoderFor channels session sequence opened = .ok speaker →
        SumsFit channels speaker sequence decoded ∧
          ∀ frame, decoded = .ok frame →
            let buf := (s.fillGap channels speaker session sequence).buffer session ++
              frame.map .speech
            let excess := buf.length - maxSpeakerBufferSamples
            (∀ x ∈ buf.take excess, x = .silence) ∨ ∀ x ∈ buf.drop excess, x ≠ .silence
  | _ => True

/-- The packet is at most eight units ahead of the end of the last one, or there is no room. -/
def StaysNear (session : Nat) (s : StreamMixer (Sample β)) : MixerEvent β → Prop
  | .feed session' sequence opened _ =>
      session' = session → ∀ speaker, s.decoderFor channels session sequence opened = .ok speaker →
        ∀ expected, speaker.expectedNextSeq = some expected →
          sequence.toNat ≤ expected.toNat + gapTolerance ∨
            maxSpeakerBufferSamples ≤ (s.buffers.buffer session).length
  | _ => True

end StreamMixer

/-! ## What a packet does to a buffer -/

namespace SpeakerBuffers

theorem buffer_pushSamples {α : Type*} (buffers : SpeakerBuffers α) (session : Nat)
    (frame : List α) :
    (buffers.pushSamples session frame).buffer session =
      (buffers.buffer session ++ frame).drop
        ((buffers.buffer session ++ frame).length - maxSpeakerBufferSamples) := by
  rw [pushSamples]
  dsimp only
  split
  · rw [buffer_setBuffer]
  · rename_i hfits
    rw [buffer_setBuffer, Nat.sub_eq_zero_of_le (Nat.le_of_not_lt hfits), List.drop_zero]

theorem buffer_pushSamples_of_ne {α : Type*} (buffers : SpeakerBuffers α) {session other : Nat}
    (h : other ≠ session) (frame : List α) :
    (buffers.pushSamples session frame).buffer other = buffers.buffer other := by
  rw [pushSamples]
  dsimp only
  split
  · exact buffer_setBuffer_of_ne buffers h _
  · exact buffer_setBuffer_of_ne buffers h _

theorem length_buffer_pushSamples {α : Type*} (buffers : SpeakerBuffers α) (session : Nat)
    (frame : List α) :
    ((buffers.pushSamples session frame).buffer session).length ≤ maxSpeakerBufferSamples := by
  rw [buffer_pushSamples, List.length_drop]
  omega

end SpeakerBuffers

namespace StreamMixer

variable {channels : UInt16} {s : StreamMixer (Sample β)} {session : Nat} {sequence : UInt64}
  {opened : Except String Unit} {speaker : StreamDecoder}

theorem buffer_fillGap (channels : UInt16) (s : StreamMixer (Sample β))
    (speaker : StreamDecoder) (session : Nat) (sequence : UInt64) :
    (s.fillGap channels speaker session sequence).buffer session =
      s.buffers.buffer session ++ List.replicate
        (min ((detectGap speaker.expectedNextSeq sequence).toNat * samplesPerSeqUnit *
            channels.toNat)
          (maxSpeakerBufferSamples - (s.buffers.buffer session).length)) 0 := by
  rw [fillGap]
  by_cases hgap : detectGap speaker.expectedNextSeq sequence > 0
  · rw [if_pos hgap, SpeakerBuffers.insertSilenceOf]
    dsimp only
    split
    · rename_i hzero
      rw [hzero, Nat.zero_min, List.replicate_zero, List.append_nil]
    · rw [SpeakerBuffers.buffer_setBuffer]
  · have hzero : (detectGap speaker.expectedNextSeq sequence).toNat = 0 := by
      rw [gt_iff_lt, UInt64.lt_iff_toNat_lt] at hgap
      exact Nat.eq_zero_of_not_pos hgap
    rw [if_neg hgap, hzero, Nat.zero_mul, Nat.zero_mul, Nat.zero_min, List.replicate_zero,
      List.append_nil]

theorem buffer_fillGap_of_ne (channels : UInt16) (s : StreamMixer (Sample β))
    (speaker : StreamDecoder) {session other : Nat} (h : other ≠ session) (sequence : UInt64) :
    (s.fillGap channels speaker session sequence).buffer other = s.buffers.buffer other := by
  rw [fillGap, SpeakerBuffers.insertSilenceOf]
  dsimp only
  split
  · split
    · rfl
    · exact SpeakerBuffers.buffer_setBuffer_of_ne _ h _
  · rfl

theorem length_fillGap_le (h : s.Bounded) (speaker : StreamDecoder) (session : Nat)
    (sequence : UInt64) (other : Nat) :
    ((s.fillGap channels speaker session sequence).buffer other).length ≤
      maxSpeakerBufferSamples := by
  by_cases hother : other = session
  · subst hother
    have hle := h other
    rw [buffer_fillGap, List.length_append, List.length_replicate]
    omega
  · rw [buffer_fillGap_of_ne channels s speaker hother]
    exact h other

theorem buffers_feedSpeech (hspeaker : s.decoderFor channels session sequence opened = .ok speaker)
    (decoded : Except String (List β)) :
    (s.feedSpeech channels session sequence opened decoded).buffers =
      match decoded with
      | .ok frame => (s.fillGap channels speaker session sequence).pushSamples session
          (frame.map .speech)
      | .error _ => s.fillGap channels speaker session sequence := by
  cases decoded with
  | ok frame => simp only [feedSpeech, feed, hspeaker, Except.map]
  | error message => simp only [feedSpeech, feed, hspeaker, Except.map]

/-! ## Bounded buffers -/

/-- Buffers within the cap, and decoders of one or two channels only. -/
structure Sound (channels : UInt16) (s : StreamMixer (Sample β)) : Prop where
  bounded : s.Bounded
  opened : ∀ session, (s.speakers session).isSome → channels = 1 ∨ channels = 2

theorem sound_new (channels : UInt16) : Sound channels ({} : StreamMixer (Sample β)) where
  bounded _ := Nat.zero_le _
  opened _ h := nomatch h

theorem channels_of_decoderFor (h : Sound channels s)
    (hspeaker : s.decoderFor channels session sequence opened = .ok speaker) :
    channels = 1 ∨ channels = 2 := by
  rw [decoderFor] at hspeaker
  cases hkept : s.keptDecoder session sequence with
  | some kept =>
      refine h.opened session ?_
      rw [keptDecoder, Option.filter_eq_some_iff] at hkept
      rw [hkept.1]
      rfl
  | none =>
      rw [hkept] at hspeaker
      dsimp only at hspeaker
      by_contra hnot
      rw [openDecoder.eq_def, if_neg hnot] at hspeaker
      cases hspeaker

theorem sound_feedSpeech (h : Sound channels s) (session : Nat) (sequence : UInt64)
    (opened : Except String Unit) (decoded : Except String (List β)) :
    Sound channels (s.feedSpeech channels session sequence opened decoded) := by
  cases hspeaker : s.decoderFor channels session sequence opened with
  | error err =>
      have hstep : s.feedSpeech channels session sequence opened decoded =
          s.resetSpeaker session := by
        simp only [feedSpeech, feed, hspeaker]
        rfl
      rw [hstep]
      refine ⟨h.bounded, fun other hother => ?_⟩
      by_cases hsession : other = session
      · subst hsession
        simp only [resetSpeaker, Function.update_self] at hother
        cases hother
      · simp only [resetSpeaker, Function.update_of_ne hsession] at hother
        exact h.opened other hother
  | ok speaker =>
      refine ⟨fun other => ?_, fun _ _ => channels_of_decoderFor h hspeaker⟩
      rw [buffers_feedSpeech hspeaker]
      cases decoded with
      | error message => exact length_fillGap_le h.bounded speaker session sequence other
      | ok frame =>
          by_cases hother : other = session
          · subst hother
            exact SpeakerBuffers.length_buffer_pushSamples _ _ _
          · dsimp only
            rw [SpeakerBuffers.buffer_pushSamples_of_ne _ hother]
            exact length_fillGap_le h.bounded speaker session sequence other

theorem buffer_removeInactiveSpeakers (s : StreamMixer (Sample β)) (timedOut : Nat → Bool)
    (session : Nat) :
    (s.removeInactiveSpeakers timedOut).buffers.buffer session =
      if timedOut session ∧ (s.speakers session).isSome then [] else s.buffers.buffer session := by
  have hfind := @Keyed.find_filter _ _ _ Prod.fst session s.buffers
    fun id => ¬(timedOut id ∧ (s.speakers id).isSome)
  rw [removeInactiveSpeakers, SpeakerBuffers.buffer, SpeakerBuffers.buffer]
  dsimp only at hfind ⊢
  rw [hfind]
  by_cases hremoved : timedOut session ∧ (s.speakers session).isSome
  · rw [if_pos hremoved, decide_eq_false (not_not_intro hremoved), if_neg Bool.false_ne_true]
    rfl
  · rw [if_neg hremoved, decide_eq_true hremoved, if_pos rfl]

theorem sound_step (h : Sound channels s) (event : MixerEvent β) :
    Sound channels (s.step channels event) := by
  cases event with
  | feed session sequence opened decoded => exact sound_feedSpeech h session sequence opened decoded
  | play count =>
      refine ⟨fun session => ?_, h.opened⟩
      simp only [step, SpeakerBuffers.buffer_drainSpeakers, List.length_drop]
      exact Nat.le_trans (Nat.sub_le _ _) (h.bounded session)
  | resetSpeaker session =>
      refine ⟨h.bounded, fun other hother => ?_⟩
      by_cases hsession : other = session
      · subst hsession
        simp only [step, resetSpeaker, Function.update_self] at hother
        cases hother
      · simp only [step, resetSpeaker, Function.update_of_ne hsession] at hother
        exact h.opened other hother
  | removeInactiveSpeakers timedOut =>
      refine ⟨fun session => ?_, fun session hsession => ?_⟩
      · rw [step, buffer_removeInactiveSpeakers]
        split
        · exact Nat.zero_le _
        · exact h.bounded session
      · simp only [step, removeInactiveSpeakers] at hsession
        split at hsession
        · cases hsession
        · exact h.opened session hsession
  | reset => exact sound_new channels

/-! ## What each claim takes -/

theorem countP_fillGap (channels : UInt16) (s : StreamMixer (Sample β)) (speaker : StreamDecoder)
    (session : Nat) (sequence : UInt64) :
    ((s.fillGap channels speaker session sequence).buffer session).countP Sample.isSpeech =
      s.speech session := by
  rw [buffer_fillGap, List.countP_append, Sample.countP_replicate_silence, Nat.add_zero, speech]

theorem speech_feedSpeech_iff
    (hspeaker : s.decoderFor channels session sequence opened = .ok speaker) (frame : List β)
    {buf : List (Sample β)}
    (hbuf : buf = (s.fillGap channels speaker session sequence).buffer session ++
      frame.map .speech) :
    s.speech session + frame.length ≤
        (s.feedSpeech channels session sequence opened (.ok frame)).speech session +
          (s.speech session + frame.length - maxSpeakerBufferSamples) ↔
      (∀ x ∈ buf.take (buf.length - maxSpeakerBufferSamples), x = .silence) ∨
        ∀ x ∈ buf.drop (buf.length - maxSpeakerBufferSamples), x ≠ .silence := by
  have hcount : buf.countP Sample.isSpeech = s.speech session + frame.length := by
    rw [hbuf, List.countP_append, countP_fillGap, Sample.countP_map_speech]
  have hafter : (s.feedSpeech channels session sequence opened (.ok frame)).speech session =
      (buf.drop (buf.length - maxSpeakerBufferSamples)).countP Sample.isSpeech := by
    rw [speech, buffers_feedSpeech hspeaker]
    dsimp only
    rw [SpeakerBuffers.buffer_pushSamples, ← hbuf]
  have hsplit := BoundedLog.countP_take_add_countP_drop Sample.isSpeech
    (buf.length - maxSpeakerBufferSamples) buf
  have hiff := BoundedLog.countP_take_excess_le_iff Sample.isSpeech maxSpeakerBufferSamples buf
  have hspeech : ∀ x : Sample β, x.isSpeech = true ↔ x ≠ .silence := by
    intro x
    rw [ne_eq, ← Sample.isSpeech_eq_false_iff, Bool.not_eq_false]
  simp only [Sample.isSpeech_eq_false_iff, hspeech] at hiff
  rw [hafter, ← hcount, ← hiff]
  omega

theorem lawful_iff (event : MixerEvent β) :
    Lawful channels s event ↔ SparesSpeech channels s event := by
  cases event with
  | feed session sequence opened decoded =>
      refine forall_congr' fun speaker => imp_congr_right fun hspeaker =>
        and_congr_right fun _ => forall_congr' fun frame => imp_congr_right fun hdecoded => ?_
      subst hdecoded
      exact speech_feedSpeech_iff hspeaker frame rfl
  | _ => exact Iff.rfl

theorem along_lawful_iff (channels : UInt16) (s : StreamMixer (Sample β))
    (events : List (MixerEvent β)) :
    Along (step channels) (Lawful channels) s events ↔
      Along (step channels) (SparesSpeech channels) s events :=
  along_congr fun _ event => lawful_iff event

/-- No silence comes before a packet exactly if it is near the end of the last one, or the buffer
is full. -/
theorem addsNoSilence_iff (h : Sound channels s) {event : MixerEvent β}
    (hspares : SparesSpeech channels s event) (session : Nat) :
    AddsNoSilence channels session s event ↔ StaysNear channels session s event := by
  cases event with
  | feed session' sequence opened decoded =>
      refine imp_congr_right fun hsession => forall_congr' fun speaker =>
        imp_congr_right fun hspeaker => ?_
      subst hsession
      have hfits := (hspares speaker hspeaker).1.tolerance
      have hchannels : 0 < channels.toNat := by
        rcases channels_of_decoderFor h hspeaker with rfl | rfl
        · decide
        · decide
      have hbounded := h.bounded session'
      rw [buffer_fillGap, List.append_right_eq_self, List.replicate_eq_nil_iff,
        toNat_detectGap hfits]
      cases hexpected : speaker.expectedNextSeq with
      | none =>
          refine iff_of_true ?_ nofun
          rw [Option.map_none, detectCertainGap, Nat.zero_mul, Nat.zero_mul, Nat.zero_min]
      | some expected =>
          rw [Option.map_some, detectCertainGap]
          have hunit : 0 < samplesPerSeqUnit := by decide
          have hfill : 0 < maxSilenceFillUnits := by decide
          by_cases hnear : sequence.toNat ≤ expected.toNat + gapTolerance
          · rw [if_pos hnear, Nat.zero_mul, Nat.zero_mul, Nat.zero_min]
            refine iff_of_true rfl fun expected' hexpected' => .inl ?_
            cases hexpected'
            exact hnear
          · rw [if_neg hnear]
            have hrequested : 0 < min (sequence.toNat - expected.toNat) maxSilenceFillUnits *
                samplesPerSeqUnit * channels.toNat :=
              Nat.mul_pos (Nat.mul_pos (by omega) hunit) hchannels
            constructor
            · intro hzero expected' hexpected'
              exact .inr (by omega)
            · intro hroom
              have hfull := (hroom expected rfl).resolve_left hnear
              omega
  | _ => exact Iff.rfl

/-- In a run of a mixer, no buffer goes beyond the cap. Silence displaces no speech, no sum
overflows and lossless speakers get no silence exactly if the sums fit, what a frame drops is
silent or has all the silence, and the packets of lossless speakers are not too far ahead of
those before them. -/
theorem mixer_run_iff (channels : UInt16) (events : List (MixerEvent β)) :
    (Along (step channels) (fun s event => (s.step channels event).Bounded) {} events ∧
        Along (step channels) (Lawful channels) {} events ∧
        ∀ session, Lossless channels session events →
          Along (step channels) (AddsNoSilence channels session) {} events) ↔
      Along (step channels) (SparesSpeech channels) {} events ∧
        ∀ session, Lossless channels session events →
          Along (step channels) (StaysNear channels session) {} events := by
  have hbounded : Along (step channels) (fun s event => (s.step channels event).Bounded)
      ({} : StreamMixer (Sample β)) events :=
    along_of_invariant (P := fun _ _ => True)
      (fun _ event (hs : Sound channels _) _ => sound_step hs event)
      (fun _ event hs _ => (sound_step hs event).bounded)
      (sound_new channels) (along_of_forall (fun _ _ => trivial) _ events)
  rw [along_lawful_iff, and_iff_right hbounded]
  refine and_congr_right fun hspares => forall_congr' fun session => imp_congr_right fun _ => ?_
  exact along_iff_along
    (fun _ _ (hs : Sound channels _) hspares => addsNoSilence_iff hs hspares session)
    (fun _ event hs _ _ => sound_step hs event) (sound_new channels) hspares

theorem feedSpeech_first (frame : List β) (hframe : frame.length = 5760) :
    (({} : StreamMixer (Sample β)).feedSpeech 1 7 0 (.ok ()) (.ok frame)).speakers 7 =
        some { lastSeq := some 0, expectedNextSeq := some 12 } ∧
      (({} : StreamMixer (Sample β)).feedSpeech 1 7 0 (.ok ()) (.ok frame)).buffers.buffer 7 =
        frame.map .speech := by
  have hdecoder : ({} : StreamMixer (Sample β)).decoderFor 1 7 0 (.ok ()) = .ok {} := rfl
  constructor
  · have hlength : (frame.map (Sample.speech (β := β))).length = 5760 := by
      rw [List.length_map, hframe]
    simp only [feedSpeech, feed, hdecoder, Except.map, hlength, Function.update_self]
    rfl
  · have hgap : (({} : StreamMixer (Sample β)).fillGap 1 {} 7 0).buffer 7 = [] := rfl
    have hfits : (frame.map (Sample.speech (β := β))).length - maxSpeakerBufferSamples = 0 := by
      rw [List.length_map, hframe]
      rfl
    rw [buffers_feedSpeech hdecoder]
    dsimp only
    rw [SpeakerBuffers.buffer_pushSamples, hgap, List.nil_append, hfits, List.drop_zero]

/-- A loss between two packets of 120 ms: the silence for it and the second packet leave nothing
of the first one. -/
theorem not_along_lawful_of_gap (frame : List β) (hframe : frame.length = 5760) :
    ¬Along (step 1) (Lawful 1) ({} : StreamMixer (Sample β))
      [.feed 7 0 (.ok ()) (.ok frame), .feed 7 100 (.ok ()) (.ok frame)] := by
  rw [along_lawful_iff]
  rintro ⟨-, hsecond, -⟩
  obtain ⟨hspeaker, hbuffer⟩ := feedSpeech_first frame hframe
  generalize hs : ({} : StreamMixer (Sample β)).feedSpeech 1 7 0 (.ok ()) (.ok frame) = s
    at hspeaker hbuffer
  have hstep : ({} : StreamMixer (Sample β)).step 1 (.feed 7 0 (.ok ()) (.ok frame)) = s := hs
  rw [hstep] at hsecond
  have hdecoder : s.decoderFor 1 7 100 (.ok ()) =
      .ok { lastSeq := some 0, expectedNextSeq := some 12 } := by
    rw [decoderFor, keptDecoder, hspeaker]
    rfl
  have hlength : (frame.map (Sample.speech (β := β))).length = 5760 := by
    rw [List.length_map, hframe]
  have hfilled : (s.fillGap 1 { lastSeq := some 0, expectedNextSeq := some 12 } 7 100).buffer 7 =
      frame.map .speech ++ List.replicate 13440 0 := by
    have hgap : (detectGap (some 12) 100).toNat = 40 := by decide
    rw [buffer_fillGap, hbuffer, hlength, hgap]
    rfl
  obtain ⟨-, hdrops⟩ := hsecond _ hdecoder
  have hdrops := hdrops frame rfl
  dsimp only at hdrops
  have hexcess : (frame.map Sample.speech ++ List.replicate 13440 (0 : Sample β) ++
      frame.map Sample.speech).length - maxSpeakerBufferSamples = 5760 := by
    have hcap : maxSpeakerBufferSamples = 19200 := rfl
    rw [List.length_append, List.length_append, hlength, List.length_replicate, hcap]
  rw [hfilled, hexcess, List.append_assoc, List.take_left' hlength, List.drop_left' hlength]
    at hdrops
  rcases hdrops with hsilent | hspeech
  · obtain ⟨sample, hsample⟩ : ∃ sample, sample ∈ frame :=
      List.exists_mem_of_length_pos (by omega)
    cases hsilent _ (List.mem_map_of_mem hsample)
  · have hsilence : (0 : Sample β) ∈ List.replicate 13440 (0 : Sample β) ++ frame.map .speech :=
      List.mem_append_left _ (List.mem_replicate.mpr ⟨by decide, rfl⟩)
    exact hspeech _ hsilence rfl

theorem silence_displaces_first_packet :
    ¬Along (step 1) (Lawful 1) ({} : StreamMixer (Sample Unit))
      [.feed 7 0 (.ok ()) (.ok (List.replicate 5760 ())),
        .feed 7 100 (.ok ()) (.ok (List.replicate 5760 ()))] :=
  not_along_lawful_of_gap _ List.length_replicate

end StreamMixer

end FancyMumble.Audio
