import FancyMumble.Audio.Mixer

/-!
# Sender and receiver on audio time

The packets of one encoder, in the order in which it numbers them, of which any may be lost
on the way to a mixer; the silence the mixer should insert for the lost ones, and when it
does.
-/

namespace FancyMumble.Audio

open Lib
open Lib.Runs (Along)

variable {α : Type*}

/-- `frame_size_samples`: the frame sizes the client supports are 10, 20, 40 and 60 ms. -/
def frameSizeSamples (frameSizeMs : Nat) : Nat :=
  match frameSizeMs with
  | 10 => 480
  | 40 => 1920
  | 60 => 2880
  | _ => 960

/-- A sender, the packets on their way in order, and the mixer of a receiver that knows the
sender as `own`. -/
structure AudioLink (α : Type*) where
  own : Nat
  encoder : OpusEncoder
  inFlight : List AudioPacketOut := []
  mixer : AudioMixer α
  /-- The packets lost since the last one that was delivered. -/
  lost : Nat := 0
  /-- Whether a packet has been delivered. -/
  heard : Bool := false

inductive LinkEvent (α : Type*) where
  /-- The sender encodes a frame. -/
  | encode (isTerminator : Bool) (written : Except String (List UInt8))
  /-- The next packet is lost, before or after it is sent. -/
  | lose
  /-- The next packet arrives. -/
  | deliver (decoded : Except AudioError (List α))
  /-- A packet of another speaker arrives. -/
  | other (session : Nat) (audio : AudioPacketOut) (decoded : Except AudioError (List α))
  /-- The playback drains the buffers. -/
  | play (count : Nat)

namespace AudioLink

def start (frameSizeMs own : Nat) (buffers : SpeakerBuffers α) : AudioLink α where
  own
  encoder := { frameSize := frameSizeSamples frameSizeMs }
  mixer := AudioMixer.new buffers

def frameUnits (link : AudioLink α) : Nat := link.encoder.frameSize / samplesPerSeqUnit

/-- What the opus library promises: it writes at least one byte, and a packet decodes to as
many samples as were encoded. The other speakers have other session numbers. -/
def Genuine (own frameSize : Nat) : LinkEvent α → Prop
  | .encode _ written => ∀ data, written = .ok data → data ≠ []
  | .deliver decoded => ∃ frame, decoded = .ok frame ∧ frame.length = frameSize
  | .other session _ _ => session ≠ own
  | .lose => True
  | .play _ => True

def room (link : AudioLink α) : Nat :=
  maxSpeakerBufferSamples - (link.mixer.buffers.buffer link.own).length

/-- The samples of silence that stand for the packets lost since the last one: their
duration, unless it is within the tolerance, and no more than the cap and the buffer allow. -/
def due (link : AudioLink α) : Nat :=
  let lostSamples := link.lost * link.encoder.frameSize
  if link.heard = false ∨ lostSamples ≤ gapTolerance * samplesPerSeqUnit then 0
  else min (min lostSamples maxSpeakerBufferSamples) link.room

/-- The units by which the numbers of the packets have moved past what the mixer expects. -/
def gap (link : AudioLink α) : Nat := link.lost + 1 - link.frameUnits

/-- Before a delivered packet other than the first: what was lost is within the tolerance, the
buffer is full, or the decoder of the previous packet is still there and the frames are of
10 ms, or the numbers moved so far that the cap or the buffer decides. -/
def Measurable (link : AudioLink α) : LinkEvent α → Prop
  | .deliver _ =>
      link.inFlight ≠ [] → link.heard = true →
        link.lost * link.frameUnits ≤ gapTolerance ∨ link.room = 0 ∨
          (link.mixer.speakers link.own).isSome ∧
            (link.frameUnits = 1 ∨
              gapTolerance < link.gap ∧
                min maxSpeakerBufferSamples link.room ≤ link.gap * samplesPerSeqUnit)
  | _ => True

instance (link : AudioLink α) : ∀ event, Decidable (link.Measurable event)
  | .deliver _ =>
      inferInstanceAs (Decidable (link.inFlight ≠ [] → link.heard = true →
        link.lost * link.frameUnits ≤ gapTolerance ∨ link.room = 0 ∨
          (link.mixer.speakers link.own).isSome ∧
            (link.frameUnits = 1 ∨
              gapTolerance < link.gap ∧
                min maxSpeakerBufferSamples link.room ≤ link.gap * samplesPerSeqUnit)))
  | .encode _ _ => inferInstanceAs (Decidable True)
  | .lose => inferInstanceAs (Decidable True)
  | .other _ _ _ => inferInstanceAs (Decidable True)
  | .play _ => inferInstanceAs (Decidable True)

/-! ## The invariant -/

/-- The packets on their way carry the last numbers of the encoder, and what the mixer expects
follows from the last number it has seen. -/
structure Numbered (link : AudioLink α) : Prop where
  frame : link.encoder.frameSize = link.frameUnits * samplesPerSeqUnit
  units : 0 < link.frameUnits
  written : ∀ packet ∈ link.inFlight, packet.data ≠ []
  sequence : ∀ before packet after, link.inFlight = before ++ packet :: after →
    packet.sequence + after.length + 1 = link.encoder.sequence
  unheard : link.heard = false → link.mixer.speakers link.own = none
  decoder : ∀ speaker, link.mixer.speakers link.own = some speaker →
    ∃ last, speaker.lastSeq = some last ∧
      speaker.expectedNextSeq = some (last + link.frameUnits) ∧
      last + 1 + link.lost + link.inFlight.length = link.encoder.sequence

theorem frameSizeSamples_eq (frameSizeMs : Nat) :
    frameSizeSamples frameSizeMs =
        frameSizeSamples frameSizeMs / samplesPerSeqUnit * samplesPerSeqUnit ∧
      0 < frameSizeSamples frameSizeMs / samplesPerSeqUnit := by
  unfold frameSizeSamples
  split <;> decide

theorem numbered_start (frameSizeMs own : Nat) (buffers : SpeakerBuffers α) :
    Numbered (start frameSizeMs own buffers) where
  frame := (frameSizeSamples_eq frameSizeMs).1
  units := (frameSizeSamples_eq frameSizeMs).2
  written packet h := nomatch h
  sequence before packet after h := by
    cases before <;> cases h
  unheard _ := rfl
  decoder speaker h := nomatch h

theorem Numbered.head {link : AudioLink α} (h : Numbered link) {packet : AudioPacketOut}
    {rest : List AudioPacketOut} (hinFlight : link.inFlight = packet :: rest) :
    packet.data ≠ [] ∧ packet.sequence + rest.length + 1 = link.encoder.sequence :=
  ⟨h.written packet (hinFlight ▸ List.mem_cons_self), h.sequence [] packet rest hinFlight⟩

/-! ## The silence that is due -/

theorem detectCertainGap_of_decoder {link : AudioLink α} (h : Numbered link)
    {packet : AudioPacketOut} {rest : List AudioPacketOut}
    (hinFlight : link.inFlight = packet :: rest) {speaker : SpeakerDecoder}
    (hspeaker : link.mixer.speakers link.own = some speaker) :
    detectCertainGap (link.mixer.decoderFor link.own packet.sequence).expectedNextSeq
        packet.sequence =
      if link.gap ≤ gapTolerance then 0 else min link.gap maxSilenceFillUnits := by
  obtain ⟨last, hlast, hexpected, hcount⟩ := h.decoder speaker hspeaker
  obtain ⟨-, hnumber⟩ := h.head hinFlight
  rw [hinFlight, List.length_cons] at hcount
  have hnew : ¬ speaker.Restarts packet.sequence := by
    rw [SpeakerDecoder.Restarts, hlast]
    dsimp only
    omega
  rw [AudioMixer.decoderFor, hspeaker]
  dsimp only
  rw [if_neg hnew, hexpected, detectCertainGap]
  have hgap : packet.sequence - (last + link.frameUnits) = link.gap := by
    rw [gap]
    omega
  rw [hgap]
  refine if_congr ?_ rfl rfl
  rw [gap]
  omega

theorem due_eq {link : AudioLink α} (h : Numbered link) :
    link.due =
      if link.heard = false ∨ link.lost * link.frameUnits ≤ gapTolerance then 0
      else min (min (link.lost * link.frameUnits * samplesPerSeqUnit) maxSpeakerBufferSamples)
        link.room := by
  rw [due, h.frame, ← Nat.mul_assoc]
  refine if_congr (or_congr_right ?_) rfl rfl
  exact Nat.mul_le_mul_right_iff (by decide)

theorem due_eq_zero_iff (heard : Bool) (lostUnits room : Nat) :
    0 = (if heard = false ∨ lostUnits ≤ gapTolerance then 0
        else min (min (lostUnits * samplesPerSeqUnit) maxSpeakerBufferSamples) room) ↔
      (heard = true → lostUnits ≤ gapTolerance ∨ room = 0) := by
  cases heard with
  | false => exact iff_of_true (if_pos (.inl rfl)).symm fun hno => nomatch hno
  | true =>
      rw [forall_prop_of_true rfl]
      by_cases hle : lostUnits ≤ gapTolerance
      · exact iff_of_true (if_pos (.inr hle)).symm (.inl hle)
      · have hsamples : samplesPerSeqUnit = 480 := rfl
        have hmax : maxSpeakerBufferSamples = 19200 := rfl
        rw [if_neg fun hor => hor.elim (fun hno => nomatch hno) hle, hsamples, hmax]
        omega

theorem silence_iff_of_decoder {lost units room : Nat} (hunits : 0 < units) :
    min ((if lost + 1 - units ≤ gapTolerance then 0
          else min (lost + 1 - units) maxSilenceFillUnits) * samplesPerSeqUnit) room =
        (if true = false ∨ lost * units ≤ gapTolerance then 0
        else min (min (lost * units * samplesPerSeqUnit) maxSpeakerBufferSamples) room) ↔
      lost * units ≤ gapTolerance ∨ room = 0 ∨
        (units = 1 ∨ gapTolerance < lost + 1 - units ∧
          min maxSpeakerBufferSamples room ≤ (lost + 1 - units) * samplesPerSeqUnit) := by
  have hle : lost ≤ lost * units := Nat.le_mul_of_pos_right lost hunits
  have hone : units = 1 → lost * units = lost := by
    rintro rfl
    exact Nat.mul_one lost
  have hzero : lost = 0 → lost * units = 0 := by
    rintro rfl
    exact Nat.zero_mul units
  have hcap : maxSilenceFillUnits = 40 := rfl
  generalize lost * units = lostUnits at *
  simp only [hcap, gapTolerance, samplesPerSeqUnit, maxSpeakerBufferSamples, Bool.true_eq_false,
    false_or]
  split_ifs <;> omega

/-! ## The steps -/

variable [Zero α]

def step (link : AudioLink α) : LinkEvent α → AudioLink α
  | .encode isTerminator written =>
      match link.encoder.encode written with
      | (.ok packet, encoder) =>
          { link with
            encoder
            inFlight := link.inFlight ++
              [{ data := packet.data, sequence := packet.sequence, isTerminator }] }
      | (.error _, encoder) => { link with encoder }
  | .lose =>
      match link.inFlight with
      | [] => link
      | _ :: inFlight => { link with inFlight, lost := link.lost + 1 }
  | .deliver decoded =>
      match link.inFlight with
      | [] => link
      | packet :: inFlight =>
          { link with
            inFlight
            mixer := link.mixer.onAudio link.own packet decoded
            lost := 0
            heard := true }
  | .other session audio decoded =>
      { link with mixer := link.mixer.onAudio session audio decoded }
  | .play count =>
      { link with mixer := { link.mixer with buffers := link.mixer.buffers.drainSpeakers count } }

/-- The silence inserted before a delivered packet is the silence that is due. -/
def KeepsTime (link : AudioLink α) : LinkEvent α → Prop
  | .deliver _ =>
      match link.inFlight with
      | [] => True
      | packet :: _ =>
          ((link.mixer.fillGap link.own packet.sequence).buffer link.own).length =
            (link.mixer.buffers.buffer link.own).length + link.due
  | _ => True

/-! ## What the steps do -/

theorem numbered_encode {link : AudioLink α} (h : Numbered link) {isTerminator : Bool}
    {written : Except String (List UInt8)}
    (hwritten : ∀ data, written = .ok data → data ≠ []) :
    Numbered (link.step (.encode isTerminator written)) := by
  cases written with
  | error message => exact ⟨h.frame, h.units, h.written, h.sequence, h.unheard, h.decoder⟩
  | ok data =>
      refine ⟨h.frame, h.units, ?_, ?_, h.unheard, ?_⟩
      · intro packet hpacket
        rcases List.mem_append.mp hpacket with hold | hnew
        · exact h.written packet hold
        · obtain rfl := List.mem_singleton.mp hnew
          exact hwritten data rfl
      · intro before packet after heq
        change link.inFlight ++ [_] = _ at heq
        show packet.sequence + after.length + 1 = link.encoder.sequence + 1
        rcases List.eq_nil_or_concat after with rfl | ⟨after, last, rfl⟩
        · obtain ⟨-, hlast⟩ := List.append_inj' heq rfl
          obtain rfl := List.head_eq_of_cons_eq hlast
          rfl
        · rw [List.concat_eq_append, ← List.cons_append, ← List.append_assoc] at heq
          obtain ⟨hinit, -⟩ := List.append_inj' heq rfl
          have hsequence := h.sequence before packet after hinit
          rw [List.length_concat]
          omega
      · intro speaker hspeaker
        obtain ⟨last, hlast, hexpected, hcount⟩ := h.decoder speaker hspeaker
        refine ⟨last, hlast, hexpected, ?_⟩
        show last + 1 + link.lost + (link.inFlight ++ [_]).length = link.encoder.sequence + 1
        rw [List.length_append, List.length_singleton]
        omega

theorem numbered_lose {link : AudioLink α} (h : Numbered link) :
    Numbered (link.step .lose) := by
  rw [step]
  cases hinFlight : link.inFlight with
  | nil => exact h
  | cons packet rest =>
      refine ⟨h.frame, h.units, ?_, ?_, h.unheard, ?_⟩
      · exact fun other hother => h.written other (hinFlight ▸ List.mem_cons_of_mem packet hother)
      · intro before other after heq
        apply h.sequence (packet :: before) other after
        rw [hinFlight, List.cons_append]
        exact congrArg (packet :: ·) heq
      · intro speaker hspeaker
        obtain ⟨last, hlast, hexpected, hcount⟩ := h.decoder speaker hspeaker
        rw [hinFlight, List.length_cons] at hcount
        refine ⟨last, hlast, hexpected, ?_⟩
        show last + 1 + (link.lost + 1) + rest.length = link.encoder.sequence
        omega

theorem numbered_deliver {link : AudioLink α} (h : Numbered link)
    {decoded : Except AudioError (List α)}
    (hgenuine : Genuine link.own link.encoder.frameSize (.deliver decoded)) :
    Numbered (link.step (.deliver decoded)) := by
  obtain ⟨frame, rfl, hframe⟩ := hgenuine
  rw [step]
  cases hinFlight : link.inFlight with
  | nil => exact h
  | cons packet rest =>
      obtain ⟨hdata, hnumber⟩ := h.head hinFlight
      have hspeakers := link.mixer.speakers_onAudio link.own hdata frame
      refine ⟨h.frame, h.units, ?_, ?_, (fun hno => nomatch hno), ?_⟩
      · exact fun other hother => h.written other (hinFlight ▸ List.mem_cons_of_mem packet hother)
      · intro before other after heq
        apply h.sequence (packet :: before) other after
        rw [hinFlight, List.cons_append]
        exact congrArg (packet :: ·) heq
      · intro speaker hspeaker
        have hnow := hspeakers.symm.trans hspeaker
        split_ifs at hnow with hlast
        obtain rfl := Option.some.inj hnow
        have hunits : frameSeqUnits frame.length = link.frameUnits := by
          rw [hframe, frameSeqUnits]
          exact Nat.max_eq_left h.units
        refine ⟨packet.sequence, rfl, by rw [hunits]; rfl, ?_⟩
        show packet.sequence + 1 + 0 + rest.length = link.encoder.sequence
        omega

theorem numbered_other {link : AudioLink α} (h : Numbered link) {session : Nat}
    (hother : session ≠ link.own) (audio : AudioPacketOut)
    (decoded : Except AudioError (List α)) :
    Numbered (link.step (.other session audio decoded)) := by
  have hspeakers := link.mixer.speakers_onAudio_of_ne hother.symm audio decoded
  exact ⟨h.frame, h.units, h.written, h.sequence, fun hno => hspeakers.trans (h.unheard hno),
    fun speaker hspeaker => h.decoder speaker (hspeakers.symm.trans hspeaker)⟩

theorem numbered_step {link : AudioLink α} {event : LinkEvent α} (h : Numbered link)
    (hgenuine : Genuine link.own link.encoder.frameSize event) : Numbered (link.step event) := by
  cases event with
  | encode isTerminator written => exact numbered_encode h hgenuine
  | lose => exact numbered_lose h
  | deliver decoded => exact numbered_deliver h hgenuine
  | other session audio decoded => exact numbered_other h hgenuine audio decoded
  | play count => exact ⟨h.frame, h.units, h.written, h.sequence, h.unheard, h.decoder⟩

/-! ## When the time is kept -/

/-- One step: the silence is right exactly when the loss could be measured. -/
theorem keepsTime_iff {link : AudioLink α} (h : Numbered link) (event : LinkEvent α) :
    link.KeepsTime event ↔ link.Measurable event := by
  cases event with
  | encode isTerminator written => exact Iff.rfl
  | lose => exact Iff.rfl
  | other session audio decoded => exact Iff.rfl
  | play count => exact Iff.rfl
  | deliver decoded =>
      rw [KeepsTime, Measurable]
      cases hinFlight : link.inFlight with
      | nil => exact iff_of_true trivial fun hno => absurd rfl hno
      | cons packet rest =>
          rw [forall_prop_of_true (List.cons_ne_nil packet rest)]
          show ((link.mixer.fillGap link.own packet.sequence).buffer link.own).length =
            (link.mixer.buffers.buffer link.own).length + link.due ↔ _
          rw [AudioMixer.length_fillGap, Nat.add_left_cancel_iff, ← room, due_eq h]
          cases hspeaker : link.mixer.speakers link.own with
          | none =>
              have hnone : (link.mixer.decoderFor link.own packet.sequence).expectedNextSeq =
                  none := by
                rw [AudioMixer.decoderFor, hspeaker]
              rw [hnone, detectCertainGap, Nat.zero_mul, Nat.zero_min, due_eq_zero_iff]
              refine imp_congr_right fun _ => or_congr_right ?_
              exact ⟨.inl, fun hor => hor.resolve_right fun hno => nomatch hno.1⟩
          | some speaker =>
              have hheard : link.heard = true := by
                by_contra hno
                rw [h.unheard (Bool.eq_false_iff.mpr hno)] at hspeaker
                cases hspeaker
              rw [detectCertainGap_of_decoder h hinFlight hspeaker, hheard, gap,
                silence_iff_of_decoder h.units]
              exact ⟨fun hyes _ => hyes.imp_right (Or.imp_right fun hboth => ⟨rfl, hboth⟩),
                fun hyes => (hyes rfl).imp_right (Or.imp_right fun hboth => hboth.2)⟩

theorem own_step (link : AudioLink α) (event : LinkEvent α) :
    (link.step event).own = link.own := by
  cases event with
  | encode isTerminator written => cases written <;> rfl
  | lose =>
      rw [step]
      cases link.inFlight <;> rfl
  | deliver decoded =>
      rw [step]
      cases link.inFlight <;> rfl
  | other session audio decoded => rfl
  | play count => rfl

theorem frameSize_step (link : AudioLink α) (event : LinkEvent α) :
    (link.step event).encoder.frameSize = link.encoder.frameSize := by
  cases event with
  | encode isTerminator written => cases written <;> rfl
  | lose =>
      rw [step]
      cases link.inFlight <;> rfl
  | deliver decoded =>
      rw [step]
      cases link.inFlight <;> rfl
  | other session audio decoded => rfl
  | play count => rfl

structure Running (own frameSize : Nat) (link : AudioLink α) : Prop where
  numbered : Numbered link
  own_eq : link.own = own
  frameSize_eq : link.encoder.frameSize = frameSize

theorem running_step {own frameSize : Nat} {link : AudioLink α} {event : LinkEvent α}
    (h : Running own frameSize link) (hgenuine : Genuine own frameSize event) :
    Running own frameSize (link.step event) := by
  refine ⟨?_, (link.own_step event).trans h.own_eq,
    (link.frameSize_step event).trans h.frameSize_eq⟩
  apply numbered_step h.numbered
  rw [h.own_eq, h.frameSize_eq]
  exact hgenuine

theorem along_keepsTime_iff {own frameSize : Nat} {link : AudioLink α}
    (hlink : Running own frameSize link) {events : List (LinkEvent α)}
    (hgenuine : ∀ event ∈ events, Genuine own frameSize event) :
    Along step KeepsTime link events ↔ Along step Measurable link events := by
  have hiff : ∀ (link : AudioLink α) (event : LinkEvent α), Running own frameSize link →
      Genuine own frameSize event → (link.KeepsTime event ↔ link.Measurable event) :=
    fun _ event h _ => keepsTime_iff h.numbered event
  have hstep : ∀ (link : AudioLink α) (event : LinkEvent α), Running own frameSize link →
      Genuine own frameSize event → link.Measurable event →
      Running own frameSize (link.step event) :=
    fun _ _ h hgenuine _ => running_step h hgenuine
  exact Runs.along_iff_along hiff hstep hlink (Runs.along_of_mem hgenuine)

/-! ## Whole runs -/

/-- In every run, the silence inserted before every packet is the duration of the packets lost
since the previous one, up to the tolerance and the cap, exactly when every loss could be
measured. -/
theorem keepsTime_run_iff {frameSizeMs own : Nat} {buffers : SpeakerBuffers α}
    {events : List (LinkEvent α)}
    (hgenuine : ∀ event ∈ events, Genuine own (frameSizeSamples frameSizeMs) event) :
    Along step KeepsTime (start frameSizeMs own buffers) events ↔
      Along step Measurable (start frameSizeMs own buffers) events :=
  along_keepsTime_iff ⟨numbered_start frameSizeMs own buffers, rfl, rfl⟩ hgenuine

section Example

def exampleFrame : LinkEvent Nat := .encode false (.ok [1])

def exampleDelivery (frameSizeMs : Nat) : LinkEvent Nat :=
  .deliver (.ok (List.replicate (frameSizeSamples frameSizeMs) 1))

/-- Between the first packet and the last one `lost` packets are lost. -/
def lossRun (frameSizeMs lost : Nat) : List (LinkEvent Nat) :=
  List.replicate (lost + 2) exampleFrame ++ exampleDelivery frameSizeMs ::
    List.replicate lost .lose ++ [exampleDelivery frameSizeMs]

theorem genuine_lossRun (frameSizeMs lost : Nat) :
    ∀ event ∈ lossRun frameSizeMs lost, Genuine 1 (frameSizeSamples frameSizeMs) event := by
  have hdelivery : Genuine 1 (frameSizeSamples frameSizeMs) (exampleDelivery frameSizeMs) :=
    ⟨_, rfl, List.length_replicate⟩
  intro event hevent
  simp only [lossRun, List.mem_append, List.mem_cons, List.mem_replicate] at hevent
  rcases hevent with (⟨-, rfl⟩ | rfl | ⟨-, rfl⟩) | rfl | hnil
  · intro data hdata
    cases hdata
    exact List.cons_ne_nil _ _
  · exact hdelivery
  · trivial
  · exact hdelivery
  · cases hnil

/-- Fifteen packets of 10 ms are lost, and 150 ms of silence stand for them. -/
theorem keepsTime_run_iff_example :
    Along step KeepsTime (start 10 1 []) (lossRun 10 15) ∧
      ((Runs.run step (start 10 1 []) (lossRun 10 15)).mixer.buffers.buffer 1).length =
        17 * frameSizeSamples 10 :=
  ⟨(keepsTime_run_iff (genuine_lossRun 10 15)).mpr (by decide +kernel), by decide +kernel⟩

/-- Nine packets of 20 ms are lost after the first one: 180 ms are missing, and no silence is
inserted. -/
theorem loss_not_measured :
    ¬ ∀ (frameSizeMs own : Nat) (buffers : SpeakerBuffers Nat) (events : List (LinkEvent Nat)),
      (∀ event ∈ events, Genuine own (frameSizeSamples frameSizeMs) event) →
      Along step KeepsTime (start frameSizeMs own buffers) events := by
  intro h
  have hgenuine := genuine_lossRun 20 9
  have hkeeps := h 20 1 [] (lossRun 20 9) hgenuine
  rw [along_keepsTime_iff ⟨numbered_start 20 1 [], rfl, rfl⟩ hgenuine] at hkeeps
  revert hkeeps
  decide +kernel

end Example

end AudioLink

end FancyMumble.Audio
