import FancyMumble.Audio.Outbound
import FancyMumble.Lib.Bursts

/-!
# Outgoing speech in bursts

What goes on the line to the network is framed into bursts, each ended by a terminator
before any silence, and the talking indicator is on inside a burst; and when a drain, an
error or a full channel breaks this.
-/

namespace FancyMumble.Audio

open Lib
open Lib.Bursts (Mark Formed Open Closed)
open Lib.Runs (Along)

def Slot.mark : Slot → Mark
  | .packet out => if out.isTerminator then .last else .body
  | .pause => .gap

namespace OutboundLoop

def line (self : OutboundLoop) : List Mark := (self.wire ++ self.queue).map Slot.mark

/-- The packets are in bursts, and the indicator shows whether the pipeline is in one. -/
def Framed (self : OutboundLoop) : Prop :=
  Formed self.line ∧ self.shown = self.pipeline.wasTalking

instance (self : OutboundLoop) : Decidable self.Framed := inferInstanceAs (Decidable (_ ∧ _))

def KeepsFramed (self : OutboundLoop) (event : Event) : Prop := (self.step event).Framed

instance (self : OutboundLoop) (event : Event) : Decidable (self.KeepsFramed event) :=
  inferInstanceAs (Decidable (self.step event).Framed)

/-- The frames of a drain change nothing the loop would have to be told of; a terminator
finds room exactly when there is a burst to end; the first frame of a burst is encoded;
and no terminator is lost on the way, nor all the audio before one. -/
def Orderly (self : OutboundLoop) : Event → Prop
  | .drain (.frame (.ok isSilent) _) => self.pipeline.wasTalking = !isSilent
  | .drain _ => True
  | .process (.frame (.ok true) written) =>
      self.pipeline.wasTalking = true →
        written.isOk = true ∧ (self.HasRoom ↔ Open self.line)
  | .process (.frame (.ok false) written) =>
      self.pipeline.wasTalking = true ∨ written.isOk = true
  | .process _ => True
  | .send true => True
  | .send false =>
      match recv self.queue with
      | none => True
      | some (pauses, packet, rest) =>
          packet.isTerminator = false ∧
            ((rest.map Slot.mark).head? = some .last → Open ((self.wire ++ pauses).map Slot.mark))

/-- What an untaken packet must leave. -/
instance (self : OutboundLoop) : Decidable (self.Orderly (.send false)) :=
  match hrecv : recv self.queue with
  | none => isTrue (by rw [Orderly, hrecv]; trivial)
  | some (pauses, packet, rest) =>
      decidable_of_iff (packet.isTerminator = false ∧ ((rest.map Slot.mark).head? = some .last →
        Open ((self.wire ++ pauses).map Slot.mark))) (by rw [Orderly, hrecv])

instance (self : OutboundLoop) : ∀ event, Decidable (self.Orderly event)
  | .drain (.frame (.ok isSilent) _) =>
      inferInstanceAs (Decidable (self.pipeline.wasTalking = !isSilent))
  | .drain (.frame (.error _) _) => inferInstanceAs (Decidable True)
  | .drain .notEnoughSamples => inferInstanceAs (Decidable True)
  | .drain (.failure _) => inferInstanceAs (Decidable True)
  | .process (.frame (.ok true) written) =>
      inferInstanceAs (Decidable (self.pipeline.wasTalking = true →
        written.isOk = true ∧ (self.HasRoom ↔ Open self.line)))
  | .process (.frame (.ok false) written) =>
      inferInstanceAs (Decidable (self.pipeline.wasTalking = true ∨ written.isOk = true))
  | .process (.frame (.error _) _) => inferInstanceAs (Decidable True)
  | .process .notEnoughSamples => inferInstanceAs (Decidable True)
  | .process (.failure _) => inferInstanceAs (Decidable True)
  | .send true => inferInstanceAs (Decidable True)
  | .send false => inferInstanceAs (Decidable (self.Orderly (.send false)))

/-! ## The invariant -/

/-- The guard, the indicator and the pipeline agree, and outside a burst the line is ended. -/
structure Settled (loop : OutboundLoop) : Prop where
  formed : Formed loop.line
  guard : loop.isTalking = loop.pipeline.wasTalking
  shown : loop.shown = loop.pipeline.wasTalking
  closed : loop.pipeline.wasTalking = false → Closed loop.line

theorem Settled.framed {loop : OutboundLoop} (h : loop.Settled) : loop.Framed :=
  ⟨h.formed, h.shown⟩

theorem settled_start (encoder : OpusEncoder) : (start encoder).Settled :=
  ⟨rfl, rfl, rfl, fun _ => rfl⟩

/-! ## What the operations do -/

@[simp] theorem pipeline_setTalking (self : OutboundLoop) (talking : Bool) :
    (self.setTalking talking).pipeline = self.pipeline := by
  rw [setTalking]
  split_ifs <;> rfl

@[simp] theorem queue_setTalking (self : OutboundLoop) (talking : Bool) :
    (self.setTalking talking).queue = self.queue := by
  rw [setTalking]
  split_ifs <;> rfl

@[simp] theorem wire_setTalking (self : OutboundLoop) (talking : Bool) :
    (self.setTalking talking).wire = self.wire := by
  rw [setTalking]
  split_ifs <;> rfl

@[simp] theorem isTalking_setTalking (self : OutboundLoop) (talking : Bool) :
    (self.setTalking talking).isTalking = talking := by
  rw [setTalking]
  split_ifs with hne
  · rfl
  · exact not_not.mp hne

theorem shown_setTalking {self : OutboundLoop} (h : self.isTalking = self.shown)
    (talking : Bool) : (self.setTalking talking).shown = talking := by
  rw [setTalking]
  split_ifs with hne
  · rfl
  · exact h.symm.trans (not_not.mp hne)

@[simp] theorem pipeline_trySend (self : OutboundLoop) (packet : AudioPacketOut) :
    (self.trySend packet).pipeline = self.pipeline := by
  rw [trySend]
  split_ifs <;> rfl

@[simp] theorem isTalking_trySend (self : OutboundLoop) (packet : AudioPacketOut) :
    (self.trySend packet).isTalking = self.isTalking := by
  rw [trySend]
  split_ifs <;> rfl

@[simp] theorem shown_trySend (self : OutboundLoop) (packet : AudioPacketOut) :
    (self.trySend packet).shown = self.shown := by
  rw [trySend]
  split_ifs <;> rfl

@[simp] theorem wire_trySend (self : OutboundLoop) (packet : AudioPacketOut) :
    (self.trySend packet).wire = self.wire := by
  rw [trySend]
  split_ifs <;> rfl

theorem queue_trySend (self : OutboundLoop) (packet : AudioPacketOut) :
    (self.trySend packet).queue =
      if self.HasRoom then self.queue ++ [.packet packet] else self.queue := by
  rw [trySend]
  split_ifs <;> rfl

theorem line_trySend (self : OutboundLoop) (packet : AudioPacketOut) :
    (self.trySend packet).line =
      self.line ++ if self.HasRoom then [(Slot.packet packet).mark] else [] := by
  rw [line, queue_trySend, wire_trySend]
  split_ifs <;> simp [line]

theorem line_of_eq {self other : OutboundLoop} (hqueue : other.queue = self.queue)
    (hwire : other.wire = self.wire) : other.line = self.line := by
  rw [line, line, hqueue, hwire]

theorem hasRoom_of_eq {self other : OutboundLoop} (hqueue : other.queue = self.queue) :
    other.HasRoom ↔ self.HasRoom := by
  rw [HasRoom, HasRoom, hqueue]

@[simp] theorem line_append_pause (self : OutboundLoop) :
    line { self with queue := self.queue ++ [.pause] } = self.line ++ [.gap] := by
  simp [line, Slot.mark]

theorem recv_eq_some {queue pauses rest : List Slot} {packet : AudioPacketOut}
    (h : recv queue = some (pauses, packet, rest)) :
    queue = pauses ++ .packet packet :: rest := by
  induction queue generalizing pauses with
  | nil => cases h
  | cons slot queue ih =>
      cases slot with
      | packet packet' =>
          obtain ⟨rfl, rfl, rfl⟩ : [] = pauses ∧ packet' = packet ∧ queue = rest := by
            simpa [recv] using h
          rfl
      | pause =>
          simp only [recv, Option.map_eq_some_iff, Prod.exists, Prod.mk.injEq] at h
          obtain ⟨pauses', packet', rest', hrecv, rfl, rfl, rfl⟩ := h
          rw [ih hrecv, List.cons_append]

/-! ## What one read does -/

/-- A read puts `marks` on the line and leaves the pipeline and the indicator at the given
values. -/
structure Reads (before after : OutboundLoop) (marks : List Mark) (talking shown : Bool) :
    Prop where
  line : after.line = before.line ++ marks
  wasTalking : after.pipeline.wasTalking = talking
  isTalking : after.isTalking = shown
  shown : after.shown = shown

theorem Reads.framed_iff {before after : OutboundLoop} {marks : List Mark} {talking shown : Bool}
    (h : Reads before after marks talking shown) :
    after.Framed ↔ Formed (before.line ++ marks) ∧ shown = talking := by
  rw [Framed, h.line, h.shown, h.wasTalking]

theorem Reads.settled {before after : OutboundLoop} {marks : List Mark} {talking shown : Bool}
    (h : Reads before after marks talking shown) (hframed : after.Framed)
    (hclosed : talking = false → Formed (before.line ++ marks) → Closed (before.line ++ marks)) :
    after.Settled where
  formed := hframed.1
  guard := by rw [h.isTalking, ← h.shown, hframed.2]
  shown := hframed.2
  closed hfalse := h.line ▸ hclosed (h.wasTalking ▸ hfalse) (h.line ▸ hframed.1)

theorem reads_nothing {self : OutboundLoop} (h : self.Settled) {capture : Capture}
    (hnone : capture.isSilent? = none) :
    Reads self (self.step (.drain capture)) [] self.pipeline.wasTalking self.shown ∧
      Reads self (self.step (.process capture)) [] self.pipeline.wasTalking self.shown := by
  have hguard : self.isTalking = self.shown := h.guard.trans h.shown.symm
  have hmarks : self.line ++ [] = self.line := List.append_nil _
  match capture, hnone with
  | .notEnoughSamples, _ => exact ⟨⟨hmarks.symm, rfl, hguard, rfl⟩, ⟨hmarks.symm, rfl, hguard, rfl⟩⟩
  | .failure _, _ => exact ⟨⟨hmarks.symm, rfl, hguard, rfl⟩, ⟨hmarks.symm, rfl, hguard, rfl⟩⟩
  | .frame (.error _) _, _ =>
      exact ⟨⟨hmarks.symm, rfl, hguard, rfl⟩, ⟨hmarks.symm, rfl, hguard, rfl⟩⟩

theorem reads_pause {self after : OutboundLoop} {capture : Capture}
    (hsilent : capture.isSilent? = some true) (hqueue : after.queue = self.queue)
    (hwire : after.wire = self.wire) {talking shown : Bool}
    (htalking : after.pipeline.wasTalking = talking) (hguard : after.isTalking = shown)
    (hshown : after.shown = shown) :
    Reads self (pauseUnlessQueued self capture after) [.gap] talking shown := by
  rw [pauseUnlessQueued, if_pos ⟨hsilent, hqueue⟩]
  refine ⟨?_, htalking, hguard, hshown⟩
  rw [line_append_pause, line_of_eq hqueue hwire]

theorem pauseUnlessQueued_eq {self after : OutboundLoop} {capture : Capture}
    (h : capture.isSilent? = some true → after.queue ≠ self.queue) :
    pauseUnlessQueued self capture after = after := by
  rw [pauseUnlessQueued, if_neg]
  rintro ⟨hsilent, hqueue⟩
  exact h hsilent hqueue

theorem reads_drain_silent {self : OutboundLoop} (h : self.Settled)
    (written : Except String (List UInt8)) :
    Reads self (self.step (.drain (.frame (.ok true) written))) [.gap] false self.shown := by
  have hguard : self.isTalking = self.shown := h.guard.trans h.shown.symm
  have hdrain : ∃ pipeline, (self.drainTick (.frame (.ok true) written)).2 =
      { self with pipeline } ∧ pipeline.wasTalking = false := by
    cases htalking : self.pipeline.wasTalking with
    | false =>
        simp only [drainTick, OutboundPipeline.tick, htalking]
        exact ⟨self.pipeline, rfl, htalking⟩
    | true =>
        simp only [drainTick, OutboundPipeline.tick, htalking, if_true]
        cases written with
        | error message => exact ⟨_, rfl, rfl⟩
        | ok data => exact ⟨_, rfl, rfl⟩
  obtain ⟨pipeline, hdrain, hfalse⟩ := hdrain
  rw [step, hdrain]
  apply reads_pause
  · rfl
  · rfl
  · rfl
  · exact hfalse
  · exact hguard
  · rfl

theorem reads_drain_speech {self : OutboundLoop} (h : self.Settled)
    (written : Except String (List UInt8)) :
    Reads self (self.step (.drain (.frame (.ok false) written))) [] true self.shown := by
  have hguard : self.isTalking = self.shown := h.guard.trans h.shown.symm
  have hmarks : self.line ++ [] = self.line := List.append_nil _
  have hstep : self.step (.drain (.frame (.ok false) written)) =
      (self.drainTick (.frame (.ok false) written)).2 :=
    pauseUnlessQueued_eq fun hsilent => nomatch hsilent
  rw [hstep]
  cases written with
  | error message => exact ⟨hmarks.symm, rfl, hguard, rfl⟩
  | ok data => exact ⟨hmarks.symm, rfl, hguard, rfl⟩

theorem reads_process_speech {self : OutboundLoop} (h : self.Settled)
    (written : Except String (List UInt8)) :
    Reads self (self.step (.process (.frame (.ok false) written)))
      (if written.isOk ∧ self.HasRoom then [.body] else []) true (written.isOk || self.shown) := by
  have hguard : self.isTalking = self.shown := h.guard.trans h.shown.symm
  have hstep : self.step (.process (.frame (.ok false) written)) =
      (self.processOutboundTick (.frame (.ok false) written)).2 :=
    pauseUnlessQueued_eq fun hsilent => nomatch hsilent
  rw [hstep]
  cases written with
  | error message =>
      rw [if_neg fun hok => nomatch hok.1]
      exact ⟨(List.append_nil _).symm, rfl, hguard, rfl⟩
  | ok data =>
      let encoder := { self.pipeline.encoder with sequence := self.pipeline.encoder.sequence + 1 }
      let moved := setTalking { self with pipeline := { encoder, wasTalking := true } } true
      have htick : (self.processOutboundTick (.frame (.ok false) (.ok data))).2 =
          moved.trySend ⟨data, self.pipeline.encoder.sequence, false⟩ := rfl
      have hqueue : moved.queue = self.queue := queue_setTalking _ _
      have hline : moved.line = self.line := line_of_eq hqueue (wire_setTalking _ _)
      rw [htick]
      refine ⟨?_, ?_, ?_, ?_⟩
      · rw [line_trySend, hline, if_congr (hasRoom_of_eq hqueue) rfl rfl]
        exact congrArg (self.line ++ ·) (if_congr (and_iff_right rfl).symm rfl rfl)
      · rw [pipeline_trySend, pipeline_setTalking]
      · rw [isTalking_trySend, isTalking_setTalking]
        rfl
      · rw [shown_trySend]
        apply shown_setTalking
        exact hguard

theorem reads_process_silent {self : OutboundLoop} (h : self.Settled)
    (htalking : self.pipeline.wasTalking = false) (written : Except String (List UInt8)) :
    Reads self (self.step (.process (.frame (.ok true) written))) [.gap] false self.shown := by
  have hguard : self.isTalking = self.shown := h.guard.trans h.shown.symm
  have htick : (self.processOutboundTick (.frame (.ok true) written)).2 = self := by
    simp only [processOutboundTick, OutboundPipeline.tick, htalking]
    rfl
  rw [step, htick]
  apply reads_pause
  · rfl
  · rfl
  · rfl
  · exact htalking
  · exact hguard
  · rfl

theorem reads_process_terminator {self : OutboundLoop} (h : self.Settled)
    (htalking : self.pipeline.wasTalking = true) (written : Except String (List UInt8)) :
    Reads self (self.step (.process (.frame (.ok true) written)))
      [if written.isOk ∧ self.HasRoom then .last else .gap] false (!written.isOk) := by
  have hguard : self.isTalking = self.shown := h.guard.trans h.shown.symm
  cases written with
  | error message =>
      have htick : (self.processOutboundTick (.frame (.ok true) (.error message))).2 =
          { self with pipeline := { self.pipeline with wasTalking := false } } := by
        simp only [processOutboundTick, OutboundPipeline.tick, htalking, if_true,
          OpusEncoder.encode]
      rw [step, htick, if_neg fun hok => nomatch hok.1]
      apply reads_pause
      · rfl
      · rfl
      · rfl
      · rfl
      · exact h.guard.trans htalking
      · exact h.shown.trans htalking
  | ok data =>
      let encoder := { self.pipeline.encoder with sequence := self.pipeline.encoder.sequence + 1 }
      let moved := setTalking { self with pipeline := { encoder, wasTalking := false } } false
      let out : AudioPacketOut := ⟨data, self.pipeline.encoder.sequence, true⟩
      have htick : (self.processOutboundTick (.frame (.ok true) (.ok data))).2 =
          moved.trySend out := by
        simp only [processOutboundTick, OutboundPipeline.tick, htalking, if_true,
          OpusEncoder.encode]
        rfl
      have hqueue : moved.queue = self.queue := queue_setTalking _ _
      have hwire : moved.wire = self.wire := wire_setTalking _ _
      have hline : moved.line = self.line := line_of_eq hqueue hwire
      have hshown : moved.shown = false := by
        apply shown_setTalking
        exact hguard
      have hsame : moved.isTalking = false := isTalking_setTalking _ _
      have hfalse : moved.pipeline.wasTalking = false := by rw [pipeline_setTalking]
      rw [step, htick]
      by_cases hroom : self.HasRoom
      · have hroom' : moved.HasRoom := (hasRoom_of_eq hqueue).mpr hroom
        rw [if_pos ⟨rfl, hroom⟩, pauseUnlessQueued_eq]
        · refine ⟨?_, by rw [pipeline_trySend, hfalse], by rw [isTalking_trySend, hsame]; rfl,
            by rw [shown_trySend, hshown]; rfl⟩
          rw [line_trySend, hline, if_pos hroom']
          rfl
        · intro _ heq
          rw [queue_trySend, if_pos hroom', hqueue] at heq
          exact absurd (congrArg List.length heq) (by simp)
      · have hkept : moved.trySend out = moved := by
          rw [trySend, if_neg fun hroom' => hroom ((hasRoom_of_eq hqueue).mp hroom')]
        rw [if_neg fun hok => hroom hok.2, hkept]
        exact reads_pause rfl hqueue hwire hfalse hsame hshown

/-! ## What a send does -/

theorem settled_taken {self : OutboundLoop} (h : self.Settled) :
    (self.step (.send true)).Settled := by
  rw [step, sendNext]
  cases hrecv : recv self.queue with
  | none => exact h
  | some taken =>
      obtain ⟨pauses, packet, rest⟩ := taken
      have hline : line { self with
          queue := rest, wire := self.wire ++ pauses ++ [.packet packet] } = self.line := by
        rw [line, line, recv_eq_some hrecv]
        simp
      exact ⟨hline ▸ h.formed, h.guard, h.shown, fun hfalse => hline ▸ h.closed hfalse⟩

theorem framed_untaken_iff {self : OutboundLoop} (h : self.Settled) :
    (self.step (.send false)).Framed ↔ self.Orderly (.send false) := by
  rw [step, sendNext, Orderly]
  cases hrecv : recv self.queue with
  | none => exact iff_of_true h.framed trivial
  | some untaken =>
      obtain ⟨pauses, packet, rest⟩ := untaken
      have hline : self.line =
          (self.wire ++ pauses).map Slot.mark ++
            (Slot.packet packet).mark :: rest.map Slot.mark := by
        rw [line, recv_eq_some hrecv]
        simp
      have hformed := hline ▸ h.formed
      dsimp only
      rw [Framed, and_iff_left h.shown]
      cases hlast : packet.isTerminator with
      | false =>
          have hmark : (Slot.packet packet).mark = .body := by rw [Slot.mark, hlast]; rfl
          have hafter : line { self with
              queue := rest, wire := self.wire ++ pauses ++ unsent packet } =
                (self.wire ++ pauses).map Slot.mark ++ rest.map Slot.mark := by
            simp [line, unsent, hlast]
          rw [hmark] at hformed
          rw [if_neg Bool.false_ne_true, hafter, Bursts.formed_drop_body_iff hformed,
            and_iff_right rfl]
      | true =>
          have hmark : (Slot.packet packet).mark = .last := by rw [Slot.mark, hlast]; rfl
          have hafter : line { self with
              queue := rest, wire := self.wire ++ pauses ++ unsent packet } =
                (self.wire ++ pauses).map Slot.mark ++ .gap :: rest.map Slot.mark := by
            simp [line, unsent, hlast, Slot.mark]
          rw [hmark] at hformed
          rw [if_neg Bool.false_ne_true, hafter]
          exact iff_of_false (Bursts.not_formed_gap_of_last hformed) fun hno => nomatch hno.1

theorem settled_untaken {self : OutboundLoop} (h : self.Settled)
    (hframed : (self.step (.send false)).Framed) : (self.step (.send false)).Settled := by
  have horderly := (framed_untaken_iff h).mp hframed
  obtain ⟨hformed, -⟩ := hframed
  rw [step, sendNext] at hformed ⊢
  rw [Orderly] at horderly
  cases hrecv : recv self.queue with
  | none => exact h
  | some untaken =>
      obtain ⟨pauses, packet, rest⟩ := untaken
      rw [hrecv] at hformed horderly
      dsimp only at hformed horderly ⊢
      rw [if_neg Bool.false_ne_true] at hformed ⊢
      have hmark : (Slot.packet packet).mark = .body := by rw [Slot.mark, horderly.1]; rfl
      have hline : self.line =
          (self.wire ++ pauses).map Slot.mark ++ .body :: rest.map Slot.mark := by
        rw [line, recv_eq_some hrecv, ← hmark]
        simp
      have hafter : line { self with
          queue := rest, wire := self.wire ++ pauses ++ unsent packet } =
            (self.wire ++ pauses).map Slot.mark ++ rest.map Slot.mark := by
        simp [line, unsent, horderly.1]
      refine ⟨hformed, h.guard, h.shown, fun hfalse => ?_⟩
      rw [hafter] at hformed ⊢
      exact Bursts.closed_drop_body (hline ▸ h.closed hfalse) hformed

/-! ## One step -/

theorem keepsFramed_drain_iff {self : OutboundLoop} (h : self.Settled) (capture : Capture) :
    self.KeepsFramed (.drain capture) ↔ self.Orderly (.drain capture) := by
  match hcapture : capture with
  | .notEnoughSamples | .failure _ | .frame (.error _) _ =>
      refine iff_of_true ((reads_nothing h rfl).1.framed_iff.mpr ⟨?_, h.shown⟩) trivial
      rw [List.append_nil]
      exact h.formed
  | .frame (.ok true) written =>
      rw [KeepsFramed, (reads_drain_silent h written).framed_iff, Orderly, h.shown]
      refine ⟨fun hboth => hboth.2, fun hfalse => ⟨?_, hfalse⟩⟩
      exact (Bursts.closed_gap (h.closed hfalse)).formed
  | .frame (.ok false) written =>
      rw [KeepsFramed, (reads_drain_speech h written).framed_iff, Orderly, h.shown,
        List.append_nil]
      exact and_iff_right h.formed

theorem keepsFramed_process_iff {self : OutboundLoop} (h : self.Settled) (capture : Capture) :
    self.KeepsFramed (.process capture) ↔ self.Orderly (.process capture) := by
  match hcapture : capture with
  | .notEnoughSamples | .failure _ | .frame (.error _) _ =>
      refine iff_of_true ((reads_nothing h rfl).2.framed_iff.mpr ⟨?_, h.shown⟩) trivial
      rw [List.append_nil]
      exact h.formed
  | .frame (.ok false) written =>
      rw [KeepsFramed, (reads_process_speech h written).framed_iff, Orderly, h.shown,
        Bool.or_eq_true, or_comm]
      refine and_iff_right ?_
      split_ifs
      · exact (Bursts.open_body h.formed).formed
      · rw [List.append_nil]
        exact h.formed
  | .frame (.ok true) written =>
      rw [Orderly]
      cases htalking : self.pipeline.wasTalking with
      | false =>
          refine iff_of_true ?_ fun hno => nomatch hno
          refine (reads_process_silent h htalking written).framed_iff.mpr ⟨?_, ?_⟩
          · exact (Bursts.closed_gap (h.closed htalking)).formed
          · exact h.shown.trans htalking
      | true =>
          rw [KeepsFramed, (reads_process_terminator h htalking written).framed_iff]
          cases hok : written.isOk with
          | false => exact iff_of_false (fun hno => nomatch hno.2) fun hno => nomatch (hno rfl).1
          | true =>
              by_cases hroom : self.HasRoom
              · rw [if_pos ⟨rfl, hroom⟩, Bursts.formed_last_iff h.formed]
                exact ⟨fun hopen _ => ⟨rfl, iff_of_true hroom hopen.1⟩,
                  fun hboth => ⟨(hboth rfl).2.mp hroom, rfl⟩⟩
              · rw [if_neg fun hboth => hroom hboth.2, Bursts.formed_gap_iff h.formed]
                exact ⟨fun hopen _ => ⟨rfl, iff_of_false hroom hopen.1⟩,
                  fun hboth => ⟨fun hopen => hroom ((hboth rfl).2.mpr hopen), rfl⟩⟩

theorem keepsFramed_iff {self : OutboundLoop} (h : self.Settled) (event : Event) :
    self.KeepsFramed event ↔ self.Orderly event := by
  cases event with
  | drain capture => exact keepsFramed_drain_iff h capture
  | process capture => exact keepsFramed_process_iff h capture
  | send taken =>
      cases taken with
      | false => exact framed_untaken_iff h
      | true => exact iff_of_true (settled_taken h).framed trivial

theorem settled_step {self : OutboundLoop} (h : self.Settled) {event : Event}
    (hframed : self.KeepsFramed event) : (self.step event).Settled := by
  have hkept : self.pipeline.wasTalking = false → Formed (self.line ++ []) →
      Closed (self.line ++ []) := by
    intro hfalse _
    rw [List.append_nil]
    exact h.closed hfalse
  match hevent : event with
  | .drain .notEnoughSamples | .drain (.failure _) | .drain (.frame (.error _) _) =>
      exact (reads_nothing h rfl).1.settled hframed hkept
  | .process .notEnoughSamples | .process (.failure _) | .process (.frame (.error _) _) =>
      exact (reads_nothing h rfl).2.settled hframed hkept
  | .drain (.frame (.ok true) written) =>
      exact (reads_drain_silent h written).settled hframed fun _ => Bursts.closed_of_gap
  | .drain (.frame (.ok false) written) =>
      exact (reads_drain_speech h written).settled hframed fun hno => nomatch hno
  | .process (.frame (.ok false) written) =>
      exact (reads_process_speech h written).settled hframed fun hno => nomatch hno
  | .process (.frame (.ok true) written) =>
      cases htalking : self.pipeline.wasTalking with
      | false =>
          exact (reads_process_silent h htalking written).settled hframed
            fun _ => Bursts.closed_of_gap
      | true =>
          refine (reads_process_terminator h htalking written).settled hframed fun _ => ?_
          split_ifs
          · exact Bursts.closed_of_last
          · exact Bursts.closed_of_gap
  | .send true => exact settled_taken h
  | .send false => exact settled_untaken h hframed

/-! ## Whole runs -/

/-- In every run of the loop and the send task, the packets are in bursts and the indicator
shows whether the pipeline is in one after every step, exactly when every step is orderly. -/
theorem framed_run_iff (encoder : OpusEncoder) (events : List Event) :
    Along step KeepsFramed (start encoder) events ↔
      Along step Orderly (start encoder) events := by
  have hiff : ∀ (self : OutboundLoop) (event : Event), self.Settled → True →
      (self.KeepsFramed event ↔ self.Orderly event) :=
    fun _ event h _ => keepsFramed_iff h event
  have hstep : ∀ (self : OutboundLoop) (event : Event), self.Settled → True →
      self.Orderly event → (self.step event).Settled :=
    fun _ event h _ horderly => settled_step h ((keepsFramed_iff h event).mpr horderly)
  exact Runs.along_iff_along hiff hstep (settled_start encoder)
    (Runs.along_of_forall (fun _ _ => trivial) _ events)

/-- The user starts to speak, and the silence after it is read by the drain that follows a
stall: the burst is not ended and the indicator stays on. -/
theorem stall_swallows_terminator :
    ¬ ∀ (encoder : OpusEncoder) (events : List Event),
      Along step KeepsFramed (start encoder) events := by
  intro h
  have hrun := h ⟨960, 0⟩
    [.process (.frame (.ok false) (.ok [1])), .drain (.frame (.ok true) (.ok [2]))]
  exact absurd hrun (by decide)

end OutboundLoop

end FancyMumble.Audio
