import FancyMumble.Audio.Recording
import Mathlib.Data.List.Infix

/-!
# What a recording holds

The recorder beside the mixer and the playback: which of the samples decoded for a speaker
the snapshots take, in which order, and which of those in a buffer they may leave out.
-/

namespace FancyMumble.Audio

open Lib
open Lib.Runs (Along)

variable {α : Type*}

structure Recorder (α : Type*) where
  buffers : SpeakerBuffers α := []
  mixBuf : List α := []
  cursors : Cursors := fun _ => none
  /-- The samples written to the file. -/
  written : List α := []
  /-- All samples that were decoded for a speaker, from the first on. -/
  decoded : Nat → List α := fun _ => []
  /-- The samples that the snapshots took of a speaker, and which of its samples they are. -/
  samples : Nat → List α := fun _ => []
  taken : Nat → List Nat := fun _ => []
  /-- How many samples of the speaker had been decoded at the last snapshot. -/
  mark : Nat → Nat := fun _ => 0
  /-- Behind the recorder's cursor, samples have left the speaker's buffer since then. -/
  disturbed : Nat → Bool := fun _ => false
  /-- The samples decoded between two snapshots between which the buffer was disturbed. -/
  excused : Nat → List Nat := fun _ => []

inductive RecorderEvent (α : Type*) where
  /-- The mixer pushes a decoded frame. -/
  | push (session : Nat) (frame : List α)
  /-- The mixer fills a gap with silence. -/
  | silence (session units : Nat)
  /-- The playback drains the fronts of the buffers. -/
  | drain (count : Nat)
  /-- The buffer of a speaker is removed. -/
  | leave (session : Nat)
  /-- The recorder takes a snapshot and writes it. -/
  | snapshot

namespace Recorder

def removed (self : Recorder α) (session : Nat) : Nat :=
  (self.decoded session).length - (self.buffers.buffer session).length

def InBuffer (self : Recorder α) (session position : Nat) : Prop :=
  self.removed session ≤ position ∧ position < (self.decoded session).length

/-- New buffers take the place of the old ones. A speaker with a cursor that has lost samples
from the front, or its buffer, is disturbed. -/
def moved (self : Recorder α) (buffers : SpeakerBuffers α) (decoded : Nat → List α) :
    Recorder α :=
  let next := { self with buffers, decoded }
  { next with
    disturbed := fun session => self.disturbed session || decide (0 < self.cursors.at session ∧
      (self.removed session < next.removed session ∨
        self.buffers.Has session ∧ ¬ buffers.Has session)) }

/-! ## The law -/

/-- The samples taken of each speaker are its decoded samples at increasing positions. -/
def InOrder (self : Recorder α) : Prop :=
  ∀ session, (self.taken session).Pairwise (· < ·) ∧
    (self.samples session).map some =
      (self.taken session).map fun position => (self.decoded session)[position]?

/-- Every sample in a buffer has been taken, or was decoded while the buffer was disturbed. -/
def Complete (self : Recorder α) : Prop :=
  ∀ session position, self.InBuffer session position →
    position ∈ self.taken session ∨ position ∈ self.excused session

/-! ## The invariant -/

structure Sound (recorder : Recorder α) : Prop where
  keys : (recorder.buffers.map Prod.fst).Nodup
  suffix : ∀ session, recorder.buffers.buffer session <:+ recorder.decoded session
  mark_le : ∀ session, recorder.mark session ≤ (recorder.decoded session).length
  inOrder : recorder.InOrder
  /-- What was taken lies before the cursor. -/
  behind : ∀ session, ∀ position ∈ recorder.taken session,
    position < recorder.removed session + recorder.cursors.at session ∧
      position < (recorder.decoded session).length
  /-- What was in the buffer at the last snapshot has been taken. -/
  covered : ∀ session position, recorder.removed session ≤ position →
    position < recorder.mark session →
      position ∈ recorder.taken session ∨ position ∈ recorder.excused session
  /-- A cursor that is not disturbed is where the last snapshot left it. -/
  calm : ∀ session, recorder.disturbed session = false →
    recorder.cursors.at session = 0 ∨ recorder.buffers.Has session ∧
      recorder.removed session + recorder.cursors.at session = recorder.mark session

theorem length_buffer_add_removed {self : Recorder α} (h : Sound self) (session : Nat) :
    (self.buffers.buffer session).length + self.removed session =
      (self.decoded session).length := by
  rw [removed]
  have hle := (h.suffix session).length_le
  omega

theorem buffer_eq_drop {self : Recorder α} (h : Sound self) (session : Nat) :
    self.buffers.buffer session = (self.decoded session).drop (self.removed session) := by
  rw [removed, ← List.suffix_iff_eq_drop]
  exact h.suffix session

theorem sound_start : Sound ({} : Recorder α) where
  keys := List.nodup_nil
  suffix _ := List.suffix_rfl
  mark_le _ := Nat.le_refl 0
  inOrder _ := ⟨List.Pairwise.nil, rfl⟩
  behind _ _ h := nomatch h
  covered _ _ _ h := nomatch h
  calm _ _ := .inl rfl

/-- Samples are appended to the buffers and taken from their fronts. -/
def Moves (self : Recorder α) (buffers : SpeakerBuffers α) (decoded : Nat → List α) : Prop :=
  ∀ session, ∃ samples, decoded session = self.decoded session ++ samples ∧
    buffers.buffer session <:+ self.buffers.buffer session ++ samples

theorem removed_le_moved {self : Recorder α} (h : Sound self) {buffers : SpeakerBuffers α}
    {decoded : Nat → List α} (hmoves : self.Moves buffers decoded) (session : Nat) :
    self.removed session ≤ (self.moved buffers decoded).removed session := by
  obtain ⟨samples, hdecoded, hsuffix⟩ := hmoves session
  have hle := hsuffix.length_le
  have hold := (h.suffix session).length_le
  rw [List.length_append] at hle
  show _ ≤ (decoded session).length - (buffers.buffer session).length
  rw [removed, hdecoded, List.length_append]
  omega

theorem sound_moved {self : Recorder α} (h : Sound self) {buffers : SpeakerBuffers α}
    {decoded : Nat → List α} (hkeys : (buffers.map Prod.fst).Nodup)
    (hmoves : self.Moves buffers decoded) : Sound (self.moved buffers decoded) := by
  have hgrown : ∀ session, self.decoded session <+: decoded session := fun session => by
    obtain ⟨samples, hdecoded, -⟩ := hmoves session
    exact hdecoded ▸ List.prefix_append _ _
  have hremoved := removed_le_moved h hmoves
  refine ⟨hkeys, fun session => ?_, fun session => ?_, fun session => ?_,
    fun session position hposition => ?_, fun session position hin hmark => ?_,
    fun session hcalm => ?_⟩
  · obtain ⟨samples, hdecoded, hsuffix⟩ := hmoves session
    show buffers.buffer session <:+ decoded session
    rw [hdecoded]
    exact hsuffix.trans ((List.suffix_append_inj_of_length_eq rfl).mpr ⟨h.suffix session, rfl⟩)
  · exact (h.mark_le session).trans (hgrown session).length_le
  · obtain ⟨hsorted, hsamples⟩ := h.inOrder session
    refine ⟨hsorted, hsamples.trans (List.map_congr_left fun position hposition => ?_)⟩
    obtain ⟨frame, hframe⟩ := hgrown session
    show (self.decoded session)[position]? = (decoded session)[position]?
    rw [← hframe, List.getElem?_append_left (h.behind session position hposition).2]
  · obtain ⟨hcursor, hlength⟩ := h.behind session position hposition
    exact ⟨hcursor.trans_le (Nat.add_le_add_right (hremoved session) _),
      hlength.trans_le (hgrown session).length_le⟩
  · exact h.covered session position ((hremoved session).trans hin) hmark
  · obtain ⟨hbefore, hquiet⟩ := Bool.or_eq_false_iff.mp hcalm
    have hquiet := of_decide_eq_false hquiet
    rcases h.calm session hbefore with hzero | ⟨hhas, hmark⟩
    · exact .inl hzero
    · by_cases hzero : self.cursors.at session = 0
      · exact .inl hzero
      · right
        rw [not_and, not_or, not_and, not_not] at hquiet
        obtain ⟨hsame, hstays⟩ := hquiet (Nat.pos_of_ne_zero hzero)
        refine ⟨hstays hhas, ?_⟩
        have heq := Nat.le_antisymm (Nat.le_of_not_lt hsame) (hremoved session)
        exact heq ▸ hmark

theorem moves_append {self : Recorder α} (session : Nat) {samples kept : List α}
    (hkept : kept <:+ self.buffers.buffer session ++ samples) :
    self.Moves (self.buffers.setBuffer session kept)
      (Function.update self.decoded session (self.decoded session ++ samples)) := by
  intro other
  by_cases heq : other = session
  · subst heq
    rw [SpeakerBuffers.buffer_setBuffer, Function.update_self]
    exact ⟨samples, rfl, hkept⟩
  · rw [SpeakerBuffers.buffer_setBuffer_of_ne _ heq, Function.update_of_ne heq]
    refine ⟨[], (List.append_nil _).symm, ?_⟩
    rw [List.append_nil]

/-- A step moves samples and leaves the rest of the recorder alone. -/
structure MovedTo (before after : Recorder α) : Prop where
  sound : Sound after
  removed_le : ∀ session, before.removed session ≤ after.removed session
  cursors : after.cursors = before.cursors
  taken : after.taken = before.taken

theorem movedTo_moved {self : Recorder α} (h : Sound self) {buffers : SpeakerBuffers α}
    {decoded : Nat → List α} (hkeys : (buffers.map Prod.fst).Nodup)
    (hmoves : self.Moves buffers decoded) : self.MovedTo (self.moved buffers decoded) where
  sound := sound_moved h hkeys hmoves
  removed_le := removed_le_moved h hmoves
  cursors := rfl
  taken := rfl

theorem MovedTo.trans {self next last : Recorder α} (h : self.MovedTo next)
    (h' : next.MovedTo last) : self.MovedTo last where
  sound := h'.sound
  removed_le session := (h.removed_le session).trans (h'.removed_le session)
  cursors := h'.cursors.trans h.cursors
  taken := h'.taken.trans h.taken

theorem lt_of_mem_taken {self : Recorder α} (h : Sound self) {session position : Nat}
    (hposition : position ∈ self.taken session) :
    position < self.removed session + readStart self.buffers self.cursors session := by
  obtain ⟨hcursor, hlength⟩ := h.behind session position hposition
  have hsum := length_buffer_add_removed h session
  rw [readStart]
  omega

theorem map_some_drop (samples : List α) (start : Nat) :
    (samples.drop start).map some =
      (List.range' start (samples.length - start)).map fun position => samples[position]? := by
  apply List.ext_getElem
  · rw [List.length_map, List.length_drop, List.length_map, List.length_range']
  · intro index hleft hright
    rw [List.length_map, List.length_drop] at hleft
    rw [List.getElem_map, List.getElem_drop, List.getElem_map, List.getElem_range', Nat.one_mul,
      List.getElem?_eq_getElem (by omega)]

/-! ## The steps -/

variable [Zero α] [Add α] (clamp : α → α)

def record (self : Recorder α) : Recorder α :=
  let snapshot := snapshotAndMix clamp self.buffers self.mixBuf self.cursors
  { self with
    mixBuf := snapshot.mixBuf
    cursors := snapshot.cursors
    written := self.written ++ snapshot.mixBuf.take snapshot.count
    samples := fun session => self.samples session ++ snapshot.samplesOf session
    taken := fun session => self.taken session ++
      (snapshot.indicesOf session).map (self.removed session + ·)
    mark := fun session => (self.decoded session).length
    disturbed := fun session =>
      self.disturbed session && !decide (self.buffers.Has session ∨ snapshot.cursors session = none)
    excused := fun session =>
      if self.disturbed session then
        self.excused session ++ List.range' (self.mark session)
          ((self.decoded session).length - self.mark session)
      else self.excused session }

def step (self : Recorder α) : RecorderEvent α → Recorder α
  | .push session frame =>
      self.moved (self.buffers.pushSamples session frame)
        (Function.update self.decoded session (self.decoded session ++ frame))
  | .silence session units =>
      let buffers := self.buffers.insertSilence session units
      let inserted := (buffers.buffer session).length - (self.buffers.buffer session).length
      self.moved buffers (Function.update self.decoded session
        (self.decoded session ++ List.replicate inserted 0))
  | .drain count => self.moved (self.buffers.drainSpeakers count) self.decoded
  | .leave session => self.moved (Keyed.delete Prod.fst session self.buffers) self.decoded
  | .snapshot => self.record clamp

/-- What holds of every step of a recording. A snapshot leaves the buffers as they are; it
takes nothing of a speaker whose cursor points past the end, and moves the cursor there. -/
def Lawful (self : Recorder α) (event : RecorderEvent α) : Prop :=
  (self.step clamp event).InOrder ∧
    match event with
    | .snapshot =>
        (self.record clamp).buffers = self.buffers ∧ (self.record clamp).Complete ∧
          ∀ session, self.buffers.Has session →
            (self.buffers.buffer session).length < self.cursors.at session →
            (self.record clamp).taken session = self.taken session ∧
              (self.record clamp).cursors.at session = (self.buffers.buffer session).length
    | _ => True

/-- The samples in a buffer at a snapshot have all been taken by then. -/
def MissesNone (self : Recorder α) : RecorderEvent α → Prop
  | .snapshot => ∀ session position, self.InBuffer session position →
      position ∈ (self.record clamp).taken session
  | _ => True

/-! ## What the moves do -/

theorem movedTo_push {self : Recorder α} (h : Sound self) (session : Nat) (frame : List α) :
    self.MovedTo (self.step clamp (.push session frame)) := by
  rw [step, SpeakerBuffers.pushSamples]
  split_ifs
  · exact movedTo_moved h (Keyed.nodup_put h.keys) (moves_append session (List.drop_suffix _ _))
  · exact movedTo_moved h (Keyed.nodup_put h.keys) (moves_append session List.suffix_rfl)

theorem movedTo_silence {self : Recorder α} (h : Sound self) (session units : Nat) :
    self.MovedTo (self.step clamp (.silence session units)) := by
  rw [step, SpeakerBuffers.insertSilence]
  split_ifs with hzero
  · rw [Nat.sub_self, List.replicate_zero, List.append_nil, Function.update_eq_self]
    refine movedTo_moved h h.keys fun other => ⟨[], (List.append_nil _).symm, ?_⟩
    rw [List.append_nil]
  · rw [SpeakerBuffers.buffer_setBuffer, List.length_append, Nat.add_sub_cancel_left,
      List.length_replicate]
    exact movedTo_moved h (Keyed.nodup_put h.keys) (moves_append session List.suffix_rfl)

theorem movedTo_drain {self : Recorder α} (h : Sound self) (count : Nat) :
    self.MovedTo (self.step clamp (.drain count)) := by
  refine movedTo_moved h ?_ fun session => ⟨[], (List.append_nil _).symm, ?_⟩
  · rw [SpeakerBuffers.drainSpeakers, List.map_map]
    exact h.keys
  · rw [SpeakerBuffers.buffer_drainSpeakers, List.append_nil]
    exact List.drop_suffix _ _

theorem movedTo_leave {self : Recorder α} (h : Sound self) (session : Nat) :
    self.MovedTo (self.step clamp (.leave session)) := by
  refine movedTo_moved h (Keyed.nodup_delete h.keys) fun other =>
    ⟨[], (List.append_nil _).symm, ?_⟩
  rw [SpeakerBuffers.buffer, Keyed.find_delete, List.append_nil]
  split_ifs
  · exact List.nil_suffix
  · exact List.suffix_rfl

/-! ## What a snapshot does -/

theorem taken_record {self : Recorder α} (h : Sound self) (session : Nat) :
    (self.record clamp).taken session = self.taken session ++
      List.range' (self.removed session + readStart self.buffers self.cursors session)
        ((self.buffers.buffer session).length -
          readStart self.buffers self.cursors session) := by
  show _ ++ List.map _ _ = _
  rw [indicesOf_snapshotAndMix clamp _ _ h.keys, List.map_add_range']

theorem samples_record {self : Recorder α} (h : Sound self) (session : Nat) :
    (self.record clamp).samples session = self.samples session ++
      (self.decoded session).drop
        (self.removed session + readStart self.buffers self.cursors session) := by
  show _ ++ _ = _
  rw [samplesOf_snapshotAndMix clamp _ _ h.keys, buffer_eq_drop h, List.drop_drop]

theorem inOrder_record {self : Recorder α} (h : Sound self) : (self.record clamp).InOrder := by
  intro session
  obtain ⟨hsorted, hsamples⟩ := h.inOrder session
  have hsum := length_buffer_add_removed h session
  rw [taken_record clamp h, samples_record clamp h]
  constructor
  · refine List.pairwise_append.mpr ⟨hsorted, List.pairwise_lt_range', ?_⟩
    intro position hposition later hlater
    exact (lt_of_mem_taken h hposition).trans_le (List.left_le_of_mem_range' hlater)
  · rw [List.map_append, List.map_append, hsamples]
    have hcount : (self.buffers.buffer session).length -
        readStart self.buffers self.cursors session =
          (self.decoded session).length -
            (self.removed session + readStart self.buffers self.cursors session) := by omega
    rw [map_some_drop, hcount]
    rfl

/-- A snapshot covers everything in the buffers, unless they were disturbed. -/
theorem complete_record {self : Recorder α} (h : Sound self) : (self.record clamp).Complete := by
  intro session position hin
  obtain ⟨hfirst, hlast⟩ : self.removed session ≤ position ∧
    position < (self.decoded session).length := hin
  have hsum := length_buffer_add_removed h session
  have hmark := h.mark_le session
  rw [taken_record clamp h, List.mem_append, List.mem_range'_1]
  show _ ∨ position ∈ if self.disturbed session then _ else _
  by_cases hold : position < self.mark session
  · rcases h.covered session position hfirst hold with htaken | hexcused
    · exact .inl (.inl htaken)
    · right
      split_ifs
      · exact List.mem_append_left _ hexcused
      · exact hexcused
  · cases hdisturbed : self.disturbed session with
    | true =>
        right
        rw [if_pos rfl, List.mem_append, List.mem_range'_1]
        exact .inr (by omega)
    | false =>
        left
        right
        have hstart : readStart self.buffers self.cursors session + self.removed session ≤
            position := by
          rw [readStart]
          rcases h.calm session hdisturbed with hzero | ⟨-, hcalm⟩
          · omega
          · omega
        omega

theorem sound_record {self : Recorder α} (h : Sound self) : Sound (self.record clamp) where
  keys := h.keys
  suffix := h.suffix
  mark_le _ := Nat.le_refl _
  inOrder := inOrder_record clamp h
  behind session position hposition := by
    have hsum := length_buffer_add_removed h session
    rw [taken_record clamp h, List.mem_append, List.mem_range'_1] at hposition
    show position < self.removed session +
        (snapshotAndMix clamp self.buffers self.mixBuf self.cursors).cursors.at session ∧
      position < (self.decoded session).length
    by_cases hhas : self.buffers.Has session
    · rw [cursor_snapshotAndMix clamp _ _ h.keys hhas]
      rcases hposition with hold | hnew
      · have hlength := (h.behind session position hold).2
        omega
      · omega
    · rw [SpeakerBuffers.buffer_of_not_has hhas] at hsum hposition
      rcases hposition with hold | hnew
      · have hlength := (h.behind session position hold).2
        exact ⟨by simp only [List.length_nil] at hsum; omega, hlength⟩
      · simp only [List.length_nil] at hnew
        omega
  covered session position hfirst hlast :=
    complete_record clamp h session position ⟨hfirst, hlast⟩
  calm session hcalm := by
    show (snapshotAndMix clamp self.buffers self.mixBuf self.cursors).cursors.at session = 0 ∨
      self.buffers.Has session ∧ self.removed session +
        (snapshotAndMix clamp self.buffers self.mixBuf self.cursors).cursors.at session =
          (self.decoded session).length
    by_cases hhas : self.buffers.Has session
    · have hsum := length_buffer_add_removed h session
      rw [cursor_snapshotAndMix clamp _ _ h.keys hhas]
      exact .inr ⟨hhas, by omega⟩
    · left
      have hdropped : (snapshotAndMix clamp self.buffers self.mixBuf self.cursors).cursors
          session = none ∨ self.disturbed session = false := by
        rcases Bool.and_eq_false_iff.mp hcalm with hquiet | hgone
        · exact .inr hquiet
        · rw [Bool.not_eq_false', decide_eq_true_eq] at hgone
          exact .inl (hgone.resolve_left hhas)
      rw [Cursors.at]
      rcases hdropped with hnone | hquiet
      · rw [hnone]
        rfl
      · rcases cursor_snapshotAndMix_of_not_has clamp self.mixBuf self.cursors h.keys hhas with
          hnone | hkept
        · rw [hnone]
          rfl
        · rw [hkept]
          exact (h.calm session hquiet).resolve_right fun hno => hhas hno.1

theorem movedTo_step {self : Recorder α} (h : Sound self) {event : RecorderEvent α}
    (hmove : event ≠ .snapshot) : self.MovedTo (self.step clamp event) := by
  cases event with
  | push session frame => exact movedTo_push clamp h session frame
  | silence session units => exact movedTo_silence clamp h session units
  | drain count => exact movedTo_drain clamp h count
  | leave session => exact movedTo_leave clamp h session
  | snapshot => exact absurd rfl hmove

theorem sound_step {self : Recorder α} (h : Sound self) (event : RecorderEvent α) :
    Sound (self.step clamp event) := by
  by_cases hsnapshot : event = .snapshot
  · subst hsnapshot
    exact sound_record clamp h
  · exact (movedTo_step clamp h hsnapshot).sound

/-! ## Between two snapshots -/

/-- Between two snapshots the buffers lose samples at the front and gain those that are decoded. -/
theorem movedTo_run {self : Recorder α} (h : Sound self) {between : List (RecorderEvent α)}
    (hbetween : ∀ event ∈ between, event ≠ .snapshot) :
    self.MovedTo (Runs.run (step clamp) self between) := by
  induction between generalizing self with
  | nil => exact ⟨h, fun _ => Nat.le_refl _, rfl, rfl⟩
  | cons event between ih =>
      have hstep := movedTo_step clamp h (hbetween event List.mem_cons_self)
      exact hstep.trans (ih hstep.sound fun later hlater =>
        hbetween later (List.mem_cons_of_mem event hlater))

/-- A snapshot skips as many of the samples that are new since the last one as have left the
front of the buffer since then, and if none is new enough, it takes nothing. -/
theorem skips_as_many_as_removed {self : Recorder α} (h : Sound self) {session : Nat}
    (hhas : self.buffers.Has session) {between : List (RecorderEvent α)}
    (hbetween : ∀ event ∈ between, event ≠ .snapshot) :
    let next := Runs.run (step clamp) (self.record clamp) between
    let start := (self.decoded session).length + (next.removed session - self.removed session)
    (next.record clamp).taken session = (self.record clamp).taken session ++
      List.range' start ((next.decoded session).length - start) := by
  intro next start
  have hmoved : (self.record clamp).MovedTo next :=
    movedTo_run clamp (sound_record clamp h) hbetween
  have hbefore := length_buffer_add_removed h session
  have hafter := length_buffer_add_removed hmoved.sound session
  have hremoved : self.removed session ≤ next.removed session := hmoved.removed_le session
  have hcursor : next.cursors.at session = (self.buffers.buffer session).length := by
    rw [hmoved.cursors]
    exact cursor_snapshotAndMix clamp _ _ h.keys hhas
  rw [taken_record clamp hmoved.sound, hmoved.taken, readStart, hcursor]
  congr 1
  -- the cursor is within the buffer, or past its end
  rcases Nat.le_total (self.buffers.buffer session).length
      (next.buffers.buffer session).length with hwithin | hpast
  · rw [Nat.min_eq_left hwithin]
    have hstart : next.removed session + (self.buffers.buffer session).length = start := by
      simp only [start]
      omega
    have hcount : (next.buffers.buffer session).length - (self.buffers.buffer session).length =
        (next.decoded session).length - start := by
      simp only [start]
      omega
    rw [hstart, hcount]
  · have hnone : (next.decoded session).length - start = 0 := by
      simp only [start]
      omega
    rw [Nat.min_eq_right hpast, Nat.sub_self, hnone]
    rfl

/-! ## Whole recordings -/

theorem lawful_step {self : Recorder α} (h : Sound self) (event : RecorderEvent α) :
    self.Lawful clamp event := by
  refine ⟨(sound_step clamp h event).inOrder, ?_⟩
  cases event with
  | snapshot =>
      refine ⟨rfl, complete_record clamp h, fun session hhas hpast => ⟨?_, ?_⟩⟩
      · have hend : readStart self.buffers self.cursors session =
            (self.buffers.buffer session).length := Nat.min_eq_right hpast.le
        rw [taken_record clamp h, hend, Nat.sub_self]
        exact List.append_nil _
      · exact cursor_snapshotAndMix clamp _ _ h.keys hhas
  | push session frame => trivial
  | silence session units => trivial
  | drain count => trivial
  | leave session => trivial

/-- In every run of the mixer, the playback and the recorder, each sample is taken at most once
and in order, and what is in a buffer at a snapshot has been taken by then, unless it was
decoded while the buffer was disturbed. -/
theorem lawful_run (events : List (RecorderEvent α)) :
    Along (step clamp) (Lawful clamp) {} events := by
  have hstep : ∀ (self : Recorder α) (event : RecorderEvent α), Sound self → True →
      Sound (self.step clamp event) :=
    fun _ event h _ => sound_step clamp h event
  have hlaw : ∀ (self : Recorder α) (event : RecorderEvent α), Sound self → True →
      self.Lawful clamp event :=
    fun _ event h _ => lawful_step clamp h event
  exact Runs.along_of_invariant hstep hlaw sound_start
    (Runs.along_of_forall (fun _ _ => trivial) _ events)

/-- Five samples are taken, three of them drained, and two pushed: the cursor points past the
end, and the two new samples are never taken. -/
theorem skips_new_samples :
    ¬ ∀ (clamp : Nat → Nat) (events : List (RecorderEvent Nat)),
      Along (step clamp) (MissesNone clamp) {} events := by
  intro h
  have hrun := h id [.push 1 [1, 2, 3, 4, 5], .snapshot, .drain 3, .push 1 [6, 7], .snapshot]
  have hnow := hrun.2.2.2.2.1 1 5 ⟨by decide, by decide⟩
  revert hnow
  decide

end Recorder

end FancyMumble.Audio
