import FancyMumble.Client.Voice
import FancyMumble.Lib.Failures

/-!
# Voice operations that fail

Enabling voice and restarting a pipeline open devices, make an encoder and tell the server, one
after the other, and each of these may fail. What was changed before stays changed: only a
failure before the first change leaves the session as it was.
-/

namespace FancyMumble.Client

open Lib.Failures

/-! ## Sessions -/

inductive SelfCommand where
  | setSelfMute (muted : Bool)
  | setSelfDeaf (deafened : Bool)
deriving DecidableEq

def SelfCommand.selfMute : SelfCommand → Option Bool
  | .setSelfMute muted => some muted
  | .setSelfDeaf deafened => if deafened then some true else none

def SelfCommand.selfDeaf : SelfCommand → Option Bool
  | .setSelfMute muted => if !muted then some false else none
  | .setSelfDeaf deafened => some deafened

/-- What the devices, the encoder and the command queue of the client answer. -/
structure Attempts where
  createMixingPlayback : Except String Unit := .ok ()
  startPlayback : Except String Unit := .ok ()
  createCapture : Except String Unit := .ok ()
  newEncoder : Except String Unit := .ok ()
  send : SelfCommand → Except String Unit := fun _ => .ok ()

structure AudioHandles extends AudioPipelineState where
  mixer : Option ℕ := none
  mixingPlayback : Option ℕ := none
  inputVolumeHandle : Option ℕ := none
  outputVolumeHandle : Option ℕ := none

/-- A session, its outbound tasks that run, and what the server knows of its user. The numbers
from `created` on are not used yet. -/
structure VoiceSession where
  audio : AudioHandles := {}
  /-- There is a client handle. -/
  connected : Bool := true
  running : List ℕ := []
  selfMute : Bool := true
  selfDeaf : Bool := true
  created : ℕ := 0
  mixer_lt_created : ∀ id ∈ audio.mixer, id < created := by exact nofun

namespace VoiceSession

def setVoiceState (s : VoiceSession) (voiceState : VoiceState) : VoiceSession :=
  { s with audio.voiceState := voiceState }

def storeInbound (s : VoiceSession) : VoiceSession :=
  { s with
    audio.mixer := some s.created
    audio.mixingPlayback := some s.created
    audio.outputVolumeHandle := some s.created
    created := s.created + 1
    mixer_lt_created := by
      intro id hid
      cases hid
      exact Nat.lt_succ_self _ }

def storeInputVolume (s : VoiceSession) : VoiceSession :=
  { s with
    audio.inputVolumeHandle := some s.created
    created := s.created + 1
    mixer_lt_created := fun id hid => Nat.lt_succ_of_lt (s.mixer_lt_created id hid) }

def takeInbound (s : VoiceSession) : VoiceSession :=
  { s with
    audio.mixer := none
    audio.mixingPlayback := none
    mixer_lt_created := nofun }

def stopOutbound (s : VoiceSession) : VoiceSession :=
  { s with
    audio.outboundTaskHandle := none
    running := s.running.filter fun task => s.audio.outboundTaskHandle ≠ some task }

/-- With a client, an outbound task is spawned. A handle that is there already is dropped, and
its task runs on. -/
def spawnOutbound (s : VoiceSession) : VoiceSession :=
  { s with
    audio.outboundTaskHandle := if s.connected then some s.created else none
    audio.inputVolumeHandle := some (s.audio.inputVolumeHandle.getD s.created)
    running := if s.connected then s.running ++ [s.created] else s.running
    created := s.created + 1
    mixer_lt_created := fun id hid => Nat.lt_succ_of_lt (s.mixer_lt_created id hid) }

def receive (s : VoiceSession) (command : SelfCommand) : VoiceSession :=
  { s with
    selfMute := command.selfMute.getD s.selfMute
    selfDeaf := command.selfDeaf.getD s.selfDeaf }

end VoiceSession

/-! ## Operations -/

abbrev VoiceM := EStateM String VoiceSession

namespace VoiceM

variable (attempts : Attempts)

def send (connected : Bool) (command : SelfCommand) (context : String) : VoiceM Unit :=
  if connected then do
    attempt ((attempts.send command).mapError (context ++ ·))
    modify (·.receive command)
  else pure ()

def startMixingPlayback : VoiceM Unit := do
  attempt attempts.createMixingPlayback
  attempt (attempts.startPlayback.mapError ("Playback start: " ++ ·))

def startOutboundPipeline : VoiceM Unit := do
  attempt attempts.createCapture
  attempt (attempts.newEncoder.mapError ("Encoder init: " ++ ·))
  modify VoiceSession.spawnOutbound

def enableVoice : VoiceM Unit := do
  let session ← get
  startMixingPlayback attempts
  modify fun s => s.storeInbound.storeInputVolume
  startOutboundPipeline attempts
  modify (·.setVoiceState .active)
  send attempts session.connected (.setSelfMute false) "Failed to unmute: "

def enableVoiceMuted : VoiceM Unit := do
  let session ← get
  startMixingPlayback attempts
  modify fun s => (s.setVoiceState .muted).storeInbound
  send attempts session.connected (.setSelfDeaf false) "Failed to undeafen: "
  send attempts session.connected (.setSelfMute true) "Failed to mute: "

def restartInbound : VoiceM Unit := do
  modify VoiceSession.takeInbound
  startMixingPlayback attempts
  modify VoiceSession.storeInbound

def restartOutbound : VoiceM Unit := do
  modify VoiceSession.stopOutbound
  startOutboundPipeline attempts

end VoiceM

inductive VoiceOperation where
  | enableVoice
  | enableVoiceMuted
  | restartInbound
  | restartOutbound

def VoiceOperation.run (attempts : Attempts) : VoiceOperation → VoiceM Unit
  | .enableVoice => .enableVoice attempts
  | .enableVoiceMuted => .enableVoiceMuted attempts
  | .restartInbound => .restartInbound attempts
  | .restartOutbound => .restartOutbound attempts

/-! ## What a failure may leave -/

namespace VoiceSession

/-- The voice state, the flags that the server knows, the running tasks, the playback and the
mixer are the same. -/
structure Unchanged (before after : VoiceSession) : Prop where
  voiceState : after.audio.voiceState = before.audio.voiceState
  selfMute : after.selfMute = before.selfMute
  selfDeaf : after.selfDeaf = before.selfDeaf
  running : after.running = before.running
  mixingPlayback : after.audio.mixingPlayback = before.audio.mixingPlayback
  mixer : after.audio.mixer = before.audio.mixer

/-- The session shows that voice is off, the server knows, and nothing is left of it. -/
structure AllInactive (s : VoiceSession) : Prop where
  voiceState : s.audio.voiceState = .inactive
  selfMute : s.selfMute = true
  selfDeaf : s.selfDeaf = true
  running : s.running = []
  mixingPlayback : s.audio.mixingPlayback = none
  mixer : s.audio.mixer = none

def Clean (before after : VoiceSession) : Prop := Unchanged before after ∨ after.AllInactive

theorem Unchanged.refl (s : VoiceSession) : Unchanged s s := ⟨rfl, rfl, rfl, rfl, rfl, rfl⟩

theorem clean_refl (s : VoiceSession) : Clean s s := .inl (.refl s)

theorem not_clean_of_mixer {before after : VoiceSession}
    (h : after.audio.mixer = some before.created) : ¬Clean before after := by
  rintro (hsame | hinactive)
  · have hlt := before.mixer_lt_created before.created (hsame.mixer.symm.trans h)
    exact Nat.lt_irrefl _ hlt
  · cases hinactive.mixer.symm.trans h

theorem clean_takeInbound_iff {s : VoiceSession} :
    Clean s s.takeInbound ↔
      (s.audio.mixingPlayback = none ∧ s.audio.mixer = none) ∨
        s.audio.voiceState = .inactive ∧ s.selfMute = true ∧ s.selfDeaf = true ∧
          s.running = [] := by
  constructor
  · rintro (hsame | hinactive)
    · exact .inl ⟨hsame.mixingPlayback.symm, hsame.mixer.symm⟩
    · exact .inr ⟨hinactive.voiceState, hinactive.selfMute, hinactive.selfDeaf, hinactive.running⟩
  · rintro (⟨hplayback, hmixer⟩ | ⟨hvoice, hmute, hdeaf, hrunning⟩)
    · exact .inl ⟨rfl, rfl, rfl, rfl, hplayback.symm, hmixer.symm⟩
    · exact .inr ⟨hvoice, hmute, hdeaf, hrunning, rfl, rfl⟩

theorem clean_stopOutbound_iff {s : VoiceSession} :
    Clean s s.stopOutbound ↔
      (∀ task ∈ s.running, s.audio.outboundTaskHandle ≠ some task) ∨
        s.audio.voiceState = .inactive ∧ s.selfMute = true ∧ s.selfDeaf = true ∧
          (∀ task ∈ s.running, s.audio.outboundTaskHandle = some task) ∧
          s.audio.mixingPlayback = none ∧ s.audio.mixer = none := by
  have hsame : s.stopOutbound.running = s.running ↔
      ∀ task ∈ s.running, s.audio.outboundTaskHandle ≠ some task := by
    simp [stopOutbound]
  have hnone : s.stopOutbound.running = [] ↔
      ∀ task ∈ s.running, s.audio.outboundTaskHandle = some task := by
    simp [stopOutbound]
  rw [← hsame, ← hnone]
  constructor
  · rintro (hsame | hinactive)
    · exact .inl hsame.running
    · exact .inr ⟨hinactive.voiceState, hinactive.selfMute, hinactive.selfDeaf, hinactive.running,
        hinactive.mixingPlayback, hinactive.mixer⟩
  · rintro (hrunning | ⟨hvoice, hmute, hdeaf, hrunning, hplayback, hmixer⟩)
    · exact .inl ⟨rfl, rfl, rfl, hrunning, rfl, rfl⟩
    · exact .inr ⟨hvoice, hmute, hdeaf, hrunning, hplayback, hmixer⟩

end VoiceSession

/-! ## Failures of each operation -/

namespace Attempts

def Plays (attempts : Attempts) : Prop :=
  Succeeds attempts.createMixingPlayback ∧ Succeeds attempts.startPlayback

def Captures (attempts : Attempts) : Prop :=
  Succeeds attempts.createCapture ∧ Succeeds attempts.newEncoder

def Sends (attempts : Attempts) (connected : Bool) (command : SelfCommand) : Prop :=
  connected → Succeeds (attempts.send command)

end Attempts

namespace VoiceM

variable {attempts : Attempts} {s : VoiceSession} {Q : VoiceSession → Prop}

theorem failsTo_startMixingPlayback_bind {f : Unit → VoiceM Unit} :
    FailsTo (startMixingPlayback attempts >>= f) s Q ↔
      (attempts.Plays ∨ Q s) ∧ (attempts.Plays → FailsTo (f ()) s Q) := by
  rw [startMixingPlayback, bind_assoc, failsTo_attempt_bind, failsTo_attempt_bind,
    succeeds_mapError, Attempts.Plays]
  tauto

theorem failsTo_startOutboundPipeline_bind {f : Unit → VoiceM Unit} :
    FailsTo (startOutboundPipeline attempts >>= f) s Q ↔
      (attempts.Captures ∨ Q s) ∧ (attempts.Captures → FailsTo (f ()) s.spawnOutbound Q) := by
  rw [startOutboundPipeline, bind_assoc, failsTo_attempt_bind, bind_assoc, failsTo_attempt_bind,
    succeeds_mapError, failsTo_modify_bind, Attempts.Captures]
  tauto

theorem failsTo_startOutboundPipeline :
    FailsTo (startOutboundPipeline attempts) s Q ↔ attempts.Captures ∨ Q s := by
  rw [← bind_pure (startOutboundPipeline attempts), failsTo_startOutboundPipeline_bind]
  exact and_iff_left fun _ => trivial

theorem failsTo_send_bind {connected : Bool} {command : SelfCommand} {context : String}
    {f : Unit → VoiceM Unit} :
    FailsTo (send attempts connected command context >>= f) s Q ↔
      (attempts.Sends connected command ∨ Q s) ∧
        (attempts.Sends connected command →
          FailsTo (f ()) (if connected then s.receive command else s) Q) := by
  rw [send]
  cases connected with
  | true =>
      rw [if_pos rfl, bind_assoc, failsTo_attempt_bind, succeeds_mapError, failsTo_modify_bind,
        Attempts.Sends, imp_iff_right rfl]
      rfl
  | false =>
      rw [if_neg Bool.false_ne_true, pure_bind, if_neg Bool.false_ne_true]
      simp [Attempts.Sends]

theorem failsTo_send {connected : Bool} {command : SelfCommand} {context : String} :
    FailsTo (send attempts connected command context) s Q ↔
      attempts.Sends connected command ∨ Q s := by
  rw [← bind_pure (send attempts connected command context), failsTo_send_bind]
  exact and_iff_left fun _ => trivial

end VoiceM

namespace VoiceOperation

/-- Nothing fails after the first change: of the operations that enable voice, nothing after
the playback has started. A restart stops the old pipeline first, so it fails cleanly only if
there was none, or nothing else is left of voice. -/
def FailsFirst (attempts : Attempts) (s : VoiceSession) : VoiceOperation → Prop
  | .enableVoice =>
      attempts.Plays → attempts.Captures ∧ attempts.Sends s.connected (.setSelfMute false)
  | .enableVoiceMuted =>
      attempts.Plays → attempts.Sends s.connected (.setSelfDeaf false) ∧
        attempts.Sends s.connected (.setSelfMute true)
  | .restartInbound =>
      attempts.Plays ∨ (s.audio.mixingPlayback = none ∧ s.audio.mixer = none) ∨
        s.audio.voiceState = .inactive ∧ s.selfMute = true ∧ s.selfDeaf = true ∧ s.running = []
  | .restartOutbound =>
      attempts.Captures ∨ (∀ task ∈ s.running, s.audio.outboundTaskHandle ≠ some task) ∨
        s.audio.voiceState = .inactive ∧ s.selfMute = true ∧ s.selfDeaf = true ∧
          (∀ task ∈ s.running, s.audio.outboundTaskHandle = some task) ∧
          s.audio.mixingPlayback = none ∧ s.audio.mixer = none

/-- An operation that fails leaves nothing half started exactly if it fails before its first
change, or what it stopped was all there was. -/
theorem failsTo_clean_iff (operation : VoiceOperation) (attempts : Attempts) (s : VoiceSession) :
    FailsTo (operation.run attempts) s (s.Clean) ↔ operation.FailsFirst attempts s := by
  cases operation with
  | enableVoice =>
      have hclean (after : VoiceSession) (h : after.audio.mixer = some s.created) :
          ¬s.Clean after := VoiceSession.not_clean_of_mixer h
      rw [run, VoiceM.enableVoice, failsTo_get_bind, VoiceM.failsTo_startMixingPlayback_bind,
        and_iff_right (.inr (VoiceSession.clean_refl s)), failsTo_modify_bind,
        VoiceM.failsTo_startOutboundPipeline_bind, failsTo_modify_bind, VoiceM.failsTo_send,
        or_iff_left (hclean _ rfl), or_iff_left (hclean _ rfl)]
      refine imp_congr_right fun _ => and_congr_right fun hcaptures => ?_
      exact imp_iff_right hcaptures
  | enableVoiceMuted =>
      have hclean (after : VoiceSession) (h : after.audio.mixer = some s.created) :
          ¬s.Clean after := VoiceSession.not_clean_of_mixer h
      rw [run, VoiceM.enableVoiceMuted, failsTo_get_bind, VoiceM.failsTo_startMixingPlayback_bind,
        and_iff_right (.inr (VoiceSession.clean_refl s)), failsTo_modify_bind,
        VoiceM.failsTo_send_bind, or_iff_left (hclean _ rfl), VoiceM.failsTo_send,
        or_iff_left (hclean _ (by split <;> rfl))]
      refine imp_congr_right fun _ => and_congr_right fun hsends => ?_
      exact imp_iff_right hsends
  | restartInbound =>
      rw [run, VoiceM.restartInbound, failsTo_modify_bind, VoiceM.failsTo_startMixingPlayback_bind,
        VoiceSession.clean_takeInbound_iff]
      exact and_iff_left fun _ => trivial
  | restartOutbound =>
      rw [run, VoiceM.restartOutbound, failsTo_modify_bind, VoiceM.failsTo_startOutboundPipeline,
        VoiceSession.clean_stopOutbound_iff]
      exact Iff.rfl

/-- Without a microphone, enabling voice fails, and leaves a playback running for a session that
shows that voice is off. -/
theorem enableVoice_without_microphone :
    ¬FailsTo (VoiceOperation.enableVoice.run { createCapture := .error "No input device" }) {}
      (VoiceSession.Clean {}) := by
  rw [failsTo_clean_iff]
  intro hclean
  obtain ⟨⟨hcapture, -⟩, -⟩ := hclean ⟨succeeds_ok (), succeeds_ok ()⟩
  exact not_succeeds_error _ hcapture

end VoiceOperation

end FancyMumble.Client
