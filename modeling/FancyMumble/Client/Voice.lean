import FancyMumble.Client.Sessions

/-!
# The microphone

Every session shows a voice state, and keeps a handle of the task that sends what the
microphone picks up. Commands change the one and the other under a lock at a time, and while
the active session may become another one. When does a task run for a session that shows its
microphone off?
-/

namespace FancyMumble.Client

open Lib.Grouping Lib.Runs

/-! ## Voice -/

inductive VoiceState where
  | inactive
  | active
  | muted
deriving DecidableEq

structure AudioPipelineState where
  voiceState : VoiceState := .inactive
  outboundTaskHandle : Option ℕ := none

abbrev OutboundTask := ℕ × Option ServerId

/-- Where a command stands: what it does next, with the local values that it goes on to use. -/
inductive VoiceOp where
  | finished
  -- `enable_voice`, and the ends of other commands
  | enableVoice
  | startOutbound (client : Option (Option ServerId)) (shows : Bool)
  | storeHandle (task : Option OutboundTask) (shows : Bool)
  | setVoiceState (voiceState : VoiceState) (client : Option (Option ServerId))
  | disableVoice
  | enableVoiceMuted
  -- `toggle_mute` and `toggle_deafen`
  | toggleMute
  | mute
  | toggleDeafen
  -- `set_audio_settings`
  | setAudioSettings (needsRestart : Bool)
  | restartOutbound
  | readClient
  -- `switch_active_with_voice`
  | snapshot (target : ServerId)
  | compare (prev : Option ServerId) (target : ServerId)
  | readVoiceState (prev : Option ServerId) (target : ServerId)
  | stopAudioOn (prev : Option ServerId) (voice : VoiceState) (target : ServerId)
  | setInactive (prev : Option ServerId) (voice : VoiceState) (target : ServerId)
  | lookUp (voice : VoiceState) (target : ServerId)
  | setActive (voice : VoiceState) (target : ServerId)
  | swap (voice : VoiceState) (target : ServerId)
  -- `disconnect` and `disconnect_session`, until audio is stopped
  | disconnectActive
  | disconnect (id : ServerId)
  | checkActive (id : ServerId)
  | stopAudio (id : ServerId)
deriving DecidableEq

def VoiceState.migrate : VoiceState → VoiceOp
  | .inactive => .finished
  | .active => .enableVoice
  | .muted => .enableVoiceMuted

/-- The session that an operation is going to show as active, for which it has started a
task. -/
def VoiceOp.unshown : VoiceOp → Option (Option ServerId)
  | .storeHandle task true => task.map Prod.snd
  | .setVoiceState .active client => client
  | _ => none

structure Voice where
  sessions : Sessions := {}
  audio : Option ServerId → AudioPipelineState := fun _ => {}
  running : List OutboundTask := []
  spawned : ℕ := 0
  ops : List VoiceOp := []

/-- The commands of the frontend. New audio settings need the pipeline to be restarted, or
not. -/
inductive VoiceCommand where
  | enableVoice
  | disableVoice
  | toggleMute
  | toggleDeafen
  | setAudioSettings (needsRestart : Bool)
  | setActiveServer (target : ServerId)
  | disconnect
  | disconnectServer (id : ServerId)

def VoiceCommand.start : VoiceCommand → VoiceOp
  | .enableVoice => .enableVoice
  | .disableVoice => .disableVoice
  | .toggleMute => .toggleMute
  | .toggleDeafen => .toggleDeafen
  | .setAudioSettings needsRestart => .setAudioSettings needsRestart
  | .setActiveServer target => .snapshot target
  | .disconnect => .disconnectActive
  | .disconnectServer id => .disconnect id

/-- What can happen, in any order: a command is called or does its next step, where devices
may fail; a task of a connect or a disconnect does; a connection is made, lost, or ended by
the server; an outbound task ends by itself. -/
inductive VoiceEvent where
  | call (command : VoiceCommand)
  | advance (i : ℕ) (ok : Bool)
  | connect (target : ConnectTarget)
  | advanceSession (j : ℕ) (ok : Bool) (order : HashOrder)
  | synced (id : ServerId)
  | lost (id : ServerId)
  | kicked (id : ServerId)
  | ended (task : ℕ)

/-- The session whose voice state the next step of a connect or a disconnect resets. -/
def SessionTask.resets : SessionTask → Option ServerId
  | .reset id _ => some id
  | .clear id _ => some id
  | _ => none

namespace Voice

def op (v : Voice) (i : ℕ) : VoiceOp := v.ops[i]?.getD .finished

def goto (i : ℕ) (op : VoiceOp) (v : Voice) : Voice := { v with ops := v.ops.set i op }

def inner (v : Voice) : Option ServerId := v.sessions.inner

def client (v : Voice) : Option (Option ServerId) :=
  if (v.sessions.states v.inner).clientHandle then some v.inner else none

def voiceState (v : Voice) (id : Option ServerId) : VoiceState := (v.audio id).voiceState

def setVoiceState (id : Option ServerId) (voiceState : VoiceState) (v : Voice) : Voice :=
  { v with audio := Function.update v.audio id { v.audio id with voiceState } }

/-- `start_outbound_pipeline` stores the handle of the task that it has spawned. A handle that
was there is dropped, and its task goes on. -/
def setOutboundTask (id : Option ServerId) (handle : Option ℕ) (v : Voice) : Voice :=
  { v with
    audio := Function.update v.audio id { v.audio id with outboundTaskHandle := handle } }

def endTask (task : ℕ) (v : Voice) : Voice :=
  { v with running := v.running.filter fun t => t.1 ≠ task }

/-- `stop_audio_on`, `stop_outbound` and their copies: the task of the handle is aborted. -/
def stopAudioOn (id : Option ServerId) (v : Voice) : Voice :=
  match (v.audio id).outboundTaskHandle with
  | some task => (v.endTask task).setOutboundTask id none
  | none => v

def takeHandles (i : ℕ) (id : ServerId) (isActive : Bool) (v : Voice) : Voice :=
  { v with sessions := v.sessions.call (.takeHandles id isActive) }.goto i .finished

def advance (i : ℕ) (ok : Bool) (v : Voice) : Voice :=
  match v.op i with
  | .finished => v
  | .enableVoice => v.goto i (if ok then .startOutbound v.client true else .finished)
  | .startOutbound client shows =>
      if ok then
        match client with
        | some id =>
            { v with
              running := v.running ++ [(v.spawned, id)]
              spawned := v.spawned + 1 }.goto i (.storeHandle (some (v.spawned, id)) shows)
        | none => v.goto i (.storeHandle none shows)
      else v.goto i .finished
  | .storeHandle task shows =>
      (v.setOutboundTask v.inner (task.map Prod.fst)).goto i
        (if shows then .setVoiceState .active (task.map Prod.snd) else .finished)
  | .setVoiceState voiceState _ => (v.setVoiceState v.inner voiceState).goto i .finished
  | .disableVoice => (v.stopAudioOn v.inner).goto i (.setVoiceState .inactive none)
  | .enableVoiceMuted => v.goto i (if ok then .setVoiceState .muted none else .finished)
  | .toggleMute =>
      match v.voiceState v.inner with
      | .active => v.goto i .mute
      | .muted => v.goto i (.startOutbound v.client true)
      | .inactive => v.goto i .enableVoice
  | .mute => (v.stopAudioOn v.inner).goto i (.setVoiceState .muted none)
  | .toggleDeafen =>
      match v.voiceState v.inner with
      | .active => v.goto i .disableVoice
      | .muted => v.goto i .disableVoice
      | .inactive => v.goto i .enableVoiceMuted
  | .setAudioSettings needsRestart =>
      v.goto i
        (if v.voiceState v.inner = .active ∧ needsRestart then .restartOutbound else .finished)
  | .restartOutbound => (v.stopAudioOn v.inner).goto i .readClient
  | .readClient => v.goto i (.startOutbound v.client false)
  | .snapshot target => v.goto i (.compare v.inner target)
  | .compare prev target =>
      if target ∈ v.sessions.registry.sessions then
        v.goto i (if prev = some target then .finished else .readVoiceState prev target)
      else v.goto i .finished
  | .readVoiceState prev target =>
      let voice := v.voiceState prev
      v.goto i (if voice ≠ .inactive then .stopAudioOn prev voice target else .lookUp voice target)
  | .stopAudioOn prev voice target => (v.stopAudioOn prev).goto i (.setInactive prev voice target)
  | .setInactive prev voice target => (v.setVoiceState prev .inactive).goto i (.lookUp voice target)
  | .lookUp voice target =>
      v.goto i
        (if target ∈ v.sessions.registry.sessions then .setActive voice target else .finished)
  | .setActive voice target =>
      if target ∈ v.sessions.registry.sessions then
        { v with
          sessions :=
            { v.sessions with
              registry := { v.sessions.registry with active := some target } } }.goto i
          (.swap voice target)
      else v.goto i .finished
  | .swap voice target =>
      { v with sessions := { v.sessions with inner := some target } }.goto i voice.migrate
  | .disconnectActive =>
      v.goto i (v.sessions.registry.active.elim .finished VoiceOp.disconnect)
  | .disconnect id =>
      v.goto i (if id ∈ v.sessions.registry.sessions then .checkActive id else .finished)
  | .checkActive id =>
      if v.sessions.registry.active = some id then v.goto i (.stopAudio id)
      else v.takeHandles i id false
  | .stopAudio id => (v.stopAudioOn (some id)).takeHandles i id true

/-- The next step of a connect or of the end of a disconnect. The session that a connect resets
has just been made. -/
def resetVoice (task : SessionTask) (v : Voice) : Voice :=
  match task.resets with
  | some id => v.setVoiceState (some id) .inactive
  | none => v

def stopOnKick (android : Bool) (id : ServerId) (v : Voice) : Voice :=
  if android then v else v.stopAudioOn (some id)

def step (android : Bool) (v : Voice) : VoiceEvent → Voice
  | .call command => { v with ops := v.ops ++ [command.start] }
  | .advance i ok => v.advance i ok
  | .connect target => { v with sessions := v.sessions.step (.connect target) }
  | .advanceSession j ok order =>
      { v.resetVoice (v.sessions.task j) with sessions := v.sessions.advance j ok order }
  | .synced id => { v with sessions := v.sessions.step (.synced id) }
  | .lost id =>
      { (v.stopAudioOn (some id)).setVoiceState (some id) .inactive with
        sessions := v.sessions.step (.lost id) }
  | .kicked id =>
      { (v.stopOnKick android id).setVoiceState (some id) .inactive with
        sessions := v.sessions.step (.lost id) }
  | .ended task => v.endTask task

/-! ## No hot microphone -/

def tasksOf (v : Voice) (id : Option ServerId) : List OutboundTask :=
  v.running.filter fun task => task.2 = id

def Unshown (v : Voice) (id : Option ServerId) : Prop := ∃ op ∈ v.ops, op.unshown = some id

/-- Nothing is sent for a session. Where a task that is about to be shown is excused, there may
be such a task. -/
def Quiet (excuses : Bool) (v : Voice) (id : Option ServerId) : Prop :=
  v.tasksOf id = [] ∨ excuses = true ∧ v.Unshown id

/-- No outbound task runs for a session that shows its microphone off, and at most one for any
session. -/
def NoHotMicrophone (excuses : Bool) (v : Voice) : Prop :=
  ∀ id, (v.voiceState id ≠ .active → v.Quiet excuses id) ∧ (v.tasksOf id).length ≤ 1

def Recorded (v : Voice) (id : Option ServerId) : Prop :=
  ∀ task ∈ v.tasksOf id, (v.audio id).outboundTaskHandle = some task.1

/-- The next step of a command. A task is started only for a session for which none runs, and
that shows its microphone on or is going to. When the microphone of the active session is shown
off, no task runs for that session. When it is shown on after a task was started for another
session, no task runs for that one, or it shows its microphone on. No task runs for a session
that a tab switch shows as inactive. -/
def AdvancesQuietly (excuses : Bool) (v : Voice) (i : ℕ) (ok : Bool) : Prop :=
  match v.op i with
  | .startOutbound (some id) shows =>
      ok = true → v.tasksOf id = [] ∧
        (v.voiceState id ≠ .active → excuses = true ∧ (shows = true ∨ v.Unshown id))
  | .setVoiceState voiceState client =>
      (voiceState ≠ .active → (v.goto i .finished).Quiet excuses v.inner) ∧
        ∀ id ∈ (VoiceOp.setVoiceState voiceState client).unshown, id ≠ v.inner →
          v.voiceState id ≠ .active → (v.goto i .finished).Quiet excuses id
  | .setInactive prev _ _ => v.Quiet excuses prev
  | _ => True

/-- A command does its next step as above. No task runs for a session that a connect or a
disconnect resets, or that is ended by the server on Android. The only task of a connection
that is lost, or ended by the server elsewhere, is that of its handle. -/
def KeepsQuiet (android excuses : Bool) (v : Voice) : VoiceEvent → Prop
  | .advance i ok => v.AdvancesQuietly excuses i ok
  | .advanceSession j _ _ => ∀ id ∈ (v.sessions.task j).resets, v.Quiet excuses (some id)
  | .lost id => v.Recorded (some id) ∨ excuses = true ∧ v.Unshown (some id)
  | .kicked id =>
      v.tasksOf (some id) = [] ∨ excuses = true ∧ v.Unshown (some id) ∨
        android = false ∧ v.Recorded (some id)
  | _ => True

/-! ## What a step changes -/

section Frames

variable {v v' v'' : Voice} {D : Option ServerId → Prop} {i : ℕ} {id : Option ServerId}

/-- Outside of some sessions, tasks only end, voice states stay, and what is about to be shown
still is. -/
structure Frame (D : Option ServerId → Prop) (v v' : Voice) : Prop where
  tasksOf : ∀ id, (v'.tasksOf id).Sublist (v.tasksOf id)
  voiceState : ∀ id, ¬D id → v'.voiceState id = v.voiceState id
  unshown : ∀ id, ¬D id → v.Unshown id → v'.Unshown id

theorem Frame.trans (h : Frame D v v') (h' : Frame D v' v'') : Frame D v v'' where
  tasksOf id := (h'.tasksOf id).trans (h.tasksOf id)
  voiceState id hid := (h'.voiceState id hid).trans (h.voiceState id hid)
  unshown id hid hunshown := h'.unshown id hid (h.unshown id hid hunshown)

theorem Frame.of_eq (haudio : v'.audio = v.audio) (hrunning : v'.running = v.running)
    (hops : v'.ops = v.ops) : Frame D v v' where
  tasksOf id := by
    unfold Voice.tasksOf
    rw [hrunning]
  voiceState id _ := by
    unfold Voice.voiceState
    rw [haudio]
  unshown id _ hunshown := by
    unfold Unshown
    rwa [hops]

theorem Quiet.of_sublist {excuses : Bool} (h : v.Quiet excuses id)
    (htasks : (v'.tasksOf id).Sublist (v.tasksOf id)) (hunshown : v.Unshown id → v'.Unshown id) :
    v'.Quiet excuses id := by
  refine h.imp (fun hnil => ?_) (And.imp_right hunshown)
  rw [hnil] at htasks
  exact List.sublist_nil.mp htasks

theorem Frame.noHotMicrophone_iff {excuses : Bool} (h : Frame D v v')
    (hv : NoHotMicrophone excuses v) :
    NoHotMicrophone excuses v' ↔
      ∀ id, D id → v'.voiceState id ≠ .active → v'.Quiet excuses id := by
  constructor
  · exact fun hquiet id _ => (hquiet id).1
  · refine fun hquiet id => ⟨fun hoff => ?_, le_trans (h.tasksOf id).length_le (hv id).2⟩
    by_cases hid : D id
    · exact hquiet id hid hoff
    · rw [h.voiceState id hid] at hoff
      exact ((hv id).1 hoff).of_sublist (h.tasksOf id) (h.unshown id hid)

theorem Frame.noHotMicrophone {excuses : Bool} (h : Frame (fun _ => False) v v')
    (hv : NoHotMicrophone excuses v) : NoHotMicrophone excuses v' :=
  (h.noHotMicrophone_iff hv).mpr fun _ hid => hid.elim

theorem unshown_goto {op : VoiceOp} (h : (v.op i).unshown = some id → op.unshown = some id)
    (hunshown : v.Unshown id) : (v.goto i op).Unshown id := by
  obtain ⟨other, hother, hid⟩ := hunshown
  obtain ⟨j, hj, rfl⟩ := List.mem_iff_getElem.mp hother
  by_cases hsame : i = j
  · subst hsame
    refine ⟨op, List.mem_set hj op, h ?_⟩
    unfold Voice.op
    rw [List.getElem?_eq_getElem hj]
    exact hid
  · refine ⟨v.ops[j], ?_, hid⟩
    refine List.mem_iff_getElem?.mpr ⟨j, ?_⟩
    exact (List.getElem?_set_ne hsame).trans (List.getElem?_eq_getElem hj)

theorem frame_goto {op : VoiceOp}
    (h : ∀ id, (v.op i).unshown = some id → op.unshown = some id ∨ D id) :
    Frame D v (v.goto i op) where
  tasksOf _ := List.Sublist.refl _
  voiceState _ _ := rfl
  unshown id hid := unshown_goto fun hbefore => (h id hbefore).resolve_right hid

theorem frame_setVoiceState {voiceState : VoiceState} (h : D id) :
    Frame D v (v.setVoiceState id voiceState) where
  tasksOf _ := List.Sublist.refl _
  voiceState other hother := by
    have hne : other ≠ id := fun hsame => hother (hsame ▸ h)
    exact congrArg AudioPipelineState.voiceState (Function.update_of_ne hne ..)
  unshown _ _ hunshown := hunshown

theorem frame_setOutboundTask {handle : Option ℕ} : Frame D v (v.setOutboundTask id handle) where
  tasksOf _ := List.Sublist.refl _
  voiceState other _ := by
    unfold Voice.voiceState setOutboundTask
    dsimp only
    by_cases hsame : other = id
    · rw [hsame, Function.update_self]
    · rw [Function.update_of_ne hsame]
  unshown _ _ hunshown := hunshown

theorem frame_endTask {task : ℕ} : Frame D v (v.endTask task) where
  tasksOf _ := List.filter_sublist.filter _
  voiceState _ _ := rfl
  unshown _ _ hunshown := hunshown

theorem frame_stopAudioOn : Frame D v (v.stopAudioOn id) := by
  unfold stopAudioOn
  split
  · exact frame_endTask.trans frame_setOutboundTask
  · exact Frame.of_eq rfl rfl rfl

@[simp] theorem ops_stopAudioOn (v : Voice) (id : Option ServerId) :
    (v.stopAudioOn id).ops = v.ops := by
  unfold stopAudioOn
  split <;> rfl

theorem frame_goto_of_none {op : VoiceOp} (h : (v.op i).unshown = none) :
    Frame D v (v.goto i op) :=
  frame_goto fun id hid => by rw [h] at hid; cases hid

theorem frame_stopAudioOn_goto {op : VoiceOp} (h : (v.op i).unshown = none) :
    Frame D v ((v.stopAudioOn id).goto i op) := by
  refine frame_stopAudioOn.trans (frame_goto_of_none ?_)
  unfold Voice.op
  rw [ops_stopAudioOn]
  exact h

theorem frame_sessions_goto (sessions : Sessions) {op : VoiceOp} (h : (v.op i).unshown = none) :
    Frame D v ({ v with sessions }.goto i op) := by
  have hsame : Frame D v { v with sessions } := .of_eq rfl rfl rfl
  exact hsame.trans (frame_goto_of_none h)

theorem frame_advance {ok : Bool}
    (hstart : ∀ id shows, v.op i = .startOutbound (some id) shows → ok = false)
    (hshow : ∀ voiceState client, v.op i ≠ .setVoiceState voiceState client)
    (hinactive : ∀ prev voice target, v.op i ≠ .setInactive prev voice target) :
    Frame D v (v.advance i ok) := by
  have hgoto {op op' : VoiceOp} (hop : v.op i = op) (hnone : op.unshown = none) :
      Frame D v (v.goto i op') := frame_goto_of_none (hop ▸ hnone)
  have hstop {op op' : VoiceOp} (id : Option ServerId) (hop : v.op i = op)
      (hnone : op.unshown = none) : Frame D v ((v.stopAudioOn id).goto i op') :=
    frame_stopAudioOn_goto (hop ▸ hnone)
  unfold advance
  split
  · exact Frame.of_eq rfl rfl rfl
  · next hop => exact hgoto hop rfl
  · next client shows hop =>
      split
      · next hok =>
          split
          · exact absurd hok (Bool.eq_false_iff.mp (hstart _ _ hop))
          · exact hgoto hop rfl
      · exact hgoto hop rfl
  · next task shows hop =>
      refine frame_setOutboundTask.trans (frame_goto fun id hid => ?_)
      change (v.op i).unshown = some id at hid
      rw [hop] at hid
      cases shows with
      | true => exact Or.inl hid
      | false => cases hid
  · next hop => exact absurd hop (hshow _ _)
  · next hop => exact hstop _ hop rfl
  · next hop => exact hgoto hop rfl
  · next hop => split <;> exact hgoto hop rfl
  · next hop => exact hstop _ hop rfl
  · next hop => split <;> exact hgoto hop rfl
  · next hop => exact hgoto hop rfl
  · next hop => exact hstop _ hop rfl
  · next hop => exact hgoto hop rfl
  · next hop => exact hgoto hop rfl
  · next hop => split <;> exact hgoto hop rfl
  · next hop => exact hgoto hop rfl
  · next hop => exact hstop _ hop rfl
  · next hop => exact absurd hop (hinactive _ _ _)
  · next hop => exact hgoto hop rfl
  · next hop =>
      split
      · exact frame_sessions_goto _ (hop ▸ rfl)
      · exact hgoto hop rfl
  · next hop => exact frame_sessions_goto _ (hop ▸ rfl)
  · next hop => exact hgoto hop rfl
  · next hop => exact hgoto hop rfl
  · next hop =>
      split
      · exact hgoto hop rfl
      · exact frame_sessions_goto _ (hop ▸ rfl)
  · next hop =>
      refine frame_stopAudioOn.trans (frame_sessions_goto _ ?_)
      unfold Voice.op
      rw [ops_stopAudioOn]
      exact congrArg VoiceOp.unshown hop

end Frames

/-! ## One step -/

section Step

variable {v : Voice} {excuses : Bool} {i : ℕ} {id : Option ServerId}

theorem unshown_goto_iff {op : VoiceOp} (hnone : (v.op i).unshown = none)
    (hop : v.op i ≠ .finished) :
    (v.goto i op).Unshown id ↔ op.unshown = some id ∨ v.Unshown id := by
  constructor
  · rintro ⟨other, hother, hid⟩
    rcases List.mem_or_eq_of_mem_set hother with hbefore | rfl
    · exact Or.inr ⟨other, hbefore, hid⟩
    · exact Or.inl hid
  · rintro (hid | hbefore)
    · refine ⟨op, List.mem_set (Nat.lt_of_not_le fun hout => hop ?_) op, hid⟩
      unfold Voice.op
      rw [List.getElem?_eq_none hout, Option.getD_none]
    · exact unshown_goto (fun hid => by rw [hnone] at hid; cases hid) hbefore

@[simp] theorem voiceState_setVoiceState_self (voiceState : VoiceState) :
    (v.setVoiceState id voiceState).voiceState id = voiceState := by
  unfold Voice.voiceState Voice.setVoiceState
  dsimp only
  rw [Function.update_self]

theorem noHotMicrophone_inactive_iff (h : NoHotMicrophone excuses v) (sessions : Sessions) :
    NoHotMicrophone excuses { v.setVoiceState id .inactive with sessions } ↔
      v.Quiet excuses id := by
  have hsame : Frame (· = id) (v.setVoiceState id .inactive)
      { v.setVoiceState id .inactive with sessions } := .of_eq rfl rfl rfl
  have hshown : Frame (· = id) v (v.setVoiceState id .inactive) := frame_setVoiceState rfl
  rw [(hshown.trans hsame).noHotMicrophone_iff h, forall_eq]
  refine imp_iff_right fun hactive => ?_
  change (v.setVoiceState id .inactive).voiceState id = .active at hactive
  rw [voiceState_setVoiceState_self] at hactive
  cases hactive

theorem tasksOf_stopAudioOn : (v.stopAudioOn id).tasksOf id = [] ↔ v.Recorded id := by
  have hends (task : ℕ) : (v.endTask task).tasksOf id = [] ↔ ∀ t ∈ v.tasksOf id, t.1 = task := by
    unfold tasksOf endTask
    simp [List.filter_eq_nil_iff]
  unfold stopAudioOn Recorded
  cases hhandle : (v.audio id).outboundTaskHandle with
  | some task =>
      refine (hends task).trans (forall₂_congr fun t _ => ?_)
      rw [Option.some.injEq, eq_comm]
  | none => exact List.eq_nil_iff_forall_not_mem.trans (forall₂_congr fun t _ => by simp)

theorem quiet_stopAudioOn_iff :
    (v.stopAudioOn id).Quiet excuses id ↔
      v.Recorded id ∨ excuses = true ∧ v.Unshown id := by
  unfold Quiet Unshown
  rw [tasksOf_stopAudioOn, ops_stopAudioOn]

theorem advance_startOutbound {shows : Bool} (hop : v.op i = .startOutbound (some id) shows) :
    (v.advance i true).tasksOf id = v.tasksOf id ++ [(v.spawned, id)] ∧
      (∀ other, other ≠ id → (v.advance i true).tasksOf other = v.tasksOf other) ∧
      (∀ other, (v.advance i true).voiceState other = v.voiceState other) ∧
      ∀ other, (v.advance i true).Unshown other ↔
        (VoiceOp.storeHandle (some (v.spawned, id)) shows).unshown = some other ∨
          v.Unshown other := by
  have hadvance : v.advance i true = { v with
      running := v.running ++ [(v.spawned, id)]
      spawned := v.spawned + 1 }.goto i (.storeHandle (some (v.spawned, id)) shows) := by
    unfold advance
    rw [hop]
    exact if_pos rfl
  have hnone : (v.op i).unshown = none := congrArg VoiceOp.unshown hop
  have hrunning : v.op i ≠ .finished := by
    rw [hop]
    exact nofun
  rw [hadvance]
  refine ⟨?_, fun other hne => ?_, fun _ => rfl, fun other => ?_⟩
  · simp [tasksOf, goto]
  · simp [tasksOf, goto, hne.symm]
  · exact unshown_goto_iff hnone hrunning

theorem noHotMicrophone_startOutbound_iff {shows : Bool} (h : NoHotMicrophone excuses v)
    (hop : v.op i = .startOutbound (some id) shows) :
    NoHotMicrophone excuses (v.advance i true) ↔ v.AdvancesQuietly excuses i true := by
  obtain ⟨hself, hothers, hvoice, hunshown⟩ := advance_startOutbound hop
  have hshows : (VoiceOp.storeHandle (some (v.spawned, id)) shows).unshown = some id ↔
      shows = true := by
    cases shows with
    | true => exact iff_of_true rfl rfl
    | false => exact iff_of_false nofun nofun
  unfold AdvancesQuietly
  rw [hop]
  refine Iff.trans ?_ (imp_iff_right rfl).symm
  constructor
  · intro hafter
    obtain ⟨hoff, hone⟩ := hafter id
    rw [hvoice] at hoff
    rw [hself, List.length_append] at hone
    refine ⟨List.length_eq_zero_iff.mp (Nat.le_zero.mp (Nat.le_of_add_le_add_right hone)), ?_⟩
    intro hid
    rcases hoff hid with hnil | ⟨hexcuses, hshown⟩
    · rw [hself] at hnil
      exact absurd hnil (List.append_ne_nil_of_right_ne_nil _ (List.cons_ne_nil _ _))
    · rw [hunshown, hshows] at hshown
      exact ⟨hexcuses, hshown⟩
  · rintro ⟨hnil, hexcused⟩ other
    rw [hvoice]
    unfold Quiet
    rw [hunshown]
    by_cases hsame : other = id
    · subst hsame
      rw [hshows, hself, hnil]
      exact ⟨fun hoff => Or.inr (hexcused hoff), le_refl 1⟩
    · rw [hothers other hsame]
      exact ⟨fun hoff => ((h other).1 hoff).imp_right (And.imp_right Or.inr), (h other).2⟩

theorem noHotMicrophone_setVoiceState_iff {ok : Bool} {voiceState : VoiceState}
    {client : Option (Option ServerId)} (h : NoHotMicrophone excuses v)
    (hop : v.op i = .setVoiceState voiceState client) :
    NoHotMicrophone excuses (v.advance i ok) ↔ v.AdvancesQuietly excuses i ok := by
  have hadvance : v.advance i ok = (v.goto i .finished).setVoiceState v.inner voiceState := by
    unfold advance
    rw [hop]
    rfl
  have hframe : Frame (fun id => id = v.inner ∨
      (VoiceOp.setVoiceState voiceState client).unshown = some id) v (v.advance i ok) := by
    rw [hadvance]
    refine (frame_goto fun id hid => ?_).trans (frame_setVoiceState (Or.inl rfl))
    rw [hop] at hid
    exact Or.inr (Or.inr hid)
  have hother {id : Option ServerId} (hne : id ≠ v.inner) :
      (v.advance i ok).voiceState id = v.voiceState id := by
    rw [hadvance]
    exact congrArg AudioPipelineState.voiceState (Function.update_of_ne hne ..)
  have hquiet (id : Option ServerId) :
      (v.advance i ok).Quiet excuses id ↔ (v.goto i .finished).Quiet excuses id := by
    rw [hadvance]
    exact Iff.rfl
  rw [hframe.noHotMicrophone_iff h]
  unfold AdvancesQuietly
  rw [hop]
  dsimp only
  constructor
  · intro hall
    refine ⟨fun hoff => (hquiet _).mp (hall _ (Or.inl rfl) ?_), fun id hid hne hoff => ?_⟩
    · rw [hadvance, voiceState_setVoiceState_self]
      exact hoff
    · rw [← hother hne] at hoff
      exact (hquiet id).mp (hall id (Or.inr hid) hoff)
  · rintro ⟨hinner, hclient⟩ id hid hoff
    rw [hquiet]
    by_cases hsame : id = v.inner
    · subst hsame
      rw [hadvance, voiceState_setVoiceState_self] at hoff
      exact hinner hoff
    · rw [hother hsame] at hoff
      exact hclient id (hid.resolve_left hsame) hsame hoff

theorem noHotMicrophone_setInactive_iff {ok : Bool} {prev : Option ServerId} {voice : VoiceState}
    {target : ServerId} (h : NoHotMicrophone excuses v)
    (hop : v.op i = .setInactive prev voice target) :
    NoHotMicrophone excuses (v.advance i ok) ↔ v.AdvancesQuietly excuses i ok := by
  have hadvance : v.advance i ok =
      (v.goto i (.lookUp voice target)).setVoiceState prev .inactive := by
    unfold advance
    rw [hop]
    rfl
  have hnone : (v.op i).unshown = none := congrArg VoiceOp.unshown hop
  have hrunning : v.op i ≠ .finished := by
    rw [hop]
    exact nofun
  have hunshown : (v.goto i (.lookUp voice target)).Unshown prev ↔ v.Unshown prev :=
    (unshown_goto_iff hnone hrunning).trans (or_iff_right nofun)
  rw [hadvance]
  unfold AdvancesQuietly
  rw [hop]
  dsimp only
  calc
    _ ↔ (v.goto i (.lookUp voice target)).Quiet excuses prev :=
      noHotMicrophone_inactive_iff ((frame_goto_of_none hnone).noHotMicrophone h) _
    _ ↔ _ := or_congr Iff.rfl (and_congr Iff.rfl hunshown)

theorem noHotMicrophone_advance_iff {ok : Bool} (h : NoHotMicrophone excuses v) :
    NoHotMicrophone excuses (v.advance i ok) ↔ v.AdvancesQuietly excuses i ok := by
  have hneutral (hframe : Frame (fun _ => False) v (v.advance i ok))
      (hquiet : v.AdvancesQuietly excuses i ok) :
      NoHotMicrophone excuses (v.advance i ok) ↔ v.AdvancesQuietly excuses i ok :=
    iff_of_true (hframe.noHotMicrophone h) hquiet
  cases hop : v.op i with
  | startOutbound client shows =>
      rcases client with _ | id
      -- without a client no task is started
      · refine hneutral (frame_advance (by simp [hop]) (by simp [hop]) (by simp [hop])) ?_
        unfold AdvancesQuietly
        rw [hop]
        trivial
      · cases ok with
        | true => exact noHotMicrophone_startOutbound_iff h hop
        | false =>
            refine hneutral (frame_advance (by simp) (by simp [hop]) (by simp [hop])) ?_
            unfold AdvancesQuietly
            rw [hop]
            exact nofun
  | setVoiceState voiceState client => exact noHotMicrophone_setVoiceState_iff h hop
  | setInactive prev voice target => exact noHotMicrophone_setInactive_iff h hop
  | _ =>
      refine hneutral (frame_advance (by simp [hop]) (by simp [hop]) (by simp [hop])) ?_
      unfold AdvancesQuietly
      rw [hop]
      trivial

theorem noHotMicrophone_resetVoice_iff (h : NoHotMicrophone excuses v) (task : SessionTask)
    (sessions : Sessions) :
    NoHotMicrophone excuses { v.resetVoice task with sessions } ↔
      ∀ id ∈ task.resets, v.Quiet excuses (some id) := by
  unfold resetVoice
  cases task.resets with
  | some id =>
      refine (noHotMicrophone_inactive_iff h sessions).trans ?_
      exact ⟨fun hquiet _ hid => Option.some.inj hid ▸ hquiet, fun hquiet => hquiet id rfl⟩
  | none =>
      have hsame : Frame (fun _ => False) v { v with sessions } := .of_eq rfl rfl rfl
      exact iff_of_true (hsame.noHotMicrophone h) nofun

/-- A step keeps the microphone from being hot exactly if it leaves no task running unseen. -/
theorem noHotMicrophone_step_iff (android : Bool) (h : NoHotMicrophone excuses v)
    (e : VoiceEvent) :
    NoHotMicrophone excuses (v.step android e) ↔ v.KeepsQuiet android excuses e := by
  have hneutral (hframe : Frame (fun _ => False) v (v.step android e)) :
      NoHotMicrophone excuses (v.step android e) ↔ True :=
    iff_true_intro (hframe.noHotMicrophone h)
  have hstopped (id : Option ServerId) : NoHotMicrophone excuses (v.stopAudioOn id) :=
    frame_stopAudioOn.noHotMicrophone h
  cases e with
  | call command =>
      refine hneutral ⟨fun _ => List.Sublist.refl _, fun _ _ => rfl, ?_⟩
      rintro id - ⟨op, hop, hid⟩
      exact ⟨op, List.mem_append_left _ hop, hid⟩
  | advance i ok => exact noHotMicrophone_advance_iff h
  | connect target => exact hneutral (.of_eq rfl rfl rfl)
  | advanceSession j ok order => exact noHotMicrophone_resetVoice_iff h _ _
  | synced id => exact hneutral (.of_eq rfl rfl rfl)
  | lost id =>
      calc
        _ ↔ (v.stopAudioOn (some id)).Quiet excuses (some id) :=
          noHotMicrophone_inactive_iff (hstopped _) _
        _ ↔ _ := quiet_stopAudioOn_iff
  | kicked id =>
      have hnil (hnone : v.tasksOf (some id) = []) : v.Recorded (some id) := by
        unfold Recorded
        rw [hnone]
        exact nofun
      cases android with
      | true =>
          refine (noHotMicrophone_inactive_iff h _).trans ?_
          unfold KeepsQuiet Quiet
          simp
      | false =>
          refine (noHotMicrophone_inactive_iff (hstopped _) _).trans ?_
          rw [quiet_stopAudioOn_iff]
          unfold KeepsQuiet
          dsimp only
          tauto
  | ended task => exact hneutral frame_endTask

end Step

/-! ## Runs -/

theorem noHotMicrophone_initial (excuses : Bool) : NoHotMicrophone excuses {} :=
  fun _ => ⟨fun _ => Or.inl rfl, Nat.zero_le 1⟩

/-- In a run the microphone is never hot exactly if no step leaves a task running unseen. -/
theorem noHotMicrophone_run_iff (android excuses : Bool) (events : List VoiceEvent) :
    Along (step android) (fun v e => NoHotMicrophone excuses (v.step android e)) {} events ↔
      Along (step android) (KeepsQuiet android excuses) {} events :=
  along_iff_along (fun _ e (hv : NoHotMicrophone excuses _) _ =>
      noHotMicrophone_step_iff android hv e)
    (fun _ e hv _ hquiet => (noHotMicrophone_step_iff android hv e).mpr hquiet)
    (noHotMicrophone_initial excuses) (along_of_forall (fun _ _ => trivial) _ _)

section Example

theorem not_noHotMicrophone {v : Voice} {id : Option ServerId} (excuses : Bool)
    (hoff : v.voiceState id ≠ .active) (htasks : v.tasksOf id ≠ [])
    (hops : ∀ op ∈ v.ops, op.unshown ≠ some id) : ¬NoHotMicrophone excuses v := by
  intro h
  rcases (h id).1 hoff with hnil | ⟨-, op, hop, hid⟩
  · exact htasks hnil
  · exact hops op hop hid

instance (v : Voice) (id : Option ServerId) : Decidable (v.Unshown id) :=
  inferInstanceAs (Decidable (∃ op ∈ v.ops, op.unshown = some id))

instance (excuses : Bool) (v : Voice) (id : Option ServerId) : Decidable (v.Quiet excuses id) :=
  inferInstanceAs (Decidable (_ ∨ _ ∧ _))

instance (v : Voice) (id : Option ServerId) : Decidable (v.Recorded id) :=
  inferInstanceAs (Decidable (∀ task ∈ v.tasksOf id, _))

instance (excuses : Bool) (v : Voice) (i : ℕ) (ok : Bool) :
    Decidable (v.AdvancesQuietly excuses i ok) := by
  unfold AdvancesQuietly
  split <;> infer_instance

instance (android excuses : Bool) (v : Voice) (e : VoiceEvent) :
    Decidable (v.KeepsQuiet android excuses e) :=
  match e with
  | .call _ => isTrue trivial
  | .advance i ok => inferInstanceAs (Decidable (v.AdvancesQuietly excuses i ok))
  | .connect _ => isTrue trivial
  | .advanceSession j _ _ => inferInstanceAs (Decidable (∀ id ∈ (v.sessions.task j).resets, _))
  | .synced _ => isTrue trivial
  | .lost _ => inferInstanceAs (Decidable (_ ∨ _ ∧ _))
  | .kicked _ => inferInstanceAs (Decidable (_ ∨ _ ∧ _ ∨ _ ∧ _))
  | .ended _ => isTrue trivial

private def commandExample (i n : ℕ) : List VoiceEvent :=
  List.replicate n (.advance i true)

private def connectedExample : List VoiceEvent :=
  .connect {} :: List.replicate 5 (.advanceSession 0 true HashOrder.listed) ++
    List.replicate 2 (.advanceSession 1 true HashOrder.listed) ++ [.synced 0]

-- a user enables voice, mutes, unmutes, and disconnects
example :
    Along (step false) (KeepsQuiet false true) {}
      (connectedExample ++ .call .enableVoice :: commandExample 0 4 ++
        .call .toggleMute :: commandExample 1 3 ++ .call .toggleMute :: commandExample 2 4 ++
        .call .disconnect :: commandExample 3 4 ++
        List.replicate 3 (.advanceSession 2 true HashOrder.listed)) := by
  decide +kernel

private def enabledTwiceExample : List VoiceEvent :=
  connectedExample ++ .call .enableVoice :: commandExample 0 4 ++
    .call .enableVoice :: commandExample 1 4 ++ .call .toggleMute :: commandExample 2 3

/-- No command is under way, and the session that shows that it is muted sends. -/
theorem muted_and_sending :
    let v := run (step false) {} enabledTwiceExample
    v.voiceState (some 0) = .muted ∧ v.tasksOf (some 0) = [(0, some 0)] ∧
      v.ops = [.finished, .finished, .finished] ∧
      ¬NoHotMicrophone true v ∧ ¬NoHotMicrophone false v := by
  intro v
  have hvoice : v.voiceState (some 0) = .muted := by decide +kernel
  have htasks : v.tasksOf (some 0) = [(0, some 0)] := by decide +kernel
  have hops : v.ops = [.finished, .finished, .finished] := by decide +kernel
  have hoff : v.voiceState (some 0) ≠ .active := by rw [hvoice]; exact nofun
  have hsending : v.tasksOf (some 0) ≠ [] := by rw [htasks]; exact List.cons_ne_nil _ _
  have hdone : ∀ op ∈ v.ops, op.unshown ≠ some (some 0) := by rw [hops]; decide
  clear_value v
  exact ⟨hvoice, htasks, hops, not_noHotMicrophone true hoff hsending hdone,
    not_noHotMicrophone false hoff hsending hdone⟩

end Example

end Voice

end FancyMumble.Client
