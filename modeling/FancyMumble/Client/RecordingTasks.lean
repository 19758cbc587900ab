import FancyMumble.Client.RecordingFiles
import FancyMumble.Lib.Runs

/-!
# The tasks of recordings

Each call of `start_recording` looks at the active session three times: for a recording that runs,
for the names, and to install the handle of its task. A task that is stopped runs until it looks at
its flag.
-/

namespace FancyMumble.Client.RecordingTasks

open Lib.Occurrences Lib.Runs Client.RecordingFiles

variable {S : Type}

structure Task (S : Type) where
  session : S
  path : List Char
  stopFlag : Bool := false
  opened : Bool := false
  ended : Bool := false

def Task.failed (self : Task S) : Bool := self.ended && !self.opened

/-- What a thread is doing: nothing, a call of `start_recording` that found no recording in a
session or has spawned the task of one, or a call of `stop_recording` that took the handle. -/
inductive Call (S : Type) where
  | idle
  | checked (session : S)
  | spawned (session : S) (task : ℕ)
  | stopping (task : ℕ)

def Call.Starts : Call S → S → Prop
  | .checked session, x => session = x
  | .spawned session _, x => session = x
  | _, _ => False

def Call.Knows : Call S → S → ℕ → Prop
  | .spawned session task, x, t => session = x ∧ task = t
  | .stopping task, _, t => task = t
  | _, _, _ => False

structure State (S : Type) where
  active : S
  handle : S → Option ℕ
  calls : ℕ → Call S
  tasks : ℕ → Option (Task S)

structure Request where
  directory : List Char
  clock : Clock
  template : List Char
  names : Names

def Request.path (self : Request) : List Char :=
  filePath self.directory self.clock self.template self.names

/-- A section of a call on a thread, a step of a task, or a change of the active session. -/
inductive Event (S : Type) where
  | switchTab (session : S)
  | check (thread : ℕ)
  | spawn (thread task : ℕ) (request : Request)
  | fail (thread : ℕ)
  | install (thread : ℕ)
  | take (thread : ℕ)
  | flag (thread : ℕ)
  | create (task : ℕ) (ok : Bool)
  | poll (task : ℕ) (ok : Bool)

namespace State

def initial (active : S) : State S where
  active := active
  handle := fun _ => none
  calls := fun _ => .idle
  tasks := fun _ => none

def setCall (self : State S) (thread : ℕ) (call : Call S) : State S :=
  { self with calls := Function.update self.calls thread call }

def setTask (self : State S) (task : ℕ) (value : Task S) : State S :=
  { self with tasks := Function.update self.tasks task (some value) }

def setHandle [DecidableEq S] (self : State S) (session : S) (handle : Option ℕ) : State S :=
  { self with handle := Function.update self.handle session handle }

def check (self : State S) (thread : ℕ) : State S :=
  match self.calls thread, self.handle self.active with
  | .idle, none => self.setCall thread (.checked self.active)
  | _, _ => self

def spawn (self : State S) (thread task : ℕ) (request : Request) : State S :=
  match self.calls thread, self.tasks task with
  | .checked session, none =>
      (self.setTask task { session := self.active, path := request.path }).setCall thread
        (.spawned session task)
  | _, _ => self

def fail (self : State S) (thread : ℕ) : State S :=
  match self.calls thread with
  | .checked _ => self.setCall thread .idle
  | _ => self

def install [DecidableEq S] (self : State S) (thread : ℕ) : State S :=
  match self.calls thread with
  | .spawned _ task => (self.setHandle self.active (some task)).setCall thread .idle
  | _ => self

def take [DecidableEq S] (self : State S) (thread : ℕ) : State S :=
  match self.calls thread, self.handle self.active with
  | .idle, some task => (self.setHandle self.active none).setCall thread (.stopping task)
  | _, _ => self

def modifyTask (self : State S) (task : ℕ) (f : Task S → Task S) : State S :=
  match self.tasks task with
  | some value => self.setTask task (f value)
  | none => self

def flag (self : State S) (thread : ℕ) : State S :=
  match self.calls thread with
  | .stopping task =>
      (self.modifyTask task fun value => { value with stopFlag := true }).setCall thread .idle
  | _ => self

end State

def Task.create (ok : Bool) (self : Task S) : Task S :=
  if self.opened || self.ended then self
  else if ok then { self with opened := true }
  else { self with ended := true }

def Task.poll (ok : Bool) (self : Task S) : Task S :=
  if self.opened && (self.stopFlag || !ok) then { self with ended := true } else self

namespace State

def step [DecidableEq S] (self : State S) : Event S → State S
  | .switchTab session => { self with active := session }
  | .check thread => self.check thread
  | .spawn thread task request => self.spawn thread task request
  | .fail thread => self.fail thread
  | .install thread => self.install thread
  | .take thread => self.take thread
  | .flag thread => self.flag thread
  | .create task ok => self.modifyTask task (Task.create ok)
  | .poll task ok => self.modifyTask task (Task.poll ok)

def Running (s : State S) (session : S) (task : ℕ) : Prop :=
  ∃ value, s.tasks task = some value ∧ value.session = session ∧ value.ended = false

def Flagged (s : State S) (task : ℕ) : Prop :=
  ∃ value, s.tasks task = some value ∧ value.stopFlag = true

variable {F : Type} (file : List Char → F)

/-- Every session has at most one running task, which the handle of the session, a call that
started it or a call that stops it still knows, and the recordings have files of their own. -/
structure Kept (s : State S) : Prop where
  one : ∀ x t t', s.Running x t → s.Running x t' → t = t'
  owned : ∀ x t, s.Running x t →
    s.Flagged t ∨ s.handle x = some t ∨ ∃ i, (s.calls i).Knows x t
  starting : ∀ i x, (s.calls i).Starts x → s.handle x = none ∧
    (∀ j, (s.calls j).Starts x → j = i) ∧ ∀ t, s.Running x t → (s.calls i).Knows x t
  files : ∀ t t' v v', t ≠ t' → s.tasks t = some v → s.tasks t' = some v' →
    v.failed = false → v'.failed = false → file v.path ≠ file v'.path

/-- No command is under way in a session, and the tasks of it that were stopped have ended. -/
structure Quiet (s : State S) (x : S) : Prop where
  starts : ∀ i, ¬(s.calls i).Starts x
  stops : ∀ i t v, s.calls i = .stopping t → s.tasks t = some v → v.session ≠ x
  ended : ∀ t v, s.tasks t = some v → v.session = x → v.stopFlag = true → v.ended = true

/-- A recording is started when nothing of an earlier one is left, in one session all along, and
in a file that no recording has. -/
def Orderly (s : State S) : Event S → Prop
  | .check _ => s.handle s.active = none → s.Quiet s.active
  | .spawn i _ request => ∀ x, s.calls i = .checked x → s.active = x ∧
      ∀ t v, s.tasks t = some v → v.failed = false → file v.path ≠ file request.path
  | .install i => ∀ x t, s.calls i = .spawned x t → s.active = x
  | _ => True

/-- Every session has at most one running task afterwards, and no file of another recording is
truncated. -/
structure Safe [DecidableEq S] (s : State S) (event : Event S) : Prop where
  one : ∀ x t t', (s.step event).Running x t → (s.step event).Running x t' → t = t'
  truncates : ∀ t v, event = .create t true → s.tasks t = some v → v.opened = false →
    v.ended = false → ∀ t' v', t' ≠ t → s.tasks t' = some v' → v'.opened = true →
      file v'.path ≠ file v.path

end State

/-! ## Tasks over time -/

structure Task.Later (v v' : Task S) : Prop where
  session : v'.session = v.session
  path : v'.path = v.path
  ended : v'.ended = false → v.ended = false
  stopFlag : v.stopFlag = true → v'.stopFlag = true
  failed : v'.failed = false → v.failed = false

theorem Task.later_stopFlag (v : Task S) : v.Later { v with stopFlag := true } where
  session := rfl
  path := rfl
  ended h := h
  stopFlag _ := rfl
  failed h := h

theorem Task.later_create (ok : Bool) (v : Task S) : v.Later (v.create ok) := by
  unfold Task.create
  cases hopened : v.opened with
  | true => exact ⟨rfl, rfl, id, id, id⟩
  | false =>
      cases hended : v.ended with
      | true => exact ⟨rfl, rfl, id, id, id⟩
      | false =>
          cases ok with
          | true => exact ⟨rfl, rfl, fun _ => hended, id, fun _ => by rw [failed, hended]; rfl⟩
          | false => exact ⟨rfl, rfl, fun _ => hended, id, fun _ => by rw [failed, hended]; rfl⟩

theorem Task.later_poll (ok : Bool) (v : Task S) : v.Later (v.poll ok) := by
  unfold Task.poll
  cases hopened : v.opened with
  | false => exact ⟨rfl, rfl, id, id, id⟩
  | true =>
      have hfailed : v.failed = false := by
        rw [failed, hopened]
        exact Bool.and_false _
      by_cases hends : (v.stopFlag || !ok) = true
      · rw [Bool.true_and, if_pos hends]
        refine ⟨rfl, rfl, fun h => ?_, id, fun _ => hfailed⟩
        cases h
      · rw [Bool.true_and, if_neg hends]
        exact ⟨rfl, rfl, id, id, id⟩

theorem Task.Later.refl (v : Task S) : Later v v := ⟨rfl, rfl, id, id, id⟩

namespace State

variable {s s' : State S} {x : S} {i t : ℕ}

structure TasksLater (s s' : State S) : Prop where
  before : ∀ {t v'}, s'.tasks t = some v' → ∃ v, s.tasks t = some v ∧ Task.Later v v'
  after : ∀ {t v}, s.tasks t = some v → ∃ v', s'.tasks t = some v' ∧ Task.Later v v'

theorem TasksLater.of_eq (h : s'.tasks = s.tasks) : s.TasksLater s' where
  before hv := ⟨_, h ▸ hv, .refl _⟩
  after hv := ⟨_, h ▸ hv, .refl _⟩

theorem tasks_setTask_self (s : State S) (t : ℕ) (v : Task S) :
    (s.setTask t v).tasks t = some v :=
  Function.update_self _ _ _

theorem tasks_setTask_of_ne {u : ℕ} (hu : u ≠ t) (s : State S) (v : Task S) :
    (s.setTask t v).tasks u = s.tasks u :=
  Function.update_of_ne hu _ _

theorem modifyTask_of_some {v : Task S} (hv : s.tasks t = some v) (f : Task S → Task S) :
    s.modifyTask t f = s.setTask t (f v) := by
  rw [modifyTask, hv]

theorem tasksLater_modifyTask {f : Task S → Task S} (hf : ∀ v, Task.Later v (f v)) (s : State S)
    (t : ℕ) : s.TasksLater (s.modifyTask t f) := by
  cases htask : s.tasks t with
  | none => exact .of_eq (by rw [modifyTask, htask])
  | some v =>
      rw [modifyTask_of_some htask]
      have hself := tasks_setTask_self s t (f v)
      have hother : ∀ u, u ≠ t → (s.setTask t (f v)).tasks u = s.tasks u :=
        fun u hu => tasks_setTask_of_ne hu s (f v)
      constructor
      · intro u v' hv'
        by_cases hu : u = t
        · rw [hu, hself, Option.some.injEq] at hv'
          exact ⟨v, hu ▸ htask, hv' ▸ hf v⟩
        · exact ⟨v', hother u hu ▸ hv', .refl _⟩
      · intro u w hw
        by_cases hu : u = t
        · rw [hu, htask, Option.some.injEq] at hw
          exact ⟨f v, hu ▸ hself, hw ▸ hf v⟩
        · exact ⟨w, (hother u hu).trans hw, .refl _⟩

theorem modifyTask_calls (s : State S) (t : ℕ) (f : Task S → Task S) :
    (s.modifyTask t f).calls = s.calls := by
  unfold modifyTask
  cases s.tasks t <;> rfl

theorem modifyTask_handle (s : State S) (t : ℕ) (f : Task S → Task S) :
    (s.modifyTask t f).handle = s.handle := by
  unfold modifyTask
  cases s.tasks t <;> rfl

theorem Running.before (hlater : s.TasksLater s') (h : s'.Running x t) : s.Running x t := by
  obtain ⟨v', hv', hsession, hended⟩ := h
  obtain ⟨v, hv, hvv⟩ := hlater.before hv'
  exact ⟨v, hv, hvv.session.symm.trans hsession, hvv.ended hended⟩

theorem Flagged.after (hlater : s.TasksLater s') (h : s.Flagged t) : s'.Flagged t := by
  obtain ⟨v, hv, hflag⟩ := h
  obtain ⟨v', hv', hvv⟩ := hlater.after hv
  exact ⟨v', hv', hvv.stopFlag hflag⟩

/-! ## Sections of calls -/

section Kept

variable {F : Type} {file : List Char → F}

theorem Kept.files_later (hlater : s.TasksLater s') (h : s.Kept file) :
    ∀ t t' v v', t ≠ t' → s'.tasks t = some v → s'.tasks t' = some v' →
      v.failed = false → v'.failed = false → file v.path ≠ file v'.path := by
  intro t t' v v' hne hv hv' hfailed hfailed'
  obtain ⟨w, hw, hlw⟩ := hlater.before hv
  obtain ⟨w', hw', hlw'⟩ := hlater.before hv'
  rw [hlw.path, hlw'.path]
  exact h.files t t' w w' hne hw hw' (hlw.failed hfailed) (hlw'.failed hfailed')

theorem Kept.later (hlater : s.TasksLater s') (hcalls : s'.calls = s.calls)
    (hhandle : s'.handle = s.handle) (h : s.Kept file) : s'.Kept file where
  one x t t' ht ht' := h.one x t t' (ht.before hlater) (ht'.before hlater)
  owned x t ht := by
    rw [hcalls, hhandle]
    rcases h.owned x t (ht.before hlater) with hflag | hknown
    · exact .inl (hflag.after hlater)
    · exact .inr hknown
  starting i x hi := by
    rw [hcalls] at hi ⊢
    obtain ⟨hnone, honly, hruns⟩ := h.starting i x hi
    rw [hhandle]
    exact ⟨hnone, honly, fun t ht => hruns t (ht.before hlater)⟩
  files := h.files_later hlater

theorem kept_initial (active : S) : (initial active).Kept file where
  one x t t' ht := by
    obtain ⟨v, hv, -⟩ := ht
    cases hv
  owned x t ht := by
    obtain ⟨v, hv, -⟩ := ht
    cases hv
  starting i x hi := hi.elim
  files t t' v v' hne hv := by cases hv

theorem Kept.of_call (h : s.Kept file) (call : Call S)
    (hcalls : s'.calls = Function.update s.calls i call)
    (hone : ∀ x t t', s'.Running x t → s'.Running x t' → t = t')
    (howned : ∀ x t, s'.Running x t → s'.Flagged t ∨ s'.handle x = some t ∨ call.Knows x t ∨
      ∃ j ≠ i, (s.calls j).Knows x t)
    (hnew : ∀ x, call.Starts x → s'.handle x = none ∧ (∀ j ≠ i, ¬(s.calls j).Starts x) ∧
      ∀ t, s'.Running x t → call.Knows x t)
    (hold : ∀ j ≠ i, ∀ x, (s.calls j).Starts x → s'.handle x = none ∧
      ∀ t, s'.Running x t → (s.calls j).Knows x t)
    (hfiles : ∀ t t' v v', t ≠ t' → s'.tasks t = some v → s'.tasks t' = some v' →
      v.failed = false → v'.failed = false → file v.path ≠ file v'.path) : s'.Kept file := by
  have hself : s'.calls i = call := by
    rw [hcalls]
    exact Function.update_self _ _ _
  have hother : ∀ j ≠ i, s'.calls j = s.calls j := by
    intro j hj
    rw [hcalls]
    exact Function.update_of_ne hj _ _
  refine ⟨hone, fun x t ht => ?_, fun j x hj => ?_, hfiles⟩
  · rcases howned x t ht with hflag | hhandle | hcall | ⟨j, hj, hknows⟩
    · exact .inl hflag
    · exact .inr (.inl hhandle)
    · exact .inr (.inr ⟨i, hself.symm ▸ hcall⟩)
    · exact .inr (.inr ⟨j, (hother j hj).symm ▸ hknows⟩)
  · by_cases hji : j = i
    · rw [hji, hself] at hj
      obtain ⟨hnone, honly, hruns⟩ := hnew x hj
      refine ⟨hnone, fun k hk => ?_, fun t ht => ?_⟩
      · by_contra hne
        have hki : k ≠ i := fun h => hne (h.trans hji.symm)
        exact honly k hki (hother k hki ▸ hk)
      · rw [hji, hself]
        exact hruns t ht
    · rw [hother j hji] at hj ⊢
      obtain ⟨hnone, hruns⟩ := hold j hji x hj
      refine ⟨hnone, fun k hk => ?_, hruns⟩
      by_cases hki : k = i
      · rw [hki, hself] at hk
        exact absurd hj ((hnew x hk).2.1 j hji)
      · exact (h.starting j x hj).2.1 k (hother k hki ▸ hk)

theorem Kept.owned_cases (h : s.Kept file) (i : ℕ) (hrunning : s.Running x t) :
    s.Flagged t ∨ s.handle x = some t ∨ (s.calls i).Knows x t ∨
      ∃ j ≠ i, (s.calls j).Knows x t := by
  rcases h.owned x t hrunning with hflag | hhandle | ⟨j, hj⟩
  · exact .inl hflag
  · exact .inr (.inl hhandle)
  · by_cases hji : j = i
    · exact .inr (.inr (.inl (hji ▸ hj)))
    · exact .inr (.inr (.inr ⟨j, hji, hj⟩))

theorem Kept.ne_of_starts (h : s.Kept file) {j : ℕ} {y : S} (hi : (s.calls i).Starts y)
    (hji : j ≠ i) (hj : (s.calls j).Starts x) : x ≠ y := by
  rintro rfl
  exact hji ((h.starting i x hi).2.1 j hj)

theorem Kept.not_running (h : s.Kept file) (hquiet : s.Quiet x) (hnone : s.handle x = none) :
    ¬s.Running x t := by
  intro hrunning
  have hknown := h.owned x t hrunning
  obtain ⟨v, hv, hsession, hended⟩ := hrunning
  rcases hknown with ⟨w, hw, hflag⟩ | hhandle | ⟨i, hi⟩
  · rw [hv, Option.some.injEq] at hw
    have hend := hquiet.ended t v hv hsession (hw ▸ hflag)
    rw [hended] at hend
    cases hend
  · rw [hnone] at hhandle
    cases hhandle
  · cases hcall : s.calls i with
    | idle => rw [hcall] at hi; exact hi
    | checked y => rw [hcall] at hi; exact hi
    | spawned y u =>
        refine hquiet.starts i ?_
        rw [hcall] at hi ⊢
        exact hi.1
    | stopping u =>
        rw [hcall] at hi
        obtain rfl : u = t := hi
        exact hquiet.stops i u v hcall hv hsession

theorem Kept.check (h : s.Kept file) (hquiet : s.handle s.active = none → s.Quiet s.active) :
    (s.check i).Kept file := by
  unfold State.check
  cases hcall : s.calls i with
  | checked y => exact h
  | spawned y t => exact h
  | stopping t => exact h
  | idle =>
      cases hhandle : s.handle s.active with
      | some t => exact h
      | none =>
          have hq := hquiet hhandle
          refine h.of_call (.checked s.active) rfl h.one ?_ ?_ ?_ h.files
          · intro x t ht
            rcases h.owned_cases i ht with hflag | hknown | hi | hothers
            · exact .inl hflag
            · exact .inr (.inl hknown)
            · rw [hcall] at hi
              exact hi.elim
            · exact .inr (.inr (.inr hothers))
          · intro x hx
            obtain rfl : s.active = x := hx
            exact ⟨hhandle, fun j _ => hq.starts j,
              fun t ht => absurd ht (h.not_running hq hhandle)⟩
          · intro j _ x hj
            obtain ⟨hnone, -, hruns⟩ := h.starting j x hj
            exact ⟨hnone, hruns⟩

theorem running_setTask {v : Task S} {u : ℕ} (h : (s.setTask t v).Running x u) :
    u = t ∧ v.session = x ∨ s.Running x u := by
  obtain ⟨w, hw, hsession, hended⟩ := h
  by_cases hu : u = t
  · rw [hu, tasks_setTask_self, Option.some.injEq] at hw
    exact .inl ⟨hu, hw ▸ hsession⟩
  · rw [tasks_setTask_of_ne hu] at hw
    exact .inr ⟨w, hw, hsession, hended⟩

theorem Kept.files_setTask {v : Task S} (h : s.Kept file)
    (hfree : ∀ u w, s.tasks u = some w → w.failed = false → file w.path ≠ file v.path) :
    ∀ u u' w w', u ≠ u' → (s.setTask t v).tasks u = some w → (s.setTask t v).tasks u' = some w' →
      w.failed = false → w'.failed = false → file w.path ≠ file w'.path := by
  intro u u' w w' hne hw hw' hfailed hfailed'
  by_cases hu : u = t
  · have hu' : u' ≠ t := fun hu' => hne (hu.trans hu'.symm)
    rw [hu, tasks_setTask_self, Option.some.injEq] at hw
    rw [tasks_setTask_of_ne hu'] at hw'
    rw [← hw]
    exact (hfree u' w' hw' hfailed').symm
  · rw [tasks_setTask_of_ne hu] at hw
    by_cases hu' : u' = t
    · rw [hu', tasks_setTask_self, Option.some.injEq] at hw'
      rw [← hw']
      exact hfree u w hw hfailed
    · rw [tasks_setTask_of_ne hu'] at hw'
      exact h.files u u' w w' hne hw hw' hfailed hfailed'

theorem Kept.spawn {request : Request} (h : s.Kept file)
    (hfits : ∀ x, s.calls i = .checked x → s.active = x ∧
      ∀ t v, s.tasks t = some v → v.failed = false → file v.path ≠ file request.path) :
    (s.spawn i t request).Kept file := by
  unfold State.spawn
  cases hcall : s.calls i with
  | idle => exact h
  | spawned y u => exact h
  | stopping u => exact h
  | checked y =>
      cases htask : s.tasks t with
      | some v => exact h
      | none =>
          obtain ⟨hactive, hfree⟩ := hfits y hcall
          have hstarts : (s.calls i).Starts y := by rw [hcall]; rfl
          obtain ⟨hnone, honly, hruns⟩ := h.starting i y hstarts
          have hnot : ∀ u, ¬s.Running y u := by
            intro u hu
            have hknows := hruns u hu
            rw [hcall] at hknows
            exact hknows
          dsimp only
          set added := s.setTask t { session := s.active, path := request.path } with hadded
          have hrunning : ∀ {x u}, added.Running x u → u = t ∧ x = y ∨ x ≠ y ∧ s.Running x u := by
            intro x u hu
            rcases running_setTask hu with ⟨hut, hx⟩ | hbefore
            · exact .inl ⟨hut, hx.symm.trans hactive⟩
            · exact .inr ⟨fun hxy => hnot u (hxy ▸ hbefore), hbefore⟩
          refine h.of_call (.spawned y t) rfl ?_ ?_ ?_ ?_ (h.files_setTask hfree)
          · intro x u u' hu hu'
            rcases hrunning hu with ⟨hut, hx⟩ | ⟨hx, hbefore⟩
            · rcases hrunning hu' with ⟨hut', -⟩ | ⟨hx', -⟩
              · exact hut.trans hut'.symm
              · exact absurd hx hx'
            · rcases hrunning hu' with ⟨-, hx'⟩ | ⟨-, hbefore'⟩
              · exact absurd hx' hx
              · exact h.one x u u' hbefore hbefore'
          · intro x u hu
            rcases hrunning hu with ⟨hut, hx⟩ | ⟨-, hbefore⟩
            · exact .inr (.inr (.inl ⟨hx.symm, hut.symm⟩))
            · rcases h.owned_cases i hbefore with ⟨w, hw, hflag⟩ | hknown | hi | hothers
              · have hut : u ≠ t := fun hut => by rw [hut, htask] at hw; cases hw
                exact .inl ⟨w, (tasks_setTask_of_ne hut s _).trans hw, hflag⟩
              · exact .inr (.inl hknown)
              · rw [hcall] at hi
                exact hi.elim
              · exact .inr (.inr (.inr hothers))
          · intro x hx
            obtain rfl : y = x := hx
            refine ⟨hnone, fun j hj hstart => hj (honly j hstart), fun u hu => ?_⟩
            rcases hrunning hu with ⟨hut, -⟩ | ⟨hne, -⟩
            · exact ⟨rfl, hut.symm⟩
            · exact absurd rfl hne
          · intro j hj x hstart
            have hxy : x ≠ y := h.ne_of_starts hstarts hj hstart
            obtain ⟨hnone', -, hruns'⟩ := h.starting j x hstart
            refine ⟨hnone', fun u hu => ?_⟩
            rcases hrunning hu with ⟨-, hx⟩ | ⟨-, hbefore⟩
            · exact absurd hx hxy
            · exact hruns' u hbefore

theorem Kept.fail (h : s.Kept file) : (s.fail i).Kept file := by
  unfold State.fail
  cases hcall : s.calls i with
  | idle => exact h
  | spawned y u => exact h
  | stopping u => exact h
  | checked y =>
      dsimp only
      refine h.of_call .idle rfl h.one ?_ (fun x hx => hx.elim) ?_ h.files
      · intro x t ht
        rcases h.owned_cases i ht with hflag | hknown | hi | hothers
        · exact .inl hflag
        · exact .inr (.inl hknown)
        · rw [hcall] at hi
          exact hi.elim
        · exact .inr (.inr (.inr hothers))
      · intro j _ x hj
        obtain ⟨hnone, -, hruns⟩ := h.starting j x hj
        exact ⟨hnone, hruns⟩

variable [DecidableEq S]

theorem Kept.install (h : s.Kept file) (hactive : ∀ x t, s.calls i = .spawned x t → s.active = x) :
    (s.install i).Kept file := by
  unfold State.install
  cases hcall : s.calls i with
  | idle => exact h
  | checked y => exact h
  | stopping u => exact h
  | spawned y t =>
      have hy := hactive y t hcall
      have hstarts : (s.calls i).Starts y := by rw [hcall]; rfl
      obtain ⟨hnone, -, -⟩ := h.starting i y hstarts
      have hself : (s.setHandle s.active (some t)).handle y = some t := by
        rw [hy]
        exact Function.update_self _ _ _
      have hother : ∀ x, x ≠ y → (s.setHandle s.active (some t)).handle x = s.handle x := by
        intro x hx
        rw [hy]
        exact Function.update_of_ne hx _ _
      dsimp only
      refine h.of_call .idle rfl h.one ?_ (fun x hx => hx.elim) ?_ h.files
      · intro x u hu
        rcases h.owned_cases i hu with hflag | hknown | hi | hothers
        · exact .inl hflag
        · have hx : x ≠ y := fun hx => by rw [hx, hnone] at hknown; cases hknown
          exact .inr (.inl ((hother x hx).trans hknown))
        · rw [hcall] at hi
          obtain ⟨rfl, rfl⟩ := hi
          exact .inr (.inl hself)
        · exact .inr (.inr (.inr hothers))
      · intro j hj x hstart
        obtain ⟨hnone', -, hruns⟩ := h.starting j x hstart
        exact ⟨(hother x (h.ne_of_starts hstarts hj hstart)).trans hnone', hruns⟩

theorem Kept.take (h : s.Kept file) : (s.take i).Kept file := by
  unfold State.take
  cases hcall : s.calls i with
  | checked y => exact h
  | spawned y u => exact h
  | stopping u => exact h
  | idle =>
      cases hhandle : s.handle s.active with
      | none => exact h
      | some t =>
          have hself : (s.setHandle s.active none).handle s.active = none :=
            Function.update_self _ _ _
          have hother : ∀ x, x ≠ s.active → (s.setHandle s.active none).handle x = s.handle x :=
            fun x hx => Function.update_of_ne hx _ _
          dsimp only
          refine h.of_call (.stopping t) rfl h.one ?_ (fun x hx => hx.elim) ?_ h.files
          · intro x u hu
            rcases h.owned_cases i hu with hflag | hknown | hi | hothers
            · exact .inl hflag
            · by_cases hx : x = s.active
              · rw [hx, hhandle, Option.some.injEq] at hknown
                exact .inr (.inr (.inl hknown))
              · exact .inr (.inl ((hother x hx).trans hknown))
            · rw [hcall] at hi
              exact hi.elim
            · exact .inr (.inr (.inr hothers))
          · intro j _ x hj
            obtain ⟨hnone, -, hruns⟩ := h.starting j x hj
            refine ⟨?_, hruns⟩
            by_cases hx : x = s.active
            · rw [hx]
              exact hself
            · exact (hother x hx).trans hnone

omit [DecidableEq S] in
theorem Kept.flag (h : s.Kept file) : (s.flag i).Kept file := by
  unfold State.flag
  cases hcall : s.calls i with
  | idle => exact h
  | checked y => exact h
  | spawned y u => exact h
  | stopping t =>
      dsimp only
      set flagged := s.modifyTask t fun v => { v with stopFlag := true } with hflagged
      have htasks : s.TasksLater flagged := tasksLater_modifyTask Task.later_stopFlag s t
      have hlater : s.TasksLater (flagged.setCall i .idle) := ⟨htasks.before, htasks.after⟩
      have hcalls : (flagged.setCall i .idle).calls = Function.update s.calls i .idle := by
        rw [setCall, hflagged, modifyTask_calls]
      have hhandle : flagged.handle = s.handle := modifyTask_handle s t _
      refine h.of_call .idle hcalls
        (fun x u u' hu hu' => h.one x u u' (hu.before hlater) (hu'.before hlater)) ?_
        (fun x hx => hx.elim) ?_ (h.files_later hlater)
      · intro x u hu
        rcases h.owned_cases i (hu.before hlater) with hflag | hknown | hi | hothers
        · exact .inl (hflag.after hlater)
        · exact .inr (.inl ((congrFun hhandle x).trans hknown))
        · rw [hcall] at hi
          obtain rfl : t = u := hi
          obtain ⟨v, hv, -⟩ := hu.before hlater
          refine .inl ⟨{ v with stopFlag := true }, ?_, rfl⟩
          rw [hflagged, modifyTask_of_some hv]
          exact tasks_setTask_self s t _
        · exact .inr (.inr (.inr hothers))
      · intro j _ x hj
        obtain ⟨hnone, -, hruns⟩ := h.starting j x hj
        exact ⟨(congrFun hhandle x).trans hnone, fun u hu => hruns u (hu.before hlater)⟩

theorem Kept.step (h : s.Kept file) {event : Event S} (horderly : s.Orderly file event) :
    (s.step event).Kept file := by
  cases event with
  | switchTab y => exact ⟨h.one, h.owned, h.starting, h.files⟩
  | check i => exact h.check horderly
  | spawn i t request => exact h.spawn horderly
  | fail i => exact h.fail
  | install i => exact h.install horderly
  | take i => exact h.take
  | flag i => exact h.flag
  | create t ok =>
      exact h.later (tasksLater_modifyTask (Task.later_create ok) s t) (modifyTask_calls s t _)
        (modifyTask_handle s t _)
  | poll t ok =>
      exact h.later (tasksLater_modifyTask (Task.later_poll ok) s t) (modifyTask_calls s t _)
        (modifyTask_handle s t _)

theorem Kept.safe (h : s.Kept file) {event : Event S} (horderly : s.Orderly file event) :
    s.Safe file event where
  one := (h.step horderly).one
  truncates t v _ hv _ hended t' v' hne hv' hopened := by
    have hfailed : v.failed = false := by
      rw [Task.failed, hended]
      exact Bool.false_and _
    have hfailed' : v'.failed = false := by
      rw [Task.failed, hopened]
      exact Bool.and_false _
    exact h.files t' t v' v hne hv' hv hfailed' hfailed

theorem along_safe (active : S) {events : List (Event S)}
    (h : Along step (Orderly file) (initial active) events) :
    Along step (Safe file) (initial active) events :=
  along_of_invariant (fun _ _ hkept horderly => hkept.step horderly)
    (fun _ _ hkept horderly => hkept.safe horderly) (kept_initial active) h

end Kept

end State

/-! ## Recordings -/

/-- Text of a name is put in as it is and a recording is where its template designates, and the
recordings of a session do not disturb each other, under what each of these needs. -/
theorem recordings_stay [DecidableEq S] {F : Type} (directory : List Char) (clock : Clock)
    (template : List Char) (names : Names) (file : List Char → F) (active : S)
    (events : List (Event S)) :
    (NotAgain template names →
      expandFilenameTemplate clock template names = expandOnce clock template names ∧
        (place (filePath directory clock template names) =
            designated directory (partsOf clock template names) ↔
          Fit directory (partsOf clock template names))) ∧
      (Along State.step (State.Orderly file) (State.initial active) events →
        Along State.step (State.Safe file) (State.initial active) events) :=
  ⟨fun h => ⟨expandFilenameTemplate_eq clock h, place_filePath_iff directory clock h⟩,
    State.along_safe active⟩

def noon : Clock where
  date := "2026-01-31".toList
  time := "12-00-00".toList
  datetime := "2026-01-31_12-00-00".toList
  ne_nil := by decide
  written := forall_of_all (by decide)

def general : Request where
  directory := "/rec".toList
  clock := noon
  template := "\x7bhost\x7d/\x7bdate\x7d_\x7bchannel\x7d".toList
  names := { host := "example.org".toList, user := "me".toList, channel := "General".toList }

theorem recordings_stay_general :
    (expandFilenameTemplate noon general.template general.names =
        expandOnce noon general.template general.names ∧
      place general.path = designated general.directory
        (partsOf noon general.template general.names)) ∧
      Along State.step (State.Safe id) (State.initial 1)
        [.check 0, .spawn 0 0 general, .install 0, .create 0 true] := by
  have hagain : NotAgain general.template general.names := ⟨by decide, by decide⟩
  have hfit : Fit general.directory (partsOf noon general.template general.names) :=
    ⟨by decide, by decide⟩
  have horderly : Along State.step (State.Orderly id) (State.initial 1)
      [.check 0, .spawn 0 0 general, .install 0, .create 0 true] := by
    refine ⟨fun _ => ⟨fun i hi => hi, fun i t v hi => ?_, fun t v hv => ?_⟩, fun x hx => ?_,
      fun x t hx => ?_, trivial, trivial⟩
    · cases hi
    · cases hv
    · refine ⟨Call.checked.inj hx, fun t v hv => ?_⟩
      cases hv
    · exact (Call.spawned.inj hx).1
  obtain ⟨hfile, hrun⟩ := recordings_stay general.directory noon general.template general.names id 1
    [.check 0, .spawn 0 0 general, .install 0, .create 0 true]
  obtain ⟨honce, hplace⟩ := hfile hagain
  exact ⟨⟨honce, hplace.mpr hfit⟩, hrun horderly⟩

/-- A host is expanded again, a channel takes its file elsewhere, and of two calls at a time each
starts a task. -/
theorem recordings_go_astray :
    expandFilenameTemplate noon "\x7bhost\x7d".toList
        { host := "\x7buser\x7d".toList, user := "me".toList, channel := [] } ≠
      expandOnce noon "\x7bhost\x7d".toList
        { host := "\x7buser\x7d".toList, user := "me".toList, channel := [] } ∧
      place (filePath "/rec".toList noon "\x7bchannel\x7d".toList
          { host := [], user := [], channel := "/home/me/x".toList }) ≠
        designated "/rec".toList (partsOf noon "\x7bchannel\x7d".toList
          { host := [], user := [], channel := "/home/me/x".toList }) ∧
      ¬Along State.step (State.Safe id) (State.initial 1)
        [.check 0, .check 1, .spawn 0 0 general, .spawn 1 1 general] := by
  refine ⟨by decide, by decide, fun h => ?_⟩
  have hone := h.2.2.2.1.one 1 0 1 ⟨_, rfl, rfl, rfl⟩ ⟨_, rfl, rfl, rfl⟩
  exact Nat.zero_ne_one hone

end FancyMumble.Client.RecordingTasks
