import FancyMumble.Lib.Grouping
import FancyMumble.Lib.Runs

/-!
# The sessions of a client

The sessions of a client are in a registry, which says which one is active; commands use
the session that another pointer leads to. Connects, switches and disconnects are tasks that
change the one and the other under a lock at a time.
-/

namespace FancyMumble.Client

open Lib.Grouping Lib.Runs

/-! ## Sessions -/

abbrev ServerId := ℕ

inductive ConnectionStatus where
  | disconnected
  | connecting
  | connected
deriving DecidableEq

structure ConnectTarget where
  host : String := ""
  port : UInt16 := 0
  username : String := ""
deriving DecidableEq

structure SessionState where
  target : ConnectTarget := {}
  status : ConnectionStatus := .disconnected
  clientHandle : Bool := false
  connectTaskHandle : Option ℕ := none

structure Registry where
  active : Option ServerId := none
  sessions : List ServerId := []
deriving DecidableEq

namespace Registry

def registerActive (id : ServerId) (r : Registry) : Registry where
  active := some id
  sessions := id :: r.sessions.filter (· ≠ id)

def remove (order : HashOrder) (id : ServerId) (r : Registry) : Registry :=
  let sessions := r.sessions.filter (· ≠ id)
  { sessions
    active := if r.active = some id then (order.visit sessions).head? else r.active }

def isStale (states : Option ServerId → SessionState) (target : ConnectTarget)
    (id : ServerId) : Bool :=
  (states (some id)).target = target ∧ (states (some id)).status = .disconnected

def pruneDisconnectedFor (states : Option ServerId → SessionState) (target : ConnectTarget)
    (r : Registry) : Registry :=
  let stale := r.sessions.filter (isStale states target)
  { sessions := r.sessions.filter (· ∉ stale)
    active := r.active.filter (· ∉ stale) }

def ActiveRegistered (r : Registry) : Prop := ∀ id ∈ r.active, id ∈ r.sessions

variable {r : Registry}

theorem ActiveRegistered.registerActive (id : ServerId) (r : Registry) :
    ActiveRegistered (r.registerActive id) := by
  rintro - ⟨⟩
  exact List.mem_cons_self

theorem ActiveRegistered.remove (h : ActiveRegistered r) (order : HashOrder) (id : ServerId) :
    ActiveRegistered (r.remove order id) := by
  intro next hnext
  unfold Registry.remove at hnext ⊢
  dsimp only at hnext ⊢
  split at hnext
  · exact order.mem_visit.mp (List.mem_of_head? hnext)
  · next hother =>
      refine List.mem_filter.mpr ⟨h next hnext, decide_eq_true fun hsame => hother ?_⟩
      rw [← hsame]
      exact hnext

theorem ActiveRegistered.pruneDisconnectedFor (h : ActiveRegistered r)
    (states : Option ServerId → SessionState) (target : ConnectTarget) :
    ActiveRegistered (r.pruneDisconnectedFor states target) := by
  intro id hid
  obtain ⟨hactive, hkept⟩ := Option.mem_filter_iff.mp hid
  exact List.mem_filter.mpr ⟨h id hactive, hkept⟩

/-- If the active session is stale, so are all the others. -/
def prunesEvenly (states : Option ServerId → SessionState) (target : ConnectTarget)
    (r : Registry) : Bool :=
  r.active.all fun id => !isStale states target id || r.sessions.all (isStale states target)

theorem sessions_prune_of_active_none {states : Option ServerId → SessionState}
    {target : ConnectTarget} (heven : r.prunesEvenly states target = true)
    (h : r.active = none → r.sessions = [])
    (hnone : (r.pruneDisconnectedFor states target).active = none) :
    (r.pruneDisconnectedFor states target).sessions = [] := by
  unfold Registry.pruneDisconnectedFor at hnone ⊢
  dsimp only at hnone ⊢
  cases hactive : r.active with
  | none =>
      rw [h hactive]
      rfl
  | some id =>
      rw [hactive, Option.filter_some] at hnone
      have hstale : id ∈ r.sessions.filter (isStale states target) := by
        by_contra hkept
        rw [if_pos (decide_eq_true hkept)] at hnone
        cases hnone
      unfold prunesEvenly at heven
      rw [hactive, Option.all_some, (List.mem_filter.mp hstale).2] at heven
      rw [List.filter_eq_nil_iff]
      intro other hother
      have hsame := List.all_eq_true.mp heven other hother
      exact fun hkept => of_decide_eq_true hkept (List.mem_filter.mpr ⟨hother, hsame⟩)

theorem sessions_remove_of_active_none {order : HashOrder} {id : ServerId}
    (h : r.active = none → r.sessions = []) (hnone : (r.remove order id).active = none) :
    (r.remove order id).sessions = [] := by
  unfold Registry.remove at hnone ⊢
  dsimp only at hnone ⊢
  split at hnone
  · exact List.Perm.nil_eq ((List.head?_eq_none_iff.mp hnone) ▸ order.perm _) |>.symm
  · rw [h hnone]
    rfl

end Registry

/-! ## Tasks -/

inductive Fallback where
  | keep
  | reset
deriving DecidableEq

inductive SessionTask where
  | finished
  -- `connect`
  | prune (target : ConnectTarget)
  | register (target : ConnectTarget)
  | select (id : ServerId) (target : ConnectTarget)
  | reset (id : ServerId) (target : ConnectTarget)
  | storeTask (id : ServerId) (handle : ℕ)
  -- the attempt that `connect` spawns
  | await (id : ServerId)
  | authenticate (id : ServerId)
  | markDisconnected (id : ServerId)
  -- `switch_active_with_voice`
  | snapshot (target : ServerId)
  | compare (prev : Option ServerId) (target : ServerId)
  | lookUp (target : ServerId)
  | setActive (target : ServerId)
  -- `disconnect_session`
  | disconnect (id : ServerId)
  | checkActive (id : ServerId)
  | takeHandles (id : ServerId) (isActive : Bool)
  | clear (id : ServerId) (isActive : Bool)
  -- the end of several of them
  | remove (id : ServerId) (rebinds : Option Fallback)
  | rebind (fallback : Fallback)
  | rebindTo (next : ServerId) (fallback : Fallback)
  | swap (next : Option ServerId)
deriving DecidableEq

namespace SessionTask

def attemptOf : SessionTask → Option ServerId
  | .await id => some id
  | .authenticate id => some id
  | _ => none

def updates : SessionTask → Bool
  | .prune _ => true
  | .register _ => true
  | .setActive _ => true
  | .remove _ _ => true
  | _ => false

def updating : SessionTask → Bool
  | .select _ _ => true
  | .rebind _ => true
  | .rebindTo _ _ => true
  | .swap _ => true
  | _ => false

end SessionTask

def Fallback.task : Fallback → SessionTask
  | .keep => .finished
  | .reset => .swap none

structure Sessions where
  registry : Registry := {}
  inner : Option ServerId := none
  states : Option ServerId → SessionState := fun _ => {}
  count : ℕ := 0
  tasks : List SessionTask := []

/-- What can happen, in any order: a command is called, a task does its next step, a
connection is made or lost, or a command takes the active session. -/
inductive SessionEvent where
  | connect (target : ConnectTarget)
  | switchTo (target : ServerId)
  | disconnectSession (id : ServerId)
  | disconnectActive
  | advance (i : ℕ) (ok : Bool) (order : HashOrder)
  | synced (id : ServerId)
  | lost (id : ServerId)
  | use

namespace Sessions

variable {s : Sessions}

def task (s : Sessions) (i : ℕ) : SessionTask := s.tasks[i]?.getD .finished

def call (task : SessionTask) (s : Sessions) : Sessions := { s with tasks := s.tasks ++ [task] }

def goto (i : ℕ) (task : SessionTask) (s : Sessions) : Sessions :=
  { s with tasks := s.tasks.set i task }

def mapState (id : Option ServerId) (f : SessionState → SessionState) (s : Sessions) : Sessions :=
  { s with states := Function.update s.states id (f (s.states id)) }

def abort (handle : Option ℕ) (s : Sessions) : Sessions :=
  match handle with
  | some i => if (s.task i).attemptOf.isSome then s.goto i .finished else s
  | none => s

/-- A task does its next step. For an attempt this is the answer of the server, if it
comes; the first session that is left over may be any. -/
def advance (i : ℕ) (ok : Bool) (order : HashOrder) (s : Sessions) : Sessions :=
  match s.task i with
  | .finished => s
  | .prune target =>
      { s with registry := s.registry.pruneDisconnectedFor s.states target }.goto i
        (.register target)
  | .register target =>
      { s with
        registry := s.registry.registerActive s.count
        states := Function.update s.states (some s.count) {}
        count := s.count + 1 }.goto i (.select s.count target)
  | .select id target => { s with inner := some id }.goto i (.reset id target)
  | .reset id target =>
      let s := s.abort (s.states (some id)).connectTaskHandle
      let s := s.mapState (some id) fun _ => { target, status := .connecting }
      (s.goto i (.storeTask id s.tasks.length)).call (.await id)
  | .storeTask _ handle =>
      (s.mapState s.inner fun state => { state with connectTaskHandle := some handle }).goto i
        .finished
  | .await id =>
      if ok then
        (s.mapState (some id) fun state =>
          { state with clientHandle := true, connectTaskHandle := none }).goto i (.authenticate id)
      else s.goto i (.markDisconnected id)
  | .authenticate id => s.goto i (if ok then .finished else .markDisconnected id)
  | .markDisconnected id =>
      (s.mapState (some id) fun state =>
        { state with
          status := .disconnected, clientHandle := false, connectTaskHandle := none }).goto i
        (.remove id (some .keep))
  | .snapshot target => s.goto i (.compare s.inner target)
  | .compare prev target =>
      if target ∈ s.registry.sessions then
        s.goto i (if prev = some target then .finished else .lookUp target)
      else s.goto i .finished
  | .lookUp target =>
      s.goto i (if target ∈ s.registry.sessions then .setActive target else .finished)
  | .setActive target =>
      if target ∈ s.registry.sessions then
        { s with registry := { s.registry with active := some target } }.goto i
          (.swap (some target))
      else s.goto i .finished
  | .disconnect id =>
      s.goto i (if id ∈ s.registry.sessions then .checkActive id else .finished)
  | .checkActive id => s.goto i (.takeHandles id (s.registry.active = some id))
  | .takeHandles id isActive =>
      let s := s.abort (s.states (some id)).connectTaskHandle
      (s.mapState (some id) fun state =>
        { state with clientHandle := false, connectTaskHandle := none }).goto i
        (.clear id isActive)
  | .clear id isActive =>
      (s.mapState (some id) fun state =>
        { state with
          status := .disconnected, clientHandle := false, connectTaskHandle := none }).goto i
        (.remove id (if isActive then some .reset else none))
  | .remove id rebinds =>
      { s with registry := s.registry.remove order id }.goto i
        (rebinds.elim .finished SessionTask.rebind)
  | .rebind fallback =>
      s.goto i (s.registry.active.elim fallback.task fun next => .rebindTo next fallback)
  | .rebindTo next fallback =>
      s.goto i (if next ∈ s.registry.sessions then .swap (some next) else fallback.task)
  | .swap next => { s with inner := next }.goto i .finished

def step (s : Sessions) : SessionEvent → Sessions
  | .connect target => s.call (.prune target)
  | .switchTo target => s.call (.snapshot target)
  | .disconnectSession id => s.call (.disconnect id)
  | .disconnectActive => s.registry.active.elim s fun id => s.call (.disconnect id)
  | .advance i ok order => s.advance i ok order
  | .synced id => s.mapState (some id) fun state => { state with status := .connected }
  | .lost id =>
      s.mapState (some id) fun state =>
        { state with status := .disconnected, clientHandle := false }
  | .use => s

/-! ## Where tasks stand after a change -/

section Tasks

variable {i j : ℕ} {x : SessionTask}

theorem task_of_length_le (h : s.tasks.length ≤ j) : s.task j = .finished := by
  rw [task, List.getElem?_eq_none h]
  rfl

theorem task_goto_ne (h : j ≠ i) : (s.goto i x).task j = s.task j := by
  rw [task, goto, List.getElem?_set_ne h.symm]
  rfl

theorem task_goto_self (h : i < s.tasks.length) : (s.goto i x).task i = x := by
  rw [task, goto, List.getElem?_set_self h]
  rfl

theorem task_goto_cases (s : Sessions) (i : ℕ) (x : SessionTask) (j : ℕ) :
    (s.goto i x).task j = s.task j ∨ j = i ∧ (s.goto i x).task j = x := by
  by_cases hsame : j = i
  · subst hsame
    by_cases hlength : j < s.tasks.length
    · exact Or.inr ⟨rfl, task_goto_self hlength⟩
    · have hout : s.tasks.length ≤ j := Nat.le_of_not_lt hlength
      rw [task_of_length_le hout, task_of_length_le (by rwa [goto, List.length_set])]
      exact Or.inl rfl
  · exact Or.inl (task_goto_ne hsame)

theorem task_call_of_lt (h : j < s.tasks.length) : (s.call x).task j = s.task j := by
  rw [task, call, List.getElem?_append_left h]
  rfl

theorem task_call_cases (s : Sessions) (x : SessionTask) (j : ℕ) :
    (s.call x).task j = s.task j ∨ j = s.tasks.length ∧ (s.call x).task j = x := by
  rcases Nat.lt_trichotomy j s.tasks.length with hlt | heq | hgt
  · exact Or.inl (task_call_of_lt hlt)
  · subst heq
    refine Or.inr ⟨rfl, ?_⟩
    rw [task, call, List.getElem?_append_right (Nat.le_refl _), Nat.sub_self]
    rfl
  · rw [task_of_length_le (Nat.le_of_lt hgt), task_of_length_le]
    · exact Or.inl rfl
    · rw [call, List.length_append]
      exact hgt

theorem lt_length_of_task (h : s.task i ≠ .finished) : i < s.tasks.length :=
  Nat.lt_of_not_le fun hle => h (task_of_length_le hle)

theorem task_abort_cases (s : Sessions) (handle : Option ℕ) (j : ℕ) :
    (s.abort handle).task j = s.task j ∨
      handle = some j ∧ (s.task j).attemptOf.isSome ∧ (s.abort handle).task j = .finished := by
  unfold abort
  split
  · next i =>
      split
      · next hattempt =>
          rcases task_goto_cases s i .finished j with hsame | ⟨rfl, hfinished⟩
          · exact Or.inl hsame
          · exact Or.inr ⟨rfl, hattempt, hfinished⟩
      · exact Or.inl rfl
  · exact Or.inl rfl

theorem states_goto (s : Sessions) (i : ℕ) (x : SessionTask) : (s.goto i x).states = s.states := rfl

theorem states_mapState_self (s : Sessions) (id : Option ServerId)
    (f : SessionState → SessionState) : (s.mapState id f).states id = f (s.states id) :=
  Function.update_self ..

theorem states_mapState_ne {id other : Option ServerId} (h : other ≠ id)
    (f : SessionState → SessionState) : (s.mapState id f).states other = s.states other :=
  Function.update_of_ne h ..

@[simp] theorem registry_abort (s : Sessions) (handle : Option ℕ) :
    (s.abort handle).registry = s.registry := by
  unfold abort
  split
  · split <;> rfl
  · rfl

@[simp] theorem inner_abort (s : Sessions) (handle : Option ℕ) :
    (s.abort handle).inner = s.inner := by
  unfold abort
  split
  · split <;> rfl
  · rfl

@[simp] theorem states_abort (s : Sessions) (handle : Option ℕ) :
    (s.abort handle).states = s.states := by
  unfold abort
  split
  · split <;> rfl
  · rfl

@[simp] theorem length_tasks_abort (s : Sessions) (handle : Option ℕ) :
    (s.abort handle).tasks.length = s.tasks.length := by
  unfold abort
  split
  · split
    · exact List.length_set
    · rfl
  · rfl

end Tasks

end Sessions

end FancyMumble.Client
