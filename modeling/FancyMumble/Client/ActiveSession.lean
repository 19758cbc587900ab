import FancyMumble.Client.Sessions

/-!
# The active session

Which session the registry calls active and which one commands use: when a task changes the
two one after the other, another task may come in between.
-/

namespace FancyMumble.Client

open Lib.Grouping Lib.Runs

namespace Sessions

variable {s : Sessions}

/-! ## Agreement -/

/-- There is an active session if there is any, and it is the one that commands use. -/
structure Agreement (s : Sessions) : Prop where
  registered : s.registry.ActiveRegistered
  none : s.registry.active = none → s.registry.sessions = []
  inner : ∀ id ∈ s.registry.active, s.inner = some id

def removal (s : Sessions) : SessionTask → Option (ServerId → Bool)
  | .prune target => some (Registry.isStale s.states target)
  | .markDisconnected id => some (· = id)
  | .takeHandles id _ => some (· = id)
  | .clear id _ => some (· = id)
  | .remove id _ => some (· = id)
  | _ => none

structure Keeps (s s' : Sessions) (id : ServerId) : Prop where
  registered : id ∈ s'.registry.sessions
  state : s'.states (some id) = s.states (some id)
  attempt : ∀ j, (s.task j).attemptOf = some id → s'.task j = s.task j

/-- An event at a state: in the state it leads to, the active session is registered, none is
active only if none is registered, and unless a task is about to change it, `inner` leads to
the active session. A command that takes the active session takes the right one, and a step
that removes sessions keeps all others. -/
structure Agrees (s : Sessions) (event : SessionEvent) : Prop where
  registered : (s.step event).registry.ActiveRegistered
  none : (s.step event).registry.active = none → (s.step event).registry.sessions = []
  inner : (∀ j, ((s.step event).task j).updating = false) →
    ∀ id ∈ (s.step event).registry.active, (s.step event).inner = some id
  use : event = .use → s.Agreement
  removal : ∀ i ok order, event = .advance i ok order → ∀ gone ∈ s.removal (s.task i),
    ∀ other ∈ s.registry.sessions, gone other = false → s.Keeps (s.step event) other

/-- A session that is active when it is removed was active when its disconnect began, the task
of an attempt is stored while the session of the attempt is the active one, and a reconnect
takes the active session away only together with all others. -/
def isTimely (s : Sessions) : SessionTask → Bool
  | .prune target => s.registry.prunesEvenly s.states target
  | .remove id none => s.registry.active ≠ some id
  | .storeTask id _ => s.inner = some id
  | _ => true

/-- No other task is between its change of the registry and that of `inner` when a task
changes the registry, or a command takes the active session. -/
def TakesTurns (s : Sessions) : SessionEvent → Prop
  | .advance i _ _ =>
      ((s.task i).updates = true → ∀ j, j ≠ i → (s.task j).updating = false) ∧
        s.isTimely (s.task i) = true
  | .use => ∀ j, (s.task j).updating = false
  | _ => True

/-! ## Turns -/

def Ready (s : Sessions) : SessionTask → Prop
  | .select id _ => s.registry.active = some id
  | .rebind _ => s.registry.active = none → s.registry.sessions = []
  | .rebindTo next _ => s.registry.active = some next
  | .swap (some next) => s.registry.active = some next
  | .swap none => s.registry.active = none ∧ s.registry.sessions = []
  | _ => True

/-- At most one task is between its two changes; if there is none, there is agreement. -/
structure Selection (s : Sessions) : Prop where
  turn : ∀ i, (s.task i).updating = true →
    s.Ready (s.task i) ∧ ∀ j, j ≠ i → (s.task j).updating = false
  agreement : (∀ i, (s.task i).updating = false) → s.Agreement

structure Quiet (s s' : Sessions) : Prop where
  registry : s'.registry = s.registry
  inner : s'.inner = s.inner
  task : ∀ j, s'.task j = s.task j ∨
    (s.task j).updating = false ∧ (s'.task j).updating = false

variable {s' s'' : Sessions}

theorem Quiet.refl (s : Sessions) : Quiet s s := ⟨rfl, rfl, fun _ => Or.inl rfl⟩

theorem Quiet.trans (h : Quiet s s') (h' : Quiet s' s'') : Quiet s s'' where
  registry := h'.registry.trans h.registry
  inner := h'.inner.trans h.inner
  task j := by
    rcases h.task j with hsame | ⟨hbefore, hafter⟩
    · rw [← hsame]
      exact h'.task j
    · rcases h'.task j with hsame' | ⟨-, hafter'⟩
      · exact Or.inr ⟨hbefore, hsame' ▸ hafter⟩
      · exact Or.inr ⟨hbefore, hafter'⟩

theorem Quiet.goto {i : ℕ} {x : SessionTask} (hbefore : (s.task i).updating = false)
    (hafter : x.updating = false) : Quiet s (s.goto i x) where
  registry := rfl
  inner := rfl
  task j := by
    rcases task_goto_cases s i x j with hsame | ⟨rfl, hx⟩
    · exact Or.inl hsame
    · exact Or.inr ⟨hbefore, by rwa [hx]⟩

theorem Quiet.call {x : SessionTask} (hx : x.updating = false) : Quiet s (s.call x) where
  registry := rfl
  inner := rfl
  task j := by
    rcases task_call_cases s x j with hsame | ⟨rfl, hnew⟩
    · exact Or.inl hsame
    · exact Or.inr ⟨by rw [task_of_length_le (Nat.le_refl _)]; rfl, by rwa [hnew]⟩

theorem Quiet.mapState (s : Sessions) (id : Option ServerId) (f : SessionState → SessionState) :
    Quiet s (s.mapState id f) := ⟨rfl, rfl, fun _ => Or.inl rfl⟩

theorem updating_of_attemptOf {x : SessionTask} (h : x.attemptOf.isSome) :
    x.updating = false := by
  cases x <;> first | rfl | cases h

theorem Quiet.abort (s : Sessions) (handle : Option ℕ) : Quiet s (s.abort handle) where
  registry := registry_abort s handle
  inner := inner_abort s handle
  task j := by
    rcases task_abort_cases s handle j with hsame | ⟨-, hattempt, hfinished⟩
    · exact Or.inl hsame
    · exact Or.inr ⟨updating_of_attemptOf hattempt, by rw [hfinished]; rfl⟩

theorem Selection.quiet (h : Selection s) (hquiet : Quiet s s') : Selection s' where
  turn i hupdating := by
    have hsame : s'.task i = s.task i := (hquiet.task i).resolve_right fun hnot => by
      rw [hnot.2] at hupdating
      cases hupdating
    rw [hsame] at hupdating
    obtain ⟨hready, hothers⟩ := h.turn i hupdating
    constructor
    · rw [hsame]
      unfold Ready at hready ⊢
      rw [hquiet.registry]
      exact hready
    · intro j hj
      rcases hquiet.task j with hother | ⟨-, hother⟩
      · rw [hother]
        exact hothers j hj
      · exact hother
  agreement hnone := by
    have hbefore : ∀ i, (s.task i).updating = false := by
      intro i
      rcases hquiet.task i with hsame | ⟨hbefore, -⟩
      · rw [← hsame]
        exact hnone i
      · exact hbefore
    obtain ⟨hregistered, hempty, hinner⟩ := h.agreement hbefore
    rw [← hquiet.registry] at hregistered hempty hinner
    rw [← hquiet.inner] at hinner
    exact ⟨hregistered, hempty, hinner⟩

theorem Selection.of_only {i : ℕ} (hothers : ∀ j, j ≠ i → (s.task j).updating = false)
    (hready : (s.task i).updating = true → s.Ready (s.task i))
    (hagreement : (s.task i).updating = false → s.Agreement) : Selection s where
  turn j hupdating := by
    have hj : j = i := by
      by_contra hne
      rw [hothers j hne] at hupdating
      cases hupdating
    subst hj
    exact ⟨hready hupdating, hothers⟩
  agreement hnone := hagreement (hnone i)

theorem quiet_advance {i : ℕ} (ok : Bool) (order : HashOrder)
    (hupdates : (s.task i).updates = false) (hupdating : (s.task i).updating = false) :
    Quiet s (s.advance i ok order) := by
  have hgoto : ∀ {x : SessionTask}, x.updating = false → Quiet s (s.goto i x) :=
    Quiet.goto hupdating
  have hmap : ∀ (id : Option ServerId) (f : SessionState → SessionState) {x : SessionTask},
      x.updating = false → Quiet s ((s.mapState id f).goto i x) := fun id f _ hx =>
    (Quiet.mapState s id f).trans (Quiet.goto hupdating hx)
  cases htask : s.task i with
  | finished => simpa only [advance, htask] using Quiet.refl s
  | prune target => rw [htask] at hupdates; cases hupdates
  | register target => rw [htask] at hupdates; cases hupdates
  | setActive target => rw [htask] at hupdates; cases hupdates
  | remove id rebinds => rw [htask] at hupdates; cases hupdates
  | select id target => rw [htask] at hupdating; cases hupdating
  | rebind fallback => rw [htask] at hupdating; cases hupdating
  | rebindTo next fallback => rw [htask] at hupdating; cases hupdating
  | swap next => rw [htask] at hupdating; cases hupdating
  | reset id target =>
      simp only [advance, htask]
      have habort := Quiet.abort s (s.states (some id)).connectTaskHandle
      refine (habort.trans (Quiet.mapState _ _ _)).trans (Quiet.trans (Quiet.goto ?_ rfl)
        (Quiet.call rfl))
      rcases habort.task i with hsame | ⟨-, hafter⟩
      · exact hsame ▸ hupdating
      · exact hafter
  | takeHandles id isActive =>
      simp only [advance, htask]
      have habort := Quiet.abort s (s.states (some id)).connectTaskHandle
      refine (habort.trans (Quiet.mapState _ _ _)).trans (Quiet.goto ?_ rfl)
      rcases habort.task i with hsame | ⟨-, hafter⟩
      · exact hsame ▸ hupdating
      · exact hafter
  | storeTask id handle => simpa only [advance, htask] using hmap _ _ rfl
  | await id =>
      simp only [advance, htask]
      split
      · exact hmap _ _ rfl
      · exact hgoto rfl
  | authenticate id => simpa only [advance, htask] using hgoto (by split <;> rfl)
  | markDisconnected id => simpa only [advance, htask] using hmap _ _ rfl
  | snapshot target => simpa only [advance, htask] using hgoto rfl
  | compare prev target =>
      simp only [advance, htask]
      split
      · exact hgoto (by split <;> rfl)
      · exact hgoto rfl
  | lookUp target => simpa only [advance, htask] using hgoto (by split <;> rfl)
  | disconnect id => simpa only [advance, htask] using hgoto (by split <;> rfl)
  | checkActive id => simpa only [advance, htask] using hgoto rfl
  | clear id isActive => simpa only [advance, htask] using hmap _ _ rfl

theorem Selection.goto {i : ℕ} {x : SessionTask} (hi : s.task i ≠ .finished)
    (hothers : ∀ j, j ≠ i → (s.task j).updating = false)
    (hready : x.updating = true → s.Ready x) (hagreement : x.updating = false → s.Agreement) :
    Selection (s.goto i x) := by
  have hself : (s.goto i x).task i = x := task_goto_self (lt_length_of_task hi)
  apply Selection.of_only (i := i)
  · intro j hj
    rw [task_goto_ne hj]
    exact hothers j hj
  · intro hupdating
    rw [hself] at hupdating ⊢
    exact hready hupdating
  · intro hupdating
    rw [hself] at hupdating
    obtain ⟨hregistered, hnone, hinner⟩ := hagreement hupdating
    exact ⟨hregistered, hnone, hinner⟩

theorem Agreement.remove (h : s.Agreement) {id : ServerId} (hid : s.registry.active ≠ some id)
    (order : HashOrder) : Agreement { s with registry := s.registry.remove order id } where
  registered := h.registered.remove order id
  none := Registry.sessions_remove_of_active_none h.none
  inner next hnext := by
    have hactive : (s.registry.remove order id).active = s.registry.active := if_neg hid
    rw [Option.mem_def, hactive] at hnext
    exact h.inner next hnext

theorem Agreement.prune (h : s.Agreement) {target : ConnectTarget}
    (heven : s.registry.prunesEvenly s.states target = true) :
    Agreement { s with registry := s.registry.pruneDisconnectedFor s.states target } where
  registered := h.registered.pruneDisconnectedFor s.states target
  none := Registry.sessions_prune_of_active_none heven h.none
  inner id hid := h.inner id (Option.mem_filter_iff.mp hid).1

theorem Selection.rebind (h : Selection s) {i : ℕ} {fallback : Fallback}
    (htask : s.task i = .rebind fallback) (hregistered : s.registry.ActiveRegistered) (ok : Bool)
    (order : HashOrder) : Selection (s.advance i ok order) := by
  obtain ⟨hempty, hothers⟩ := h.turn i (by rw [htask]; rfl)
  rw [htask] at hempty
  have hi : s.task i ≠ .finished := by rw [htask]; nofun
  simp only [advance, htask]
  cases hactive : s.registry.active with
  | some next => exact Selection.goto hi hothers (fun _ => hactive) nofun
  | none =>
      cases fallback with
      | keep =>
          exact Selection.goto hi hothers nofun fun _ =>
            ⟨hregistered, hempty, fun id hid => by rw [hactive] at hid; cases hid⟩
      | reset => exact Selection.goto hi hothers (fun _ => ⟨hactive, hempty hactive⟩) nofun

theorem Selection.swap (h : Selection s) {i : ℕ} {next : Option ServerId}
    (htask : s.task i = .swap next) (hregistered : s.registry.ActiveRegistered) (ok : Bool)
    (order : HashOrder) : Selection (s.advance i ok order) := by
  obtain ⟨hready, hothers⟩ := h.turn i (by rw [htask]; rfl)
  rw [htask] at hready
  have hi : s.task i ≠ .finished := by rw [htask]; nofun
  simp only [advance, htask]
  refine Selection.goto hi hothers nofun fun _ => ?_
  cases next with
  | some next =>
      have hactive : s.registry.active = some next := hready
      exact {
        registered := hregistered
        none := fun hnone => by rw [hactive] at hnone; cases hnone
        inner := fun id hid => (Option.mem_def.mp hid).symm.trans hactive |>.symm }
  | none =>
      obtain ⟨hactive, hempty⟩ := hready
      exact {
        registered := hregistered
        none := fun _ => hempty
        inner := fun id hid => by rw [hactive] at hid; cases hid }

theorem Selection.advance (h : Selection s) {i : ℕ} {ok : Bool} {order : HashOrder}
    (hregistered : s.registry.ActiveRegistered) (hturn : s.TakesTurns (.advance i ok order)) :
    Selection (s.advance i ok order) := by
  obtain ⟨hothers, htimely⟩ := hturn
  have hquiet := quiet_advance (s := s) (i := i) ok order
  have hmine := h.turn i
  have hstarted : ∀ {x : SessionTask}, s.task i = x → x ≠ .finished → s.task i ≠ .finished :=
    fun htask hx hfinished => hx (htask.symm.trans hfinished)
  cases htask : s.task i with
  | prune target =>
      have hi := hstarted htask nofun
      rw [htask] at htimely hothers
      have hrest := hothers rfl
      have hbefore : s.Agreement := h.agreement fun j => by
        by_cases hj : j = i
        · rw [hj, htask]; rfl
        · exact hrest j hj
      simp only [Sessions.advance, htask]
      exact Selection.goto hi hrest nofun fun _ => hbefore.prune htimely
  | register target =>
      have hi := hstarted htask nofun
      simp only [Sessions.advance, htask]
      exact Selection.goto hi (hothers (by rw [htask]; rfl))
        (fun _ => rfl) nofun
  | select id target =>
      have hi := hstarted htask nofun
      obtain ⟨hready, hrest⟩ := hmine (by rw [htask]; rfl)
      rw [htask] at hready
      simp only [Sessions.advance, htask]
      refine Selection.goto hi hrest nofun fun _ => ?_
      have hactive : s.registry.active = some id := hready
      exact {
        registered := hregistered
        none := fun hnone => by rw [hactive] at hnone; cases hnone
        inner := fun next hnext => (Option.mem_def.mp hnext).symm.trans hactive |>.symm }
  | setActive target =>
      have hi := hstarted htask nofun
      simp only [Sessions.advance, htask]
      split
      · exact Selection.goto hi (hothers (by rw [htask]; rfl))
          (fun _ => rfl) nofun
      · exact h.quiet (Quiet.goto (by rw [htask]; rfl) rfl)
  | remove id rebinds =>
      have hi := hstarted htask nofun
      rw [htask] at htimely hothers
      have hrest := hothers rfl
      have hbefore : s.Agreement := h.agreement fun j => by
        by_cases hj : j = i
        · rw [hj, htask]; rfl
        · exact hrest j hj
      simp only [Sessions.advance, htask]
      cases rebinds with
      | none =>
          exact Selection.goto hi hrest nofun fun _ =>
            hbefore.remove (of_decide_eq_true htimely) order
      | some fallback =>
          exact Selection.goto hi hrest
            (fun _ => Registry.sessions_remove_of_active_none hbefore.none) nofun
  | rebind fallback => exact h.rebind htask hregistered ok order
  | rebindTo next fallback =>
      have hi := hstarted htask nofun
      obtain ⟨hready, hrest⟩ := hmine (by rw [htask]; rfl)
      rw [htask] at hready
      simp only [Sessions.advance, htask, if_pos (hregistered next hready)]
      exact Selection.goto hi hrest (fun _ => hready) nofun
  | swap next => exact h.swap htask hregistered ok order
  | _ => exact h.quiet (hquiet (by rw [htask]; rfl) (by rw [htask]; rfl))

/-! ## The registry -/

theorem registry_advance {i : ℕ} (h : (s.task i).updates = false) (ok : Bool)
    (order : HashOrder) : (s.advance i ok order).registry = s.registry := by
  cases hupdating : (s.task i).updating with
  | false => exact (quiet_advance ok order h hupdating).registry
  | true =>
      cases htask : s.task i with
      | select id target => simp only [advance, htask]; rfl
      | rebind fallback => simp only [advance, htask]; rfl
      | rebindTo next fallback => simp only [advance, htask]; rfl
      | swap next => simp only [advance, htask]; rfl
      | register target => rw [htask] at h; cases h
      | _ => rw [htask] at hupdating; cases hupdating

/-- The active session is registered after every event, if there is one. -/
theorem activeRegistered_step (h : s.registry.ActiveRegistered) (event : SessionEvent) :
    (s.step event).registry.ActiveRegistered := by
  cases event with
  | advance i ok order =>
      rw [step]
      cases htask : s.task i with
      | prune target =>
          simp only [advance, htask]
          exact h.pruneDisconnectedFor s.states target
      | register target =>
          simp only [advance, htask]
          exact Registry.ActiveRegistered.registerActive s.count s.registry
      | setActive target =>
          simp only [advance, htask]
          split
          · next hregistered =>
              intro id hid
              obtain rfl : target = id := Option.some.inj hid
              exact hregistered
          · exact h
      | remove id rebinds =>
          simp only [advance, htask]
          exact h.remove order id
      | _ => rwa [registry_advance (by rw [htask]; rfl)]
  | disconnectActive =>
      rw [step]
      cases s.registry.active <;> exact h
  | _ => exact h

theorem sessions_step_of_active_none (h : s.registry.active = none → s.registry.sessions = [])
    {event : SessionEvent} (hturn : s.TakesTurns event)
    (hnone : (s.step event).registry.active = none) : (s.step event).registry.sessions = [] := by
  cases event with
  | advance i ok order =>
      rw [step] at hnone ⊢
      obtain ⟨-, htimely⟩ := hturn
      cases htask : s.task i with
      | prune target =>
          rw [htask] at htimely
          simp only [advance, htask] at hnone ⊢
          exact Registry.sessions_prune_of_active_none htimely h hnone
      | register target =>
          simp only [advance, htask] at hnone
          cases hnone
      | setActive target =>
          simp only [advance, htask] at hnone ⊢
          split at hnone
          · cases hnone
          · next hgone =>
              rw [if_neg hgone]
              exact h hnone
      | remove id rebinds =>
          simp only [advance, htask] at hnone ⊢
          exact Registry.sessions_remove_of_active_none h hnone
      | _ =>
          rw [registry_advance (by rw [htask]; rfl)] at hnone ⊢
          exact h hnone
  | disconnectActive =>
      rw [step] at hnone ⊢
      cases hactive : s.registry.active with
      | none => exact h hactive
      | some id =>
          rw [hactive] at hnone
          exact absurd (hactive.symm.trans hnone) (Option.some_ne_none id)
  | _ => exact h hnone

/-! ## Handles of attempts -/

structure IsHandle (s : Sessions) (id : ServerId) (handle : ℕ) : Prop where
  lt : handle < s.tasks.length
  attempt : ∀ other, (s.task handle).attemptOf = some other → other = id

structure Handles (s : Sessions) : Prop where
  stored : ∀ id handle, (s.states (some id)).connectTaskHandle = some handle →
    s.IsHandle id handle
  storing : ∀ j id handle, s.task j = .storeTask id handle → s.IsHandle id handle

structure Grows (s s' : Sessions) : Prop where
  length : s.tasks.length ≤ s'.tasks.length
  attempt : ∀ j < s.tasks.length,
    (s'.task j).attemptOf = (s.task j).attemptOf ∨ (s'.task j).attemptOf = none

structure Continues (s s' : Sessions) : Prop extends Grows s s' where
  storing : ∀ j id handle, s'.task j = .storeTask id handle → s.task j = .storeTask id handle
  handle : ∀ id handle, (s'.states (some id)).connectTaskHandle = some handle →
    (s.states (some id)).connectTaskHandle = some handle

theorem Grows.trans (h : Grows s s') (h' : Grows s' s'') : Grows s s'' where
  length := Nat.le_trans h.length h'.length
  attempt j hj := by
    rcases h'.attempt j (Nat.lt_of_lt_of_le hj h.length) with hsame | hnone
    · rw [hsame]
      exact h.attempt j hj
    · exact Or.inr hnone

theorem Grows.goto {i : ℕ} {x : SessionTask}
    (hattempt : x.attemptOf = (s.task i).attemptOf ∨ x.attemptOf = none) :
    Grows s (s.goto i x) where
  length := Nat.le_of_eq List.length_set.symm
  attempt j _ := by
    rcases task_goto_cases s i x j with hsame | ⟨rfl, hx⟩
    · exact Or.inl (by rw [hsame])
    · rw [hx]
      exact hattempt

theorem Grows.mapState (s : Sessions) (id : Option ServerId) (f : SessionState → SessionState) :
    Grows s (s.mapState id f) := ⟨Nat.le_refl _, fun _ _ => Or.inl rfl⟩

theorem Grows.call (s : Sessions) (x : SessionTask) : Grows s (s.call x) where
  length := by
    rw [Sessions.call, List.length_append]
    exact Nat.le_add_right _ _
  attempt j hj := Or.inl (by rw [task_call_of_lt hj])

theorem Continues.trans (h : Continues s s') (h' : Continues s' s'') : Continues s s'' where
  toGrows := h.toGrows.trans h'.toGrows
  storing j id handle hstoring := h.storing j id handle (h'.storing j id handle hstoring)
  handle id handle hstored := h.handle id handle (h'.handle id handle hstored)

theorem Continues.of_eq (htasks : s'.tasks = s.tasks)
    (hhandle : ∀ id handle, (s'.states (some id)).connectTaskHandle = some handle →
      (s.states (some id)).connectTaskHandle = some handle) : Continues s s' where
  length := Nat.le_of_eq (congrArg List.length htasks.symm)
  attempt j _ := Or.inl (by rw [task, htasks, task])
  storing j _ _ hstoring := by rwa [task, htasks] at hstoring
  handle := hhandle

theorem Continues.goto {i : ℕ} {x : SessionTask}
    (hattempt : x.attemptOf = (s.task i).attemptOf ∨ x.attemptOf = none)
    (hstoring : ∀ id handle, x ≠ .storeTask id handle) : Continues s (s.goto i x) where
  toGrows := Grows.goto hattempt
  storing j id handle h := by
    rcases task_goto_cases s i x j with hsame | ⟨rfl, hx⟩
    · rwa [hsame] at h
    · exact absurd (hx.symm.trans h) (hstoring id handle)
  handle _ _ h := h

theorem Continues.mapState (s : Sessions) (id : Option ServerId)
    {f : SessionState → SessionState}
    (hf : ∀ state, (f state).connectTaskHandle = state.connectTaskHandle ∨
      (f state).connectTaskHandle = none) : Continues s (s.mapState id f) := by
  refine Continues.of_eq rfl fun other handle h => ?_
  by_cases hsame : some other = id
  · subst hsame
    rw [states_mapState_self] at h
    rcases hf (s.states (some other)) with hkept | hnone
    · rwa [hkept] at h
    · rw [hnone] at h
      cases h
  · rwa [states_mapState_ne hsame] at h

theorem Continues.abort (s : Sessions) (handle : Option ℕ) : Continues s (s.abort handle) where
  length := Nat.le_of_eq (length_tasks_abort s handle).symm
  attempt j _ := by
    rcases task_abort_cases s handle j with hsame | ⟨-, -, hfinished⟩
    · exact Or.inl (by rw [hsame])
    · exact Or.inr (by rw [hfinished]; rfl)
  storing j id k h := by
    rcases task_abort_cases s handle j with hsame | ⟨-, -, hfinished⟩
    · rwa [hsame] at h
    · rw [hfinished] at h
      cases h
  handle id k h := by rwa [states_abort] at h

theorem Continues.call {x : SessionTask} (hx : ∀ id handle, x ≠ .storeTask id handle) :
    Continues s (s.call x) where
  toGrows := Grows.call s x
  storing j id handle h := by
    rcases task_call_cases s x j with hsame | ⟨-, hnew⟩
    · rwa [hsame] at h
    · exact absurd (hnew.symm.trans h) (hx id handle)
  handle _ _ h := h

theorem IsHandle.grows {id : ServerId} {handle : ℕ} (h : s.IsHandle id handle)
    (hs : Grows s s') : s'.IsHandle id handle where
  lt := Nat.lt_of_lt_of_le h.lt hs.length
  attempt other hother := by
    rcases hs.attempt handle h.lt with hsame | hnone
    · exact h.attempt other (hsame.symm.trans hother)
    · rw [hnone] at hother
      cases hother

theorem Handles.continues (h : Handles s) (hs : Continues s s') : Handles s' where
  stored id handle hstored := (h.stored id handle (hs.handle id handle hstored)).grows hs.toGrows
  storing j id handle hstoring :=
    (h.storing j id handle (hs.storing j id handle hstoring)).grows hs.toGrows

theorem continues_advance {i : ℕ} (ok : Bool) (order : HashOrder)
    (hreset : ∀ id target, s.task i ≠ .reset id target)
    (hstore : ∀ id handle, s.task i ≠ .storeTask id handle) :
    Continues s (s.advance i ok order) := by
  have hgoto : ∀ {t : Sessions} {x : SessionTask}, Continues s t → x.attemptOf = none →
      (∀ id handle, x ≠ .storeTask id handle) → Continues s (t.goto i x) :=
    fun ht hx hstoring => ht.trans (Continues.goto (Or.inr hx) hstoring)
  have hsame : ∀ {t : Sessions}, t.tasks = s.tasks → t.states = s.states → Continues s t :=
    fun htasks hstates => Continues.of_eq htasks fun id handle h => by rwa [hstates] at h
  have hmap : ∀ (id : ServerId) {f : SessionState → SessionState},
      (∀ state, (f state).connectTaskHandle = state.connectTaskHandle ∨
        (f state).connectTaskHandle = none) → Continues s (s.mapState (some id) f) :=
    fun id _ hf => Continues.mapState s (some id) hf
  cases htask : s.task i with
  | reset id target => exact absurd htask (hreset id target)
  | storeTask id handle => exact absurd htask (hstore id handle)
  | finished =>
      simp only [advance, htask]
      exact hsame rfl rfl
  | prune target =>
      simp only [advance, htask]
      exact hgoto (hsame rfl rfl) rfl nofun
  | register target =>
      simp only [advance, htask]
      refine hgoto (Continues.of_eq rfl fun id handle h => ?_) rfl nofun
      by_cases hnew : some id = some s.count
      · simp only [hnew, Function.update_self] at h
        cases h
      · simpa only [Function.update_of_ne hnew] using h
  | await id =>
      simp only [advance, htask]
      split
      · exact (hmap id fun _ => Or.inr rfl).trans
          (Continues.goto (Or.inl (congrArg SessionTask.attemptOf htask).symm) nofun)
      · exact hgoto (hsame rfl rfl) rfl nofun
  | authenticate id =>
      simp only [advance, htask]
      split
      · exact hgoto (hsame rfl rfl) rfl nofun
      · exact hgoto (hsame rfl rfl) rfl nofun
  | markDisconnected id =>
      simp only [advance, htask]
      exact hgoto (hmap id fun _ => Or.inr rfl) rfl nofun
  | clear id isActive =>
      simp only [advance, htask]
      exact hgoto (hmap id fun _ => Or.inr rfl) rfl nofun
  | takeHandles id isActive =>
      simp only [advance, htask]
      exact hgoto ((Continues.abort s _).trans (Continues.mapState _ _ fun _ => Or.inr rfl)) rfl
        nofun
  | compare prev target =>
      simp only [advance, htask]
      split
      · split
        · exact hgoto (hsame rfl rfl) rfl nofun
        · exact hgoto (hsame rfl rfl) rfl nofun
      · exact hgoto (hsame rfl rfl) rfl nofun
  | lookUp target =>
      simp only [advance, htask]
      split
      · exact hgoto (hsame rfl rfl) rfl nofun
      · exact hgoto (hsame rfl rfl) rfl nofun
  | setActive target =>
      simp only [advance, htask]
      split
      · exact hgoto (hsame rfl rfl) rfl nofun
      · exact hgoto (hsame rfl rfl) rfl nofun
  | disconnect id =>
      simp only [advance, htask]
      split
      · exact hgoto (hsame rfl rfl) rfl nofun
      · exact hgoto (hsame rfl rfl) rfl nofun
  | remove id rebinds =>
      simp only [advance, htask]
      cases rebinds with
      | none => exact hgoto (hsame rfl rfl) rfl nofun
      | some fallback => exact hgoto (hsame rfl rfl) rfl nofun
  | rebind fallback =>
      simp only [advance, htask]
      cases s.registry.active with
      | none => cases fallback <;> exact hgoto (hsame rfl rfl) rfl nofun
      | some next => exact hgoto (hsame rfl rfl) rfl nofun
  | rebindTo next fallback =>
      simp only [advance, htask]
      split
      · exact hgoto (hsame rfl rfl) rfl nofun
      · cases fallback <;> exact hgoto (hsame rfl rfl) rfl nofun
  | _ =>
      simp only [advance, htask]
      exact hgoto (hsame rfl rfl) rfl nofun

theorem Handles.spawn (h : Handles s) (i : ℕ) (id : ServerId) :
    Handles ((s.goto i (.storeTask id s.tasks.length)).call (.await id)) := by
  have hgrows : Grows s ((s.goto i (.storeTask id s.tasks.length)).call (.await id)) :=
    (Grows.goto (Or.inr rfl)).trans (Grows.call _ _)
  have hlength : (s.goto i (.storeTask id s.tasks.length)).tasks.length = s.tasks.length :=
    List.length_set
  constructor
  · intro other handle hstored
    exact (h.stored other handle hstored).grows hgrows
  · intro j other handle hstoring
    rcases task_call_cases (s.goto i (.storeTask id s.tasks.length)) (.await id) j with
      hold | ⟨-, hnew⟩
    · rw [hold] at hstoring
      rcases task_goto_cases s i (.storeTask id s.tasks.length) j with hsame | ⟨rfl, hmine⟩
      · rw [hsame] at hstoring
        exact (h.storing j other handle hstoring).grows hgrows
      · -- the handle is the place of the attempt
        rw [hmine] at hstoring
        cases hstoring
        constructor
        · rw [call, List.length_append, hlength]
          exact Nat.lt_succ_self _
        · intro server hserver
          rcases task_call_cases (s.goto j (.storeTask id s.tasks.length)) (.await id)
            s.tasks.length with hbefore | ⟨-, hattempt⟩
          · rw [hbefore, task_of_length_le (Nat.le_of_eq hlength)] at hserver
            cases hserver
          · rw [hattempt] at hserver
            exact (Option.some.inj hserver).symm
    · rw [hnew] at hstoring
      cases hstoring

theorem Handles.store (h : Handles s) {i : ℕ} {id : ServerId} {handle : ℕ}
    (htask : s.task i = .storeTask id handle) (hinner : s.inner = some id) :
    Handles ((s.mapState s.inner fun state =>
      { state with connectTaskHandle := some handle }).goto i .finished) := by
  have hgrows : Grows s ((s.mapState s.inner fun state =>
      { state with connectTaskHandle := some handle }).goto i .finished) :=
    (Grows.mapState _ _ _).trans (Grows.goto (Or.inr rfl))
  constructor
  · intro other stored hstored
    rw [states_goto] at hstored
    by_cases hsame : some other = s.inner
    · have hid : other = id := Option.some.inj (hsame.trans hinner)
      rw [hsame, states_mapState_self] at hstored
      cases hstored
      exact hid ▸ (h.storing i id _ htask).grows hgrows
    · rw [states_mapState_ne hsame] at hstored
      exact (h.stored other stored hstored).grows hgrows
  · intro j other stored hstoring
    rcases task_goto_cases (s.mapState s.inner fun state =>
      { state with connectTaskHandle := some handle }) i .finished j with hsame | ⟨-, hfinished⟩
    · rw [hsame] at hstoring
      exact (h.storing j other stored hstoring).grows hgrows
    · rw [hfinished] at hstoring
      cases hstoring

theorem Handles.advance (h : Handles s) {i : ℕ} (ok : Bool) (order : HashOrder)
    (htimely : s.isTimely (s.task i) = true) : Handles (s.advance i ok order) := by
  cases htask : s.task i with
  | reset id target =>
      simp only [Sessions.advance, htask]
      have hreset : Continues s ((s.abort (s.states (some id)).connectTaskHandle).mapState (some id)
          fun _ => { target, status := .connecting }) :=
        (Continues.abort s _).trans (Continues.mapState _ _ fun _ => Or.inr rfl)
      exact (h.continues hreset).spawn i id
  | storeTask id handle =>
      rw [htask] at htimely
      simp only [Sessions.advance, htask]
      exact h.store htask (of_decide_eq_true htimely)
  | _ =>
      refine h.continues (continues_advance ok order ?_ ?_)
      · intro _ _
        rw [htask]
        nofun
      · intro _ _
        rw [htask]
        nofun

/-! ## Removal -/

theorem Keeps.goto {t : Sessions} {i : ℕ} {x : SessionTask} {other : ServerId}
    (hi : (t.task i).attemptOf = none) (h : s.Keeps t other)
    (hsame : (t.task i).attemptOf = (s.task i).attemptOf) : s.Keeps (t.goto i x) other where
  registered := h.registered
  state := h.state
  attempt j hj := by
    have hne : j ≠ i := by
      rintro rfl
      rw [← hsame, hi] at hj
      cases hj
    rw [task_goto_ne hne]
    exact h.attempt j hj

theorem Keeps.mapState {t : Sessions} {id other : ServerId} (h : s.Keeps t other)
    (hother : other ≠ id) (f : SessionState → SessionState) :
    s.Keeps (t.mapState (some id) f) other where
  registered := h.registered
  state := by
    rw [states_mapState_ne fun hsame => hother (Option.some.inj hsame)]
    exact h.state
  attempt := h.attempt

theorem Keeps.abort (hhandles : Handles s) {id other : ServerId}
    (hother : other ≠ id) (hregistered : other ∈ s.registry.sessions) :
    s.Keeps (s.abort (s.states (some id)).connectTaskHandle) other where
  registered := by rwa [registry_abort]
  state := by rw [states_abort]
  attempt j hj := by
    rcases task_abort_cases s (s.states (some id)).connectTaskHandle j with hsame | ⟨hhandle, -, -⟩
    · exact hsame
    · exact absurd ((hhandles.stored id j hhandle).attempt other hj) hother

theorem keeps_advance (hhandles : Handles s) {i : ℕ} (ok : Bool) (order : HashOrder)
    {gone : ServerId → Bool} (hremoval : s.removal (s.task i) = some gone) {other : ServerId}
    (hother : other ∈ s.registry.sessions) (hkept : gone other = false) :
    s.Keeps (s.advance i ok order) other := by
  have hrefl : s.Keeps s other := ⟨hother, rfl, fun _ _ => rfl⟩
  have hne : ∀ {id : ServerId}, gone = (fun other => decide (other = id)) → other ≠ id := by
    rintro id rfl
    exact of_decide_eq_false hkept
  cases htask : s.task i with
  | prune target =>
      rw [htask] at hremoval
      cases hremoval
      simp only [advance, htask]
      refine Keeps.goto ?_ ⟨?_, rfl, fun _ _ => rfl⟩ rfl
      · change (s.task i).attemptOf = none
        rw [htask]
        rfl
      · refine List.mem_filter.mpr ⟨hother, decide_eq_true fun hstale => ?_⟩
        rw [(List.mem_filter.mp hstale).2] at hkept
        cases hkept
  | markDisconnected id =>
      rw [htask] at hremoval
      cases hremoval
      simp only [advance, htask]
      refine Keeps.goto ?_ (hrefl.mapState (hne rfl) _) rfl
      change (s.task i).attemptOf = none
      rw [htask]
      rfl
  | takeHandles id isActive =>
      rw [htask] at hremoval
      cases hremoval
      simp only [advance, htask]
      have hi : ((s.abort (s.states (some id)).connectTaskHandle).task i).attemptOf = none := by
        rcases task_abort_cases s (s.states (some id)).connectTaskHandle i with
          hsame | ⟨-, -, hfinished⟩
        · rw [hsame, htask]
          rfl
        · rw [hfinished]
          rfl
      refine Keeps.goto hi ((Keeps.abort hhandles (hne rfl) hother).mapState (hne rfl) _) ?_
      rw [htask]
      exact hi
  | clear id isActive =>
      rw [htask] at hremoval
      cases hremoval
      simp only [advance, htask]
      refine Keeps.goto ?_ (hrefl.mapState (hne rfl) _) rfl
      change (s.task i).attemptOf = none
      rw [htask]
      rfl
  | remove id rebinds =>
      rw [htask] at hremoval
      cases hremoval
      simp only [advance, htask]
      refine Keeps.goto ?_ ⟨?_, rfl, fun _ _ => rfl⟩ rfl
      · change (s.task i).attemptOf = none
        rw [htask]
        rfl
      · exact List.mem_filter.mpr ⟨hother, decide_eq_true (hne rfl)⟩
  | _ => rw [htask] at hremoval; cases hremoval

/-! ## Runs -/

/-- What holds in the runs in which tasks take turns. -/
structure Sound (s : Sessions) : Prop where
  registered : s.registry.ActiveRegistered
  none : s.registry.active = none → s.registry.sessions = []
  selection : Selection s
  handles : Handles s

theorem sound_initial : Sound {} where
  registered := nofun
  none _ := rfl
  selection :=
    { turn := nofun
      agreement := fun _ => ⟨nofun, fun _ => rfl, nofun⟩ }
  handles := ⟨nofun, nofun⟩

theorem Sound.step (h : Sound s) {event : SessionEvent} (hturn : s.TakesTurns event) :
    Sound (s.step event) where
  registered := activeRegistered_step h.registered event
  none := sessions_step_of_active_none h.none hturn
  selection := by
    cases event with
    | advance i ok order => exact h.selection.advance h.registered hturn
    | disconnectActive =>
        rw [Sessions.step]
        cases s.registry.active with
        | none => exact h.selection
        | some id => exact h.selection.quiet (Quiet.call rfl)
    | synced id =>
        rw [Sessions.step]
        exact h.selection.quiet (Quiet.mapState ..)
    | lost id =>
        rw [Sessions.step]
        exact h.selection.quiet (Quiet.mapState ..)
    | use => exact h.selection
    | _ => exact h.selection.quiet (Quiet.call rfl)
  handles := by
    cases event with
    | advance i ok order => exact h.handles.advance ok order hturn.2
    | disconnectActive =>
        rw [Sessions.step]
        cases s.registry.active with
        | none => exact h.handles
        | some id => exact h.handles.continues (Continues.call nofun)
    | synced id =>
        rw [Sessions.step]
        exact h.handles.continues (Continues.mapState _ _ fun _ => Or.inl rfl)
    | lost id =>
        rw [Sessions.step]
        exact h.handles.continues (Continues.mapState _ _ fun _ => Or.inl rfl)
    | use => exact h.handles
    | _ => exact h.handles.continues (Continues.call nofun)

theorem Sound.agrees (h : Sound s) {event : SessionEvent} (hturn : s.TakesTurns event) :
    s.Agrees event where
  registered := activeRegistered_step h.registered event
  none := sessions_step_of_active_none h.none hturn
  inner hnone := ((h.step hturn).selection.agreement hnone).inner
  use hevent := by
    subst hevent
    exact h.selection.agreement hturn
  removal i ok order hevent gone hgone other hother hkept := by
    subst hevent
    exact keeps_advance h.handles ok order hgone hother hkept

/-- As long as tasks take turns, a disconnect knows whether its session is active and a
reconnect does not leave the others without an active one, the registry and the session that
commands use agree in every state, and sessions are removed one by one. -/
theorem agrees_run (events : List SessionEvent) (h : Along step TakesTurns {} events) :
    Along step Agrees {} events :=
  along_of_invariant (fun _ _ hs hturn => hs.step hturn) (fun _ _ hs hturn => hs.agrees hturn)
    sound_initial h

section Example

instance (s : Sessions) (i : ℕ) : Decidable (∀ j, j ≠ i → (s.task j).updating = false) :=
  decidable_of_iff (∀ j < s.tasks.length, j ≠ i → (s.task j).updating = false)
    ⟨fun h j hj => (Nat.lt_or_ge j s.tasks.length).elim (h j · hj) fun hout => by
      rw [task_of_length_le hout]; rfl, fun h j _ => h j⟩

instance (s : Sessions) : Decidable (∀ j, (s.task j).updating = false) :=
  decidable_of_iff (∀ j < s.tasks.length, (s.task j).updating = false)
    ⟨fun h j => (Nat.lt_or_ge j s.tasks.length).elim (h j) fun hout => by
      rw [task_of_length_le hout]; rfl, fun h j _ => h j⟩

instance (s : Sessions) (event : SessionEvent) : Decidable (s.TakesTurns event) :=
  match event with
  | .advance _ _ _ => inferInstanceAs (Decidable (_ ∧ _))
  | .use => inferInstanceAs (Decidable (∀ j, (s.task j).updating = false))
  | .connect _ => isTrue trivial
  | .switchTo _ => isTrue trivial
  | .disconnectSession _ => isTrue trivial
  | .disconnectActive => isTrue trivial
  | .synced _ => isTrue trivial
  | .lost _ => isTrue trivial

private def stepsExample (i n : ℕ) : List SessionEvent :=
  List.replicate n (.advance i true HashOrder.listed)

/-- A connection is made, used and lost, made again, and ended. -/
theorem agrees_run_example :
    let events := .connect {} :: stepsExample 0 5 ++ stepsExample 1 2 ++
      [.synced 0, .use, .lost 0] ++ .connect {} :: stepsExample 2 5 ++ [.use] ++
      .disconnectActive :: stepsExample 4 7 ++ [.use]
    Along step Agrees {} events := by
  exact agrees_run _ (by decide)

private def switchedExample : List SessionEvent :=
  .connect {} :: stepsExample 0 5 ++ .connect { username := "u" } :: stepsExample 2 5 ++
    .disconnectSession 0 :: stepsExample 4 2 ++ .switchTo 0 :: stepsExample 5 5 ++
    stepsExample 4 3

/-- Commands use a session that has been removed. -/
theorem removed_session_used :
    ¬∀ events : List SessionEvent, Along step Agrees {} events := by
  intro h
  have huse := (along_append.mp (h (switchedExample ++ [.use]))).2.1.use rfl
  have hactive : (run step {} switchedExample).registry.active = some 1 := by decide
  have hinner : (run step {} switchedExample).inner = some 0 := by decide
  have hsame := hinner.symm.trans (huse.inner 1 hactive)
  cases hsame

end Example

end Sessions

end FancyMumble.Client
