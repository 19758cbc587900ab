import FancyMumble.Signal.Representation

/-!
# Installing the Signal bridge

Loading the bridge is slow and goes on off the lock of the shared state: one lock for the
check, one for the certificate, and one to store what was loaded. Requests that need the
bridge are in progress side by side.
-/

namespace FancyMumble.Messages

open Lib.Runs Signal

variable {lib : Libraries}

inductive BridgeRequest (lib : Libraries) where
  /-- `ensure_signal_bridge_unlocked` -/
  | ensureUnlocked
  /-- `send_signal_distribution` -/
  | sendDistribution (channelId : UInt32)
  /-- `handle_signal_sender_key_by_hash` -/
  | senderKey (senderHash : String) (senderChannel : UInt32) (data : lib.Bytes)

inductive BridgeTask (lib : Libraries) where
  /-- It has released its first lock. -/
  | checked (request : BridgeRequest lib)
  /-- The load has ended, and its result is not stored yet. -/
  | loaded (bridge : Option (SignalBridgeCtx lib))
  | finished

structure Bridge (lib : Libraries) where
  installed : SignalBridgeCtx lib
  context : SignalBridgeCtx lib

/-- What a connection holds of the bridge. A shared bridge is the number of its installation.
The calls that bridges have answered are recorded for the statements only. -/
structure BridgeState (lib : Libraries) where
  /-- The persistent chat is in the shared state. -/
  present : Bool := true
  /-- A fetch has taken it out. -/
  fetching : Bool := false
  signalBridge : Option ℕ := none
  /-- `signal_bridge` of the key manager. -/
  keyManagerBridge : Option ℕ := none
  signalBridgeLoadFailed : Bool := false
  bridges : List (Bridge lib) := []
  tasks : List (BridgeTask lib) := []
  calls : List (lib.Rng × Call lib) := []

/-- What happens under one lock of the shared state. -/
inductive BridgeEvent (lib : Libraries) where
  | start (request : BridgeRequest lib)
  | proceed (i : ℕ) (rng : lib.Rng) (loaded : Option (SignalBridgeCtx lib))
  /-- `ensure_signal_bridge`, of a join, a self-generated key or a message to encrypt. -/
  | ensure (loaded : Option (SignalBridgeCtx lib))
  /-- A call of the key manager: a message to encrypt or decrypt, a channel to forget. -/
  | keyManager (rng : lib.Rng) (call : Call lib)
  | fetchTake
  | fetchRestore
  | tearDown

namespace BridgeState

def store (bridge : Option (SignalBridgeCtx lib)) (s : BridgeState lib) : BridgeState lib :=
  match bridge with
  | some context =>
      { s with
        bridges := s.bridges ++ [⟨context, context⟩]
        keyManagerBridge := some s.bridges.length
        signalBridge := some s.bridges.length }
  | none => { s with signalBridgeLoadFailed := true, signalBridge := none }

def ensureSignalBridge (loaded : Option (SignalBridgeCtx lib)) (s : BridgeState lib) :
    BridgeState lib :=
  if s.signalBridge.isSome || s.signalBridgeLoadFailed then s else s.store loaded

def callOn (bridge : Option ℕ) (rng : lib.Rng) (call : Call lib) (s : BridgeState lib) :
    BridgeState lib :=
  match bridge with
  | none => s
  | some n =>
      { s with
        bridges := s.bridges.modify n fun b => { b with context := b.context.after (rng, call) }
        calls := s.calls ++ [(rng, call)] }

def passes (s : BridgeState lib) : BridgeRequest lib → Bool
  | .ensureUnlocked => s.present && s.signalBridge.isNone && !s.signalBridgeLoadFailed
  | _ => !(s.present && s.signalBridgeLoadFailed)

def ensureAndCall (rng : lib.Rng) (loaded : Option (SignalBridgeCtx lib)) (call : Call lib)
    (s : BridgeState lib) : BridgeState lib :=
  if s.present then
    let s := s.ensureSignalBridge loaded
    s.callOn s.signalBridge rng call
  else s

def proceed (i : ℕ) (rng : lib.Rng) (loaded : Option (SignalBridgeCtx lib))
    (s : BridgeState lib) : BridgeTask lib → BridgeState lib
  | .checked .ensureUnlocked =>
      { s with tasks := s.tasks.set i (if s.present then .loaded loaded else .finished) }
  | .loaded bridge =>
      let s := { s with tasks := s.tasks.set i .finished }
      if s.present then s.store bridge else s
  | .checked (.sendDistribution channelId) =>
      { s with tasks := s.tasks.set i .finished }.ensureAndCall rng loaded
        (.createDistribution channelId)
  | .checked (.senderKey senderHash senderChannel data) =>
      { s with tasks := s.tasks.set i .finished }.ensureAndCall rng loaded
        (.processDistribution senderHash senderChannel data)
  | .finished => s

def step (s : BridgeState lib) : BridgeEvent lib → BridgeState lib
  | .start request =>
      if s.passes request then { s with tasks := s.tasks ++ [.checked request] } else s
  | .proceed i rng loaded => (s.tasks[i]?.map (s.proceed i rng loaded)).getD s
  | .ensure loaded => if s.present then s.ensureSignalBridge loaded else s
  | .keyManager rng call =>
      if s.present || s.fetching then s.callOn s.keyManagerBridge rng call else s
  | .fetchTake => { s with present := false, fetching := s.fetching || s.present }
  | .fetchRestore => { s with present := s.present || s.fetching, fetching := false }
  | .tearDown => { s with present := false }

/-! ## One bridge -/

/-- At most one bridge has been installed; it has not been replaced, and it has the state of
every call that was answered. -/
structure InstalledOnce (s : BridgeState lib) : Prop where
  once : s.bridges.length ≤ 1
  kept : ∀ n < s.bridges.length, s.signalBridge = some n ∧ s.keyManagerBridge = some n
  keeps : ∀ b ∈ s.bridges, b.context = run SignalBridgeCtx.after b.installed s.calls

/-- No bridge is installed when the result of a load is stored. -/
def StoresFirst (s : BridgeState lib) : BridgeEvent lib → Prop
  | .proceed i _ _ =>
      ∀ bridge, s.tasks[i]? = some (.loaded bridge) → s.present → s.signalBridge = none
  | _ => True

structure Consistent (s : BridgeState lib) : Prop where
  signalBridge : ∀ n ∈ s.signalBridge, n < s.bridges.length
  keyManagerBridge : ∀ n ∈ s.keyManagerBridge, n < s.bridges.length
  calls : s.bridges = [] → s.calls = []

structure Sound (s : BridgeState lib) : Prop extends InstalledOnce s, Consistent s

theorem Sound.congr {s s' : BridgeState lib} (h : s.Sound)
    (hsignal : s'.signalBridge = s.signalBridge)
    (hkey : s'.keyManagerBridge = s.keyManagerBridge) (hbridges : s'.bridges = s.bridges)
    (hcalls : s'.calls = s.calls) : s'.Sound where
  once := by rw [hbridges]; exact h.once
  kept := by rw [hbridges, hsignal, hkey]; exact h.kept
  keeps := by rw [hbridges, hcalls]; exact h.keeps
  signalBridge := by rw [hbridges, hsignal]; exact h.signalBridge
  keyManagerBridge := by rw [hbridges, hkey]; exact h.keyManagerBridge
  calls := by rw [hbridges, hcalls]; exact h.calls

theorem Sound.signalBridge_eq_none {s : BridgeState lib} (h : s.Sound) :
    s.signalBridge = none ↔ s.bridges = [] := by
  constructor
  · intro hnone
    by_contra hne
    have hsome := (h.kept 0 (List.length_pos_of_ne_nil hne)).1
    rw [hnone] at hsome
    cases hsome
  · intro hnil
    rw [Option.eq_none_iff_forall_not_mem]
    intro n hn
    have hlt := h.signalBridge n hn
    rw [hnil] at hlt
    exact absurd hlt (Nat.not_lt_zero n)

theorem Sound.store {s : BridgeState lib} (h : s.Sound) (hnone : s.signalBridge = none)
    (bridge : Option (SignalBridgeCtx lib)) : (s.store bridge).Sound := by
  have hnil := h.signalBridge_eq_none.mp hnone
  have hcalls := h.calls hnil
  cases bridge with
  | none => exact h.congr hnone.symm rfl rfl rfl
  | some context =>
      have hbridges : (s.store (some context)).bridges = [⟨context, context⟩] := by
        rw [BridgeState.store, hnil]
        rfl
      have hsignal : (s.store (some context)).signalBridge = some 0 := by
        rw [BridgeState.store, hnil]
        rfl
      have hkey : (s.store (some context)).keyManagerBridge = some 0 := by
        rw [BridgeState.store, hnil]
        rfl
      constructor
      · constructor
        · rw [hbridges]
          exact Nat.le_refl 1
        · intro n hn
          rw [hbridges] at hn
          obtain rfl : n = 0 := Nat.lt_one_iff.mp hn
          exact ⟨hsignal, hkey⟩
        · intro b hb
          rw [hbridges] at hb
          rw [List.mem_singleton.mp hb]
          show context = run SignalBridgeCtx.after context s.calls
          rw [hcalls]
          rfl
      · constructor
        · intro n hn
          rw [hsignal] at hn
          rw [hbridges, ← Option.some.inj hn]
          exact Nat.zero_lt_one
        · intro n hn
          rw [hkey] at hn
          rw [hbridges, ← Option.some.inj hn]
          exact Nat.zero_lt_one
        · intro h'
          rw [hbridges] at h'
          cases h'

theorem Sound.not_installedOnce_store {s : BridgeState lib} (h : s.Sound)
    (hsome : s.signalBridge ≠ none) (bridge : Option (SignalBridgeCtx lib)) :
    ¬(s.store bridge).InstalledOnce := by
  intro hinstalled
  have hne : s.bridges ≠ [] := fun hnil => hsome (h.signalBridge_eq_none.mpr hnil)
  have hpos := List.length_pos_of_ne_nil hne
  cases bridge with
  | none =>
      have hkept := (hinstalled.kept 0 hpos).1
      cases hkept
  | some context =>
      have honce := hinstalled.once
      rw [BridgeState.store, List.length_append, List.length_singleton] at honce
      omega

theorem Sound.ensureSignalBridge {s : BridgeState lib} (h : s.Sound)
    (loaded : Option (SignalBridgeCtx lib)) : (s.ensureSignalBridge loaded).Sound := by
  unfold BridgeState.ensureSignalBridge
  split
  next => exact h
  next hguard =>
    refine h.store ?_ loaded
    cases hsignal : s.signalBridge with
    | none => rfl
    | some n =>
        rw [hsignal] at hguard
        exact absurd rfl hguard

theorem Sound.callOn {s : BridgeState lib} (h : s.Sound) {bridge : Option ℕ}
    (hbridge : ∀ n ∈ bridge, n < s.bridges.length) (rng : lib.Rng) (call : Call lib) :
    (s.callOn bridge rng call).Sound := by
  cases bridge with
  | none => exact h
  | some n =>
      have hn := hbridge n rfl
      obtain rfl : n = 0 := by
        have honce := h.once
        omega
      obtain ⟨b, hb⟩ : ∃ b, s.bridges = [b] :=
        List.length_eq_one_iff.mp (Nat.le_antisymm h.once hn)
      have hbridges : (s.callOn (some 0) rng call).bridges =
          [{ b with context := b.context.after (rng, call) }] := by
        rw [BridgeState.callOn, hb]
        rfl
      have hlength : (s.callOn (some 0) rng call).bridges.length = s.bridges.length := by
        rw [hbridges, hb]
        rfl
      constructor
      · constructor
        · rw [hlength]
          exact h.once
        · rw [hlength]
          exact h.kept
        · intro b' hb'
          rw [hbridges] at hb'
          rw [List.mem_singleton.mp hb']
          show b.context.after (rng, call) =
            run SignalBridgeCtx.after b.installed (s.calls ++ [(rng, call)])
          rw [run_append, ← h.keeps b (hb ▸ List.mem_singleton_self b)]
          rfl
      · constructor
        · rw [hlength]
          exact h.signalBridge
        · rw [hlength]
          exact h.keyManagerBridge
        · intro hnil
          rw [hbridges] at hnil
          cases hnil

theorem Sound.ensureAndCall {s : BridgeState lib} (h : s.Sound) (rng : lib.Rng)
    (loaded : Option (SignalBridgeCtx lib)) (call : Call lib) :
    (s.ensureAndCall rng loaded call).Sound := by
  unfold BridgeState.ensureAndCall
  split
  next =>
    have hensured := h.ensureSignalBridge loaded
    exact hensured.callOn hensured.signalBridge rng call
  next => exact h

theorem Sound.proceed {s : BridgeState lib} (h : s.Sound) (i : ℕ) (rng : lib.Rng)
    (loaded : Option (SignalBridgeCtx lib)) {task : BridgeTask lib}
    (hfirst : ∀ bridge, task = .loaded bridge → s.present → s.signalBridge = none) :
    (s.proceed i rng loaded task).Sound := by
  have htasks (tasks : List (BridgeTask lib)) : { s with tasks }.Sound := h.congr rfl rfl rfl rfl
  cases task with
  | checked request =>
      cases request with
      | ensureUnlocked => exact htasks _
      | sendDistribution channelId => exact (htasks _).ensureAndCall rng loaded _
      | senderKey senderHash senderChannel data => exact (htasks _).ensureAndCall rng loaded _
  | loaded bridge =>
      unfold BridgeState.proceed
      dsimp only
      have hset := htasks (s.tasks.set i .finished)
      split
      next hpresent => exact hset.store (hfirst bridge rfl hpresent) bridge
      next => exact hset
  | finished => exact h

theorem Sound.step {s : BridgeState lib} (h : s.Sound) {event : BridgeEvent lib}
    (hfirst : s.StoresFirst event) : (s.step event).Sound := by
  cases event with
  | start request =>
      unfold BridgeState.step
      dsimp only
      split
      next => exact h.congr rfl rfl rfl rfl
      next => exact h
  | proceed i rng loaded =>
      show ((s.tasks[i]?.map (s.proceed i rng loaded)).getD s).Sound
      cases htask : s.tasks[i]? with
      | none => exact h
      | some task =>
          refine h.proceed i rng loaded fun bridge heq => hfirst bridge ?_
          rw [htask, heq]
  | ensure loaded =>
      unfold BridgeState.step
      dsimp only
      split
      next => exact h.ensureSignalBridge loaded
      next => exact h
  | keyManager rng call =>
      unfold BridgeState.step
      dsimp only
      split
      next => exact h.callOn h.keyManagerBridge rng call
      next => exact h
  | fetchTake => exact h.congr rfl rfl rfl rfl
  | fetchRestore => exact h.congr rfl rfl rfl rfl
  | tearDown => exact h.congr rfl rfl rfl rfl

/-- A step leaves one bridge installed exactly if it stores no later result. -/
theorem Sound.installedOnce_step_iff {s : BridgeState lib} (h : s.Sound)
    (event : BridgeEvent lib) : (s.step event).InstalledOnce ↔ s.StoresFirst event := by
  constructor
  · intro hinstalled
    cases event with
    | proceed i rng loaded =>
        intro bridge htask hpresent
        by_contra hsome
        have htasks : { s with tasks := s.tasks.set i .finished }.Sound :=
          h.congr rfl rfl rfl rfl
        refine htasks.not_installedOnce_store hsome bridge ?_
        have hstep : s.step (.proceed i rng loaded) =
            { s with tasks := s.tasks.set i .finished }.store bridge := by
          unfold BridgeState.step
          dsimp only
          rw [htask]
          exact if_pos hpresent
        rw [← hstep]
        exact hinstalled
    | _ => trivial
  · exact fun hfirst => (h.step hfirst).toInstalledOnce

theorem sound_new : ({} : BridgeState lib).Sound where
  once := Nat.zero_le 1
  kept := fun n hn => absurd hn (Nat.not_lt_zero n)
  keeps := fun _ hb => absurd hb List.not_mem_nil
  signalBridge := fun n hn => absurd hn (Option.not_mem_none n)
  keyManagerBridge := fun n hn => absurd hn (Option.not_mem_none n)
  calls := fun _ => rfl

/-- Over every interleaving of the requests of a connection, one bridge is installed and
keeps its state exactly if none is installed whenever the result of a load is stored. -/
theorem installedOnce_run_iff (events : List (BridgeEvent lib)) :
    Along BridgeState.step (fun s event => (s.step event).InstalledOnce) {} events ↔
      Along BridgeState.step StoresFirst {} events := by
  have hall : Along BridgeState.step (fun _ _ => True) ({} : BridgeState lib) events :=
    along_of_forall (fun _ _ => trivial) _ events
  exact along_iff_along (fun s event h _ => h.installedOnce_step_iff event)
    (fun s event h _ hfirst => h.step hfirst) sound_new hall

section Example

/-- Two channels are joined: both requests check before either one stores its bridge. The
first one has sent its distribution when the second one stores. -/
private def joinedExample : List (BridgeEvent symbolic) :=
  [.start .ensureUnlocked, .start .ensureUnlocked,
    .proceed 0 ("own", 0) (some { ourAddress := "own" }),
    .proceed 1 ("own", 0) (some { ourAddress := "own" }),
    .proceed 0 ("own", 0) none,
    .start (.sendDistribution 1),
    .proceed 2 ("own", 0) none,
    .proceed 1 ("own", 0) none]

/-- The bridge of the second request replaces the one that made the distribution. -/
theorem second_bridge_installed :
    ¬∀ (lib : Libraries) (events : List (BridgeEvent lib)),
      (run BridgeState.step {} events).InstalledOnce := by
  intro h
  have honce := (h symbolic joinedExample).once
  exact absurd honce (by decide)

end Example

end BridgeState

end FancyMumble.Messages
