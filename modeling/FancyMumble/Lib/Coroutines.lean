import FancyMumble.Lib.Runs
import Mathlib.Data.List.Forall2

/-!
# Coroutines on an active object

Tasks act, step by step, on the object that a shared pointer leads to, and send messages to
objects that they have found there. Between two steps the pointer may be moved, and other
tasks go on. When does a task stay with the object that it started at?
-/

namespace FancyMumble.Lib.Coroutines

open Lib.Runs

universe u

variable {ρ σ μ α β κ : Type u}

/-- What is left of a task: it is done, or it acts on the object that is active then, or it
sends a message and goes on with the answer. -/
inductive Coroutine (ρ σ μ α β : Type u) where
  | done (result : β)
  | locked (act : ρ → σ → σ × Coroutine ρ σ μ α β)
  | send (dest : ρ) (msg : μ) (next : α → Coroutine ρ σ μ α β)

namespace Coroutine

def target (active : ρ) : Coroutine ρ σ μ α β → Option ρ
  | .done _ => none
  | .locked _ => some active
  | .send dest _ _ => some dest

def isLocked : Coroutine ρ σ μ α β → Bool
  | .locked _ => true
  | _ => false

/-- As long as a task acts on objects of a kind only, it sends to objects of the kind only. -/
inductive SendsTo (P : ρ → Prop) : Coroutine ρ σ μ α β → Prop where
  | done (result : β) : SendsTo P (.done result)
  | locked {act : ρ → σ → σ × Coroutine ρ σ μ α β}
      (hact : ∀ ref object, P ref → SendsTo P (act ref object).2) : SendsTo P (.locked act)
  | send {dest : ρ} {msg : μ} {next : α → Coroutine ρ σ μ α β} (hdest : P dest)
      (hnext : ∀ answer, SendsTo P (next answer)) : SendsTo P (.send dest msg next)

end Coroutine

structure World (ρ σ μ α β : Type u) where
  active : ρ
  objects : ρ → σ
  tasks : List (ρ × Coroutine ρ σ μ α β) := []

/-- What can happen between two steps of a task: a command starts another one, a task goes
on, another object becomes active, or an object changes. -/
inductive Event (ρ σ α κ : Type u) where
  | start (command : κ)
  | resume (i : ℕ) (answer : α)
  | redirect (ref : ρ)
  | modify (ref : ρ) (f : σ → σ)

namespace World

def resume [DecidableEq ρ] (i : ℕ) (answer : α) (w : World ρ σ μ α β) : World ρ σ μ α β :=
  match w.tasks[i]? with
  | some (origin, .locked act) =>
      let (object, rest) := act w.active (w.objects w.active)
      { w with
        objects := Function.update w.objects w.active object
        tasks := w.tasks.set i (origin, rest) }
  | some (origin, .send _ _ next) => { w with tasks := w.tasks.set i (origin, next answer) }
  | _ => w

def step [DecidableEq ρ] (program : κ → Coroutine ρ σ μ α β) (w : World ρ σ μ α β) :
    Event ρ σ α κ → World ρ σ μ α β
  | .start command => { w with tasks := w.tasks ++ [(w.active, program command)] }
  | .resume i answer => w.resume i answer
  | .redirect ref => { w with active := ref }
  | .modify ref f => { w with objects := Function.update w.objects ref (f (w.objects ref)) }

/-- The step of a task concerns the object it started at. -/
def StaysWithOrigin (w : World ρ σ μ α β) : Event ρ σ α κ → Prop
  | .resume i _ => ∀ task ∈ w.tasks[i]?, ∀ ref ∈ task.2.target w.active, ref = task.1
  | _ => True

/-- When a task takes the active object, it is the one that was active at its start. -/
def FindsOrigin (w : World ρ σ μ α β) : Event ρ σ α κ → Prop
  | .resume i _ => ∀ task ∈ w.tasks[i]?, task.2.isLocked = true → w.active = task.1
  | _ => True

/-- Every task sends to its origin if it acts on its origin only. -/
def Sound (w : World ρ σ μ α β) : Prop := ∀ task ∈ w.tasks, task.2.SendsTo (· = task.1)

variable {program : κ → Coroutine ρ σ μ α β} {w : World ρ σ μ α β}

theorem Sound.staysWithOrigin_iff (h : Sound w) (event : Event ρ σ α κ) :
    StaysWithOrigin w event ↔ FindsOrigin w event := by
  cases event with
  | resume i answer =>
      refine forall₂_congr fun task htask => ?_
      obtain ⟨origin, rest⟩ := task
      cases rest with
      | done result => exact iff_of_true nofun nofun
      | locked act => exact ⟨fun hstays _ => hstays _ rfl, fun hfinds _ href => by
          cases href
          exact hfinds rfl⟩
      | send dest msg next =>
          cases h _ (List.mem_of_getElem? htask) with
          | send hdest hnext => exact iff_of_true (fun _ href => by cases href; exact hdest) nofun
  | _ => exact Iff.rfl

theorem Sound.set (h : Sound w) {objects : ρ → σ} (i : ℕ) {task : ρ × Coroutine ρ σ μ α β}
    (htask : task.2.SendsTo (· = task.1)) :
    Sound { w with objects := objects, tasks := w.tasks.set i task } := by
  intro other hother
  rcases List.mem_or_eq_of_mem_set hother with hbefore | rfl
  · exact h other hbefore
  · exact htask

variable [DecidableEq ρ]

theorem Sound.resume (h : Sound w) {i : ℕ} {answer : α}
    (hfinds : ∀ task ∈ w.tasks[i]?, task.2.isLocked = true → w.active = task.1) :
    Sound (w.resume i answer) := by
  unfold World.resume
  split
  · next origin act htask =>
      have horigin : w.active = origin := hfinds _ htask rfl
      cases h _ (List.mem_of_getElem? htask) with
      | locked hact => exact h.set i (hact w.active (w.objects w.active) horigin)
  · next origin dest msg next htask =>
      cases h _ (List.mem_of_getElem? htask) with
      | send hdest hnext => exact h.set i (hnext answer)
  · exact h

theorem Sound.step (h : Sound w) (hprogram : ∀ command P, (program command).SendsTo P)
    {event : Event ρ σ α κ} (hfinds : FindsOrigin w event) : Sound (w.step program event) := by
  cases event with
  | start command =>
      intro task htask
      rcases List.mem_append.mp htask with hbefore | hnew
      · exact h task hbefore
      · rw [List.mem_singleton.mp hnew]
        exact hprogram command _
  | resume i answer => exact h.resume hfinds
  | redirect ref => exact h
  | modify ref f => exact h

theorem staysWithOrigin_run_iff (hprogram : ∀ command P, (program command).SendsTo P)
    (h : Sound w) (events : List (Event ρ σ α κ)) :
    Along (step program) StaysWithOrigin w events ↔ Along (step program) FindsOrigin w events :=
  along_iff_of_invariant (fun _ event hw => hw.staysWithOrigin_iff event)
    (fun _ _ hw hfinds => hw.step hprogram hfinds) h

end World

/-! ## Trails -/

/-- What a task meets in a step: the active object, or the answer to what it has sent. -/
inductive Encounter (ρ σ α : Type u) where
  | found (ref : ρ) (object : σ)
  | answered (answer : α)

/-- What is left of a task is the last coroutine after it has met what is in the list. -/
inductive Coroutine.Leads : Coroutine ρ σ μ α β → List (Encounter ρ σ α) →
    Coroutine ρ σ μ α β → Prop where
  | nil (task : Coroutine ρ σ μ α β) : Leads task [] task
  | found {act : ρ → σ → σ × Coroutine ρ σ μ α β} {ref : ρ} {object : σ}
      {trail : List (Encounter ρ σ α)} {rest : Coroutine ρ σ μ α β}
      (h : Leads (act ref object).2 trail rest) :
      Leads (.locked act) (.found ref object :: trail) rest
  | answered {dest : ρ} {msg : μ} {next : α → Coroutine ρ σ μ α β} {answer : α}
      {trail : List (Encounter ρ σ α)} {rest : Coroutine ρ σ μ α β}
      (h : Leads (next answer) trail rest) :
      Leads (.send dest msg next) (.answered answer :: trail) rest

namespace Coroutine

variable {task : Coroutine ρ σ μ α β} {trail : List (Encounter ρ σ α)}

theorem Leads.snoc_found {act : ρ → σ → σ × Coroutine ρ σ μ α β}
    (h : task.Leads trail (.locked act)) (ref : ρ) (object : σ) :
    task.Leads (trail ++ [.found ref object]) (act ref object).2 := by
  generalize hrest : Coroutine.locked act = rest at h
  induction h with
  | nil task =>
      subst hrest
      exact .found (.nil _)
  | found h ih => exact .found (ih hrest)
  | answered h ih => exact .answered (ih hrest)

theorem Leads.snoc_answered {dest : ρ} {msg : μ} {next : α → Coroutine ρ σ μ α β}
    (h : task.Leads trail (.send dest msg next)) (answer : α) :
    task.Leads (trail ++ [.answered answer]) (next answer) := by
  generalize hrest : Coroutine.send dest msg next = rest at h
  induction h with
  | nil task =>
      subst hrest
      exact .answered (.nil _)
  | found h ih => exact .found (ih hrest)
  | answered h ih => exact .answered (ih hrest)

end Coroutine

structure Trailed (ρ σ μ α β κ : Type u) where
  world : World ρ σ μ α β
  trails : List (κ × List (Encounter ρ σ α)) := []

namespace World

def encounter (w : World ρ σ μ α β) (i : ℕ) (answer : α) : Option (Encounter ρ σ α) :=
  match w.tasks[i]? with
  | some (_, .locked _) => some (.found w.active (w.objects w.active))
  | some (_, .send _ _ _) => some (.answered answer)
  | _ => none

end World

namespace Trailed

variable {program : κ → Coroutine ρ σ μ α β} {t : Trailed ρ σ μ α β κ}

def step [DecidableEq ρ] (program : κ → Coroutine ρ σ μ α β) (t : Trailed ρ σ μ α β κ)
    (event : Event ρ σ α κ) : Trailed ρ σ μ α β κ where
  world := t.world.step program event
  trails :=
    match event with
    | .start command => t.trails ++ [(command, [])]
    | .resume i answer =>
        t.trails.modify i fun entry => (entry.1, entry.2 ++ (t.world.encounter i answer).toList)
    | .redirect _ | .modify _ _ => t.trails

def Follows (program : κ → Coroutine ρ σ μ α β) (t : Trailed ρ σ μ α β κ) : Prop :=
  List.Forall₂ (fun task entry => (program entry.1).Leads entry.2 task.2) t.world.tasks t.trails

theorem Follows.leads (h : t.Follows program) {i : ℕ} {task : ρ × Coroutine ρ σ μ α β}
    (htask : t.world.tasks[i]? = some task) :
    ∃ entry, t.trails[i]? = some entry ∧ (program entry.1).Leads entry.2 task.2 := by
  obtain ⟨hi, hget⟩ := List.getElem?_eq_some_iff.mp htask
  have hi' : i < t.trails.length := by rw [← h.length_eq]; exact hi
  refine ⟨t.trails[i], List.getElem?_eq_getElem hi', ?_⟩
  rw [← hget]
  exact List.Forall₂.get h hi hi'

private theorem forall₂_set_modify {γ δ : Type u} {R : γ → δ → Prop} {xs : List γ}
    {ys : List δ} (h : List.Forall₂ R xs ys) {i : ℕ} {x : γ} {f : δ → δ}
    (hx : ∀ y, ys[i]? = some y → R x (f y)) :
    List.Forall₂ R (xs.set i x) (ys.modify i f) := by
  induction h generalizing i with
  | nil => simp
  | cons hxy h ih =>
      cases i with
      | zero => exact .cons (hx _ rfl) h
      | succ i => exact .cons hxy (ih hx)

variable [DecidableEq ρ]

theorem Follows.resume (h : t.Follows program) (i : ℕ) (answer : α) :
    (t.step program (.resume i answer)).Follows program := by
  have hsame : t.world.encounter i answer = none → t.world.resume i answer = t.world →
      (t.step program (.resume i answer)).Follows program := by
    intro hnone hresume
    have htrails : (t.trails.modify i fun entry => (entry.1, entry.2 ++ [])) = t.trails := by
      simp only [List.append_nil]
      exact List.modify_id i t.trails
    unfold Follows step
    simp only [World.step, hresume, hnone, Option.toList_none, htrails]
    exact h
  cases htask : t.world.tasks[i]? with
  | none => exact hsame (by simp only [World.encounter, htask]) (by simp only [World.resume, htask])
  | some task =>
      obtain ⟨origin, rest⟩ := task
      obtain ⟨entry, hentry, hleads⟩ := h.leads htask
      cases rest with
      | done result =>
          exact hsame (by simp only [World.encounter, htask]) (by simp only [World.resume, htask])
      | locked act =>
          unfold Follows step
          simp only [World.step, World.resume, World.encounter, htask, Option.toList_some]
          refine forall₂_set_modify h fun y hy => ?_
          obtain rfl : entry = y := Option.some.inj (hentry.symm.trans hy)
          exact hleads.snoc_found t.world.active (t.world.objects t.world.active)
      | send dest msg next =>
          unfold Follows step
          simp only [World.step, World.resume, World.encounter, htask, Option.toList_some]
          refine forall₂_set_modify h fun y hy => ?_
          obtain rfl : entry = y := Option.some.inj (hentry.symm.trans hy)
          exact hleads.snoc_answered answer

theorem Follows.step (h : t.Follows program) (event : Event ρ σ α κ) :
    (t.step program event).Follows program := by
  cases event with
  | start command =>
      exact List.rel_append (show List.Forall₂ _ _ _ from h) (.cons (.nil _) .nil)
  | resume i answer => exact h.resume i answer
  | redirect ref => exact h
  | modify ref f => exact h

end Trailed

end FancyMumble.Lib.Coroutines
