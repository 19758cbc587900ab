import Mathlib.Tactic.TypeStar

/-!
# Runs of a deterministic machine

A machine is a step function on states and events. `Along` states a property of
every event of a run at the state it meets; the rules below turn what one step
preserves into what a whole run preserves.
-/

namespace FancyMumble.Lib.Runs

variable {σ ε : Type*} {step : σ → ε → σ}

def run (step : σ → ε → σ) (s : σ) (events : List ε) : σ := events.foldl step s

@[simp] theorem run_nil (s : σ) : run step s [] = s := rfl

@[simp] theorem run_cons (s : σ) (e : ε) (events : List ε) :
    run step s (e :: events) = run step (step s e) events := rfl

theorem run_append (s : σ) (before after : List ε) :
    run step s (before ++ after) = run step (run step s before) after :=
  List.foldl_append

/-- `P` holds of every event of the run, at the state it meets. -/
def Along (step : σ → ε → σ) (P : σ → ε → Prop) : σ → List ε → Prop
  | _, [] => True
  | s, e :: events => P s e ∧ Along step P (step s e) events

@[simp] theorem along_nil (P : σ → ε → Prop) (s : σ) : Along step P s [] := trivial

@[simp] theorem along_cons (P : σ → ε → Prop) (s : σ) (e : ε) (events : List ε) :
    Along step P s (e :: events) ↔ P s e ∧ Along step P (step s e) events := Iff.rfl

instance decidableAlong (P : σ → ε → Prop) [∀ s e, Decidable (P s e)] :
    ∀ s events, Decidable (Along step P s events)
  | _, [] => inferInstanceAs (Decidable True)
  | s, e :: events =>
      have := decidableAlong P (step s e) events
      inferInstanceAs (Decidable (P s e ∧ Along step P (step s e) events))

theorem along_append {P : σ → ε → Prop} {s : σ} {before after : List ε} :
    Along step P s (before ++ after) ↔
      Along step P s before ∧ Along step P (run step s before) after := by
  induction before generalizing s with
  | nil => simp
  | cons e before ih => simp [ih, and_assoc]

theorem along_of_forall {P : σ → ε → Prop} (h : ∀ s e, P s e) (s : σ) (events : List ε) :
    Along step P s events := by
  induction events generalizing s with
  | nil => trivial
  | cons e events ih => exact ⟨h s e, ih (step s e)⟩

theorem along_of_mem {P : ε → Prop} {s : σ} {events : List ε} (h : ∀ e ∈ events, P e) :
    Along step (fun _ e => P e) s events := by
  induction events generalizing s with
  | nil => trivial
  | cons e events ih =>
      exact ⟨h e List.mem_cons_self, ih fun e' he' => h e' (List.mem_cons_of_mem e he')⟩

theorem along_mono {P Q : σ → ε → Prop} (h : ∀ s e, P s e → Q s e) {s : σ} {events : List ε}
    (hP : Along step P s events) : Along step Q s events := by
  induction events generalizing s with
  | nil => trivial
  | cons e events ih => exact ⟨h s e hP.1, ih hP.2⟩

theorem along_congr {P Q : σ → ε → Prop} (h : ∀ s e, P s e ↔ Q s e) {s : σ} {events : List ε} :
    Along step P s events ↔ Along step Q s events :=
  ⟨along_mono fun s e => (h s e).mp, along_mono fun s e => (h s e).mpr⟩

theorem along_and {P Q : σ → ε → Prop} {s : σ} {events : List ε} :
    Along step (fun s e => P s e ∧ Q s e) s events ↔
      Along step P s events ∧ Along step Q s events := by
  induction events generalizing s with
  | nil => simp
  | cons e events ih =>
      rw [along_cons, along_cons, along_cons, ih]
      exact and_and_and_comm

/-! ## Invariants -/

/-- What every allowed step preserves holds at the end of an allowed run. -/
theorem invariant_run {Inv : σ → Prop} {P : σ → ε → Prop}
    (hstep : ∀ s e, Inv s → P s e → Inv (step s e)) {s : σ} {events : List ε} (hs : Inv s)
    (hP : Along step P s events) : Inv (run step s events) := by
  induction events generalizing s with
  | nil => exact hs
  | cons e events ih => exact ih (hstep s e hs hP.1) hP.2

theorem along_of_invariant {Inv : σ → Prop} {P Q : σ → ε → Prop}
    (hstep : ∀ s e, Inv s → P s e → Inv (step s e))
    (hQ : ∀ s e, Inv s → P s e → Q s e) {s : σ} {events : List ε} (hs : Inv s)
    (hP : Along step P s events) : Along step Q s events := by
  induction events generalizing s with
  | nil => trivial
  | cons e events ih => exact ⟨hQ s e hs hP.1, ih (hstep s e hs hP.1) hP.2⟩

theorem along_iff_along {Inv : σ → Prop} {P Q R : σ → ε → Prop}
    (hiff : ∀ s e, Inv s → P s e → (Q s e ↔ R s e))
    (hstep : ∀ s e, Inv s → P s e → R s e → Inv (step s e)) {s : σ} {events : List ε}
    (hs : Inv s) (hP : Along step P s events) :
    Along step Q s events ↔ Along step R s events := by
  induction events generalizing s with
  | nil => exact Iff.rfl
  | cons e events ih =>
      rw [along_cons, along_cons, hiff s e hs hP.1]
      exact and_congr_right fun hR => ih (hstep s e hs hP.1 hR) hP.2

theorem invariant_always {Inv : σ → Prop} (hstep : ∀ s e, Inv s → Inv (step s e)) {s : σ}
    {events : List ε} (hs : Inv s) : Inv (run step s events) :=
  invariant_run (P := fun _ _ => True) (fun s e h _ => hstep s e h) hs
    (along_of_forall (fun _ _ => trivial) s events)

theorem along_iff_of_invariant {Inv : σ → Prop} {Q R : σ → ε → Prop}
    (hiff : ∀ s e, Inv s → (Q s e ↔ R s e)) (hstep : ∀ s e, Inv s → R s e → Inv (step s e))
    {s : σ} {events : List ε} (hs : Inv s) : Along step Q s events ↔ Along step R s events :=
  along_iff_along (P := fun _ _ => True) (fun s e h _ => hiff s e h)
    (fun s e h _ hR => hstep s e h hR) hs (along_of_forall (fun _ _ => trivial) s events)

/-! ## Purged runs -/

theorem unwinding {R : σ → σ → Prop} {P : σ → ε → Prop} {keep : ε → Bool}
    (hdropped : ∀ s s' e, R s s' → keep e = false → P s e → R (step s e) s')
    (hkept : ∀ s s' e, R s s' → keep e = true → P s e → R (step s e) (step s' e))
    {s s' : σ} {events : List ε} (h : R s s') (hP : Along step P s events) :
    R (run step s events) (run step s' (events.filter keep)) := by
  induction events generalizing s s' with
  | nil => exact h
  | cons e events ih =>
      cases hkeep : keep e with
      | true =>
          rw [List.filter_cons_of_pos hkeep]
          exact ih (hkept s s' e h hkeep hP.1) hP.2
      | false =>
          rw [List.filter_cons_of_neg (by rw [hkeep]; exact Bool.false_ne_true)]
          exact ih (hdropped s s' e h hkeep hP.1) hP.2

end FancyMumble.Lib.Runs
