import FancyMumble.Lib.Runs
import Mathlib.Data.List.DropRight

/-!
# Lifetimes of entries

An entry of a table is made by some events, changed by others and deleted by others again.
What it is after a run is told by the events of its lifetime: those since it was made, after
its last deletion.
-/

namespace FancyMumble.Lib.Lifetimes

open Lib.Runs

variable {ε ν : Type}

/-- What an event does to one entry; one that is not about the entry adjusts nothing. -/
inductive Change (ν : Type) where
  /-- A missing entry is made before it is changed. -/
  | make (f : ν → ν)
  /-- A missing entry stays missing. -/
  | adjust (f : ν → ν)
  | delete

namespace Change

def apply (fresh : ν) : Change ν → Option ν → Option ν
  | make f, entry => some (f (entry.getD fresh))
  | adjust f, entry => entry.map f
  | delete, _ => none

def value : Change ν → ν → ν
  | make f, v => f v
  | adjust f, v => f v
  | delete, v => v

def makes : Change ν → Bool
  | make _ => true
  | adjust _ => false
  | delete => false

def deletes : Change ν → Bool
  | make _ => false
  | adjust _ => false
  | delete => true

end Change

/-! ## The events of a lifetime -/

section

variable (makes deletes : ε → Bool)

def lifetime (events : List ε) : List ε :=
  (events.rtakeWhile fun e => !deletes e).dropWhile fun e => !makes e

variable {makes deletes} {events : List ε} {e : ε}

@[simp] theorem lifetime_nil : lifetime makes deletes [] = [] := rfl

theorem lifetime_concat_of_deletes (h : deletes e = true) :
    lifetime makes deletes (events ++ [e]) = [] := by
  unfold lifetime
  rw [List.rtakeWhile_concat_neg _ _ _ (by rw [h]; exact Bool.false_ne_true)]
  rfl

theorem lifetime_concat_of_makes (hkept : deletes e = false) (h : makes e = true) :
    lifetime makes deletes (events ++ [e]) = lifetime makes deletes events ++ [e] := by
  unfold lifetime
  rw [List.rtakeWhile_concat_pos _ _ _ (by rw [hkept]; rfl), List.dropWhile_append]
  split
  next hempty =>
    rw [List.isEmpty_iff.mp hempty, List.nil_append]
    exact List.dropWhile_cons_of_neg (by rw [h]; exact Bool.false_ne_true)
  next => rfl

theorem lifetime_concat (hkept : deletes e = false) (h : makes e = false) :
    lifetime makes deletes (events ++ [e]) =
      if lifetime makes deletes events = [] then [] else lifetime makes deletes events ++ [e] := by
  unfold lifetime
  rw [List.rtakeWhile_concat_pos _ _ _ (by rw [hkept]; rfl), List.dropWhile_append]
  simp only [List.isEmpty_iff]
  split
  next => exact List.dropWhile_cons_of_pos (by rw [h]; rfl)
  next => rfl

end

/-! ## The entry after a run -/

variable {σ : Type} {step : σ → ε → σ} {change : ε → Change ν} {fresh : ν}

theorem entry_run (entry : σ → Option ν) {view : List ε → ν}
    (hstep : ∀ s e, entry (step s e) = (change e).apply fresh (entry s))
    (hnil : view [] = fresh)
    (hconcat : ∀ told e, view (told ++ [e]) = (change e).value (view told)) {s : σ}
    (hs : entry s = none) (events : List ε) :
    entry (run step s events) =
      let told := lifetime (fun e => (change e).makes) (fun e => (change e).deletes) events
      if told = [] then none else some (view told) := by
  induction events using List.reverseRecOn with
  | nil => exact hs
  | append_singleton events e ih =>
      rw [run_append, run_cons, run_nil, hstep, ih]
      cases h : change e with
      | make f =>
          dsimp only
          rw [lifetime_concat_of_makes (by rw [h]; rfl) (by rw [h]; rfl),
            if_neg (List.concat_ne_nil e _), hconcat, h]
          split
          next hnone =>
            rw [hnone, hnil]
            rfl
          next => rfl
      | adjust f =>
          dsimp only
          rw [lifetime_concat (by rw [h]; rfl) (by rw [h]; rfl)]
          split
          next => rfl
          next =>
            rw [if_neg (List.concat_ne_nil e _), hconcat, h]
            rfl
      | delete =>
          dsimp only
          rw [lifetime_concat_of_deletes (by rw [h]; rfl)]
          rfl

end FancyMumble.Lib.Lifetimes
