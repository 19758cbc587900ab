import Mathlib.Data.Nat.Notation

/-!
# Lanes

A queue between two tasks that holds at most so many values. A sender waits for room, a
receiver for a value; what is received comes in the order in which it was sent.
-/

namespace FancyMumble.Lib.Lanes

structure Lane (α : Type) (capacity : ℕ) where
  items : List α := []
  bounded : items.length ≤ capacity := by exact Nat.zero_le _

namespace Lane

variable {α : Type} {capacity : ℕ} {lane lane' : Lane α capacity} {a : α}

def push? (lane : Lane α capacity) (a : α) : Option (Lane α capacity) :=
  if h : lane.items.length < capacity then
    some { items := lane.items ++ [a], bounded := by rw [List.length_append]; exact h }
  else none

def pop? (lane : Lane α capacity) : Option (α × Lane α capacity) :=
  match h : lane.items with
  | [] => none
  | a :: items =>
      have hbounded : items.length + 1 ≤ capacity := by
        rw [← List.length_cons (a := a), ← h]
        exact lane.bounded
      some (a, { items, bounded := Nat.le_of_succ_le hbounded })

theorem items_of_push? (h : lane.push? a = some lane') : lane'.items = lane.items ++ [a] := by
  unfold push? at h
  split at h
  next =>
    cases h
    rfl
  next => cases h

theorem items_of_pop? (h : lane.pop? = some (a, lane')) : lane.items = a :: lane'.items := by
  unfold pop? at h
  split at h
  next => cases h
  next a items hitems =>
    cases h
    exact hitems

end Lane

end FancyMumble.Lib.Lanes
