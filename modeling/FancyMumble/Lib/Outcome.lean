import Mathlib.Algebra.Ring.Nat
import Mathlib.Data.List.Basic

/-!
# Calls that can panic

A call returns a value, returns an error, or panics. The operations below panic where an
index, a slice or a sum is out of range, so that a program over them panics where the code
does.
-/

namespace FancyMumble.Lib

inductive Outcome (ε α : Type) where
  | ok (value : α)
  | err (error : ε)
  | panicked
deriving DecidableEq

namespace Outcome

variable {ε α β : Type}

protected def bind (x : Outcome ε α) (f : α → Outcome ε β) : Outcome ε β :=
  match x with
  | ok a => f a
  | err e => err e
  | panicked => panicked

instance : Monad (Outcome ε) where
  pure := ok
  bind := Outcome.bind

@[simp] theorem pure_eq (a : α) : (pure a : Outcome ε α) = ok a := rfl

@[simp] theorem ok_bind (a : α) (f : α → Outcome ε β) : (ok a >>= f) = f a := rfl

@[simp] theorem err_bind (e : ε) (f : α → Outcome ε β) : (err e >>= f) = err e := rfl

@[simp] theorem panicked_bind (f : α → Outcome ε β) : (panicked >>= f) = panicked := rfl

theorem bind_eq_ok_iff {x : Outcome ε α} {f : α → Outcome ε β} {b : β} :
    (x >>= f) = ok b ↔ ∃ a, x = ok a ∧ f a = ok b := by
  cases x with
  | ok a => simp
  | err e => simp
  | panicked => simp

def NoPanic (x : Outcome ε α) : Prop := x ≠ panicked

@[simp] theorem noPanic_ok (a : α) : NoPanic (ok a : Outcome ε α) := nofun

@[simp] theorem noPanic_err (e : ε) : NoPanic (err e : Outcome ε α) := nofun

@[simp] theorem not_noPanic_panicked : ¬NoPanic (panicked : Outcome ε α) := fun h => h rfl

theorem noPanic_bind {x : Outcome ε α} {f : α → Outcome ε β} :
    NoPanic (x >>= f) ↔ NoPanic x ∧ ∀ a, x = ok a → NoPanic (f a) := by
  cases x with
  | ok a => simp
  | err e => simp
  | panicked => simp

def ofExcept {δ : Type} (f : δ → ε) : Except δ α → Outcome ε α
  | .ok a => ok a
  | .error e => err (f e)

@[simp] theorem ofExcept_ok {δ : Type} (f : δ → ε) (a : α) :
    ofExcept f (.ok a) = ok a := rfl

@[simp] theorem noPanic_ofExcept {δ : Type} (f : δ → ε) (x : Except δ α) :
    NoPanic (ofExcept f x) := by
  cases x with
  | ok a => exact noPanic_ok a
  | error e => exact noPanic_err (f e)

@[simp] theorem ofExcept_eq_ok_iff {δ : Type} {f : δ → ε} {x : Except δ α} {a : α} :
    ofExcept f x = ok a ↔ x = .ok a := by
  cases x with
  | ok b => simp [ofExcept]
  | error e => simp [ofExcept]

/-! ## Indices and slices -/

def index (xs : List α) (i : Nat) : Outcome ε α :=
  match xs[i]? with
  | some a => ok a
  | none => panicked

def sliceFrom (xs : List α) (start : Nat) : Outcome ε (List α) :=
  if start ≤ xs.length then ok (xs.drop start) else panicked

def slice (xs : List α) (start stop : Nat) : Outcome ε (List α) :=
  if start ≤ stop ∧ stop ≤ xs.length then ok ((xs.take stop).drop start) else panicked

@[simp] theorem index_cons_zero (a : α) (xs : List α) :
    (index (a :: xs) 0 : Outcome ε α) = ok a := rfl

@[simp] theorem index_cons_succ (a : α) (xs : List α) (i : Nat) :
    (index (a :: xs) (i + 1) : Outcome ε α) = index xs i := by
  simp [index]

theorem index_of_lt {xs : List α} {i : Nat} (h : i < xs.length) :
    (index xs i : Outcome ε α) = ok xs[i] := by
  rw [index, List.getElem?_eq_getElem h]

theorem noPanic_index {xs : List α} {i : Nat} :
    NoPanic (index xs i : Outcome ε α) ↔ i < xs.length := by
  constructor
  · intro h
    by_contra hge
    rw [index, List.getElem?_eq_none (Nat.le_of_not_lt hge)] at h
    exact h rfl
  · intro h
    rw [index_of_lt h]
    exact noPanic_ok _

theorem sliceFrom_of_le {xs : List α} {start : Nat} (h : start ≤ xs.length) :
    (sliceFrom xs start : Outcome ε (List α)) = ok (xs.drop start) := if_pos h

theorem slice_of_le {xs : List α} {start stop : Nat} (h : start ≤ stop)
    (hstop : stop ≤ xs.length) :
    (slice xs start stop : Outcome ε (List α)) = ok ((xs.take stop).drop start) :=
  if_pos ⟨h, hstop⟩

/-! ## Arithmetic -/

def checkedSub (a b : Nat) : Outcome ε Nat := if b ≤ a then ok (a - b) else panicked

def checkedAdd (a b : UInt64) : Outcome ε UInt64 :=
  if a.toNat + b.toNat < 2 ^ 64 then ok (a + b) else panicked

theorem checkedSub_of_le {a b : Nat} (h : b ≤ a) :
    (checkedSub a b : Outcome ε Nat) = ok (a - b) := if_pos h

end Outcome

end FancyMumble.Lib
