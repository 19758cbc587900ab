/-!
# Where a failed program leaves the state

A program changes the state step by step, and what it has changed before a step that fails
stays changed. `FailsTo` is the postcondition of its failures.
-/

namespace FancyMumble.Lib.Failures

variable {ε σ α β : Type}

/-- Where the program fails, the state that it leaves satisfies `Q`. -/
def FailsTo (x : EStateM ε σ α) (s : σ) (Q : σ → Prop) : Prop :=
  match x s with
  | .ok _ _ => True
  | .error _ s' => Q s'

def attempt (r : Except ε α) : EStateM ε σ α := fun s =>
  match r with
  | .ok a => .ok a s
  | .error e => .error e s

def Succeeds (r : Except ε α) : Prop := ∃ a, r = .ok a

instance (r : Except ε α) : Decidable (Succeeds r) :=
  match r with
  | .ok a => isTrue ⟨a, rfl⟩
  | .error _ => isFalse nofun

@[simp] theorem succeeds_ok (a : α) : Succeeds (.ok a : Except ε α) := ⟨a, rfl⟩

@[simp] theorem not_succeeds_error (e : ε) : ¬Succeeds (.error e : Except ε α) := nofun

@[simp] theorem succeeds_mapError {δ : Type} (f : ε → δ) (r : Except ε α) :
    Succeeds (r.mapError f) ↔ Succeeds r := by
  cases r with
  | ok a => exact iff_of_true ⟨a, rfl⟩ ⟨a, rfl⟩
  | error e => exact iff_of_false nofun nofun

variable {s : σ} {Q : σ → Prop}

theorem failsTo_attempt {r : Except ε α} :
    FailsTo (attempt r) s Q ↔ Succeeds r ∨ Q s := by
  cases r with
  | ok a => exact iff_of_true trivial (.inl ⟨a, rfl⟩)
  | error e => exact (or_iff_right nofun).symm

theorem failsTo_bind {x : EStateM ε σ α} {f : α → EStateM ε σ β} :
    FailsTo (x >>= f) s Q ↔
      FailsTo x s Q ∧ ∀ a s', x s = .ok a s' → FailsTo (f a) s' Q := by
  have hbind : (x >>= f) s = match x s with
      | .ok a s' => f a s'
      | .error e s' => .error e s' := rfl
  rw [FailsTo, FailsTo, hbind]
  cases hx : x s with
  | ok a s' =>
      rw [true_and]
      constructor
      · intro h a' s'' heq
        cases heq
        exact h
      · intro h
        exact h a s' rfl
  | error e s' => exact (and_iff_left nofun).symm

@[simp] theorem failsTo_modify_bind (g : σ → σ) {f : PUnit → EStateM ε σ β} :
    FailsTo (modify g >>= f) s Q ↔ FailsTo (f ⟨⟩) (g s) Q := Iff.rfl

@[simp] theorem failsTo_get_bind {f : σ → EStateM ε σ β} :
    FailsTo (get >>= f) s Q ↔ FailsTo (f s) s Q := Iff.rfl

theorem failsTo_attempt_bind {r : Except ε Unit} {f : Unit → EStateM ε σ β} :
    FailsTo (attempt r >>= f) s Q ↔
      (Succeeds r ∨ Q s) ∧ (Succeeds r → FailsTo (f ()) s Q) := by
  rw [failsTo_bind, failsTo_attempt]
  refine and_congr_right fun _ => ?_
  cases r with
  | ok a =>
      refine ⟨fun h _ => h () s rfl, fun h a' s' heq => ?_⟩
      cases heq
      exact h ⟨a, rfl⟩
  | error e => exact iff_of_true nofun nofun

end FancyMumble.Lib.Failures
