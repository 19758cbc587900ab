import Mathlib.Computability.DFA

/-!
# Bursts

A line of marks in bursts: a burst is one or more body marks and the mark that ends
it, and between two bursts there are only gaps.
-/

namespace FancyMumble.Lib.Bursts

inductive Mark where
  | body
  | last
  | gap
deriving DecidableEq

/-- The automaton of the lines in bursts: whether a burst is open, or `none` after a
mark that is out of place. -/
def bursts : DFA Mark (Option Bool) where
  step
    | none, _ => none
    | some _, .body => some true
    | some true, .last => some false
    | some false, .last => none
    | some true, .gap => none
    | some false, .gap => some false
  start := some false
  accept := { state | state.isSome }

def Formed (line : List Mark) : Prop := line ∈ bursts.accepts

def Open (line : List Mark) : Prop := bursts.eval line = some true

def Closed (line : List Mark) : Prop := bursts.eval line = some false

theorem formed_iff (line : List Mark) : Formed line ↔ (bursts.eval line).isSome := Iff.rfl

instance (line : List Mark) : Decidable (Formed line) :=
  decidable_of_iff _ (formed_iff line).symm

instance (line : List Mark) : Decidable (Open line) :=
  inferInstanceAs (Decidable (bursts.eval line = some true))

instance (line : List Mark) : Decidable (Closed line) :=
  inferInstanceAs (Decidable (bursts.eval line = some false))

@[simp] theorem closed_nil : Closed [] := rfl

theorem formed_iff_open_or_closed {line : List Mark} :
    Formed line ↔ Open line ∨ Closed line := by
  rw [formed_iff, Open, Closed]
  cases bursts.eval line with
  | none => simp
  | some isOpen => cases isOpen <;> simp

theorem Closed.formed {line : List Mark} (h : Closed line) : Formed line :=
  formed_iff_open_or_closed.mpr (.inr h)

theorem Open.formed {line : List Mark} (h : Open line) : Formed line :=
  formed_iff_open_or_closed.mpr (.inl h)

theorem Open.not_closed {line : List Mark} (h : Open line) : ¬ Closed line := by
  intro hclosed
  cases h.symm.trans hclosed

theorem Formed.closed_of_not_open {line : List Mark} (h : Formed line) (hopen : ¬ Open line) :
    Closed line :=
  (formed_iff_open_or_closed.mp h).resolve_left hopen

@[simp] theorem evalFrom_none (marks : List Mark) : bursts.evalFrom none marks = none := by
  induction marks with
  | nil => rfl
  | cons mark marks ih => exact ih

theorem eval_append (line rest : List Mark) :
    bursts.eval (line ++ rest) = bursts.evalFrom (bursts.eval line) rest :=
  bursts.evalFrom_of_append _ _ _

theorem formed_of_append {line rest : List Mark} (h : Formed (line ++ rest)) : Formed line := by
  rw [formed_iff, eval_append] at h
  rw [formed_iff]
  cases hstate : bursts.eval line with
  | none =>
      rw [hstate, evalFrom_none] at h
      cases h
  | some isOpen => rfl

/-! ## What may come next -/

theorem open_body {line : List Mark} (h : Formed line) : Open (line ++ [.body]) := by
  rw [Open, DFA.eval_append_singleton]
  rcases formed_iff_open_or_closed.mp h with hopen | hclosed
  · rw [hopen]
    rfl
  · rw [hclosed]
    rfl

theorem formed_last_iff {line : List Mark} (h : Formed line) :
    Formed (line ++ [.last]) ↔ Open line := by
  rw [formed_iff, DFA.eval_append_singleton, Open]
  rcases formed_iff_open_or_closed.mp h with hopen | hclosed
  · rw [hopen]
    exact iff_of_true rfl rfl
  · rw [hclosed]
    exact iff_of_false (fun h => nomatch h) (fun h => nomatch h)

theorem closed_last {line : List Mark} (h : Open line) : Closed (line ++ [.last]) := by
  rw [Closed, DFA.eval_append_singleton, h]
  rfl

theorem formed_gap_iff {line : List Mark} (h : Formed line) :
    Formed (line ++ [.gap]) ↔ ¬ Open line := by
  rw [formed_iff, DFA.eval_append_singleton, Open]
  rcases formed_iff_open_or_closed.mp h with hopen | hclosed
  · rw [hopen]
    exact iff_of_false (fun h => nomatch h) (fun h => h rfl)
  · rw [hclosed]
    exact iff_of_true rfl (fun h => nomatch h)

theorem closed_gap {line : List Mark} (h : Closed line) : Closed (line ++ [.gap]) := by
  rw [Closed, DFA.eval_append_singleton, h]
  rfl

theorem closed_of_gap {line : List Mark} (h : Formed (line ++ [.gap])) :
    Closed (line ++ [.gap]) := by
  have hline := formed_of_append h
  exact closed_gap (hline.closed_of_not_open ((formed_gap_iff hline).mp h))

theorem closed_of_last {line : List Mark} (h : Formed (line ++ [.last])) :
    Closed (line ++ [.last]) :=
  closed_last ((formed_last_iff (formed_of_append h)).mp h)

/-! ## Marks that are lost -/

theorem evalFrom_closed {rest : List Mark} (hrest : (bursts.evalFrom (some true) rest).isSome)
    (hhead : rest.head? ≠ some .last) (hne : rest ≠ []) :
    bursts.evalFrom (some false) rest = bursts.evalFrom (some true) rest := by
  cases rest with
  | nil => exact absurd rfl hne
  | cons mark rest =>
      cases mark with
      | body => rfl
      | last => exact absurd rfl hhead
      | gap =>
          have hdead : bursts.evalFrom (some true) (.gap :: rest) = none := evalFrom_none rest
          rw [hdead] at hrest
          cases hrest

theorem formed_drop_body_iff {line rest : List Mark} (h : Formed (line ++ .body :: rest)) :
    Formed (line ++ rest) ↔ (rest.head? = some .last → Open line) := by
  have hline := formed_of_append h
  rw [formed_iff, eval_append] at h ⊢
  rcases formed_iff_open_or_closed.mp hline with hopen | hclosed
  · rw [hopen] at h ⊢
    exact iff_of_true h fun _ => hopen
  · rw [hclosed] at h ⊢
    have hrest : (bursts.evalFrom (some true) rest).isSome := h
    by_cases hlast : rest.head? = some .last
    · refine iff_of_false ?_ fun hyes => (hyes hlast).not_closed hclosed
      obtain ⟨rest, rfl⟩ := List.head?_eq_some_iff.mp hlast
      have hdead : bursts.evalFrom (some false) (.last :: rest) = none := evalFrom_none rest
      rw [hdead]
      exact Bool.false_ne_true
    · refine iff_of_true ?_ fun hyes => absurd hyes hlast
      by_cases hne : rest = []
      · rw [hne]
        rfl
      · rw [evalFrom_closed hrest hlast hne]
        exact hrest

theorem closed_drop_body {line rest : List Mark} (h : Closed (line ++ .body :: rest))
    (hkept : Formed (line ++ rest)) : Closed (line ++ rest) := by
  have hlast := (formed_drop_body_iff h.formed).mp hkept
  have hline := formed_of_append h.formed
  have hall := h
  rw [Closed, eval_append] at h ⊢
  rcases formed_iff_open_or_closed.mp hline with hopen | hclosed
  · rw [hopen] at h ⊢
    exact h
  · have hrest : bursts.evalFrom (some true) rest = some false := by
      rw [hclosed] at h
      exact h
    have hne : rest ≠ [] := by
      rintro rfl
      cases hrest
    rw [hclosed, evalFrom_closed (by rw [hrest]; rfl) ?_ hne]
    · exact hrest
    · exact fun hhead => (hlast hhead).not_closed hclosed

theorem not_formed_gap_of_last {line rest : List Mark} (h : Formed (line ++ .last :: rest)) :
    ¬ Formed (line ++ .gap :: rest) := by
  rw [List.append_cons] at h
  have hopen := (formed_last_iff (formed_of_append (formed_of_append h))).mp (formed_of_append h)
  intro hgap
  rw [List.append_cons] at hgap
  exact (formed_gap_iff hopen.formed).mp (formed_of_append hgap) hopen

/-! ## The order of the marks -/

/-- What a mark may follow: an end follows a body mark, a gap does not. -/
def Follows : Mark → Mark → Prop
  | _, .body => True
  | previous, .last => previous = .body
  | previous, .gap => previous ≠ .body

/-- A line is in bursts when every end comes right after a body mark and no gap does. -/
theorem formed_iff_isChain (line : List Mark) :
    Formed line ↔ List.IsChain Follows (.gap :: line) := by
  have hstate : ∀ (rest : List Mark) (previous : Mark),
      (bursts.evalFrom (some (decide (previous = .body))) rest).isSome ↔
        List.IsChain Follows (previous :: rest) := by
    intro rest
    induction rest with
    | nil => exact fun _ => iff_of_true rfl (List.isChain_singleton _)
    | cons mark rest ih =>
        intro previous
        rw [List.isChain_cons_cons, ← ih mark, DFA.evalFrom_cons]
        by_cases hbody : previous = .body
        · subst hbody
          cases mark with
          | body => exact (and_iff_right trivial).symm
          | last => exact (and_iff_right rfl).symm
          | gap =>
              refine iff_of_false ?_ fun h => h.1 rfl
              show ¬ (bursts.evalFrom none rest).isSome
              rw [evalFrom_none]
              exact Bool.false_ne_true
        · rw [decide_eq_false hbody]
          cases mark with
          | body => exact (and_iff_right trivial).symm
          | last =>
              refine iff_of_false ?_ fun h => hbody h.1
              show ¬ (bursts.evalFrom none rest).isSome
              rw [evalFrom_none]
              exact Bool.false_ne_true
          | gap => exact (and_iff_right hbody).symm
  exact hstate line .gap

end FancyMumble.Lib.Bursts
