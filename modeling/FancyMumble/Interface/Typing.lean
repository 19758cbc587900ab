import FancyMumble.Lib.Runs
import Mathlib.Algebra.Order.Ring.Nat
import Mathlib.Data.Finset.Basic

/-!
# Typing indicators

Every typing event shows its user as typing and starts a timer of its own, which takes the
indication away five seconds later. No timer is ever cancelled.
-/

namespace FancyMumble.Interface.Typing

open Lib.Runs

structure Timer where
  session : UInt32
  channelId : UInt32
  due : ℕ
deriving DecidableEq

/-- `typingUsers` of the store, with the clock in milliseconds. -/
structure Store where
  now : ℕ := 0
  typingUsers : UInt32 → Option (Finset UInt32) := fun _ => none
  timers : List Timer := []
  /-- What really happened: the last typing event of a user in a channel, unless a message of
  the user has come there since. -/
  lastTyping : UInt32 → UInt32 → Option ℕ := fun _ _ => none

namespace Store

def expiry : ℕ := 5000

def setOrDelete (self : Store) (channelId : UInt32) (updated : Finset UInt32) : Store :=
  { self with
    typingUsers :=
      Function.update self.typingUsers channelId (if updated = ∅ then none else some updated) }

def typingIndicator (self : Store) (session channelId : UInt32) : Store :=
  { self with
    typingUsers :=
      Function.update self.typingUsers channelId
        (some (insert session ((self.typingUsers channelId).getD ∅)))
    timers := self.timers ++ [⟨session, channelId, self.now + expiry⟩]
    lastTyping :=
      Function.update self.lastTyping channelId
        (Function.update (self.lastTyping channelId) session (some self.now)) }

def expire (self : Store) (session channelId : UInt32) : Store :=
  match self.typingUsers channelId with
  | none => self
  | some channelSet => self.setOrDelete channelId (channelSet.erase session)

def newMessage (self : Store) (channelId : UInt32) (senderSession : Option UInt32) : Store :=
  match senderSession with
  | none => self
  | some session =>
      let cleared :=
        match self.typingUsers channelId with
        | none => self
        | some channelSet =>
            if session ∈ channelSet then
              self.setOrDelete channelId (channelSet.erase session)
            else self
      { cleared with
        lastTyping :=
          Function.update self.lastTyping channelId
            (Function.update (self.lastTyping channelId) session none) }

def fire (self : Store) (i : ℕ) : Store :=
  match self.timers[i]? with
  | none => self
  | some timer =>
      if timer.due ≤ self.now then
        { self.expire timer.session timer.channelId with timers := self.timers.eraseIdx i }
      else self

end Store

inductive Event where
  | elapse (milliseconds : ℕ)
  | typingIndicator (session channelId : UInt32)
  | newMessage (channelId : UInt32) (senderSession : Option UInt32)
  | fire (i : ℕ)

def step (self : Store) : Event → Store
  | .elapse milliseconds => { self with now := self.now + milliseconds }
  | .typingIndicator session channelId => self.typingIndicator session channelId
  | .newMessage channelId senderSession => self.newMessage channelId senderSession
  | .fire i => self.fire i

namespace Store

variable {s : Store} {session session' channelId channelId' : UInt32}

/-! ## Who is shown -/

def Shown (s : Store) (session channelId : UInt32) : Prop :=
  session ∈ (s.typingUsers channelId).getD ∅

instance decidableShown (s : Store) (session channelId : UInt32) :
    Decidable (s.Shown session channelId) :=
  inferInstanceAs (Decidable (session ∈ (s.typingUsers channelId).getD ∅))

/-- Less than five seconds have passed since the last typing event of a user in a channel, and
no message of the user has come there since. -/
def Recent (s : Store) (session channelId : UInt32) : Prop :=
  ∃ time, s.lastTyping channelId session = some time ∧ s.now < time + expiry

/-- Exactly the users who have typed recently are shown, but for those whose time is up and
whose timer is about to run. -/
def ShownRight (s : Store) : Prop :=
  ∀ session channelId, (s.Recent session channelId → s.Shown session channelId) ∧
    (s.Shown session channelId → s.Recent session channelId ∨
      ∃ timer ∈ s.timers, timer.session = session ∧ timer.channelId = channelId ∧
        timer.due ≤ s.now)

theorem shown_setOrDelete (updated : Finset UInt32) :
    (s.setOrDelete channelId updated).Shown session channelId' ↔
      if channelId' = channelId then session ∈ updated else s.Shown session channelId' := by
  unfold Shown setOrDelete
  by_cases hchannel : channelId' = channelId
  · subst hchannel
    by_cases hempty : updated = ∅
    · simp [hempty]
    · simp [hempty]
  · simp [hchannel]

theorem shown_expire :
    (s.expire session channelId).Shown session' channelId' ↔
      s.Shown session' channelId' ∧ ¬(session' = session ∧ channelId' = channelId) := by
  unfold expire
  cases hset : s.typingUsers channelId with
  | none =>
      refine (and_iff_left_of_imp ?_).symm
      rintro hshown ⟨-, rfl⟩
      simp [Shown, hset] at hshown
  | some channelSet =>
      rw [shown_setOrDelete]
      by_cases hchannel : channelId' = channelId
      · subst hchannel
        simp [Shown, hset, and_comm]
      · simp [hchannel]

theorem shown_typingIndicator :
    (s.typingIndicator session channelId).Shown session' channelId' ↔
      s.Shown session' channelId' ∨ session' = session ∧ channelId' = channelId := by
  unfold Shown typingIndicator
  by_cases hchannel : channelId' = channelId
  · subst hchannel
    simp [or_comm]
  · simp [hchannel]

theorem shown_newMessage :
    (s.newMessage channelId (some session)).Shown session' channelId' ↔
      s.Shown session' channelId' ∧ ¬(session' = session ∧ channelId' = channelId) := by
  rw [← shown_expire]
  unfold newMessage expire
  cases hset : s.typingUsers channelId with
  | none => exact Iff.rfl
  | some channelSet =>
      dsimp only
      split
      next => exact Iff.rfl
      next hnot =>
        rw [shown_setOrDelete, Finset.erase_eq_of_notMem hnot]
        show s.Shown session' channelId' ↔ _
        split
        next hchannel => simp [Shown, hchannel, hset]
        next => exact Iff.rfl

theorem lastTyping_typingIndicator :
    (s.typingIndicator session channelId).lastTyping channelId' session' =
      if session' = session ∧ channelId' = channelId then some s.now
      else s.lastTyping channelId' session' := by
  unfold typingIndicator
  by_cases hchannel : channelId' = channelId
  · subst hchannel
    by_cases hsession : session' = session
    · simp [hsession]
    · simp [hsession]
  · simp [hchannel]

theorem lastTyping_newMessage :
    (s.newMessage channelId (some session)).lastTyping channelId' session' =
      if session' = session ∧ channelId' = channelId then none
      else s.lastTyping channelId' session' := by
  unfold newMessage
  by_cases hchannel : channelId' = channelId
  · subst hchannel
    by_cases hsession : session' = session
    · simp [hsession]
    · simp [hsession]
  · simp [hchannel]

@[simp] theorem now_newMessage (sender : Option UInt32) :
    (s.newMessage channelId sender).now = s.now := by
  unfold newMessage setOrDelete
  repeat' split
  all_goals rfl

@[simp] theorem timers_newMessage (sender : Option UInt32) :
    (s.newMessage channelId sender).timers = s.timers := by
  unfold newMessage setOrDelete
  repeat' split
  all_goals rfl

@[simp] theorem now_expire : (s.expire session channelId).now = s.now := by
  unfold expire
  split
  · rfl
  · rfl

@[simp] theorem lastTyping_expire : (s.expire session channelId).lastTyping = s.lastTyping := by
  unfold expire
  split
  · rfl
  · rfl

/-! ## Timers -/

def Timed (s : Store) : Prop :=
  ∀ session channelId, s.Shown session channelId → ∃ time,
    s.lastTyping channelId session = some time ∧
      ⟨session, channelId, time + expiry⟩ ∈ s.timers

theorem fire_cases (s : Store) (i : ℕ) :
    (s.fire i = s ∧ ∀ timer, s.timers[i]? = some timer → ¬timer.due ≤ s.now) ∨
      ∃ timer, s.timers[i]? = some timer ∧ timer.due ≤ s.now ∧ s.fire i =
        { s.expire timer.session timer.channelId with timers := s.timers.eraseIdx i } := by
  unfold fire
  cases htimer : s.timers[i]? with
  | none => exact .inl ⟨rfl, nofun⟩
  | some timer =>
      dsimp only
      split
      next hdue => exact .inr ⟨timer, rfl, hdue, rfl⟩
      next hnot =>
        refine .inl ⟨rfl, ?_⟩
        rintro _ ⟨⟩
        exact hnot

theorem mem_eraseIdx_of_ne {timers : List Timer} {i : ℕ} {timer timer' : Timer}
    (htimer : timers[i]? = some timer) (hmem : timer' ∈ timers) (hne : timer' ≠ timer) :
    timer' ∈ timers.eraseIdx i := by
  obtain ⟨j, hj⟩ := List.mem_iff_getElem?.mp hmem
  refine List.mem_eraseIdx_iff_getElem?.mpr ⟨j, ?_, hj⟩
  rintro rfl
  exact hne (Option.some.inj (hj.symm.trans htimer))

theorem timed_step (h : s.Timed) (event : Event) : (step s event).Timed := by
  cases event with
  | elapse milliseconds => exact h
  | typingIndicator session channelId =>
      intro session' channelId' hshown
      show ∃ time, (s.typingIndicator session channelId).lastTyping channelId' session' =
        some time ∧ _ ∈ s.timers ++ [_]
      rw [lastTyping_typingIndicator]
      by_cases hself : session' = session ∧ channelId' = channelId
      · obtain ⟨rfl, rfl⟩ := hself
        exact ⟨s.now, by simp, by simp⟩
      · obtain ⟨time, hlast, htimer⟩ :=
          h session' channelId' ((shown_typingIndicator.mp hshown).resolve_right hself)
        rw [if_neg hself]
        exact ⟨time, hlast, List.mem_append_left _ htimer⟩
  | newMessage channelId senderSession =>
      cases senderSession with
      | none => exact h
      | some session =>
          intro session' channelId' hshown
          obtain ⟨hshown, hother⟩ := shown_newMessage.mp hshown
          show ∃ time, (s.newMessage channelId (some session)).lastTyping channelId' session' =
            some time ∧ _ ∈ (s.newMessage channelId (some session)).timers
          rw [lastTyping_newMessage, if_neg hother, timers_newMessage]
          exact h session' channelId' hshown
  | fire i =>
      show (s.fire i).Timed
      rcases s.fire_cases i with ⟨hsame, -⟩ | ⟨timer, htimer, -, hfire⟩
      · rw [hsame]
        exact h
      · rw [hfire]
        intro session' channelId' hshown
        obtain ⟨hshown, hother⟩ := shown_expire.mp hshown
        obtain ⟨time, hlast, hmem⟩ := h session' channelId' hshown
        refine ⟨time, by simpa using hlast, mem_eraseIdx_of_ne htimer hmem ?_⟩
        rintro rfl
        exact hother ⟨rfl, rfl⟩

theorem shownRight_iff (h : s.Timed) :
    s.ShownRight ↔ ∀ session channelId, s.Recent session channelId →
      s.Shown session channelId := by
  constructor
  · intro hright session channelId
    exact (hright session channelId).1
  · intro hshown session channelId
    refine ⟨hshown session channelId, fun hthere => ?_⟩
    obtain ⟨time, hlast, htimer⟩ := h session channelId hthere
    by_cases hrecent : s.now < time + expiry
    · exact .inl ⟨time, hlast, hrecent⟩
    · exact .inr ⟨_, htimer, rfl, rfl, Nat.le_of_not_lt hrecent⟩

/-- No timer runs while a newer indication of its user is to be shown. -/
def Unrenewed (s : Store) : Event → Prop
  | .fire i => ∀ timer, s.timers[i]? = some timer → timer.due ≤ s.now →
      ¬s.Recent timer.session timer.channelId
  | _ => True

theorem shownRight_fire_iff (h : s.Timed) (hright : s.ShownRight) (i : ℕ) :
    (s.fire i).ShownRight ↔ s.Unrenewed (.fire i) := by
  have hshown := (shownRight_iff h).mp hright
  rcases s.fire_cases i with ⟨hsame, hnot⟩ | ⟨timer, htimer, hdue, hfire⟩
  · rw [hsame]
    exact iff_of_true hright fun timer htimer hdue => absurd hdue (hnot timer htimer)
  · have htimed : (s.fire i).Timed := timed_step h (.fire i)
    rw [shownRight_iff htimed, hfire]
    have hrecent : ∀ session channelId,
        Recent { s.expire timer.session timer.channelId with timers := s.timers.eraseIdx i }
          session channelId ↔ s.Recent session channelId := by
      intro session channelId
      simp [Recent]
    constructor
    · rintro hall _ htimer' - hnew
      cases htimer.symm.trans htimer'
      have hcleared := hall timer.session timer.channelId ((hrecent _ _).mpr hnew)
      exact (shown_expire.mp hcleared).2 ⟨rfl, rfl⟩
    · intro hunrenewed session channelId hnew
      have hold := (hrecent session channelId).mp hnew
      refine shown_expire.mpr ⟨hshown session channelId hold, ?_⟩
      rintro ⟨rfl, rfl⟩
      exact hunrenewed timer htimer hdue hold

theorem shownRight_step_iff (h : s.Timed) (hright : s.ShownRight) (event : Event) :
    (step s event).ShownRight ↔ s.Unrenewed event := by
  cases event with
  | fire i => exact shownRight_fire_iff h hright i
  | elapse milliseconds =>
      refine iff_of_true ((shownRight_iff (timed_step h _)).mpr ?_) trivial
      rintro session channelId ⟨time, hlast, hrecent⟩
      have hrecent : s.now + milliseconds < time + expiry := hrecent
      exact (shownRight_iff h).mp hright session channelId ⟨time, hlast, by omega⟩
  | typingIndicator session channelId =>
      refine iff_of_true ((shownRight_iff (timed_step h _)).mpr ?_) trivial
      intro session' channelId' hrecent
      refine shown_typingIndicator.mpr ?_
      by_cases hself : session' = session ∧ channelId' = channelId
      · exact .inr hself
      · obtain ⟨time, hlast, hnow⟩ := hrecent
        have hlast : (s.typingIndicator session channelId).lastTyping channelId' session' =
          some time := hlast
        rw [lastTyping_typingIndicator, if_neg hself] at hlast
        exact .inl ((shownRight_iff h).mp hright session' channelId' ⟨time, hlast, hnow⟩)
  | newMessage channelId senderSession =>
      refine iff_of_true ?_ trivial
      cases senderSession with
      | none => exact hright
      | some session =>
          refine (shownRight_iff (timed_step h _)).mpr ?_
          rintro session' channelId' ⟨time, hlast, hnow⟩
          have hlast : (s.newMessage channelId (some session)).lastTyping channelId' session' =
            some time := hlast
          rw [lastTyping_newMessage] at hlast
          obtain ⟨hother, hlast⟩ := Option.ite_none_left_eq_some.mp hlast
          have hnow : (s.newMessage channelId (some session)).now < time + expiry := hnow
          rw [now_newMessage] at hnow
          refine shown_newMessage.mpr ⟨?_, hother⟩
          exact (shownRight_iff h).mp hright session' channelId' ⟨time, hlast, hnow⟩

end Store

/-- In every run the right users are shown exactly when no timer runs while a newer indication
of its user is to be shown. -/
theorem typing_run_iff (events : List Event) :
    Along step (fun s event => (step s event).ShownRight) {} events ↔
      Along step Store.Unrenewed {} events := by
  have hstart : Store.Timed {} ∧ Store.ShownRight {} := by
    have htimed : Store.Timed {} := fun _ _ hshown => absurd hshown (Finset.notMem_empty _)
    refine ⟨htimed, (Store.shownRight_iff htimed).mpr ?_⟩
    rintro session channelId ⟨time, hlast, -⟩
    cases hlast
  exact along_iff_of_invariant
    (fun s event (h : s.Timed ∧ s.ShownRight) => Store.shownRight_step_iff h.1 h.2 event)
    (fun s event h hunrenewed => ⟨Store.timed_step h.1 event,
      (Store.shownRight_step_iff h.1 h.2 event).mpr hunrenewed⟩) hstart

/-- A user who types on for three seconds is shown for two more. -/
theorem older_timer_clears :
    ¬∀ events, Along step (fun s event => (step s event).ShownRight) {} events := by
  intro hall
  obtain ⟨-, -, -, -, hright, -⟩ := hall
    [.typingIndicator 1 0, .elapse 3000, .typingIndicator 1 0, .elapse 2000, .fire 0]
  exact absurd ((hright 1 0).1 ⟨3000, by decide, by decide⟩) (by decide)

end FancyMumble.Interface.Typing
