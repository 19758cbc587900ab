import FancyMumble.Lib.Runs
import Mathlib.Data.List.Nodup

/-!
# Acknowledgements of deletes

A request to delete messages registers the sending half of a channel and waits for the
acknowledgement of the server, which may come in any order with those of other requests
and operations. An acknowledgement does not say which request it is for: it is given to all
that are registered.
-/

namespace FancyMumble.Messages

open Lib.Runs

structure DeleteAckResult where
  success : Bool
  reason : Option String
deriving DecidableEq

structure PchatAck where
  messageIds : List String := []
  status : Option Int32 := none
  reason : Option String := none
  channelId : Option UInt32 := none
deriving DecidableEq

def PchatAck.isDeleted (ack : PchatAck) : Bool := ack.status.getD 0 == 3

def PchatAck.isRejected (ack : PchatAck) : Bool :=
  ack.status.getD 0 == 1 || ack.status.getD 0 == 2

def PchatAck.resolves (ack : PchatAck) : Bool := ack.isDeleted || ack.isRejected

inductive Outcome where
  | notConnected
  | sendFailed (e : String)
  | acknowledged (result : DeleteAckResult)
  | timedOut
deriving DecidableEq

def Outcome.result : Outcome → Except String Unit
  | .notConnected => .error "Not connected"
  | .sendFailed e => .error ("Failed to send pchat delete: " ++ e)
  | .acknowledged { success := true, .. } => .ok ()
  | .acknowledged { success := false, reason } =>
      .error ("Server rejected deletion: " ++ reason.getD "permission denied")
  | .timedOut => .error "Delete request timed out"

/-- A call of `delete_pchat_messages`: its message is being sent, while an acknowledgement
may already have come, or it waits for one. -/
inductive DeleteCall where
  | idle
  | sending (received : Option DeleteAckResult)
  | waiting
  | finished (outcome : Outcome)
deriving DecidableEq

namespace DeleteCall

def isOpen : DeleteCall → Bool
  | .sending none => true
  | .waiting => true
  | _ => false

def isSettled : DeleteCall → Bool
  | .sending (some _) => true
  | .finished (.acknowledged _) => true
  | .finished .timedOut => true
  | _ => false

def receive (result : DeleteAckResult) : DeleteCall → DeleteCall
  | .sending none => .sending (some result)
  | .waiting => .finished (.acknowledged result)
  | call => call

def sent (result : Except String Unit) : DeleteCall → DeleteCall
  | .sending received =>
      match result, received with
      | .error e, _ => .finished (.sendFailed e)
      | .ok (), some result => .finished (.acknowledged result)
      | .ok (), none => .waiting
  | call => call

def timeout : DeleteCall → DeleteCall
  | .waiting => .finished .timedOut
  | call => call

end DeleteCall

/-- The deletes of a connection. Calls have numbers; which calls were resolved, and by an
acknowledgement for which call, is recorded for the statements only. -/
structure DeleteState where
  pendingDeleteAcks : List ℕ := []
  calls : ℕ → DeleteCall := fun _ => .idle
  count : ℕ := 0
  resolved : List (ℕ × Option ℕ) := []

/-- What can happen, in any order. The server knows which delete it sends an
acknowledgement for, if it is one for a delete. -/
inductive DeleteEvent where
  | request (connected : Bool)
  | sent (id : ℕ) (result : Except String Unit)
  | ack (msg : PchatAck) (answers : Option ℕ)
  | timeout (id : ℕ)

namespace DeleteState

def handleAck (msg : PchatAck) (answers : Option ℕ) (s : DeleteState) : DeleteState :=
  if msg.resolves then
    let senders := s.pendingDeleteAcks
    { s with
      pendingDeleteAcks := []
      calls := fun id =>
        if id ∈ senders then (s.calls id).receive { success := msg.isDeleted, reason := msg.reason }
        else s.calls id
      resolved := s.resolved ++
        (senders.filter fun id => (s.calls id).isOpen).map fun id => (id, answers) }
  else s

def step (s : DeleteState) : DeleteEvent → DeleteState
  | .request connected =>
      if connected then
        { s with
          pendingDeleteAcks := s.pendingDeleteAcks ++ [s.count]
          calls := Function.update s.calls s.count (.sending none)
          count := s.count + 1 }
      else
        { s with
          calls := Function.update s.calls s.count (.finished .notConnected)
          count := s.count + 1 }
  | .sent id result => { s with calls := Function.update s.calls id ((s.calls id).sent result) }
  | .ack msg answers => s.handleAck msg answers
  | .timeout id => { s with calls := Function.update s.calls id (s.calls id).timeout }

/-! ## Reaching the right request -/

/-- A delete was resolved at most once, by the acknowledgement for it, and none is registered
that was resolved or timed out. -/
structure ResolvesOwn (s : DeleteState) : Prop where
  once : (s.resolved.map Prod.fst).Nodup
  own : ∀ entry ∈ s.resolved, entry.2 = some entry.1
  registered : ∀ id ∈ s.pendingDeleteAcks, (s.calls id).isSettled = false

/-- An acknowledgement comes while no other delete than its own waits for one, and no delete
that waits runs out of time. -/
def AnswersOnlyPending (s : DeleteState) : DeleteEvent → Prop
  | .ack msg answers =>
      msg.resolves = true → ∀ id ∈ s.pendingDeleteAcks, (s.calls id).isOpen = true →
        answers = some id
  | .timeout id => s.calls id ≠ .waiting
  | _ => True

/-- What a call may be, by whether it is registered, was resolved, or is still to come. -/
structure CallSound (registered resolved toCome : Prop) (call : DeleteCall) : Prop where
  unsettled : registered → call.isSettled = false
  started : registered ∨ resolved → call ≠ .idle
  waits : call.isOpen = true → registered
  closed : resolved → call.isOpen = false
  idle : toCome → call = .idle

/-- What holds besides in every run: calls that wait are registered, once. -/
structure Sound (s : DeleteState) : Prop where
  once : (s.resolved.map Prod.fst).Nodup
  own : ∀ entry ∈ s.resolved, entry.2 = some entry.1
  nodup : s.pendingDeleteAcks.Nodup
  call : ∀ id, CallSound (id ∈ s.pendingDeleteAcks) (id ∈ s.resolved.map Prod.fst)
    (s.count ≤ id) (s.calls id)

variable {s : DeleteState}

theorem Sound.resolvesOwn (h : Sound s) : ResolvesOwn s where
  once := h.once
  own := h.own
  registered id hid := (h.call id).unsettled hid

theorem sound_initial : Sound {} where
  once := List.nodup_nil
  own := nofun
  nodup := List.nodup_nil
  call _ :=
    { unsettled := nofun
      started := fun h => h.elim nofun nofun
      waits := nofun
      closed := nofun
      idle := fun _ => rfl }

theorem Sound.count_notMem (h : Sound s) :
    s.count ∉ s.pendingDeleteAcks ∧ s.count ∉ s.resolved.map Prod.fst := by
  have hidle := (h.call s.count).idle (Nat.le_refl _)
  exact ⟨fun hmem => (h.call s.count).started (Or.inl hmem) hidle,
    fun hmem => (h.call s.count).started (Or.inr hmem) hidle⟩

theorem Sound.refuse (h : Sound s) : Sound (s.step (.request false)) where
  once := h.once
  own := h.own
  nodup := h.nodup
  call id := by
    obtain ⟨hpending, hresolved⟩ := h.count_notMem
    by_cases hnew : id = s.count
    · subst hnew
      simp only [step, Function.update_self, Bool.false_eq_true, if_false]
      exact {
        unsettled := fun hmem => absurd hmem hpending
        started := fun hmem => absurd hmem (not_or_intro hpending hresolved)
        waits := nofun
        closed := fun _ => rfl
        idle := fun hle => absurd hle (Nat.not_succ_le_self _) }
    · simp only [step, Function.update_of_ne hnew, Bool.false_eq_true, if_false]
      exact { h.call id with idle := fun hle => (h.call id).idle (Nat.le_of_succ_le hle) }

theorem Sound.register (h : Sound s) : Sound (s.step (.request true)) where
  once := h.once
  own := h.own
  nodup := h.nodup.append (List.nodup_singleton _)
    (List.disjoint_singleton.mpr h.count_notMem.1)
  call id := by
    by_cases hnew : id = s.count
    · subst hnew
      simp only [step, Function.update_self, if_true]
      exact {
        unsettled := fun _ => rfl
        started := fun _ => nofun
        waits := fun _ => List.mem_append_right _ List.mem_cons_self
        closed := fun hmem => absurd hmem h.count_notMem.2
        idle := fun hle => absurd hle (Nat.not_succ_le_self _) }
    · have hpending : id ∈ s.pendingDeleteAcks ++ [s.count] ↔ id ∈ s.pendingDeleteAcks := by
        rw [List.mem_append, List.mem_singleton, or_iff_left hnew]
      simp only [step, Function.update_of_ne hnew, if_true, hpending]
      exact { h.call id with idle := fun hle => (h.call id).idle (Nat.le_of_succ_le hle) }

theorem Sound.updateCall (h : Sound s) {id : ℕ} {call : DeleteCall}
    (hopen : call.isOpen = true → (s.calls id).isOpen = true)
    (hsettled : (s.calls id).isSettled = false → call.isSettled = false)
    (hidle : s.calls id = .idle ↔ call = .idle) :
    Sound { s with calls := Function.update s.calls id call } where
  once := h.once
  own := h.own
  nodup := h.nodup
  call other := by
    by_cases hsame : other = id
    · subst hsame
      simp only [Function.update_self]
      have hbefore := h.call other
      exact {
        unsettled := fun hmem => hsettled (hbefore.unsettled hmem)
        started := fun hmem => mt hidle.mpr (hbefore.started hmem)
        waits := fun hafter => hbefore.waits (hopen hafter)
        closed := fun hmem => Bool.eq_false_iff.mpr
          (mt hopen (Bool.eq_false_iff.mp (hbefore.closed hmem)))
        idle := fun hle => hidle.mp (hbefore.idle hle) }
    · simp only [Function.update_of_ne hsame]
      exact h.call other

theorem Sound.sent (h : Sound s) (id : ℕ) (result : Except String Unit) :
    Sound (s.step (.sent id result)) := by
  apply h.updateCall
  · cases s.calls id with
    | sending received =>
        cases result <;> cases received <;> simp [DeleteCall.sent, DeleteCall.isOpen]
    | _ => exact fun h => h
  · cases s.calls id with
    | sending received =>
        cases result <;> cases received <;> simp [DeleteCall.sent, DeleteCall.isSettled]
    | _ => exact fun h => h
  · cases s.calls id with
    | sending received =>
        cases result <;> cases received <;> simp [DeleteCall.sent]
    | _ => exact Iff.rfl

theorem isOpen_receive (result : DeleteAckResult) (call : DeleteCall) :
    (call.receive result).isOpen = false := by
  cases call with
  | sending received => cases received <;> rfl
  | _ => rfl

theorem receive_ne_idle (result : DeleteAckResult) {call : DeleteCall} (h : call ≠ .idle) :
    call.receive result ≠ .idle := by
  cases call with
  | idle => exact absurd rfl h
  | sending received => cases received <;> nofun
  | _ => nofun

/-- An acknowledgement for the only delete that waits. -/
theorem Sound.handleAck (h : Sound s) {msg : PchatAck} {answers : Option ℕ}
    (hanswers : AnswersOnlyPending s (.ack msg answers)) : Sound (s.handleAck msg answers) := by
  unfold DeleteState.handleAck
  by_cases hresolves : msg.resolves = true
  · rw [if_pos hresolves]
    have hids : ((s.pendingDeleteAcks.filter fun id => (s.calls id).isOpen).map
        fun id => (id, answers)).map Prod.fst =
          s.pendingDeleteAcks.filter fun id => (s.calls id).isOpen := by
      rw [List.map_map]
      exact List.map_id _
    exact {
      once := by
        rw [List.map_append, hids]
        refine h.once.append (h.nodup.filter _) fun id hbefore hafter => ?_
        -- a call that is still open was not resolved before
        have hopen := (List.mem_filter.mp hafter).2
        rw [(h.call id).closed hbefore] at hopen
        cases hopen
      own := by
        intro entry hentry
        rcases List.mem_append.mp hentry with hbefore | hafter
        · exact h.own entry hbefore
        · obtain ⟨id, hid, rfl⟩ := List.mem_map.mp hafter
          obtain ⟨hpending, hopen⟩ := List.mem_filter.mp hid
          exact hanswers hresolves id hpending hopen
      nodup := List.nodup_nil
      call := by
        intro id
        have hbefore := h.call id
        rw [List.map_append, hids, List.mem_append]
        by_cases hpending : id ∈ s.pendingDeleteAcks
        · simp only [if_pos hpending]
          exact {
            unsettled := nofun
            started := fun _ => receive_ne_idle _ (hbefore.started (Or.inl hpending))
            waits := fun hopen => by rw [isOpen_receive] at hopen; cases hopen
            closed := fun _ => isOpen_receive ..
            idle := fun hle => absurd (hbefore.idle hle) (hbefore.started (Or.inl hpending)) }
        · simp only [if_neg hpending]
          have hnotNew : id ∉ s.pendingDeleteAcks.filter fun id => (s.calls id).isOpen :=
            fun hmem => hpending (List.mem_of_mem_filter hmem)
          rw [or_iff_left hnotNew]
          exact {
            unsettled := nofun
            started := fun hmem => hbefore.started (Or.inr (hmem.elim nofun fun h => h))
            waits := fun hopen => absurd (hbefore.waits hopen) hpending
            closed := hbefore.closed
            idle := hbefore.idle } }
  · rw [if_neg hresolves]
    exact h

theorem Sound.timeout (h : Sound s) {id : ℕ} (hid : s.calls id ≠ .waiting) :
    Sound (s.step (.timeout id)) := by
  have hsame : (s.calls id).timeout = s.calls id := by
    cases hcall : s.calls id with
    | waiting => exact absurd hcall hid
    | _ => rfl
  rw [DeleteState.step, hsame, Function.update_eq_self]
  exact h

theorem Sound.step (h : Sound s) {event : DeleteEvent} (hevent : AnswersOnlyPending s event) :
    Sound (s.step event) := by
  cases event with
  | request connected =>
      cases connected with
      | false => exact h.refuse
      | true => exact h.register
  | sent id result => exact h.sent id result
  | ack msg answers => exact h.handleAck hevent
  | timeout id => exact h.timeout hevent

theorem answersOnlyPending_of_resolvesOwn (h : Sound s) {event : DeleteEvent}
    (hafter : ResolvesOwn (s.step event)) : AnswersOnlyPending s event := by
  cases event with
  | request connected => trivial
  | sent id result => trivial
  | ack msg answers =>
      intro hresolves id hpending hopen
      have hresolved : (id, answers) ∈ (s.step (.ack msg answers)).resolved := by
        rw [DeleteState.step, DeleteState.handleAck, if_pos hresolves]
        apply List.mem_append_right
        exact List.mem_map.mpr ⟨id, List.mem_filter.mpr ⟨hpending, hopen⟩, rfl⟩
      exact hafter.own _ hresolved
  | timeout id =>
      intro hwaiting
      have hpending : id ∈ s.pendingDeleteAcks := (h.call id).waits (by rw [hwaiting]; rfl)
      have hsettled := hafter.registered id hpending
      rw [DeleteState.step] at hsettled
      dsimp only at hsettled
      rw [Function.update_self, hwaiting] at hsettled
      cases hsettled

/-- Deletes are resolved by their own acknowledgements and do not stay registered exactly in
the runs in which each acknowledgement comes for the only delete that waits, and none
times out. -/
theorem resolvesOwn_run_iff (events : List DeleteEvent) :
    Along DeleteState.step (fun s event => ResolvesOwn (s.step event)) {} events ↔
      Along DeleteState.step AnswersOnlyPending {} events :=
  along_iff_of_invariant
    (fun _ _ h => ⟨answersOnlyPending_of_resolvesOwn h,
      fun hevent => (h.step hevent).resolvesOwn⟩)
    (fun _ _ h hevent => h.step hevent) sound_initial

/-- The rejection of a message resolves a pending delete. -/
theorem delete_resolved_by_foreign_ack :
    ¬∀ events : List DeleteEvent,
      Along DeleteState.step (fun s event => ResolvesOwn (s.step event)) {} events := by
  intro h
  have hresolves := (h [.request true, .sent 0 (.ok ()),
    .ack { messageIds := ["id"], status := some 1 } none]).2.2.1
  exact absurd (hresolves.own (0, none) (by decide)) (by decide)

end DeleteState

end FancyMumble.Messages
