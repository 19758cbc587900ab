import FancyMumble.Lib.Failures
import FancyMumble.Messages.Commands

/-!
# Approvals of key shares

An approval takes the pending share out of the list first, and then looks for everything that
it takes to send the key. It tells the frontend, sends, records and reports one after the
other, without the lock in between. What is left of the share when one of these fails?
-/

namespace FancyMumble.Messages

open Client (PendingKeyShare)
open Lib.Coroutines Lib.Failures Lib.Runs
open Persistent Signal

variable {lib : Libraries}

/-! ## The locked part -/

def CommandState.withPending (state : CommandState lib) (pendingKeyShares : List PendingKeyShare) :
    CommandState lib :=
  { state with pendingKeyShares }

structure ShareCall where
  identity : Identity
  nonce : List UInt8
  now : UInt64
  channelId : UInt32
  peerCertHash : String

namespace ShareCall

variable (call : ShareCall)

def isFor (p : PendingKeyShare) : Bool :=
  p.channelId = call.channelId ∧ p.peerCertHash = call.peerCertHash

def buildExchange (state : CommandState lib) (requestId : Option String) :
    Except String PchatKeyExchange := do
  let pchat ← state.shared.pchat.elim (.error "pchat not initialised") .ok
  let peer ← (pchat.keyManager.peerKeys call.peerCertHash).elim
    (.error "peer public key not known") .ok
  let exchange ← (pchat.keyManager.distributeKey call.identity call.nonce call.channelId
    .fancyV1FullArchive 0 call.peerCertHash peer.dhPublic requestId call.now).mapError
      fun e => "failed to build key exchange: " ++ e.display
  if state.shared.clientHandle then .ok { exchange with senderHash := pchat.ownCertHash }
  else .error "not connected"

/-- The share is removed, then the exchange is built: what the frontend is to show, and the
exchange. -/
def prepare : EStateM String (CommandState lib) (List PendingKeyShare × PchatKeyExchange) := do
  let state ← get
  match state.pendingKeyShares.findIdx? call.isFor with
  | none => throw "no pending key share for this channel/peer"
  | some idx =>
      let remaining := state.pendingKeyShares.eraseIdx idx
      modify (·.withPending remaining)
      let exchange ← attempt (call.buildExchange state
        (state.pendingKeyShares[idx]?.bind PendingKeyShare.requestId))
      pure (remaining.filter fun p => p.channelId = call.channelId, exchange)

end ShareCall

/-! ## Approvals under way -/

/-- Where an approval stands. The session is the one in which the share was pending. -/
inductive ApprovalPhase where
  | called
  | emitting (ref : SessionRef) (pending : List PendingKeyShare) (exchange : PchatKeyExchange)
  | sending (ref : SessionRef) (exchange : PchatKeyExchange)
  | recording (ref : SessionRef)
  | reporting (ref : SessionRef)
  | notPending (ref : SessionRef)
  | failed (ref : SessionRef) (error : String)
  | succeeded (ref : SessionRef)

def ApprovalPhase.Ended : ApprovalPhase → Prop
  | .notPending _ | .failed _ _ | .succeeded _ => True
  | _ => False

structure Approval where
  origin : SessionRef
  call : ShareCall
  phase : ApprovalPhase := .called

/-- The sessions, what the frontend shows for each channel, the approvals, what each of them
has sent, and which have recorded a holder. -/
structure Approvals (lib : Libraries) where
  active : SessionRef := 0
  sessions : SessionRef → CommandState lib := fun _ => {}
  ui : UInt32 → List String := fun _ => []
  approvals : List Approval := []
  sent : List (ℕ × SentCommand lib) := []
  recorded : List ℕ := []

/-- What can happen, in any order. A share is queued, unless it is; shares are removed; another
handler tells the frontend; a session changes otherwise. -/
inductive ShareEvent (lib : Libraries) where
  | approve (call : ShareCall)
  | resume (i : ℕ) (answer : Except String Unit)
  | redirect (ref : SessionRef)
  | queue (ref : SessionRef) (share : PendingKeyShare)
  | retain (ref : SessionRef) (keep : PendingKeyShare → Bool)
  | emitted (channelId : UInt32) (pending : List PendingKeyShare)
  | change (ref : SessionRef) (f : CommandState lib → CommandState lib)

namespace Approvals

def showRequest (ui : UInt32 → List String) (share : PendingKeyShare) : UInt32 → List String :=
  if share.peerCertHash ∈ ui share.channelId then ui
  else Function.update ui share.channelId (ui share.channelId ++ [share.peerCertHash])

def showPending (ui : UInt32 → List String) (channelId : UInt32)
    (pending : List PendingKeyShare) : UInt32 → List String :=
  Function.update ui channelId (pending.map PendingKeyShare.peerCertHash)

def modifySession (s : Approvals lib) (ref : SessionRef)
    (f : CommandState lib → CommandState lib) : Approvals lib :=
  { s with sessions := Function.update s.sessions ref (f (s.sessions ref)) }

def queueKeyShareConsent (s : Approvals lib) (ref : SessionRef) (share : PendingKeyShare) :
    Approvals lib :=
  let pending := (s.sessions ref).pendingKeyShares
  if pending.any fun p => p.channelId = share.channelId && p.peerCertHash = share.peerCertHash then
    s
  else
    { s.modifySession ref (·.withPending (pending ++ [share])) with ui := showRequest s.ui share }

def log (s : Approvals lib) (i : ℕ) (message : SentCommand lib) : Approvals lib :=
  { s with sent := s.sent ++ [(i, message)] }

def advance (s : Approvals lib) (i : ℕ) (call : ShareCall) (answer : Except String Unit) :
    ApprovalPhase → Approvals lib × ApprovalPhase
  | .called =>
      match call.prepare (s.sessions s.active) with
      | .ok (pending, exchange) state =>
          (s.modifySession s.active fun _ => state, .emitting s.active pending exchange)
      | .error e state =>
          (s.modifySession s.active fun _ => state,
            if (s.sessions s.active).pendingKeyShares.any call.isFor then .failed s.active e
            else .notPending s.active)
  | .emitting ref pending exchange =>
      ({ s with ui := showPending s.ui call.channelId pending }, .sending ref exchange)
  | .sending ref exchange =>
      match answer with
      | .ok () => (s.log i (.pchatKeyExchange exchange), .recording ref)
      | .error e => (s, .failed ref ("send failed: " ++ e))
  | .recording ref =>
      ({ s.modifySession s.active (·.recordKeyHolder call.channelId call.peerCertHash) with
          recorded := s.recorded ++ [i] },
        .reporting ref)
  | .reporting ref =>
      match answer with
      | .ok () =>
          (s.log i (.pchatKeyHolderReport call.channelId call.peerCertHash), .succeeded ref)
      | .error _ => (s, .succeeded ref)
  | phase => (s, phase)

def resume (s : Approvals lib) (i : ℕ) (answer : Except String Unit) : Approvals lib :=
  match s.approvals[i]? with
  | some a =>
      let (after, phase) := s.advance i a.call answer a.phase
      { after with approvals := s.approvals.set i { a with phase } }
  | none => s

def step (s : Approvals lib) : ShareEvent lib → Approvals lib
  | .approve call => { s with approvals := s.approvals ++ [{ origin := s.active, call }] }
  | .resume i answer => s.resume i answer
  | .redirect ref => { s with active := ref }
  | .queue ref share => s.queueKeyShareConsent ref share
  | .retain ref keep =>
      s.modifySession ref fun state => state.withPending (state.pendingKeyShares.filter keep)
  | .emitted channelId pending => { s with ui := showPending s.ui channelId pending }
  | .change ref f =>
      s.modifySession ref fun state => (f state).withPending state.pendingKeyShares

/-! ## How an approval has to end -/

def Pending (s : Approvals lib) (ref : SessionRef) (call : ShareCall) : Prop :=
  ∃ p ∈ (s.sessions ref).pendingKeyShares, call.isFor p = true

def UiAgrees (s : Approvals lib) (ref : SessionRef) (channelId : UInt32) : Prop :=
  s.ui channelId = ((s.sessions ref).pendingKeyShares.filter fun p => p.channelId = channelId).map
    PendingKeyShare.peerCertHash

def sentBy (s : Approvals lib) (i : ℕ) : List (SentCommand lib) :=
  (s.sent.filter fun message => message.1 = i).map Prod.snd

/-- The approval has recorded no holder and sent nothing. -/
def Harmless (before after : Approvals lib) (i : ℕ) : Prop :=
  (∀ ref, (after.sessions ref).shared.pchat = (before.sessions ref).shared.pchat) ∧
    i ∉ after.recorded ∧ after.sentBy i = []

def isExchange : SentCommand lib → Bool
  | .pchatKeyExchange _ => true
  | _ => false

/-- A failed approval leaves the share pending and shown, and does no harm. A successful one has
sent one exchange, and the share is gone. -/
def EndsWell (before after : Approvals lib) (i : ℕ) (call : ShareCall) : ApprovalPhase → Prop
  | .notPending ref => Harmless before after i ∧ after.UiAgrees ref call.channelId
  | .failed ref _ =>
      Harmless before after i ∧ after.Pending ref call ∧ after.UiAgrees ref call.channelId
  | .succeeded ref => ((after.sentBy i).filter isExchange).length = 1 ∧ ¬after.Pending ref call
  | _ => True

def Lawful (s : Approvals lib) : ShareEvent lib → Prop
  | .resume i answer => ∀ a, s.approvals[i]? = some a → ¬a.phase.Ended →
      EndsWell s (s.resume i answer) i a.call (s.advance i a.call answer a.phase).2
  | _ => True

/-! ## When it does -/

def Ready (state : CommandState lib) (call : ShareCall) : Prop :=
  ∃ pchat peer exchange, state.shared.pchat = some pchat ∧
    pchat.keyManager.peerKeys call.peerCertHash = some peer ∧
    pchat.keyManager.distributeKey call.identity call.nonce call.channelId .fancyV1FullArchive 0
      call.peerCertHash peer.dhPublic
      ((state.pendingKeyShares.find? call.isFor).bind PendingKeyShare.requestId) call.now =
        .ok exchange ∧
    state.shared.clientHandle = true

/-- An approval that finds its share finds all that it takes, and what it sends is taken, unless
the share was queued and shown again. When the report is sent, the share was not queued
again. -/
def Meets (s : Approvals lib) : ShareEvent lib → Prop
  | .resume i answer => ∀ a, s.approvals[i]? = some a →
      match a.phase with
      | .called =>
          (s.Pending s.active a.call → Ready (s.sessions s.active) a.call) ∧
            (¬s.Pending s.active a.call → s.UiAgrees s.active a.call.channelId)
      | .sending ref _ =>
          answer = .ok () ∨ (s.Pending ref a.call ∧ s.UiAgrees ref a.call.channelId)
      | .reporting ref => ¬s.Pending ref a.call
      | _ => True
  | _ => True

/-! ## The locked part -/

variable {s : Approvals lib} {call : ShareCall} {state : CommandState lib}

theorem isFor_iff {p : PendingKeyShare} :
    call.isFor p = true ↔ (p.channelId, p.peerCertHash) = (call.channelId, call.peerCertHash) := by
  rw [ShareCall.isFor, decide_eq_true_iff, Prod.mk.injEq]

theorem succeeds_buildExchange_iff :
    Succeeds (call.buildExchange state
        ((state.pendingKeyShares.find? call.isFor).bind PendingKeyShare.requestId)) ↔
      Ready state call := by
  unfold ShareCall.buildExchange Ready Succeeds
  cases hpchat : state.shared.pchat with
  | none => simp [bind, Except.bind]
  | some pchat =>
      cases hpeer : pchat.keyManager.peerKeys call.peerCertHash with
      | none => simp [bind, Except.bind, hpeer]
      | some peer =>
          cases hdistribute : pchat.keyManager.distributeKey call.identity call.nonce
              call.channelId .fancyV1FullArchive 0 call.peerCertHash peer.dhPublic
              ((state.pendingKeyShares.find? call.isFor).bind PendingKeyShare.requestId)
              call.now with
          | error e => simp [bind, Except.bind, Except.mapError, hpeer, hdistribute]
          | ok exchange =>
              cases hconnected : state.shared.clientHandle with
              | true => simp [bind, Except.bind, Except.mapError, hpeer, hdistribute]
              | false => simp [bind, Except.bind, Except.mapError, hpeer, hdistribute]

theorem prepare_of_not_pending (h : ∀ p ∈ state.pendingKeyShares, call.isFor p = false) :
    call.prepare state = .error "no pending key share for this channel/peer" state := by
  have hnone : state.pendingKeyShares.findIdx? call.isFor = none :=
    List.findIdx?_eq_none_iff.mpr h
  unfold ShareCall.prepare
  change (match state.pendingKeyShares.findIdx? call.isFor with
    | none => _
    | some idx => _ : EStateM _ _ _) state = _
  rw [hnone]
  rfl

theorem prepare_of_findIdx? {idx : ℕ}
    (h : state.pendingKeyShares.findIdx? call.isFor = some idx) :
    call.prepare state =
      let remaining := state.pendingKeyShares.eraseIdx idx
      match call.buildExchange state
          (state.pendingKeyShares[idx]?.bind PendingKeyShare.requestId) with
      | .ok exchange =>
          .ok (remaining.filter fun p => p.channelId = call.channelId, exchange)
            (state.withPending remaining)
      | .error e => .error e (state.withPending remaining) := by
  unfold ShareCall.prepare
  change (match state.pendingKeyShares.findIdx? call.isFor with
    | none => _
    | some idx => _ : EStateM _ _ _) state = _
  rw [h]
  dsimp only
  cases hbuild : call.buildExchange state
      (state.pendingKeyShares[idx]?.bind PendingKeyShare.requestId) with
  | ok exchange => rfl
  | error e => rfl

theorem prepare_of_pending (h : ∃ p ∈ state.pendingKeyShares, call.isFor p = true) :
    call.prepare state =
      let remaining := state.pendingKeyShares.eraseP call.isFor
      match call.buildExchange state
          ((state.pendingKeyShares.find? call.isFor).bind PendingKeyShare.requestId) with
      | .ok exchange =>
          .ok (remaining.filter fun p => p.channelId = call.channelId, exchange)
            (state.withPending remaining)
      | .error e => .error e (state.withPending remaining) := by
  obtain ⟨idx, hidx⟩ := Option.isSome_iff_exists.mp
    (List.findIdx?_isSome (p := call.isFor) ▸ List.any_eq_true.mpr h)
  have herase : state.pendingKeyShares.eraseP call.isFor = state.pendingKeyShares.eraseIdx idx := by
    rw [List.eraseP_eq_eraseIdx, hidx]
  have hfind : state.pendingKeyShares.find? call.isFor = state.pendingKeyShares[idx]? := by
    rw [List.find?_eq_bind_findIdx?_getElem?, hidx]
    rfl
  rw [herase, hfind]
  exact prepare_of_findIdx? hidx

def NoDuplicates (pending : List PendingKeyShare) : Prop :=
  (pending.map fun p => (p.channelId, p.peerCertHash)).Nodup

theorem NoDuplicates.sublist {pending pending' : List PendingKeyShare} (h : NoDuplicates pending)
    (hsublist : pending'.Sublist pending) : NoDuplicates pending' :=
  List.Nodup.sublist (hsublist.map _) h

theorem isFor_eq_false_of_mem_eraseP {pending : List PendingKeyShare}
    (h : NoDuplicates pending) :
    ∀ p ∈ pending.eraseP call.isFor, call.isFor p = false := by
  induction pending with
  | nil => nofun
  | cons p pending ih =>
      rw [NoDuplicates, List.map_cons, List.nodup_cons] at h
      cases hp : call.isFor p with
      | true =>
          rw [List.eraseP_cons_of_pos hp]
          intro q hq
          rw [Bool.eq_false_iff]
          intro hfor
          refine h.1 (List.mem_map.mpr ⟨q, hq, ?_⟩)
          rw [isFor_iff.mp hfor, isFor_iff.mp hp]
      | false =>
          rw [List.eraseP_cons_of_neg (by rw [hp]; exact Bool.false_ne_true)]
          intro q hq
          rcases List.mem_cons.mp hq with rfl | hq
          · exact hp
          · exact ih h.2 q hq

/-! ## What holds in every run -/

def phase (s : Approvals lib) (i : ℕ) : ApprovalPhase :=
  ((s.approvals[i]?).map Approval.phase).getD .called

def Logged (sent : List (SentCommand lib)) (recorded : Prop) : ApprovalPhase → Prop
  | .called | .emitting _ _ _ | .sending _ _ => sent = [] ∧ ¬recorded
  | .recording _ | .reporting _ => ∃ exchange, sent = [.pchatKeyExchange exchange]
  | _ => True

/-- No share is pending twice, and nothing is recorded or reported before the exchange was
sent. -/
structure Sound (s : Approvals lib) : Prop where
  nodup : ∀ ref, NoDuplicates (s.sessions ref).pendingKeyShares
  logged : ∀ i, Logged (s.sentBy i) (i ∈ s.recorded) (s.phase i)

theorem sound_initial : Sound ({} : Approvals lib) where
  nodup _ := List.nodup_nil
  logged _ := ⟨rfl, List.not_mem_nil⟩

theorem sentBy_log_self (s : Approvals lib) (i : ℕ) (message : SentCommand lib) :
    (s.log i message).sentBy i = s.sentBy i ++ [message] := by
  rw [sentBy, log, List.filter_append, List.map_append,
    List.filter_cons_of_pos (by rw [decide_eq_true_iff])]
  rfl

theorem sentBy_log_of_ne (s : Approvals lib) {i j : ℕ} (h : i ≠ j) (message : SentCommand lib) :
    (s.log i message).sentBy j = s.sentBy j := by
  rw [sentBy, log, List.filter_append, List.map_append,
    List.filter_cons_of_neg (by rwa [decide_eq_true_iff])]
  exact List.append_nil _

@[simp] theorem sessions_modifySession (ref : SessionRef)
    (f : CommandState lib → CommandState lib) :
    (s.modifySession ref f).sessions = Function.update s.sessions ref (f (s.sessions ref)) := rfl

theorem nodup_modifySession (h : Sound s) (ref : SessionRef)
    (f : CommandState lib → CommandState lib)
    (hf : NoDuplicates (f (s.sessions ref)).pendingKeyShares) (other : SessionRef) :
    NoDuplicates ((s.modifySession ref f).sessions other).pendingKeyShares := by
  rw [sessions_modifySession]
  by_cases hother : other = ref
  · subst hother
    rw [Function.update_self]
    exact hf
  · rw [Function.update_of_ne hother]
    exact h.nodup other

theorem prepare_cases (call : ShareCall) (state : CommandState lib) :
    ((∀ p ∈ state.pendingKeyShares, call.isFor p = false) ∧
        ∃ e, call.prepare state = .error e state) ∨
      (∃ p ∈ state.pendingKeyShares, call.isFor p = true) ∧
        ((Ready state call ∧ ∃ result, call.prepare state = .ok result
            (state.withPending (state.pendingKeyShares.eraseP call.isFor))) ∨
          (¬Ready state call ∧ ∃ e, call.prepare state = .error e
            (state.withPending (state.pendingKeyShares.eraseP call.isFor)))) := by
  by_cases hpending : ∃ p ∈ state.pendingKeyShares, call.isFor p = true
  · refine .inr ⟨hpending, ?_⟩
    rw [prepare_of_pending hpending, ← succeeds_buildExchange_iff]
    cases hbuild : call.buildExchange state
        ((state.pendingKeyShares.find? call.isFor).bind PendingKeyShare.requestId) with
    | ok exchange => exact .inl ⟨⟨exchange, rfl⟩, _, rfl⟩
    | error e => exact .inr ⟨not_succeeds_error e, e, rfl⟩
  · have hnone : ∀ p ∈ state.pendingKeyShares, call.isFor p = false := fun p hp =>
      Bool.eq_false_iff.mpr fun hfor => hpending ⟨p, hp, hfor⟩
    exact .inl ⟨hnone, _, prepare_of_not_pending hnone⟩

section Advance

variable {i : ℕ} {answer : Except String Unit}

theorem nodup_advance (h : Sound s) (phase : ApprovalPhase) (ref : SessionRef) :
    NoDuplicates ((s.advance i call answer phase).1.sessions ref).pendingKeyShares := by
  cases phase with
  | called =>
      have hsame := h.nodup s.active
      have herase := hsame.sublist (List.eraseP_sublist (p := call.isFor))
      rw [advance]
      rcases prepare_cases call (s.sessions s.active) with
        ⟨-, e, hprepare⟩ | ⟨-, ⟨-, result, hprepare⟩ | ⟨-, e, hprepare⟩⟩
      · rw [hprepare]
        exact nodup_modifySession h s.active (fun _ => _) hsame ref
      · rw [hprepare]
        exact nodup_modifySession h s.active (fun _ => _) herase ref
      · rw [hprepare]
        exact nodup_modifySession h s.active (fun _ => _) herase ref
  | recording origin => exact nodup_modifySession h s.active _ (h.nodup s.active) ref
  | sending origin exchange =>
      cases answer with
      | ok value => exact h.nodup ref
      | error e => exact h.nodup ref
  | reporting origin =>
      cases answer with
      | ok value => exact h.nodup ref
      | error e => exact h.nodup ref
  | _ => exact h.nodup ref

theorem log_advance_called :
    (s.advance i call answer .called).1.sent = s.sent ∧
      (s.advance i call answer .called).1.recorded = s.recorded := by
  rw [advance]
  cases call.prepare (s.sessions s.active) with
  | ok result state => exact ⟨rfl, rfl⟩
  | error e state => exact ⟨rfl, rfl⟩

theorem log_advance_of_ne {j : ℕ} (hj : j ≠ i) (phase : ApprovalPhase) :
    (s.advance i call answer phase).1.sentBy j = s.sentBy j ∧
      (j ∈ (s.advance i call answer phase).1.recorded ↔ j ∈ s.recorded) := by
  cases phase with
  | called =>
      have hlog := @log_advance_called lib s call i answer
      rw [sentBy, hlog.1, hlog.2]
      exact ⟨rfl, Iff.rfl⟩
  | sending origin exchange =>
      cases answer with
      | ok value => exact ⟨s.sentBy_log_of_ne hj.symm _, Iff.rfl⟩
      | error e => exact ⟨rfl, Iff.rfl⟩
  | recording origin =>
      refine ⟨rfl, ?_⟩
      change j ∈ s.recorded ++ [i] ↔ _
      rw [List.mem_append, List.mem_singleton, or_iff_left hj]
  | reporting origin =>
      cases answer with
      | ok value => exact ⟨s.sentBy_log_of_ne hj.symm _, Iff.rfl⟩
      | error e => exact ⟨rfl, Iff.rfl⟩
  | _ => exact ⟨rfl, Iff.rfl⟩

theorem logged_advance (phase : ApprovalPhase)
    (h : Logged (s.sentBy i) (i ∈ s.recorded) phase) :
    Logged ((s.advance i call answer phase).1.sentBy i)
      (i ∈ (s.advance i call answer phase).1.recorded) (s.advance i call answer phase).2 := by
  cases phase with
  | called =>
      have hlog := @log_advance_called lib s call i answer
      rw [sentBy, hlog.1, hlog.2, advance]
      cases call.prepare (s.sessions s.active) with
      | ok result state => exact h
      | error e state =>
          dsimp only
          split
          · trivial
          · trivial
  | emitting origin pending exchange => exact h
  | sending origin exchange =>
      cases answer with
      | ok value =>
          refine ⟨exchange, (s.sentBy_log_self i _).trans ?_⟩
          rw [h.1]
          rfl
      | error e => trivial
  | recording origin => exact h
  | reporting origin =>
      cases answer with
      | ok value => trivial
      | error e => trivial
  | _ => trivial

theorem phase_resume {a : Approval} (ha : s.approvals[i]? = some a) (j : ℕ) :
    (s.resume i answer).phase j =
      if j = i then (s.advance i a.call answer a.phase).2 else s.phase j := by
  rw [resume, ha]
  dsimp only
  rw [phase, List.getElem?_set]
  by_cases hj : j = i
  · subst hj
    have hlt : j < s.approvals.length := (List.getElem?_eq_some_iff.mp ha).1
    rw [if_pos rfl, if_pos hlt, if_pos rfl]
    rfl
  · rw [if_neg (Ne.symm hj), if_neg hj]
    rfl

theorem sound_resume (h : Sound s) (i : ℕ) (answer : Except String Unit) :
    Sound (s.resume i answer) := by
  cases ha : s.approvals[i]? with
  | none =>
      rw [resume, ha]
      exact h
  | some a =>
      have hphase : s.phase i = a.phase := by rw [phase, ha]; rfl
      refine ⟨fun ref => ?_, fun j => ?_⟩
      · rw [resume, ha]
        exact nodup_advance h a.phase ref
      · rw [phase_resume ha]
        by_cases hj : j = i
        · subst hj
          have hlogged : Logged (s.sentBy j) (j ∈ s.recorded) a.phase := hphase ▸ h.logged j
          rw [if_pos rfl, resume, ha]
          exact logged_advance a.phase hlogged
        · have hlog := @log_advance_of_ne lib s a.call i answer j hj a.phase
          have hlogged := h.logged j
          rw [← hlog.1, ← hlog.2] at hlogged
          rw [if_neg hj, resume, ha]
          exact hlogged

end Advance

theorem nodup_queueKeyShareConsent (h : Sound s) (ref : SessionRef) (share : PendingKeyShare)
    (other : SessionRef) :
    NoDuplicates ((s.queueKeyShareConsent ref share).sessions other).pendingKeyShares := by
  rw [queueKeyShareConsent]
  dsimp only
  split
  · exact h.nodup other
  · rename_i hnew
    refine nodup_modifySession h ref (·.withPending _) ?_ other
    rw [CommandState.withPending, NoDuplicates, List.map_append, List.map_singleton]
    refine List.Nodup.append (h.nodup ref) (List.nodup_singleton _) ?_
    rw [List.disjoint_singleton]
    intro hmem
    obtain ⟨p, hp, heq⟩ := List.mem_map.mp hmem
    rw [Prod.mk.injEq] at heq
    refine hnew (List.any_eq_true.mpr ⟨p, hp, ?_⟩)
    rw [Bool.and_eq_true, decide_eq_true_iff, decide_eq_true_iff]
    exact heq

theorem sound_step (h : Sound s) (event : ShareEvent lib) : Sound (s.step event) := by
  cases event with
  | approve call =>
      refine ⟨h.nodup, fun i => ?_⟩
      have hphase : (s.step (.approve call)).phase i = s.phase i := by
        rw [phase, phase, step]
        dsimp only
        rcases Nat.lt_trichotomy i s.approvals.length with hlt | heq | hgt
        · rw [List.getElem?_append_left hlt]
        · rw [heq, List.getElem?_concat_length, List.getElem?_eq_none (Nat.le_refl _)]
          rfl
        · rw [List.getElem?_eq_none (Nat.le_of_lt hgt), List.getElem?_eq_none]
          rw [List.length_append]
          exact hgt
      rw [hphase]
      exact h.logged i
  | resume i answer => exact sound_resume h i answer
  | redirect ref => exact ⟨h.nodup, h.logged⟩
  | queue ref share =>
      refine ⟨nodup_queueKeyShareConsent h ref share, fun i => ?_⟩
      have hlogged := h.logged i
      rw [step, queueKeyShareConsent]
      dsimp only
      split
      · exact hlogged
      · exact hlogged
  | retain ref keep =>
      refine ⟨nodup_modifySession h ref
        (fun state => state.withPending (state.pendingKeyShares.filter keep)) ?_, h.logged⟩
      exact (h.nodup ref).sublist List.filter_sublist
  | emitted channelId pending => exact ⟨h.nodup, h.logged⟩
  | change ref f =>
      refine ⟨nodup_modifySession h ref
        (fun state => (f state).withPending state.pendingKeyShares) ?_, h.logged⟩
      exact h.nodup ref

/-! ## Runs -/

theorem pending_iff_any {ref : SessionRef} :
    s.Pending ref call ↔ (s.sessions ref).pendingKeyShares.any call.isFor = true :=
  List.any_eq_true.symm

theorem not_pending_of_forall {ref : SessionRef}
    (h : ∀ p ∈ (s.sessions ref).pendingKeyShares, call.isFor p = false) : ¬s.Pending ref call := by
  rintro ⟨p, hp, hfor⟩
  rw [h p hp] at hfor
  exact Bool.false_ne_true hfor

theorem endsWell_called_iff (h : Sound s) {i : ℕ} {answer : Except String Unit}
    (hlogged : s.sentBy i = [] ∧ i ∉ s.recorded) :
    EndsWell s (s.advance i call answer .called).1 i call (s.advance i call answer .called).2 ↔
      (s.Pending s.active call → Ready (s.sessions s.active) call) ∧
        (¬s.Pending s.active call → s.UiAgrees s.active call.channelId) := by
  rw [advance]
  rcases prepare_cases call (s.sessions s.active) with
    ⟨hnone, e, hprepare⟩ | ⟨hpending, ⟨hready, result, hprepare⟩ | ⟨hready, e, hprepare⟩⟩
  · have hnot : ¬s.Pending s.active call := not_pending_of_forall hnone
    have hsame : (s.modifySession s.active fun _ => s.sessions s.active) = s := by
      rw [modifySession, Function.update_eq_self]
    rw [hprepare]
    dsimp only
    rw [if_neg (mt pending_iff_any.mpr hnot), hsame]
    exact ⟨fun hends => ⟨fun hp => absurd hp hnot, fun _ => hends.2⟩,
      fun hmeets => ⟨⟨fun _ => rfl, hlogged.2, hlogged.1⟩, hmeets.2 hnot⟩⟩
  · rw [hprepare]
    exact iff_of_true trivial ⟨fun _ => hready, fun hnot => absurd hpending hnot⟩
  · rw [hprepare]
    dsimp only
    rw [if_pos (pending_iff_any.mp hpending)]
    refine iff_of_false ?_ fun hmeets => hready (hmeets.1 hpending)
    rintro ⟨-, hstill, -⟩
    refine not_pending_of_forall ?_ hstill
    rw [sessions_modifySession, Function.update_self]
    exact isFor_eq_false_of_mem_eraseP (h.nodup s.active)

/-- An approval that returns ends well exactly if it found what it takes, or nothing was to be
approved, or the share is there again. -/
theorem lawful_iff (h : Sound s) (event : ShareEvent lib) : s.Lawful event ↔ s.Meets event := by
  cases event with
  | resume i answer =>
      refine forall_congr' fun a => imp_congr_right fun ha => ?_
      have hphase : s.phase i = a.phase := by rw [phase, ha]; rfl
      have hlogged := hphase ▸ h.logged i
      have hafter : EndsWell s (s.resume i answer) i a.call (s.advance i a.call answer a.phase).2 ↔
          EndsWell s (s.advance i a.call answer a.phase).1 i a.call
            (s.advance i a.call answer a.phase).2 := by
        rw [resume, ha]
        cases (s.advance i a.call answer a.phase).2 with
        | _ => exact Iff.rfl
      rw [hafter]
      cases hcase : a.phase with
      | called =>
          rw [hcase] at hlogged
          exact (imp_iff_right id).trans (endsWell_called_iff h hlogged)
      | sending ref exchange =>
          rw [hcase] at hlogged
          refine (imp_iff_right id).trans ?_
          cases answer with
          | ok value => exact iff_of_true trivial (.inl rfl)
          | error e =>
              refine Iff.trans ?_ (or_iff_right nofun).symm
              exact and_iff_right ⟨fun _ => rfl, hlogged.2, hlogged.1⟩
      | reporting ref =>
          rw [hcase] at hlogged
          obtain ⟨exchange, hsent⟩ := hlogged
          refine (imp_iff_right id).trans ?_
          cases answer with
          | ok value =>
              refine and_iff_right ?_
              rw [advance]
              dsimp only
              rw [sentBy_log_self, hsent]
              rfl
          | error e =>
              refine and_iff_right ?_
              rw [advance]
              dsimp only
              rw [hsent]
              rfl
      | emitting ref pending exchange => exact iff_of_true (fun _ => trivial) trivial
      | recording ref => exact iff_of_true (fun _ => trivial) trivial
      | _ => exact iff_of_true (fun hrunning => absurd trivial hrunning) trivial
  | _ => exact Iff.rfl

/-- In every run, an approval that fails leaves its share pending and shown and does no harm,
and one that succeeds has sent one exchange for a share that is gone, exactly if the approvals
find all that they take and can send, or the share is there again. -/
theorem approvals_run_iff (events : List (ShareEvent lib)) :
    Along step Lawful ({} : Approvals lib) events ↔
      Along step Meets ({} : Approvals lib) events :=
  along_iff_of_invariant (fun _ event hs => lawful_iff hs event)
    (fun _ event hs _ => sound_step hs event) sound_initial

section Example

/-- A client with a persistent chat that knows no peer is asked for a key, and the user
approves. -/
private def unknownPeerExample : List (ShareEvent symbolic) :=
  [.change 0 fun state => { state with shared := { state.shared with pchat := some {} } },
    .queue 0 { channelId := 1, peerCertHash := "peer", requestId := some "request" },
    .approve
      { identity := .plain, nonce := [], now := 0, channelId := 1, peerCertHash := "peer" },
    .resume 0 (.ok ())]

/-- The request of a peer whose key is not known is lost when the user approves it. -/
theorem request_of_unknown_peer_lost : ¬Along step Lawful {} unknownPeerExample := by
  rw [approvals_run_iff]
  rintro ⟨-, -, -, hresume, -⟩
  obtain ⟨hready, -⟩ := hresume _ rfl
  obtain ⟨pchat, peer, -, hpchat, hpeer, -⟩ := hready ⟨_, List.mem_singleton_self _, by decide⟩
  cases hpchat
  cases hpeer

end Example

end Approvals

/-! ## The command -/

variable {s : Approvals lib}

def ShareCall.record (call : ShareCall) (ref : SessionRef) : Command lib :=
  .locked fun _ state =>
    (state.recordKeyHolder call.channelId call.peerCertHash,
      .send ref (.pchatKeyHolderReport call.channelId call.peerCertHash) fun _ => .done (.ok ()))

def ShareCall.send (call : ShareCall) (ref : SessionRef) (exchange : PchatKeyExchange) :
    Command lib :=
  .send ref (.pchatKeyExchange exchange) fun
    | .error e => .done (.error ("send failed: " ++ e))
    | .ok () => call.record ref

def ApprovalPhase.command (call : ShareCall) : ApprovalPhase → Command lib
  | .called =>
      approveKeyShare call.identity call.nonce call.now call.channelId call.peerCertHash
  | .emitting ref _ exchange | .sending ref exchange => call.send ref exchange
  | .recording ref => call.record ref
  | .reporting ref =>
      .send ref (.pchatKeyHolderReport call.channelId call.peerCertHash) fun _ => .done (.ok ())
  | .notPending _ => .done (.error "no pending key share for this channel/peer")
  | .failed _ error => .done (.error error)
  | .succeeded _ => .done (.ok ())

def Approvals.toWorld (s : Approvals lib) :
    World SessionRef (CommandState lib) (SentCommand lib) (Except String Unit)
      (Except String Unit) where
  active := s.active
  objects := s.sessions
  tasks := s.approvals.map fun a => (a.origin, a.phase.command a.call)

theorem command_called (call : ShareCall) :
    (ApprovalPhase.called.command call : Command lib) = .locked fun ref state =>
      match call.prepare state with
      | .ok (_, exchange) state => (state, call.send ref exchange)
      | .error e state => (state, .done (.error e)) := by
  refine congrArg Coroutine.locked (funext fun ref => funext fun state => ?_)
  have hfind : (fun p : PendingKeyShare => decide (p.channelId = call.channelId ∧
      p.peerCertHash = call.peerCertHash)) = call.isFor := rfl
  rw [hfind]
  cases hidx : state.pendingKeyShares.findIdx? call.isFor with
  | none =>
      rw [Approvals.prepare_of_not_pending (List.findIdx?_eq_none_iff.mp hidx)]
  | some idx =>
      rw [Approvals.prepare_of_findIdx? hidx]
      unfold ShareCall.buildExchange
      dsimp only
      cases hpchat : state.shared.pchat with
      | none => rfl
      | some pchat =>
          cases hpeer : pchat.keyManager.peerKeys call.peerCertHash with
          | none => simp [bind, Except.bind, hpeer, CommandState.withPending]
          | some peer =>
              cases hdistribute : pchat.keyManager.distributeKey call.identity call.nonce
                  call.channelId .fancyV1FullArchive 0 call.peerCertHash peer.dhPublic
                  (state.pendingKeyShares[idx]?.bind PendingKeyShare.requestId) call.now with
              | error e =>
                  simp [bind, Except.bind, Except.mapError, hpeer, hdistribute,
                    CommandState.withPending]
              | ok exchange =>
                  cases hconnected : state.shared.clientHandle with
                  | true =>
                      simp [bind, Except.bind, Except.mapError, hpeer, hdistribute, hconnected,
                        CommandState.withPending, CommandState.handle]
                      rfl
                  | false =>
                      simp [bind, Except.bind, Except.mapError, hpeer, hdistribute, hconnected,
                        CommandState.withPending, CommandState.handle]

theorem Approvals.toWorld_resume_eq {s : Approvals lib} {i : ℕ} {a : Approval}
    (ha : s.approvals[i]? = some a) (answer : Except String Unit)
    (hactive : (s.advance i a.call answer a.phase).1.active = s.active) :
    (s.resume i answer).toWorld =
      { active := s.active
        objects := (s.advance i a.call answer a.phase).1.sessions
        tasks := s.toWorld.tasks.set i
          (a.origin, (s.advance i a.call answer a.phase).2.command a.call) } := by
  rw [resume, ha, toWorld, toWorld, ← hactive, List.map_set]

theorem Approvals.task_toWorld {s : Approvals lib} {i : ℕ} {a : Approval}
    (ha : s.approvals[i]? = some a) :
    s.toWorld.tasks[i]? = some (a.origin, a.phase.command a.call) := by
  rw [toWorld, List.getElem?_map, ha]
  rfl

theorem Approvals.toWorld_resume_called {s : Approvals lib} {i : ℕ} {origin : SessionRef}
    {call : ShareCall} (ha : s.approvals[i]? = some ⟨origin, call, .called⟩)
    (answer : Except String Unit) : (s.resume i answer).toWorld = s.toWorld.resume i answer := by
  have htask := task_toWorld ha
  rw [command_called] at htask
  cases hprepare : call.prepare (s.sessions s.active) with
  | ok result state =>
      have hadvance : s.advance i call answer .called =
          (s.modifySession s.active fun _ => state, .emitting s.active result.1 result.2) := by
        rw [advance, hprepare]
      have hworld : call.prepare (s.toWorld.objects s.toWorld.active) = .ok result state :=
        hprepare
      rw [toWorld_resume_eq ha answer (congrArg (·.1.active) hadvance), World.resume, htask]
      dsimp only
      rw [hworld, hadvance]
      rfl
  | error e state =>
      have hadvance : s.advance i call answer .called =
          (s.modifySession s.active fun _ => state,
            if (s.sessions s.active).pendingKeyShares.any call.isFor then .failed s.active e
            else .notPending s.active) := by
        rw [advance, hprepare]
      have hcommand : ((s.advance i call answer .called).2.command call : Command lib) =
          .done (.error e) := by
        rw [hadvance]
        dsimp only
        split
        · rfl
        · rename_i hany
          have hnone : ∀ p ∈ (s.sessions s.active).pendingKeyShares, call.isFor p = false :=
            fun p hp => Bool.eq_false_iff.mpr
              (List.any_eq_false.mp (Bool.eq_false_iff.mpr hany) p hp)
          rw [prepare_of_not_pending hnone] at hprepare
          cases hprepare
          rfl
      have hworld : call.prepare (s.toWorld.objects s.toWorld.active) = .error e state :=
        hprepare
      rw [toWorld_resume_eq ha answer (congrArg (·.1.active) hadvance), World.resume, htask]
      dsimp only
      rw [hworld, hcommand, hadvance]
      rfl

/-- A step of an approval is a step of the command, but for the one that tells the frontend. -/
theorem Approvals.toWorld_resume (s : Approvals lib) {i : ℕ} {a : Approval}
    (ha : s.approvals[i]? = some a) (answer : Except String Unit) :
    (s.resume i answer).toWorld =
      match a.phase with
      | .emitting _ _ _ => s.toWorld
      | _ => s.toWorld.resume i answer := by
  have htask := task_toWorld ha
  have hset : s.toWorld.tasks.set i (a.origin, a.phase.command a.call) = s.toWorld.tasks := by
    obtain ⟨hi, hget⟩ := List.getElem?_eq_some_iff.mp htask
    rw [← hget]
    exact List.set_getElem_self hi
  obtain ⟨origin, call, phase⟩ := a
  cases phase with
  | called => exact toWorld_resume_called ha answer
  | emitting ref pending exchange =>
      rw [toWorld_resume_eq ha answer rfl]
      exact congrArg (World.mk s.active s.sessions) hset
  | sending ref exchange =>
      rw [World.resume, htask]
      cases answer with
      | ok value => exact toWorld_resume_eq ha _ rfl
      | error e => exact toWorld_resume_eq ha _ rfl
  | recording ref =>
      rw [World.resume, htask]
      exact toWorld_resume_eq ha answer rfl
  | reporting ref =>
      rw [World.resume, htask]
      cases answer with
      | ok value => exact toWorld_resume_eq ha _ rfl
      | error e => exact toWorld_resume_eq ha _ rfl
  | notPending ref =>
      rw [World.resume, htask, toWorld_resume_eq ha answer rfl]
      exact congrArg (World.mk s.active s.sessions) hset
  | failed ref error =>
      rw [World.resume, htask, toWorld_resume_eq ha answer rfl]
      exact congrArg (World.mk s.active s.sessions) hset
  | succeeded ref =>
      rw [World.resume, htask, toWorld_resume_eq ha answer rfl]
      exact congrArg (World.mk s.active s.sessions) hset

end FancyMumble.Messages
