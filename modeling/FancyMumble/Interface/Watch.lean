import FancyMumble.Lib.Keyed
import FancyMumble.Lib.Runs
import Mathlib.Algebra.Order.Ring.Rat

/-!
# Watch-together sessions

The members of a channel watch a video together: a host drives the playback and sends
`watch-sync` events, which the server relays with their sender as the actor. Each client has
its own map of the sessions.
-/

namespace FancyMumble.Interface

open Lib.Keyed Lib.Runs

inductive WatchSourceKind where
  | directMedia
  | youtube
deriving DecidableEq

inductive WatchPlaybackState where
  | paused
  | playing
  | ended
deriving DecidableEq

inductive WatchSyncEvent where
  | start (channelId : Option UInt32) (sourceUrl : Option String)
      (sourceKind : Option WatchSourceKind) (title : Option String)
      (hostSession : Option UInt32)
  | state (state : Option WatchPlaybackState) (currentTime : Option ℚ) (updatedAtMs : Option ℕ)
      (hostSession : Option UInt32)
  | join (session : Option UInt32)
  | leave (session : Option UInt32)
  | stateRequest
  | endSession
  | hostTransfer (newHostSession : Option UInt32)
deriving DecidableEq

structure WatchSyncPayload where
  sessionId : Option String
  actor : Option UInt32
  event : WatchSyncEvent
deriving DecidableEq

structure WatchSession where
  sessionId : String
  channelId : UInt32
  hostSession : UInt32
  sourceUrl : String
  sourceKind : WatchSourceKind
  title : Option String
  participants : List UInt32
  state : WatchPlaybackState
  currentTime : ℚ
  updatedAtMs : ℕ
deriving DecidableEq

abbrev findSession (id : String) (sessions : List WatchSession) : Option WatchSession :=
  find WatchSession.sessionId id sessions

/-! ## Events -/

def applyStart (now : ℕ) (sessionId : String) (actor channelId : UInt32) (sourceUrl : String)
    (sourceKind : Option WatchSourceKind) (title : Option String) (hostSession : Option UInt32)
    (existing : Option WatchSession) : WatchSession where
  sessionId
  channelId
  hostSession := hostSession.getD actor
  sourceUrl
  sourceKind := sourceKind.getD .directMedia
  title
  participants := (existing.map WatchSession.participants).getD [hostSession.getD actor]
  state := (existing.map WatchSession.state).getD .paused
  currentTime := (existing.map WatchSession.currentTime).getD 0
  updatedAtMs := (existing.map WatchSession.updatedAtMs).getD now

def applyState (state : Option WatchPlaybackState) (currentTime : Option ℚ)
    (updatedAtMs : Option ℕ) (hostSession : Option UInt32) (existing : WatchSession) :
    WatchSession :=
  { existing with
    state := state.getD existing.state
    currentTime := currentTime.getD existing.currentTime
    updatedAtMs := updatedAtMs.getD existing.updatedAtMs
    hostSession := hostSession.getD existing.hostSession }

def applyJoin (session : UInt32) (existing : WatchSession) : WatchSession :=
  if session ∈ existing.participants then existing
  else { existing with participants := existing.participants ++ [session] }

def applyLeave (session : UInt32) (existing : WatchSession) : WatchSession :=
  { existing with participants := existing.participants.filter (· ≠ session) }

def replaceSession (sessions : List WatchSession) (existing : Option WatchSession)
    (f : WatchSession → WatchSession) : List WatchSession :=
  match existing with
  | some session => put WatchSession.sessionId (f session) sessions
  | none => sessions

def applyWatchSyncEvent (now : ℕ) (payload : WatchSyncPayload) (sessions : List WatchSession) :
    List WatchSession :=
  match payload.sessionId, payload.actor with
  | some sessionId, some actor =>
      let existing := findSession sessionId sessions
      match payload.event with
      | .start channelId sourceUrl sourceKind title hostSession =>
          match sourceUrl, channelId with
          | some sourceUrl, some channelId =>
              put WatchSession.sessionId (applyStart now sessionId actor channelId sourceUrl
                sourceKind title hostSession existing) sessions
          | _, _ => sessions
      | .state state currentTime updatedAtMs hostSession =>
          replaceSession sessions existing
            (applyState state currentTime updatedAtMs hostSession)
      | .join session => replaceSession sessions existing (applyJoin (session.getD actor))
      | .leave session => replaceSession sessions existing (applyLeave (session.getD actor))
      | .stateRequest => sessions
      | .endSession => delete WatchSession.sessionId sessionId sessions
      | .hostTransfer newHostSession =>
          replaceSession sessions existing fun session =>
            { session with hostSession := newHostSession.getD session.hostSession }
  | _, _ => sessions

def sessionAfter (now : ℕ) (sessionId : String) (actor : UInt32) (event : WatchSyncEvent)
    (existing : Option WatchSession) : Option WatchSession :=
  match event with
  | .start (some channelId) (some sourceUrl) sourceKind title hostSession =>
      some (applyStart now sessionId actor channelId sourceUrl sourceKind title hostSession
        existing)
  | .start _ _ _ _ _ | .stateRequest => existing
  | .state state currentTime updatedAtMs hostSession =>
      existing.map (applyState state currentTime updatedAtMs hostSession)
  | .join session => existing.map (applyJoin (session.getD actor))
  | .leave session => existing.map (applyLeave (session.getD actor))
  | .endSession => none
  | .hostTransfer newHostSession => existing.map fun session =>
      { session with hostSession := newHostSession.getD session.hostSession }

theorem sessionId_applyJoin (session : UInt32) (existing : WatchSession) :
    (applyJoin session existing).sessionId = existing.sessionId := by
  unfold applyJoin
  split <;> rfl

theorem find_replaceSession {sessions : List WatchSession} {id : String}
    {f : WatchSession → WatchSession} (hf : ∀ session, (f session).sessionId = session.sessionId)
    (d : String) :
    findSession d (replaceSession sessions (findSession id sessions) f) =
      if d = id then (findSession id sessions).map f else findSession d sessions := by
  cases hfind : findSession id sessions with
  | none =>
      simp only [replaceSession, Option.map_none]
      split
      next hd => rw [hd, hfind]
      next => rfl
  | some session =>
      simp only [replaceSession, Option.map_some]
      rw [findSession, find_put, hf, key_of_find hfind]

theorem find_applyWatchSyncEvent (now : ℕ) (sessionId : String) (actor : UInt32)
    (event : WatchSyncEvent) (sessions : List WatchSession) (id : String) :
    findSession id (applyWatchSyncEvent now ⟨some sessionId, some actor, event⟩ sessions) =
      if id = sessionId then
        sessionAfter now sessionId actor event (findSession sessionId sessions)
      else findSession id sessions := by
  have hsame : findSession id sessions =
      if id = sessionId then findSession sessionId sessions else findSession id sessions := by
    split
    next hid => rw [hid]
    next => rfl
  cases event with
  | start channelId sourceUrl sourceKind title hostSession =>
      cases channelId with
      | none => cases sourceUrl <;> exact hsame
      | some channelId =>
          cases sourceUrl with
          | none => exact hsame
          | some sourceUrl => exact find_put
  | state state currentTime updatedAtMs hostSession =>
      exact find_replaceSession (fun _ => by rfl) id
  | join session => exact find_replaceSession (sessionId_applyJoin _) id
  | leave session => exact find_replaceSession (fun _ => by rfl) id
  | stateRequest => exact hsame
  | endSession => exact find_delete
  | hostTransfer newHostSession => exact find_replaceSession (fun _ => by rfl) id

/-! ## Election -/

def charCodes (input : String) : List UInt32 :=
  input.toList.flatMap fun c =>
    if c.val < 0x10000 then [c.val]
    else [0xD800 + (c.val - 0x10000) / 0x400, 0xDC00 + (c.val - 0x10000) % 0x400]

def fnv1a (input : String) : UInt32 :=
  (charCodes input).foldl (fun hash code => (hash ^^^ code) * 0x01000193) 0x811c9dc5

def electionHash (sessionId : String) (session : UInt32) : UInt32 :=
  fnv1a (toString session.toNat ++ ":" ++ sessionId)

def betterHost (sessionId : String) (best : Option UInt32) (session : UInt32) :
    Option UInt32 :=
  match best with
  | none => some session
  | some old =>
      if electionHash sessionId session < electionHash sessionId old ∨
          electionHash sessionId session = electionHash sessionId old ∧ session < old then
        some session
      else some old

def electHost (candidates : List UInt32) (sessionId : String) : Option UInt32 :=
  candidates.foldl (betterHost sessionId) none

theorem mem_of_foldl_betterHost {sessionId : String} {candidates : List UInt32}
    {best : Option UInt32} {winner : UInt32}
    (h : candidates.foldl (betterHost sessionId) best = some winner) :
    best = some winner ∨ winner ∈ candidates := by
  induction candidates generalizing best with
  | nil => exact .inl h
  | cons session candidates ih =>
      rcases ih h with hbest | hmem
      · unfold betterHost at hbest
        split at hbest
        · cases hbest
          exact .inr List.mem_cons_self
        · split at hbest
          · cases hbest
            exact .inr List.mem_cons_self
          · exact .inl hbest
      · exact .inr (List.mem_cons_of_mem session hmem)

def candidates (present : List UInt32) (session : WatchSession) : List UInt32 :=
  session.participants.filter fun p => p ≠ session.hostSession ∧ p ∈ present

theorem mem_of_electHost {sessionId : String} {candidates : List UInt32} {winner : UInt32}
    (h : electHost candidates sessionId = some winner) : winner ∈ candidates :=
  (mem_of_foldl_betterHost h).resolve_left nofun

/-! ## Authority -/

structure WatchView where
  sessions : List WatchSession := []
  users : List UInt32 := []

/-- What changes the sessions: events from any actors, and changes of the user list. -/
inductive WatchViewEvent where
  | sync (now : ℕ) (payload : WatchSyncPayload)
  | users (users : List UInt32)

namespace WatchView

variable (s : WatchView)

def step : WatchViewEvent → WatchView
  | .sync now payload => { s with sessions := applyWatchSyncEvent now payload s.sessions }
  | .users users => { s with users }

def Reelects (session : WatchSession) (actor : UInt32) (event : WatchSyncEvent) : Prop :=
  event = .hostTransfer (some actor) ∧ session.hostSession ∉ s.users ∧
    electHost (candidates s.users session) session.sessionId = some actor

/-- Playback state, host and source are the same. -/
structure Undisturbed (before after : WatchSession) : Prop where
  hostSession : after.hostSession = before.hostSession
  sourceUrl : after.sourceUrl = before.sourceUrl
  sourceKind : after.sourceKind = before.sourceKind
  state : after.state = before.state
  currentTime : after.currentTime = before.currentTime
  updatedAtMs : after.updatedAtMs = before.updatedAtMs

def participantsOf (session : Option WatchSession) : List UInt32 :=
  (session.map WatchSession.participants).getD []

/-- An event of an actor turns one state of a session into another one with authority. -/
structure Governs (actor : UInt32) (event : WatchSyncEvent)
    (before after : Option WatchSession) : Prop where
  /-- Only the host or the one who is elected changes the session. -/
  governed : ∀ old, before = some old → actor ≠ old.hostSession →
    ¬s.Reelects old actor event → ∃ new, after = some new ∧ Undisturbed old new
  /-- A new session has its creator for a host. -/
  created : ∀ new, before = none → after = some new → actor = new.hostSession
  /-- An actor adds or removes nobody else. -/
  participants : after.isSome → ∀ p, p ≠ actor →
    (p ∈ participantsOf after ↔ p ∈ participantsOf before)

/-- Every session changes with authority, and nothing changes without an actor. -/
def Authority : WatchViewEvent → Prop
  | .sync now payload =>
      ∀ id, findSession id (applyWatchSyncEvent now payload s.sessions) =
          findSession id s.sessions ∨
        ∃ actor, payload.actor = some actor ∧ s.Governs actor payload.event
          (findSession id s.sessions)
          (findSession id (applyWatchSyncEvent now payload s.sessions))
  | .users _ => True

def MaySend (actor : UInt32) (event : WatchSyncEvent) (existing : Option WatchSession) : Prop :=
  match event, existing with
  | .start (some _) (some _) _ _ hostSession, none => hostSession.getD actor = actor
  | .start (some _) (some sourceUrl) sourceKind _ hostSession, some old =>
      actor = old.hostSession ∨ hostSession.getD actor = old.hostSession ∧
        sourceUrl = old.sourceUrl ∧ sourceKind.getD .directMedia = old.sourceKind
  | .state state currentTime updatedAtMs hostSession, some old =>
      actor = old.hostSession ∨ state.getD old.state = old.state ∧
        currentTime.getD old.currentTime = old.currentTime ∧
        updatedAtMs.getD old.updatedAtMs = old.updatedAtMs ∧
        hostSession.getD old.hostSession = old.hostSession
  | .join session, some old => session.getD actor = actor ∨ session.getD actor ∈ old.participants
  | .leave session, some old =>
      session.getD actor = actor ∨ session.getD actor ∉ old.participants
  | .endSession, some old => actor = old.hostSession
  | .hostTransfer newHostSession, some old =>
      actor = old.hostSession ∨ newHostSession.getD old.hostSession = old.hostSession ∨
        s.Reelects old actor event
  | _, _ => True

def Authorized : WatchViewEvent → Prop
  | .sync _ payload => ∀ sessionId actor, payload.sessionId = some sessionId →
      payload.actor = some actor → s.MaySend actor payload.event (findSession sessionId s.sessions)
  | .users _ => True

variable {s} {actor : UInt32} {event : WatchSyncEvent} {old new : WatchSession}

theorem governs_refl (existing : Option WatchSession) :
    s.Governs actor event existing existing where
  governed := fun old hold _ _ => ⟨old, hold, rfl, rfl, rfl, rfl, rfl, rfl⟩
  created := by
    rintro new rfl hnew
    cases hnew
  participants := fun _ _ _ => Iff.rfl

theorem governs_some_iff (hsame : new.participants = old.participants) :
    s.Governs actor event (some old) (some new) ↔
      actor = old.hostSession ∨ Undisturbed old new ∨ s.Reelects old actor event := by
  constructor
  · intro h
    by_cases hhost : actor = old.hostSession
    · exact .inl hhost
    by_cases helect : s.Reelects old actor event
    · exact .inr (.inr helect)
    obtain ⟨new', hnew, hun⟩ := h.governed old rfl hhost helect
    cases hnew
    exact .inr (.inl hun)
  · intro h
    refine ⟨fun old' hold hhost helect => ?_, nofun, fun _ p _ => ?_⟩
    · cases hold
      rcases h with h | h | h
      · exact absurd h hhost
      · exact ⟨new, rfl, h⟩
      · exact absurd h helect
    · simp only [participantsOf, Option.map_some, Option.getD_some, hsame]

theorem governs_participants_iff (hun : Undisturbed old new) :
    s.Governs actor event (some old) (some new) ↔
      ∀ p, p ≠ actor → (p ∈ new.participants ↔ p ∈ old.participants) := by
  constructor
  · intro h
    exact h.participants rfl
  · intro h
    refine ⟨fun old' hold _ _ => ?_, nofun, fun _ => h⟩
    cases hold
    exact ⟨new, rfl, hun⟩

theorem not_reelects (h : ∀ session, event ≠ .hostTransfer (some session)) :
    ¬s.Reelects old actor event := fun helect => h actor helect.1

theorem mem_applyJoin {session p : UInt32} :
    p ∈ (applyJoin session old).participants ↔ p ∈ old.participants ∨ p = session := by
  unfold applyJoin
  split
  next hin =>
    refine (or_iff_left_of_imp ?_).symm
    rintro rfl
    exact hin
  next => simp

theorem undisturbed_applyJoin (session : UInt32) : Undisturbed old (applyJoin session old) := by
  unfold applyJoin
  split <;> exact ⟨rfl, rfl, rfl, rfl, rfl, rfl⟩

theorem governs_applyJoin_iff {session : UInt32} :
    s.Governs actor event (some old) (some (applyJoin session old)) ↔
      session = actor ∨ session ∈ old.participants := by
  refine (governs_participants_iff (undisturbed_applyJoin session)).trans ?_
  simp only [mem_applyJoin]
  constructor
  · intro h
    by_cases hself : session = actor
    · exact .inl hself
    · exact .inr ((h _ hself).mp (.inr rfl))
  · rintro (rfl | hin) p hp
    · exact or_iff_left hp
    · refine or_iff_left_of_imp ?_
      rintro rfl
      exact hin

theorem governs_applyLeave_iff {session : UInt32} :
    s.Governs actor event (some old) (some (applyLeave session old)) ↔
      session = actor ∨ session ∉ old.participants := by
  refine (governs_participants_iff ⟨by rfl, by rfl, by rfl, by rfl, by rfl, by rfl⟩).trans ?_
  simp only [applyLeave, List.mem_filter, decide_eq_true_eq]
  constructor
  · intro h
    by_cases hself : session = actor
    · exact .inl hself
    · exact .inr fun hin => ((h _ hself).mpr hin).2 rfl
  · rintro (rfl | hnot) p hp
    · exact and_iff_left hp
    · refine and_iff_left_of_imp ?_
      rintro hin rfl
      exact hnot hin

theorem governs_end_iff (h : ¬s.Reelects old actor event) :
    s.Governs actor event (some old) none ↔ actor = old.hostSession := by
  constructor
  · intro hgoverns
    by_contra hhost
    obtain ⟨new, hnew, -⟩ := hgoverns.governed old rfl hhost h
    cases hnew
  · intro hhost
    refine ⟨fun old' hold hother => ?_, nofun, nofun⟩
    cases hold
    exact absurd hhost hother

/-- An event turns a session into its successor with authority if and only if its actor may send
it. -/
theorem governs_sessionAfter_iff (now : ℕ) (sessionId : String) (existing : Option WatchSession) :
    s.Governs actor event existing (sessionAfter now sessionId actor event existing) ↔
      s.MaySend actor event existing := by
  cases event with
  | start channelId sourceUrl sourceKind title hostSession =>
      cases channelId with
      | none => exact iff_of_true (governs_refl existing) trivial
      | some channelId =>
          cases sourceUrl with
          | none => exact iff_of_true (governs_refl existing) trivial
          | some sourceUrl =>
              cases existing with
              | none =>
                  constructor
                  · intro h
                    exact (h.created _ rfl rfl).symm
                  · intro h
                    have hhost : hostSession.getD actor = actor := h
                    refine ⟨nofun, fun new _ hnew => ?_, fun _ p hp => ?_⟩
                    · cases hnew
                      exact hhost.symm
                    · simp [sessionAfter, participantsOf, applyStart, hhost, hp]
              | some old =>
                  refine (governs_some_iff (by rfl)).trans (or_congr_right ?_)
                  rw [or_iff_left (not_reelects fun _ h => by cases h)]
                  constructor
                  · intro h
                    exact ⟨h.hostSession, h.sourceUrl, h.sourceKind⟩
                  · rintro ⟨hhost, hurl, hkind⟩
                    exact ⟨hhost, hurl, hkind, rfl, rfl, rfl⟩
  | state state currentTime updatedAtMs hostSession =>
      cases existing with
      | none => exact iff_of_true (governs_refl none) trivial
      | some old =>
          refine (governs_some_iff (by rfl)).trans (or_congr_right ?_)
          rw [or_iff_left (not_reelects fun _ h => by cases h)]
          constructor
          · intro h
            exact ⟨h.state, h.currentTime, h.updatedAtMs, h.hostSession⟩
          · rintro ⟨hstate, htime, hms, hhost⟩
            exact ⟨hhost, rfl, rfl, hstate, htime, hms⟩
  | join session =>
      cases existing with
      | none => exact iff_of_true (governs_refl none) trivial
      | some old => exact governs_applyJoin_iff
  | leave session =>
      cases existing with
      | none => exact iff_of_true (governs_refl none) trivial
      | some old => exact governs_applyLeave_iff
  | stateRequest =>
      exact iff_of_true (governs_refl existing) (by cases existing <;> trivial)
  | endSession =>
      cases existing with
      | none => exact iff_of_true (governs_refl none) trivial
      | some old => exact governs_end_iff (not_reelects fun _ h => by cases h)
  | hostTransfer newHostSession =>
      cases existing with
      | none => exact iff_of_true (governs_refl none) trivial
      | some old =>
          refine (governs_some_iff (by rfl)).trans (or_congr_right (or_congr_left ?_))
          exact ⟨fun h => h.hostSession, fun h => ⟨h, rfl, rfl, rfl, rfl, rfl⟩⟩

theorem authority_iff (e : WatchViewEvent) : s.Authority e ↔ s.Authorized e := by
  cases e with
  | users users => exact Iff.rfl
  | sync now payload =>
      obtain ⟨sessionId, actor, event⟩ := payload
      cases sessionId with
      | none => exact iff_of_true (fun _ => .inl rfl) (fun _ _ h => by cases h)
      | some sessionId =>
          cases actor with
          | none => exact iff_of_true (fun _ => .inl rfl) (fun _ _ _ h => by cases h)
          | some actor =>
              have hiff : s.Governs actor event (findSession sessionId s.sessions)
                  (sessionAfter now sessionId actor event (findSession sessionId s.sessions)) ↔ _ :=
                governs_sessionAfter_iff now sessionId _
              have hat := find_applyWatchSyncEvent now sessionId actor event s.sessions
              constructor
              · rintro h _ _ ⟨⟩ ⟨⟩
                rw [← hiff]
                have hself := h sessionId
                rw [hat, if_pos rfl] at hself
                rcases hself with hsame | ⟨actor', hactor', hgov⟩
                · rw [hsame]
                  exact governs_refl _
                · cases hactor'
                  exact hgov
              · intro h id
                by_cases hid : id = sessionId
                · subst hid
                  refine .inr ⟨actor, rfl, ?_⟩
                  rw [hat, if_pos rfl, hiff]
                  exact h id actor rfl rfl
                · exact .inl (by rw [hat, if_neg hid])

/-- Sessions change with authority exactly in the runs in which every actor sends only what it
may send. -/
theorem authority_run_iff (events : List WatchViewEvent) :
    Along step Authority {} events ↔ Along step Authorized {} events :=
  along_congr fun _ e => authority_iff e

section Example

private def intruderExample : List WatchViewEvent :=
  [.users [1, 2],
    .sync 0 ⟨some "w", some 1, .start (some 0) (some "a.mp4") none none (some 1)⟩,
    .sync 1 ⟨some "w", some 2, .endSession⟩]

/-- Any user ends the session of another one. -/
theorem session_ended_by_other :
    ¬∀ events : List WatchViewEvent, Along step Authority {} events := by
  intro h
  have hauthority := (h intruderExample).2.2.1
  rw [authority_iff] at hauthority
  have hhost : (2 : UInt32) = 1 := hauthority "w" 2 rfl rfl
  exact absurd hhost (by decide)

end Example

end WatchView

end FancyMumble.Interface
