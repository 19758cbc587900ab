import FancyMumble.Interface.Watch

/-!
# Lifecycle of watch-together sessions

After each change of its sessions, of the user list or of the own channel, a client runs its
lifecycle effects: it elects a new host in place of one who is gone, leaves the sessions of a
channel that it has left, prunes participants who are gone, and advertises its own sessions
to newcomers.
-/

namespace FancyMumble.Interface

open Lib.Keyed Lib.Runs

structure WatchUser where
  session : UInt32
  channelId : UInt32
deriving DecidableEq

/-- What the lifecycle effects of a client read and write: parts of the store, the own channel
and the users at the last run, and the elections that it has seen to. -/
structure WatchClient where
  sessions : List WatchSession := []
  users : List WatchUser := []
  ownSession : Option UInt32 := none
  currentChannel : Option UInt32 := none
  reelected : List (String × UInt32) := []
  lastChannel : Option UInt32 := none
  seen : List WatchUser := []

namespace WatchClient

variable (s : WatchClient)

def present : List UInt32 := s.users.map WatchUser.session

/-! ## Effects -/

/-- A session of one's own whose host is gone, with someone to take over, that no election
has been held for. -/
def NeedsHost (own : UInt32) (session : WatchSession) : Prop :=
  own ∈ session.participants ∧ session.hostSession ∉ s.present ∧
    (session.sessionId, session.hostSession) ∉ s.reelected ∧
    candidates s.present session ≠ []

instance (own : UInt32) (session : WatchSession) : Decidable (s.NeedsHost own session) :=
  inferInstanceAs (Decidable (_ ∧ _ ∧ _ ∧ _))

def elections : List (String × UInt32) :=
  match s.ownSession with
  | none => []
  | some own => (s.sessions.filter (s.NeedsHost own)).map fun session =>
      (session.sessionId, session.hostSession)

/-- What host re-election sends: a transfer for every election that the client wins. -/
def transfers (own : UInt32) : List (String × WatchSyncEvent) :=
  (s.sessions.filter fun session => s.NeedsHost own session ∧
      electHost (candidates s.present session) session.sessionId = some own).map
    fun session => (session.sessionId, .hostTransfer (some own))

def HasLeft (channelId : UInt32) : Prop :=
  s.lastChannel = some channelId ∧ s.currentChannel ≠ some channelId

instance (channelId : UInt32) : Decidable (s.HasLeft channelId) :=
  inferInstanceAs (Decidable (_ ∧ _))

/-- Channel switch leave: what is sent about the sessions of the channel that was left. -/
def channelSwitchLeave (own : UInt32) : List (String × WatchSyncEvent) :=
  (s.sessions.filter fun session =>
      s.HasLeft session.channelId ∧ own ∈ session.participants).map
    fun session => (session.sessionId,
      if session.hostSession = own then .endSession else .leave (some own))

def missing : List (String × UInt32) :=
  s.sessions.flatMap fun session =>
    (session.participants.filter (· ∉ s.present)).map fun p => (session.sessionId, p)

def prune : List WatchSession :=
  s.missing.foldl (fun sessions gone =>
    applyWatchSyncEvent 0 ⟨some gone.1, some gone.2, .leave (some gone.2)⟩ sessions) s.sessions

def readvertise (now : ℕ) (own : UInt32) : List (String × WatchSyncEvent) :=
  (s.sessions.filter fun session => session.hostSession = own ∧
      ∃ u ∈ s.users, u.channelId = session.channelId ∧ u.session ≠ own ∧ u ∉ s.seen).flatMap
    fun session =>
      [(session.sessionId, .start (some session.channelId) (some session.sourceUrl)
          (some session.sourceKind) session.title (some session.hostSession)),
        (session.sessionId, .state (some session.state) (some session.currentTime) (some now)
          (some session.hostSession))]

/-- `useWatchLifecycle`: the client after its effects, which all start from the same sessions. -/
def effects : WatchClient :=
  { s with
    sessions := s.prune
    reelected := s.reelected ++ s.elections
    lastChannel := s.currentChannel
    seen := if s.ownSession.isSome then s.users else s.seen }

def sent (now : ℕ) : List (String × WatchSyncEvent) :=
  match s.ownSession with
  | none => []
  | some own => s.transfers own ++ s.channelSwitchLeave own ++ s.readvertise now own

/-! ## Sessions with distinct ids -/

def DistinctIds (sessions : List WatchSession) : Prop :=
  (sessions.map WatchSession.sessionId).Nodup

variable {s} {sessions : List WatchSession} {id : String}

theorem replaceSession_eq_map (h : DistinctIds sessions) {f : WatchSession → WatchSession}
    (hf : ∀ session, (f session).sessionId = session.sessionId) :
    replaceSession sessions (findSession id sessions) f =
      sessions.map fun session => if session.sessionId = id then f session else session := by
  cases hfind : findSession id sessions with
  | none =>
      have hsame : (sessions.map fun session =>
          if session.sessionId = id then f session else session) = sessions.map fun x => x :=
        List.map_congr_left fun session hsession =>
          if_neg (find_eq_none_iff.mp hfind session hsession)
      rw [hsame, List.map_id']
      rfl
  | some session => exact put_eq_map h hf hfind

theorem distinctIds_replaceSession (h : DistinctIds sessions) (existing : Option WatchSession)
    (f : WatchSession → WatchSession) : DistinctIds (replaceSession sessions existing f) := by
  cases existing with
  | none => exact h
  | some session => exact nodup_put h

theorem distinctIds_applyWatchSyncEvent (h : DistinctIds sessions) (now : ℕ)
    (payload : WatchSyncPayload) : DistinctIds (applyWatchSyncEvent now payload sessions) := by
  unfold applyWatchSyncEvent
  split
  next sessionId actor _ _ =>
    dsimp only
    split
    · split
      · exact nodup_put h
      · exact h
    · exact distinctIds_replaceSession h _ _
    · exact distinctIds_replaceSession h _ _
    · exact distinctIds_replaceSession h _ _
    · exact h
    · exact nodup_delete h
    · exact distinctIds_replaceSession h _ _
  next => exact h

theorem sessionId_sessionAfter {now : ℕ} {actor : UInt32} {event : WatchSyncEvent}
    {existing : Option WatchSession} (hid : ∀ old, existing = some old → old.sessionId = id)
    {new : WatchSession} (h : sessionAfter now id actor event existing = some new) :
    new.sessionId = id := by
  have hmap : ∀ f : WatchSession → WatchSession,
      (∀ old, (f old).sessionId = old.sessionId) → existing.map f = some new →
      new.sessionId = id := by
    intro f hf hnew
    obtain ⟨old, hold, rfl⟩ := Option.map_eq_some_iff.mp hnew
    exact (hf old).trans (hid old hold)
  unfold sessionAfter at h
  split at h
  · cases h
    rfl
  · exact hid new h
  · exact hid new h
  · exact hmap _ (fun _ => by rfl) h
  · exact hmap _ (sessionId_applyJoin _) h
  · exact hmap _ (fun _ => by rfl) h
  · cases h
  · exact hmap _ (fun _ => by rfl) h

theorem forall_mem_applyWatchSyncEvent (h : DistinctIds sessions) (now : ℕ) (actor : UInt32)
    (event : WatchSyncEvent) (P : WatchSession → Prop) :
    (∀ session ∈ applyWatchSyncEvent now ⟨some id, some actor, event⟩ sessions, P session) ↔
      (∀ new, sessionAfter now id actor event (findSession id sessions) = some new → P new) ∧
        ∀ session ∈ sessions, session.sessionId ≠ id → P session := by
  have hmem : ∀ session,
      session ∈ applyWatchSyncEvent now ⟨some id, some actor, event⟩ sessions ↔
        (if session.sessionId = id then sessionAfter now id actor event (findSession id sessions)
          else findSession session.sessionId sessions) = some session := by
    intro session
    rw [← find_applyWatchSyncEvent]
    have hafter := distinctIds_applyWatchSyncEvent h now ⟨some id, some actor, event⟩
    exact ((find_eq_some_iff hafter).trans (and_iff_left rfl)).symm
  constructor
  · intro hall
    refine ⟨fun new hnew => hall new ?_, fun session hsession hne => hall session ?_⟩
    · have hid := sessionId_sessionAfter (fun _ => key_of_find) hnew
      rw [hmem, if_pos hid, hnew]
    · rw [hmem, if_neg hne]
      exact (find_eq_some_iff h).mpr ⟨hsession, rfl⟩
  · rintro ⟨hnew, hothers⟩ session hsession
    rw [hmem] at hsession
    split at hsession
    next => exact hnew session hsession
    next hne => exact hothers session (mem_of_find hsession) hne

/-! ## Pruning -/

theorem foldl_leave (h : DistinctIds sessions) (gone : List (String × UInt32)) :
    gone.foldl (fun sessions gone =>
        applyWatchSyncEvent 0 ⟨some gone.1, some gone.2, .leave (some gone.2)⟩ sessions) sessions =
      sessions.map fun session =>
        { session with
          participants := session.participants.filter fun p => (session.sessionId, p) ∉ gone } := by
  induction gone generalizing sessions with
  | nil => simp
  | cons first gone ih =>
      obtain ⟨id, p⟩ := first
      rw [List.foldl_cons, ih (distinctIds_applyWatchSyncEvent h _ _)]
      have hfirst : applyWatchSyncEvent 0 ⟨some id, some p, .leave (some p)⟩ sessions =
          sessions.map fun session =>
            if session.sessionId = id then applyLeave p session else session :=
        replaceSession_eq_map h fun _ => rfl
      rw [hfirst, List.map_map]
      refine List.map_congr_left fun session _ => ?_
      simp only [Function.comp_apply]
      split
      next hid =>
        have hparts : (session.participants.filter (· ≠ p)).filter
            (fun q => (session.sessionId, q) ∉ gone) =
              session.participants.filter fun q => (session.sessionId, q) ∉ (id, p) :: gone := by
          rw [List.filter_filter]
          refine List.filter_congr fun q _ => ?_
          rw [Bool.and_comm, ← Bool.decide_and, decide_eq_decide, List.mem_cons, not_or, hid,
            Prod.mk.injEq, eq_self, true_and]
        exact congrArg (fun participants => { session with participants }) hparts
      next hid => simp [hid]

theorem mem_missing {session : WatchSession} (hsession : session ∈ s.sessions) {p : UInt32}
    (hp : p ∈ session.participants) :
    (session.sessionId, p) ∈ s.missing ↔ p ∉ s.present := by
  simp only [missing, List.mem_flatMap, List.mem_map, List.mem_filter, Prod.mk.injEq,
    decide_eq_true_eq]
  constructor
  · rintro ⟨other, _, q, ⟨_, hgone⟩, _, rfl⟩
    exact hgone
  · intro hgone
    exact ⟨session, hsession, p, ⟨hp, hgone⟩, rfl, rfl⟩

theorem prune_eq_map (h : DistinctIds s.sessions) :
    s.prune = s.sessions.map fun session =>
      { session with participants := session.participants.filter (· ∈ s.present) } := by
  rw [prune, foldl_leave h]
  refine List.map_congr_left fun session hsession => ?_
  congr 1
  refine List.filter_congr fun p hp => ?_
  rw [decide_eq_decide, mem_missing hsession hp, not_not]

/-! ## Attendance -/

def InChannel (s : WatchClient) (p channelId : UInt32) : Prop := ⟨p, channelId⟩ ∈ s.users

def Leaving (s : WatchClient) (p channelId : UInt32) : Prop :=
  s.ownSession = some p ∧ s.HasLeft channelId

def Welcome (s : WatchClient) (p channelId : UInt32) : Prop :=
  s.InChannel p channelId ∧ ¬s.Leaving p channelId

/-- After the effects, the hosts are participants, the participants are connected users in
the channels of the sessions, and the own user is in no session of a channel that it has
left. -/
structure Attended (s : WatchClient) : Prop where
  host : ∀ session ∈ s.effects.sessions, session.hostSession ∈ session.participants
  participants : ∀ session ∈ s.effects.sessions, ∀ p ∈ session.participants,
    s.InChannel p session.channelId
  left : ∀ session ∈ s.effects.sessions, ∀ p ∈ session.participants,
    ¬s.Leaving p session.channelId

/-- Before the effects, the host of a session takes part where it is, and so does every
participant who is in the user list. -/
structure Fits (s : WatchClient) (session : WatchSession) : Prop where
  host : session.hostSession ∈ session.participants
  hostWelcome : s.Welcome session.hostSession session.channelId
  welcome : ∀ p ∈ session.participants, p ∈ s.present → s.Welcome p session.channelId

def MayTurn (s : WatchClient) (actor : UInt32) (event : WatchSyncEvent)
    (existing : Option WatchSession) : Prop :=
  match event, existing with
  | .start (some channelId) (some _) _ _ hostSession, none =>
      s.Welcome (hostSession.getD actor) channelId
  | .start (some channelId) (some _) _ _ hostSession, some old =>
      hostSession.getD actor ∈ old.participants ∧ s.Welcome (hostSession.getD actor) channelId ∧
        ∀ p ∈ old.participants, p ∈ s.present → s.Welcome p channelId
  | .state _ _ _ (some host), some old | .hostTransfer (some host), some old =>
      host ∈ old.participants ∧ s.Welcome host old.channelId
  | .join session, some old =>
      session.getD actor ∈ s.present → s.Welcome (session.getD actor) old.channelId
  | .leave session, some old => session.getD actor ≠ old.hostSession
  | _, _ => True

inductive Event where
  | sync (now : ℕ) (payload : WatchSyncPayload)
  | users (users : List WatchUser)
  | moved (channelId : Option UInt32)
  | effects

def step (s : WatchClient) : Event → WatchClient
  | .sync now payload => { s with sessions := applyWatchSyncEvent now payload s.sessions }
  | .users users => { s with users }
  | .moved channelId => { s with currentChannel := channelId }
  | .effects => s.effects

/-- The events that keep every session attended: those of participants and hosts in the
channel; user lists in which nobody is elsewhere and no host is missing; and moves out of
channels in whose sessions one takes no part. -/
def KeepsAttended (s : WatchClient) : Event → Prop
  | .sync _ payload => ∀ id actor, payload.sessionId = some id → payload.actor = some actor →
      s.MayTurn actor payload.event (findSession id s.sessions)
  | .users users => ∀ session ∈ s.sessions,
      session.hostSession ∈ users.map WatchUser.session ∧
        ∀ p ∈ session.participants, p ∈ users.map WatchUser.session →
          Welcome { s with users } p session.channelId
  | .moved channelId => ∀ session ∈ s.sessions, ∀ own ∈ session.participants,
      s.ownSession = some own → own ∈ s.present →
        s.lastChannel = some session.channelId → channelId = some session.channelId
  | .effects => True

theorem mem_present_of_inChannel {p channelId : UInt32} (h : s.InChannel p channelId) :
    p ∈ s.present := List.mem_map.mpr ⟨_, h, rfl⟩

theorem attended_iff (h : DistinctIds s.sessions) :
    s.Attended ↔ ∀ session ∈ s.sessions, s.Fits session := by
  have hafter : ∀ P : WatchSession → Prop, (∀ session ∈ s.effects.sessions, P session) ↔
      ∀ session ∈ s.sessions,
        P { session with participants := session.participants.filter (· ∈ s.present) } := by
    intro P
    change (∀ session ∈ s.prune, P session) ↔ _
    rw [prune_eq_map h, List.forall_mem_map]
  constructor
  · intro hatt session hsession
    have hhost := (hafter _).mp hatt.host session hsession
    have hin := (hafter _).mp hatt.participants session hsession
    have hleft := (hafter _).mp hatt.left session hsession
    have hwelcome : ∀ p ∈ session.participants, p ∈ s.present →
        s.Welcome p session.channelId := by
      intro p hp hpresent
      have hkept : p ∈ session.participants.filter (· ∈ s.present) :=
        List.mem_filter.mpr ⟨hp, decide_eq_true hpresent⟩
      exact ⟨hin p hkept, hleft p hkept⟩
    obtain ⟨hhost, hpresent⟩ := List.mem_filter.mp hhost
    exact ⟨hhost, hwelcome _ hhost (of_decide_eq_true hpresent), hwelcome⟩
  · intro hfits
    refine ⟨(hafter _).mpr fun session hsession => ?_, (hafter _).mpr fun session hsession => ?_,
      (hafter _).mpr fun session hsession => ?_⟩
    · have hfit := hfits session hsession
      exact List.mem_filter.mpr
        ⟨hfit.host, decide_eq_true (mem_present_of_inChannel hfit.hostWelcome.1)⟩
    · intro p hp
      obtain ⟨hp, hpresent⟩ := List.mem_filter.mp hp
      exact ((hfits session hsession).welcome p hp (of_decide_eq_true hpresent)).1
    · intro p hp
      obtain ⟨hp, hpresent⟩ := List.mem_filter.mp hp
      exact ((hfits session hsession).welcome p hp (of_decide_eq_true hpresent)).2

structure AllFit (s : WatchClient) : Prop where
  distinct : DistinctIds s.sessions
  fits : ∀ session ∈ s.sessions, s.Fits session

theorem forall_some_iff {P : WatchSession → Prop} {session : WatchSession} :
    (∀ new, some session = some new → P new) ↔ P session := by
  constructor
  · intro h
    exact h session rfl
  · rintro h new ⟨⟩
    exact h

theorem Fits.host_iff {old new : WatchSession} (h : s.Fits old)
    (hchannel : new.channelId = old.channelId) (hsame : new.participants = old.participants) :
    s.Fits new ↔ new.hostSession ∈ old.participants ∧ s.Welcome new.hostSession old.channelId := by
  constructor
  · intro hnew
    exact ⟨hsame ▸ hnew.host, hchannel ▸ hnew.hostWelcome⟩
  · rintro ⟨hhost, hwelcome⟩
    refine ⟨hsame.symm ▸ hhost, hchannel.symm ▸ hwelcome, ?_⟩
    rw [hsame, hchannel]
    exact h.welcome

theorem Fits.applyJoin_iff {old : WatchSession} {session : UInt32} (h : s.Fits old) :
    s.Fits (applyJoin session old) ↔ (session ∈ s.present → s.Welcome session old.channelId) := by
  have hun : WatchView.Undisturbed old (applyJoin session old) :=
    WatchView.undisturbed_applyJoin session
  have hchannel : (applyJoin session old).channelId = old.channelId := by
    unfold applyJoin
    split <;> rfl
  constructor
  · intro hnew hpresent
    rw [← hchannel]
    exact hnew.welcome _ (WatchView.mem_applyJoin.mpr (.inr rfl)) hpresent
  · intro hjoin
    refine ⟨?_, ?_, fun p hp hpresent => ?_⟩
    · rw [hun.hostSession]
      exact WatchView.mem_applyJoin.mpr (.inl h.host)
    · rw [hun.hostSession, hchannel]
      exact h.hostWelcome
    · rw [hchannel]
      rcases WatchView.mem_applyJoin.mp hp with hp | rfl
      · exact h.welcome p hp hpresent
      · exact hjoin hpresent

theorem Fits.applyLeave_iff {old : WatchSession} {session : UInt32} (h : s.Fits old) :
    s.Fits (applyLeave session old) ↔ session ≠ old.hostSession := by
  constructor
  · intro hnew hhost
    exact absurd hhost.symm (of_decide_eq_true (List.mem_filter.mp hnew.host).2)
  · intro hother
    exact ⟨List.mem_filter.mpr ⟨h.host, decide_eq_true (Ne.symm hother)⟩,
      h.hostWelcome, fun p hp => h.welcome p (List.mem_filter.mp hp).1⟩

/-- An event turns a session that fits into one that fits if and only if it may turn it. -/
theorem fits_sessionAfter_iff {now : ℕ} {actor : UInt32} {event : WatchSyncEvent}
    {existing : Option WatchSession} (h : ∀ old, existing = some old → s.Fits old) :
    (∀ new, sessionAfter now id actor event existing = some new → s.Fits new) ↔
      s.MayTurn actor event existing := by
  cases event with
  | start channelId sourceUrl sourceKind title hostSession =>
      cases channelId with
      | none => exact iff_of_true h trivial
      | some channelId =>
          cases sourceUrl with
          | none => exact iff_of_true h trivial
          | some sourceUrl =>
              cases existing with
              | none =>
                  constructor
                  · intro hnew
                    exact (hnew _ rfl).hostWelcome
                  · rintro hhost new ⟨⟩
                    refine ⟨List.mem_singleton_self _, hhost, fun p hp _ => ?_⟩
                    obtain rfl := List.mem_singleton.mp hp
                    exact hhost
              | some old =>
                  constructor
                  · intro hnew
                    have hfit := hnew _ rfl
                    exact ⟨hfit.host, hfit.hostWelcome, hfit.welcome⟩
                  · rintro ⟨hhost, hwelcome, hall⟩ new ⟨⟩
                    exact ⟨hhost, hwelcome, hall⟩
  | state state currentTime updatedAtMs hostSession =>
      cases existing with
      | none => exact iff_of_true nofun (by cases hostSession <;> trivial)
      | some old =>
          have hfit := h old rfl
          refine forall_some_iff.trans ((hfit.host_iff (by rfl) (by rfl)).trans ?_)
          cases hostSession with
          | none => exact iff_of_true ⟨hfit.host, hfit.hostWelcome⟩ trivial
          | some host => exact Iff.rfl
  | join session =>
      cases existing with
      | none => exact iff_of_true nofun trivial
      | some old => exact forall_some_iff.trans (h old rfl).applyJoin_iff
  | leave session =>
      cases existing with
      | none => exact iff_of_true nofun trivial
      | some old => exact forall_some_iff.trans (h old rfl).applyLeave_iff
  | stateRequest => exact iff_of_true h (by cases existing <;> trivial)
  | endSession => exact iff_of_true nofun (by cases existing <;> trivial)
  | hostTransfer newHostSession =>
      cases existing with
      | none => exact iff_of_true nofun (by cases newHostSession <;> trivial)
      | some old =>
          have hfit := h old rfl
          refine forall_some_iff.trans ((hfit.host_iff (by rfl) (by rfl)).trans ?_)
          cases newHostSession with
          | none => exact iff_of_true ⟨hfit.host, hfit.hostWelcome⟩ trivial
          | some host => exact Iff.rfl

theorem fits_sessions_iff {session : WatchSession} :
    Fits { s with sessions } session ↔ s.Fits session :=
  ⟨fun h => ⟨h.host, h.hostWelcome, h.welcome⟩, fun h => ⟨h.host, h.hostWelcome, h.welcome⟩⟩

theorem distinctIds_step (h : DistinctIds s.sessions) (e : Event) :
    DistinctIds (s.step e).sessions := by
  cases e with
  | sync now payload => exact distinctIds_applyWatchSyncEvent h now payload
  | users users => exact h
  | moved channelId => exact h
  | effects =>
      change DistinctIds s.prune
      rw [prune_eq_map h]
      unfold DistinctIds
      rw [List.map_map]
      exact h

theorem allFit_effects (h : s.AllFit) : s.effects.AllFit where
  distinct := distinctIds_step h.distinct .effects
  fits := by
    have hnone : ∀ p channelId, ¬s.effects.Leaving p channelId := by
      rintro p channelId ⟨-, hlast, hnot⟩
      exact hnot hlast
    have hatt := (attended_iff h.distinct).mpr h.fits
    intro session hsession
    have hhost := hatt.host session hsession
    have hin := hatt.participants session hsession
    exact ⟨hhost, ⟨hin _ hhost, hnone _ _⟩, fun p hp _ => ⟨hin p hp, hnone _ _⟩⟩

theorem fits_step_iff (h : s.AllFit) (e : Event) :
    (∀ session ∈ (s.step e).sessions, (s.step e).Fits session) ↔ s.KeepsAttended e := by
  cases e with
  | sync now payload =>
      obtain ⟨sessionId, actor, event⟩ := payload
      cases sessionId with
      | none => exact iff_of_true h.fits (fun _ _ hid => by cases hid)
      | some sessionId =>
          cases actor with
          | none => exact iff_of_true h.fits (fun _ _ _ hactor => by cases hactor)
          | some actor =>
              have hothers : ∀ session ∈ s.sessions, session.sessionId ≠ sessionId →
                  s.Fits session := fun session hsession _ => h.fits session hsession
              have hold : ∀ old, findSession sessionId s.sessions = some old → s.Fits old :=
                fun old hold => h.fits old (mem_of_find hold)
              calc
                (∀ session ∈ applyWatchSyncEvent now _ s.sessions,
                    Fits { s with sessions := _ } session)
                _ ↔ ∀ session ∈ applyWatchSyncEvent now _ s.sessions, s.Fits session :=
                  forall₂_congr fun _ _ => fits_sessions_iff
                _ ↔ _ := (forall_mem_applyWatchSyncEvent h.distinct now actor event _).trans
                  (and_iff_left hothers)
                _ ↔ s.MayTurn actor event (findSession sessionId s.sessions) :=
                  fits_sessionAfter_iff hold
                _ ↔ s.KeepsAttended (.sync now ⟨some sessionId, some actor, event⟩) := by
                  constructor
                  · rintro hmay _ _ ⟨⟩ ⟨⟩
                    exact hmay
                  · intro hmay
                    exact hmay sessionId actor rfl rfl
  | users users =>
      refine forall₂_congr fun session hsession => ?_
      have hfit := h.fits session hsession
      constructor
      · intro hnew
        exact ⟨mem_present_of_inChannel hnew.hostWelcome.1, hnew.welcome⟩
      · rintro ⟨hhost, hwelcome⟩
        exact ⟨hfit.host, hwelcome _ hfit.host hhost, hwelcome⟩
  | moved channelId =>
      refine forall₂_congr fun session hsession => ?_
      have hfit := h.fits session hsession
      constructor
      · intro hnew own hown hself hpresent hlast
        by_contra hmoved
        exact (hnew.welcome own hown hpresent).2 ⟨hself, hlast, hmoved⟩
      · intro hstay
        have hwelcome : ∀ p ∈ session.participants, p ∈ s.present →
            (s.step (.moved channelId)).Welcome p session.channelId := by
          intro p hp hpresent
          refine ⟨(hfit.welcome p hp hpresent).1, ?_⟩
          rintro ⟨hself, hlast, hmoved⟩
          exact hmoved (hstay p hp hself hpresent hlast)
        exact ⟨hfit.host, hwelcome _ hfit.host (mem_present_of_inChannel hfit.hostWelcome.1),
          hwelcome⟩
  | effects => exact iff_of_true (allFit_effects h).fits trivial

def fresh (ownSession currentChannel : Option UInt32) : WatchClient :=
  { ownSession, currentChannel, lastChannel := currentChannel }

/-- In every state of a run the effects leave all sessions attended exactly in the runs of
events that keep them so. -/
theorem attended_run_iff (ownSession currentChannel : Option UInt32) (events : List Event) :
    Along step (fun s e => (s.step e).Attended) (fresh ownSession currentChannel) events ↔
      Along step KeepsAttended (fresh ownSession currentChannel) events :=
  along_iff_of_invariant
    (fun s e (hs : s.AllFit) =>
      (attended_iff (distinctIds_step hs.distinct e)).trans (fits_step_iff hs e))
    (fun s e (hs : s.AllFit) hkeep =>
      ⟨distinctIds_step hs.distinct e, (fits_step_iff hs e).mpr hkeep⟩)
    ⟨List.nodup_nil, nofun⟩

section Example

private def movedExample : List Event :=
  [.users [⟨1, 0⟩, ⟨2, 0⟩],
    .sync 0 ⟨some "w", some 1, .start (some 0) (some "a.mp4") none none (some 1)⟩,
    .sync 1 ⟨some "w", some 2, .join (some 2)⟩, .effects, .users [⟨1, 0⟩, ⟨2, 5⟩]]

/-- A participant who has moved to another channel stays one. -/
theorem moved_participant_stays :
    ¬∀ (ownSession currentChannel : Option UInt32) (events : List Event),
      Along step (fun s e => (s.step e).Attended) (fresh ownSession currentChannel) events := by
  intro h
  have hatt := (h (some 1) (some 0) movedExample).2.2.2.2.1
  have hin : (⟨2, 0⟩ : WatchUser) ∈ [⟨1, 0⟩, ⟨2, 5⟩] :=
    hatt.participants _ (List.mem_singleton_self _) 2 (by decide)
  exact absurd hin (by decide)

end Example

end WatchClient

end FancyMumble.Interface
