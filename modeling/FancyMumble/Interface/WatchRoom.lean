import FancyMumble.Interface.WatchLifecycle

/-!
# Host re-election

The clients of a channel each have their own sessions and user list. The server relays what a
client sends to all others, and not to the client itself; messages arrive in any order.
-/

namespace FancyMumble.Interface

open Lib.Keyed Lib.Runs

/-- The clients by their sessions, which of them are connected, the messages in flight with
their recipients, everything that was sent, and the ids of sessions that are in use. -/
structure WatchRoom where
  clients : UInt32 → WatchClient := fun c => { ownSession := some c }
  connected : List UInt32 := []
  inFlight : List (UInt32 × WatchSyncPayload) := []
  sent : List (UInt32 × String × WatchSyncEvent) := []
  ids : List String := []

/-- What happens in a channel: users come and go, act on a session, see another user list or
move, run their effects, and get their messages. -/
inductive WatchRoomEvent where
  | connect (c : UInt32)
  | disconnect (c : UInt32)
  | start (c : UInt32) (id : String) (channelId : UInt32) (sourceUrl : String)
      (sourceKind : WatchSourceKind) (title : Option String) (now : ℕ)
  | join (c : UInt32) (id : String)
  | leave (c : UInt32) (id : String)
  | finish (c : UInt32) (id : String)
  | playback (c : UInt32) (id : String) (state : WatchPlaybackState) (currentTime : ℚ) (now : ℕ)
  | requestState (c : UInt32) (id : String)
  | users (c : UInt32) (users : List WatchUser)
  | moved (c : UInt32) (channelId : Option UInt32)
  | effects (c : UInt32) (now : ℕ)
  | deliver (i : ℕ) (now : ℕ)

namespace WatchRoom

variable (s : WatchRoom)

def update (c : UInt32) (client : WatchClient) : WatchRoom :=
  { s with clients := Function.update s.clients c client }

def applyOwn (c : UInt32) (now : ℕ) (id : String) (event : WatchSyncEvent) : WatchRoom :=
  s.update c
    { s.clients c with
      sessions := applyWatchSyncEvent now ⟨some id, some c, event⟩ (s.clients c).sessions }

def relay (c : UInt32) (messages : List (String × WatchSyncEvent)) : WatchRoom :=
  { s with
    inFlight := s.inFlight ++ messages.flatMap fun m =>
      (s.connected.filter (· ≠ c)).map fun r => (r, ⟨some m.1, some c, m.2⟩)
    sent := s.sent ++ messages.map fun m => (c, m) }

def sessionAt (c : UInt32) (id : String) : Option WatchSession :=
  findSession id (s.clients c).sessions

def act : WatchRoomEvent → WatchRoom
  -- the id of a new session is a random one
  | .start c id channelId sourceUrl sourceKind title now =>
      if id ∈ s.ids then s
      else
        let event : WatchSyncEvent :=
          .start (some channelId) (some sourceUrl) (some sourceKind) title (some c)
        ({ s with ids := id :: s.ids }.applyOwn c now id event).relay c [(id, event)]
  | .join c id =>
      if (s.sessionAt c id).any fun session => c ∉ session.participants then
        (s.applyOwn c 0 id (.join (some c))).relay c [(id, .join (some c))]
      else s
  | .leave c id =>
      if (s.sessionAt c id).isSome then
        (s.applyOwn c 0 id (.leave (some c))).relay c [(id, .leave (some c))]
      else s
  | .finish c id =>
      if (s.sessionAt c id).any fun session => session.hostSession = c then
        (s.applyOwn c 0 id .endSession).relay c [(id, .endSession)]
      else s
  | .playback c id state currentTime now =>
      if (s.sessionAt c id).any fun session => session.hostSession = c then
        s.relay c [(id, .state (some state) (some currentTime) (some now) (some c))]
      else s
  | .requestState c id => if (s.sessionAt c id).isSome then s.relay c [(id, .stateRequest)] else s
  | .users c users => s.update c { s.clients c with users }
  | .moved c channelId => s.update c { s.clients c with currentChannel := channelId }
  | .effects c now => (s.update c (s.clients c).effects).relay c ((s.clients c).sent now)
  | .connect _ | .disconnect _ | .deliver _ _ => s

def actor : WatchRoomEvent → Option UInt32
  | .start c _ _ _ _ _ _ | .join c _ | .leave c _ | .finish c _ | .playback c _ _ _ _
  | .requestState c _ | .users c _ | .moved c _ | .effects c _ => some c
  | .connect _ | .disconnect _ | .deliver _ _ => none

def step (e : WatchRoomEvent) : WatchRoom :=
  match e with
  | .connect c =>
      { s.update c { ownSession := some c } with connected := c :: s.connected.filter (· ≠ c) }
  | .disconnect c => { s with connected := s.connected.filter (· ≠ c) }
  | .deliver i now =>
      match s.inFlight[i]? with
      | none => s
      | some (c, payload) =>
          let rest := { s with inFlight := s.inFlight.eraseIdx i }
          if c ∈ s.connected then
            rest.update c
              { s.clients c with
                sessions := applyWatchSyncEvent now payload (s.clients c).sessions }
          else rest
  | e => if ∃ c ∈ actor e, c ∈ s.connected then s.act e else s

/-! ## Agreement -/

def Transferred (since : ℕ) (id : String) (c : UInt32) : Prop :=
  ∃ host, (c, id, .hostTransfer host) ∈ s.sent.drop since

/-- Exactly one of the clients that are left has sent a host transfer, and it is the host for
all of them, itself included. -/
def Reelected (since : ℕ) (id : String) : Prop :=
  ∃ winner ∈ s.connected, (∀ c ∈ s.connected, s.Transferred since id c ↔ c = winner) ∧
    (s.sessionAt winner id).isSome ∧
    ∀ c ∈ s.connected, ∀ session, s.sessionAt c id = some session → session.hostSession = winner

/-- The host of a session is gone, and a client that takes part in it is left. -/
def Vacated (id : String) : Prop :=
  ∃ c ∈ s.connected, ∃ session ∈ s.sessionAt c id,
    c ∈ session.participants ∧ session.hostSession ∉ s.connected

instance (id : String) : Decidable (s.Vacated id) := List.decidableBEx _ _

/-- All messages are delivered, the clients see who is connected, and no election is left to
be held. -/
def Settled : Prop :=
  s.inFlight = [] ∧ ∀ c ∈ s.connected,
    (∀ p ∈ (s.clients c).present, p ∈ s.connected) ∧
      (∀ p ∈ s.connected, p ∈ (s.clients c).present) ∧ (s.clients c).elections = []

instance : Decidable s.Settled :=
  have (c : UInt32) : Decidable (∀ p ∈ (s.clients c).present, p ∈ s.connected) :=
    List.decidableBAll _ _
  have (c : UInt32) : Decidable (∀ p ∈ s.connected, p ∈ (s.clients c).present) :=
    List.decidableBAll _ _
  have : Decidable (∀ c ∈ s.connected,
      (∀ p ∈ (s.clients c).present, p ∈ s.connected) ∧
        (∀ p ∈ s.connected, p ∈ (s.clients c).present) ∧ (s.clients c).elections = []) :=
    List.decidableBAll _ _
  inferInstanceAs (Decidable (_ ∧ _))

def announcedHost (actor : UInt32) : WatchSyncEvent → Option UInt32
  | .start _ _ _ _ hostSession => some (hostSession.getD actor)
  | .state _ _ _ hostSession | .hostTransfer hostSession => hostSession
  | .join _ | .leave _ | .stateRequest | .endSession => none

/-- Every client names only itself as the host, nobody gets a message of their own, and no
client has itself as the host after it has sent a transfer. -/
structure Outvoted (s : WatchRoom) : Prop where
  own : ∀ c, (s.clients c).ownSession = some c
  distinct : ∀ c, WatchClient.DistinctIds (s.clients c).sessions
  known : ∀ c, ∀ session ∈ (s.clients c).sessions, session.sessionId ∈ s.ids
  flight : ∀ m ∈ s.inFlight, ∃ id actor event, m.2 = ⟨some id, some actor, event⟩ ∧
    id ∈ s.ids ∧ actor ≠ m.1 ∧ ∀ host, announcedHost actor event = some host → host = actor
  sentIds : ∀ m ∈ s.sent, m.2.1 ∈ s.ids
  host : ∀ c id host, (c, id, .hostTransfer host) ∈ s.sent →
    ∀ session ∈ (s.clients c).sessions, session.sessionId = id → session.hostSession ≠ c

variable {s}

theorem outvoted_start : Outvoted {} where
  own _ := rfl
  distinct _ := List.nodup_nil
  known _ _ h := absurd h List.not_mem_nil
  flight _ h := absurd h List.not_mem_nil
  sentIds _ h := absurd h List.not_mem_nil
  host _ _ _ h := absurd h List.not_mem_nil

theorem Outvoted.not_reelected (h : s.Outvoted) (since : ℕ) (id : String) :
    ¬s.Reelected since id := by
  rintro ⟨winner, hwinner, hsent, hsome, hhost⟩
  obtain ⟨host, htransfer⟩ := (hsent winner hwinner).mpr rfl
  obtain ⟨session, hsession⟩ := Option.isSome_iff_exists.mp hsome
  exact h.host winner id host (List.mem_of_mem_drop htransfer) session (mem_of_find hsession)
    (key_of_find hsession) (hhost winner hwinner session hsession)

/-! ## Hosts -/

/-- A session after an event has the host that it had, or the one that the event names. -/
theorem host_of_mem_applyWatchSyncEvent {now : ℕ} {id : String} {actor : UInt32}
    {event : WatchSyncEvent} {sessions : List WatchSession} {session : WatchSession}
    (h : session ∈ applyWatchSyncEvent now ⟨some id, some actor, event⟩ sessions) :
    (∃ old ∈ sessions, session.sessionId = old.sessionId ∧
        session.hostSession = old.hostSession) ∨
      session.sessionId = id ∧ announcedHost actor event = some session.hostSession := by
  have hsame : session ∈ sessions → ∃ old ∈ sessions, session.sessionId = old.sessionId ∧
      session.hostSession = old.hostSession := fun hmem => ⟨session, hmem, rfl, rfl⟩
  -- an entry is replaced by one with its id
  have hreplace : ∀ f : WatchSession → WatchSession,
      session ∈ replaceSession sessions (findSession id sessions) f →
      session ∈ sessions ∨ ∃ old ∈ sessions, old.sessionId = id ∧ session = f old := by
    intro f hmem
    cases hfind : findSession id sessions with
    | none =>
        rw [hfind] at hmem
        exact .inl hmem
    | some old =>
        rw [hfind] at hmem
        rcases mem_put.mp hmem with rfl | ⟨hmem, -⟩
        · exact .inr ⟨old, mem_of_find hfind, key_of_find hfind, rfl⟩
        · exact .inl hmem
  cases event with
  | start channelId sourceUrl sourceKind title hostSession =>
      cases channelId with
      | none => cases sourceUrl <;> exact .inl (hsame h)
      | some channelId =>
          cases sourceUrl with
          | none => exact .inl (hsame h)
          | some sourceUrl =>
              rcases mem_put.mp h with rfl | ⟨hmem, -⟩
              · exact .inr ⟨rfl, rfl⟩
              · exact .inl (hsame hmem)
  | state state currentTime updatedAtMs hostSession =>
      rcases hreplace _ h with hmem | ⟨old, hold, hid, rfl⟩
      · exact .inl (hsame hmem)
      · cases hostSession with
        | none => exact .inl ⟨old, hold, rfl, rfl⟩
        | some host => exact .inr ⟨hid, rfl⟩
  | join p =>
      rcases hreplace _ h with hmem | ⟨old, hold, -, rfl⟩
      · exact .inl (hsame hmem)
      · exact .inl ⟨old, hold, sessionId_applyJoin _ _,
          (WatchView.undisturbed_applyJoin _).hostSession⟩
  | leave p =>
      rcases hreplace _ h with hmem | ⟨old, hold, -, rfl⟩
      · exact .inl (hsame hmem)
      · exact .inl ⟨old, hold, rfl, rfl⟩
  | stateRequest => exact .inl (hsame h)
  | endSession => exact .inl (hsame (mem_delete.mp h).1)
  | hostTransfer newHostSession =>
      rcases hreplace _ h with hmem | ⟨old, hold, hid, rfl⟩
      · exact .inl (hsame hmem)
      · cases newHostSession with
        | none => exact .inl ⟨old, hold, rfl, rfl⟩
        | some host => exact .inr ⟨hid, rfl⟩

theorem host_of_mem_prune {client : WatchClient} (h : WatchClient.DistinctIds client.sessions)
    {session : WatchSession} (hsession : session ∈ client.prune) :
    ∃ old ∈ client.sessions, session.sessionId = old.sessionId ∧
      session.hostSession = old.hostSession := by
  rw [WatchClient.prune_eq_map h] at hsession
  obtain ⟨old, hold, rfl⟩ := List.mem_map.mp hsession
  exact ⟨old, hold, rfl, rfl⟩

/-! ## Steps -/

theorem Outvoted.update (h : s.Outvoted) {c : UInt32} {client : WatchClient}
    (hown : client.ownSession = some c) (hdistinct : WatchClient.DistinctIds client.sessions)
    (hsessions : ∀ session ∈ client.sessions, session.sessionId ∈ s.ids ∧
      ∀ host, (c, session.sessionId, .hostTransfer host) ∈ s.sent → session.hostSession ≠ c) :
    (s.update c client).Outvoted := by
  have hcases : ∀ P : UInt32 → WatchClient → Prop, P c client →
      (∀ d, P d (s.clients d)) → ∀ d, P d ((s.update c client).clients d) := by
    intro P hc hothers d
    simp only [WatchRoom.update, Function.update_apply]
    split
    next hd => exact hd ▸ hc
    next => exact hothers d
  exact {
    own := hcases (fun d client => client.ownSession = some d) hown h.own
    distinct := hcases (fun _ client => WatchClient.DistinctIds client.sessions) hdistinct
      h.distinct
    known := hcases (fun _ client => ∀ session ∈ client.sessions, session.sessionId ∈ s.ids)
      (fun session hsession => (hsessions session hsession).1) h.known
    flight := h.flight
    sentIds := h.sentIds
    host := hcases (fun d client => ∀ id host, (d, id, .hostTransfer host) ∈ s.sent →
        ∀ session ∈ client.sessions, session.sessionId = id → session.hostSession ≠ d)
      (fun id host hsent session hsession hid =>
        (hsessions session hsession).2 host (hid ▸ hsent)) h.host }

theorem Outvoted.update_of_hosts (h : s.Outvoted) {c : UInt32} {client : WatchClient}
    (hown : client.ownSession = some c) (hdistinct : WatchClient.DistinctIds client.sessions)
    (hhosts : ∀ session ∈ client.sessions, ∃ old ∈ (s.clients c).sessions,
      session.sessionId = old.sessionId ∧ session.hostSession = old.hostSession) :
    (s.update c client).Outvoted := by
  refine h.update hown hdistinct fun session hsession => ?_
  obtain ⟨old, hold, hid, hhost⟩ := hhosts session hsession
  rw [hid, hhost]
  exact ⟨h.known c old hold, fun host hsent => h.host c _ host hsent old hold rfl⟩

theorem Outvoted.relay (h : s.Outvoted) {c : UInt32} {messages : List (String × WatchSyncEvent)}
    (hids : ∀ m ∈ messages, m.1 ∈ s.ids)
    (hhosts : ∀ m ∈ messages, ∀ host, announcedHost c m.2 = some host → host = c)
    (htransfers : ∀ m ∈ messages, ∀ host, m.2 = .hostTransfer host →
      ∀ session ∈ (s.clients c).sessions, session.sessionId = m.1 → session.hostSession ≠ c) :
    (s.relay c messages).Outvoted where
  own := h.own
  distinct := h.distinct
  known := h.known
  flight := by
    intro m hm
    rcases List.mem_append.mp hm with hm | hm
    · exact h.flight m hm
    · obtain ⟨message, hmessage, hm⟩ := List.mem_flatMap.mp hm
      obtain ⟨r, hr, rfl⟩ := List.mem_map.mp hm
      exact ⟨message.1, c, message.2, rfl, hids message hmessage,
        Ne.symm (of_decide_eq_true (List.mem_filter.mp hr).2), hhosts message hmessage⟩
  sentIds := by
    intro m hm
    rcases List.mem_append.mp hm with hm | hm
    · exact h.sentIds m hm
    · obtain ⟨message, hmessage, rfl⟩ := List.mem_map.mp hm
      exact hids message hmessage
  host := by
    intro d id host hm
    rcases List.mem_append.mp hm with hm | hm
    · exact h.host d id host hm
    · obtain ⟨message, hmessage, heq⟩ := List.mem_map.mp hm
      cases heq
      exact htransfers _ hmessage host rfl

theorem Outvoted.relay_one (h : s.Outvoted) {c : UInt32} {id : String} {event : WatchSyncEvent}
    (hid : id ∈ s.ids) (hhost : ∀ host, announcedHost c event = some host → host = c)
    (htransfer : ∀ host, event ≠ .hostTransfer host) : (s.relay c [(id, event)]).Outvoted := by
  refine h.relay (fun m hm => ?_) (fun m hm => ?_) fun m hm host heq => ?_
  · rw [List.mem_singleton.mp hm]
    exact hid
  · rw [List.mem_singleton.mp hm]
    exact hhost
  · rw [List.mem_singleton.mp hm] at heq
    exact absurd heq (htransfer host)

theorem Outvoted.applyOwn (h : s.Outvoted) {c : UInt32} {now : ℕ} {id : String}
    {event : WatchSyncEvent} (hhost : announcedHost c event = none) :
    (s.applyOwn c now id event).Outvoted := by
  have hdistinct := WatchClient.distinctIds_applyWatchSyncEvent (h.distinct c) now
    ⟨some id, some c, event⟩
  refine h.update_of_hosts (h.own c) hdistinct fun session hsession => ?_
  rcases host_of_mem_applyWatchSyncEvent hsession with hold | ⟨-, hnamed⟩
  · exact hold
  · rw [hhost] at hnamed
    cases hnamed

theorem Outvoted.start (h : s.Outvoted) {c : UInt32} {now : ℕ} {id : String} (hid : id ∉ s.ids)
    {event : WatchSyncEvent} (hhost : announcedHost c event = some c)
    (htransfer : ∀ host, event ≠ .hostTransfer host) :
    (({ s with ids := id :: s.ids }.applyOwn c now id event).relay c [(id, event)]).Outvoted := by
  have hlearned : Outvoted { s with ids := id :: s.ids } := {
    own := h.own
    distinct := h.distinct
    known := fun d session hsession => List.mem_cons_of_mem id (h.known d session hsession)
    flight := fun m hm => by
      obtain ⟨id', actor, event', heq, hid', hrest⟩ := h.flight m hm
      exact ⟨id', actor, event', heq, List.mem_cons_of_mem id hid', hrest⟩
    sentIds := fun m hm => List.mem_cons_of_mem id (h.sentIds m hm)
    host := h.host }
  have hupdated : ({ s with ids := id :: s.ids }.applyOwn c now id event).Outvoted := by
    have hdistinct := WatchClient.distinctIds_applyWatchSyncEvent (h.distinct c) now
      ⟨some id, some c, event⟩
    refine hlearned.update (h.own c) hdistinct fun session hsession => ?_
    rcases host_of_mem_applyWatchSyncEvent hsession with ⟨old, hold, hsame, hold'⟩ | ⟨hnew, -⟩
    · rw [hsame, hold']
      exact ⟨List.mem_cons_of_mem id (h.known c old hold),
        fun host hsent => h.host c _ host hsent old hold rfl⟩
    · rw [hnew]
      exact ⟨List.mem_cons_self, fun host hsent => absurd (h.sentIds _ hsent) hid⟩
  refine hupdated.relay_one List.mem_cons_self (fun host hnamed => ?_) htransfer
  rw [hhost] at hnamed
  exact (Option.some.inj hnamed).symm

theorem mem_ids_of_sessionAt (h : s.Outvoted) {c : UInt32} {id : String} {session : WatchSession}
    (hsession : s.sessionAt c id = some session) : id ∈ s.ids := by
  have hknown := h.known c session (mem_of_find hsession)
  rwa [key_of_find hsession] at hknown

/-- The effects of a client send messages that name only itself as the host, and transfers only
for sessions with another host. -/
theorem Outvoted.effects (h : s.Outvoted) (c : UInt32) (now : ℕ) :
    ((s.update c (s.clients c).effects).relay c ((s.clients c).sent now)).Outvoted := by
  have hsent : (s.clients c).sent now = (s.clients c).transfers c ++
      (s.clients c).channelSwitchLeave c ++ (s.clients c).readvertise now c := by
    simp only [WatchClient.sent, h.own c]
  have hupdated : (s.update c (s.clients c).effects).Outvoted :=
    h.update_of_hosts (h.own c) (WatchClient.distinctIds_step (h.distinct c) .effects)
      fun session hsession => host_of_mem_prune (h.distinct c) hsession
  have hmessages : ∀ m ∈ (s.clients c).sent now, m.1 ∈ s.ids ∧
      (∀ host, announcedHost c m.2 = some host → host = c) ∧
      ∀ host, m.2 = .hostTransfer host → ∀ session ∈ (s.clients c).prune,
        session.sessionId = m.1 → session.hostSession ≠ c := by
    intro m hm
    rw [hsent, List.append_assoc, List.mem_append, List.mem_append] at hm
    rcases hm with hm | hm | hm
    · obtain ⟨due, hdue, rfl⟩ := List.mem_map.mp hm
      obtain ⟨hdue, hwon⟩ := List.mem_filter.mp hdue
      obtain ⟨-, hwon⟩ := of_decide_eq_true hwon
      refine ⟨h.known c due hdue, fun host hhost => (Option.some.inj hhost).symm,
        fun host _ session hsession hid => ?_⟩
      obtain ⟨old, hold, hid', hhost⟩ := host_of_mem_prune (h.distinct c) hsession
      have hsame : old = due := List.inj_on_of_nodup_map (h.distinct c) hold hdue
        (hid'.symm.trans hid)
      have hcandidate := List.mem_filter.mp (mem_of_electHost hwon)
      rw [hhost, hsame]
      exact Ne.symm (of_decide_eq_true hcandidate.2).1
    · obtain ⟨session, hsession, rfl⟩ := List.mem_map.mp hm
      have hmem := (List.mem_filter.mp hsession).1
      refine ⟨h.known c session hmem, fun host hhost => ?_, fun host heq => ?_⟩
      · dsimp only at hhost
        split at hhost <;> cases hhost
      · dsimp only at heq
        split at heq <;> cases heq
    · obtain ⟨session, hsession, hm⟩ := List.mem_flatMap.mp hm
      obtain ⟨hmem, hown⟩ := List.mem_filter.mp hsession
      obtain ⟨hown, -⟩ := of_decide_eq_true hown
      rcases List.mem_cons.mp hm with rfl | hm
      · exact ⟨h.known c session hmem,
          fun host hhost => (Option.some.inj hhost).symm.trans hown, fun host heq => by cases heq⟩
      · obtain rfl := List.mem_singleton.mp hm
        exact ⟨h.known c session hmem,
          fun host hhost => (Option.some.inj hhost).symm.trans hown, fun host heq => by cases heq⟩
  refine hupdated.relay (fun m hm => (hmessages m hm).1) (fun m hm => (hmessages m hm).2.1)
    fun m hm host heq session hsession hid => ?_
  simp only [WatchRoom.update, Function.update_self] at hsession
  exact (hmessages m hm).2.2 host heq session hsession hid

theorem outvoted_act (h : s.Outvoted) (e : WatchRoomEvent) : (s.act e).Outvoted := by
  cases e with
  | start c id channelId sourceUrl sourceKind title now =>
      simp only [act]
      split
      next => exact h
      next hid => exact h.start hid rfl nofun
  | join c id =>
      simp only [act]
      split
      next hany =>
        obtain ⟨session, hsession, -⟩ := (Option.any_eq_true _ _).mp hany
        exact (h.applyOwn rfl).relay_one (mem_ids_of_sessionAt h hsession) nofun nofun
      next => exact h
  | leave c id =>
      simp only [act]
      split
      next hsome =>
        obtain ⟨session, hsession⟩ := Option.isSome_iff_exists.mp hsome
        exact (h.applyOwn rfl).relay_one (mem_ids_of_sessionAt h hsession) nofun nofun
      next => exact h
  | finish c id =>
      simp only [act]
      split
      next hany =>
        obtain ⟨session, hsession, -⟩ := (Option.any_eq_true _ _).mp hany
        exact (h.applyOwn rfl).relay_one (mem_ids_of_sessionAt h hsession) nofun nofun
      next => exact h
  | playback c id state currentTime now =>
      simp only [act]
      split
      next hany =>
        obtain ⟨session, hsession, -⟩ := (Option.any_eq_true _ _).mp hany
        exact h.relay_one (mem_ids_of_sessionAt h hsession)
          (fun host hhost => (Option.some.inj hhost).symm) nofun
      next => exact h
  | requestState c id =>
      simp only [act]
      split
      next hsome =>
        obtain ⟨session, hsession⟩ := Option.isSome_iff_exists.mp hsome
        exact h.relay_one (mem_ids_of_sessionAt h hsession) nofun nofun
      next => exact h
  | users c users =>
      exact h.update_of_hosts (h.own c) (h.distinct c) fun session hsession =>
        ⟨session, hsession, rfl, rfl⟩
  | moved c channelId =>
      exact h.update_of_hosts (h.own c) (h.distinct c) fun session hsession =>
        ⟨session, hsession, rfl, rfl⟩
  | effects c now => exact h.effects c now
  | connect c => exact h
  | disconnect c => exact h
  | deliver i now => exact h

theorem Outvoted.deliver (h : s.Outvoted) {i : ℕ} {c : UInt32} {payload : WatchSyncPayload}
    (hm : s.inFlight[i]? = some (c, payload)) (now : ℕ) :
    ({ s with inFlight := s.inFlight.eraseIdx i }.update c
      { s.clients c with
        sessions := applyWatchSyncEvent now payload (s.clients c).sessions }).Outvoted := by
  have hrest : Outvoted { s with inFlight := s.inFlight.eraseIdx i } := {
    own := h.own
    distinct := h.distinct
    known := h.known
    flight := fun m hm => h.flight m (List.mem_of_mem_eraseIdx hm)
    sentIds := h.sentIds
    host := h.host }
  obtain ⟨id, actor, event, heq, hid, hother, hhost⟩ := h.flight _ (List.mem_of_getElem? hm)
  cases heq
  have hdistinct := WatchClient.distinctIds_applyWatchSyncEvent (h.distinct c) now
    ⟨some id, some actor, event⟩
  refine hrest.update (h.own c) hdistinct fun session hsession => ?_
  rcases host_of_mem_applyWatchSyncEvent hsession with ⟨old, hold, hsame, hold'⟩ | ⟨hnew, hnamed⟩
  · rw [hsame, hold']
    exact ⟨h.known c old hold, fun host hsent => h.host c _ host hsent old hold rfl⟩
  · rw [hnew, hhost _ hnamed]
    exact ⟨hid, fun _ _ => hother⟩

theorem outvoted_step (h : s.Outvoted) (e : WatchRoomEvent) : (s.step e).Outvoted := by
  have hact : ∀ e, Outvoted (if ∃ c ∈ actor e, c ∈ s.connected then s.act e else s) := by
    intro e
    split
    next => exact outvoted_act h e
    next => exact h
  cases e with
  | connect c =>
      have hfresh : (s.update c { ownSession := some c }).Outvoted :=
        h.update rfl List.nodup_nil fun session hsession => absurd hsession List.not_mem_nil
      exact ⟨hfresh.own, hfresh.distinct, hfresh.known, hfresh.flight, hfresh.sentIds,
        hfresh.host⟩
  | disconnect c => exact ⟨h.own, h.distinct, h.known, h.flight, h.sentIds, h.host⟩
  | deliver i now =>
      simp only [step]
      split
      next => exact h
      next c payload hm =>
        split
        next => exact h.deliver hm now
        next =>
          exact ⟨h.own, h.distinct, h.known,
            fun m hm => h.flight m (List.mem_of_mem_eraseIdx hm), h.sentIds, h.host⟩
  | _ => exact hact _

theorem outvoted_run (events : List WatchRoomEvent) : (run step {} events).Outvoted := by
  have hstep : ∀ s e, Outvoted s → True → (step s e).Outvoted :=
    fun s e h _ => outvoted_step h e
  exact invariant_run hstep outvoted_start (along_of_forall (fun _ _ => trivial) _ events)

/-- In no run is a client that has sent a host transfer the host for all clients: it is not
for itself. -/
theorem not_reelected_run (before after : List WatchRoomEvent) (id : String) :
    ¬(run step {} (before ++ after)).Reelected (run step {} before).sent.length id :=
  (outvoted_run _).not_reelected _ id

section Example

private def hostGoneExample : List WatchRoomEvent :=
  [.connect 1, .connect 2, .users 1 [⟨1, 0⟩, ⟨2, 0⟩], .users 2 [⟨1, 0⟩, ⟨2, 0⟩],
    .start 1 "w" 0 "a.mp4" .directMedia none 0, .deliver 0 0, .join 2 "w", .deliver 0 0,
    .disconnect 1]

private def electionExample : List WatchRoomEvent := [.users 2 [⟨2, 0⟩], .effects 2 1]

/-- The participant who takes over goes on to see the former host. -/
theorem winner_keeps_old_host :
    ¬∀ (before after : List WatchRoomEvent) (id : String), (run step {} before).Vacated id →
      (run step {} (before ++ after)).Settled →
        (run step {} (before ++ after)).Reelected (run step {} before).sent.length id := by
  intro h
  have hreelected := h hostGoneExample electionExample "w" (by decide +kernel) (by decide +kernel)
  exact (outvoted_run _).not_reelected _ _ hreelected

end Example

end WatchRoom

end FancyMumble.Interface
