import FancyMumble.Client.Voice
import Mathlib.Data.Finset.Basic

/-!
# Events of background servers

Several sessions are connected, and the interface shows one of them. The events of all sessions
come to the same listeners. The backend stamps the payloads that are objects with the id of the
session that they come from, and some of the listeners compare it with that of the active server.
-/

namespace FancyMumble.Interface

open Client (VoiceState)
open Lib.Runs

/-! ## What is shown -/

structure ShownMessage (M : Type) where
  messageId : Option String
  pinned : Bool := false
  pinnedBy : Option String := none
  pinnedAt : Option UInt64 := none
  rest : M

structure UserEntry where
  session : UInt32
  name : String
  hash : Option String := none

structure ChannelEntry where
  id : UInt32
  pchatProtocol : Option String := none
  pchatMaxHistory : Option UInt32 := none
  pchatRetentionDays : Option UInt32 := none

/-- `ChannelPersistenceState`; an entry that a listener makes may lack all fields but one. -/
structure ChannelPersistenceState where
  mode : Option String := none
  maxHistory : Option UInt32 := none
  retentionDays : Option UInt32 := none
  hasMore : Option Bool := none
  isFetching : Bool := false
  totalStored : Option UInt32 := none

def ChannelPersistenceState.notFetching (entry : ChannelPersistenceState) :
    ChannelPersistenceState :=
  { entry with isFetching := false }

structure StoredPin where
  messageId : String
  pinnerHash : String
  pinnerName : String
  timestamp : UInt64

structure SessionData (M : Type) where
  channels : List ChannelEntry := []
  users : List UserEntry := []
  pushSubscribedChannels : List UInt32 := []
  messages : UInt32 → List (ShownMessage M) := fun _ => []
  dmMessages : UInt32 → List (ShownMessage M) := fun _ => []

/-- The state of the interface that describes the active server, as far as the listeners below
write it. The default values are those of `INITIAL`. Typing users and unseen pins stand with
their channels, and of `keyTrust` there are the channels that have an entry. -/
structure ServerView (M : Type) where
  channels : List ChannelEntry := []
  users : List UserEntry := []
  selectedChannel : Option UInt32 := none
  currentChannel : Option UInt32 := none
  messages : List (ShownMessage M) := []
  error : Option String := none
  listenedChannels : Finset UInt32 := ∅
  unreadCounts : List (UInt32 × UInt32) := []
  voiceState : VoiceState := .inactive
  talkingSessions : Finset UInt32 := ∅
  selectedDmUser : Option UInt32 := none
  dmMessages : List (ShownMessage M) := []
  dmUnreadCounts : List (UInt32 × UInt32) := []
  unseenPinIds : Finset (UInt32 × String) := ∅
  typingUsers : Finset (UInt32 × UInt32) := ∅
  broadcastingSessions : Finset UInt32 := ∅
  channelPersistence : UInt32 → Option ChannelPersistenceState := fun _ => none
  keyTrust : Finset UInt32 := ∅
  pchatHistoryLoading : Finset UInt32 := ∅
  pchatKeyRevoked : Finset UInt32 := ∅
  pushSubscribedChannels : Finset UInt32 := ∅

/-- What there is of a session whether it is active or not: what the backend knows, typing
indicators whose timers still run, and the badge totals and the error of its tab. -/
structure SessionTab (M : Type) where
  data : SessionData M := {}
  typingTimers : List (UInt32 × UInt32) := []
  unreadTotal : Option ℕ := none
  channelTotal : Option ℕ := none
  dmTotal : Option ℕ := none
  error : Option String := none

/-- What comes from a session: its data change in the backend, an event arrives at its listener,
or the timer of a typing indicator expires. Sessions are connected, so that `connection-rejected`
is a kick, which has no reject type. -/
inductive SessionEvent (M : Type) where
  | updated (data : SessionData M)
  | stateChanged
  | newMessage (channel : UInt32) (sender : Option UInt32)
  | newDm (session : UInt32)
  | unreadChanged (unreads : List (UInt32 × UInt32))
  | dmUnreadChanged (unreads : List (UInt32 × UInt32))
  | connectionRejected (reason : String)
  | serverDisconnected (reason : Option String)
  | listenDenied (channel : UInt32)
  | currentChannelChanged (channel : UInt32)
  | voiceStateChanged (voiceState : VoiceState)
  | userTalking (session : UInt32) (talking : Bool)
  | typingIndicator (session channel : UInt32)
  | typingExpired (session channel : UInt32)
  | pchatKeyRevoked (channel : UInt32)
  | pchatPinDeliver (channel : UInt32) (pinned : Bool) (pin : StoredPin)
  | pchatPinFetchResponse (pins : List StoredPin)

/-! ## Listeners -/

namespace ChannelEntry

def persists (channel : ChannelEntry) : Bool :=
  match channel.pchatProtocol with
  | some protocol => protocol ≠ "" ∧ protocol ≠ "none"
  | none => false

def persistence (channel : ChannelEntry) (prev : Option ChannelPersistenceState) :
    ChannelPersistenceState where
  mode := channel.pchatProtocol.map String.toUpper
  maxHistory := some ((channel.pchatMaxHistory.or (prev.bind (·.maxHistory))).getD 0)
  retentionDays := some ((channel.pchatRetentionDays.or (prev.bind (·.retentionDays))).getD 0)
  hasMore := some ((prev.bind (·.hasMore)).getD false)
  isFetching := (prev.map (·.isFetching)).getD false
  totalStored := some ((prev.bind (·.totalStored)).getD 0)

end ChannelEntry

/-- The channel with an id that has an entry in `channelPersistence`; when a channel is listed
twice, its last entry counts. -/
def SessionData.persisting {M : Type} (data : SessionData M) (id : UInt32) :
    Option ChannelEntry :=
  data.channels.reverse.find? fun channel => channel.id = id ∧ channel.persists

def StoredPin.resolvedName (pin : StoredPin) (users : List UserEntry) : String :=
  ((users.find? fun user => user.hash = some pin.pinnerHash).map UserEntry.name).getD
    pin.pinnerName

namespace ShownMessage

variable {M : Type} (m : ShownMessage M)

def pinIn (pins : List StoredPin) : Option StoredPin :=
  match m.messageId with
  | some id => if id = "" then none else pins.reverse.find? fun pin => pin.messageId = id
  | none => none

def setPin (users : List UserEntry) (pinned : Bool) (pin : StoredPin) : ShownMessage M :=
  { m with
    pinned
    pinnedBy := if pinned then some (pin.resolvedName users) else none
    pinnedAt := if pinned then some pin.timestamp else none }

end ShownMessage

namespace ServerView

variable {M : Type} (view : ServerView M)

def refreshState (data : SessionData M) : ServerView M :=
  { view with
    channels := data.channels
    users := data.users
    pushSubscribedChannels := data.pushSubscribedChannels.toFinset
    channelPersistence := fun id =>
      match data.persisting id with
      | some channel => some (channel.persistence (view.channelPersistence id))
      | none => view.channelPersistence id
    broadcastingSessions :=
      view.broadcastingSessions.filter (· ∈ data.users.map UserEntry.session) }

def keyRevoked (channel : UInt32) : ServerView M :=
  { view with
    pchatKeyRevoked := insert channel view.pchatKeyRevoked
    keyTrust := view.keyTrust.erase channel
    pchatHistoryLoading := view.pchatHistoryLoading.erase channel
    channelPersistence :=
      Function.update view.channelPersistence channel
        (some ((view.channelPersistence channel).getD {}).notFetching)
    messages := if view.selectedChannel = some channel then [] else view.messages }

/-- What a listener does to the view. `own` says whether the id of the session is that of the
active server, and `data` are those of the active session, which commands return. -/
def listen (own : Bool) (data : SessionData M) : SessionEvent M → ServerView M
  | .updated _ => view
  | .stateChanged => view.refreshState data
  | .newMessage channel sender =>
      { view with
        typingUsers :=
          match sender with
          | some session => view.typingUsers.erase (channel, session)
          | none => view.typingUsers
        messages :=
          if view.selectedChannel = some channel then data.messages channel else view.messages }
  | .newDm session =>
      { view with
        dmMessages :=
          if view.selectedDmUser = some session then data.dmMessages session
          else view.dmMessages }
  | .unreadChanged unreads => if own then { view with unreadCounts := unreads } else view
  | .dmUnreadChanged unreads => if own then { view with dmUnreadCounts := unreads } else view
  | .connectionRejected reason => if own then { view with error := some reason } else view
  | .serverDisconnected reason => if own then { error := reason.or view.error } else view
  | .listenDenied channel =>
      { view with listenedChannels := view.listenedChannels.erase channel }
  | .currentChannelChanged channel => { view with currentChannel := some channel }
  | .voiceStateChanged voiceState =>
      { view with
        voiceState
        talkingSessions := if voiceState = .inactive then ∅ else view.talkingSessions }
  | .userTalking session talking =>
      { view with
        talkingSessions :=
          if talking then insert session view.talkingSessions
          else view.talkingSessions.erase session }
  | .typingIndicator session channel =>
      { view with typingUsers := insert (channel, session) view.typingUsers }
  | .typingExpired session channel =>
      { view with typingUsers := view.typingUsers.erase (channel, session) }
  | .pchatKeyRevoked channel => view.keyRevoked channel
  | .pchatPinDeliver channel pinned pin =>
      { view with
        unseenPinIds :=
          if pinned then insert (channel, pin.messageId) view.unseenPinIds
          else view.unseenPinIds.erase (channel, pin.messageId)
        messages := view.messages.map fun m =>
          if m.messageId = some pin.messageId then m.setPin view.users pinned pin else m }
  | .pchatPinFetchResponse pins =>
      { view with
        messages := view.messages.map fun m =>
          match m.pinIn pins with
          | some pin => m.setPin view.users true pin
          | none => m }

def selectChannel (data : SessionData M) (channel : UInt32) : ServerView M :=
  { view with
    selectedChannel := some channel
    selectedDmUser := none
    dmMessages := []
    messages := data.messages channel }

def selectDmUser (data : SessionData M) (session : UInt32) : ServerView M :=
  if view.selectedDmUser = some session then
    match view.currentChannel with
    | none => { view with selectedDmUser := none, dmMessages := [] }
    | some channel => view.selectChannel data channel
  else
    { view with
      selectedDmUser := some session
      selectedChannel := none
      messages := []
      dmMessages := data.dmMessages session }

end ServerView

def unreadSum (unreads : List (UInt32 × UInt32)) : ℕ :=
  unreads.foldl (fun total count => total + count.2.toNat) 0

namespace SessionTab

variable {M : Type} (tab : SessionTab M)

/-- What an event of the session does to its tab. Sums of unread messages are kept for sessions
that are not active. -/
def listen (own : Bool) : SessionEvent M → SessionTab M
  | .updated data => { tab with data }
  | .unreadChanged unreads =>
      if own then tab
      else
        { tab with
          channelTotal := some (unreadSum unreads)
          unreadTotal := some (unreadSum unreads + tab.dmTotal.getD 0) }
  | .dmUnreadChanged unreads =>
      if own then tab
      else
        { tab with
          dmTotal := some (unreadSum unreads)
          unreadTotal := some (unreadSum unreads + tab.channelTotal.getD 0) }
  | .connectionRejected reason => { tab with error := some reason }
  | .serverDisconnected (some reason) =>
      if reason = "" then tab else { tab with error := some reason }
  | .typingIndicator session channel =>
      { tab with typingTimers := tab.typingTimers ++ [(session, channel)] }
  | .typingExpired session channel =>
      { tab with typingTimers := tab.typingTimers.erase (session, channel) }
  | _ => tab

def Fires : SessionEvent M → Prop
  | .typingExpired session channel => (session, channel) ∈ tab.typingTimers
  | _ => True

instance : ∀ event : SessionEvent M, Decidable (tab.Fires event)
  | .typingExpired session channel =>
      inferInstanceAs (Decidable ((session, channel) ∈ tab.typingTimers))
  | .updated _ | .stateChanged | .newMessage _ _ | .newDm _ | .unreadChanged _
  | .dmUnreadChanged _ | .connectionRejected _ | .serverDisconnected _ | .listenDenied _
  | .currentChannelChanged _ | .voiceStateChanged _ | .userTalking _ _ | .typingIndicator _ _
  | .pchatKeyRevoked _ | .pchatPinDeliver _ _ _ | .pchatPinFetchResponse _ =>
      inferInstanceAs (Decidable True)

end SessionTab

/-! ## Sessions -/

/-- The interface with the sessions that are connected. Calls of the backend are answered at
once. -/
structure ServerTabs (σ M : Type) where
  active : σ
  tabs : σ → SessionTab M := fun _ => {}
  view : ServerView M := {}

/-- Something comes from a session, or the user selects what is shown. -/
inductive TabEvent (σ M : Type) where
  | deliver (v : σ) (event : SessionEvent M)
  | selectChannel (channel : UInt32)
  | selectDmUser (session : UInt32)

namespace ServerTabs

variable {σ M : Type} [DecidableEq σ] (s : ServerTabs σ M)

def data : SessionData M := (s.tabs s.active).data

def step (s : ServerTabs σ M) : TabEvent σ M → ServerTabs σ M
  | .deliver v event =>
      if (s.tabs v).Fires event then
        { s with
          tabs := Function.update s.tabs v ((s.tabs v).listen (v = s.active) event)
          view := s.view.listen (v = s.active) s.data event }
      else s
  | .selectChannel channel => { s with view := s.view.selectChannel s.data channel }
  | .selectDmUser session => { s with view := s.view.selectDmUser s.data session }

end ServerTabs

/-! ## Events without effect -/

namespace ShownMessage

variable {M : Type} (m : ShownMessage M)

structure PinnedAs (users : List UserEntry) (isPinned : Bool) (pin : StoredPin) : Prop where
  pinned : m.pinned = isPinned
  pinnedBy : m.pinnedBy = if isPinned then some (pin.resolvedName users) else none
  pinnedAt : m.pinnedAt = if isPinned then some pin.timestamp else none

variable {m}

theorem setPin_eq_iff {users : List UserEntry} {pinned : Bool} {pin : StoredPin} :
    m.setPin users pinned pin = m ↔ m.PinnedAs users pinned pin := by
  constructor
  · intro h
    exact
      { pinned := (congrArg ShownMessage.pinned h).symm
        pinnedBy := (congrArg ShownMessage.pinnedBy h).symm
        pinnedAt := (congrArg ShownMessage.pinnedAt h).symm }
  · intro h
    unfold setPin
    rw [← h.pinnedBy, ← h.pinnedAt, ← h.pinned]

end ShownMessage

namespace ServerView

variable {M : Type} (view : ServerView M)

structure UpToDate (data : SessionData M) : Prop where
  channels : view.channels = data.channels
  users : view.users = data.users
  pushSubscribedChannels :
    view.pushSubscribedChannels = data.pushSubscribedChannels.toFinset
  channelPersistence : ∀ id channel, data.persisting id = some channel →
    view.channelPersistence id = some (channel.persistence (view.channelPersistence id))
  broadcastingSessions :
    ∀ session ∈ view.broadcastingSessions, session ∈ data.users.map UserEntry.session

structure ShowsRevoked (channel : UInt32) : Prop where
  pchatKeyRevoked : channel ∈ view.pchatKeyRevoked
  keyTrust : channel ∉ view.keyTrust
  pchatHistoryLoading : channel ∉ view.pchatHistoryLoading
  channelPersistence :
    ∃ entry, view.channelPersistence channel = some entry ∧ entry.isFetching = false
  messages : view.selectedChannel = some channel → view.messages = []

/-- The view already shows what the event says. The numbers in it are those of another server. -/
def Shows (data : SessionData M) : SessionEvent M → Prop
  | .stateChanged => view.UpToDate data
  | .newMessage channel sender =>
      (∀ session, sender = some session → (channel, session) ∉ view.typingUsers) ∧
        (view.selectedChannel = some channel → view.messages = data.messages channel)
  | .newDm session =>
      view.selectedDmUser = some session → view.dmMessages = data.dmMessages session
  | .listenDenied channel => channel ∉ view.listenedChannels
  | .currentChannelChanged channel => view.currentChannel = some channel
  | .voiceStateChanged voiceState =>
      view.voiceState = voiceState ∧ (voiceState = .inactive → view.talkingSessions = ∅)
  | .userTalking session talking => session ∈ view.talkingSessions ↔ talking = true
  | .typingIndicator session channel => (channel, session) ∈ view.typingUsers
  | .typingExpired session channel => (channel, session) ∉ view.typingUsers
  | .pchatKeyRevoked channel => view.ShowsRevoked channel
  | .pchatPinDeliver channel pinned pin =>
      ((channel, pin.messageId) ∈ view.unseenPinIds ↔ pinned = true) ∧
        ∀ m ∈ view.messages, m.messageId = some pin.messageId →
          m.PinnedAs view.users pinned pin
  | .pchatPinFetchResponse pins =>
      ∀ m ∈ view.messages, ∀ pin, m.pinIn pins = some pin → m.PinnedAs view.users true pin
  | _ => True

variable {view} {data : SessionData M}

theorem member_eq_iff {α : Type} [DecidableEq α] {members : Finset α} {a : α} {b : Bool} :
    (if b then insert a members else members.erase a) = members ↔ (a ∈ members ↔ b = true) := by
  cases b with
  | true => simp [Finset.insert_eq_self]
  | false => simp [Finset.erase_eq_self]

theorem messages_eq_iff {f : ShownMessage M → ShownMessage M} {messages : List (ShownMessage M)} :
    messages.map f = messages ↔ ∀ m ∈ messages, f m = m := by
  calc messages.map f = messages ↔ messages.map f = messages.map id := by rw [List.map_id]
    _ ↔ ∀ m ∈ messages, f m = m := List.map_inj_left

theorem replaced_eq_iff {α : Type} {p : Prop} [Decidable p] {new old : α} :
    (if p then new else old) = old ↔ (p → old = new) := by
  rw [ite_eq_right_iff]
  exact imp_congr_right fun _ => eq_comm

theorem refreshState_eq_iff : view.refreshState data = view ↔ view.UpToDate data := by
  constructor
  · intro h
    exact
      { channels := (congrArg ServerView.channels h).symm
        users := (congrArg ServerView.users h).symm
        pushSubscribedChannels := (congrArg ServerView.pushSubscribedChannels h).symm
        channelPersistence := by
          intro id channel hchannel
          have hentry := congrFun (congrArg ServerView.channelPersistence h) id
          unfold refreshState at hentry
          dsimp only at hentry
          rw [hchannel] at hentry
          exact hentry.symm
        broadcastingSessions := by
          intro session hsession
          rw [← congrArg ServerView.broadcastingSessions h] at hsession
          exact (Finset.mem_filter.mp hsession).2 }
  · intro h
    have hentries : (view.refreshState data).channelPersistence = view.channelPersistence := by
      funext id
      unfold refreshState
      dsimp only
      cases hchannel : data.persisting id with
      | none => rfl
      | some channel => exact (h.channelPersistence id channel hchannel).symm
    have hsessions : (view.refreshState data).broadcastingSessions = view.broadcastingSessions :=
      Finset.filter_true_of_mem h.broadcastingSessions
    unfold refreshState at hentries hsessions ⊢
    dsimp only at hentries hsessions
    rw [hentries, hsessions, ← h.channels, ← h.users, ← h.pushSubscribedChannels]

theorem keyRevoked_eq_iff {channel : UInt32} :
    view.keyRevoked channel = view ↔ view.ShowsRevoked channel := by
  constructor
  · intro h
    have hentry := congrFun (congrArg ServerView.channelPersistence h) channel
    have hmessages := congrArg ServerView.messages h
    unfold keyRevoked at hentry hmessages
    dsimp only at hentry hmessages
    rw [Function.update_self] at hentry
    exact
      { pchatKeyRevoked := Finset.insert_eq_self.mp (congrArg ServerView.pchatKeyRevoked h)
        keyTrust := Finset.erase_eq_self.mp (congrArg ServerView.keyTrust h)
        pchatHistoryLoading := Finset.erase_eq_self.mp (congrArg ServerView.pchatHistoryLoading h)
        channelPersistence := ⟨_, hentry.symm, rfl⟩
        messages := replaced_eq_iff.mp hmessages }
  · intro h
    obtain ⟨entry, hentry, hfetching⟩ := h.channelPersistence
    have hnot : entry.notFetching = entry := by
      unfold ChannelPersistenceState.notFetching
      rw [← hfetching]
    have hentries : Function.update view.channelPersistence channel
        (some ((view.channelPersistence channel).getD {}).notFetching) =
          view.channelPersistence := by
      rw [Function.update_eq_self_iff, hentry, Option.getD_some, hnot]
    unfold keyRevoked
    rw [hentries, replaced_eq_iff.mpr h.messages, Finset.insert_eq_self.mpr h.pchatKeyRevoked,
      Finset.erase_eq_self.mpr h.keyTrust, Finset.erase_eq_self.mpr h.pchatHistoryLoading]

theorem typing_eq_iff {typing : Finset (UInt32 × UInt32)} {channel : UInt32}
    {sender : Option UInt32} :
    (match sender with
      | some session => typing.erase (channel, session)
      | none => typing) = typing ↔
      ∀ session, sender = some session → (channel, session) ∉ typing := by
  cases sender with
  | none => simp
  | some session => simp [Finset.erase_eq_self]

theorem newMessage_eq_iff {channel : UInt32} {sender : Option UInt32} :
    view.listen false data (.newMessage channel sender) = view ↔
      view.Shows data (.newMessage channel sender) := by
  constructor
  · intro h
    exact ⟨typing_eq_iff.mp (congrArg ServerView.typingUsers h),
      replaced_eq_iff.mp (congrArg ServerView.messages h)⟩
  · rintro ⟨htyping, hmessages⟩
    dsimp only [listen]
    rw [typing_eq_iff.mpr htyping, replaced_eq_iff.mpr hmessages]

theorem pinDeliver_eq_iff {channel : UInt32} {pinned : Bool} {pin : StoredPin} :
    view.listen false data (.pchatPinDeliver channel pinned pin) = view ↔
      view.Shows data (.pchatPinDeliver channel pinned pin) := by
  have hpinned : ∀ m : ShownMessage M,
      (if m.messageId = some pin.messageId then m.setPin view.users pinned pin else m) = m ↔
        (m.messageId = some pin.messageId → m.PinnedAs view.users pinned pin) :=
    fun m => ite_eq_right_iff.trans (imp_congr_right fun _ => ShownMessage.setPin_eq_iff)
  constructor
  · intro h
    refine ⟨member_eq_iff.mp (congrArg ServerView.unseenPinIds h), fun m hm => ?_⟩
    exact (hpinned m).mp (messages_eq_iff.mp (congrArg ServerView.messages h) m hm)
  · rintro ⟨hunseen, hmessages⟩
    dsimp only [listen]
    rw [member_eq_iff.mpr hunseen,
      messages_eq_iff.mpr fun m hm => (hpinned m).mpr (hmessages m hm)]

theorem pinFetchResponse_eq_iff {pins : List StoredPin} :
    view.listen false data (.pchatPinFetchResponse pins) = view ↔
      view.Shows data (.pchatPinFetchResponse pins) := by
  have hpinned : ∀ m : ShownMessage M,
      (match m.pinIn pins with
        | some pin => m.setPin view.users true pin
        | none => m) = m ↔
        ∀ pin, m.pinIn pins = some pin → m.PinnedAs view.users true pin := by
    intro m
    cases m.pinIn pins with
    | none => simp
    | some pin => simp [ShownMessage.setPin_eq_iff]
  constructor
  · intro h m hm
    exact (hpinned m).mp (messages_eq_iff.mp (congrArg ServerView.messages h) m hm)
  · intro h
    dsimp only [listen]
    rw [messages_eq_iff.mpr fun m hm => (hpinned m).mpr (h m hm)]

/-- An event of a background server leaves the view as it is if and only if the view already shows
what the event says. -/
theorem listen_eq_iff {event : SessionEvent M} :
    view.listen false data event = view ↔ view.Shows data event := by
  cases event with
  | updated _ | unreadChanged _ | dmUnreadChanged _ | connectionRejected _
  | serverDisconnected _ => exact iff_of_true rfl trivial
  | stateChanged => exact refreshState_eq_iff
  | newMessage channel sender => exact newMessage_eq_iff
  | newDm session =>
      constructor
      · intro h
        exact replaced_eq_iff.mp (congrArg ServerView.dmMessages h)
      · intro h
        dsimp only [listen]
        rw [replaced_eq_iff.mpr h]
  | listenDenied channel =>
      constructor
      · intro h
        exact Finset.erase_eq_self.mp (congrArg ServerView.listenedChannels h)
      · intro h
        dsimp only [listen]
        rw [Finset.erase_eq_self.mpr h]
  | currentChannelChanged channel =>
      constructor
      · intro h
        exact (congrArg ServerView.currentChannel h).symm
      · intro h
        dsimp only [listen]
        rw [← (show view.currentChannel = some channel from h)]
  | voiceStateChanged voiceState =>
      constructor
      · intro h
        exact ⟨(congrArg ServerView.voiceState h).symm,
          replaced_eq_iff.mp (congrArg ServerView.talkingSessions h)⟩
      · rintro ⟨hstate, htalking⟩
        dsimp only [listen]
        rw [replaced_eq_iff.mpr htalking, ← hstate]
  | userTalking session talking =>
      constructor
      · intro h
        exact member_eq_iff.mp (congrArg ServerView.talkingSessions h)
      · intro h
        dsimp only [listen]
        rw [member_eq_iff.mpr h]
  | typingIndicator session channel =>
      constructor
      · intro h
        exact Finset.insert_eq_self.mp (congrArg ServerView.typingUsers h)
      · intro h
        dsimp only [listen]
        rw [Finset.insert_eq_self.mpr h]
  | typingExpired session channel =>
      constructor
      · intro h
        exact Finset.erase_eq_self.mp (congrArg ServerView.typingUsers h)
      · intro h
        dsimp only [listen]
        rw [Finset.erase_eq_self.mpr h]
  | pchatKeyRevoked channel => exact keyRevoked_eq_iff
  | pchatPinDeliver channel pinned pin => exact pinDeliver_eq_iff
  | pchatPinFetchResponse pins => exact pinFetchResponse_eq_iff

end ServerView

/-! ## Isolation -/

namespace ServerTabs

variable {σ M : Type} {s s' : ServerTabs σ M}

structure SameView (active : σ) (s s' : ServerTabs σ M) : Prop where
  left : s.active = active
  right : s'.active = active
  tab : s.tabs active = s'.tabs active
  view : s.view = s'.view

theorem SameView.data {active : σ} (h : SameView active s s') : s.data = s'.data := by
  unfold ServerTabs.data
  rw [h.left, h.right, h.tab]

variable [DecidableEq σ]

def own (active : σ) : TabEvent σ M → Bool
  | .deliver v _ => v = active
  | .selectChannel _ | .selectDmUser _ => true

/-- An event of a background server changes at most what there is of its own session. -/
def Confined (s : ServerTabs σ M) : TabEvent σ M → Prop
  | .deliver v event => v ≠ s.active →
      (s.step (.deliver v event)).view = s.view ∧
        ∀ u, u ≠ v → (s.step (.deliver v event)).tabs u = s.tabs u
  | .selectChannel _ | .selectDmUser _ => True

/-- The view is a function of the active session's own events at every point of a run, and events
of background servers are confined. -/
structure Isolated (s : ServerTabs σ M) (events : List (TabEvent σ M)) : Prop where
  view : ∀ before, before <+: events →
    (run step s before).view = (run step s (before.filter (own s.active))).view
  confined : Along step Confined s events

/-- An event of a background server says what the view shows already. -/
def Harmless (s : ServerTabs σ M) : TabEvent σ M → Prop
  | .deliver v event => v ≠ s.active → (s.tabs v).Fires event → s.view.Shows s.data event
  | .selectChannel _ | .selectDmUser _ => True

@[simp] theorem step_active (event : TabEvent σ M) : (s.step event).active = s.active := by
  cases event with
  | deliver v event =>
      dsimp only [step]
      split <;> rfl
  | selectChannel channel => rfl
  | selectDmUser session => rfl

theorem step_tabs_of_ne {v u : σ} (event : SessionEvent M) (h : u ≠ v) :
    (s.step (.deliver v event)).tabs u = s.tabs u := by
  dsimp only [step]
  split
  · exact Function.update_of_ne h _ _
  · rfl

theorem step_view_of_ne {v : σ} {event : SessionEvent M} (h : v ≠ s.active) :
    (s.step (.deliver v event)).view =
      if (s.tabs v).Fires event then s.view.listen false s.data event else s.view := by
  dsimp only [step]
  rw [decide_eq_false h]
  split <;> rfl

theorem confined_iff (s : ServerTabs σ M) (event : TabEvent σ M) :
    s.Confined event ↔ s.Harmless event := by
  cases event with
  | deliver v event =>
      refine imp_congr_right fun hv => ?_
      calc _ ↔ (s.step (.deliver v event)).view = s.view :=
            and_iff_left fun u hu => step_tabs_of_ne event hu
        _ ↔ ((s.tabs v).Fires event → s.view.listen false s.data event = s.view) := by
            rw [step_view_of_ne hv, ite_eq_right_iff]
        _ ↔ ((s.tabs v).Fires event → s.view.Shows s.data event) :=
            imp_congr_right fun _ => ServerView.listen_eq_iff
  | selectChannel channel => exact Iff.rfl
  | selectDmUser session => exact Iff.rfl

theorem SameView.dropped {active : σ} (h : SameView active s s') {event : TabEvent σ M}
    (hown : own active event = false) (hharmless : s.Harmless event) :
    SameView active (s.step event) s' := by
  cases event with
  | deliver v event =>
      have hv : v ≠ active := of_decide_eq_false hown
      obtain ⟨hview, htabs⟩ := (confined_iff s (.deliver v event)).mpr hharmless (h.left ▸ hv)
      exact
        { left := (step_active _).trans h.left
          right := h.right
          tab := (htabs active hv.symm).trans h.tab
          view := hview.trans h.view }
  | selectChannel channel => cases hown
  | selectDmUser session => cases hown

theorem SameView.kept {active : σ} (h : SameView active s s') {event : TabEvent σ M}
    (hown : own active event = true) : SameView active (s.step event) (s'.step event) := by
  have hleft := (step_active (s := s) event).trans h.left
  have hright := (step_active (s := s') event).trans h.right
  cases event with
  | deliver v event =>
      have hv : v = active := of_decide_eq_true hown
      subst hv
      refine { left := hleft, right := hright, tab := ?_, view := ?_ }
      · dsimp only [step]
        rw [h.left, h.right, h.tab, h.view, h.data]
        split
        · dsimp only
          rw [Function.update_self, Function.update_self]
        · exact h.tab
      · dsimp only [step]
        rw [h.left, h.right, h.tab, h.view, h.data]
        split
        · rfl
        · exact h.view
  | selectChannel channel =>
      refine { left := hleft, right := hright, tab := h.tab, view := ?_ }
      dsimp only [step]
      rw [h.view, h.data]
  | selectDmUser session =>
      refine { left := hleft, right := hright, tab := h.tab, view := ?_ }
      dsimp only [step]
      rw [h.view, h.data]

/-- A run is isolated if and only if all its events of background servers are harmless. -/
theorem isolated_iff (s : ServerTabs σ M) (events : List (TabEvent σ M)) :
    s.Isolated events ↔ Along step Harmless s events := by
  constructor
  · intro h
    exact along_mono (fun s event => (confined_iff s event).mp) h.confined
  · intro h
    refine { view := ?_, confined := along_mono (fun s event => (confined_iff s event).mpr) h }
    rintro before ⟨after, rfl⟩
    have hsame : SameView s.active s s := { left := rfl, right := rfl, tab := rfl, view := rfl }
    have hdropped : ∀ (t t' : ServerTabs σ M) event, SameView s.active t t' →
        own s.active event = false → Harmless t event → SameView s.active (step t event) t' :=
      fun _ _ _ h hown hharmless => h.dropped hown hharmless
    have hkept : ∀ (t t' : ServerTabs σ M) event, SameView s.active t t' →
        own s.active event = true → Harmless t event →
          SameView s.active (step t event) (step t' event) :=
      fun _ _ _ h hown _ => h.kept hown
    exact (unwinding hdropped hkept hsame (along_append.mp h).1).view

/-- The user is in channel 1 of the active server, and in channel 2 of another one. -/
theorem background_channel_shown :
    ¬ ({ active := 0 } : ServerTabs ℕ ℕ).Isolated
      [.deliver 0 (.currentChannelChanged 1), .deliver 1 (.currentChannelChanged 2)] := by
  intro h
  have hview := congrArg ServerView.currentChannel (h.view _ (List.prefix_refl _))
  revert hview
  decide

end ServerTabs

end FancyMumble.Interface
