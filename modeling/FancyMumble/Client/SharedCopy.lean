import FancyMumble.Client.TrackedState

/-!
# The application's copy of the server

The protocol client keeps the state of the server, and the application keeps a copy of its
own, which its handlers update from the same messages and which some commands of the user
change ahead of the server. The two never drift apart, save for what the user has changed and
the server has not told yet.
-/

namespace FancyMumble.Client.Tracked.SharedCopy

open Lib.Runs Persistent

/-! ## The copy -/

/-- `UserEntry`, with the fields that the protocol client keeps too. -/
structure UserEntry where
  session : UInt32
  name : String := ""
  channelId : UInt32 := 0
  userId : Option UInt32 := none
  texture : Option (List UInt8) := none
  comment : Option String := none
  mute : Bool := false
  deaf : Bool := false
  selfMute : Bool := false
  selfDeaf : Bool := false
  hash : Option String := none

/-- `SharedState`, with what the protocol client keeps too. -/
structure SharedState where
  ownSession : Option UInt32 := none
  fancyVersion : Option UInt64 := none
  maxBandwidth : Option UInt32 := none
  welcomeText : Option String := none
  users : UInt32 → Option UserEntry := fun _ => none
  /-- The channels, with what their handler reads besides. -/
  table : ChannelTable := {}

def applyUserStateFields (user : UserEntry) (proto : UserState) : UserEntry :=
  { user with
    name := proto.name.getD user.name
    texture := proto.texture.elim user.texture fun texture =>
      if texture.isEmpty then none else some texture
    comment := proto.comment.elim user.comment fun comment =>
      if comment.isEmpty then none else some comment
    mute := proto.mute.getD user.mute
    deaf := proto.deaf.getD user.deaf
    selfMute := proto.selfMute.getD user.selfMute
    selfDeaf := proto.selfDeaf.getD user.selfDeaf
    hash := proto.hash.or user.hash
    userId := proto.userId.or user.userId }

namespace SharedState

def setChannels (s : SharedState) (channels : UInt32 → Option FullChannelEntry) : SharedState :=
  { s with table := { s.table with channels } }

def setPermissions (s : SharedState) (channelId permissions : UInt32) : SharedState :=
  s.setChannels (Function.update s.table.channels channelId
    ((s.table.channels channelId).map fun ch => { ch with permissions := some permissions }))

def handleUserState (s : SharedState) (proto : UserState) : SharedState :=
  match proto.session with
  | none => s
  | some session =>
      let user := applyUserStateFields ((s.users session).getD { session }) proto
      let user := { user with channelId := proto.channelId.getD user.channelId }
      { s with users := Function.update s.users session (some user) }

def handleUserRemove (s : SharedState) (session : UInt32) : SharedState :=
  if s.ownSession = some session then
    { s with
      ownSession := none
      fancyVersion := none
      maxBandwidth := none
      users := fun _ => none
      table := { keyManager := s.table.keyManager } }
  else { s with users := Function.update s.users session none }

def handleChannelRemove (s : SharedState) (channelId : UInt32) : SharedState :=
  { s with
    table := { s.table with
      channels := Function.update s.table.channels channelId none
      keyManager := s.table.keyManager.map fun km => km.removeChannel channelId } }

def handlePermissionQuery (s : SharedState) (pq : PermissionQuery) : SharedState :=
  let flushed :=
    if pq.flush.getD false then
      s.setChannels fun id => (s.table.channels id).map fun ch => { ch with permissions := none }
    else s
  match pq.channelId, pq.permissions with
  | some channelId, some permissions => flushed.setPermissions channelId permissions
  | _, _ => flushed

def applySyncState (s : SharedState) (msg : ServerSync) : SharedState :=
  let synced := { s with
    ownSession := msg.session
    maxBandwidth := msg.maxBandwidth
    welcomeText := msg.welcomeText
    table := { s.table with synced := true } }
  match msg.permissions with
  | some permissions => synced.setPermissions 0 permissions.toUInt32
  | none => synced

def handle (s : SharedState) : Update → SharedState
  | .version fancyVersion => { s with fancyVersion }
  | .serverSync sync => s.applySyncState sync
  | .userState state => s.handleUserState state
  | .userRemove session => s.handleUserRemove session
  | .channelState state => { s with table := s.table.step state.toChannelState }
  | .channelRemove channelId => s.handleChannelRemove channelId
  | .permissionQuery pq => s.handlePermissionQuery pq
  | .other => s

def updateEntry (s : SharedState) (session : UInt32) (f : UserEntry → UserEntry) : SharedState :=
  { s with users := Function.update s.users session ((s.users session).map f) }

/-- `set_user_comment`, once the command has been sent; the session is the own one of before. -/
def setUserComment (s : SharedState) (session : UInt32) (comment : String) : SharedState :=
  s.updateEntry session fun user =>
    { user with comment := if comment.isEmpty then none else some comment }

def setUserTexture (s : SharedState) (session : UInt32) (texture : List UInt8) : SharedState :=
  s.updateEntry session fun user =>
    { user with texture := if texture.isEmpty then none else some texture }

end SharedState

/-! ## Both copies -/

/-- What changes the copies: a message of the server, or a command of the user. -/
inductive Event where
  | message (msg : Update)
  | setUserComment (session : UInt32) (comment : String)
  | setUserTexture (session : UInt32) (texture : List UInt8)

/-- The users whose comment or texture was set here and has not been told by the server since. -/
structure Ahead where
  comment : UInt32 → Bool := fun _ => false
  texture : UInt32 → Bool := fun _ => false

def Ahead.after (ahead : Ahead) (msg : Update) : Ahead where
  comment id := (ofUser id UserState.comment msg).elim (ahead.comment id) fun _ => false
  texture id := (ofUser id UserState.texture msg).elim (ahead.texture id) fun _ => false

structure World where
  shared : SharedState := {}
  tracked : ServerState := {}
  ahead : Ahead := {}

def World.step (w : World) : Event → World
  | .message msg =>
      { shared := w.shared.handle msg
        tracked := w.tracked.step msg
        ahead := w.ahead.after msg }
  | .setUserComment session comment =>
      { w with
        shared := w.shared.setUserComment session comment
        ahead := { w.ahead with comment := Function.update w.ahead.comment session true } }
  | .setUserTexture session texture =>
      { w with
        shared := w.shared.setUserTexture session texture
        ahead := { w.ahead with texture := Function.update w.ahead.texture session true } }

/-- The own user is removed: the client is kicked. -/
def OwnRemoval (w : World) : Event → Prop
  | .message (.userRemove session) => w.shared.ownSession = some session
  | _ => False

structure UserAgrees (commentAhead textureAhead : Bool) (e : UserEntry) (user : User) : Prop where
  session : e.session = user.session
  name : e.name = user.name
  channelId : e.channelId = user.channelId
  userId : e.userId = user.userId
  mute : e.mute = user.mute
  deaf : e.deaf = user.deaf
  selfMute : e.selfMute = user.selfMute
  selfDeaf : e.selfDeaf = user.selfDeaf
  hash : e.hash.getD "" = user.hash
  comment : commentAhead = false → e.comment.getD "" = user.comment
  texture : textureAhead = false → e.texture.getD [] = user.texture

def toChannel (e : FullChannelEntry) : Channel where
  channelId := e.id
  parentId := e.parentId
  name := e.name
  description := e.description
  descriptionHash := e.descriptionHash
  position := e.position
  temporary := e.temporary
  maxUsers := e.maxUsers
  permissions := e.permissions
  pchatProtocol := e.pchatProtocol
  pchatMaxHistory := e.pchatMaxHistory
  pchatRetentionDays := e.pchatRetentionDays

def copied (channel : Channel) : Channel :=
  { channel with isEnterRestricted := false, canEnter := true }

def ChannelAgrees (e : FullChannelEntry) (channel : Channel) : Prop :=
  toChannel e = copied channel

def SharedState.connection (s : SharedState) : ConnectionInfo where
  sessionId := s.ownSession
  maxBandwidth := s.maxBandwidth
  welcomeText := s.welcomeText
  serverFancyVersion := s.fancyVersion

/-- The copies agree: the same users and channels are there, with the same fields. -/
structure Agree (ahead : Ahead) (s : SharedState) (t : ServerState) : Prop where
  connection : s.connection = t.connection
  users : ∀ session, Option.Rel (UserAgrees (ahead.comment session) (ahead.texture session))
    (s.users session) (t.users session)
  channels : ∀ id, Option.Rel ChannelAgrees (s.table.channels id) (t.channels id)

def World.Agree (w : World) : Prop :=
  SharedCopy.Agree w.ahead w.shared w.tracked

/-! ## The entries -/

section Entries

variable {κ α β : Type} [DecidableEq κ]

/-- Related tables stay related when related entries are put in one place. -/
theorem rel_update {R : κ → α → β → Prop} {f : κ → Option α} {g : κ → Option β} {key : κ}
    {a : Option α} {b : Option β} (h : ∀ k ≠ key, Option.Rel (R k) (f k) (g k))
    (hkey : Option.Rel (R key) a b) (k : κ) :
    Option.Rel (R k) (Function.update f key a k) (Function.update g key b k) := by
  by_cases hk : k = key
  · subst hk
    rw [Function.update_self, Function.update_self]
    exact hkey
  · rw [Function.update_of_ne hk, Function.update_of_ne hk]
    exact h k hk

theorem rel_getD {R : α → β → Prop} {a : Option α} {b : Option β} {x : α} {y : β}
    (h : Option.Rel R a b) (hdefault : R x y) : R (a.getD x) (b.getD y) := by
  cases h with
  | some h => exact h
  | none => exact hdefault

theorem rel_map {R S : α → β → Prop} {a : Option α} {b : Option β} {f : α → α} {g : β → β}
    (h : Option.Rel R a b) (hmap : ∀ x y, R x y → S (f x) (g y)) :
    Option.Rel S (a.map f) (b.map g) := by
  cases h with
  | some h => exact .some (hmap _ _ h)
  | none => exact .none

/-- A message brings the two entries of a user together where it tells the comment or the
texture. -/
theorem UserAgrees.update {commentAhead textureAhead : Bool} {e : UserEntry} {user : User}
    (h : UserAgrees commentAhead textureAhead e user) (state : UserState) :
    UserAgrees (state.comment.elim commentAhead fun _ => false)
      (state.texture.elim textureAhead fun _ => false)
      { applyUserStateFields e state with channelId := state.channelId.getD e.channelId }
      (user.update state) where
  session := h.session
  name := congrArg state.name.getD h.name
  channelId := congrArg state.channelId.getD h.channelId
  userId := congrArg state.userId.or h.userId
  mute := congrArg state.mute.getD h.mute
  deaf := congrArg state.deaf.getD h.deaf
  selfMute := congrArg state.selfMute.getD h.selfMute
  selfDeaf := congrArg state.selfDeaf.getD h.selfDeaf
  hash := by
    simp only [applyUserStateFields, User.update]
    cases state.hash with
    | none => exact h.hash
    | some hash => rfl
  comment := by
    simp only [applyUserStateFields, User.update]
    cases state.comment with
    | none => exact h.comment
    | some comment =>
        intro _
        by_cases hempty : comment = ""
        · subst hempty
          rfl
        · simp [hempty]
  texture := by
    simp only [applyUserStateFields, User.update]
    cases state.texture with
    | none => exact h.texture
    | some texture =>
        intro _
        cases texture <;> rfl

theorem ChannelAgrees.update {e : FullChannelEntry} {channel : Channel}
    (h : ChannelAgrees e channel) (state : FullChannelState) :
    ChannelAgrees (applyChannelStateFields e state.toChannelState).1 (channel.update state) :=
  calc
    toChannel (applyChannelStateFields e state.toChannelState).1 =
        copied ((toChannel e).update state) := rfl
    _ = copied ((copied channel).update state) := by rw [show toChannel e = copied channel from h]
    _ = copied (channel.update state) := rfl

theorem ChannelAgrees.setPermissions {e : FullChannelEntry} {channel : Channel}
    (h : ChannelAgrees e channel) (permissions : Option UInt32) :
    ChannelAgrees { e with permissions } { channel with permissions } := by
  show { toChannel e with permissions } = { copied channel with permissions }
  rw [show toChannel e = copied channel from h]

end Entries

/-! ## The operations -/

namespace Agree

variable {ahead : Ahead} {s : SharedState} {t : ServerState}

theorem setPermissions (h : Agree ahead s t) (channelId permissions : UInt32) :
    Agree ahead (s.setPermissions channelId permissions)
      (t.setPermissions channelId permissions) := by
  rw [ServerState.setPermissions_eq]
  exact ⟨h.connection, h.users, rel_update (fun id _ => h.channels id)
    (rel_map (h.channels channelId) fun _ _ hagrees => hagrees.setPermissions _)⟩

/-- The cached permissions are dropped on both sides, where the message asks for it. -/
theorem flush (h : Agree ahead s t) (asked : Bool) :
    Agree ahead
      (if asked then
        s.setChannels fun id => (s.table.channels id).map fun ch => { ch with permissions := none }
      else s)
      (if asked then
        { t with channels := fun id =>
          (t.channels id).map fun channel => { channel with permissions := none } }
      else t) := by
  split
  · exact ⟨h.connection, h.users, fun id =>
      rel_map (h.channels id) fun _ _ hagrees => hagrees.setPermissions _⟩
  · exact h

theorem permissionQuery (h : Agree ahead s t) (pq : PermissionQuery) :
    Agree ahead (s.handlePermissionQuery pq) (t.applyPermissionQuery pq) := by
  have hflushed := h.flush (pq.flush.getD false)
  unfold SharedState.handlePermissionQuery ServerState.applyPermissionQuery
  cases pq.channelId with
  | none => exact hflushed
  | some channelId =>
      cases pq.permissions with
      | none => exact hflushed
      | some permissions => exact hflushed.setPermissions channelId permissions

theorem serverSync (h : Agree ahead s t) (sync : ServerSync) :
    Agree ahead (s.applySyncState sync) (t.applyServerSync sync) := by
  have hsynced : Agree ahead
      { s with
        ownSession := sync.session
        maxBandwidth := sync.maxBandwidth
        welcomeText := sync.welcomeText
        table := { s.table with synced := true } }
      { t with connection :=
        { t.connection with
          sessionId := sync.session
          maxBandwidth := sync.maxBandwidth
          welcomeText := sync.welcomeText } } := by
    refine ⟨?_, h.users, h.channels⟩
    rw [← h.connection]
    rfl
  unfold SharedState.applySyncState ServerState.applyServerSync
  cases sync.permissions with
  | none => exact hsynced
  | some permissions => exact hsynced.setPermissions 0 permissions.toUInt32

theorem userState (h : Agree ahead s t) (state : UserState) :
    Agree (ahead.after (.userState state)) (s.handleUserState state) (t.applyUserState state) := by
  unfold SharedState.handleUserState ServerState.applyUserState
  cases hsession : state.session with
  | none =>
      refine ⟨h.connection, fun session => ?_, h.channels⟩
      simpa [Ahead.after, ofUser, hsession] using h.users session
  | some session =>
      refine ⟨h.connection, rel_update (fun other hother => ?_) (.some ?_), h.channels⟩
      · simpa [Ahead.after, ofUser, hsession, hother.symm] using h.users other
      · simp only [Ahead.after, ofUser, hsession, if_true]
        have hnew : UserAgrees (ahead.comment session) (ahead.texture session) { session }
            { session } :=
          ⟨rfl, rfl, rfl, rfl, rfl, rfl, rfl, rfl, rfl, fun _ => rfl, fun _ => rfl⟩
        exact (rel_getD (h.users session) hnew).update state

theorem userRemove (h : Agree ahead s t) {session : UInt32}
    (hother : s.ownSession ≠ some session) :
    Agree ahead (s.handleUserRemove session) (t.removeUser session) := by
  rw [SharedState.handleUserRemove, if_neg hother]
  exact ⟨h.connection, rel_update (fun other _ => h.users other) .none, h.channels⟩

theorem channelState (h : Agree ahead s t) (state : FullChannelState) :
    Agree ahead { s with table := s.table.step state.toChannelState }
      (t.applyChannelState state) := by
  unfold ServerState.applyChannelState
  cases hid : state.channelId with
  | none =>
      rw [ChannelTable.step_of_none hid]
      exact h
  | some id =>
      rw [ChannelTable.step_of_some hid]
      have hnew : ChannelAgrees { id } { channelId := id } := rfl
      exact ⟨h.connection, h.users, rel_update (fun other _ => h.channels other)
        (.some ((rel_getD (h.channels id) hnew).update state))⟩

theorem channelRemove (h : Agree ahead s t) (channelId : UInt32) :
    Agree ahead (s.handleChannelRemove channelId) (t.removeChannel channelId) :=
  ⟨h.connection, h.users, rel_update (fun id _ => h.channels id) .none⟩

/-- A command of the user changes one entry of the copy. -/
theorem updateEntry (h : Agree ahead s t) {session : UInt32} {f : UserEntry → UserEntry}
    {ahead' : Ahead} (hcomment : ∀ other ≠ session, ahead'.comment other = ahead.comment other)
    (htexture : ∀ other ≠ session, ahead'.texture other = ahead.texture other)
    (hentry : ∀ e user, UserAgrees (ahead.comment session) (ahead.texture session) e user →
      UserAgrees (ahead'.comment session) (ahead'.texture session) (f e) user) :
    Agree ahead' (s.updateEntry session f) t := by
  have hothers : ∀ other ≠ session,
      Option.Rel (UserAgrees (ahead'.comment other) (ahead'.texture other)) (s.users other)
        (t.users other) := by
    intro other hother
    rw [hcomment other hother, htexture other hother]
    exact h.users other
  have husers := rel_update hothers (rel_map (h.users session) (g := id) hentry)
  rw [Option.map_id_fun, id, Function.update_eq_self] at husers
  exact ⟨h.connection, husers, h.channels⟩

end Agree

/-! ## Whole runs -/

theorem World.Agree.step {w : World} (h : w.Agree) {event : Event} (hkept : ¬ OwnRemoval w event) :
    (w.step event).Agree := by
  cases event with
  | message msg =>
      have hagree : SharedCopy.Agree w.ahead w.shared w.tracked := h
      cases msg with
      | userState state => exact hagree.userState state
      | userRemove session => exact hagree.userRemove hkept
      | channelState state => exact hagree.channelState state
      | channelRemove channelId => exact hagree.channelRemove channelId
      | permissionQuery pq => exact hagree.permissionQuery pq
      | serverSync sync => exact hagree.serverSync sync
      | version fancyVersion =>
          refine ⟨?_, hagree.users, hagree.channels⟩
          simp only [World.step, ServerState.step, ServerState.applyVersion, ← hagree.connection]
          rfl
      | other => exact hagree
  | setUserComment session comment =>
      refine SharedCopy.Agree.updateEntry h (fun other hother => Function.update_of_ne hother _ _)
        (fun other hother => rfl) fun e user hagrees => ?_
      simp only [World.step, Function.update_self]
      exact { hagrees with comment := fun hahead => Bool.noConfusion hahead }
  | setUserTexture session texture =>
      refine SharedCopy.Agree.updateEntry h (fun other hother => rfl)
        (fun other hother => Function.update_of_ne hother _ _) fun e user hagrees => ?_
      simp only [World.step, Function.update_self]
      exact { hagrees with texture := fun hahead => Bool.noConfusion hahead }

/-- Until the client is kicked, the two copies agree after every run of messages and commands,
save for the comments and textures that were set here and not told since. -/
theorem agree_run {events : List Event}
    (hkept : Along World.step (fun w event => ¬ OwnRemoval w event) {} events) :
    (run World.step {} events).Agree :=
  invariant_run (fun _ _ hagrees hnot => hagrees.step hnot)
    ⟨rfl, fun _ => .none, fun _ => .none⟩ hkept

/-- A user is announced and synchronised, sets a comment, and another one leaves. -/
theorem agree_run_commented :
    (run World.step {}
      [.message (.userState { session := some 1, name := some "me", channelId := some 2 }),
        .message (.serverSync { session := some 1 }), .setUserComment 1 "hello",
        .message (.userRemove 3)]).Agree :=
  agree_run ⟨not_false, not_false, not_false,
    show ¬ some (1 : UInt32) = some 3 by decide, trivial⟩

end FancyMumble.Client.Tracked.SharedCopy
