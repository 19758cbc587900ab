import FancyMumble.Client.ChannelState
import FancyMumble.Lib.Lifetimes
import FancyMumble.Lib.Settling

/-!
# The tracked state of a server

The protocol client keeps the users and channels of the server from partial updates. What it
keeps after any run of messages is what the server has announced: a user or channel is there
when it was announced after its last removal, and each of its fields is the last one that was
sent since.
-/

namespace FancyMumble.Client.Tracked

open Lib.Lifetimes Lib.Runs Lib.Settling
open Persistent

/-! ## The messages -/

structure UserState where
  session : Option UInt32 := none
  name : Option String := none
  userId : Option UInt32 := none
  channelId : Option UInt32 := none
  mute : Option Bool := none
  deaf : Option Bool := none
  selfMute : Option Bool := none
  selfDeaf : Option Bool := none
  texture : Option (List UInt8) := none
  comment : Option String := none
  hash : Option String := none

structure FullChannelState extends ChannelState where
  isEnterRestricted : Option Bool := none
  canEnter : Option Bool := none

structure PermissionQuery where
  channelId : Option UInt32 := none
  permissions : Option UInt32 := none
  flush : Option Bool := none

structure ServerSync where
  session : Option UInt32 := none
  maxBandwidth : Option UInt32 := none
  welcomeText : Option String := none
  permissions : Option UInt64 := none

inductive Update where
  | version (fancyVersion : Option UInt64)
  | serverSync (sync : ServerSync)
  | userState (state : UserState)
  | userRemove (session : UInt32)
  | channelState (state : FullChannelState)
  | channelRemove (channelId : UInt32)
  | permissionQuery (pq : PermissionQuery)
  | other

/-! ## The state -/

structure User where
  session : UInt32
  name : String := ""
  channelId : UInt32 := 0
  userId : Option UInt32 := none
  mute : Bool := false
  deaf : Bool := false
  selfMute : Bool := false
  selfDeaf : Bool := false
  comment : String := ""
  texture : List UInt8 := []
  hash : String := ""

structure Channel where
  channelId : UInt32
  parentId : Option UInt32 := none
  name : String := ""
  description : String := ""
  descriptionHash : Option (List UInt8) := none
  position : Int32 := 0
  temporary : Bool := false
  maxUsers : UInt32 := 0
  permissions : Option UInt32 := none
  isEnterRestricted : Bool := false
  canEnter : Bool := true
  pchatProtocol : Option PchatProtocol := none
  pchatMaxHistory : Option UInt32 := none
  pchatRetentionDays : Option UInt32 := none

structure ConnectionInfo where
  sessionId : Option UInt32 := none
  maxBandwidth : Option UInt32 := none
  welcomeText : Option String := none
  serverFancyVersion : Option UInt64 := none

/-- `ServerState`, without the shared statistics. -/
@[ext] structure ServerState where
  connection : ConnectionInfo := {}
  users : UInt32 → Option User := fun _ => none
  channels : UInt32 → Option Channel := fun _ => none

def User.update (user : User) (state : UserState) : User :=
  { user with
    name := state.name.getD user.name
    channelId := state.channelId.getD user.channelId
    mute := state.mute.getD user.mute
    deaf := state.deaf.getD user.deaf
    selfMute := state.selfMute.getD user.selfMute
    selfDeaf := state.selfDeaf.getD user.selfDeaf
    comment := state.comment.getD user.comment
    texture := state.texture.getD user.texture
    hash := state.hash.getD user.hash
    userId := state.userId.or user.userId }

def Channel.update (channel : Channel) (state : FullChannelState) : Channel :=
  { channel with
    parentId := state.parent.or channel.parentId
    name := state.name.getD channel.name
    description := state.description.getD channel.description
    descriptionHash := state.descriptionHash.or channel.descriptionHash
    position := state.position.getD channel.position
    temporary := state.temporary.getD channel.temporary
    maxUsers := state.maxUsers.getD channel.maxUsers
    isEnterRestricted := state.isEnterRestricted.getD channel.isEnterRestricted
    canEnter := state.canEnter.getD channel.canEnter
    pchatProtocol := (state.pchatProtocol.map PchatProtocol.fromProto).or channel.pchatProtocol
    pchatMaxHistory := state.pchatMaxHistory.or channel.pchatMaxHistory
    pchatRetentionDays := state.pchatRetentionDays.or channel.pchatRetentionDays }

namespace ServerState

def applyUserState (s : ServerState) (state : UserState) : ServerState :=
  match state.session with
  | none => s
  | some session =>
      let user := (s.users session).getD { session }
      { s with users := Function.update s.users session (some (user.update state)) }

def removeUser (s : ServerState) (session : UInt32) : ServerState :=
  { s with users := Function.update s.users session none }

def applyChannelState (s : ServerState) (state : FullChannelState) : ServerState :=
  match state.channelId with
  | none => s
  | some channelId =>
      let channel := (s.channels channelId).getD { channelId }
      { s with channels := Function.update s.channels channelId (some (channel.update state)) }

def removeChannel (s : ServerState) (channelId : UInt32) : ServerState :=
  { s with channels := Function.update s.channels channelId none }

def setPermissions (s : ServerState) (channelId permissions : UInt32) : ServerState :=
  match s.channels channelId with
  | none => s
  | some channel =>
      let channel := { channel with permissions := some permissions }
      { s with channels := Function.update s.channels channelId (some channel) }

def applyPermissionQuery (s : ServerState) (pq : PermissionQuery) : ServerState :=
  let flushed :=
    if pq.flush.getD false then
      { s with channels := fun id =>
          (s.channels id).map fun channel => { channel with permissions := none } }
    else s
  match pq.channelId, pq.permissions with
  | some channelId, some permissions => flushed.setPermissions channelId permissions
  | _, _ => flushed

def applyVersion (s : ServerState) (fancyVersion : Option UInt64) : ServerState :=
  { s with connection := { s.connection with serverFancyVersion := fancyVersion } }

/-- The permissions of the message are those of the root channel; the mask is cut to 32 bits. -/
def applyServerSync (s : ServerState) (sync : ServerSync) : ServerState :=
  let synced :=
    { s with connection :=
        { s.connection with
          sessionId := sync.session
          maxBandwidth := sync.maxBandwidth
          welcomeText := sync.welcomeText } }
  match sync.permissions with
  | some permissions => synced.setPermissions 0 permissions.toUInt32
  | none => synced

def step (s : ServerState) : Update → ServerState
  | .version fancyVersion => s.applyVersion fancyVersion
  | .serverSync sync => s.applyServerSync sync
  | .userState state => s.applyUserState state
  | .userRemove session => s.removeUser session
  | .channelState state => s.applyChannelState state
  | .channelRemove channelId => s.removeChannel channelId
  | .permissionQuery pq => s.applyPermissionQuery pq
  | .other => s

end ServerState

/-! ## What the server has announced -/

section Announced

variable {β : Type}

def announcesUser (session : UInt32) : Update → Bool
  | .userState state => state.session = some session
  | _ => false

def removesUser (session : UInt32) : Update → Bool
  | .userRemove removed => removed = session
  | _ => false

def announcesChannel (channelId : UInt32) : Update → Bool
  | .channelState state => state.channelId = some channelId
  | _ => false

def removesChannel (channelId : UInt32) : Update → Bool
  | .channelRemove removed => removed = channelId
  | _ => false

def ofUser (session : UInt32) (field : UserState → Option β) : Update → Option β
  | .userState state => if state.session = some session then field state else none
  | _ => none

def ofChannel (channelId : UInt32) (field : FullChannelState → Option β) : Update → Option β
  | .channelState state => if state.channelId = some channelId then field state else none
  | _ => none

def ofSync (field : ServerSync → β) : Update → Option β
  | .serverSync sync => some (field sync)
  | _ => none

def ofVersion : Update → Option (Option UInt64)
  | .version fancyVersion => some fancyVersion
  | _ => none

/-- What the update says about the permissions on the channel: a mask, or that the known one is
no longer valid. -/
def ofPermissions (channelId : UInt32) : Update → Option (Option UInt32)
  | .permissionQuery pq =>
      if pq.channelId = some channelId ∧ pq.permissions.isSome then some pq.permissions
      else if pq.flush = some true then some none
      else none
  | .serverSync sync =>
      if channelId = 0 then sync.permissions.map fun permissions => some permissions.toUInt32
      else none
  | _ => none

def lastUser (session : UInt32) (told : List Update) (default : β)
    (field : UserState → Option β) : β :=
  settled (ofUser session field) default told

def lastChannel (channelId : UInt32) (told : List Update) (default : β)
    (field : FullChannelState → Option β) : β :=
  settled (ofChannel channelId field) default told

end Announced

def announcedUser (session : UInt32) (told : List Update) : User where
  session := session
  name := lastUser session told "" UserState.name
  channelId := lastUser session told 0 UserState.channelId
  userId := lastUser session told none fun state => state.userId.map some
  mute := lastUser session told false UserState.mute
  deaf := lastUser session told false UserState.deaf
  selfMute := lastUser session told false UserState.selfMute
  selfDeaf := lastUser session told false UserState.selfDeaf
  comment := lastUser session told "" UserState.comment
  texture := lastUser session told [] UserState.texture
  hash := lastUser session told "" UserState.hash

def announcedChannel (channelId : UInt32) (told : List Update) : Channel where
  channelId := channelId
  parentId := lastChannel channelId told none fun state => state.parent.map some
  name := lastChannel channelId told "" fun state => state.name
  description := lastChannel channelId told "" fun state => state.description
  descriptionHash := lastChannel channelId told none fun state => state.descriptionHash.map some
  position := lastChannel channelId told 0 fun state => state.position
  temporary := lastChannel channelId told false fun state => state.temporary
  maxUsers := lastChannel channelId told 0 fun state => state.maxUsers
  permissions := settled (ofPermissions channelId) none told
  isEnterRestricted := lastChannel channelId told false FullChannelState.isEnterRestricted
  canEnter := lastChannel channelId told true FullChannelState.canEnter
  pchatProtocol := lastChannel channelId told none fun state =>
    state.pchatProtocol.map fun protocol => some (PchatProtocol.fromProto protocol)
  pchatMaxHistory := lastChannel channelId told none fun state => state.pchatMaxHistory.map some
  pchatRetentionDays := lastChannel channelId told none fun state =>
    state.pchatRetentionDays.map some

/-- The state of the server as its messages announce it: who and what was announced after its
last removal, with the last value of each field since. -/
def announced (updates : List Update) : ServerState where
  connection :=
    { sessionId := settled (ofSync ServerSync.session) none updates
      maxBandwidth := settled (ofSync ServerSync.maxBandwidth) none updates
      welcomeText := settled (ofSync ServerSync.welcomeText) none updates
      serverFancyVersion := settled ofVersion none updates }
  users session :=
    let told := lifetime (announcesUser session) (removesUser session) updates
    if told = [] then none else some (announcedUser session told)
  channels channelId :=
    let told := lifetime (announcesChannel channelId) (removesChannel channelId) updates
    if told = [] then none else some (announcedChannel channelId told)

/-! ## One message -/

def userChange (session : UInt32) : Update → Change User
  | .userState state =>
      if state.session = some session then .make (·.update state) else .adjust id
  | .userRemove removed => if removed = session then .delete else .adjust id
  | .version _ | .serverSync _ | .channelState _ | .channelRemove _ | .permissionQuery _
  | .other => .adjust id

def channelChange (channelId : UInt32) : Update → Change Channel
  | .channelState state =>
      if state.channelId = some channelId then .make (·.update state) else .adjust id
  | .channelRemove removed => if removed = channelId then .delete else .adjust id
  | .permissionQuery pq =>
      .adjust fun channel =>
        match pq.channelId, pq.permissions with
        | some queried, some permissions =>
            if queried = channelId then { channel with permissions := some permissions }
            else if pq.flush.getD false then { channel with permissions := none }
            else channel
        | _, _ => if pq.flush.getD false then { channel with permissions := none } else channel
  | .serverSync sync =>
      .adjust fun channel =>
        match sync.permissions with
        | some permissions =>
            if channelId = 0 then { channel with permissions := some permissions.toUInt32 }
            else channel
        | none => channel
  | .version _ | .userState _ | .userRemove _ | .other => .adjust id

theorem makes_userChange (session : UInt32) :
    (fun update => (userChange session update).makes) = announcesUser session := by
  funext update
  cases update with
  | userState state =>
      simp only [userChange, announcesUser]
      split <;> simp [Change.makes, *]
  | userRemove removed =>
      simp only [userChange]
      split <;> rfl
  | _ => rfl

theorem deletes_userChange (session : UInt32) :
    (fun update => (userChange session update).deletes) = removesUser session := by
  funext update
  cases update with
  | userState state =>
      simp only [userChange]
      split <;> rfl
  | userRemove removed =>
      simp only [userChange, removesUser]
      split <;> simp [Change.deletes, *]
  | _ => rfl

theorem makes_channelChange (channelId : UInt32) :
    (fun update => (channelChange channelId update).makes) = announcesChannel channelId := by
  funext update
  cases update with
  | channelState state =>
      simp only [channelChange, announcesChannel]
      split <;> simp [Change.makes, *]
  | channelRemove removed =>
      simp only [channelChange]
      split <;> rfl
  | _ => rfl

theorem deletes_channelChange (channelId : UInt32) :
    (fun update => (channelChange channelId update).deletes) = removesChannel channelId := by
  funext update
  cases update with
  | channelState state =>
      simp only [channelChange]
      split <;> rfl
  | channelRemove removed =>
      simp only [channelChange, removesChannel]
      split <;> simp [Change.deletes, *]
  | _ => rfl

namespace ServerState

variable {s : ServerState} {session channelId : UInt32}

theorem setPermissions_eq (queried permissions : UInt32) :
    s.setPermissions queried permissions =
      { s with
        channels := Function.update s.channels queried
          ((s.channels queried).map fun channel =>
            { channel with permissions := some permissions }) } := by
  unfold setPermissions
  cases hchannel : s.channels queried with
  | none =>
      have hsame := Function.update_eq_self queried s.channels
      rw [hchannel] at hsame
      rw [Option.map_none, hsame]
  | some channel => rfl

theorem users_step (update : Update) :
    (s.step update).users session =
      (userChange session update).apply { session } (s.users session) := by
  cases update with
  | userState state =>
      simp only [step, applyUserState, userChange]
      cases hsession : state.session with
      | none => simp [Change.apply]
      | some told =>
          by_cases h : told = session
          · subst h
            simp [Change.apply]
          · simp [Change.apply, h, Function.update_of_ne (Ne.symm h)]
  | userRemove removed =>
      simp only [step, removeUser, userChange]
      by_cases h : removed = session
      · subst h
        simp [Change.apply]
      · simp [Change.apply, h, Function.update_of_ne (Ne.symm h)]
  | serverSync sync =>
      simp only [step, applyServerSync, setPermissions_eq, userChange, Change.apply,
        Option.map_id]
      split <;> rfl
  | permissionQuery pq =>
      simp only [step, applyPermissionQuery, setPermissions_eq, userChange, Change.apply,
        Option.map_id]
      split
      next => split <;> rfl
      next => split <;> rfl
  | channelState state =>
      simp only [step, applyChannelState, userChange, Change.apply, Option.map_id]
      split <;> rfl
  | version _ => simp [step, applyVersion, userChange, Change.apply]
  | channelRemove _ => simp [step, removeChannel, userChange, Change.apply]
  | other => simp [step, userChange, Change.apply]

theorem channels_setPermissions (queried permissions : UInt32) :
    (s.setPermissions queried permissions).channels channelId =
      (s.channels channelId).map fun channel =>
        if queried = channelId then { channel with permissions := some permissions }
        else channel := by
  rw [setPermissions_eq]
  by_cases h : queried = channelId
  · subst h
    simp
  · simp [h, Function.update_of_ne (Ne.symm h)]

theorem channels_step (update : Update) :
    (s.step update).channels channelId =
      (channelChange channelId update).apply { channelId } (s.channels channelId) := by
  cases update with
  | channelState state =>
      simp only [step, applyChannelState, channelChange]
      cases hchannel : state.channelId with
      | none => simp [Change.apply]
      | some told =>
          by_cases h : told = channelId
          · subst h
            simp [Change.apply]
          · simp [Change.apply, h, Function.update_of_ne (Ne.symm h)]
  | channelRemove removed =>
      simp only [step, removeChannel, channelChange]
      by_cases h : removed = channelId
      · subst h
        simp [Change.apply]
      · simp [Change.apply, h, Function.update_of_ne (Ne.symm h)]
  | serverSync sync =>
      simp only [step, applyServerSync, channelChange, Change.apply]
      cases sync.permissions with
      | none => simp
      | some permissions => simp only [channels_setPermissions, eq_comm]
  | permissionQuery pq =>
      simp only [step, applyPermissionQuery, channelChange, Change.apply]
      cases pq.channelId with
      | none => cases pq.flush.getD false <;> simp
      | some queried =>
          cases pq.permissions with
          | none => cases pq.flush.getD false <;> simp
          | some permissions =>
              rw [channels_setPermissions]
              cases pq.flush.getD false with
              | false => simp
              | true =>
                  simp only [if_true, Option.map_map]
                  congr 1
  | version _ => simp [step, applyVersion, channelChange, Change.apply]
  | userState state =>
      simp only [step, applyUserState, channelChange, Change.apply, Option.map_id]
      split <;> rfl
  | userRemove _ => simp [step, removeUser, channelChange, Change.apply]
  | other => simp [step, channelChange, Change.apply]

theorem connection_setPermissions (channelId permissions : UInt32) :
    (s.setPermissions channelId permissions).connection = s.connection := by
  rw [setPermissions_eq]

theorem connection_step (update : Update) :
    (s.step update).connection =
      { sessionId := (ofSync ServerSync.session update).getD s.connection.sessionId
        maxBandwidth := (ofSync ServerSync.maxBandwidth update).getD s.connection.maxBandwidth
        welcomeText := (ofSync ServerSync.welcomeText update).getD s.connection.welcomeText
        serverFancyVersion := (ofVersion update).getD s.connection.serverFancyVersion } := by
  cases update with
  | serverSync sync =>
      simp only [step, applyServerSync]
      split
      next => rw [connection_setPermissions]; rfl
      next => rfl
  | permissionQuery pq =>
      simp only [step, applyPermissionQuery]
      split
      next =>
        rw [connection_setPermissions]
        split <;> rfl
      next => split <;> rfl
  | userState state =>
      simp only [step, applyUserState]
      split <;> rfl
  | channelState state =>
      simp only [step, applyChannelState]
      split <;> rfl
  | version _ => rfl
  | userRemove _ => rfl
  | channelRemove _ => rfl
  | other => rfl

end ServerState

/-! ## Whole runs -/

theorem announcedUser_concat (session : UInt32) (told : List Update) (update : Update) :
    announcedUser session (told ++ [update]) =
      (userChange session update).value (announcedUser session told) := by
  simp only [announcedUser, lastUser, settled_concat]
  cases update with
  | userState state =>
      simp only [userChange, ofUser]
      split
      next =>
        simp only [Change.value, User.update]
        cases state.userId <;> rfl
      next => rfl
  | userRemove removed =>
      simp only [userChange]
      split <;> rfl
  | version _ => rfl
  | serverSync _ => rfl
  | channelState _ => rfl
  | channelRemove _ => rfl
  | permissionQuery _ => rfl
  | other => rfl

theorem announcedChannel_concat (channelId : UInt32) (told : List Update) (update : Update) :
    announcedChannel channelId (told ++ [update]) =
      (channelChange channelId update).value (announcedChannel channelId told) := by
  simp only [announcedChannel, lastChannel, settled_concat]
  cases update with
  | channelState state =>
      simp only [channelChange, ofChannel, ofPermissions]
      split
      next =>
        simp only [Change.value, Channel.update]
        cases state.parent <;> cases state.descriptionHash <;> cases state.pchatProtocol <;>
          cases state.pchatMaxHistory <;> cases state.pchatRetentionDays <;> rfl
      next => rfl
  | channelRemove removed =>
      simp only [channelChange]
      split <;> rfl
  | serverSync sync =>
      simp only [channelChange, ofChannel, ofPermissions, Change.value]
      cases sync.permissions with
      | none => split <;> rfl
      | some permissions => split <;> rfl
  | permissionQuery pq =>
      simp only [channelChange, ofChannel, ofPermissions, Change.value]
      cases pq.channelId with
      | none => cases pq.flush with
        | none => rfl
        | some flush => cases flush <;> rfl
      | some queried =>
          cases pq.permissions with
          | none => cases pq.flush with
            | none => simp
            | some flush => cases flush <;> simp
          | some permissions =>
              by_cases h : queried = channelId
              · simp [h]
              · cases pq.flush with
                | none => simp [h]
                | some flush => cases flush <;> simp [h]
  | version _ => rfl
  | userState _ => rfl
  | userRemove _ => rfl
  | other => rfl

/-- The client's picture of the server is what the server has announced. -/
theorem run_step_eq_announced (updates : List Update) :
    run ServerState.step {} updates = announced updates := by
  ext1
  · induction updates using List.reverseRecOn with
    | nil => rfl
    | append_singleton updates update ih =>
        rw [run_append, run_cons, run_nil, ServerState.connection_step, ih]
        simp only [announced, settled_concat]
  · funext session
    have hentry := entry_run (fun s : ServerState => s.users session)
      (fun s update => ServerState.users_step update) rfl (announcedUser_concat session)
      (s := {}) rfl updates
    rw [makes_userChange, deletes_userChange] at hentry
    exact hentry
  · funext channelId
    have hentry := entry_run (fun s : ServerState => s.channels channelId)
      (fun s update => ServerState.channels_step update) rfl (announcedChannel_concat channelId)
      (s := {}) rfl updates
    rw [makes_channelChange, deletes_channelChange] at hentry
    exact hentry

end FancyMumble.Client.Tracked
