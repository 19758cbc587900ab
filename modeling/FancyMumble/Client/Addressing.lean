import FancyMumble.FancyCodec
import FancyMumble.Lib.Grouping
import FancyMumble.Lib.Runs

/-!
# Relayed messages on their way

What a receiver makes of a message that another client relays, on a server of any
version, and to whom the wrapper of a legacy server is addressed. The message itself
says for whom it is meant; the encoder goes by the client's current channel for some
types, and does not look whether the target is the client itself.
-/

namespace FancyMumble.Client

open Lib.Grouping Transport

variable {Rest : TcpMessageType → Type}

/-! ## The users of a server -/

/-- `User::session` is the key of the user, and a session has one user. -/
structure WellFormed (state : ServerState) : Prop where
  keys : (state.users.map Prod.fst).Nodup
  sessions : ∀ entry ∈ state.users, entry.2.session = entry.1

def applyUserState (state : ServerState) (session channelId : Option UInt32) : ServerState :=
  match session with
  | none => state
  | some session =>
      let users :=
        if session ∈ state.users.map Prod.fst then state.users
        else state.users ++ [(session, { session, channelId := 0 })]
      { state with
        users := users.map fun entry =>
          if entry.1 = session then
            (entry.1, { entry.2 with channelId := channelId.getD entry.2.channelId })
          else entry }

def removeUser (state : ServerState) (session : UInt32) : ServerState :=
  { state with users := state.users.filter fun entry => entry.1 != session }

theorem wellFormed_applyUserState {state : ServerState} (h : WellFormed state)
    (session channelId : Option UInt32) : WellFormed (applyUserState state session channelId) := by
  cases session with
  | none => exact h
  | some session =>
      have hinserted : ∀ users, users = (if session ∈ state.users.map Prod.fst then state.users
          else state.users ++ [(session, { session, channelId := 0 })]) →
          (users.map Prod.fst).Nodup ∧ ∀ entry ∈ users, entry.2.session = entry.1 := by
        rintro users rfl
        by_cases hmem : session ∈ state.users.map Prod.fst
        · rw [if_pos hmem]
          exact ⟨h.keys, h.sessions⟩
        · rw [if_neg hmem]
          constructor
          · rw [List.map_append]
            exact h.keys.append (List.nodup_singleton session)
              (by simpa [List.disjoint_singleton] using hmem)
          · intro entry hentry
            rcases List.mem_append.mp hentry with hold | hnew
            · exact h.sessions entry hold
            · rw [List.mem_singleton.mp hnew]
      obtain ⟨hkeys, hsessions⟩ := hinserted _ rfl
      constructor
      · rw [applyUserState, List.map_map]
        convert hkeys using 2
        funext entry
        rw [Function.comp_apply]
        split <;> rfl
      · intro entry hentry
        obtain ⟨before, hbefore, rfl⟩ := List.mem_map.mp hentry
        split
        · exact hsessions before hbefore
        · exact hsessions before hbefore

theorem wellFormed_removeUser {state : ServerState} (h : WellFormed state) (session : UInt32) :
    WellFormed (removeUser state session) where
  keys := h.keys.sublist (List.filter_sublist.map Prod.fst)
  sessions entry hentry := h.sessions entry (List.mem_of_mem_filter hentry)

inductive UserEvent where
  | userState (session channelId : Option UInt32)
  | userRemove (session : UInt32)

def applyUserEvent (state : ServerState) : UserEvent → ServerState
  | .userState session channelId => applyUserState state session channelId
  | .userRemove session => removeUser state session

/-- Every state that the server's messages lead to is well formed. -/
theorem wellFormed_run {start : ServerState} (hstart : start.users = [])
    (events : List UserEvent) : WellFormed (Lib.Runs.run applyUserEvent start events) := by
  refine Lib.Runs.invariant_always (fun state event h => ?_) ⟨by simp [hstart], by simp [hstart]⟩
  cases event with
  | userState session channelId => exact wellFormed_applyUserState h session channelId
  | userRemove session => exact wellFormed_removeUser h session

def ownSession (state : ServerState) : UInt32 := state.ownSession.getD 0

def channelOf (state : ServerState) (session : UInt32) : Option UInt32 :=
  (state.users.lookup session).map User.channelId

def currentChannel (state : ServerState) : UInt32 :=
  (channelOf state (ownSession state)).getD 0

theorem channelOf_eq_some_iff {state : ServerState} (h : WellFormed state)
    {session channelId : UInt32} :
    channelOf state session = some channelId ↔
      ∃ user, (session, user) ∈ state.users ∧ user.channelId = channelId := by
  simp only [channelOf, Option.map_eq_some_iff, lookup_eq_some_iff_mem h.keys]

theorem mem_sessions_filter {state : ServerState} (h : WellFormed state)
    {channelId own session : UInt32} :
    session ∈ ((state.users.map Prod.snd).filter fun user =>
        user.channelId == channelId && user.session != own).map User.session ↔
      session ≠ own ∧ channelOf state session = some channelId := by
  rw [channelOf_eq_some_iff h]
  constructor
  · intro hmem
    obtain ⟨user, huser, rfl⟩ := List.mem_map.mp hmem
    obtain ⟨hvalue, htest⟩ := List.mem_filter.mp huser
    obtain ⟨entry, hentry, rfl⟩ := List.mem_map.mp hvalue
    have htest : entry.2.channelId = channelId ∧ entry.2.session ≠ own := by simpa using htest
    refine ⟨htest.2, entry.2, ?_, htest.1⟩
    rw [h.sessions entry hentry]
    exact hentry
  · rintro ⟨hown, user, hentry, hchannel⟩
    have hsession : user.session = session := h.sessions _ hentry
    apply List.mem_map.mpr
    refine ⟨user, List.mem_filter.mpr ⟨List.mem_map.mpr ⟨_, hentry, rfl⟩, ?_⟩, hsession⟩
    simpa [hchannel, hsession] using hown

/-! ## For whom a message is meant -/

/-- What a relayed message names as its receivers: one session, or the users of a
channel. -/
inductive Designation where
  | session (target : UInt32)
  | channel (channelId : UInt32)

/-- The receivers that a message names. A signal without a target and a message that names
no channel are for the current channel; `startChannel` reads the channel in the start
event of a watch session. -/
def designation (startChannel : Rest .fancyWatchSync → Option UInt32) (state : ServerState) :
    ControlMessage Rest → Option Designation
  | ⟨.webRtcSignal, signal⟩ =>
      let target := signal.targetSession.getD 0
      some (if target ≠ 0 then .session target else .channel (currentChannel state))
  | ⟨.pchatSenderKeyDistribution, skd⟩ => some (.channel (skd.channelId.getD 0))
  | ⟨.fancyTypingIndicator, indicator⟩ =>
      some (.channel (indicator.channelId.getD (currentChannel state)))
  | ⟨.fancyWatchSync, sync⟩ =>
      some (.channel ((startChannel sync.rest).getD (currentChannel state)))
  | _ => none

def Designated (startChannel : Rest .fancyWatchSync → Option UInt32) (state : ServerState)
    (msg : ControlMessage Rest) (session : UInt32) : Prop :=
  session ≠ ownSession state ∧
    match designation startChannel state msg with
    | some (.session target) => session = target
    | some (.channel channelId) => channelOf state session = some channelId
    | none => False

/-- The signal is not for the client itself, and a typing indicator or the start of a watch
session names no other channel than the current one. -/
def WithinReach (startChannel : Rest .fancyWatchSync → Option UInt32) (state : ServerState) :
    ControlMessage Rest → Prop
  | ⟨.webRtcSignal, signal⟩ =>
      signal.targetSession.getD 0 = 0 ∨ signal.targetSession.getD 0 ≠ ownSession state
  | ⟨.fancyTypingIndicator, indicator⟩ =>
      ∀ channelId ∈ indicator.channelId, channelId = currentChannel state
  | ⟨.fancyWatchSync, sync⟩ =>
      ∀ channelId ∈ startChannel sync.rest, channelId = currentChannel state
  | _ => True

theorem relayable_cases {msg : ControlMessage Rest} (h : msg.Relayable) :
    (∃ signal, msg = ⟨.webRtcSignal, signal⟩) ∨
      (∃ skd, msg = ⟨.pchatSenderKeyDistribution, skd⟩) ∨
      (∃ indicator, msg = ⟨.fancyTypingIndicator, indicator⟩) ∨
      ∃ sync, msg = ⟨.fancyWatchSync, sync⟩ := by
  obtain ⟨messageType, payload⟩ := msg
  rcases (toU16_mem_relayableTypeIds messageType).mp ((relayable_iff _).mp h) with
    rfl | rfl | rfl | rfl
  · exact Or.inl ⟨payload, rfl⟩
  · exact Or.inr (Or.inl ⟨payload, rfl⟩)
  · exact Or.inr (Or.inr (Or.inl ⟨payload, rfl⟩))
  · exact Or.inr (Or.inr (Or.inr ⟨payload, rfl⟩))

theorem mem_channelMembers {state : ServerState} (h : WellFormed state) {session : UInt32} :
    session ∈ channelMembersExceptSelf state (ownSession state) ↔
      session ≠ ownSession state ∧ channelOf state session = some (currentChannel state) :=
  mem_sessions_filter h

theorem members_eq_iff {state : ServerState} (h : WellFormed state) {named : Option UInt32}
    (hreceivers : channelMembersExceptSelf state (ownSession state) ≠ []) :
    (∀ session, session ∈ channelMembersExceptSelf state (ownSession state) ↔
        session ≠ ownSession state ∧
          channelOf state session = some (named.getD (currentChannel state))) ↔
      ∀ channelId ∈ named, channelId = currentChannel state := by
  simp only [mem_channelMembers h]
  constructor
  · rintro hsame channelId rfl
    obtain ⟨session, hsession⟩ := List.exists_mem_of_ne_nil _ hreceivers
    have hcurrent := (mem_channelMembers h).mp hsession
    have hnamed := ((hsame session).mp hcurrent).2
    rw [hcurrent.2, Option.getD_some, Option.some_inj] at hnamed
    exact hnamed.symm
  · intro hnamed session
    cases named with
    | none => exact Iff.rfl
    | some channelId => rw [Option.getD_some, hnamed channelId rfl]

theorem receivers_iff (startChannel : Rest .fancyWatchSync → Option UInt32)
    {state : ServerState} (h : WellFormed state) {msg : ControlMessage Rest}
    (hreceivers : extractReceiverSessions msg state ≠ []) :
    (∀ session, session ∈ extractReceiverSessions msg state ↔
        Designated startChannel state msg session) ↔
      WithinReach startChannel state msg := by
  rcases relayable_cases ⟨state, hreceivers⟩ with
    ⟨signal, rfl⟩ | ⟨skd, rfl⟩ | ⟨indicator, rfl⟩ | ⟨sync, rfl⟩
  · simp only [extractReceiverSessions, Designated, designation, WithinReach]
    by_cases htarget : signal.targetSession.getD 0 = 0
    · simp only [htarget, ne_eq, not_true_eq_false, if_false, true_or, iff_true]
      exact fun session => mem_channelMembers h
    · simp only [htarget, ne_eq, not_false_eq_true, if_true, false_or, List.mem_singleton]
      constructor
      · intro hsame
        exact ((hsame _).mp rfl).1
      · intro hown session
        constructor
        · rintro rfl
          exact ⟨hown, rfl⟩
        · exact And.right
  · simp only [WithinReach, iff_true]
    exact fun session => mem_sessions_filter h
  · exact members_eq_iff h hreceivers
  · exact members_eq_iff h hreceivers

/-! ## What a receiver decodes -/

def withoutSender : ControlMessage Rest → ControlMessage Rest
  | ⟨.webRtcSignal, signal⟩ => ⟨.webRtcSignal, { signal with senderSession := none }⟩
  | ⟨.fancyTypingIndicator, indicator⟩ =>
      ⟨.fancyTypingIndicator, { indicator with actor := none }⟩
  | ⟨.fancyWatchSync, sync⟩ => ⟨.fancyWatchSync, { sync with actor := none }⟩
  | msg => msg

/-- What the server hands on: the wire message with the session of the sender filled in. -/
def relayed (sender : UInt32) : ControlMessage Rest → ControlMessage Rest
  | ⟨.pluginDataTransmission, pd⟩ =>
      ⟨.pluginDataTransmission, { pd with senderSession := some sender }⟩
  | ⟨.webRtcSignal, signal⟩ => ⟨.webRtcSignal, { signal with senderSession := some sender }⟩
  | ⟨.fancyTypingIndicator, indicator⟩ =>
      ⟨.fancyTypingIndicator, { indicator with actor := some sender }⟩
  | ⟨.fancyWatchSync, sync⟩ => ⟨.fancyWatchSync, { sync with actor := some sender }⟩
  | msg => msg

/-- The wire message is decoded as the message that was sent, but for the session of the
sender; a wrapper is addressed to the sessions that the message is meant for; and it makes
no difference to a receiver whether the message went out as it is or in a wrapper. -/
structure Relays (protobuf : Protobuf Rest) (startChannel : Rest .fancyWatchSync → Option UInt32)
    (state : ServerState) (msg wire : ControlMessage Rest) : Prop where
  roundTrip : ∀ (receiver : FancyCodec) (sender : UInt32),
    withoutSender (receiver.decode protobuf (relayed sender wire)) = withoutSender msg
  addressed : ∀ pd, wire = ⟨.pluginDataTransmission, pd⟩ → ∀ session,
    session ∈ pd.receiverSessions ↔ Designated startChannel state msg session
  agreement : ∀ version native legacy,
    FancyCodec.encode protobuf (.native version) msg state = some native →
    FancyCodec.encode protobuf .legacy msg state = some legacy →
    ∀ (receiver : FancyCodec) (sender : UInt32),
      withoutSender (receiver.decode protobuf (relayed sender native)) =
        withoutSender (receiver.decode protobuf (relayed sender legacy))

/-- The version of the server is one that knows the type of the message. -/
def SentNatively (serverVersion : Option UInt64) (msg : ControlMessage Rest) : Prop :=
  ∃ version ∈ serverVersion, ∃ support ∈ messageSupport msg.messageType,
    support.minVersion ≤ version

theorem withoutSender_patchSenderSession (msg : ControlMessage Rest) (sender : Option UInt32) :
    withoutSender (patchSenderSession msg sender) = withoutSender msg := by
  unfold patchSenderSession
  split
  · split <;> rfl
  · split <;> rfl
  · rfl

theorem relayable_iff_fallback (msg : ControlMessage Rest) :
    msg.Relayable ↔
      ∃ support ∈ messageSupport msg.messageType, support.fallback = .pluginData := by
  rw [relayable_iff, ControlMessage.typeId, toU16_mem_relayableTypeIds]
  cases msg.messageType <;> simp [messageSupport]

theorem isFancyExtension_of_relayable {msg : ControlMessage Rest} (h : msg.Relayable) :
    msg.isFancyExtension = true := by
  rcases relayable_cases h with ⟨_, rfl⟩ | ⟨_, rfl⟩ | ⟨_, rfl⟩ | ⟨_, rfl⟩ <;> rfl

theorem encode_native_of_relayable (protobuf : Protobuf Rest) {msg : ControlMessage Rest}
    (h : msg.Relayable) {support : MessageSupport}
    (hsupport : support ∈ messageSupport msg.messageType)
    (hfallback : support.fallback = .pluginData) (version : UInt64) (state : ServerState) :
    FancyCodec.encode protobuf (.native version) msg state =
      if support.minVersion ≤ version then some msg
      else FancyCodec.legacyEncode protobuf msg state := by
  simp only [FancyCodec.encode, isFancyExtension_of_relayable h, Bool.not_true,
    Bool.false_eq_true, if_false, Option.mem_def.mp hsupport, hfallback]

/-- A relayed message goes out as it is on a server that knows it, and in a wrapper otherwise. -/
theorem encode_of_relayable (protobuf : Protobuf Rest) {msg : ControlMessage Rest}
    (h : msg.Relayable) (state : ServerState) (serverVersion : Option UInt64) :
    (SentNatively serverVersion msg →
      (selectCodec serverVersion).encode protobuf msg state = some msg) ∧
    (¬SentNatively serverVersion msg →
      (selectCodec serverVersion).encode protobuf msg state =
        FancyCodec.legacyEncode protobuf msg state) := by
  obtain ⟨support, hsupport, hfallback⟩ := (relayable_iff_fallback msg).mp h
  have hminimum : fancyNativeMinVersion ≤ support.minVersion := by
    rcases relayable_cases h with ⟨_, rfl⟩ | ⟨_, rfl⟩ | ⟨_, rfl⟩ | ⟨_, rfl⟩ <;>
      cases hsupport <;> decide
  have hnative := fun version =>
    encode_native_of_relayable protobuf h hsupport hfallback version state
  cases serverVersion with
  | none =>
      constructor
      · rintro ⟨version, hversion, -⟩
        cases hversion
      · exact fun _ => rfl
  | some version =>
      constructor
      · rintro ⟨version', hversion, support', hsupport', hle⟩
        cases hversion
        cases Option.mem_unique hsupport hsupport'
        rw [selectCodec, if_pos (UInt64.le_trans hminimum hle), hnative, if_pos hle]
      · intro hnot
        have hlt : ¬support.minVersion ≤ version :=
          fun hle => hnot ⟨version, rfl, support, hsupport, hle⟩
        rw [selectCodec]
        split
        · rw [hnative, if_neg hlt]
        · rfl

theorem legacyEncode_eq_some {protobuf : Protobuf Rest} {msg wire : ControlMessage Rest}
    (h : msg.Relayable) {state : ServerState}
    (hwire : FancyCodec.legacyEncode protobuf msg state = some wire) :
    extractReceiverSessions msg state ≠ [] ∧
      wire = ⟨.pluginDataTransmission,
        { senderSession := none
          receiverSessions := extractReceiverSessions msg state
          data := some (serializeControlMessage protobuf msg).2
          dataId := some (wrappedDataId (serializeControlMessage protobuf msg).1) }⟩ := by
  unfold FancyCodec.legacyEncode at hwire
  rw [isFancyExtension_of_relayable h, Bool.not_true, if_neg Bool.false_ne_true] at hwire
  dsimp only at hwire
  split at hwire
  · cases hwire
  · next hreceivers =>
      constructor
      · intro hempty
        exact hreceivers (List.isEmpty_iff.mpr hempty)
      · exact (Option.some.inj hwire).symm

theorem messageType_relayed (sender : UInt32) (msg : ControlMessage Rest) :
    (relayed sender msg).messageType = msg.messageType := by
  unfold relayed
  split <;> rfl

theorem decode_relayed_native {protobuf : Protobuf Rest} {msg : ControlMessage Rest}
    (h : msg.Relayable) (receiver : FancyCodec) (sender : UInt32) :
    withoutSender (receiver.decode protobuf (relayed sender msg)) = withoutSender msg := by
  rw [decode_of_ne receiver]
  · rcases relayable_cases h with ⟨_, rfl⟩ | ⟨_, rfl⟩ | ⟨_, rfl⟩ | ⟨_, rfl⟩ <;> rfl
  · rw [messageType_relayed]
    rcases relayable_cases h with ⟨_, rfl⟩ | ⟨_, rfl⟩ | ⟨_, rfl⟩ | ⟨_, rfl⟩ <;> nofun

theorem decode_relayed_legacy {protobuf : Protobuf Rest} {msg wire : ControlMessage Rest}
    (hround : protobuf.RoundTrips msg) (h : msg.Relayable) {state : ServerState}
    (hwire : FancyCodec.legacyEncode protobuf msg state = some wire) (receiver : FancyCodec)
    (sender : UInt32) :
    withoutSender (receiver.decode protobuf (relayed sender wire)) = withoutSender msg := by
  obtain ⟨-, rfl⟩ := legacyEncode_eq_some h hwire
  have hwrapped : wrappedMessage protobuf
      { senderSession := some sender
        receiverSessions := extractReceiverSessions msg state
        data := some (serializeControlMessage protobuf msg).2
        dataId := some (wrappedDataId (serializeControlMessage protobuf msg).1) } = some msg :=
    wrappedMessage_eq_some_iff.mpr ⟨_, wrappedTypeId_of_dataId rfl, _, rfl,
      deserialize_serialize_of_roundTrips hround⟩
  rw [relayed, decode_wrapper receiver hwrapped, withoutSender_patchSenderSession]

theorem decode_relayed {protobuf : Protobuf Rest} {msg wire : ControlMessage Rest}
    (hround : protobuf.RoundTrips msg) (h : msg.Relayable) {state : ServerState}
    {codec : FancyCodec} (hwire : codec.encode protobuf msg state = some wire)
    (receiver : FancyCodec) (sender : UInt32) :
    withoutSender (receiver.decode protobuf (relayed sender wire)) = withoutSender msg := by
  cases codec with
  | legacy => exact decode_relayed_legacy hround h hwire receiver sender
  | native version =>
      obtain ⟨support, hsupport, hfallback⟩ := (relayable_iff_fallback msg).mp h
      rw [encode_native_of_relayable protobuf h hsupport hfallback] at hwire
      split at hwire
      · cases hwire
        exact decode_relayed_native h receiver sender
      · exact decode_relayed_legacy hround h hwire receiver sender

/-- A relayed message arrives as it was sent on every server; its wrapper is addressed to
the sessions it is meant for exactly if it is within reach. -/
theorem relays_iff {protobuf : Protobuf Rest} {msg wire : ControlMessage Rest}
    (startChannel : Rest .fancyWatchSync → Option UInt32) {state : ServerState}
    {serverVersion : Option UInt64} (hround : protobuf.RoundTrips msg) (h : msg.Relayable)
    (hstate : WellFormed state)
    (hwire : (selectCodec serverVersion).encode protobuf msg state = some wire) :
    Relays protobuf startChannel state msg wire ↔
      SentNatively serverVersion msg ∨ WithinReach startChannel state msg := by
  have hencode := encode_of_relayable protobuf h state serverVersion
  have haddressed : (∀ pd, wire = ⟨.pluginDataTransmission, pd⟩ → ∀ session,
      session ∈ pd.receiverSessions ↔ Designated startChannel state msg session) ↔
      SentNatively serverVersion msg ∨ WithinReach startChannel state msg := by
    by_cases hnative : SentNatively serverVersion msg
    · rw [hencode.1 hnative] at hwire
      cases hwire
      simp only [hnative, true_or, iff_true]
      rintro pd rfl
      rcases relayable_cases h with ⟨_, htype⟩ | ⟨_, htype⟩ | ⟨_, htype⟩ | ⟨_, htype⟩ <;>
        cases htype
    · rw [hencode.2 hnative] at hwire
      obtain ⟨hreceivers, rfl⟩ := legacyEncode_eq_some h hwire
      rw [or_iff_right hnative, ← receivers_iff startChannel hstate hreceivers]
      constructor
      · intro hall
        exact hall _ rfl
      · rintro hsame pd hpd
        cases hpd
        exact hsame
  constructor
  · intro hrelays
    exact haddressed.mp hrelays.addressed
  · intro hreach
    exact {
      roundTrip := fun receiver sender => decode_relayed hround h hwire receiver sender
      addressed := haddressed.mpr hreach
      agreement := fun version native legacy hnative hlegacy receiver sender =>
        (decode_relayed hround h hnative receiver sender).trans
          (decode_relayed hround h hlegacy receiver sender).symm }

section Example

/-- The protobuf code on typing indicators without an actor, for a channel below 128. -/
private def channelProtobuf : Protobuf (fun _ => Unit) where
  encodeToVec
    | .fancyTypingIndicator, { channelId := some channelId, .. } => [0x10, channelId.toUInt8]
    | _, _ => []
  decode
    | .fancyTypingIndicator, [0x10, channelId] => .ok { channelId := some channelId.toUInt32 }
    | _, _ => .error "unexpected payload"

/-- The client with session 1 and a peer are in channel 0, another user is in channel 1. -/
private def serverExample : ServerState :=
  Lib.Runs.run applyUserEvent { ownSession := some 1, users := [] }
    [.userState (some 1) (some 0), .userState (some 2) none, .userState (some 3) (some 1)]

private theorem wellFormed_serverExample : WellFormed serverExample :=
  wellFormed_run rfl _

private def typingIn (channelId : UInt32) : ControlMessage (fun _ => Unit) :=
  ⟨.fancyTypingIndicator, { channelId := some channelId }⟩

private theorem relayable_typingIn (channelId : UInt32) : (typingIn channelId).Relayable :=
  ⟨serverExample, List.cons_ne_nil 2 []⟩

private theorem encode_typingIn :
    (selectCodec none).encode channelProtobuf (typingIn 0) serverExample =
      some ⟨.pluginDataTransmission,
        { receiverSessions := [2], data := some [0x10, 0],
          dataId := some "fancy-native:131" }⟩ := rfl

/-- Typing in the current channel reaches the peer there, through a legacy server. -/
theorem relays_example : Relays channelProtobuf (fun _ => none) serverExample (typingIn 0)
    ⟨.pluginDataTransmission,
      { receiverSessions := [2], data := some [0x10, 0], dataId := some "fancy-native:131" }⟩ :=
  (relays_iff (fun _ => none) (fun _ => rfl) (relayable_typingIn 0)
    wellFormed_serverExample encode_typingIn).mpr
    (.inr fun _ hchannel => (Option.some.inj hchannel).symm)

/-- Typing in channel 1 is announced to the users of channel 0. -/
theorem typing_sent_to_other_channel :
    ¬∀ (protobuf : Protobuf (fun _ => Unit)) (startChannel : Unit → Option UInt32)
      (state : ServerState) (msg wire : ControlMessage (fun _ => Unit))
      (serverVersion : Option UInt64), protobuf.RoundTrips msg → msg.Relayable →
        WellFormed state → (selectCodec serverVersion).encode protobuf msg state = some wire →
          Relays protobuf startChannel state msg wire := by
  intro h
  have hrelays := h channelProtobuf (fun _ => none) serverExample (typingIn 1) _ none
    (fun _ => rfl) (relayable_typingIn 1) wellFormed_serverExample rfl
  have hpeer := (hrelays.addressed _ rfl 2).mp (by decide)
  have hchannel : channelOf serverExample 2 = some 1 := hpeer.2
  exact absurd hchannel (by decide)

end Example

end FancyMumble.Client
