import FancyMumble.Lib.Coroutines
import FancyMumble.Messages.Outbound

/-!
# Commands of the user

A command of the user takes the active session anew at several of its steps, while it holds
on to the client handle that it has found in one of them. Between two steps the user may
switch to another server.
-/

namespace FancyMumble.Messages

open Client (PendingKeyShare isEncrypted)
open Lib.Coroutines Lib.Runs Persistent Signal

variable {lib : Libraries} (codecs : Codecs lib)

/-! ## Steps of a command -/

/-- A session, with the connection whose client handle it has. -/
abbrev SessionRef := ℕ

/-- The `SharedState` of a session, as far as the commands use it. -/
structure CommandState (lib : Libraries) where
  shared : SharedState lib := {}
  ownSession : Option UInt32 := none
  ownName : String := ""
  userHash : UInt32 → Option String := fun _ => none
  fancyVersion : Option UInt64 := none
  protocols : UInt32 → Option PchatProtocol := fun _ => none
  disableDualPath : Bool := false
  byDm : UInt32 → List ChatMessage := fun _ => []
  pendingKeyShares : List PendingKeyShare := []

inductive SentCommand (lib : Libraries) where
  | textMessage (channelIds userSessions : List UInt32) (message : String)
      (messageId : Option String) (timestamp : Option UInt64)
  | pchatMessage (message : PchatMessage lib)
  | pchatKeyExchange (exchange : PchatKeyExchange)
  | pchatKeyHolderReport (channelId : UInt32) (certHash : String)

/-- A command: it sends, which can fail, and ends with a result. -/
abbrev Command (lib : Libraries) :=
  Coroutine SessionRef (CommandState lib) (SentCommand lib) (Except String Unit)
    (Except String Unit)

namespace CommandState

def handle (ref : SessionRef) (state : CommandState lib) : Option SessionRef :=
  if state.shared.clientHandle then some ref else none

def ownSessionHash (state : CommandState lib) : Option String :=
  state.ownSession.bind state.userHash

end CommandState

/-! ## Channel messages -/

/-- What the environment of a message provides: the generated id, the time, the randomness
of the encryption, the bridge if it has to be loaded, and an id for the stored row. -/
structure SendInputs (lib : Libraries) where
  messageId : String
  now : UInt64
  rng : lib.Rng
  loaded : Option (SignalBridgeCtx lib)
  rowId : String

def storeOwn (inputs : SendInputs lib) (data : OwnMessageData) : Command lib :=
  .locked fun _ state =>
    ({ state with shared := storeOwnMessage inputs.rowId data state.shared }, .done (.ok ()))

def sendText (inputs : SendInputs lib) (data : OwnMessageData) (handle : SessionRef)
    (disableDual : Bool) (prebuilt : Option (PchatMessage lib × SessionRef)) : Command lib :=
  .send handle
    (.textMessage [data.channelId] [] (textBody disableDual data) data.messageId data.timestamp)
    fun
    | .error e => .done (.error ("Failed to send message: " ++ e))
    | .ok () =>
        match prebuilt with
        | none => storeOwn inputs data
        | some (message, client) =>
            .send client (.pchatMessage message) fun _ => storeOwn inputs data

def prebuildAndSend (inputs : SendInputs lib) (data : OwnMessageData) (handle : SessionRef)
    (disableDual : Bool) : Command lib :=
  if (data.outbound none).isNone then sendText inputs data handle disableDual none
  else
    .locked fun _ owner =>
      (owner, .locked fun client state =>
        let (shared, result) := prebuiltPchatMessage codecs inputs.rng inputs.loaded
          owner.ownSession data state.shared
        ({ state with shared },
          match result with
          | .error e => .done (.error e)
          | .ok prebuilt =>
              sendText inputs data handle disableDual
                (prebuilt.map fun message => (message, client))))

def sendMessage (inputs : SendInputs lib) (channelId : UInt32) (body : String) : Command lib :=
  .locked fun ref state =>
    (state,
      match state.handle ref with
      | none => .done (.error "Not connected")
      | some handle =>
          let data : OwnMessageData :=
            { channelId
              ownSession := state.ownSession
              ownName := state.ownName
              ownHash := state.ownSessionHash
              body
              messageId := if state.fancyVersion.isSome then some inputs.messageId else none
              timestamp := if state.fancyVersion.isSome then some inputs.now else none
              pchatProtocol := state.protocols channelId }
          if data.pchatProtocol.any isEncrypted then
            .locked fun _ prefs =>
              (prefs, prebuildAndSend codecs inputs data handle prefs.disableDualPath)
          else prebuildAndSend codecs inputs data handle false)

/-! ## Direct messages -/

def sendDm (inputs : SendInputs lib) (targetSession : UInt32) (body : String) : Command lib :=
  .locked fun ref state =>
    (state,
      match state.handle ref with
      | none => .done (.error "Not connected")
      | some handle =>
          let data : OwnMessageData :=
            { channelId := 0
              ownSession := state.ownSession
              ownName := state.ownName
              ownHash := state.ownSessionHash
              body
              messageId := if state.fancyVersion.isSome then some inputs.messageId else none
              timestamp := if state.fancyVersion.isSome then some inputs.now else none
              pchatProtocol := none }
          .send handle (.textMessage [] [targetSession] body data.messageId data.timestamp) fun
            | .error e => .done (.error ("Failed to send DM: " ++ e))
            | .ok () =>
                .locked fun _ state =>
                  ({ state with
                      byDm := Function.update state.byDm targetSession
                        (pushCapped (state.byDm targetSession) (data.row inputs.rowId)) },
                    .done (.ok ())))

/-! ## Key shares -/

def CommandState.recordKeyHolder (channelId : UInt32) (certHash : String)
    (state : CommandState lib) : CommandState lib :=
  { state with
    shared :=
      { state.shared with
        pchat := state.shared.pchat.map fun pchat =>
          { pchat with keyManager := pchat.keyManager.recordKeyHolder channelId certHash } } }

/-- `approve_key_share`. The request is no longer pending even if nothing can be sent. -/
def approveKeyShare (identity : Identity) (nonce : List UInt8) (now : UInt64)
    (channelId : UInt32) (peerCertHash : String) : Command lib :=
  .locked fun ref state =>
    match state.pendingKeyShares.findIdx? fun p =>
        p.channelId = channelId ∧ p.peerCertHash = peerCertHash with
    | none => (state, .done (.error "no pending key share for this channel/peer"))
    | some idx =>
        let requestId := state.pendingKeyShares[idx]?.bind PendingKeyShare.requestId
        ({ state with pendingKeyShares := state.pendingKeyShares.eraseIdx idx },
          match state.shared.pchat with
          | none => .done (.error "pchat not initialised")
          | some pchat =>
              match pchat.keyManager.peerKeys peerCertHash with
              | none => .done (.error "peer public key not known")
              | some peer =>
                  match pchat.keyManager.distributeKey identity nonce channelId
                      .fancyV1FullArchive 0 peerCertHash peer.dhPublic requestId now with
                  | .error e => .done (.error ("failed to build key exchange: " ++ e.display))
                  | .ok exchange =>
                      match state.handle ref with
                      | none => .done (.error "not connected")
                      | some handle =>
                          .send handle
                            (.pchatKeyExchange { exchange with senderHash := pchat.ownCertHash })
                            fun
                            | .error e => .done (.error ("send failed: " ++ e))
                            | .ok () =>
                                .locked fun _ state =>
                                  (state.recordKeyHolder channelId peerCertHash,
                                    .send handle (.pchatKeyHolderReport channelId peerCertHash)
                                      fun _ => .done (.ok ())))

/-! ## Staying on the connection -/

inductive UserCommand (lib : Libraries) where
  | sendMessage (inputs : SendInputs lib) (channelId : UInt32) (body : String)
  | sendDm (inputs : SendInputs lib) (targetSession : UInt32) (body : String)
  | approveKeyShare (identity : Identity) (nonce : List UInt8) (now : UInt64)
      (channelId : UInt32) (peerCertHash : String)

def UserCommand.run : UserCommand lib → Command lib
  | .sendMessage inputs channelId body => Messages.sendMessage codecs inputs channelId body
  | .sendDm inputs targetSession body => Messages.sendDm inputs targetSession body
  | .approveKeyShare identity nonce now channelId peerCertHash =>
      Messages.approveKeyShare identity nonce now channelId peerCertHash

section SendsTo

variable {P : SessionRef → Prop} {inputs : SendInputs lib} {data : OwnMessageData}
  {ref handle : SessionRef} {state : CommandState lib}

theorem eq_of_handle (h : state.handle ref = some handle) : handle = ref := by
  unfold CommandState.handle at h
  split at h
  · exact (Option.some.inj h).symm
  · cases h

theorem sendsTo_storeOwn : (storeOwn inputs data).SendsTo P :=
  .locked fun _ _ _ => .done _

theorem sendsTo_sendText {disableDual : Bool}
    {prebuilt : Option (PchatMessage lib × SessionRef)} (hhandle : P handle)
    (hclient : ∀ built ∈ prebuilt, P built.2) :
    (sendText inputs data handle disableDual prebuilt).SendsTo P := by
  refine .send hhandle fun answer => ?_
  cases answer with
  | error e => exact .done _
  | ok sent =>
      cases prebuilt with
      | none => exact sendsTo_storeOwn
      | some built => exact .send (hclient built rfl) fun _ => sendsTo_storeOwn

theorem sendsTo_prebuildAndSend {disableDual : Bool} (hhandle : P handle) :
    (prebuildAndSend codecs inputs data handle disableDual).SendsTo P := by
  unfold prebuildAndSend
  split
  · exact sendsTo_sendText hhandle nofun
  · refine .locked fun _ owner _ => .locked fun client state hclient => ?_
    dsimp only
    split
    · exact .done _
    · next prebuilt hresult =>
        refine sendsTo_sendText hhandle fun built hbuilt => ?_
        obtain ⟨message, -, rfl⟩ := Option.map_eq_some_iff.mp hbuilt
        exact hclient

theorem sendsTo_sendMessage (channelId : UInt32) (body : String) :
    (sendMessage codecs inputs channelId body).SendsTo P := by
  refine .locked fun ref state href => ?_
  dsimp only
  split
  · exact .done _
  · next handle hhandle =>
      have hP : P handle := eq_of_handle hhandle ▸ href
      split
      · exact .locked fun _ _ _ => sendsTo_prebuildAndSend codecs hP
      · exact sendsTo_prebuildAndSend codecs hP

theorem sendsTo_sendDm (targetSession : UInt32) (body : String) :
    (sendDm inputs targetSession body).SendsTo P := by
  refine .locked fun ref state href => ?_
  dsimp only
  split
  · exact .done _
  · next handle hhandle =>
      refine .send (eq_of_handle hhandle ▸ href) fun answer => ?_
      cases answer with
      | error e => exact .done _
      | ok sent => exact .locked fun _ _ _ => .done _

theorem sendsTo_approveKeyShare (identity : Identity) (nonce : List UInt8) (now : UInt64)
    (channelId : UInt32) (peerCertHash : String) :
    (approveKeyShare identity nonce now channelId peerCertHash : Command lib).SendsTo P := by
  refine .locked fun ref state href => ?_
  split
  · exact .done _
  dsimp only
  split
  · exact .done _
  split
  · exact .done _
  split
  · exact .done _
  split
  · exact .done _
  · next handle hhandle =>
      have hP : P handle := eq_of_handle hhandle ▸ href
      refine .send hP fun answer => ?_
      cases answer with
      | error e => exact .done _
      | ok sent => exact .locked fun _ _ _ => .send hP fun _ => .done _

/-- Every command sends only with the handles of sessions that it has taken. -/
theorem sendsTo_run (command : UserCommand lib) (P : SessionRef → Prop) :
    (command.run codecs).SendsTo P := by
  cases command with
  | sendMessage inputs channelId body => exact sendsTo_sendMessage codecs channelId body
  | sendDm inputs targetSession body => exact sendsTo_sendDm targetSession body
  | approveKeyShare identity nonce now channelId peerCertHash =>
      exact sendsTo_approveKeyShare identity nonce now channelId peerCertHash

end SendsTo

/-- Commands stay on the connection that was active when they started exactly in the runs in
which it is active whenever they take the active session. -/
theorem staysOnConnection_run_iff (active : SessionRef) (states : SessionRef → CommandState lib)
    (events : List (Event SessionRef (CommandState lib) (Except String Unit) (UserCommand lib))) :
    Along (World.step (UserCommand.run codecs)) World.StaysWithOrigin
        { active, objects := states } events ↔
      Along (World.step (UserCommand.run codecs)) World.FindsOrigin
        { active, objects := states } events :=
  World.staysWithOrigin_run_iff (sendsTo_run codecs)
    (fun _ h => absurd h List.not_mem_nil) events

section Example

private def inputsExample : SendInputs symbolic where
  messageId := "id"
  now := 1
  rng := ("", 0)
  loaded := none
  rowId := "row"

private def switchingExample :
    List (Event SessionRef (CommandState symbolic) (Except String Unit) (UserCommand symbolic)) :=
  [.start (.sendDm inputsExample 2 "hello"), .resume 0 (.ok ()), .redirect 1, .resume 0 (.ok ()),
    .resume 0 (.ok ())]

/-- A direct message is stored with those of another server. -/
theorem direct_message_stored_elsewhere :
    ¬∀ (lib : Libraries) (codecs : Codecs lib) (active : SessionRef)
      (states : SessionRef → CommandState lib)
      (events : List (Event SessionRef (CommandState lib) (Except String Unit)
        (UserCommand lib))),
      Along (World.step (UserCommand.run codecs)) World.StaysWithOrigin
        { active, objects := states } events := by
  intro h
  have hstays := (h symbolic symbolicCodecs 0 (fun _ => {}) switchingExample).2.2.2.2.1
  have horigin : (1 : SessionRef) = 0 := hstays _ rfl 1 rfl
  exact absurd horigin (by decide)

end Example

end FancyMumble.Messages
