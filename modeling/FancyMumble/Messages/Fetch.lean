import FancyMumble.Messages.Outbound

/-!
# A fetch in progress

While the messages of a fetch response are decrypted, the persistent chat is out of the
shared state of its session. What can happen meanwhile: the user sends messages, and the
sessions of the client come and go.
-/

namespace FancyMumble.Messages

open Client Lib.Runs Persistent Signal

variable {lib : Libraries} (codecs : Codecs lib)

/-! ## Fetch responses -/

structure PchatFetchResponse (lib : Libraries) where
  channelId : Option UInt32
  messages : List (PchatMessage lib)

def PchatMessage.inbound (msg : PchatMessage lib) : InboundEnvelope lib where
  protocol := protoToProtocol msg.protocol
  senderHash := msg.senderHash.getD ""
  channelId := msg.channelId.getD 0
  messageId := msg.messageId.getD ""
  timestamp := msg.timestamp.getD 0
  envelopeBytes := msg.envelope.getD codecs.empty

def decryptFetchedMessage (ownCertHash : String) (env : InboundEnvelope lib)
    (pchat : PchatState lib) : PchatState lib × ChatMessage :=
  let isOwn := env.senderHash ≠ "" ∧ ownCertHash ≠ "" ∧ env.senderHash = ownCertHash
  let row (body senderName : String) (decrypted : Bool) : ChatMessage :=
    { senderName
      senderHash := some env.senderHash
      body
      channelId := env.channelId
      isOwn
      messageId := some env.messageId
      timestamp := some env.timestamp
      decrypted }
  match env.decrypt codecs pchat with
  | (pchat, .error _) => (pchat, row placeholderBody env.senderHash false)
  | (pchat, .ok envelope) =>
      (if env.protocol = .signalV1 then
          pchat.cacheSignalMessage
            { messageId := env.messageId
              channelId := env.channelId
              timestamp := env.timestamp
              senderHash := env.senderHash
              senderName := envelope.senderName
              body := envelope.body
              isOwn }
        else pchat,
        row envelope.body envelope.senderName true)

def decryptFetchedMessages (ownCertHash : String) :
    PchatState lib → List (PchatMessage lib) → PchatState lib × List ChatMessage
  | pchat, [] => (pchat, [])
  | pchat, msg :: rest =>
      let (pchat, row) := decryptFetchedMessage codecs ownCertHash (msg.inbound codecs) pchat
      let (pchat, rows) := decryptFetchedMessages ownCertHash pchat rest
      (pchat, row :: rows)

def mergeDecryptedMessages (existing decrypted : List ChatMessage) : List ChatMessage :=
  if decrypted.isEmpty then existing
  else
    let existingIds := existing.filterMap ChatMessage.messageId
    ((decrypted.filter fun m => m.messageId.all (· ∉ existingIds)) ++ existing).insertionSort
      fun a b => a.timestamp.getD 0 ≤ b.timestamp.getD 0

/-! ## Sessions -/

def CachedMessage.chatMessage (m : CachedMessage) : ChatMessage where
  senderName := m.senderName
  senderHash := some m.senderHash
  body := m.body
  channelId := m.channelId
  isOwn := m.isOwn
  messageId := some m.messageId
  timestamp := some m.timestamp
  decrypted := true

/-- A session of the client: the state it shares with its event loop, and the persistent
chat that a fetch of the loop has taken out, with the response. -/
structure Session (lib : Libraries) where
  shared : SharedState lib := { clientHandle := false }
  fetching : Option (PchatState lib × PchatFetchResponse lib) := none
  /-- It has not been torn down. -/
  live : Bool := false
  /-- The persistent chat has been set up. -/
  initialised : Bool := false
  ownSession : Option UInt32 := none
  protocols : UInt32 → Option PchatProtocol := fun _ => none
  disableDualPath : Bool := false

structure SentMessage (lib : Libraries) where
  text : String
  pchat : Option (PchatMessage lib)

/-- The client: its sessions, the active one, and the messages that are being sent, with
what was built of them. What was sent is recorded for the statements only. -/
structure AppState (lib : Libraries) where
  sessions : ℕ → Session lib := fun _ => {}
  count : ℕ := 1
  active : ℕ := 0
  sends : List (OwnMessageData × Option (SentMessage lib)) := []
  sent : List (SentMessage lib) := []

/-- What can happen between two locks of a shared state. -/
inductive AppEvent (lib : Libraries) where
  | connect (disableDualPath : Bool)
  | connected (id : ℕ)
  | switchActive (id : ℕ)
  | channelState (id : ℕ) (channelId : UInt32) (protocol : Option PchatProtocol)
  | serverSync (id : ℕ) (ownSession : UInt32) (pchat : Option (PchatState lib))
  | inbound (id : ℕ) (event : InboundEvent lib)
  | fetchTake (id : ℕ) (response : PchatFetchResponse lib)
  | fetchRestore (id : ℕ)
  | onDisconnected (id : ℕ)
  | takeHandle (id : ℕ)
  | tearDown (id : ℕ)
  | sendStart (data : OwnMessageData)
  | sendBuild (i : ℕ) (rng : lib.Rng) (loaded : Option (SignalBridgeCtx lib))
  | sendFinish (i : ℕ) (freshId : String)

namespace Session

def idle (s : Session lib) : Bool := s.live && s.fetching.isNone

def drop (s : Session lib) : Session lib :=
  { s with
    shared := { s.shared with pchat := none, clientHandle := false }
    live := false }

def fetchTake (response : PchatFetchResponse lib) (s : Session lib) : Session lib :=
  match s.shared.pchat with
  | none => s
  | some pchat =>
      { s with
        shared := { s.shared with pchat := none }
        fetching := some (pchat, response) }

/-- The rest of `handle_proto_fetch_resp`: the persistent chat is stored back, whatever has
become of the session. -/
def fetchRestore (s : Session lib) : Session lib :=
  match s.fetching with
  | none => s
  | some (pchat, response) =>
      let channelId := response.channelId.getD 0
      let (pchat, rows) :=
        decryptFetchedMessages codecs pchat.ownCertHash pchat response.messages
      { s with
        shared :=
          { s.shared with
            pchat := some pchat
            byChannel := Function.update s.shared.byChannel channelId
              (mergeDecryptedMessages (s.shared.byChannel channelId) rows) }
        fetching := none }

def withoutFetch (s : Session lib) : SharedState lib :=
  match s.fetching with
  | none => s.shared
  | some (pchat, _) => { s.shared with pchat := some pchat }

end Session

namespace AppState

def mapSession (id : ℕ) (f : Session lib → Session lib) (app : AppState lib) : AppState lib :=
  { app with sessions := Function.update app.sessions id (f (app.sessions id)) }

def handle (id : ℕ) (f : Session lib → Session lib) (app : AppState lib) : AppState lib :=
  app.mapSession id fun s => if s.idle then f s else s

def build (rng : lib.Rng) (loaded : Option (SignalBridgeCtx lib)) (data : OwnMessageData)
    (s : Session lib) (state : SharedState lib) :
    SharedState lib × Except String (SentMessage lib) :=
  let (state, result) := prebuiltPchatMessage codecs rng loaded s.ownSession data state
  (state, result.map fun pchat => ⟨textBody s.disableDualPath data, pchat⟩)

def step (app : AppState lib) : AppEvent lib → AppState lib
  | .connect disableDualPath =>
      -- every connection has a shared state of its own
      { app with
        sessions := Function.update app.sessions app.count
          { live := true, disableDualPath }
        count := app.count + 1
        active := app.count }
  | .connected id =>
      app.mapSession id fun s =>
        { s with shared := { s.shared with clientHandle := s.live || s.shared.clientHandle } }
  | .switchActive id => if id < app.count then { app with active := id } else app
  | .channelState id channelId protocol =>
      app.handle id fun s =>
        { s with protocols := Function.update s.protocols channelId protocol }
  | .serverSync id ownSession pchat =>
      app.handle id fun s =>
        { s with
          ownSession := some ownSession
          shared :=
            { s.shared with
              pchat := pchat.or s.shared.pchat
              byChannel := fun channelId => s.shared.byChannel channelId ++
                (pchat.map fun pchat => (pchat.cached channelId).map CachedMessage.chatMessage).getD
                  [] }
          initialised := s.initialised || pchat.isSome }
  | .inbound id event => app.handle id fun s => { s with shared := s.shared.step codecs event }
  | .fetchTake id response => app.handle id (Session.fetchTake response)
  | .fetchRestore id => app.mapSession id (Session.fetchRestore codecs)
  | .onDisconnected id => app.handle id Session.drop
  | .takeHandle id =>
      app.mapSession id fun s => { s with shared := { s.shared with clientHandle := false } }
  | .tearDown id =>
      app.mapSession id fun s =>
        { s.drop with shared := { s.drop.shared with byChannel := fun _ => [] } }
  | .sendStart data =>
      let s := app.sessions app.active
      if s.shared.clientHandle then
        { app with
          sends := app.sends ++
            [({ data with pchatProtocol := s.protocols data.channelId }, none)] }
      else app
  | .sendBuild i rng loaded =>
      match app.sends[i]? with
      | some (data, none) =>
          let s := app.sessions app.active
          let (shared, result) := build codecs rng loaded data s s.shared
          let app := app.mapSession app.active fun s => { s with shared }
          match result with
          | .ok message => { app with sends := app.sends.set i (data, some message) }
          | .error _ => { app with sends := app.sends.eraseIdx i }
      | _ => app
  | .sendFinish i freshId =>
      match app.sends[i]? with
      | some (data, some message) =>
          let app := app.mapSession app.active fun s =>
            { s with shared := storeOwnMessage freshId data s.shared }
          { app with
            sends := app.sends.eraseIdx i
            sent := app.sent ++ [message] }
      | _ => app

/-! ## What a fetch must not do -/

/-- A session that is torn down has no persistent chat, and one that is live and was set up
has one, in its place or with a fetch. -/
def WellPlaced (app : AppState lib) : Prop :=
  ∀ id, ((app.sessions id).shared.pchat.isSome → (app.sessions id).live) ∧
    ((app.sessions id).live → (app.sessions id).initialised →
      (app.sessions id).shared.pchat.isSome ∨ (app.sessions id).fetching.isSome)

/-- A message is built as it would be without a fetch, or the send fails. -/
def SendsAsWithoutFetch (app : AppState lib) (event : AppEvent lib) : Prop :=
  match event with
  | .sendBuild i rng loaded =>
      ∀ data, app.sends[i]? = some (data, none) →
        let s := app.sessions app.active
        let result := (build codecs rng loaded data s s.shared).2
        result = (build codecs rng loaded data s s.withoutFetch).2 ∨ ∃ e, result = .error e
  | _ => True

/-- No session is torn down during a fetch, and no message of an encrypted channel is built
while a fetch of the active session has its persistent chat. -/
def KeepsApart (app : AppState lib) (event : AppEvent lib) : Prop :=
  match event with
  | .tearDown id => (app.sessions id).fetching = none
  | .sendBuild i _ _ =>
      ∀ data, app.sends[i]? = some (data, none) →
        let s := app.sessions app.active
        data.outbound s.ownSession ≠ none → s.shared.clientHandle = true → s.fetching = none
  | _ => True

/-! ## The persistent chat stays where it is -/

theorem pchat_step (state : SharedState lib) (event : InboundEvent lib) :
    (state.step codecs event).pchat.isSome = state.pchat.isSome := by
  cases hpchat : state.pchat with
  | none => rw [state.step_of_none codecs hpchat, hpchat]
  | some pchat =>
      cases event with
      | msgDeliver msg =>
          unfold SharedState.step handleMsgDeliver
          dsimp only
          rw [hpchat]
          rfl
      | senderKey loaded senderHash senderChannel data =>
          unfold SharedState.step handleSignalSenderKeyByHash
          dsimp only
          rw [hpchat]
          dsimp only
          split
          next => rfl
          next =>
            unfold retryStashedSignalEnvelopes
            dsimp only
            split
            next => rfl
            next => rfl
      | offlineMessages channelId messages =>
          unfold SharedState.step handleOfflineMessages
          dsimp only
          split
          next =>
            rw [hpchat]
          next =>
            rw [hpchat]
            rfl

theorem pchat_build (rng : lib.Rng) (loaded : Option (SignalBridgeCtx lib))
    (data : OwnMessageData) (s : Session lib) (state : SharedState lib) :
    (build codecs rng loaded data s state).1.pchat.isSome = state.pchat.isSome := by
  unfold build prebuiltPchatMessage
  dsimp only
  split
  next => rfl
  next =>
    unfold buildPchatEncrypted
    split
    next hpchat hhandle =>
      dsimp only
      rw [hpchat]
      split
      next => rfl
      next => rfl
    next => rfl

theorem pchat_storeOwnMessage (freshId : String) (data : OwnMessageData)
    (state : SharedState lib) :
    (storeOwnMessage freshId data state).pchat.isSome = state.pchat.isSome := by
  unfold storeOwnMessage
  dsimp only
  split
  next => rw [Option.isSome_map]
  next => rfl

structure Placed (s : Session lib) : Prop where
  live_of_pchat : s.shared.pchat.isSome → s.live
  live_of_fetching : s.fetching.isSome → s.live
  placed : s.live → s.initialised → s.shared.pchat.isSome ∨ s.fetching.isSome

theorem Placed.shared {s : Session lib} (h : Placed s) {shared : SharedState lib}
    (hpchat : shared.pchat.isSome = s.shared.pchat.isSome) :
    Placed { s with shared := shared } where
  live_of_pchat := fun hsome => h.live_of_pchat (hpchat ▸ hsome)
  live_of_fetching := h.live_of_fetching
  placed := fun hlive hinit => (h.placed hlive hinit).imp_left fun hsome => hpchat ▸ hsome

theorem Placed.fetchTake {s : Session lib} (h : Placed s) (hlive : s.live = true)
    (response : PchatFetchResponse lib) : Placed (s.fetchTake response) := by
  unfold Session.fetchTake
  split
  next => exact h
  next => exact ⟨fun _ => hlive, fun _ => hlive, fun _ _ => .inr rfl⟩

theorem Placed.fetchRestore {s : Session lib} (h : Placed s) :
    Placed (s.fetchRestore codecs) := by
  unfold Session.fetchRestore
  split
  next => exact h
  next pchat response hfetching =>
    have hlive : s.live = true := h.live_of_fetching (hfetching ▸ rfl)
    exact ⟨fun _ => hlive, fun _ => hlive, fun _ _ => .inl rfl⟩

theorem placed_drop {s : Session lib} (hfetching : s.fetching = none) : Placed s.drop where
  live_of_pchat := fun h => absurd h (by simp [Session.drop])
  live_of_fetching := fun h => absurd h (by simp [Session.drop, hfetching])
  placed := fun h => absurd h (by simp [Session.drop])

def AllPlaced (app : AppState lib) : Prop := ∀ id, Placed (app.sessions id)

theorem AllPlaced.update {app : AppState lib} (h : AllPlaced app) (id : ℕ) {s : Session lib}
    (hs : Placed s) : ∀ other, Placed (Function.update app.sessions id s other) := by
  intro other
  by_cases hsame : other = id
  · rw [hsame, Function.update_self]
    exact hs
  · rw [Function.update_of_ne hsame]
    exact h other

theorem AllPlaced.handle {app : AppState lib} (h : AllPlaced app) (id : ℕ)
    {f : Session lib → Session lib}
    (hf : (app.sessions id).live = true → (app.sessions id).fetching = none →
      Placed (f (app.sessions id))) : AllPlaced (app.handle id f) := by
  refine h.update id ?_
  dsimp only
  split
  next hidle =>
    obtain ⟨hlive, hfetching⟩ := Bool.and_eq_true_iff.mp hidle
    exact hf hlive (Option.isNone_iff_eq_none.mp hfetching)
  next => exact h id

/-- Events that keep a fetch apart leave every persistent chat in its place. -/
theorem AllPlaced.step {app : AppState lib} (h : AllPlaced app) {event : AppEvent lib}
    (hkeeps : KeepsApart app event) : AllPlaced (app.step codecs event) := by
  cases event with
  | connect disableDualPath =>
      refine h.update app.count ⟨fun _ => rfl, fun _ => rfl, fun _ hinit => ?_⟩
      exact absurd hinit Bool.false_ne_true
  | connected id => exact h.update id ((h id).shared rfl)
  | switchActive id =>
      unfold AppState.step
      dsimp only
      split
      next => exact h
      next => exact h
  | channelState id channelId protocol =>
      exact h.handle id fun _ _ => ⟨(h id).live_of_pchat, (h id).live_of_fetching, (h id).placed⟩
  | serverSync id ownSession pchat =>
      refine h.handle id fun hlive _ => ⟨fun _ => hlive, fun _ => hlive, fun _ hinit => ?_⟩
      cases pchat with
      | none => exact (h id).placed hlive ((Bool.or_false _).symm.trans hinit)
      | some pchat => exact .inl rfl
  | inbound id event => exact h.handle id fun _ _ => (h id).shared (pchat_step codecs _ event)
  | fetchTake id response => exact h.handle id fun hlive _ => (h id).fetchTake hlive response
  | fetchRestore id => exact h.update id ((h id).fetchRestore codecs)
  | onDisconnected id => exact h.handle id fun _ hfetching => placed_drop hfetching
  | takeHandle id => exact h.update id ((h id).shared rfl)
  | tearDown id => exact h.update id ((placed_drop hkeeps).shared rfl)
  | sendStart data =>
      unfold AppState.step
      dsimp only
      split
      next => exact h
      next => exact h
  | sendBuild i rng loaded =>
      unfold AppState.step
      dsimp only
      split
      next data hsend =>
        have hbuilt := h.update app.active ((h app.active).shared
          (pchat_build codecs rng loaded data (app.sessions app.active)
            (app.sessions app.active).shared))
        split
        next => exact hbuilt
        next => exact hbuilt
      next => exact h
  | sendFinish i freshId =>
      unfold AppState.step
      dsimp only
      split
      next data message hsend =>
        exact h.update app.active ((h app.active).shared (pchat_storeOwnMessage freshId data _))
      next => exact h

/-- What is built does not depend on a fetch that is kept apart. -/
theorem sendsAsWithoutFetch_of_keepsApart {app : AppState lib} {event : AppEvent lib}
    (hkeeps : KeepsApart app event) : SendsAsWithoutFetch codecs app event := by
  cases event with
  | sendBuild i rng loaded =>
      intro data hsend
      refine .inl ?_
      have hkeeps := hkeeps data hsend
      cases hfetching : (app.sessions app.active).fetching with
      | none =>
          unfold Session.withoutFetch
          rw [hfetching]
      | some fetch =>
          have hhandle : (app.sessions app.active).withoutFetch.clientHandle =
              (app.sessions app.active).shared.clientHandle := by
            unfold Session.withoutFetch
            rw [hfetching]
          unfold build prebuiltPchatMessage
          cases houtbound : data.outbound (app.sessions app.active).ownSession with
          | none => rfl
          | some msg =>
              cases hclient : (app.sessions app.active).shared.clientHandle with
              | true =>
                  have hnone : (app.sessions app.active).fetching = none :=
                    hkeeps (houtbound ▸ Option.some_ne_none msg) hclient
                  exact absurd (hfetching.symm.trans hnone) (Option.some_ne_none fetch)
              | false =>
                  dsimp only
                  rw [buildPchatEncrypted_of_not_connected codecs hclient,
                    buildPchatEncrypted_of_not_connected codecs (hhandle.trans hclient)]
  | _ => trivial

/-- In every run of connections, handlers, fetches and sends that keep fetches apart, the
persistent chat of a fetch goes back to the session it came from, which has not been torn
down, and every message is built as it would be without a fetch. -/
theorem fetch_invisible_run (events : List (AppEvent lib))
    (h : Along (step codecs) KeepsApart {} events) :
    (run (step codecs) {} events).WellPlaced ∧
      Along (step codecs) (SendsAsWithoutFetch codecs) {} events := by
  have hinit : AllPlaced ({} : AppState lib) := fun id =>
    ⟨fun hsome => absurd hsome Bool.false_ne_true, fun hsome => absurd hsome Bool.false_ne_true,
      fun hlive => absurd hlive Bool.false_ne_true⟩
  have hstep : ∀ app event, AllPlaced app → KeepsApart app event →
      AllPlaced (app.step codecs event) := fun app event happ hkeeps => happ.step codecs hkeeps
  constructor
  · have hplaced := invariant_run hstep hinit h
    exact fun id => ⟨(hplaced id).live_of_pchat, (hplaced id).placed⟩
  · exact along_mono (fun app event hkeeps => sendsAsWithoutFetch_of_keepsApart codecs hkeeps) h

section Example

private def senderExample : PchatState symbolic where
  ownCertHash := "own"
  signalBridge := some (SignalBridgeCtx.createDistribution ("own", 0) 5 { ourAddress := "own" }).1

private def helloExample : OwnMessageData where
  channelId := 5
  ownSession := some 7
  ownName := "Own"
  ownHash := some "own"
  body := "hello"
  messageId := some "id"
  timestamp := some 3
  pchatProtocol := none

/-- A connection without the dual path, with a fetch response for channel 5, and then
something else. -/
private def fetchExample (events : List (AppEvent symbolic)) : List (AppEvent symbolic) :=
  [.connect true, .connected 1, .channelState 1 5 (some .signalV1),
    .serverSync 1 7 (some senderExample), .fetchTake 1 ⟨some 5, []⟩] ++ events

theorem fetch_invisible_run_example :
    let events := fetchExample
      [.fetchRestore 1, .sendStart helloExample, .sendBuild 0 ("own", 1) none]
    (run (step symbolicCodecs) {} events).WellPlaced ∧
      Along (step symbolicCodecs) (SendsAsWithoutFetch symbolicCodecs) {} events := by
  refine fetch_invisible_run symbolicCodecs (fetchExample
    [.fetchRestore 1, .sendStart helloExample, .sendBuild 0 ("own", 1) none])
    ⟨trivial, trivial, trivial, trivial, trivial, trivial, trivial, ?_, trivial⟩
  exact fun _ _ _ _ => rfl

private def builtExample (result : Except String (SentMessage symbolic)) : Bool :=
  match result with
  | .ok message => message.pchat.isSome
  | .error _ => true

/-- A message that is sent during a fetch goes out as a placeholder only. -/
theorem placeholder_sent_during_fetch :
    ¬∀ (lib : Libraries) (codecs : Codecs lib) (events : List (AppEvent lib)),
      (run (step codecs) {} events).WellPlaced ∧
        Along (step codecs) (SendsAsWithoutFetch codecs) {} events := by
  intro h
  have hrun := (h symbolic symbolicCodecs (fetchExample
    [.sendStart helloExample, .sendBuild 0 ("own", 1) none])).2
  rcases hrun.2.2.2.2.2.2.1 _ rfl with hsame | ⟨e, herror⟩
  · exact absurd (congrArg builtExample hsame) (by decide)
  · have hok : true = false := congrArg Except.toBool herror
    exact absurd hok (by decide)

end Example

end AppState

end FancyMumble.Messages
