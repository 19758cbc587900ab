import FancyMumble.Client.ArchiveKeysFile
import FancyMumble.Messages.Fetch

/-!
# Connections that share an identity

Archive keys, the state of the Signal bridge and cached messages are kept in files of the
identity, by channel ids. A connection starts with what is in the files of its identity,
whichever server it is to.
-/

namespace FancyMumble.Messages

open Client Lib.Grouping Lib.Runs Persistent
  Signal

variable {lib : Libraries}

/-! ## Files -/

structure IdentityDir (lib : Libraries) where
  archiveKeys : UInt32 → Option (ChannelKey × Option String) := fun _ => none
  messageCache : UInt32 → List CachedMessage := fun _ => []
  signalState : Option lib.Bytes := none

inductive Cell where
  | archiveKey (channelId : UInt32)
  | messages (channelId : UInt32)
  | signalState

def IdentityDir.SameCell (d d' : IdentityDir lib) : Cell → Prop
  | .archiveKey channelId => d.archiveKeys channelId = d'.archiveKeys channelId
  | .messages channelId => d.messageCache channelId = d'.messageCache channelId
  | .signalState => d.signalState = d'.signalState

theorem IdentityDir.SameCell.refl (d : IdentityDir lib) (cell : Cell) : d.SameCell d cell := by
  cases cell <;> rfl

theorem IdentityDir.SameCell.symm {d d' : IdentityDir lib} {cell : Cell}
    (h : d.SameCell d' cell) : d'.SameCell d cell := by
  cases cell <;> exact Eq.symm h

theorem IdentityDir.SameCell.trans {d d' d'' : IdentityDir lib} {cell : Cell}
    (h : d.SameCell d' cell) (h' : d'.SameCell d'' cell) : d.SameCell d'' cell := by
  cases cell <;> exact Eq.trans h h'

def IdentityDir.write (d : IdentityDir lib) : FileOp → IdentityDir lib
  | .persistArchiveKey channelId key originator =>
      { d with archiveKeys := Function.update d.archiveKeys channelId (some (key, originator)) }
  | .deletePersistedArchiveKey channelId =>
      { d with archiveKeys := Function.update d.archiveKeys channelId none }

/-! ## Connections -/

/-- A connection: the state that its handlers share, and the writes of archive keys that its
tasks have not come to. -/
structure Connection (lib : Libraries) where
  shared : SharedState lib := { clientHandle := false }
  writes : List FileOp := []

inductive ConnectionEvent (lib : Libraries) where
  | connect
  | initPchat
  | keyAnnounce (announce : PchatKeyAnnounce)
  | keyExchange (responseOrder groupOrder : HashOrder) (exchange : PchatKeyExchange)
  | deriveArchiveKey (channelId : UInt32) (persists : Bool)
  | removeChannel (channelId : UInt32)
  | writeArchiveKeys (i : ℕ)
  | ensureSignalBridge (bridgeLoads : Bool)
  | inbound (event : InboundEvent lib)
  | fetched (response : PchatFetchResponse lib)
  | send (rng : lib.Rng) (ownSession : Option UInt32) (data : OwnMessageData) (freshId : String)
  | disconnected (order : HashOrder)

/-- A sender key comes to the bridge as it is; loading it first is an event of its own. -/
def InboundEvent.withoutLoad : InboundEvent lib → InboundEvent lib
  | .senderKey _ senderHash senderChannel data => .senderKey none senderHash senderChannel data
  | event => event

namespace Connection

variable (codecs : Codecs lib) (account : Account)

def mapPchat (f : PchatState lib → PchatState lib) (c : Connection lib) : Connection lib :=
  { c with shared := { c.shared with pchat := c.shared.pchat.map f } }

def mapKeyManager (f : KeyManager → KeyManager) (c : Connection lib) : Connection lib :=
  c.mapPchat fun pchat => { pchat with keyManager := f pchat.keyManager }

def spawnWrite (op : FileOp) (c : Connection lib) : Connection lib :=
  if c.shared.pchat.isSome ∧ account.identityDir then { c with writes := c.writes ++ [op] } else c

/-- The persistent chat of a new connection, with `restore_archive_keys` and
`load_local_cache`. -/
def restored (d : IdentityDir lib) : PchatState lib :=
  if account.identityDir then
    { keyManager :=
        { archiveKeys := fun channelId =>
            (d.archiveKeys channelId).map fun entry => (entry.1, .verified)
          channelOriginators := fun channelId => (d.archiveKeys channelId).bind Prod.snd }
      ownCertHash := account.certHash
      localCache := some { messages := d.messageCache } }
  else { ownCertHash := account.certHash }

def initPchat (d : IdentityDir lib) (c : Connection lib) : Connection lib :=
  let pchat := restored account d
  { c with
    shared :=
      { c.shared with
        pchat := some pchat
        byChannel := fun channelId => c.shared.byChannel channelId ++
          (pchat.cached channelId).map CachedMessage.chatMessage } }

def loadSignalBridge (bridgeLoads : Bool) (d : IdentityDir lib) : Option (SignalBridgeCtx lib) :=
  if bridgeLoads then
    let bridge : SignalBridgeCtx lib := { ourAddress := account.certHash }
    match if account.identityDir then d.signalState else none with
    | none => some bridge
    | some data => some (bridge.importState data).1
  else none

def handleKeyExchange (responseOrder groupOrder : HashOrder) (exchange : PchatKeyExchange)
    (c : Connection lib) : Connection lib :=
  match c.shared.pchat with
  | none => c
  | some pchat =>
      let channelId := exchange.channelId
      let (km, keyAccepted) := tryAcceptKeyExchange account.identity.crypto responseOrder groupOrder
        pchat.keyManager exchange
      if keyAccepted then
        let km := km.recordKeyHolder channelId account.certHash
        let c := c.mapKeyManager fun _ => km
        match km.archiveKeys channelId with
        | some (key, _) =>
            if PchatProtocol.fromWireStr exchange.protocol = .fancyV1FullArchive then
              c.spawnWrite account
                (.persistArchiveKey channelId key (km.channelOriginators channelId))
            else c
        | none => c
      else c.mapKeyManager fun _ => km

def deriveArchiveKey (channelId : UInt32) (persists : Bool) (c : Connection lib) :
    Connection lib :=
  let key := account.deriveArchiveKey channelId
  let c := c.mapKeyManager fun km =>
    (km.storeArchiveKey channelId key .verified).setChannelOriginator channelId account.certHash
  if persists then
    c.spawnWrite account (.persistArchiveKey channelId key (some account.certHash))
  else c

def removeChannel (channelId : UInt32) (c : Connection lib) : Connection lib :=
  (c.mapPchat fun pchat =>
    { pchat with
      keyManager := pchat.keyManager.removeChannel channelId
      signalBridge := pchat.signalBridge.map (·.removeChannel channelId) }).spawnWrite account
    (.deletePersistedArchiveKey channelId)

def handleFetchResponse (response : PchatFetchResponse lib) (c : Connection lib) :
    Connection lib :=
  match c.shared.pchat with
  | none => c
  | some pchat =>
      let channelId := response.channelId.getD 0
      let (pchat, rows) :=
        decryptFetchedMessages codecs pchat.ownCertHash pchat response.messages
      { c with
        shared :=
          { c.shared with
            pchat := some pchat
            byChannel := Function.update c.shared.byChannel channelId
              (mergeDecryptedMessages (c.shared.byChannel channelId) rows) } }

def send (rng : lib.Rng) (ownSession : Option UInt32) (data : OwnMessageData) (freshId : String)
    (c : Connection lib) : Connection lib :=
  match prebuiltPchatMessage codecs rng none ownSession data c.shared with
  | (shared, .ok _) => { c with shared := storeOwnMessage freshId data shared }
  | (shared, .error _) => { c with shared }

def step (c : Connection lib) (d : IdentityDir lib) : ConnectionEvent lib → Connection lib
  | .connect => { c with shared := {} }
  | .initPchat => c.initPchat account d
  | .keyAnnounce announce =>
      c.mapKeyManager fun km => (km.recordPeerKey account.identity.crypto announce).1
  | .keyExchange responseOrder groupOrder exchange =>
      c.handleKeyExchange account responseOrder groupOrder exchange
  | .deriveArchiveKey channelId persists => c.deriveArchiveKey account channelId persists
  | .removeChannel channelId => c.removeChannel account channelId
  | .writeArchiveKeys i => { c with writes := c.writes.eraseIdx i }
  | .ensureSignalBridge bridgeLoads =>
      c.mapPchat fun pchat => pchat.ensureSignalBridge (loadSignalBridge account bridgeLoads d)
  | .inbound event => { c with shared := c.shared.step codecs event.withoutLoad }
  | .fetched response => c.handleFetchResponse codecs response
  | .send rng ownSession data freshId => c.send codecs rng ownSession data freshId
  | .disconnected _ => { c with shared := { c.shared with pchat := none, clientHandle := false } }

def save (order : HashOrder) (c : Connection lib) (d : IdentityDir lib) : IdentityDir lib :=
  match c.shared.pchat with
  | none => d
  | some pchat =>
      { d with
        signalState :=
          match pchat.signalBridge with
          | none => d.signalState
          | some bridge =>
              if account.identityDir then
                match bridge.exportState order with
                | .ok data => some data
                | .error _ => d.signalState
              else d.signalState
        messageCache := (pchat.localCache.map LocalMessageCache.messages).getD d.messageCache }

def written (c : Connection lib) (d : IdentityDir lib) : ConnectionEvent lib → IdentityDir lib
  | .writeArchiveKeys i => (c.writes[i]?.map d.write).getD d
  | .disconnected order => c.save account order d
  | _ => d

def Reads (c : Connection lib) : ConnectionEvent lib → Cell → Prop
  | .initPchat, .archiveKey _ | .initPchat, .messages _ => account.identityDir = true
  | .ensureSignalBridge bridgeLoads, .signalState =>
      account.identityDir = true ∧ bridgeLoads = true ∧
        ∃ pchat, c.shared.pchat = some pchat ∧ pchat.signalBridge = none ∧
          pchat.signalBridgeLoadFailed = false
  | _, _ => False

end Connection

/-! ## Servers -/

/-- The server and the identity of each connection, and the account of each identity. -/
structure Plan (ι σ : Type*) where
  server : ι → σ
  identity : ι → String
  account : String → Account

/-- The files of the identities and the connections. Who last changed a part of the files is
recorded for the statements only. -/
structure World (ι σ : Type*) (lib : Libraries) where
  dirs : String → IdentityDir lib := fun _ => {}
  connections : ι → Connection lib := fun _ => {}
  changedBy : String → Cell → σ → Prop := fun _ _ _ => False

namespace World

variable {ι σ : Type*} [DecidableEq ι] (codecs : Codecs lib) (plan : Plan ι σ)

def step (w : World ι σ lib) (event : ι × ConnectionEvent lib) : World ι σ lib :=
  let identity := plan.identity event.1
  let account := plan.account identity
  let c := w.connections event.1
  let d := w.dirs identity
  let d' := c.written account d event.2
  { dirs := Function.update w.dirs identity d'
    connections := Function.update w.connections event.1 (c.step codecs account d event.2)
    changedBy := Function.update w.changedBy identity fun cell s =>
      (d'.SameCell d cell ∧ w.changedBy identity cell s) ∨
        (¬d'.SameCell d cell ∧ s = plan.server event.1) }

/-- Connections stay apart: what the connections to a server hold and show is what they would
hold and show without the connections to other servers. -/
def KeptApart [DecidableEq σ] (events : List (ι × ConnectionEvent lib)) : Prop :=
  ∀ i, (run (step codecs plan) {} events).connections i =
    (run (step codecs plan) {}
      (events.filter fun event => plan.server event.1 = plan.server i)).connections i

/-- What a connection reads of the files of its identity was last changed by connections to the
same server, if it was changed at all. -/
def ReadsOwn (w : World ι σ lib) (event : ι × ConnectionEvent lib) : Prop :=
  ∀ cell, (w.connections event.1).Reads (plan.account (plan.identity event.1)) event.2 cell →
    ∀ s, w.changedBy (plan.identity event.1) cell s → s = plan.server event.1

end World

/-! ## What an event reads and writes -/

namespace Connection

variable {codecs : Codecs lib} {account : Account}

theorem step_congr (c : Connection lib) (event : ConnectionEvent lib) {d d' : IdentityDir lib}
    (h : ∀ cell, c.Reads account event cell → d.SameCell d' cell) :
    c.step codecs account d event = c.step codecs account d' event := by
  cases event with
  | initPchat =>
      have hrestored : (restored account d : PchatState lib) = restored account d' := by
        unfold restored
        split
        next hdir =>
          have hkeys : d.archiveKeys = d'.archiveKeys :=
            funext fun channelId => h (.archiveKey channelId) hdir
          have hcache : d.messageCache = d'.messageCache :=
            funext fun channelId => h (.messages channelId) hdir
          rw [hkeys, hcache]
        next => rfl
      show c.initPchat account d = c.initPchat account d'
      unfold initPchat
      rw [hrestored]
  | ensureSignalBridge bridgeLoads =>
      show c.mapPchat _ = c.mapPchat _
      unfold mapPchat
      cases hpchat : c.shared.pchat with
      | none => rfl
      | some pchat =>
          rw [Option.map_some, Option.map_some]
          congr 3
          unfold PchatState.ensureSignalBridge
          cases hbridge : pchat.signalBridge with
          | some bridge => rfl
          | none =>
              cases hfailed : pchat.signalBridgeLoadFailed with
              | true => rfl
              | false =>
                  have hloaded : (loadSignalBridge account bridgeLoads d :
                      Option (SignalBridgeCtx lib)) = loadSignalBridge account bridgeLoads d' := by
                    unfold loadSignalBridge
                    cases bridgeLoads with
                    | false => rfl
                    | true =>
                        cases hdir : account.identityDir with
                        | false => rfl
                        | true =>
                            have hstate : d.signalState = d'.signalState :=
                              h .signalState ⟨hdir, rfl, pchat, hpchat, hbridge, hfailed⟩
                            rw [hstate]
                  rw [hloaded]
  | _ => rfl

theorem sameCell_write (op : FileOp) (d d' : IdentityDir lib) (cell : Cell) :
    (d.write op).SameCell (d'.write op) cell ∨
      ((d.write op).SameCell d cell ∧ (d'.write op).SameCell d' cell) := by
  cases cell with
  | messages channelId => exact .inr (by cases op <;> exact ⟨rfl, rfl⟩)
  | signalState => exact .inr (by cases op <;> exact ⟨rfl, rfl⟩)
  | archiveKey channelId =>
      cases op with
      | persistArchiveKey c key originator =>
          by_cases hc : channelId = c
          · left
            show Function.update _ c _ channelId = Function.update _ c _ channelId
            rw [hc, Function.update_self, Function.update_self]
          · exact .inr ⟨Function.update_of_ne hc _ _, Function.update_of_ne hc _ _⟩
      | deletePersistedArchiveKey c =>
          by_cases hc : channelId = c
          · left
            show Function.update _ c _ channelId = Function.update _ c _ channelId
            rw [hc, Function.update_self, Function.update_self]
          · exact .inr ⟨Function.update_of_ne hc _ _, Function.update_of_ne hc _ _⟩

theorem sameCell_save (c : Connection lib) (order : HashOrder) (d d' : IdentityDir lib)
    (cell : Cell) :
    (c.save account order d).SameCell (c.save account order d') cell ∨
      ((c.save account order d).SameCell d cell ∧ (c.save account order d').SameCell d' cell) := by
  unfold save
  cases c.shared.pchat with
  | none => exact .inr ⟨.refl d cell, .refl d' cell⟩
  | some pchat =>
      cases cell with
      | archiveKey channelId => exact .inr ⟨rfl, rfl⟩
      | messages channelId =>
          unfold IdentityDir.SameCell
          dsimp only
          cases pchat.localCache with
          | none => exact .inr ⟨rfl, rfl⟩
          | some cache => exact .inl rfl
      | signalState =>
          unfold IdentityDir.SameCell
          dsimp only
          cases pchat.signalBridge with
          | none => exact .inr ⟨rfl, rfl⟩
          | some bridge =>
              dsimp only
              split
              next =>
                cases bridge.exportState order with
                | ok data => exact .inl rfl
                | error e => exact .inr ⟨rfl, rfl⟩
              next => exact .inr ⟨rfl, rfl⟩

theorem sameCell_written (c : Connection lib) (event : ConnectionEvent lib)
    (d d' : IdentityDir lib) (cell : Cell) :
    (c.written account d event).SameCell (c.written account d' event) cell ∨
      ((c.written account d event).SameCell d cell ∧
        (c.written account d' event).SameCell d' cell) := by
  cases event with
  | writeArchiveKeys i =>
      unfold written
      dsimp only
      cases c.writes[i]? with
      | none => exact .inr ⟨.refl d cell, .refl d' cell⟩
      | some op => exact sameCell_write op d d' cell
  | disconnected order => exact c.sameCell_save order d d' cell
  | _ => exact .inr ⟨.refl d cell, .refl d' cell⟩

end Connection

/-! ## Runs -/

namespace World

variable {ι σ : Type*} [DecidableEq ι] {codecs : Codecs lib} {plan : Plan ι σ}

/-- With and without the events of other servers: the connections to a server are the same, and
so is what only they have changed. -/
structure Agree (plan : Plan ι σ) (server : σ) (w w' : World ι σ lib) : Prop where
  connections : ∀ i, plan.server i = server → w.connections i = w'.connections i
  dirs : ∀ identity cell, (∀ s, w.changedBy identity cell s → s = server) →
    (w.dirs identity).SameCell (w'.dirs identity) cell

theorem changedBy_of_step {w : World ι σ lib} {event : ι × ConnectionEvent lib} {cell : Cell}
    {server : σ}
    (hown : ∀ s, (w.step codecs plan event).changedBy (plan.identity event.1) cell s → s = server)
    (hsame : ((w.step codecs plan event).dirs (plan.identity event.1)).SameCell
      (w.dirs (plan.identity event.1)) cell) :
    ∀ s, w.changedBy (plan.identity event.1) cell s → s = server := by
  intro s hs
  refine hown s ?_
  show Function.update w.changedBy (plan.identity event.1) _ (plan.identity event.1) cell s
  have hdirs : (w.step codecs plan event).dirs (plan.identity event.1) =
      (w.connections event.1).written (plan.account (plan.identity event.1))
        (w.dirs (plan.identity event.1)) event.2 := Function.update_self ..
  rw [hdirs] at hsame
  rw [Function.update_self]
  exact .inl ⟨hsame, hs⟩

theorem sameCell_of_step {w : World ι σ lib} {event : ι × ConnectionEvent lib} {cell : Cell}
    {server : σ}
    (hown : ∀ s, (w.step codecs plan event).changedBy (plan.identity event.1) cell s → s = server)
    (hother : plan.server event.1 ≠ server) :
    ((w.step codecs plan event).dirs (plan.identity event.1)).SameCell
      (w.dirs (plan.identity event.1)) cell := by
  have hdirs : (w.step codecs plan event).dirs (plan.identity event.1) =
      (w.connections event.1).written (plan.account (plan.identity event.1))
        (w.dirs (plan.identity event.1)) event.2 := Function.update_self ..
  by_contra hchanged
  refine hother (hown (plan.server event.1) ?_)
  show Function.update w.changedBy (plan.identity event.1) _ (plan.identity event.1) cell
    (plan.server event.1)
  rw [hdirs] at hchanged
  rw [Function.update_self]
  exact .inr ⟨hchanged, rfl⟩

theorem step_of_ne (codecs : Codecs lib) (w : World ι σ lib) {event : ι × ConnectionEvent lib}
    {identity : String} (hne : identity ≠ plan.identity event.1) :
    (w.step codecs plan event).dirs identity = w.dirs identity ∧
      (w.step codecs plan event).changedBy identity = w.changedBy identity :=
  ⟨Function.update_of_ne hne _ _, Function.update_of_ne hne _ _⟩

theorem Agree.dropped {server : σ} {w w' : World ι σ lib} (h : Agree plan server w w')
    {event : ι × ConnectionEvent lib} (hother : plan.server event.1 ≠ server) :
    Agree plan server (w.step codecs plan event) w' where
  connections := by
    intro i hi
    have hne : i ≠ event.1 := fun heq => hother (heq ▸ hi)
    show Function.update w.connections event.1 _ i = _
    rw [Function.update_of_ne hne]
    exact h.connections i hi
  dirs := by
    intro identity cell hown
    by_cases hidentity : identity = plan.identity event.1
    · subst hidentity
      have hsame := sameCell_of_step hown hother
      exact hsame.trans (h.dirs _ cell (changedBy_of_step hown hsame))
    · obtain ⟨hdirs, hchanged⟩ := w.step_of_ne codecs hidentity
      rw [hdirs]
      rw [hchanged] at hown
      exact h.dirs identity cell hown

theorem Agree.kept {w w' : World ι σ lib} {event : ι × ConnectionEvent lib}
    (h : Agree plan (plan.server event.1) w w') (hreads : w.ReadsOwn plan event) :
    Agree plan (plan.server event.1) (w.step codecs plan event) (w'.step codecs plan event) := by
  have hconnection := h.connections event.1 rfl
  constructor
  · intro i hi
    show Function.update w.connections event.1 _ i = Function.update w'.connections event.1 _ i
    by_cases hid : i = event.1
    · rw [hid, Function.update_self, Function.update_self, ← hconnection]
      exact Connection.step_congr _ _ fun cell hcell => h.dirs _ cell (hreads cell hcell)
    · rw [Function.update_of_ne hid, Function.update_of_ne hid]
      exact h.connections i hi
  · intro identity cell hown
    by_cases hidentity : identity = plan.identity event.1
    · subst hidentity
      have hdirs : (w.step codecs plan event).dirs (plan.identity event.1) =
          (w.connections event.1).written (plan.account (plan.identity event.1))
            (w.dirs (plan.identity event.1)) event.2 := Function.update_self ..
      have hdirs' : (w'.step codecs plan event).dirs (plan.identity event.1) =
          (w.connections event.1).written (plan.account (plan.identity event.1))
            (w'.dirs (plan.identity event.1)) event.2 := by
        rw [hconnection]
        exact Function.update_self ..
      rcases (w.connections event.1).sameCell_written event.2 (w.dirs (plan.identity event.1))
          (w'.dirs (plan.identity event.1)) cell with hput | ⟨hleft, hleft'⟩
      · rw [hdirs, hdirs']
        exact hput
      · rw [← hdirs] at hleft
        rw [← hdirs'] at hleft'
        exact (hleft.trans (h.dirs _ cell (changedBy_of_step hown hleft))).trans hleft'.symm
    · obtain ⟨hdirs, hchanged⟩ := w.step_of_ne codecs hidentity
      rw [hdirs, (w'.step_of_ne codecs hidentity).1]
      rw [hchanged] at hown
      exact h.dirs identity cell hown

/-- In every run in which connections read only what was last changed by connections to the
same server, the servers are kept apart. -/
theorem keptApart_run [DecidableEq σ] (codecs : Codecs lib) (plan : Plan ι σ)
    (events : List (ι × ConnectionEvent lib))
    (h : Along (step codecs plan) (ReadsOwn plan) {} events) : KeptApart codecs plan events := by
  intro i
  have hagree : Agree plan (plan.server i) (run (step codecs plan) {} events)
      (run (step codecs plan) {}
        (events.filter fun event => plan.server event.1 = plan.server i)) := by
    refine unwinding (fun w w' event hagree hkeep _ => ?_)
      (fun w w' event hagree hkeep hreads => ?_) ?_ h
    · exact hagree.dropped (of_decide_eq_false hkeep)
    · rw [← of_decide_eq_true hkeep] at hagree ⊢
      exact hagree.kept hreads
    · exact ⟨fun _ _ => rfl, fun identity cell _ => .refl _ cell⟩
  exact hagree.connections i rfl

def OneServerEach (plan : Plan ι σ) : Prop :=
  ∀ i j, plan.identity i = plan.identity j → plan.server i = plan.server j

def ChangedByUsers (plan : Plan ι σ) (w : World ι σ lib) : Prop :=
  ∀ identity cell s, w.changedBy identity cell s →
    ∃ i, plan.identity i = identity ∧ plan.server i = s

theorem ChangedByUsers.step {w : World ι σ lib} (h : ChangedByUsers plan w)
    (event : ι × ConnectionEvent lib) : ChangedByUsers plan (w.step codecs plan event) := by
  intro identity cell s hs
  by_cases hidentity : identity = plan.identity event.1
  · subst hidentity
    unfold World.step at hs
    dsimp only at hs
    rw [Function.update_self] at hs
    rcases hs with ⟨-, hbefore⟩ | ⟨-, rfl⟩
    · exact h _ cell s hbefore
    · exact ⟨event.1, rfl, rfl⟩
  · rw [(w.step_of_ne codecs hidentity).2] at hs
    exact h identity cell s hs

theorem along_readsOwn_of_oneServerEach (h : OneServerEach plan)
    (events : List (ι × ConnectionEvent lib)) :
    Along (step codecs plan) (ReadsOwn plan) {} events := by
  have hnone : ChangedByUsers plan ({} : World ι σ lib) := fun _ _ _ hs => hs.elim
  have hall : Along (step codecs plan) (fun _ _ => True) ({} : World ι σ lib) events :=
    along_of_forall (fun _ _ => trivial) _ events
  refine along_of_invariant (fun w event huses _ => huses.step event)
    (fun w event huses _ cell _ s hs => ?_) hnone hall
  obtain ⟨i, hidentity, rfl⟩ := huses _ cell s hs
  exact h i event.1 hidentity

section Example

private def twoServers (identity : Bool → String) : Plan Bool Bool where
  server := id
  identity := identity
  account := fun certHash =>
    { certHash
      identity := .plain
      deriveArchiveKey := fun _ => .replicate 1
      identityDir := true }

private def joinsThenConnects : List (Bool × ConnectionEvent symbolic) :=
  [(false, .connect), (false, .initPchat), (false, .deriveArchiveKey 5 true),
    (false, .writeArchiveKeys 0), (true, .connect), (true, .initPchat)]

theorem keptApart_run_example :
    KeptApart symbolicCodecs (twoServers fun server => if server then "work" else "home")
      joinsThenConnects := by
  refine keptApart_run symbolicCodecs _ joinsThenConnects (along_readsOwn_of_oneServerEach ?_ _)
  unfold OneServerEach
  decide

/-- The key of a channel of one server is restored for the channel of the same number of the
other one. -/
theorem key_restored_for_other_server :
    ¬∀ (ι σ : Type) [DecidableEq ι] [DecidableEq σ] (lib : Libraries) (codecs : Codecs lib)
      (plan : Plan ι σ) (events : List (ι × ConnectionEvent lib)),
      KeptApart codecs plan events := by
  intro h
  have hsame := h Bool Bool symbolic symbolicCodecs (twoServers fun _ => "default")
    joinsThenConnects true
  have hkey := congrArg (fun c : Connection symbolic =>
    c.shared.pchat.bind fun pchat => pchat.keyManager.archiveKeys 5) hsame
  exact absurd hkey (by decide)

end Example

end World

end FancyMumble.Messages
