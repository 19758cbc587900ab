import FancyMumble.Lib.Runs
import Mathlib.Algebra.Order.Ring.Nat

/-!
# Peer connections of the screen share

One client broadcasts, watches and previews over WebRTC, on several servers at once. The offers
of its peer connections travel on the server connections; the answers and the candidates that
come back are told apart by the session of their sender alone.
-/

namespace FancyMumble.Interface.PeerConnections

variable {V S A I : Type}

/-! ## A peer connection -/

inductive SignalingState where
  | stable
  | haveLocalOffer
  | closed
deriving DecidableEq

inductive Holder (S : Type) where
  | broadcasterPc
  | viewerPcs (broadcasterSession : S)
  | previewPc
deriving DecidableEq

inductive Negotiation where
  | createOffer
  | setLocalDescription
  | done
deriving DecidableEq

structure RTCPeerConnection (V S A I : Type) where
  holder : Holder S
  /-- The session that the offer names; the offer of the own broadcast names none. -/
  broadcasterSession : Option S
  /-- The server that signals are sent to; without one it is the active one of the backend. -/
  serverId : Option V
  negotiation : Negotiation := .createOffer
  signalingState : SignalingState := .stable
  remoteDescription : Option A := none
  /-- The answers whose `setRemoteDescription` is not done, and what is flushed then. -/
  settingRemote : List (Holder S × A) := []
  /-- What `addIceCandidate` has taken. -/
  iceCandidates : List I := []

def RTCPeerConnection.close (pc : RTCPeerConnection V S A I) : RTCPeerConnection V S A I :=
  { pc with signalingState := .closed }

/-- `pc.addIceCandidate(c)` for each candidate; without a remote description it is rejected. -/
def RTCPeerConnection.addIceCandidates (pc : RTCPeerConnection V S A I) (candidates : List I) :
    RTCPeerConnection V S A I :=
  if pc.remoteDescription.isSome && pc.signalingState != .closed then
    { pc with iceCandidates := pc.iceCandidates ++ candidates }
  else pc

@[simp] theorem RTCPeerConnection.holder_addIceCandidates (pc : RTCPeerConnection V S A I)
    (candidates : List I) : (pc.addIceCandidates candidates).holder = pc.holder := by
  unfold RTCPeerConnection.addIceCandidates
  split
  · rfl
  · rfl

structure ViewerState (I : Type) where
  pc : ℕ
  pendingIce : List I

/-! ## The client -/

structure Client (V S A I : Type) where
  /-- The server that the backend takes where none is named. -/
  snapshot : V
  activeServerId : Option V
  /-- The own session on each server. -/
  ownSession : V → S
  pcs : ℕ → Option (RTCPeerConnection V S A I) := fun _ => none
  /-- How many peer connections were made. -/
  made : ℕ := 0
  broadcasterPc : Option ℕ := none
  broadcasterPendingIce : List I := []
  viewerPcs : S → Option (ViewerState I) := fun _ => none
  previewPc : Option ℕ := none
  previewPendingIce : List I := []
  /-- The page of the chat is shown, and has registered its handler of signals. -/
  listening : Bool := false
  /-- What really happened: the server that the offer of a connection was sent on, and the
  session of the broadcaster that it is for. -/
  offered : ℕ → Option (V × S) := fun _ => none
  /-- What really happened: the answers that came for a connection while it was open. -/
  answersFor : ℕ → List A := fun _ => []
  /-- What really happened: the candidates that came for a connection while it was open. -/
  candidatesFor : ℕ → List I := fun _ => []

namespace Client

def modify (self : Client V S A I) (q : ℕ)
    (f : RTCPeerConnection V S A I → RTCPeerConnection V S A I) : Client V S A I :=
  { self with pcs := Function.update self.pcs q ((self.pcs q).map f) }

def new (self : Client V S A I) (holder : Holder S) (broadcasterSession : Option S)
    (serverId : Option V) : Client V S A I :=
  { self with
    pcs := Function.update self.pcs self.made (some {
      holder := holder, broadcasterSession := broadcasterSession, serverId := serverId })
    made := self.made + 1 }

def closePreview (self : Client V S A I) : Client V S A I :=
  match self.previewPc with
  | some q =>
      { self.modify q .close with
        previewPc := none
        previewPendingIce := [] }
  | none => { self with previewPendingIce := [] }

def stopBroadcasting (self : Client V S A I) : Client V S A I :=
  match self.broadcasterPc with
  | some q =>
      { self.modify q .close with
        broadcasterPc := none
        broadcasterPendingIce := [] }
  | none => { self with broadcasterPendingIce := [] }

/-- `connectBroadcasterToServer`, up to the first offer. A stale connection is closed. -/
def connectBroadcasterToServer (self : Client V S A I) : Client V S A I :=
  let closed := self.stopBroadcasting
  { closed.new .broadcasterPc none self.activeServerId with
    broadcasterPc := some closed.made }

def requestThumbnail (self : Client V S A I) (broadcasterSession : S) : Client V S A I :=
  let closed := self.closePreview
  { closed.new .previewPc (some broadcasterSession) none with
    previewPc := some closed.made }

variable [DecidableEq S]

def closeViewer (self : Client V S A I) (session : S) : Client V S A I :=
  match self.viewerPcs session with
  | some state =>
      { self.modify state.pc .close with
        viewerPcs := Function.update self.viewerPcs session none }
  | none => self

def startWatching (self : Client V S A I) (broadcasterSession : S) : Client V S A I :=
  if (self.viewerPcs broadcasterSession).isSome then self
  else
    let closed := self.closePreview
    { closed.new (.viewerPcs broadcasterSession) (some broadcasterSession)
        self.activeServerId with
      viewerPcs := Function.update closed.viewerPcs broadcasterSession
        (some ⟨closed.made, []⟩) }

def isCurrent (self : Client V S A I) (q : ℕ) : Holder S → Bool
  | .broadcasterPc => self.broadcasterPc = some q
  | .viewerPcs session => (self.viewerPcs session).map ViewerState.pc = some q
  | .previewPc => self.previewPc = some q

def offerCreated (self : Client V S A I) (q : ℕ) : Client V S A I :=
  self.modify q fun pc =>
    if pc.negotiation = .createOffer then
      { pc with
        negotiation := if self.isCurrent q pc.holder then .setLocalDescription else .done }
    else pc

/-- `setLocalDescription` is done; the offer is sent. A closed connection never gets here. -/
def localDescriptionSet (self : Client V S A I) (q : ℕ) : Client V S A I :=
  match self.pcs q with
  | some pc =>
      if pc.negotiation = .setLocalDescription && pc.signalingState != .closed then
        let set := self.modify q fun pc =>
          { pc with negotiation := .done, signalingState := .haveLocalOffer }
        if self.isCurrent q pc.holder then
          let server := pc.serverId.getD self.snapshot
          { set with
            offered := Function.update self.offered q
              (some (server, pc.broadcasterSession.getD (self.ownSession server))) }
        else set
      else self
  | none => self

def flushIce (self : Client V S A I) : Holder S → Client V S A I
  | .broadcasterPc =>
      match self.broadcasterPc with
      | some q =>
          { self.modify q (·.addIceCandidates self.broadcasterPendingIce) with
            broadcasterPendingIce := [] }
      | none => self
  | .viewerPcs session =>
      match self.viewerPcs session with
      | some state =>
          { self.modify state.pc (·.addIceCandidates state.pendingIce) with
            viewerPcs := Function.update self.viewerPcs session
              (some { state with pendingIce := [] }) }
      | none => self
  | .previewPc =>
      match self.previewPc with
      | some q =>
          { self.modify q (·.addIceCandidates self.previewPendingIce) with
            previewPendingIce := [] }
      | none => self

/-- `setRemoteDescription` is done. It fails on a connection that expects no answer, and
never settles on a closed one. -/
def remoteDescriptionSet (self : Client V S A I) (q : ℕ) : Client V S A I :=
  match self.pcs q with
  | some pc =>
      match pc.settingRemote, pc.signalingState with
      | _, .closed => self
      | [], _ => self
      | (holder, sdp) :: rest, .haveLocalOffer =>
          (self.modify q fun pc =>
            { pc with
              remoteDescription := some sdp
              signalingState := .stable
              settingRemote := rest }).flushIce holder
      | _ :: rest, .stable => self.modify q fun pc => { pc with settingRemote := rest }
  | none => self

/-! ## Incoming signals -/

def haveLocalOffer (self : Client V S A I) (pc : Option ℕ) : Bool :=
  (pc.bind self.pcs).map RTCPeerConnection.signalingState = some .haveLocalOffer

def viewerPc (self : Client V S A I) (session : S) : Option ℕ :=
  (self.viewerPcs session).map ViewerState.pc

def handleServerAnswer (self : Client V S A I) (pc : Option ℕ) (holder : Holder S) (sdp : A) :
    Client V S A I :=
  match pc with
  | some q =>
      self.modify q fun pc => { pc with settingRemote := pc.settingRemote ++ [(holder, sdp)] }
  | none => self

def routeSdpAnswer (self : Client V S A I) (senderSession : S) (payload : A) :
    Client V S A I :=
  if self.haveLocalOffer (self.viewerPc senderSession) then
    self.handleServerAnswer (self.viewerPc senderSession) (.viewerPcs senderSession) payload
  else if self.haveLocalOffer self.broadcasterPc then
    self.handleServerAnswer self.broadcasterPc .broadcasterPc payload
  else if self.haveLocalOffer self.previewPc then
    self.handleServerAnswer self.previewPc .previewPc payload
  else self

def hasRemoteDescription (self : Client V S A I) (q : ℕ) : Bool :=
  ((self.pcs q).bind RTCPeerConnection.remoteDescription).isSome

def routeIceCandidate (self : Client V S A I) (senderSession : S) (payload : Option I) :
    Client V S A I :=
  match payload with
  | none => self
  | some candidate =>
      match self.broadcasterPc, self.viewerPcs senderSession, self.previewPc with
      | some q, _, _ =>
          if self.hasRemoteDescription q then self.modify q (·.addIceCandidates [candidate])
          else
            { self with
              broadcasterPendingIce := self.broadcasterPendingIce ++ [candidate] }
      | none, some state, _ =>
          if self.hasRemoteDescription state.pc then
            self.modify state.pc (·.addIceCandidates [candidate])
          else
            { self with
              viewerPcs := Function.update self.viewerPcs senderSession
                (some { state with pendingIce := state.pendingIce ++ [candidate] }) }
      | none, none, some q =>
          if self.hasRemoteDescription q then self.modify q (·.addIceCandidates [candidate])
          else { self with previewPendingIce := self.previewPendingIce ++ [candidate] }
      | none, none, none => self

/-! ## Runs -/

def isOpen (self : Client V S A I) (q : ℕ) : Bool :=
  match self.pcs q with
  | some pc => self.isCurrent q pc.holder
  | none => false

def noteAnswer (self : Client V S A I) (q : ℕ) (sdp : A) : Client V S A I :=
  if self.isOpen q then
    { self with
      answersFor := Function.update self.answersFor q (self.answersFor q ++ [sdp]) }
  else self

def noteCandidate (self : Client V S A I) (q : ℕ) (candidate : I) : Client V S A I :=
  if self.isOpen q then
    { self with
      candidatesFor := Function.update self.candidatesFor q
        (self.candidatesFor q ++ [candidate]) }
  else self

end Client

inductive Event (V S A I : Type) where
  /-- The backend switches to a server. -/
  | switchServer (v : V)
  | setActiveServerId (v : Option V)
  | setOwnSession (v : V) (session : S)
  | setListening (listening : Bool)
  | connectBroadcasterToServer
  | stopBroadcasting
  | startWatching (broadcasterSession : S)
  | closeViewer (session : S)
  | requestThumbnail (broadcasterSession : S)
  | closePreview
  | offerCreated (q : ℕ)
  | localDescriptionSet (q : ℕ)
  | remoteDescriptionSet (q : ℕ)
  /-- The broadcaster has stopped, says a server. -/
  | stop (serverId : V) (senderSession : Option S)
  /-- A server answers the offer of a connection. -/
  | sdpAnswer (serverId : V) (senderSession : Option S) (payload : A) (q : ℕ)
  /-- A server names a candidate for a connection. -/
  | iceCandidate (serverId : V) (senderSession : Option S) (payload : Option I) (q : ℕ)

def start (snapshot : V) (ownSession : V → S) : Client V S A I where
  snapshot := snapshot
  activeServerId := none
  ownSession := ownSession

/-- A signal is handed to the handler, without its server and its connection. Without a handler
or a sender it is dropped. -/
def Client.handle (self : Client V S A I) (senderSession : Option S)
    (handler : S → Client V S A I) : Client V S A I :=
  if self.listening then
    match senderSession with
    | some session => handler session
    | none => self
  else self

@[simp] theorem Client.handle_none (self : Client V S A I) (handler : S → Client V S A I) :
    self.handle none handler = self := by
  unfold Client.handle
  split
  · rfl
  · rfl

@[simp] theorem Client.handle_some (self : Client V S A I) (session : S)
    (handler : S → Client V S A I) :
    self.handle (some session) handler = if self.listening then handler session else self :=
  rfl

def step [DecidableEq V] [DecidableEq S] (self : Client V S A I) :
    Event V S A I → Client V S A I
  | .switchServer v => { self with snapshot := v }
  | .setActiveServerId v => { self with activeServerId := v }
  | .setOwnSession v session =>
      { self with ownSession := Function.update self.ownSession v session }
  | .setListening listening => { self with listening := listening }
  | .connectBroadcasterToServer => self.connectBroadcasterToServer
  | .stopBroadcasting => self.stopBroadcasting
  | .startWatching broadcasterSession => self.startWatching broadcasterSession
  | .closeViewer session => self.closeViewer session
  | .requestThumbnail broadcasterSession => self.requestThumbnail broadcasterSession
  | .closePreview => self.closePreview
  | .offerCreated q => self.offerCreated q
  | .localDescriptionSet q => self.localDescriptionSet q
  | .remoteDescriptionSet q => self.remoteDescriptionSet q
  | .stop _ senderSession => self.handle senderSession self.closeViewer
  | .sdpAnswer _ senderSession payload q =>
      (self.handle senderSession fun session => self.routeSdpAnswer session payload).noteAnswer q
        payload
  | .iceCandidate _ senderSession payload q =>
      let routed := self.handle senderSession fun session =>
        self.routeIceCandidate session payload
      match payload with
      | some candidate => routed.noteCandidate q candidate
      | none => routed

end FancyMumble.Interface.PeerConnections
