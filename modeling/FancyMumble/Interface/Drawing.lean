import FancyMumble.Lib.Runs
import Mathlib.Algebra.Order.Ring.Nat

/-!
# Drawing on a shared screen

The users of a channel draw on the screen that one of them shares. Every client keeps the
strokes of all users; what a user adds to a stroke is sent in packets, by a timer and when the
pointer goes up. A user clears the own strokes, the broadcaster those of everyone.
-/

namespace FancyMumble.Interface.Drawing

variable {S α : Type}

/-! ## Strokes -/

structure Pen (α : Type) where
  color : UInt32
  width : α
  widthFrac : Option α

structure RemoteStroke (α : Type) where
  pen : Pen α
  points : List α

structure DrawStroke (α : Type) where
  strokeId : ℕ
  pen : Pen α
  points : List α
  isEnd : Bool
  isClear : Bool
  clearAll : Bool

abbrev StrokeMap (S α : Type) := S → ℕ → Option (RemoteStroke α)

def StrokeMap.set [DecidableEq S] (strokes : StrokeMap S α) (s : S) (strokeId : ℕ)
    (stroke : RemoteStroke α) : StrokeMap S α :=
  Function.update strokes s (Function.update (strokes s) strokeId (some stroke))

def StrokeMap.deleteOf [DecidableEq S] (strokes : StrokeMap S α) (s : S) : StrokeMap S α :=
  Function.update strokes s fun _ => none

def StrokeMap.clear : StrokeMap S α := fun _ _ => none

/-! ## Clients -/

structure Client (S α : Type) where
  strokes : StrokeMap S α := .clear
  /-- The sessions that are this client's, now or once. -/
  ownSessions : S → Bool
  drawingActive : Bool := false
  /-- The own session is among the broadcasting sessions. -/
  isOwnBroadcaster : Bool := false
  /-- `colorRef`, `widthRef` and the fraction of the content rectangle. -/
  pen : Pen α
  currentStrokeId : Option ℕ := none
  isPointerDown : Bool := false
  sentCoordCount : ℕ := 0
  flushTimer : Bool := false
  /-- How many ids `crypto.randomUUID` has given out. -/
  uuids : ℕ := 0
  /-- What really happened: how often the client has cleared everything for each sender. -/
  cleared : S → ℕ := fun _ => 0

namespace Client

variable [DecidableEq S] (own : S)

def clearEverything (self : Client S α) (senderSession : S) : Client S α :=
  { self with
    strokes := .clear
    cleared := Function.update self.cleared senderSession (self.cleared senderSession + 1) }

def applyStrokeEvent (self : Client S α) (senderSession : S) (payload : DrawStroke α) :
    Client S α :=
  if self.ownSessions senderSession then self
  else if payload.isClear then
    if payload.clearAll then self.clearEverything senderSession
    else { self with strokes := self.strokes.deleteOf senderSession }
  else
    let newPoints := match self.strokes senderSession payload.strokeId with
      | some existing => existing.points ++ payload.points
      | none => payload.points
    { self with
      strokes := self.strokes.set senderSession payload.strokeId ⟨payload.pen, newPoints⟩ }

def currentStroke (self : Client S α) : Option (RemoteStroke α) :=
  self.currentStrokeId.bind (self.strokes own)

def unsentTail (self : Client S α) : List α :=
  match self.currentStroke own with
  | some stroke => stroke.points.drop self.sentCoordCount
  | none => []

def pushPoint (self : Client S α) (x y : α) : Client S α :=
  match self.currentStrokeId, self.currentStroke own with
  | some strokeId, some stroke =>
      { self with
        strokes := self.strokes.set own strokeId
          { stroke with points := stroke.points ++ [x, y] } }
  | _, _ => self

def flushPending (narrow : α → α) (self : Client S α) (isEnd : Bool) :
    Client S α × List (DrawStroke α) :=
  match self.currentStrokeId, self.currentStroke own with
  | some strokeId, some stroke =>
      let total := stroke.points.length
      if total ≤ self.sentCoordCount && !isEnd then (self, [])
      else
        let tail := stroke.points.drop self.sentCoordCount
        if tail.isEmpty && !isEnd then (self, [])
        else
          ({ self with sentCoordCount := total }, [{
            strokeId := strokeId
            pen := self.pen
            points := tail.map narrow
            isEnd := isEnd
            isClear := false
            clearAll := false }])
  | _, _ => (self, [])

def onPointerDown (self : Client S α) (point : Option (α × α)) : Client S α :=
  match self.drawingActive, point with
  | true, some (x, y) =>
      { self with
        isPointerDown := true
        currentStrokeId := some self.uuids
        uuids := self.uuids + 1
        sentCoordCount := 0
        flushTimer := true
        strokes := self.strokes.set own self.uuids ⟨self.pen, [x, y]⟩ }
  | _, _ => self

def onPointerMove (self : Client S α) (point : Option (α × α)) : Client S α :=
  match self.drawingActive && self.isPointerDown, point with
  | true, some (x, y) => self.pushPoint own x y
  | _, _ => self

def onPointerUp (narrow : α → α) (self : Client S α) (point : Option (α × α)) :
    Client S α × List (DrawStroke α) :=
  if self.drawingActive && self.isPointerDown then
    let up := { self with isPointerDown := false, flushTimer := false }
    match point with
    | some (x, y) => (up.pushPoint own x y).flushPending own narrow true
    | none => up.flushPending own narrow true
  else (self, [])

def handleClear [Zero α] (self : Client S α) : Client S α × List (DrawStroke α) :=
  let message : DrawStroke α := {
    strokeId := self.uuids
    pen := ⟨0, 0, none⟩
    points := []
    isEnd := false
    isClear := true
    clearAll := self.isOwnBroadcaster }
  if self.isOwnBroadcaster then
    ({ self.clearEverything own with uuids := self.uuids + 1 }, [message])
  else
    ({ self with strokes := self.strokes.deleteOf own, uuids := self.uuids + 1 }, [message])

def rerunEffect (self : Client S α) : Client S α := { self with flushTimer := false }

def unmount (self : Client S α) : Client S α :=
  { self with
    currentStrokeId := none
    isPointerDown := false
    sentCoordCount := 0
    flushTimer := false }

end Client

/-! ## The channel -/

/-- A packet on its way, and what really happened: how often its sender had cleared everything
for each user when it was sent. -/
structure Packet (S α : Type) where
  message : DrawStroke α
  stamp : S → ℕ

/-- The clients of a channel, the packets that each one has sent, and how many of them each
other one has received. -/
structure Channel (S α : Type) where
  client : S → Client S α
  log : S → List (Packet S α) := fun _ => []
  received : S → S → ℕ := fun _ _ => 0
  /-- The user who shares a screen in this channel. -/
  activeBroadcaster : Option S := none

inductive Event (S α : Type) where
  | pointerDown (s : S) (point : Option (α × α))
  | pointerMove (s : S) (point : Option (α × α))
  | pointerUp (s : S) (point : Option (α × α))
  | flushTimer (s : S)
  | clear (s : S)
  | setPen (s : S) (pen : Pen α)
  | setDrawingActive (s : S) (active : Bool)
  | setOwnBroadcaster (s : S) (broadcasts : Bool)
  | rerunEffect (s : S)
  | unmount (s : S)
  | broadcaster (s : Option S)
  /-- The next packet of a sender reaches a receiver; the server echoes the own ones. -/
  | deliver (sender receiver : S)

namespace Channel

variable [DecidableEq S] (narrow : α → α)

/-- The overlays of a channel are opened. A client knows its session, and those that it had
before. -/
def start (pen : Pen α) (former : S → S → Bool) : Channel S α where
  client s := { ownSessions := fun t => t = s || former s t, pen := pen }

def act (self : Channel S α) (s : S) (result : Client S α × List (DrawStroke α)) :
    Channel S α :=
  { self with
    client := Function.update self.client s result.1
    log := Function.update self.log s
      (self.log s ++ result.2.map fun message => ⟨message, result.1.cleared⟩) }

def receive (self : Channel S α) (sender receiver : S) (message : DrawStroke α) :
    Channel S α :=
  { self with
    client := Function.update self.client receiver
      ((self.client receiver).applyStrokeEvent sender message)
    received := Function.update self.received sender
      (Function.update (self.received sender) receiver (self.received sender receiver + 1)) }

def next (self : Channel S α) (sender receiver : S) : Option (Packet S α) :=
  (self.log sender)[self.received sender receiver]?

def step [Zero α] (self : Channel S α) : Event S α → Channel S α
  | .pointerDown s point => self.act s ((self.client s).onPointerDown s point, [])
  | .pointerMove s point => self.act s ((self.client s).onPointerMove s point, [])
  | .pointerUp s point => self.act s ((self.client s).onPointerUp s narrow point)
  | .flushTimer s =>
      if (self.client s).flushTimer then
        self.act s ((self.client s).flushPending s narrow false)
      else self
  | .clear s => self.act s ((self.client s).handleClear s)
  | .setPen s pen => self.act s ({ self.client s with pen := pen }, [])
  | .setDrawingActive s active =>
      self.act s ({ self.client s with drawingActive := active }, [])
  | .setOwnBroadcaster s broadcasts =>
      self.act s ({ self.client s with isOwnBroadcaster := broadcasts }, [])
  | .rerunEffect s => self.act s ((self.client s).rerunEffect, [])
  | .unmount s => self.act s ((self.client s).unmount, [])
  | .broadcaster s => { self with activeBroadcaster := s }
  | .deliver sender receiver =>
      match self.next sender receiver with
      | some packet => self.receive sender receiver packet.message
      | none => self

end Channel

end FancyMumble.Interface.Drawing
