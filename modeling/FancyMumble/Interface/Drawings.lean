import FancyMumble.Interface.DrawnStrokes

/-!
# Drawings converge

Every client holds the same strokes once everything has arrived, if strokes and clear-alls do
not cross on their way.
-/

namespace FancyMumble.Interface.Drawing

open Lib.Runs

variable {S α : Type}

/-! ## Steps of the channel -/

structure Client.Local (own : S) (client client' : Client S α) : Prop where
  others : ∀ t, t ≠ own → client'.strokes t = client.strokes t
  cleared : client'.cleared = client.cleared

namespace Client.Local

variable {own : S} {client client' client'' : Client S α}

theorem trans (h : Client.Local own client client') (h' : Client.Local own client' client'') :
    Client.Local own client client'' where
  others t ht := (h'.others t ht).trans (h.others t ht)
  cleared := h'.cleared.trans h.cleared

theorem flushPending (narrow : α → α) (client : Client S α) (own : S) (isEnd : Bool) :
    Client.Local own client (client.flushPending own narrow isEnd).1 := by
  rcases Own.flushPending_cases narrow client own isEnd with
    ⟨hsame, -⟩ | ⟨strokeId, stroke, -, -, hflush⟩
  · rw [hsame]
    exact ⟨fun t _ => rfl, rfl⟩
  · rw [hflush]
    exact ⟨fun t _ => rfl, rfl⟩

theorem pushPoint [DecidableEq S] (client : Client S α) (own : S) (x y : α) :
    Client.Local own client (client.pushPoint own x y) := by
  unfold Client.pushPoint
  split
  · exact ⟨fun t ht => by simp [StrokeMap.set, ht], rfl⟩
  · exact ⟨fun t _ => rfl, rfl⟩

end Client.Local

namespace Channel

structure Sound (narrow : α → α) (channel : Channel S α) : Prop where
  own : ∀ s, Own narrow s (channel.client s) (channel.log s)
  flushing : ∀ s, (channel.client s).Flushing s
  heard : ∀ s r, s ≠ r →
    Heard s (channel.client r) ((channel.log s).take (channel.received s r))
  received_le : ∀ s r, channel.received s r ≤ (channel.log s).length

/-- Everything that was sent has arrived, and no client is going to send more. -/
def Settled (channel : Channel S α) : Prop :=
  (∀ s r, s ≠ r → channel.received s r = (channel.log s).length) ∧
    ∀ s, ((channel.client s).flushTimer ||
      ((channel.client s).isPointerDown && (channel.client s).drawingActive)) = true →
        (channel.client s).unsentTail s = []

variable [DecidableEq S] {narrow : α → α} {channel : Channel S α}

theorem Sound.act (h : Sound narrow channel) {s : S}
    {result : Client S α × List (DrawStroke α)}
    (hown : Own narrow s result.1
      (channel.log s ++ result.2.map fun message => ⟨message, result.1.cleared⟩))
    (hflushing : result.1.Flushing s)
    (hheard : ∀ t seen, t ≠ s → Heard t (channel.client s) seen → Heard t result.1 seen) :
    Sound narrow (channel.act s result) where
  own u := by
    by_cases hu : u = s
    · subst hu
      simpa [Channel.act] using hown
    · simpa [Channel.act, hu] using h.own u
  flushing u := by
    by_cases hu : u = s
    · subst hu
      simpa [Channel.act] using hflushing
    · simpa [Channel.act, hu] using h.flushing u
  heard t r hne := by
    have hseen : ((channel.act s result).log t).take (channel.received t r) =
        (channel.log t).take (channel.received t r) := by
      by_cases ht : t = s
      · subst ht
        simp [Channel.act, List.take_append_of_le_length (h.received_le t r)]
      · simp [Channel.act, ht]
    show Heard t ((channel.act s result).client r)
      (((channel.act s result).log t).take (channel.received t r))
    rw [hseen]
    by_cases hr : r = s
    · subst hr
      simpa [Channel.act] using hheard t _ hne (h.heard t r hne)
    · simpa [Channel.act, hr] using h.heard t r hne
  received_le t r := by
    refine (h.received_le t r).trans ?_
    by_cases ht : t = s
    · subst ht
      simp [Channel.act]
    · simp [Channel.act, ht]

theorem Sound.act_local (h : Sound narrow channel) {s : S}
    {result : Client S α × List (DrawStroke α)}
    (hown : Own narrow s result.1
      (channel.log s ++ result.2.map fun message => ⟨message, result.1.cleared⟩))
    (hflushing : result.1.Flushing s)
    (hlocal : Client.Local s (channel.client s) result.1) :
    Sound narrow (channel.act s result) :=
  h.act hown hflushing fun t _ ht hheard => hheard.congr (hlocal.others t ht) hlocal.cleared

theorem Sound.act_silent (h : Sound narrow channel) {s : S} {client : Client S α}
    (hown : Own narrow s client (channel.log s)) (hflushing : client.Flushing s)
    (hlocal : Client.Local s (channel.client s) client) :
    Sound narrow (channel.act s (client, [])) :=
  h.act_local (by simpa using hown) hflushing hlocal

theorem client_receive (channel : Channel S α) (s r u : S) (message : DrawStroke α) :
    (channel.receive s r message).client u =
      if u = r then (channel.client r).applyStrokeEvent s message else channel.client u :=
  Function.update_apply ..

theorem received_receive (channel : Channel S α) (s r t u : S) (message : DrawStroke α) :
    (channel.receive s r message).received t u =
      if t = s ∧ u = r then channel.received s r + 1 else channel.received t u := by
  by_cases ht : t = s
  · subst ht
    simp [Channel.receive, Function.update_apply]
  · simp [Channel.receive, ht]

theorem echo_ignored (h : Sound narrow channel) (s : S) (message : DrawStroke α) :
    (channel.client s).applyStrokeEvent s message = channel.client s := by
  simp [Client.applyStrokeEvent, (h.own s).isOwn]

theorem Sound.receive (h : Sound narrow channel) {s r : S} {packet : Packet S α}
    (hnext : channel.next s r = some packet)
    (hother : s ≠ r → (channel.client r).ownSessions s = false ∧
      (packet.message.isClear = false → packet.stamp = (channel.client r).cleared)) :
    Sound narrow (channel.receive s r packet.message) where
  own u := by
    rw [client_receive]
    split
    next hu =>
      subst hu
      by_cases hne : u = s
      · subst hne
        rw [echo_ignored h]
        exact h.own u
      · exact (h.own u).receive hne packet.message
    next => exact h.own u
  flushing u := by
    rw [client_receive]
    split
    next hu =>
      subst hu
      by_cases hne : u = s
      · subst hne
        rw [echo_ignored h]
        exact h.flushing u
      · exact (h.flushing u).receive hne packet.message
    next => exact h.flushing u
  heard t u hne := by
    rw [client_receive, received_receive]
    by_cases hu : u = r
    · subst hu
      rw [if_pos rfl]
      by_cases ht : t = s
      · subst ht
        obtain ⟨hown, hstamp⟩ := hother hne
        have hseen : (channel.log t).take (channel.received t u + 1) =
            (channel.log t).take (channel.received t u) ++ [packet] := by
          have hget : (channel.log t)[channel.received t u]? = some packet := hnext
          rw [List.take_add_one, hget]
          rfl
        rw [if_pos ⟨rfl, rfl⟩]
        show Heard t _ ((channel.log t).take (channel.received t u + 1))
        rw [hseen]
        exact (h.heard t u hne).receive hown hstamp
      · rw [if_neg fun hsame => ht hsame.1]
        exact (h.heard t u hne).receive_of_ne ht packet.message
    · rw [if_neg hu, if_neg fun hsame => hu hsame.2]
      exact h.heard t u hne
  received_le t u := by
    rw [received_receive]
    split
    next hsame =>
      rw [hsame.1]
      exact (List.getElem?_eq_some_iff.mp hnext).1
    next => exact h.received_le t u

/-! ## Runs -/

/-- The user may clear everything that a client has: the user shares the screen, or the client
has nothing of anyone else. -/
def MayClear (channel : Channel S α) (s r : S) : Prop :=
  channel.activeBroadcaster = some s ∨ ∀ t, t ≠ s → (channel.client r).strokes t = fun _ => none

/-- Nothing that is left to send is dropped, strokes arrive after the clear-alls that their
sender had seen and before the others, and only the broadcaster clears what others have
drawn. -/
def Careful (channel : Channel S α) : Event S α → Prop
  | .pointerDown s point =>
      (channel.client s).drawingActive = true → point ≠ none →
        (channel.client s).unsentTail s = []
  | .setDrawingActive s active =>
      active = false → (channel.client s).flushTimer = false →
        (channel.client s).unsentTail s = []
  | .rerunEffect s =>
      ((channel.client s).isPointerDown && (channel.client s).drawingActive) = false →
        (channel.client s).unsentTail s = []
  | .unmount s => (channel.client s).unsentTail s = []
  | .clear s => (channel.client s).isOwnBroadcaster = true → channel.MayClear s s
  | .deliver sender receiver =>
      sender ≠ receiver → ∀ packet, channel.next sender receiver = some packet →
        (channel.client receiver).ownSessions sender = false ∧
          if packet.message.isClear then
            packet.message.clearAll = true → channel.MayClear sender receiver
          else packet.stamp = (channel.client receiver).cleared
  | _ => True

theorem Sound.pointerDown (h : Sound narrow channel) (s : S) (point : Option (α × α))
    (hcareful : channel.Careful (.pointerDown s point)) :
    Sound narrow (channel.act s ((channel.client s).onPointerDown s point, [])) := by
  cases hactive : (channel.client s).drawingActive with
  | false =>
      have hsame : (channel.client s).onPointerDown s point = channel.client s := by
        simp [Client.onPointerDown, hactive]
      rw [hsame]
      exact h.act_silent (h.own s) (h.flushing s) ⟨fun t _ => rfl, rfl⟩
  | true =>
      cases point with
      | none =>
          have hsame : (channel.client s).onPointerDown s none = channel.client s := by
            simp [Client.onPointerDown]
          rw [hsame]
          exact h.act_silent (h.own s) (h.flushing s) ⟨fun t _ => rfl, rfl⟩
      | some xy =>
          obtain ⟨x, y⟩ := xy
          have hflushed := hcareful hactive (by simp)
          have hdown : (channel.client s).onPointerDown s (some (x, y)) = { channel.client s with
              isPointerDown := true
              currentStrokeId := some (channel.client s).uuids
              uuids := (channel.client s).uuids + 1
              sentCoordCount := 0
              flushTimer := true
              strokes := (channel.client s).strokes.set s (channel.client s).uuids
                ⟨(channel.client s).pen, [x, y]⟩ } := by
            simp [Client.onPointerDown, hactive]
          rw [hdown]
          apply h.act_silent
          · exact (h.own s).startStroke hflushed x y
          · exact fun htimer => nomatch htimer
          · exact ⟨fun t ht => by simp [StrokeMap.set, ht], rfl⟩

theorem Sound.pointerMove (h : Sound narrow channel) (s : S) (point : Option (α × α)) :
    Sound narrow (channel.act s ((channel.client s).onPointerMove s point, [])) := by
  unfold Client.onPointerMove
  split
  next x y hdrawing =>
    apply h.act_silent
    · exact (h.own s).pushPoint x y
    · intro _ hdown
      have hkeep : (((channel.client s).pushPoint s x y).isPointerDown &&
          ((channel.client s).pushPoint s x y).drawingActive) = true := by
        unfold Client.pushPoint
        split
        · rwa [Bool.and_comm] at hdrawing
        · rwa [Bool.and_comm] at hdrawing
      exact absurd (hkeep.symm.trans hdown) (by simp)
    · exact .pushPoint _ s x y
  next => exact h.act_silent (h.own s) (h.flushing s) ⟨fun t _ => rfl, rfl⟩

theorem Sound.flush (h : Sound narrow channel) {s : S} {client : Client S α}
    (hown : Own narrow s client (channel.log s))
    (hlocal : Client.Local s (channel.client s) client) (isEnd : Bool) :
    Sound narrow (channel.act s (client.flushPending s narrow isEnd)) := by
  apply h.act_local
  · exact hown.flush isEnd
  · exact fun _ _ => Own.unsentTail_flushPending client s isEnd
  · exact hlocal.trans (.flushPending narrow client s isEnd)

theorem Sound.pointerUp (h : Sound narrow channel) (s : S) (point : Option (α × α)) :
    Sound narrow (channel.act s ((channel.client s).onPointerUp s narrow point)) := by
  unfold Client.onPointerUp
  split
  · have hup : Own narrow s
        { channel.client s with isPointerDown := false, flushTimer := false } (channel.log s) :=
      (h.own s).frame rfl rfl rfl rfl rfl rfl
    have hlocal : Client.Local s (channel.client s)
        { channel.client s with isPointerDown := false, flushTimer := false } :=
      ⟨fun t _ => rfl, rfl⟩
    cases point with
    | none => exact h.flush hup hlocal true
    | some xy =>
        obtain ⟨x, y⟩ := xy
        exact h.flush (hup.pushPoint x y) (hlocal.trans (.pushPoint _ s x y)) true
  · exact h.act_silent (h.own s) (h.flushing s) ⟨fun t _ => rfl, rfl⟩

theorem Sound.clear [Zero α] (h : Sound narrow channel) (s : S) :
    Sound narrow (channel.act s ((channel.client s).handleClear s)) := by
  have hown := (h.own s).clear
  have hgone : ((channel.client s).handleClear s).1.strokes s = fun _ => none := by
    unfold Client.handleClear
    split
    · rfl
    · simp [StrokeMap.deleteOf]
  apply h.act hown
  · intro _ _
    apply Client.unsentTail_of_gone
    exact Option.bind_eq_none_iff.mpr fun strokeId _ => congrFun hgone strokeId
  · intro t seen ht hheard
    unfold Client.handleClear
    split
    · exact (hheard.clearEverything ht).congr rfl rfl
    · exact hheard.congr (by simp [StrokeMap.deleteOf, ht]) rfl

theorem Sound.setDrawingActive (h : Sound narrow channel) (s : S) (active : Bool)
    (hcareful : channel.Careful (.setDrawingActive s active)) :
    Sound narrow (channel.act s ({ channel.client s with drawingActive := active }, [])) := by
  apply h.act_silent
  · exact (h.own s).frame rfl rfl rfl rfl rfl rfl
  · intro htimer hdown
    show (channel.client s).unsentTail s = []
    cases active with
    | false => exact hcareful rfl htimer
    | true =>
        have hdown : (channel.client s).isPointerDown = false := by simpa using hdown
        exact h.flushing s htimer (by simp [hdown])
  · exact ⟨fun t _ => rfl, rfl⟩

/-- Every careful step keeps what holds of the channel. -/
theorem Sound.step [Zero α] (h : Sound narrow channel) (event : Event S α)
    (hcareful : channel.Careful event) : Sound narrow (channel.step narrow event) := by
  cases event with
  | pointerDown s point => exact h.pointerDown s point hcareful
  | pointerMove s point => exact h.pointerMove s point
  | pointerUp s point => exact h.pointerUp s point
  | flushTimer s =>
      show Sound narrow (if (channel.client s).flushTimer then _ else channel)
      split
      · exact h.flush (h.own s) ⟨fun t _ => rfl, rfl⟩ false
      · exact h
  | clear s => exact h.clear s
  | setPen s pen =>
      exact h.act_silent ((h.own s).frame rfl rfl rfl rfl rfl rfl) (h.flushing s)
        ⟨fun t _ => rfl, rfl⟩
  | setDrawingActive s active => exact h.setDrawingActive s active hcareful
  | setOwnBroadcaster s broadcasts =>
      exact h.act_silent ((h.own s).frame rfl rfl rfl rfl rfl rfl) (h.flushing s)
        ⟨fun t _ => rfl, rfl⟩
  | rerunEffect s =>
      exact h.act_silent ((h.own s).frame rfl rfl rfl rfl rfl rfl) (fun _ => hcareful)
        ⟨fun t _ => rfl, rfl⟩
  | unmount s =>
      exact h.act_silent ((h.own s).unmount hcareful)
        (fun _ _ => Client.unsentTail_of_gone rfl) ⟨fun t _ => rfl, rfl⟩
  | broadcaster s => exact ⟨h.own, h.flushing, h.heard, h.received_le⟩
  | deliver sender receiver =>
      unfold Channel.step
      dsimp only
      cases hnext : channel.next sender receiver with
      | none => exact h
      | some packet =>
          apply h.receive hnext
          intro hne
          obtain ⟨hown, hpacket⟩ := hcareful hne packet hnext
          refine ⟨hown, fun hstroke => ?_⟩
          rwa [if_neg (by simp [hstroke])] at hpacket

theorem start_sound (narrow : α → α) (pen : Pen α) (former : S → S → Bool) :
    Sound narrow (start pen former) where
  own s := Own.of_gone (by simp [start]) rfl (fun _ hid => nomatch hid)
    (fun _ hpacket => nomatch hpacket) (fun _ hpacket => nomatch hpacket) rfl rfl
  flushing s _ _ := Client.unsentTail_of_gone rfl
  heard s r _ := {
    stamps := fun _ hpacket => nomatch hpacket
    clears := rfl
    strokes := rfl }
  received_le s r := le_rfl

end Channel

/-- The coordinates of the event are 32-bit numbers. -/
def Event.Narrow (narrow : α → α) : Event S α → Prop
  | .pointerDown _ (some (x, y)) => narrow x = x ∧ narrow y = y
  | .pointerMove _ (some (x, y)) => narrow x = x ∧ narrow y = y
  | .pointerUp _ (some (x, y)) => narrow x = x ∧ narrow y = y
  | _ => True

/-- The coordinates of what the user has drawn are 32-bit numbers. -/
def Client.Narrow (narrow : α → α) (own : S) (client : Client S α) : Prop :=
  ∀ strokeId stroke, client.strokes own strokeId = some stroke →
    stroke.points.map narrow = stroke.points

namespace Client.Narrow

variable {narrow : α → α} {own : S} {client client' : Client S α}

theorem congr (h : client.Narrow narrow own)
    (hstrokes : client'.strokes own = client.strokes own) : client'.Narrow narrow own := by
  unfold Narrow
  rw [hstrokes]
  exact h

theorem of_gone (hgone : client.strokes own = fun _ => none) : client.Narrow narrow own := by
  intro strokeId stroke hstroke
  rw [hgone] at hstroke
  exact nomatch hstroke

theorem flushPending (h : client.Narrow narrow own) (isEnd : Bool) :
    (client.flushPending own narrow isEnd).1.Narrow narrow own := by
  rcases Own.flushPending_cases narrow client own isEnd with
    ⟨hsame, -⟩ | ⟨strokeId, stroke, -, -, hflush⟩
  · rw [hsame]
    exact h
  · rw [hflush]
    exact h

variable [DecidableEq S]

theorem set (h : client.Narrow narrow own) (strokeId : ℕ) {stroke : RemoteStroke α}
    (hstroke : stroke.points.map narrow = stroke.points)
    (hstrokes : client'.strokes = client.strokes.set own strokeId stroke) :
    client'.Narrow narrow own := by
  intro other stroke' hother
  rw [hstrokes] at hother
  by_cases hne : other = strokeId
  · subst hne
    simp only [StrokeMap.set, Function.update_self, Option.some.injEq] at hother
    rw [← hother, hstroke]
  · simp only [StrokeMap.set, Function.update_self, Function.update_of_ne hne] at hother
    exact h other stroke' hother

theorem pushPoint (h : client.Narrow narrow own) {x y : α} (hx : narrow x = x)
    (hy : narrow y = y) : (client.pushPoint own x y).Narrow narrow own := by
  unfold Client.pushPoint
  split
  next strokeId stroke hid hcurrent =>
    have hstroke : client.strokes own strokeId = some stroke := by
      simpa [Client.currentStroke, hid] using hcurrent
    have hpoints : (stroke.points ++ [x, y]).map narrow = stroke.points ++ [x, y] := by
      simp [h strokeId stroke hstroke, hx, hy]
    exact h.set strokeId hpoints rfl
  next => exact h

theorem receive (h : client.Narrow narrow own) {t : S} (hne : own ≠ t)
    (message : DrawStroke α) : (client.applyStrokeEvent t message).Narrow narrow own := by
  rcases client.applyStrokeEvent_cases t message with hsame | hclear | ⟨theirs, htheirs⟩
  · rw [hsame]
    exact h
  · rw [hclear]
    exact of_gone rfl
  · rw [htheirs]
    exact h.congr (Function.update_of_ne hne ..)

end Client.Narrow

namespace Channel

variable [DecidableEq S] {narrow : α → α} {channel : Channel S α}

theorem sound_run [Zero α] (pen : Pen α) (former : S → S → Bool) {events : List (Event S α)}
    (h : Along (step narrow) Careful (start pen former) events) :
    Sound narrow (run (step narrow) (start pen former) events) := by
  have hstep : ∀ (channel : Channel S α) event, Sound narrow channel → channel.Careful event →
      Sound narrow (channel.step narrow event) :=
    fun channel event hsound hcareful => hsound.step event hcareful
  exact invariant_run hstep (start_sound narrow pen former) h

end Channel

end FancyMumble.Interface.Drawing
