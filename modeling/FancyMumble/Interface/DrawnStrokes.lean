import FancyMumble.Interface.Drawing
import Mathlib.Data.List.Induction

/-!
# Strokes and the packets that carry them

What a client holds of another user is the replay of what it has received of that user, apart
from what came before a clear-all. A user who draws holds the same and what is not sent yet.
-/

namespace FancyMumble.Interface.Drawing

variable {S α : Type}

/-! ## Replay -/

def clearAlls (log : List (Packet S α)) : ℕ :=
  log.countP fun packet => packet.message.isClear && packet.message.clearAll

section

open Classical

/-- What a packet does to the strokes of its sender, for someone who has seen everything
cleared as often as `version` says. -/
noncomputable def replayPacket (version : S → ℕ) (strokes : ℕ → Option (RemoteStroke α))
    (packet : Packet S α) : ℕ → Option (RemoteStroke α) :=
  if packet.message.isClear then fun _ => none
  else if packet.stamp = version then
    Function.update strokes packet.message.strokeId (some {
      pen := packet.message.pen
      points :=
        match strokes packet.message.strokeId with
        | some existing => existing.points ++ packet.message.points
        | none => packet.message.points })
  else strokes

end

noncomputable def replay (version : S → ℕ) (log : List (Packet S α)) :
    ℕ → Option (RemoteStroke α) :=
  log.foldl (replayPacket version) fun _ => none

theorem replay_concat (version : S → ℕ) (log : List (Packet S α)) (packet : Packet S α) :
    replay version (log ++ [packet]) = replayPacket version (replay version log) packet := by
  simp [replay]

theorem clearAlls_concat (log : List (Packet S α)) (packet : Packet S α) :
    clearAlls (log ++ [packet]) =
      clearAlls log + if packet.message.isClear && packet.message.clearAll then 1 else 0 := by
  simp [clearAlls, List.countP_append, List.countP_singleton]

theorem replayPacket_clear (version : S → ℕ) (strokes : ℕ → Option (RemoteStroke α))
    {packet : Packet S α} (h : packet.message.isClear = true) :
    replayPacket version strokes packet = fun _ => none := by
  simp [replayPacket, h]

theorem replayPacket_stroke (version : S → ℕ) (strokes : ℕ → Option (RemoteStroke α))
    {message : DrawStroke α} (h : message.isClear = false) :
    replayPacket version strokes ⟨message, version⟩ =
      Function.update strokes message.strokeId (some {
        pen := message.pen
        points :=
          match strokes message.strokeId with
          | some existing => existing.points ++ message.points
          | none => message.points }) := by
  simp [replayPacket, h]

theorem replay_of_older {version : S → ℕ} {log : List (Packet S α)}
    (h : ∀ packet ∈ log, packet.message.isClear = false → packet.stamp ≠ version) :
    replay version log = fun _ => none := by
  induction log using List.reverseRecOn with
  | nil => rfl
  | append_singleton log packet ih =>
      rw [replay_concat, ih fun p hp => h p (List.mem_append_left _ hp)]
      cases hclear : packet.message.isClear with
      | true => exact replayPacket_clear _ _ hclear
      | false => simp [replayPacket, hclear, h packet (by simp) hclear]

theorem replay_of_fresh (version : S → ℕ) {log : List (Packet S α)} {strokeId : ℕ}
    (h : ∀ packet ∈ log, packet.message.strokeId ≠ strokeId) :
    replay version log strokeId = none := by
  induction log using List.reverseRecOn with
  | nil => rfl
  | append_singleton log packet ih =>
      have hold := ih fun p hp => h p (List.mem_append_left _ hp)
      have hid : strokeId ≠ packet.message.strokeId := (h packet (by simp)).symm
      rw [replay_concat]
      unfold replayPacket
      split
      · rfl
      · split
        · rw [Function.update_of_ne hid, hold]
        · exact hold

@[simp] theorem StrokeMap.clear_of (s : S) : (StrokeMap.clear : StrokeMap S α) s = fun _ => none :=
  rfl

theorem Client.applyStrokeEvent_cases [DecidableEq S] (client : Client S α) (t : S)
    (message : DrawStroke α) :
    client.applyStrokeEvent t message = client ∨
      client.applyStrokeEvent t message = client.clearEverything t ∨
      ∃ theirs, client.applyStrokeEvent t message =
        { client with strokes := Function.update client.strokes t theirs } := by
  unfold applyStrokeEvent
  split
  · exact .inl rfl
  · split
    · split
      · exact .inr (.inl rfl)
      · exact .inr (.inr ⟨_, rfl⟩)
    · exact .inr (.inr ⟨_, rfl⟩)

/-! ## What a client holds of another user -/

structure Heard (s : S) (client : Client S α) (seen : List (Packet S α)) : Prop where
  stamps : ∀ packet ∈ seen, packet.message.isClear = false → packet.stamp ≤ client.cleared
  clears : client.cleared s = clearAlls seen
  strokes : client.strokes s = replay client.cleared seen

namespace Heard

variable {s t : S} {client client' : Client S α} {seen : List (Packet S α)}

theorem congr (h : Heard s client seen) (hstrokes : client'.strokes s = client.strokes s)
    (hcleared : client'.cleared = client.cleared) : Heard s client' seen where
  stamps := hcleared ▸ h.stamps
  clears := by rw [hcleared, h.clears]
  strokes := by rw [hstrokes, hcleared, h.strokes]

variable [DecidableEq S]

theorem lt_cleared (client : Client S α) (t : S) :
    client.cleared < (client.clearEverything t).cleared := by
  refine Pi.lt_def.mpr ⟨fun u => ?_, t, ?_⟩
  · by_cases hu : u = t
    · subst hu
      simp [Client.clearEverything]
    · simp [Client.clearEverything, hu]
  · simp [Client.clearEverything]

theorem replay_clearEverything
    (h : ∀ packet ∈ seen, packet.message.isClear = false → packet.stamp ≤ client.cleared) :
    replay (client.clearEverything t).cleared seen = fun _ => none :=
  replay_of_older fun packet hpacket hclear =>
    (lt_of_le_of_lt (h packet hpacket hclear) (lt_cleared client t)).ne

theorem clearEverything (h : Heard s client seen) (hne : s ≠ t) :
    Heard s (client.clearEverything t) seen where
  stamps packet hpacket hclear :=
    (h.stamps packet hpacket hclear).trans (lt_cleared client t).le
  clears := by simp [Client.clearEverything, hne, h.clears]
  strokes := by
    rw [replay_clearEverything h.stamps]
    rfl

theorem receive (h : Heard s client seen) {packet : Packet S α}
    (hown : client.ownSessions s = false)
    (hstamp : packet.message.isClear = false → packet.stamp = client.cleared) :
    Heard s (client.applyStrokeEvent s packet.message) (seen ++ [packet]) := by
  cases hclear : packet.message.isClear with
  | true =>
      have hstamps : ∀ p ∈ seen ++ [packet], p.message.isClear = false →
          p.stamp ≤ client.cleared := by
        intro p hp hstroke
        rcases List.mem_append.mp hp with hp | hp
        · exact h.stamps p hp hstroke
        · rw [List.mem_singleton.mp hp, hclear] at hstroke
          exact absurd hstroke (by simp)
      cases hall : packet.message.clearAll with
      | true =>
          have happly : client.applyStrokeEvent s packet.message = client.clearEverything s := by
            simp [Client.applyStrokeEvent, hown, hclear, hall]
          rw [happly]
          exact {
            stamps := fun p hp hstroke =>
              (hstamps p hp hstroke).trans (lt_cleared client s).le
            clears := by
              rw [clearAlls_concat, ← h.clears]
              simp [Client.clearEverything, hclear, hall]
            strokes := by
              rw [replay_concat, replayPacket_clear _ _ hclear]
              rfl }
      | false =>
          have happly : client.applyStrokeEvent s packet.message =
              { client with strokes := client.strokes.deleteOf s } := by
            simp [Client.applyStrokeEvent, hown, hclear, hall]
          rw [happly]
          exact {
            stamps := hstamps
            clears := by simp [clearAlls_concat, hall, h.clears]
            strokes := by simp [replay_concat, replayPacket_clear _ _ hclear, StrokeMap.deleteOf] }
  | false =>
      obtain ⟨message, stamp⟩ := packet
      obtain rfl : stamp = client.cleared := hstamp hclear
      have hclear : message.isClear = false := hclear
      have hcleared : (client.applyStrokeEvent s message).cleared = client.cleared := by
        simp [Client.applyStrokeEvent, hown, hclear]
      exact {
        stamps := by
          intro p hp hstroke
          rw [hcleared]
          rcases List.mem_append.mp hp with hp | hp
          · exact h.stamps p hp hstroke
          · rw [List.mem_singleton.mp hp]
        clears := by simp [hcleared, clearAlls_concat, hclear, h.clears]
        strokes := by
          rw [hcleared, replay_concat, replayPacket_stroke _ _ hclear, ← h.strokes]
          cases hold : client.strokes s message.strokeId with
          | none => simp [Client.applyStrokeEvent, hown, hclear, StrokeMap.set, hold]
          | some existing => simp [Client.applyStrokeEvent, hown, hclear, StrokeMap.set, hold] }

theorem receive_of_ne (h : Heard s client seen) (hne : s ≠ t) (message : DrawStroke α) :
    Heard s (client.applyStrokeEvent t message) seen := by
  rcases client.applyStrokeEvent_cases t message with hsame | hclear | ⟨theirs, htheirs⟩
  · rw [hsame]
    exact h
  · rw [hclear]
    exact h.clearEverything hne
  · rw [htheirs]
    exact h.congr (Function.update_of_ne hne ..) rfl

end Heard

/-! ## What a user has drawn -/

def Client.sentOf (client : Client S α) (own : S) (strokeId : ℕ) : Option (List α) :=
  (client.strokes own strokeId).bind fun stroke =>
    if client.currentStrokeId = some strokeId then
      if client.sentCoordCount = 0 then none else some (stroke.points.take client.sentCoordCount)
    else some stroke.points

structure Own (narrow : α → α) (own : S) (client : Client S α) (log : List (Packet S α)) :
    Prop where
  isOwn : client.ownSessions own = true
  nonempty : ∀ strokeId stroke, client.strokes own strokeId = some stroke → stroke.points ≠ []
  sent_le : ∀ stroke, client.currentStroke own = some stroke →
    client.sentCoordCount ≤ stroke.points.length
  current_lt : ∀ strokeId, client.currentStrokeId = some strokeId → strokeId < client.uuids
  log_lt : ∀ packet ∈ log, packet.message.strokeId < client.uuids
  stamps : ∀ packet ∈ log, packet.message.isClear = false → packet.stamp ≤ client.cleared
  clears : client.cleared own = clearAlls log
  drawn : ∀ strokeId, (replay client.cleared log strokeId).map RemoteStroke.points =
    (client.sentOf own strokeId).map (List.map narrow)

def Client.Flushing (client : Client S α) (own : S) : Prop :=
  client.flushTimer = false → (client.isPointerDown && client.drawingActive) = false →
    client.unsentTail own = []

theorem Client.unsentTail_of_current {client : Client S α} {own : S} {strokeId : ℕ}
    {stroke : RemoteStroke α} (hid : client.currentStrokeId = some strokeId)
    (hstroke : client.strokes own strokeId = some stroke) :
    client.unsentTail own = stroke.points.drop client.sentCoordCount := by
  simp [unsentTail, currentStroke, hid, hstroke]

theorem Client.unsentTail_of_gone {client : Client S α} {own : S}
    (h : client.currentStroke own = none) : client.unsentTail own = [] := by
  simp [unsentTail, h]

theorem Client.unsentTail_congr {client client' : Client S α} {own : S}
    (hstrokes : client'.strokes own = client.strokes own)
    (hid : client'.currentStrokeId = client.currentStrokeId)
    (hsent : client'.sentCoordCount = client.sentCoordCount) :
    client'.unsentTail own = client.unsentTail own := by
  unfold unsentTail currentStroke
  rw [hstrokes, hid, hsent]

theorem Client.Flushing.receive [DecidableEq S] {client : Client S α} {own t : S}
    (h : client.Flushing own) (hne : own ≠ t) (message : DrawStroke α) :
    (client.applyStrokeEvent t message).Flushing own := by
  rcases client.applyStrokeEvent_cases t message with hsame | hclear | ⟨theirs, htheirs⟩
  · rw [hsame]
    exact h
  · rw [hclear]
    intro _ _
    apply Client.unsentTail_of_gone
    exact Option.bind_eq_none_iff.mpr fun _ _ => rfl
  · rw [htheirs]
    intro htimer hdown
    rw [← h htimer hdown]
    exact Client.unsentTail_congr (Function.update_of_ne hne ..) rfl rfl

namespace Own

variable {narrow : α → α} {own : S} {client client' : Client S α} {log : List (Packet S α)}

theorem sentOf_of_flushed (h : Own narrow own client log) (hflushed : client.unsentTail own = [])
    (strokeId : ℕ) :
    client.sentOf own strokeId = (client.strokes own strokeId).map RemoteStroke.points := by
  cases hstroke : client.strokes own strokeId with
  | none => simp [Client.sentOf, hstroke]
  | some stroke =>
      by_cases hid : client.currentStrokeId = some strokeId
      · rw [Client.unsentTail_of_current hid hstroke, List.drop_eq_nil_iff] at hflushed
        have hpos : client.sentCoordCount ≠ 0 := by
          intro hzero
          rw [hzero, Nat.le_zero, List.length_eq_zero_iff] at hflushed
          exact h.nonempty strokeId stroke hstroke hflushed
        simp [Client.sentOf, hstroke, hid, hpos, List.take_of_length_le hflushed]
      · simp [Client.sentOf, hstroke, hid]

theorem frame (h : Own narrow own client log) (hown : client'.ownSessions = client.ownSessions)
    (hstrokes : client'.strokes own = client.strokes own)
    (hid : client'.currentStrokeId = client.currentStrokeId)
    (hsent : client'.sentCoordCount = client.sentCoordCount)
    (huuids : client'.uuids = client.uuids) (hcleared : client'.cleared = client.cleared) :
    Own narrow own client' log where
  isOwn := by rw [hown, h.isOwn]
  nonempty := by rw [hstrokes]; exact h.nonempty
  sent_le := by
    unfold Client.currentStroke
    rw [hid, hstrokes, hsent]
    exact h.sent_le
  current_lt := by rw [hid, huuids]; exact h.current_lt
  log_lt := by rw [huuids]; exact h.log_lt
  stamps := by rw [hcleared]; exact h.stamps
  clears := by rw [hcleared, h.clears]
  drawn strokeId := by
    unfold Client.sentOf
    rw [hcleared, hstrokes, hid, hsent]
    exact h.drawn strokeId

theorem unmount (h : Own narrow own client log) (hflushed : client.unsentTail own = []) :
    Own narrow own client.unmount log where
  isOwn := h.isOwn
  nonempty := h.nonempty
  sent_le stroke hstroke := nomatch hstroke
  current_lt strokeId hid := nomatch hid
  log_lt := h.log_lt
  stamps := h.stamps
  clears := h.clears
  drawn strokeId := by
    have hsent : client.unmount.sentOf own strokeId = client.sentOf own strokeId := by
      rw [h.sentOf_of_flushed hflushed]
      cases hstroke : client.strokes own strokeId with
      | none => simp [Client.sentOf, Client.unmount, hstroke]
      | some stroke => simp [Client.sentOf, Client.unmount, hstroke]
    rw [hsent]
    exact h.drawn strokeId

theorem of_gone (hown : client.ownSessions own = true)
    (hgone : client.strokes own = fun _ => none)
    (hcurrent : ∀ strokeId, client.currentStrokeId = some strokeId → strokeId < client.uuids)
    (hlog : ∀ packet ∈ log, packet.message.strokeId < client.uuids)
    (hstamps : ∀ packet ∈ log, packet.message.isClear = false → packet.stamp ≤ client.cleared)
    (hclears : client.cleared own = clearAlls log)
    (hreplay : replay client.cleared log = fun _ => none) : Own narrow own client log where
  isOwn := hown
  nonempty strokeId stroke hstroke := by
    rw [hgone] at hstroke
    exact nomatch hstroke
  sent_le stroke hstroke := by
    obtain ⟨strokeId, -, hnone⟩ := Option.bind_eq_some_iff.mp hstroke
    rw [hgone] at hnone
    exact nomatch hnone
  current_lt := hcurrent
  log_lt := hlog
  stamps := hstamps
  clears := hclears
  drawn strokeId := by simp [hreplay, Client.sentOf, hgone]

/-- Either nothing is sent, or the rest of the current stroke. -/
theorem flushPending_cases (narrow : α → α) (client : Client S α) (own : S) (isEnd : Bool) :
    client.flushPending own narrow isEnd = (client, []) ∧ client.unsentTail own = [] ∨
    ∃ strokeId stroke, client.currentStrokeId = some strokeId ∧
      client.strokes own strokeId = some stroke ∧
      client.flushPending own narrow isEnd =
        ({ client with sentCoordCount := stroke.points.length }, [{
          strokeId := strokeId
          pen := client.pen
          points := (stroke.points.drop client.sentCoordCount).map narrow
          isEnd := isEnd
          isClear := false
          clearAll := false }]) := by
  cases hid : client.currentStrokeId with
  | none =>
      left
      constructor
      · simp [Client.flushPending, hid]
      · exact Client.unsentTail_of_gone (by simp [Client.currentStroke, hid])
  | some strokeId =>
      cases hstroke : client.strokes own strokeId with
      | none =>
          left
          constructor
          · simp [Client.flushPending, Client.currentStroke, hid, hstroke]
          · exact Client.unsentTail_of_gone (by simp [Client.currentStroke, hid, hstroke])
      | some stroke =>
          by_cases hsend : stroke.points.length ≤ client.sentCoordCount ∧ isEnd = false
          · left
            constructor
            · simp [Client.flushPending, Client.currentStroke, hid, hstroke, hsend.1, hsend.2]
            · rw [Client.unsentTail_of_current hid hstroke]
              exact List.drop_eq_nil_of_le hsend.1
          · right
            refine ⟨strokeId, stroke, rfl, hstroke, ?_⟩
            rw [not_and_or, Bool.not_eq_false] at hsend
            rcases hsend with hmore | hend
            · simp [Client.flushPending, Client.currentStroke, hid, hstroke, hmore]
            · simp [Client.flushPending, Client.currentStroke, hid, hstroke, hend]

theorem unsentTail_flushPending (client : Client S α) (own : S) (isEnd : Bool) :
    (client.flushPending own narrow isEnd).1.unsentTail own = [] := by
  rcases flushPending_cases narrow client own isEnd with
    ⟨hsame, hflushed⟩ | ⟨strokeId, stroke, hid, hstroke, hflush⟩
  · rw [hsame]
    exact hflushed
  · rw [hflush]
    simp [Client.unsentTail, Client.currentStroke, hid, hstroke]

theorem flush (h : Own narrow own client log) (isEnd : Bool) :
    Own narrow own (client.flushPending own narrow isEnd).1
      (log ++ (client.flushPending own narrow isEnd).2.map fun message =>
        ⟨message, (client.flushPending own narrow isEnd).1.cleared⟩) := by
  rcases flushPending_cases narrow client own isEnd with
    ⟨hsame, -⟩ | ⟨strokeId, stroke, hid, hstroke, hflush⟩
  · rw [hsame]
    simpa using h
  · have hpos : stroke.points.length ≠ 0 := by
      simpa using h.nonempty strokeId stroke hstroke
    rw [hflush]
    exact {
      isOwn := h.isOwn
      nonempty := h.nonempty
      sent_le := by
        intro stroke' hstroke'
        obtain rfl : stroke = stroke' := by
          simpa [Client.currentStroke, hid, hstroke] using hstroke'
        exact le_rfl
      current_lt := h.current_lt
      log_lt := by
        intro packet hpacket
        rcases List.mem_append.mp hpacket with hpacket | hpacket
        · exact h.log_lt packet hpacket
        · obtain rfl := List.mem_singleton.mp hpacket
          exact h.current_lt strokeId hid
      stamps := by
        intro packet hpacket hclear
        rcases List.mem_append.mp hpacket with hpacket | hpacket
        · exact h.stamps packet hpacket hclear
        · obtain rfl := List.mem_singleton.mp hpacket
          exact le_rfl
      clears := by simp [clearAlls_concat, h.clears]
      drawn := by
        intro other
        have hold := h.drawn other
        simp only [List.map_cons, List.map_nil]
        rw [replay_concat, replayPacket_stroke _ _ rfl]
        by_cases hne : other = strokeId
        · subst hne
          -- What was sent before and the rest of the stroke make up the stroke.
          have hsent : Client.sentOf { client with sentCoordCount := stroke.points.length }
              own other = some stroke.points := by
            simp [Client.sentOf, hid, hstroke, hpos]
          rw [hsent, Function.update_self]
          by_cases hzero : client.sentCoordCount = 0
          · have hnone : replay client.cleared log other = none := by
              simpa [Client.sentOf, hid, hstroke, hzero] using hold
            simp [hnone, hzero]
          · obtain ⟨earlier, hearlier, hpoints⟩ : ∃ earlier,
                replay client.cleared log other = some earlier ∧
                  earlier.points = (stroke.points.take client.sentCoordCount).map narrow := by
              simpa [Client.sentOf, hid, hstroke, hzero] using hold
            simp [hearlier, hpoints]
        · rw [Function.update_of_ne hne, hold]
          simp [Client.sentOf, hid, Ne.symm hne] }

variable [DecidableEq S]

theorem startStroke (h : Own narrow own client log) (hflushed : client.unsentTail own = [])
    (x y : α) :
    Own narrow own { client with
      isPointerDown := true
      currentStrokeId := some client.uuids
      uuids := client.uuids + 1
      sentCoordCount := 0
      flushTimer := true
      strokes := client.strokes.set own client.uuids ⟨client.pen, [x, y]⟩ } log where
  isOwn := h.isOwn
  nonempty strokeId stroke hstroke := by
    by_cases hid : strokeId = client.uuids
    · subst hid
      simp only [StrokeMap.set, Function.update_self, Option.some.injEq] at hstroke
      simp [← hstroke]
    · simp only [StrokeMap.set, Function.update_self, Function.update_of_ne hid] at hstroke
      exact h.nonempty strokeId stroke hstroke
  sent_le stroke _ := Nat.zero_le _
  current_lt strokeId hid := by
    cases hid
    exact Nat.lt_succ_self _
  log_lt packet hpacket := Nat.lt_succ_of_lt (h.log_lt packet hpacket)
  stamps := h.stamps
  clears := h.clears
  drawn strokeId := by
    by_cases hid : strokeId = client.uuids
    · subst hid
      rw [replay_of_fresh _ fun packet hpacket => (h.log_lt packet hpacket).ne]
      simp [Client.sentOf, StrokeMap.set]
    · rw [h.drawn, h.sentOf_of_flushed hflushed]
      simp only [Client.sentOf, StrokeMap.set, Function.update_self, Function.update_of_ne hid,
        Option.some.injEq, if_neg (Ne.symm hid)]
      cases client.strokes own strokeId with
      | none => rfl
      | some stroke => rfl

theorem pushPoint (h : Own narrow own client log) (x y : α) :
    Own narrow own (client.pushPoint own x y) log := by
  cases hid : client.currentStrokeId with
  | none =>
      have hsame : client.pushPoint own x y = client := by simp [Client.pushPoint, hid]
      rw [hsame]
      exact h
  | some strokeId =>
      cases hstroke : client.strokes own strokeId with
      | none =>
          have hsame : client.pushPoint own x y = client := by
            simp [Client.pushPoint, Client.currentStroke, hid, hstroke]
          rw [hsame]
          exact h
      | some stroke =>
          have hpush : client.pushPoint own x y = { client with
              strokes := client.strokes.set own strokeId
                { stroke with points := stroke.points ++ [x, y] } } := by
            simp [Client.pushPoint, Client.currentStroke, hid, hstroke]
          have hle := h.sent_le stroke (by simp [Client.currentStroke, hid, hstroke])
          rw [hpush]
          exact {
            isOwn := h.isOwn
            nonempty := by
              intro other stroke' hother
              by_cases hne : other = strokeId
              · subst hne
                simp only [StrokeMap.set, Function.update_self, Option.some.injEq] at hother
                simp [← hother]
              · simp only [StrokeMap.set, Function.update_self,
                  Function.update_of_ne hne] at hother
                exact h.nonempty other stroke' hother
            sent_le := by
              intro stroke' hstroke'
              simp only [Client.currentStroke, hid, Option.bind_some, StrokeMap.set,
                Function.update_self, Option.some.injEq] at hstroke'
              rw [← hstroke']
              exact hle.trans (by simp)
            current_lt := h.current_lt
            log_lt := h.log_lt
            stamps := h.stamps
            clears := h.clears
            drawn := by
              intro other
              rw [h.drawn]
              by_cases hne : other = strokeId
              · subst hne
                simp [Client.sentOf, StrokeMap.set, hid, hstroke, List.take_append_of_le_length hle]
              · simp [Client.sentOf, StrokeMap.set, hne] }

theorem clear [Zero α] (h : Own narrow own client log) :
    Own narrow own (client.handleClear own).1
      (log ++ (client.handleClear own).2.map fun message =>
        ⟨message, (client.handleClear own).1.cleared⟩) := by
  have hlog : ∀ message : DrawStroke α, ∀ stamp, message.strokeId = client.uuids →
      ∀ packet ∈ log ++ [⟨message, stamp⟩], packet.message.strokeId < client.uuids + 1 := by
    intro message stamp hid packet hpacket
    rcases List.mem_append.mp hpacket with hpacket | hpacket
    · exact Nat.lt_succ_of_lt (h.log_lt packet hpacket)
    · rw [List.mem_singleton.mp hpacket, hid]
      exact Nat.lt_succ_self _
  have hstamps : ∀ message : DrawStroke α, ∀ stamp, message.isClear = true →
      ∀ packet ∈ log ++ [⟨message, stamp⟩], packet.message.isClear = false →
        packet.stamp ≤ client.cleared := by
    intro message stamp hclear packet hpacket hstroke
    rcases List.mem_append.mp hpacket with hpacket | hpacket
    · exact h.stamps packet hpacket hstroke
    · rw [List.mem_singleton.mp hpacket, hclear] at hstroke
      exact absurd hstroke (by simp)
  cases hbroadcaster : client.isOwnBroadcaster with
  | true =>
      simp only [Client.handleClear, hbroadcaster, if_true, List.map_cons, List.map_nil]
      apply of_gone
      · exact h.isOwn
      · rfl
      · exact fun strokeId hid => Nat.lt_succ_of_lt (h.current_lt strokeId hid)
      · exact hlog _ _ rfl
      · exact fun packet hpacket hstroke =>
          (hstamps _ _ rfl packet hpacket hstroke).trans (Heard.lt_cleared client own).le
      · rw [clearAlls_concat, ← h.clears]
        simp [Client.clearEverything]
      · rw [replay_concat, replayPacket_clear _ _ rfl]
  | false =>
      simp only [Client.handleClear, hbroadcaster, Bool.false_eq_true, if_false, List.map_cons,
        List.map_nil]
      apply of_gone
      · exact h.isOwn
      · simp [StrokeMap.deleteOf]
      · exact fun strokeId hid => Nat.lt_succ_of_lt (h.current_lt strokeId hid)
      · exact hlog _ _ rfl
      · exact hstamps _ _ rfl
      · simp [clearAlls_concat, h.clears]
      · rw [replay_concat, replayPacket_clear _ _ rfl]

theorem receive (h : Own narrow own client log) {t : S} (hne : own ≠ t)
    (message : DrawStroke α) : Own narrow own (client.applyStrokeEvent t message) log := by
  rcases client.applyStrokeEvent_cases t message with hsame | hclear | ⟨theirs, htheirs⟩
  · rw [hsame]
    exact h
  · rw [hclear]
    apply of_gone
    · exact h.isOwn
    · rfl
    · exact h.current_lt
    · exact h.log_lt
    · exact fun packet hpacket hstroke =>
        (h.stamps packet hpacket hstroke).trans (Heard.lt_cleared client t).le
    · simp [Client.clearEverything, hne, h.clears]
    · exact Heard.replay_clearEverything h.stamps
  · rw [htheirs]
    exact h.frame rfl (Function.update_of_ne hne ..) rfl rfl rfl rfl

end Own

end FancyMumble.Interface.Drawing
