import FancyMumble.Lib.Runs
import FancyMumble.Messages.Text

/-!
# Edits of plain messages

A received message that names another one by its edit id changes the body of that one.
The first row with the id is changed, in the thread of the actor or in the first listed
channel that has one; nothing asks who wrote it.
-/

namespace FancyMumble.Messages

open Lib.Runs

inductive Thread where
  | channel (channelId : UInt32)
  | direct (session : UInt32)
deriving DecidableEq

structure TextStore where
  byChannel : UInt32 → List TextRow := fun _ => []
  byDm : UInt32 → List TextRow := fun _ => []

def TextStore.thread (store : TextStore) : Thread → List TextRow
  | .channel channelId => store.byChannel channelId
  | .direct session => store.byDm session

/-! ## Handling -/

def TextRow.edit (newBody : String) (editedAt : UInt64) (row : TextRow) : TextRow :=
  { row with body := newBody, editedAt := some editedAt }

def applyEdit (messages : List TextRow) (editId newBody : String) (editedAt : UInt64) :
    List TextRow × Bool :=
  match messages.findIdx? fun m => m.messageId = some editId with
  | some pos => (messages.modify pos (TextRow.edit newBody editedAt), true)
  | none => (messages, false)

def applyEditInChannels (editId newBody : String) (editedAt : UInt64) :
    List UInt32 → (UInt32 → List TextRow) → (UInt32 → List TextRow) × Bool
  | [], byChannel => (byChannel, false)
  | channelId :: rest, byChannel =>
      match applyEdit (byChannel channelId) editId newBody editedAt with
      | (msgs, true) => (Function.update byChannel channelId msgs, true)
      | (_, false) => applyEditInChannels editId newBody editedAt rest byChannel

def tryApplyEdit (tm : TextMessage) (kind : MessageKind) (editId : String) (now : UInt64)
    (store : TextStore) : TextStore × Bool :=
  let editedAt := tm.timestamp.getD now
  match kind with
  | .directMessage =>
      match tm.actor with
      | none => (store, false)
      | some sid =>
          let (msgs, found) := applyEdit (store.byDm sid) editId tm.message editedAt
          ({ store with byDm := Function.update store.byDm sid msgs }, found)
  | .channel =>
      let (byChannel, found) :=
        applyEditInChannels editId tm.message editedAt (targetChannels tm) store.byChannel
      ({ store with byChannel }, found)

/-- A received text message, with what the handler reads besides. -/
structure TextEvent where
  message : TextMessage
  directory : Directory := {}
  now : UInt64 := 0
  freshId : ℕ → String := fun _ => ""

def handleTextMessage (store : TextStore) (event : TextEvent) : TextStore :=
  let tm := event.message
  -- own messages were stored when they were sent
  if tm.actor = event.directory.ownSession ∧ tm.actor.isSome ∧ tm.editId.isNone then store
  else
    match tm.editId with
    | some editId => (tryApplyEdit tm (classify tm) editId event.now store).1
    | none =>
        match classify tm with
        | .directMessage =>
            match directMessageRow event.directory (event.freshId 0) tm with
            | none => store
            | some (session, row) =>
                { store with
                  byDm := Function.update store.byDm session (store.byDm session ++ [row]) }
        | .channel =>
            { store with
              byChannel := (channelMessageRows event.directory event.freshId tm).foldl
                (fun byChannel target => Function.update byChannel target.1
                  (pushCapped (byChannel target.1) target.2))
                store.byChannel }

/-! ## Which row an edit changes -/

def searchedThreads (tm : TextMessage) : List Thread :=
  match classify tm with
  | .directMessage => (tm.actor.map Thread.direct).toList
  | .channel => (targetChannels tm).map Thread.channel

def editTarget (store : TextStore) (editId : String) (threads : List Thread) :
    Option (Thread × ℕ) :=
  threads.findSome? fun t =>
    ((store.thread t).findIdx? fun m => m.messageId = some editId).map (t, ·)

def editedThread (store : TextStore) (newBody : String) (editedAt : UInt64)
    (target : Option (Thread × ℕ)) (t : Thread) : List TextRow :=
  match target with
  | some (found, pos) =>
      if t = found then (store.thread t).modify pos (TextRow.edit newBody editedAt)
      else store.thread t
  | none => store.thread t

theorem length_editedThread (store : TextStore) (newBody : String) (editedAt : UInt64)
    (target : Option (Thread × ℕ)) (t : Thread) :
    (editedThread store newBody editedAt target t).length = (store.thread t).length := by
  unfold editedThread
  split
  next found pos =>
    split
    next => exact List.length_modify ..
    next => rfl
  next => rfl

theorem getElem?_editedThread (store : TextStore) (newBody : String) (editedAt : UInt64)
    (target : Option (Thread × ℕ)) (t : Thread) (pos : ℕ) :
    (editedThread store newBody editedAt target t)[pos]? =
      if target = some (t, pos) then ((store.thread t)[pos]?).map (TextRow.edit newBody editedAt)
      else (store.thread t)[pos]? := by
  unfold editedThread
  cases target with
  | none => rw [if_neg nofun]
  | some target =>
      obtain ⟨found, place⟩ := target
      dsimp only
      by_cases hfound : t = found
      · subst hfound
        rw [if_pos rfl]
        by_cases hplace : place = pos
        · subst hplace
          rw [if_pos rfl, List.getElem?_modify_eq]
          rfl
        · rw [if_neg fun heq => hplace (Prod.mk.inj (Option.some.inj heq)).2,
            List.getElem?_modify_ne _ _ hplace]
      · rw [if_neg hfound,
          if_neg fun heq => hfound (Prod.mk.inj (Option.some.inj heq)).1.symm]

section Found

variable {messages : List TextRow} {editId newBody : String} {editedAt : UInt64}

theorem applyEdit_of_some {pos : ℕ}
    (h : messages.findIdx? (fun m => m.messageId = some editId) = some pos) :
    applyEdit messages editId newBody editedAt =
      (messages.modify pos (TextRow.edit newBody editedAt), true) := by
  unfold applyEdit
  rw [h]

theorem applyEdit_of_none
    (h : messages.findIdx? (fun m => m.messageId = some editId) = none) :
    applyEdit messages editId newBody editedAt = (messages, false) := by
  unfold applyEdit
  rw [h]

end Found

theorem editTarget_cons (store : TextStore) (editId : String) (t : Thread)
    (threads : List Thread) :
    editTarget store editId (t :: threads) =
      match (store.thread t).findIdx? fun m => m.messageId = some editId with
      | some pos => some (t, pos)
      | none => editTarget store editId threads := by
  unfold editTarget
  rw [List.findSome?_cons]
  cases (store.thread t).findIdx? fun m => m.messageId = some editId <;> rfl

theorem thread_update_channel (store : TextStore) (newBody : String) (editedAt : UInt64)
    (channelId : UInt32) (pos : ℕ) (t : Thread) :
    TextStore.thread { store with
        byChannel := Function.update store.byChannel channelId
          ((store.byChannel channelId).modify pos (TextRow.edit newBody editedAt)) } t =
      editedThread store newBody editedAt (some (.channel channelId, pos)) t := by
  cases t with
  | direct session => rfl
  | channel other =>
      by_cases hsame : other = channelId
      · subst hsame
        exact (Function.update_self ..).trans (if_pos rfl).symm
      · exact (Function.update_of_ne hsame ..).trans
          (if_neg fun heq => hsame (Thread.channel.inj heq)).symm

theorem thread_update_direct (store : TextStore) (newBody : String) (editedAt : UInt64)
    (session : UInt32) (pos : ℕ) (t : Thread) :
    TextStore.thread { store with
        byDm := Function.update store.byDm session
          ((store.byDm session).modify pos (TextRow.edit newBody editedAt)) } t =
      editedThread store newBody editedAt (some (.direct session, pos)) t := by
  cases t with
  | channel channelId => rfl
  | direct other =>
      by_cases hsame : other = session
      · subst hsame
        exact (Function.update_self ..).trans (if_pos rfl).symm
      · exact (Function.update_of_ne hsame ..).trans
          (if_neg fun heq => hsame (Thread.direct.inj heq)).symm

theorem thread_applyEditInChannels (store : TextStore) (editId newBody : String)
    (editedAt : UInt64) (channelIds : List UInt32) (t : Thread) :
    TextStore.thread { store with
        byChannel := (applyEditInChannels editId newBody editedAt channelIds store.byChannel).1 }
        t =
      editedThread store newBody editedAt
        (editTarget store editId (channelIds.map Thread.channel)) t := by
  induction channelIds with
  | nil => rfl
  | cons channelId rest ih =>
      rw [List.map_cons, editTarget_cons]
      unfold applyEditInChannels
      cases hpos : (store.byChannel channelId).findIdx? fun m => m.messageId = some editId with
      | none =>
          rw [applyEdit_of_none hpos,
            show (store.thread (.channel channelId)).findIdx? _ = none from hpos]
          exact ih
      | some pos =>
          rw [applyEdit_of_some hpos,
            show (store.thread (.channel channelId)).findIdx? _ = some pos from hpos]
          exact thread_update_channel store newBody editedAt channelId pos t

theorem thread_tryApplyEdit (store : TextStore) (tm : TextMessage) (editId : String)
    (now : UInt64) (t : Thread) :
    (tryApplyEdit tm (classify tm) editId now store).1.thread t =
      editedThread store tm.message (tm.timestamp.getD now)
        (editTarget store editId (searchedThreads tm)) t := by
  unfold tryApplyEdit searchedThreads
  cases classify tm with
  | channel => exact thread_applyEditInChannels store editId tm.message _ (targetChannels tm) t
  | directMessage =>
      cases tm.actor with
      | none => rfl
      | some sid =>
          rw [Option.map_some, Option.toList_some, editTarget_cons]
          dsimp only
          cases hpos : (store.byDm sid).findIdx? fun m => m.messageId = some editId with
          | none =>
              rw [applyEdit_of_none hpos, Function.update_eq_self,
                show (store.thread (.direct sid)).findIdx? _ = none from hpos]
              rfl
          | some pos =>
              rw [applyEdit_of_some hpos,
                show (store.thread (.direct sid)).findIdx? _ = some pos from hpos]
              exact thread_update_direct store tm.message _ sid pos t

/-! ## Whose messages edits change -/

def TextRow.IsCopy (editId : String) (actor : Option UInt32) (row : TextRow) : Prop :=
  row.messageId = some editId ∧ row.senderSession = actor

instance (editId : String) (actor : Option UInt32) (row : TextRow) :
    Decidable (row.IsCopy editId actor) :=
  inferInstanceAs (Decidable (_ ∧ _))

/-- What an edit may do to a row: nothing but its body and the time of its edit changes, the
body changes only in copies of the actor's own message, and in all of them. -/
structure EditsRow (tm : TextMessage) (editId : String) (before after : TextRow) : Prop where
  kept : { after with body := before.body, editedAt := before.editedAt } = before
  onlyOwn : after.body ≠ before.body → before.IsCopy editId tm.actor
  everyCopy : before.IsCopy editId tm.actor → after.body = tm.message

/-- An edit keeps the rows of every thread in their places, and changes the copies of the
actor's own message. -/
def EditsOwn (store : TextStore) (event : TextEvent) : Prop :=
  ∀ editId ∈ event.message.editId, ∀ t : Thread,
    ((handleTextMessage store event).thread t).length = (store.thread t).length ∧
      ∀ (pos : ℕ) (before after : TextRow), (store.thread t)[pos]? = some before →
        ((handleTextMessage store event).thread t)[pos]? = some after →
          EditsRow event.message editId before after

/-- The rows that are copies of the actor's message are the one that the edit finds first. -/
def FindsOnlyCopy (store : TextStore) (event : TextEvent) : Prop :=
  ∀ editId ∈ event.message.editId, ∀ (t : Thread) (pos : ℕ) (row : TextRow),
    (store.thread t)[pos]? = some row →
    (row.IsCopy editId event.message.actor ↔
      editTarget store editId (searchedThreads event.message) = some (t, pos))

theorem thread_handleTextMessage_of_edit {store : TextStore} {event : TextEvent}
    {editId : String} (h : event.message.editId = some editId) (t : Thread) :
    (handleTextMessage store event).thread t =
      editedThread store event.message.message (event.message.timestamp.getD event.now)
        (editTarget store editId (searchedThreads event.message)) t := by
  unfold handleTextMessage
  dsimp only
  rw [h, if_neg fun hown => absurd hown.2.2 (by simp)]
  exact thread_tryApplyEdit store event.message editId event.now t

theorem editsRow_edit {tm : TextMessage} {editId : String} {row : TextRow} (editedAt : UInt64)
    (h : row.IsCopy editId tm.actor) : EditsRow tm editId row (row.edit tm.message editedAt) where
  kept := rfl
  onlyOwn _ := h
  everyCopy _ := rfl

theorem editsRow_self {tm : TextMessage} {editId : String} {row : TextRow}
    (h : ¬row.IsCopy editId tm.actor) : EditsRow tm editId row row where
  kept := rfl
  onlyOwn hne := absurd rfl hne
  everyCopy hcopy := absurd hcopy h

theorem editsOwn_of_findsOnlyCopy {store : TextStore} {event : TextEvent}
    (h : FindsOnlyCopy store event) : EditsOwn store event := by
  intro editId hedit t
  rw [thread_handleTextMessage_of_edit hedit]
  refine ⟨length_editedThread .., fun pos before after hbefore hafter => ?_⟩
  have hfound := h editId hedit t pos before hbefore
  rw [getElem?_editedThread, hbefore] at hafter
  by_cases hcopy : before.IsCopy editId event.message.actor
  · rw [if_pos (hfound.mp hcopy)] at hafter
    cases hafter
    exact editsRow_edit _ hcopy
  · rw [if_neg (mt hfound.mpr hcopy)] at hafter
    cases hafter
    exact editsRow_self hcopy

/-- Edits change the actor's own messages only, and every copy of them, in every run in
which each edit finds the only copy of the message first. -/
theorem editsOwn_run (store : TextStore) (events : List TextEvent)
    (h : Along handleTextMessage FindsOnlyCopy store events) :
    Along handleTextMessage EditsOwn store events :=
  along_mono (fun _ _ => editsOwn_of_findsOnlyCopy) h

section Example

private def helloIn (channelId : UInt32) : TextEvent where
  message :=
    { actor := some 1, channelId := [channelId], message := "hello", messageId := some "id" }

private def editBy (session channelId : UInt32) : TextEvent where
  message :=
    { actor := some session, channelId := [channelId], message := "edited", messageId := some "e",
      editId := some "id" }

private def helloRow (channelId : UInt32) : TextRow where
  senderSession := some 1
  senderName := "Server"
  senderHash := none
  body := "hello"
  channelId := channelId
  messageId := some "id"
  timestamp := none
  decrypted := true

private theorem handle_helloIn :
    handleTextMessage {} (helloIn 1) =
      { byChannel := Function.update (fun _ => []) 1 [helloRow 1] } := rfl

/-- The author edits the only copy. -/
theorem editsOwn_run_example :
    Along handleTextMessage EditsOwn {} [helloIn 1, editBy 1 1] := by
  refine editsOwn_run {} _ ⟨nofun, ?_, trivial⟩
  rw [handle_helloIn]
  rintro editId ⟨⟩ t pos row hrow
  have hplace : t = .channel 1 ∧ pos = 0 ∧ row = helloRow 1 := by
    cases t with
    | direct session => cases hrow
    | channel channelId =>
        by_cases hchannel : channelId = 1
        · subst hchannel
          obtain ⟨hlt, hget⟩ := List.getElem?_eq_some_iff.mp hrow
          have hzero : pos = 0 := Nat.lt_one_iff.mp hlt
          subst hzero
          exact ⟨rfl, rfl, hget.symm⟩
        · simp only [TextStore.thread, Function.update_of_ne hchannel] at hrow
          cases hrow
  obtain ⟨rfl, rfl, rfl⟩ := hplace
  exact iff_of_true ⟨rfl, rfl⟩ rfl

/-- Session 2 edits the message of session 1. -/
theorem foreign_message_edited :
    ¬∀ (store : TextStore) (events : List TextEvent),
      Along handleTextMessage EditsOwn store events := by
  intro h
  have hedits := (h {} [helloIn 1, editBy 2 1]).2.1
  rw [handle_helloIn] at hedits
  have hrow := (hedits "id" rfl (.channel 1)).2 0 (helloRow 1) _ rfl rfl
  exact absurd (hrow.onlyOwn (by decide)).2 (by decide)

end Example

end FancyMumble.Messages
