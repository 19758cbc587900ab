import FancyMumble.Messages.Edits

/-!
# Correspondents

Direct messages, their unread counts and the selected conversation are kept by session, and
servers give the sessions of users who left to others. Beside the state it is recorded whose
everything is.
-/

namespace FancyMumble.Messages.Correspondents

open Lib.Runs Persistent

/-! ## State -/

structure MessageStore extends TextStore where
  dmUnread : UInt32 → Option UInt32 := fun _ => none
  selectedDmUser : Option UInt32 := none

/-- `SharedState`, as far as direct messages depend on it. -/
structure SharedState where
  ownSession : Option UInt32 := none
  ownName : String := ""
  clientHandle : Bool := true
  fancyVersion : Option UInt64 := none
  users : UInt32 → Option UserEntry := fun _ => none
  pchatProtocol : UInt32 → Option PchatProtocol := fun _ => none
  selectedChannel : Option UInt32 := none
  msgs : MessageStore := {}

structure UserState where
  session : Option UInt32
  name : Option String := none
  hash : Option String := none
  /-- Whether the client features have `FEATURE_PCHAT_E2EE`, if there are any. -/
  pchatE2ee : Option Bool := none

structure SendTextMessage where
  userSessions : List UInt32
  message : String
  messageId : Option String
  timestamp : Option UInt64

structure SendInputs where
  messageId : String
  now : UInt64
  rowId : String

def applyUserStateFields (user : UserEntry) (proto : UserState) : UserEntry where
  name := proto.name.getD user.name
  hash := proto.hash <|> user.hash
  hasPchatE2ee := proto.pchatE2ee.getD user.hasPchatE2ee

namespace SharedState

def directory (state : SharedState) : Directory where
  ownSession := state.ownSession
  users := state.users
  pchatProtocol := state.pchatProtocol

def handleUserState (state : SharedState) (msg : UserState) : SharedState :=
  match msg.session with
  | none => state
  | some session =>
      let user := (state.users session).getD { name := "" }
      { state with
        users := Function.update state.users session (some (applyUserStateFields user msg)) }

def clearConnection (state : SharedState) : SharedState :=
  { state with
    ownSession := none
    clientHandle := false
    users := fun _ => none
    pchatProtocol := fun _ => none
    selectedChannel := none
    msgs.byChannel := fun _ => [] }

def handleUserRemove (state : SharedState) (session : UInt32) : SharedState :=
  if state.ownSession = some session then { state.clearConnection with fancyVersion := none }
  else { state with users := Function.update state.users session none }

end SharedState

def storedFrom (event : TextEvent) : Option UInt32 :=
  let tm := event.message
  if tm.actor = event.directory.ownSession ∧ tm.actor.isSome then none
  else
    match tm.editId, classify tm with
    | none, .directMessage => tm.actor
    | _, _ => none

namespace SharedState

def handleText (state : SharedState) (tm : TextMessage) (now : UInt64) (freshId : ℕ → String) :
    SharedState :=
  let event : TextEvent := { message := tm, directory := state.directory, now, freshId }
  let text := handleTextMessage state.msgs.toTextStore event
  let dmUnread :=
    match storedFrom event with
    | none => state.msgs.dmUnread
    | some session =>
        if state.msgs.selectedDmUser ≠ some session then
          Function.update state.msgs.dmUnread session
            (some ((state.msgs.dmUnread session).getD 0 + 1))
        else state.msgs.dmUnread
  { state with msgs := { state.msgs with toTextStore := text, dmUnread } }

def selectDmUser (state : SharedState) (session : UInt32) : SharedState :=
  { state with
    selectedChannel := none
    msgs.selectedDmUser := some session
    msgs.dmUnread := Function.update state.msgs.dmUnread session none }

def selectChannel (state : SharedState) (channelId : UInt32) : SharedState :=
  { state with selectedChannel := some channelId, msgs.selectedDmUser := none }

def markDmRead (state : SharedState) (session : UInt32) : SharedState :=
  { state with msgs.dmUnread := Function.update state.msgs.dmUnread session none }

def ownSessionHash (state : SharedState) : Option String :=
  (state.ownSession.bind state.users).bind UserEntry.hash

/-- `send_dm` up to its sending: the command, and the row that is stored afterwards. -/
def sendDm (state : SharedState) (inputs : SendInputs) (targetSession : UInt32) (body : String) :
    Except String (SendTextMessage × TextRow) :=
  if state.clientHandle then
    let messageId := if state.fancyVersion.isSome then some inputs.messageId else none
    let timestamp := if state.fancyVersion.isSome then some inputs.now else none
    .ok ({ userSessions := [targetSession], message := body, messageId, timestamp },
      TextRow.ensureId inputs.rowId
        { senderSession := state.ownSession
          senderName := state.ownName
          senderHash := state.ownSessionHash
          body
          channelId := 0
          isOwn := true
          dmSession := some targetSession
          messageId
          timestamp
          decrypted := true })
  else .error "Not connected"

def storeDm (state : SharedState) (targetSession : UInt32) (row : TextRow) : SharedState :=
  { state with
    msgs.byDm := Function.update state.msgs.byDm targetSession
      (pushCapped (state.msgs.byDm targetSession) row) }

end SharedState

/-! ## Whose everything is -/

variable {Person : Type}

structure Draft (Person : Type) where
  targetSession : UInt32
  addressee : Option Person

/-- The state, with the users that have the sessions or had them last, and with the users to
whom the messages of each thread, the counted messages and the selected conversation belong.
A delivery has the user who got the message, and the one it was written for. -/
structure Desk (Person : Type) where
  state : SharedState := {}
  holder : UInt32 → Option Person := fun _ => none
  thread : UInt32 → List (Option Person) := fun _ => []
  unread : UInt32 → List (Option Person) := fun _ => []
  selected : Option Person := none
  drafts : List (Draft Person) := []
  sending : List (Draft Person × TextRow) := []
  delivered : List (Option Person × Option Person) := []

/-- What happens. A new session is the one of a person; the person of other changes does not
matter. -/
inductive Event (Person : Type) where
  | userState (msg : UserState) (person : Person)
  | userRemove (session : UInt32)
  | textMessage (tm : TextMessage) (now : UInt64) (freshId : ℕ → String)
  | selectDmUser (session : UInt32)
  | selectChannel (channelId : UInt32)
  | markDmRead (session : UInt32)
  | writeDm (targetSession : UInt32)
  | sendDm (draft : ℕ) (inputs : SendInputs) (body : String) (queueOpen : Bool)
  | storeDm (sent : ℕ)
  | disconnect
  | connection (ownSession : Option UInt32) (ownName : String) (clientHandle : Bool)
      (fancyVersion : Option UInt64) (pchatProtocol : UInt32 → Option PchatProtocol)

namespace Desk

def heldAfter (s : Desk Person) (msg : UserState) (person : Person) : UInt32 → Option Person :=
  match msg.session with
  | none => s.holder
  | some session =>
      if (s.state.users session).isSome then s.holder
      else Function.update s.holder session (some person)

def handleText (s : Desk Person) (tm : TextMessage) (now : UInt64) (freshId : ℕ → String) :
    Desk Person :=
  let s' := { s with state := s.state.handleText tm now freshId }
  match storedFrom { message := tm, directory := s.state.directory, now, freshId } with
  | none => s'
  | some session =>
      { s' with
        thread := Function.update s.thread session (s.thread session ++ [s.holder session])
        unread :=
          if s.state.msgs.selectedDmUser ≠ some session then
            Function.update s.unread session (s.unread session ++ [s.holder session])
          else s.unread }

def sendDm (s : Desk Person) (draft : Draft Person) (inputs : SendInputs) (body : String) :
    Desk Person :=
  match s.state.sendDm inputs draft.targetSession body with
  | .error _ => s
  | .ok (command, row) =>
      { s with
        sending := s.sending ++ [(draft, row)]
        delivered := s.delivered ++
          (command.userSessions.filter fun session => (s.state.users session).isSome).map
            fun session => (s.holder session, draft.addressee) }

def storeDm (s : Desk Person) (draft : Draft Person) (row : TextRow) : Desk Person :=
  let people := s.thread draft.targetSession
  { s with
    state := s.state.storeDm draft.targetSession row
    thread := Function.update s.thread draft.targetSession
      ((people ++ [draft.addressee]).drop (people.length + 1 - maxMessagesPerThread)) }

def step (s : Desk Person) : Event Person → Desk Person
  | .userState msg person =>
      { s with state := s.state.handleUserState msg, holder := s.heldAfter msg person }
  | .userRemove session => { s with state := s.state.handleUserRemove session }
  | .textMessage tm now freshId => s.handleText tm now freshId
  | .selectDmUser session =>
      { s with
        state := s.state.selectDmUser session
        selected := s.holder session
        unread := Function.update s.unread session [] }
  | .selectChannel channelId => { s with state := s.state.selectChannel channelId }
  | .markDmRead session =>
      { s with
        state := s.state.markDmRead session
        unread := Function.update s.unread session [] }
  | .writeDm targetSession =>
      { s with drafts := s.drafts ++ [⟨targetSession, s.holder targetSession⟩] }
  | .sendDm draft inputs body queueOpen =>
      match s.drafts[draft]?, queueOpen with
      | some draft, true => s.sendDm draft inputs body
      | _, _ => s
  | .storeDm sent =>
      match s.sending[sent]? with
      | some (draft, row) => { s.storeDm draft row with sending := s.sending.eraseIdx sent }
      | none => s
  | .disconnect => { s with state := s.state.clearConnection }
  | .connection ownSession ownName clientHandle fancyVersion pchatProtocol =>
      { s with
        state :=
          { s.state with ownSession, ownName, clientHandle, fancyVersion, pchatProtocol } }

end Desk

def newDesk (state : SharedState) : Desk Person where
  state := { state with users := fun _ => none, msgs := {} }

/-- All that is kept of a session belongs to the user that has it or had it last, and messages
went to those they were written for. -/
structure Separate (s : Desk Person) : Prop where
  thread : ∀ session, ∀ p ∈ s.thread session, p = s.holder session
  unread : ∀ session, ∀ p ∈ s.unread session, p = s.holder session
  selected : ∀ session, s.state.msgs.selectedDmUser = some session → s.selected = s.holder session
  delivered : ∀ d ∈ s.delivered, d.1 = d.2

structure Unused (state : SharedState) (session : UInt32) : Prop where
  thread : state.msgs.byDm session = []
  unread : state.msgs.dmUnread session = none
  selected : state.msgs.selectedDmUser ≠ some session

/-- A session that a user gets is unused, or the user had it before. A message is sent and
stored while nobody else has got the session that it was written to. -/
def KeepsSeparate (s : Desk Person) : Event Person → Prop
  | .userState msg person => ∀ session ∈ msg.session, s.state.users session = none →
      s.holder session = some person ∨ Unused s.state session
  | .sendDm n _ _ queueOpen => ∀ draft ∈ s.drafts[n]?, queueOpen = true →
      s.state.clientHandle = true → s.state.users draft.targetSession ≠ none →
        s.holder draft.targetSession = draft.addressee
  | .storeDm n => ∀ sent ∈ s.sending[n]?, s.holder sent.1.targetSession = sent.1.addressee
  | _ => True

/-! ## Users come and go -/

theorem SharedState.msgs_handleUserState (state : SharedState) (msg : UserState) :
    (state.handleUserState msg).msgs = state.msgs := by
  unfold SharedState.handleUserState
  split <;> rfl

theorem Desk.heldAfter_cases (s : Desk Person) (msg : UserState) (person : Person) :
    (∃ session, msg.session = some session ∧ s.state.users session = none ∧
      s.heldAfter msg person = Function.update s.holder session (some person)) ∨
    ((∀ session ∈ msg.session, s.state.users session ≠ none) ∧
      s.heldAfter msg person = s.holder) := by
  unfold Desk.heldAfter
  cases msg.session with
  | none => exact .inr ⟨nofun, rfl⟩
  | some session =>
      cases huser : s.state.users session with
      | none =>
          refine .inl ⟨session, rfl, huser, if_neg ?_⟩
          rw [huser]
          exact nofun
      | some user =>
          refine .inr ⟨?_, if_pos ?_⟩
          · rintro _ ⟨⟩ hnone
            exact nomatch huser.symm.trans hnone
          · rw [huser]
            rfl

theorem SharedState.msgs_handleUserRemove (state : SharedState) (session : UInt32) :
    (state.handleUserRemove session).msgs.byDm = state.msgs.byDm ∧
      (state.handleUserRemove session).msgs.dmUnread = state.msgs.dmUnread ∧
      (state.handleUserRemove session).msgs.selectedDmUser = state.msgs.selectedDmUser := by
  unfold SharedState.handleUserRemove
  split <;> exact ⟨rfl, rfl, rfl⟩

/-! ## What is recorded -/

/-- The records have as many entries as there are messages, and some for every count. -/
structure Recorded (s : Desk Person) : Prop where
  thread : ∀ session, (s.thread session).length = (s.state.msgs.byDm session).length
  unread : ∀ session, s.unread session = [] ↔ s.state.msgs.dmUnread session = none

theorem length_byDm_handleTextMessage (store : TextStore) (event : TextEvent)
    (session : UInt32) :
    ((handleTextMessage store event).byDm session).length =
      (store.byDm session).length + if storedFrom event = some session then 1 else 0 := by
  cases hedit : event.message.editId with
  | some editId =>
      have hfrom : storedFrom event = none := by
        unfold storedFrom
        dsimp only
        rw [hedit]
        split <;> rfl
      rw [hfrom, if_neg nofun]
      have hthread : (handleTextMessage store event).thread (.direct session) = _ :=
        thread_handleTextMessage_of_edit hedit (.direct session)
      exact (congrArg List.length hthread).trans (length_editedThread ..)
  | none =>
      by_cases hown :
          event.message.actor = event.directory.ownSession ∧ event.message.actor.isSome
      · have hsame : handleTextMessage store event = store :=
          if_pos ⟨hown.1, hown.2, by rw [hedit]; rfl⟩
        have hfrom : storedFrom event = none := if_pos hown
        rw [hsame, hfrom, if_neg nofun]
        rfl
      · have hnew : ¬(event.message.actor = event.directory.ownSession ∧
            event.message.actor.isSome ∧ event.message.editId.isNone) :=
          fun hall => hown ⟨hall.1, hall.2.1⟩
        unfold handleTextMessage storedFrom
        dsimp only
        rw [if_neg hnew, if_neg hown, hedit]
        cases classify event.message with
        | channel => rfl
        | directMessage =>
            cases hactor : event.message.actor with
            | none =>
                have hrow : directMessageRow event.directory (event.freshId 0) event.message =
                    none := by
                  unfold directMessageRow
                  rw [hactor]
                  rfl
                simp only [hrow]
                rfl
            | some sender =>
                obtain ⟨row, hrow⟩ : ∃ row, directMessageRow event.directory (event.freshId 0)
                    event.message = some (sender, row) := by
                  unfold directMessageRow
                  rw [hactor]
                  exact ⟨_, rfl⟩
                simp only [hrow, Option.some.injEq]
                by_cases hsame : sender = session
                · subst hsame
                  rw [Function.update_self, if_pos rfl]
                  exact List.length_append
                · rw [Function.update_of_ne (Ne.symm hsame), if_neg hsame]
                  rfl

theorem recorded_newDesk (state : SharedState) : Recorded (newDesk state : Desk Person) where
  thread _ := rfl
  unread _ := iff_of_true rfl rfl

namespace Recorded

variable {s : Desk Person} (h : Recorded s)

include h

theorem byDm_eq_nil_iff (session : UInt32) :
    s.state.msgs.byDm session = [] ↔ s.thread session = [] := by
  rw [← List.length_eq_zero_iff, ← List.length_eq_zero_iff, h.thread]

theorem handleText (tm : TextMessage) (now : UInt64) (freshId : ℕ → String) :
    Recorded (s.handleText tm now freshId) := by
  have hlength := length_byDm_handleTextMessage s.state.msgs.toTextStore
    { message := tm, directory := s.state.directory, now, freshId }
  unfold Desk.handleText SharedState.handleText
  dsimp only
  cases hfrom : storedFrom { message := tm, directory := s.state.directory, now, freshId } with
  | none =>
      refine ⟨fun session => ?_, h.unread⟩
      rw [hfrom] at hlength
      exact (h.thread session).trans (hlength session).symm
  | some sender =>
      rw [hfrom] at hlength
      constructor
      · intro session
        refine Eq.trans ?_ (hlength session).symm
        by_cases hsame : session = sender
        · subst hsame
          simp only [Function.update_self, List.length_append, List.length_singleton,
            h.thread, if_true]
        · simp only [Function.update_of_ne hsame, h.thread, Option.some_inj, Ne.symm hsame,
            if_false]
          rfl
      · intro session
        by_cases hselected : s.state.msgs.selectedDmUser ≠ some sender
        · simp only [if_pos hselected]
          by_cases hsame : session = sender
          · subst hsame
            simp only [Function.update_self]
            exact iff_of_false (List.append_ne_nil_of_right_ne_nil _ (List.cons_ne_nil _ _)) nofun
          · simp only [Function.update_of_ne hsame]
            exact h.unread session
        · simp only [if_neg hselected]
          exact h.unread session

theorem storeDm (draft : Draft Person) (row : TextRow) : Recorded (s.storeDm draft row) := by
  refine ⟨fun session => ?_, h.unread⟩
  unfold Desk.storeDm SharedState.storeDm pushCapped
  dsimp only
  by_cases hsame : session = draft.targetSession
  · subst hsame
    simp only [Function.update_self, List.length_drop, List.length_append,
      List.length_singleton, h.thread]
  · simp only [Function.update_of_ne hsame]
    exact h.thread session

theorem clear (session other : UInt32) :
    Function.update s.unread session [] other = [] ↔
      Function.update s.state.msgs.dmUnread session none other = none := by
  by_cases hsame : other = session
  · subst hsame
    rw [Function.update_self, Function.update_self]
    exact iff_of_true rfl rfl
  · rw [Function.update_of_ne hsame, Function.update_of_ne hsame]
    exact h.unread other

omit h in
theorem of_eq {s' : Desk Person} (h : Recorded s) (hthread : s'.thread = s.thread)
    (hunread : s'.unread = s.unread) (hdm : s'.state.msgs.byDm = s.state.msgs.byDm)
    (hcount : s'.state.msgs.dmUnread = s.state.msgs.dmUnread) : Recorded s' where
  thread session := by rw [hthread, hdm]; exact h.thread session
  unread session := by rw [hunread, hcount]; exact h.unread session

theorem step (e : Event Person) : Recorded (s.step e) := by
  cases e with
  | userState msg person =>
      have hmsgs := s.state.msgs_handleUserState msg
      exact h.of_eq rfl rfl (congrArg (·.byDm) hmsgs) (congrArg (·.dmUnread) hmsgs)
  | userRemove session =>
      obtain ⟨hdm, hcount, -⟩ := s.state.msgs_handleUserRemove session
      exact h.of_eq rfl rfl hdm hcount
  | textMessage tm now freshId => exact h.handleText tm now freshId
  | selectDmUser session => exact ⟨h.thread, h.clear session⟩
  | selectChannel channelId => exact h.of_eq rfl rfl rfl rfl
  | markDmRead session => exact ⟨h.thread, h.clear session⟩
  | writeDm targetSession => exact h.of_eq rfl rfl rfl rfl
  | sendDm draft inputs body queueOpen =>
      unfold Desk.step
      dsimp only
      split
      next draft _ =>
        unfold Desk.sendDm
        split
        next => exact h
        next => exact h.of_eq rfl rfl rfl rfl
      next => exact h
  | storeDm sent =>
      unfold Desk.step
      dsimp only
      split
      next draft row _ => exact (h.storeDm draft row).of_eq rfl rfl rfl rfl
      next => exact h
  | disconnect => exact h.of_eq rfl rfl rfl rfl
  | connection => exact h.of_eq rfl rfl rfl rfl

end Recorded

/-! ## Runs -/

section Step

variable {s : Desk Person}

theorem separate_newDesk (state : SharedState) : Separate (newDesk state : Desk Person) where
  thread _ _ hp := absurd hp List.not_mem_nil
  unread _ _ hp := absurd hp List.not_mem_nil
  selected _ hselected := nomatch hselected
  delivered _ hd := absurd hd List.not_mem_nil

theorem separate_update_holder_iff (hrec : Recorded s) (h : Separate s) {state : SharedState}
    (hstate : state.msgs = s.state.msgs) (session : UInt32) (person : Person) :
    Separate { s with state, holder := Function.update s.holder session (some person) } ↔
      s.holder session = some person ∨ Unused s.state session := by
  constructor
  · intro h'
    by_cases hsame : s.holder session = some person
    · exact .inl hsame
    · have hself : Function.update s.holder session (some person) session = some person :=
        Function.update_self _ _ _
      have hnobody (people : List (Option Person)) (hold : ∀ p ∈ people, p = s.holder session)
          (hnew : ∀ p ∈ people, p = Function.update s.holder session (some person) session) :
          people = [] :=
        List.eq_nil_iff_forall_not_mem.mpr fun p hp =>
          hsame ((hold p hp).symm.trans ((hnew p hp).trans hself))
      refine .inr ⟨(hrec.byDm_eq_nil_iff session).mpr ?_, (hrec.unread session).mp ?_, ?_⟩
      · exact hnobody _ (h.thread session) (h'.thread session)
      · exact hnobody _ (h.unread session) (h'.unread session)
      · intro hselected
        have hnew := h'.selected session (hstate ▸ hselected)
        exact hsame ((h.selected session hselected).symm.trans (hnew.trans hself))
  · rintro (hsame | hunused)
    · rw [← hsame, Function.update_eq_self]
      exact ⟨h.thread, h.unread, fun other => hstate ▸ h.selected other, h.delivered⟩
    · have hthread := (hrec.byDm_eq_nil_iff session).mp hunused.thread
      have hunread := (hrec.unread session).mpr hunused.unread
      refine ⟨fun other p hp => ?_, fun other p hp => ?_, fun other hselected => ?_, h.delivered⟩
      · have hne : other ≠ session := by
          rintro rfl
          rw [hthread] at hp
          exact absurd hp List.not_mem_nil
        exact (h.thread other p hp).trans (Function.update_of_ne hne _ _).symm
      · have hne : other ≠ session := by
          rintro rfl
          rw [hunread] at hp
          exact absurd hp List.not_mem_nil
        exact (h.unread other p hp).trans (Function.update_of_ne hne _ _).symm
      · have hold : s.state.msgs.selectedDmUser = some other := hstate ▸ hselected
        have hne : other ≠ session := fun heq => hunused.selected (heq ▸ hold)
        exact (h.selected other hold).trans (Function.update_of_ne hne _ _).symm

theorem separate_userState_iff (hrec : Recorded s) (h : Separate s) (msg : UserState)
    (person : Person) :
    Separate (s.step (.userState msg person)) ↔ KeepsSeparate s (.userState msg person) := by
  have hmsgs := s.state.msgs_handleUserState msg
  unfold Desk.step
  obtain ⟨session, hsession, huser, hheld⟩ | ⟨hknown, hheld⟩ := s.heldAfter_cases msg person
  · have hkeeps : KeepsSeparate s (.userState msg person) ↔
        s.holder session = some person ∨ Unused s.state session := by
      refine ⟨fun hall => hall session hsession huser, fun hfree other hother _ => ?_⟩
      obtain rfl := Option.some.inj (hsession.symm.trans hother)
      exact hfree
    dsimp only
    rw [hheld, hkeeps]
    exact separate_update_holder_iff hrec h hmsgs session person
  · dsimp only
    rw [hheld]
    exact iff_of_true ⟨h.thread, h.unread, fun other => hmsgs ▸ h.selected other, h.delivered⟩
      fun session hsession hnone => absurd hnone (hknown session hsession)

theorem separate_handleText (h : Separate s) (tm : TextMessage) (now : UInt64)
    (freshId : ℕ → String) : Separate (s.handleText tm now freshId) := by
  unfold Desk.handleText
  dsimp only
  split
  next => exact ⟨h.thread, h.unread, h.selected, h.delivered⟩
  next sender _ =>
    have hpush (people : UInt32 → List (Option Person))
        (hold : ∀ session, ∀ p ∈ people session, p = s.holder session) (session : UInt32)
        (p : Option Person)
        (hp : p ∈ Function.update people sender (people sender ++ [s.holder sender]) session) :
        p = s.holder session := by
      by_cases hsame : session = sender
      · subst hsame
        rw [Function.update_self, List.mem_append, List.mem_singleton] at hp
        exact hp.elim (hold session p) id
      · rw [Function.update_of_ne hsame] at hp
        exact hold session p hp
    refine ⟨hpush s.thread h.thread, ?_, h.selected, h.delivered⟩
    dsimp only
    split
    next => exact hpush s.unread h.unread
    next => exact h.unread

theorem unread_clear (h : Separate s) (session other : UInt32) (p : Option Person)
    (hp : p ∈ Function.update s.unread session [] other) : p = s.holder other := by
  by_cases hsame : other = session
  · subst hsame
    rw [Function.update_self] at hp
    exact absurd hp List.not_mem_nil
  · rw [Function.update_of_ne hsame] at hp
    exact h.unread other p hp

theorem separate_sendDm_iff (h : Separate s) (draft : Draft Person) (inputs : SendInputs)
    (body : String) :
    Separate (s.sendDm draft inputs body) ↔
      (s.state.clientHandle = true → s.state.users draft.targetSession ≠ none →
        s.holder draft.targetSession = draft.addressee) := by
  unfold Desk.sendDm SharedState.sendDm
  by_cases hhandle : s.state.clientHandle = true
  · simp only [if_pos hhandle]
    cases huser : s.state.users draft.targetSession with
    | none =>
        refine iff_of_true ⟨h.thread, h.unread, h.selected, ?_⟩ fun _ hne => absurd rfl hne
        simpa [huser] using h.delivered
    | some user =>
        constructor
        · intro h' _ _
          refine h'.delivered (s.holder draft.targetSession, draft.addressee) ?_
          simp [huser]
        · intro hsame
          refine ⟨h.thread, h.unread, h.selected, fun d hd => ?_⟩
          simp only [huser, List.filter_cons, Option.isSome_some, if_true, List.filter_nil,
            List.map_cons, List.map_nil, List.mem_append, List.mem_singleton] at hd
          obtain hold | rfl := hd
          · exact h.delivered d hold
          · exact hsame hhandle (Option.some_ne_none user)
  · simp only [if_neg hhandle]
    exact iff_of_true h fun hopen => absurd hopen hhandle

theorem separate_storeDm_iff (h : Separate s) (draft : Draft Person) (row : TextRow) :
    Separate (s.storeDm draft row) ↔ s.holder draft.targetSession = draft.addressee := by
  have hfits : (s.thread draft.targetSession).length + 1 - maxMessagesPerThread ≤
      (s.thread draft.targetSession).length :=
    Nat.sub_le_sub_left maxMessagesPerThread_pos _
  unfold Desk.storeDm
  constructor
  · intro h'
    refine (h'.thread draft.targetSession draft.addressee ?_).symm
    dsimp only
    rw [Function.update_self, List.drop_append_of_le_length hfits]
    exact List.mem_append_right _ (List.mem_singleton_self _)
  · intro hsame
    refine ⟨fun session p hp => ?_, h.unread, h.selected, h.delivered⟩
    dsimp only at hp ⊢
    by_cases htarget : session = draft.targetSession
    · subst htarget
      rw [Function.update_self] at hp
      rcases List.mem_append.mp (List.mem_of_mem_drop hp) with hold | hnew
      · exact h.thread _ p hold
      · exact (List.mem_singleton.mp hnew).trans hsame.symm
    · rw [Function.update_of_ne htarget] at hp
      exact h.thread session p hp

theorem separate_step_iff (hrec : Recorded s) (h : Separate s) (e : Event Person) :
    Separate (s.step e) ↔ KeepsSeparate s e := by
  cases e with
  | userState msg person => exact separate_userState_iff hrec h msg person
  | userRemove session =>
      obtain ⟨-, -, hselection⟩ := s.state.msgs_handleUserRemove session
      exact iff_of_true ⟨h.thread, h.unread,
        fun other hselected => h.selected other (hselection.symm.trans hselected),
        h.delivered⟩ trivial
  | textMessage tm now freshId =>
      exact iff_of_true (separate_handleText h tm now freshId) trivial
  | selectDmUser session =>
      refine iff_of_true ⟨h.thread, unread_clear h session, ?_, h.delivered⟩ trivial
      rintro other ⟨⟩
      rfl
  | selectChannel channelId =>
      exact iff_of_true ⟨h.thread, h.unread, nofun, h.delivered⟩ trivial
  | markDmRead session =>
      exact iff_of_true ⟨h.thread, unread_clear h session, h.selected, h.delivered⟩ trivial
  | writeDm targetSession =>
      exact iff_of_true ⟨h.thread, h.unread, h.selected, h.delivered⟩ trivial
  | sendDm n inputs body queueOpen =>
      unfold Desk.step KeepsSeparate
      dsimp only
      cases hdraft : s.drafts[n]? with
      | none => exact iff_of_true h nofun
      | some draft =>
          cases queueOpen with
          | false => exact iff_of_true h fun _ _ hopen => nomatch hopen
          | true =>
              simp only [Option.mem_some_iff, forall_eq', forall_true_left]
              exact separate_sendDm_iff h draft inputs body
  | storeDm n =>
      unfold Desk.step KeepsSeparate
      dsimp only
      cases hsent : s.sending[n]? with
      | none => exact iff_of_true h fun sent hnone => absurd hnone (Option.not_mem_none sent)
      | some sent =>
          simp only [Option.mem_some_iff, forall_eq']
          refine Iff.trans ?_ (separate_storeDm_iff h sent.1 sent.2)
          exact ⟨fun h' => ⟨h'.thread, h'.unread, h'.selected, h'.delivered⟩,
            fun h' => ⟨h'.thread, h'.unread, h'.selected, h'.delivered⟩⟩
  | disconnect => exact iff_of_true ⟨h.thread, h.unread, h.selected, h.delivered⟩ trivial
  | connection => exact iff_of_true ⟨h.thread, h.unread, h.selected, h.delivered⟩ trivial

end Step

/-- In every run of a new connection, what is kept of a session is its user's in every state
exactly if no user gets a session that is in use and messages go out and are stored while
their sessions are those of the users they were written for. -/
theorem separate_run_iff (state : SharedState) (events : List (Event Person)) :
    Along Desk.step (fun s e => Separate (s.step e)) (newDesk state) events ↔
      Along Desk.step KeepsSeparate (newDesk state) events :=
  along_iff_of_invariant
    (fun s e (hs : Recorded s ∧ Separate s) => separate_step_iff hs.1 hs.2 e)
    (fun _ e hs hkeeps => ⟨hs.1.step e, (separate_step_iff hs.1 hs.2 e).mpr hkeeps⟩)
    ⟨recorded_newDesk state, separate_newDesk state⟩

private def inheritedExample : List (Event String) :=
  [.userState { session := some 7, name := some "Alice" } "Alice",
    .textMessage { actor := some 7, session := [1], message := "hi" } 0 fun _ => "id",
    .userRemove 7, .userState { session := some 7, name := some "Bob" } "Bob"]

/-- Bob inherits the conversation. -/
theorem conversation_inherited :
    ¬∀ (Person : Type) (state : SharedState) (events : List (Event Person)),
      Along Desk.step (fun s e => Separate (s.step e)) (newDesk state) events := by
  intro h
  have hlast : Separate (run Desk.step (newDesk {}) inheritedExample) :=
    (h String {} inheritedExample).2.2.2.1
  have hthread : some "Alice" ∈ (run Desk.step (newDesk {}) inheritedExample).thread 7 := by
    decide +kernel
  have hholder : (run Desk.step (newDesk {}) inheritedExample).holder 7 = some "Bob" := by
    decide +kernel
  have hsame := (hlast.thread 7 _ hthread).trans hholder
  exact absurd hsame (by decide)

end FancyMumble.Messages.Correspondents
