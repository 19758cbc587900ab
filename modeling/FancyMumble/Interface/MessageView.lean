import FancyMumble.Lib.Runs
import FancyMumble.Lib.Settling

/-!
# Displayed messages

The interface shows one list of messages, that of the selected channel of the active server. It
fetches the list with calls to the backend, which are executed and answered one by one in any
order. Most operations count up a sequence number when they begin to fetch and drop their answer
when it has been counted up again since.
-/

namespace FancyMumble.Interface

open Lib.Runs Lib.Settling

/-! ## Calls -/

/-- A reading of the messages of a channel, with its sequence number if it has one; `began` is
its place among all readings. -/
structure Reading where
  channel : UInt32
  seq : Option ℕ
  began : ℕ

inductive ViewCall (σ M : Type) where
  | selectChannel (reading : Reading)
  | getMessages (reading : Reading) (answer : Option (List M))
  | sendMessage (channel : UInt32) (stored : Bool)
  | setActiveServer (id : σ) (done : Bool)
  | getActiveServer (answer : Option (Option σ))
  | getCurrentChannel (answer : Option (Option UInt32))

namespace ViewCall

variable {σ M : Type}

def reading? : ViewCall σ M → Option Reading
  | .selectChannel reading | .getMessages reading _ => some reading
  | _ => none

/-- The call is part of a `switchServer` that will still learn which server is active. -/
def naming : ViewCall σ M → Bool
  | .setActiveServer _ done => done
  | .getActiveServer _ => true
  | _ => false

/-- The call is part of a `switchServer` that has changed the server and will still select a
channel. -/
def switching : ViewCall σ M → Bool
  | .getCurrentChannel _ => true
  | call => call.naming

end ViewCall

/-! ## State -/

/-- The backend has an active session, which may be none, and each session its current channel
and lists of messages. The interface has its own idea of the active server. `calls` are
outstanding, and `newMessages` are the channels of `new-message` events on their way; `latest`
counts the readings that have begun. -/
structure MessageView (σ M : Type) where
  active : Option σ
  current : Option σ → Option UInt32
  lists : Option σ → UInt32 → List M
  activeServerId : Option σ
  selectedChannel : Option UInt32 := none
  messages : List M := []
  messageWriteSeq : ℕ := 0
  calls : List (ViewCall σ M) := []
  newMessages : List UInt32 := []
  latest : ℕ := 0

/-- Actions of the user, `new-message` events that arrive, calls that are executed, rejected or
answered, and what happens in the backend: the list of a channel changes, with a `new-message`
event, or the user is in another channel. -/
inductive ViewEvent (σ M : Type) where
  | selectChannel (channel : UInt32)
  | switchServer (id : σ)
  | sendMessage (channel : UInt32)
  | refreshMessages (channel : UInt32)
  | newMessage (i : ℕ)
  | execute (i : ℕ) (messages : List M)
  | reject (i : ℕ)
  | answer (i : ℕ)
  | receive (v : σ) (channel : UInt32) (messages : List M)
  | move (v : σ) (channel : Option UInt32)

namespace MessageView

variable {σ M : Type} (s : MessageView σ M)

def list (channel : UInt32) : List M := s.lists s.active channel

def follow (i : ℕ) (calls : List (ViewCall σ M)) : MessageView σ M :=
  { s with calls := s.calls.eraseIdx i ++ calls }

def nextReading (channel : UInt32) : Reading :=
  { channel, seq := some (s.messageWriteSeq + 1), began := s.latest + 1 }

def begin (call : ViewCall σ M) : MessageView σ M :=
  { s with
    messageWriteSeq := s.messageWriteSeq + 1
    calls := s.calls ++ [call]
    latest := s.latest + 1 }

def refreshMessages (channel : UInt32) : MessageView σ M :=
  s.begin (.getMessages (s.nextReading channel) none)

/-- An answer to a reading is dropped if it has a sequence number that is not the last one. -/
def Applies (reading : Reading) : Prop :=
  reading.seq = none ∨ reading.seq = some s.messageWriteSeq

instance (reading : Reading) : Decidable (s.Applies reading) :=
  inferInstanceAs (Decidable (_ ∨ _))

/-- The interface gets the answer of a call that is executed, and goes on. The state that is
refreshed between `get_active_server` and `get_current_channel` is not part of this. -/
def answer (i : ℕ) : MessageView σ M :=
  match s.calls[i]? with
  | some (.selectChannel reading) => s.follow i [.getMessages reading none]
  | some (.getMessages reading (some messages)) =>
      if s.Applies reading then { s.follow i [] with messages } else s.follow i []
  | some (.sendMessage channel true) => (s.follow i []).refreshMessages channel
  | some (.setActiveServer id true) =>
      { s.follow i [.getActiveServer none] with activeServerId := some id }
  | some (.getActiveServer (some id)) =>
      { s.follow i [.getCurrentChannel none] with activeServerId := id }
  | some (.getCurrentChannel (some (some channel))) =>
      -- this reading has no sequence number of its own
      { s.follow i [.getMessages { channel, seq := none, began := s.latest + 1 } none] with
        selectedChannel := some channel
        latest := s.latest + 1 }
  | some (.getCurrentChannel (some none)) =>
      { s.follow i [] with selectedChannel := none, messages := [], latest := s.latest + 1 }
  | _ => s

section Step

variable [DecidableEq σ]

def setList (v : Option σ) (channel : UInt32) (messages : List M) : MessageView σ M :=
  { s with
    lists := Function.update s.lists v (Function.update (s.lists v) channel messages) }

/-- The backend executes a call; `messages` is the list after a message is sent or edited. -/
def execute (i : ℕ) (messages : List M) : MessageView σ M :=
  match s.calls[i]? with
  | some (.getMessages reading none) =>
      s.follow i [.getMessages reading (some (s.list reading.channel))]
  | some (.sendMessage channel false) =>
      (s.follow i [.sendMessage channel true]).setList s.active channel messages
  | some (.setActiveServer id false) =>
      { s.follow i [.setActiveServer id true] with active := some id }
  | some (.getActiveServer none) => s.follow i [.getActiveServer (some s.active)]
  | some (.getCurrentChannel none) =>
      s.follow i [.getCurrentChannel (some (s.current s.active))]
  | _ => s

def step (s : MessageView σ M) : ViewEvent σ M → MessageView σ M
  | .selectChannel channel =>
      { s.begin (.selectChannel (s.nextReading channel)) with selectedChannel := some channel }
  | .switchServer id => { s with calls := s.calls ++ [.setActiveServer id false] }
  | .sendMessage channel => { s with calls := s.calls ++ [.sendMessage channel false] }
  | .refreshMessages channel => s.refreshMessages channel
  | .newMessage i =>
      match s.newMessages[i]? with
      | none => s
      | some channel =>
          let arrived := { s with newMessages := s.newMessages.eraseIdx i }
          if s.selectedChannel = some channel then arrived.refreshMessages channel else arrived
  | .execute i messages => s.execute i messages
  | .reject i =>
      match s.calls[i]? with
      | some (.sendMessage _ false) | some (.setActiveServer _ false) => s.follow i []
      | _ => s
  | .answer i => s.answer i
  | .receive v channel messages =>
      { s.setList (some v) channel messages with newMessages := s.newMessages ++ [channel] }
  | .move v channel => { s with current := Function.update s.current (some v) channel }

end Step

/-! ## Order -/

/-- Once nothing is outstanding, the interface shows the list of the selected channel of the
active server. -/
def ShowsSelected : Prop :=
  s.calls = [] → s.newMessages = [] →
    s.activeServerId = s.active ∧
      ∀ channel, s.selectedChannel = some channel → s.messages = s.list channel

def Selects (channel : UInt32) : Prop :=
  ∀ selected, s.selectedChannel = some selected → channel = selected

def Outstanding : Prop :=
  ∃ call ∈ s.calls, ∃ reading, call.reading? = some reading ∧ reading.began = s.latest

/-- An answer that the interface gets is for the selected channel, when it makes the interface
begin to read; it is written before that of a reading that has begun later; and it names the
active server, unless another one will. -/
def AnswersInOrder (i : ℕ) : Prop :=
  ∀ call, s.calls[i]? = some call →
    match call with
    | .sendMessage channel true => s.Selects channel
    | .getMessages reading (some _) =>
        s.Applies reading → reading.began = s.latest ∨ s.Outstanding
    | .getActiveServer (some id) =>
        id = s.active ∨ ∃ other ∈ s.calls.eraseIdx i, other.naming = true
    | _ => True

def InOrder (s : MessageView σ M) : ViewEvent σ M → Prop
  | .refreshMessages channel => s.Selects channel
  | .answer i => s.AnswersInOrder i
  | _ => True

/-! ## Invariant -/

def Switching : Prop := ∃ call ∈ s.calls, call.switching = true

def Due (channel : UInt32) : Prop :=
  channel ∈ s.newMessages ∨ .sendMessage channel true ∈ s.calls ∨ s.Switching

def Fresh (channel : UInt32) (messages : List M) : Prop :=
  messages = s.list channel ∨ s.Due channel

/-- What the calls of a view know. The reading that has begun last is of the selected channel,
and it is shown when it is answered; when it is no longer outstanding, it is shown. -/
structure Consistent : Prop where
  began : ∀ call ∈ s.calls, ∀ reading, call.reading? = some reading → reading.began ≤ s.latest
  applies : ∀ call ∈ s.calls, ∀ reading, call.reading? = some reading →
    reading.began = s.latest → s.Applies reading
  selects : ∀ call ∈ s.calls, ∀ reading, call.reading? = some reading →
    reading.began = s.latest → s.Selects reading.channel
  answer : ∀ reading messages, .getMessages reading (some messages) ∈ s.calls →
    reading.began = s.latest → s.selectedChannel = some reading.channel →
      s.Fresh reading.channel messages
  shown : ¬ s.Outstanding → ∀ channel, s.selectedChannel = some channel →
    s.Fresh channel s.messages
  server : s.activeServerId = s.active ∨ ∃ call ∈ s.calls, call.naming = true

variable {s} {s' : MessageView σ M}

theorem Consistent.showsSelected (h : s.Consistent) : s.ShowsSelected := by
  intro hcalls hnew
  have hnone : ∀ call : ViewCall σ M, call ∉ s.calls := by
    rw [hcalls]
    exact fun _ => List.not_mem_nil
  constructor
  · rcases h.server with hserver | ⟨call, hcall, -⟩
    · exact hserver
    · exact absurd hcall (hnone call)
  · intro channel hchannel
    have hout : ¬ s.Outstanding := fun ⟨call, hcall, _⟩ => hnone call hcall
    rcases h.shown hout channel hchannel with hlist | hmem | hsend | ⟨call, hcall, -⟩
    · exact hlist
    · rw [hnew] at hmem
      cases hmem
    · exact absurd hsend (hnone _)
    · exact absurd hcall (hnone call)

theorem Consistent.frame (h : s.Consistent) (hlatest : s'.latest = s.latest)
    (hseq : s'.messageWriteSeq = s.messageWriteSeq)
    (hselected : s'.selectedChannel = s.selectedChannel) (hmessages : s'.messages = s.messages)
    (hold : ∀ call ∈ s'.calls, ∀ reading, call.reading? = some reading →
      ∃ before ∈ s.calls, before.reading? = some reading)
    (hout : s.Outstanding → s'.Outstanding)
    (hanswer : ∀ reading messages, .getMessages reading (some messages) ∈ s'.calls →
      .getMessages reading (some messages) ∈ s.calls ∨ messages = s'.list reading.channel)
    (hfresh : ∀ channel messages, s.selectedChannel = some channel →
      s.Fresh channel messages → s'.Fresh channel messages)
    (hserver : s'.activeServerId = s'.active ∨ ∃ call ∈ s'.calls, call.naming = true) :
    s'.Consistent where
  began call hcall reading hreading := by
    obtain ⟨before, hbefore, hreading⟩ := hold call hcall reading hreading
    rw [hlatest]
    exact h.began before hbefore reading hreading
  applies call hcall reading hreading hbegan := by
    obtain ⟨before, hbefore, hreading⟩ := hold call hcall reading hreading
    unfold Applies
    rw [hseq]
    exact h.applies before hbefore reading hreading (hbegan.trans hlatest)
  selects call hcall reading hreading hbegan := by
    obtain ⟨before, hbefore, hreading⟩ := hold call hcall reading hreading
    unfold Selects
    rw [hselected]
    exact h.selects before hbefore reading hreading (hbegan.trans hlatest)
  answer reading messages hcall hbegan hchannel := by
    rw [hselected] at hchannel
    rcases hanswer reading messages hcall with hcall | hlist
    · exact hfresh _ _ hchannel (h.answer _ _ hcall (hbegan.trans hlatest) hchannel)
    · exact Or.inl hlist
  shown hnot channel hchannel := by
    rw [hselected] at hchannel
    rw [hmessages]
    exact hfresh _ _ hchannel (h.shown (mt hout hnot) channel hchannel)
  server := hserver

theorem Consistent.begun (h : s.Consistent) {rest : List (ViewCall σ M)} {call : ViewCall σ M}
    {reading : Reading} (hlatest : s'.latest = s.latest + 1) (hcalls : s'.calls = rest ++ [call])
    (hrest : rest ⊆ s.calls) (hreading : call.reading? = some reading)
    (hbegan : reading.began = s.latest + 1) (happlies : s'.Applies reading)
    (hselects : s'.Selects reading.channel)
    (hunanswered : ∀ messages, call ≠ .getMessages reading (some messages))
    (hserver : s'.activeServerId = s'.active ∨ ∃ call ∈ s'.calls, call.naming = true) :
    s'.Consistent := by
  have hnew : ∀ other ∈ s'.calls, ∀ r, other.reading? = some r → r.began = s'.latest →
      other = call := by
    intro other hother r hr hlast
    rw [hcalls] at hother
    rcases List.mem_append.mp hother with hother | hother
    · have hle := h.began other (hrest hother) r hr
      omega
    · exact List.mem_singleton.mp hother
  have heq : ∀ other ∈ s'.calls, ∀ r, other.reading? = some r → r.began = s'.latest →
      r = reading := by
    intro other hother r hr hlast
    rw [hnew other hother r hr hlast, hreading] at hr
    exact (Option.some.inj hr).symm
  refine
    { began := fun other hother r hr => ?_
      applies := fun other hother r hr hlast => ?_
      selects := fun other hother r hr hlast => ?_
      answer := fun r messages hother hlast _ => ?_
      shown := fun hnot => ?_
      server := hserver }
  · rw [hcalls] at hother
    rcases List.mem_append.mp hother with hother | hother
    · have hle := h.began other (hrest hother) r hr
      omega
    · rw [List.mem_singleton.mp hother, hreading] at hr
      cases hr
      omega
  · rwa [heq other hother r hr hlast]
  · rwa [heq other hother r hr hlast]
  · have hr := heq _ hother r rfl hlast
    subst hr
    exact absurd (hnew _ hother r rfl hlast).symm (hunanswered messages)
  · refine absurd ⟨call, ?_, reading, hreading, by omega⟩ hnot
    rw [hcalls]
    exact List.mem_append_right _ (List.mem_singleton_self call)

/-! ## Calls that go on and end -/

variable {i : ℕ} {call : ViewCall σ M}

theorem Fresh.mono {channel : UInt32} {messages : List M} (h : s.Fresh channel messages)
    (hlist : s'.list channel = s.list channel ∨ s'.Due channel)
    (hnew : channel ∈ s.newMessages → channel ∈ s'.newMessages)
    (hsend : .sendMessage channel true ∈ s.calls → .sendMessage channel true ∈ s'.calls)
    (hswitching : s.Switching → s'.Switching) : s'.Fresh channel messages := by
  rcases h with h | h | h | h
  · rcases hlist with hlist | hdue
    · exact Or.inl (h.trans hlist.symm)
    · exact Or.inr hdue
  · exact Or.inr (Or.inl (hnew h))
  · exact Or.inr (Or.inr (Or.inl (hsend h)))
  · exact Or.inr (Or.inr (Or.inr (hswitching h)))

theorem Consistent.goOn (h : s.Consistent) (hcall : s.calls[i]? = some call)
    {next : ViewCall σ M} (hcalls : s'.calls = s.calls.eraseIdx i ++ [next])
    (hlatest : s'.latest = s.latest) (hseq : s'.messageWriteSeq = s.messageWriteSeq)
    (hselected : s'.selectedChannel = s.selectedChannel) (hmessages : s'.messages = s.messages)
    (hnew : s'.newMessages = s.newMessages) (hreading : next.reading? = call.reading?)
    (hsend : ∀ channel, call ≠ .sendMessage channel true)
    (hswitching : call.switching = true → next.switching = true)
    (hanswer : ∀ reading messages, next = .getMessages reading (some messages) →
      messages = s'.list reading.channel)
    (hlist : ∀ channel, s'.list channel = s.list channel ∨ s'.Due channel)
    (hserver : s'.activeServerId = s'.active ∨ ∃ call ∈ s'.calls, call.naming = true) :
    s'.Consistent := by
  have hnext : next ∈ s'.calls := by
    rw [hcalls]
    exact List.mem_append_right _ (List.mem_singleton_self next)
  have hkept : ∀ other ∈ s.calls, other ≠ call → other ∈ s'.calls := by
    intro other hother hne
    rw [hcalls]
    exact List.mem_append_left _ (mem_eraseIdx_of_ne hcall hother hne)
  have hmem : call ∈ s.calls := List.mem_of_getElem? hcall
  refine h.frame hlatest hseq hselected hmessages (fun other hother reading hr => ?_)
    (fun hout => ?_) (fun reading messages hother => ?_) (fun channel messages _ hfresh => ?_)
    hserver
  · rw [hcalls] at hother
    rcases List.mem_append.mp hother with hother | hother
    · exact ⟨other, List.mem_of_mem_eraseIdx hother, hr⟩
    · rw [List.mem_singleton.mp hother, hreading] at hr
      exact ⟨call, hmem, hr⟩
  · obtain ⟨other, hother, reading, hr, hlast⟩ := hout
    by_cases hne : other = call
    · rw [hne, ← hreading] at hr
      exact ⟨next, hnext, reading, hr, hlast.trans hlatest.symm⟩
    · exact ⟨other, hkept other hother hne, reading, hr, hlast.trans hlatest.symm⟩
  · rw [hcalls] at hother
    rcases List.mem_append.mp hother with hother | hother
    · exact Or.inl (List.mem_of_mem_eraseIdx hother)
    · exact Or.inr (hanswer reading messages (List.mem_singleton.mp hother).symm)
  · refine hfresh.mono (hlist channel) (fun hnew' => hnew ▸ hnew')
      (fun hsent => hkept _ hsent (hsend channel).symm) fun ⟨other, hother, hswitch⟩ => ?_
    by_cases hne : other = call
    · exact ⟨next, hnext, hswitching (hne ▸ hswitch)⟩
    · exact ⟨other, hkept other hother hne, hswitch⟩

theorem Consistent.ended (h : s.Consistent) (hcall : s.calls[i]? = some call)
    (hsend : ∀ channel, call ≠ .sendMessage channel true) (hswitching : call.switching = false)
    (hnaming : call.naming = false) {messages : List M}
    (hmessages : ¬ (s.follow i []).Outstanding →
      ∀ channel, s.selectedChannel = some channel → s.Fresh channel messages) :
    ({ s.follow i [] with messages } : MessageView σ M).Consistent := by
  have hsubset : ∀ other ∈ s.calls.eraseIdx i ++ [], other ∈ s.calls := by
    intro other hother
    rw [List.append_nil] at hother
    exact List.mem_of_mem_eraseIdx hother
  have hkept : ∀ other ∈ s.calls, other ≠ call → other ∈ s.calls.eraseIdx i ++ [] := by
    intro other hother hne
    exact List.mem_append_left _ (mem_eraseIdx_of_ne hcall hother hne)
  have hfresh : ∀ channel messages', s.Fresh channel messages' →
      ({ s.follow i [] with messages } : MessageView σ M).Fresh channel messages' := by
    intro channel messages' hfresh
    refine hfresh.mono (Or.inl rfl) id (fun hsent => hkept _ hsent (hsend channel).symm)
      fun ⟨other, hother, hswitch⟩ => ⟨other, hkept other hother fun heq => ?_, hswitch⟩
    rw [heq, hswitching] at hswitch
    cases hswitch
  exact
    { began := fun other hother => h.began other (hsubset other hother)
      applies := fun other hother => h.applies other (hsubset other hother)
      selects := fun other hother => h.selects other (hsubset other hother)
      answer := fun reading messages' hother hlast hchannel =>
        hfresh _ _ (h.answer reading messages' (hsubset _ hother) hlast hchannel)
      shown := fun hnot channel hchannel => hfresh _ _ (hmessages hnot channel hchannel)
      server := by
        rcases h.server with hserver | ⟨other, hother, hother'⟩
        · exact Or.inl hserver
        · refine Or.inr ⟨other, hkept other hother fun heq => ?_, hother'⟩
          rw [heq, hnaming] at hother'
          cases hother' }

theorem Consistent.dropped (h : s.Consistent) (hcall : s.calls[i]? = some call)
    (hsend : ∀ channel, call ≠ .sendMessage channel true) (hswitching : call.switching = false)
    (hnaming : call.naming = false) (hout : s.Outstanding → (s.follow i []).Outstanding) :
    (s.follow i []).Consistent := by
  have hended := h.ended hcall hsend hswitching hnaming fun hnot => h.shown (mt hout hnot)
  exact hended

theorem outstanding_follow (hcall : s.calls[i]? = some call)
    (hlast : ∀ reading, call.reading? = some reading → reading.began ≠ s.latest)
    (h : s.Outstanding) : (s.follow i []).Outstanding := by
  obtain ⟨other, hother, reading, hreading, hbegan⟩ := h
  refine ⟨other, List.mem_append_left _ (mem_eraseIdx_of_ne hcall hother ?_), reading, hreading,
    hbegan⟩
  rintro rfl
  exact hlast reading hreading hbegan

theorem Consistent.server_goOn (h : s.Consistent) (hcall : s.calls[i]? = some call)
    {calls : List (ViewCall σ M)}
    (hnaming : call.naming = true → ∃ next ∈ calls, next.naming = true) :
    s.activeServerId = s.active ∨
      ∃ other ∈ s.calls.eraseIdx i ++ calls, other.naming = true := by
  rcases h.server with hserver | ⟨other, hother, hname⟩
  · exact Or.inl hserver
  · refine Or.inr ?_
    by_cases hne : other = call
    · obtain ⟨next, hnext, hname⟩ := hnaming (hne ▸ hname)
      exact ⟨next, List.mem_append_right _ hnext, hname⟩
    · exact ⟨other, List.mem_append_left _ (mem_eraseIdx_of_ne hcall hother hne), hname⟩

section Step

variable [DecidableEq σ]

theorem setList_list_of_ne {v : Option σ} {channel other : UInt32} {messages : List M}
    (h : other ≠ channel) : (s.setList v channel messages).list other = s.list other := by
  show Function.update s.lists v (Function.update (s.lists v) channel messages) s.active other =
    s.lists s.active other
  by_cases hv : s.active = v
  · rw [hv, Function.update_self, Function.update_of_ne h]
  · rw [Function.update_of_ne hv]

theorem Consistent.execute (h : s.Consistent) (i : ℕ) (messages : List M) :
    (s.execute i messages).Consistent := by
  unfold MessageView.execute
  cases hcall : s.calls[i]? with
  | none => exact h
  | some call =>
      cases call with
      | selectChannel reading => exact h
      | getMessages reading answer =>
          cases answer with
          | some messages => exact h
          | none =>
              refine h.goOn hcall rfl rfl rfl rfl rfl rfl rfl nofun id ?_
                (fun _ => Or.inl rfl) (h.server_goOn hcall nofun)
              intro r answer hnext
              cases hnext
              rfl
      | sendMessage channel stored =>
          cases stored with
          | true => exact h
          | false =>
              refine h.goOn hcall rfl rfl rfl rfl rfl rfl rfl (fun _ => by simp) nofun nofun
                (fun other => ?_) (h.server_goOn hcall nofun)
              by_cases hother : other = channel
              · subst hother
                exact Or.inr (Or.inr (Or.inl (List.mem_append_right _ (List.mem_singleton_self _))))
              · exact Or.inl (setList_list_of_ne hother)
      | setActiveServer id done =>
          cases done with
          | true => exact h
          | false =>
              have hnext : ViewCall.setActiveServer id true ∈
                  (s.follow i [.setActiveServer id true]).calls :=
                List.mem_append_right _ (List.mem_singleton_self _)
              exact h.goOn hcall rfl rfl rfl rfl rfl rfl rfl nofun nofun nofun
                (fun _ => Or.inr (Or.inr (Or.inr ⟨_, hnext, rfl⟩))) (Or.inr ⟨_, hnext, rfl⟩)
      | getActiveServer answer =>
          cases answer with
          | some id => exact h
          | none =>
              exact h.goOn hcall rfl rfl rfl rfl rfl rfl rfl nofun id nofun (fun _ => Or.inl rfl)
                (h.server_goOn hcall fun _ => ⟨_, List.mem_singleton_self _, rfl⟩)
      | getCurrentChannel answer =>
          cases answer with
          | some channel => exact h
          | none =>
              exact h.goOn hcall rfl rfl rfl rfl rfl rfl rfl nofun id nofun (fun _ => Or.inl rfl)
                (h.server_goOn hcall nofun)

end Step

theorem Consistent.refreshMessages (h : s.Consistent) (rest : List (ViewCall σ M))
    (hrest : rest ⊆ s.calls) {channel : UInt32} (hselects : s.Selects channel)
    {newMessages : List UInt32}
    (hserver : s.activeServerId = s.active ∨ ∃ call ∈ rest, call.naming = true) :
    (({ s with calls := rest, newMessages } : MessageView σ M).refreshMessages
      channel).Consistent := by
  refine h.begun rfl rfl hrest rfl rfl (Or.inr rfl) hselects nofun ?_
  rcases hserver with hserver | ⟨call, hcall, hnaming⟩
  · exact Or.inl hserver
  · exact Or.inr ⟨call, List.mem_append_left _ hcall, hnaming⟩

theorem Consistent.listed (h : s.Consistent) {reading : Reading} {messages : List M}
    (hcall : s.calls[i]? = some (.getMessages reading (some messages)))
    (horder : s.Applies reading → reading.began = s.latest ∨ s.Outstanding) :
    (if s.Applies reading then { s.follow i [] with messages } else s.follow i []).Consistent := by
  have hmem := List.mem_of_getElem? hcall
  have hout : reading.began ≠ s.latest → s.Outstanding → (s.follow i []).Outstanding := by
    intro hlast
    refine outstanding_follow hcall fun r hr => ?_
    cases hr
    exact hlast
  by_cases happlies : s.Applies reading
  · rw [if_pos happlies]
    refine h.ended hcall nofun rfl rfl fun hnot channel hchannel => ?_
    by_cases hlast : reading.began = s.latest
    · have hsame := h.selects _ hmem reading rfl hlast channel hchannel
      subst hsame
      exact h.answer reading messages hmem hlast hchannel
    · exact absurd (hout hlast ((horder happlies).resolve_left hlast)) hnot
  · rw [if_neg happlies]
    have hlast : reading.began ≠ s.latest := fun hlast =>
      happlies (h.applies _ hmem reading rfl hlast)
    exact h.dropped hcall nofun rfl rfl (hout hlast)

theorem Consistent.deselected (h : s.Consistent)
    (hcall : s.calls[i]? = some (.getCurrentChannel (some none))) :
    ({ s.follow i [] with selectedChannel := none, messages := [], latest := s.latest + 1 } :
      MessageView σ M).Consistent := by
  have hbegan : ∀ call ∈ s.calls.eraseIdx i ++ [], ∀ reading,
      call.reading? = some reading → reading.began ≤ s.latest := by
    intro call hcall
    rw [List.append_nil] at hcall
    exact h.began call (List.mem_of_mem_eraseIdx hcall)
  exact
    { began := fun call hcall reading hr => Nat.le_succ_of_le (hbegan call hcall reading hr)
      applies := fun call hcall reading hr hlast =>
        absurd (hbegan call hcall reading hr) (by dsimp only at hlast; omega)
      selects := fun _ _ _ _ _ _ hselected => by cases hselected
      answer := fun _ _ _ _ hselected => by cases hselected
      shown := fun _ _ hselected => by cases hselected
      server := h.server_goOn hcall nofun }

theorem Consistent.answered (h : s.Consistent) (i : ℕ) (horder : s.AnswersInOrder i) :
    (s.answer i).Consistent := by
  unfold MessageView.answer
  cases hcall : s.calls[i]? with
  | none => exact h
  | some call =>
      have horder' := horder call hcall
      cases call with
      | selectChannel reading =>
          exact h.goOn hcall rfl rfl rfl rfl rfl rfl rfl nofun nofun nofun (fun _ => Or.inl rfl)
            (h.server_goOn hcall nofun)
      | getMessages reading answer =>
          cases answer with
          | none => exact h
          | some messages => exact h.listed hcall horder'
      | sendMessage channel stored =>
          cases stored with
          | false => exact h
          | true =>
              refine h.refreshMessages (s.calls.eraseIdx i ++ []) ?_ horder' ?_
              · rw [List.append_nil]
                exact List.eraseIdx_subset
              · exact h.server_goOn hcall nofun
      | setActiveServer id done =>
          cases done with
          | false => exact h
          | true =>
              exact h.goOn hcall rfl rfl rfl rfl rfl rfl rfl nofun (fun _ => rfl) nofun
                (fun _ => Or.inl rfl)
                (Or.inr ⟨_, List.mem_append_right _ (List.mem_singleton_self _), rfl⟩)
      | getActiveServer answer =>
          cases answer with
          | none => exact h
          | some id =>
              refine h.goOn hcall rfl rfl rfl rfl rfl rfl rfl nofun (fun _ => rfl) nofun
                (fun _ => Or.inl rfl) ?_
              rcases horder' with hid | ⟨other, hother, hnaming⟩
              · exact Or.inl hid
              · exact Or.inr ⟨other, List.mem_append_left _ hother, hnaming⟩
      | getCurrentChannel answer =>
          cases answer with
          | none => exact h
          | some channel =>
              cases channel with
              | none => exact h.deselected hcall
              | some channel =>
                  refine h.begun rfl rfl List.eraseIdx_subset rfl rfl (Or.inl rfl) ?_ nofun
                    (h.server_goOn hcall nofun)
                  intro selected hselected
                  exact Option.some.inj hselected

theorem Consistent.called (h : s.Consistent) (call : ViewCall σ M)
    (hreading : call.reading? = none) :
    ({ s with calls := s.calls ++ [call] } : MessageView σ M).Consistent := by
  refine h.frame rfl rfl rfl rfl (fun other hother reading hr => ?_) ?_
    (fun reading messages hother => ?_) (fun channel messages _ hfresh => ?_) ?_
  · rcases List.mem_append.mp hother with hother | hother
    · exact ⟨other, hother, hr⟩
    · rw [List.mem_singleton.mp hother, hreading] at hr
      cases hr
  · rintro ⟨other, hother, hlast⟩
    exact ⟨other, List.mem_append_left _ hother, hlast⟩
  · rcases List.mem_append.mp hother with hother | hother
    · exact Or.inl hother
    · rw [← List.mem_singleton.mp hother] at hreading
      cases hreading
  · exact hfresh.mono (Or.inl rfl) id (List.mem_append_left _)
      fun ⟨other, hother, hswitch⟩ => ⟨other, List.mem_append_left _ hother, hswitch⟩
  · rcases h.server with hserver | ⟨other, hother, hnaming⟩
    · exact Or.inl hserver
    · exact Or.inr ⟨other, List.mem_append_left _ hother, hnaming⟩

variable [DecidableEq σ]

theorem Consistent.rejected (h : s.Consistent) (i : ℕ) :
    (s.step (.reject i)).Consistent := by
  unfold MessageView.step
  dsimp only
  cases hcall : s.calls[i]? with
  | none => exact h
  | some call =>
      have hout : call.reading? = none → s.Outstanding → (s.follow i []).Outstanding := by
        intro hnone
        refine outstanding_follow hcall fun r hr => ?_
        rw [hnone] at hr
        cases hr
      cases call with
      | sendMessage channel stored =>
          cases stored with
          | true => exact h
          | false =>
              exact h.dropped hcall (fun _ => by simp) rfl rfl (hout rfl)
      | setActiveServer id done =>
          cases done with
          | true => exact h
          | false =>
              exact h.dropped hcall nofun rfl rfl (hout rfl)
      | selectChannel reading => exact h
      | getMessages reading answer => exact h
      | getActiveServer answer => exact h
      | getCurrentChannel answer => exact h

theorem Consistent.step (h : s.Consistent) (event : ViewEvent σ M) (horder : s.InOrder event) :
    (s.step event).Consistent := by
  cases event with
  | selectChannel channel =>
      refine h.begun rfl rfl (List.Subset.refl _) rfl rfl (Or.inr rfl) ?_ nofun ?_
      · intro selected hselected
        exact Option.some.inj hselected
      · rcases h.server with hserver | ⟨call, hcall, hnaming⟩
        · exact Or.inl hserver
        · exact Or.inr ⟨call, List.mem_append_left _ hcall, hnaming⟩
  | switchServer id => exact h.called _ rfl
  | sendMessage channel => exact h.called _ rfl
  | refreshMessages channel => exact h.refreshMessages _ (List.Subset.refl _) horder h.server
  | newMessage i =>
      unfold MessageView.step
      dsimp only
      cases hnew : s.newMessages[i]? with
      | none => exact h
      | some channel =>
          dsimp only
          by_cases hselected : s.selectedChannel = some channel
          · rw [if_pos hselected]
            refine h.refreshMessages _ (List.Subset.refl _) (fun selected hselected' => ?_) h.server
            rw [hselected] at hselected'
            exact Option.some.inj hselected'
          · rw [if_neg hselected]
            refine h.frame rfl rfl rfl rfl (fun call hcall reading hr => ⟨call, hcall, hr⟩) id
              (fun _ _ => Or.inl) (fun other messages hother hfresh => ?_) h.server
            refine hfresh.mono (Or.inl rfl) (fun hmem => ?_) id id
            obtain ⟨j, hj⟩ := List.mem_iff_getElem?.mp hmem
            refine List.mem_eraseIdx_iff_getElem?.mpr ⟨j, ?_, hj⟩
            rintro rfl
            rw [hnew] at hj
            cases hj
            exact hselected hother
  | execute i messages => exact h.execute i messages
  | reject i => exact h.rejected i
  | answer i => exact h.answered i horder
  | receive v channel messages =>
      refine h.frame rfl rfl rfl rfl (fun call hcall reading hr => ⟨call, hcall, hr⟩) id
        (fun _ _ => Or.inl) (fun other messages' _ hfresh => ?_) h.server
      refine hfresh.mono ?_ (List.mem_append_left _) id id
      by_cases hother : other = channel
      · subst hother
        exact Or.inr (Or.inl (List.mem_append_right _ (List.mem_singleton_self _)))
      · have hlist : (s.setList (some v) channel messages).list other = s.list other :=
          setList_list_of_ne hother
        exact Or.inl hlist
  | move v channel =>
      exact h.frame rfl rfl rfl rfl (fun call hcall reading hr => ⟨call, hcall, hr⟩) id
        (fun _ _ => Or.inl) (fun _ _ _ hfresh => hfresh.mono (Or.inl rfl) id id id) h.server

def start (active : Option σ) (current : Option σ → Option UInt32)
    (lists : Option σ → UInt32 → List M) : MessageView σ M :=
  { active, current, lists, activeServerId := active }

/-- In every run in which answers come in order, the interface shows the list of the selected
channel of the active server once nothing is outstanding. -/
theorem showsSelected_run (active : Option σ) (current : Option σ → Option UInt32)
    (lists : Option σ → UInt32 → List M) (events : List (ViewEvent σ M))
    (h : Along MessageView.step InOrder (start active current lists) events) :
    (run MessageView.step (start active current lists) events).ShowsSelected := by
  have hstep : ∀ (s : MessageView σ M) event, s.Consistent → s.InOrder event →
      (s.step event).Consistent := fun s event hs horder => hs.step event horder
  have hstart : (start active current lists).Consistent :=
    { began := fun _ hcall => by cases hcall
      applies := fun _ hcall => by cases hcall
      selects := fun _ hcall => by cases hcall
      answer := fun _ _ hcall => by cases hcall
      shown := fun _ _ hselected => by cases hselected
      server := Or.inl rfl }
  exact (invariant_run hstep hstart h).showsSelected

theorem showsSelected_send :
    (run step (start (some 0) (fun _ => none) (fun _ _ => [10]) : MessageView ℕ ℕ)
      [.selectChannel 1, .answer 0, .execute 0 [], .answer 0, .sendMessage 1,
        .execute 0 [10, 11], .answer 0, .execute 0 [], .answer 0]).ShowsSelected := by
  apply showsSelected_run
  refine ⟨trivial, fun _ hcall => ?_, trivial, fun _ hcall => ?_, trivial, trivial,
    fun _ hcall => ?_, trivial, fun _ hcall => ?_, trivial⟩
  · cases hcall
    trivial
  · cases hcall
    exact fun _ => Or.inl rfl
  · cases hcall
    intro selected hselected
    exact Option.some.inj hselected
  · cases hcall
    exact fun _ => Or.inl rfl

/-- A message that is sent to a channel is answered after another channel is shown. -/
theorem sent_channel_shown :
    ¬ (run step
      (start (some 0) (fun _ => none) (fun _ channel => [channel.toNat]) : MessageView ℕ ℕ)
      [.selectChannel 1, .answer 0, .execute 0 [], .answer 0, .sendMessage 1, .execute 0 [1, 10],
        .selectChannel 2, .answer 1, .execute 1 [], .answer 1, .answer 0, .execute 0 [],
        .answer 0]).ShowsSelected := by
  intro h
  have hshown := (h rfl rfl).2 2 rfl
  revert hshown
  decide

end MessageView

end FancyMumble.Interface
