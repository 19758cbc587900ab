import FancyMumble.Messages.Inbound
import FancyMumble.Persistent.Provider

/-!
# Messages that replace others

A delivered message may name another one to take its place. The message providers look
for a message of the same sender; the history of the client looks at the id alone.
-/

namespace FancyMumble.Messages

open Persistent Signal

variable {lib : Libraries} (codecs : Codecs lib)

/-! ## In a list of rows -/

section Rows

variable {rows : List ChatMessage} {messageId : String} {replacesId : Option String}
  {row : ChatMessage}

/-- The row is stored as if it named none, or it takes the place of a row of its own
sender. -/
def StoresAsOwn (rows : List ChatMessage) (messageId : String) (row : ChatMessage)
    (after : List ChatMessage) : Prop :=
  after = insertNew ChatMessage.messageId rows messageId row ∨
    ∃ pos m, rows[pos]? = some m ∧ m.senderHash = row.senderHash ∧ after = rows.set pos row

/-- The first row with the id that is named, if there is one, is of the sender. -/
def NamesOwn (rows : List ChatMessage) (replacesId senderHash : Option String) : Prop :=
  ∀ id ∈ replacesId, ∀ m ∈ rows.find? fun m => m.messageId = some id,
    m.senderHash = senderHash

theorem insertOrReplaceMessage_of_none
    (h : ∀ id ∈ replacesId, rows.find? (fun m => m.messageId = some id) = none) :
    insertOrReplaceMessage ChatMessage.messageId rows messageId replacesId row =
      insertNew ChatMessage.messageId rows messageId row := by
  unfold insertOrReplaceMessage
  cases replacesId with
  | none => rfl
  | some id =>
      have hnone := h id rfl
      rw [List.find?_eq_none] at hnone
      rw [Option.bind_some, List.findIdx?_eq_none_iff.mpr fun m hm => by simpa using hnone m hm]

theorem insertOrReplaceMessage_of_some (messageId : String) (row : ChatMessage) {id : String}
    {m : ChatMessage}
    (h : rows.find? (fun m => m.messageId = some id) = some m) :
    ∃ pos, rows[pos]? = some m ∧ (∀ i < pos, rows[i]? ≠ some m) ∧
      insertOrReplaceMessage ChatMessage.messageId rows messageId (some id) row =
        rows.set pos row := by
  have hid : m.messageId = some id := by simpa using List.find?_some h
  rw [List.find?_eq_bind_findIdx?_getElem?, Option.bind_eq_some_iff] at h
  obtain ⟨pos, hpos, hm⟩ := h
  refine ⟨pos, hm, ?_, ?_⟩
  · intro i hi hsame
    obtain ⟨hlt, -, hfirst⟩ := List.findIdx?_eq_some_iff_getElem.mp hpos
    have hilt : i < rows.length := Nat.lt_trans hi hlt
    have hrow : rows[i] = m := Option.some_inj.mp ((List.getElem?_eq_getElem hilt).symm.trans hsame)
    exact hfirst i hi (by rw [hrow]; exact decide_eq_true hid)
  · unfold insertOrReplaceMessage
    rw [Option.bind_some, hpos]

/-- A row of another sender that gives way is gone without a trace that storing the new row in
another way would leave. -/
theorem not_storesAsOwn_set {pos : ℕ} {m : ChatMessage} (hid : row.messageId = some messageId)
    (hm : rows[pos]? = some m) (hfirst : ∀ i < pos, rows[i]? ≠ some m)
    (hforeign : m.senderHash ≠ row.senderHash) :
    ¬StoresAsOwn rows messageId row (rows.set pos row) := by
  have hne : m ≠ row := fun heq => hforeign (by rw [heq])
  have hlt : pos < rows.length := (List.getElem?_eq_some_iff.mp hm).1
  have hset : (rows.set pos row)[pos]? = some row := List.getElem?_set_self hlt
  rintro (hnew | ⟨pos', m', hm', hsender, hsame⟩)
  · by_cases hpresent : some messageId ∈ rows.map ChatMessage.messageId
    · rw [insertNew_of_mem hpresent] at hnew
      rw [hnew, hm, Option.some_inj] at hset
      exact hne hset
    · -- the row was not there, so that appending it would have made the rows longer, or
      -- have shifted them
      rw [insertNew_of_notMem hpresent, pushCapped] at hnew
      have hlength := congrArg List.length hnew
      rw [List.length_set, List.length_drop, List.length_append, List.length_singleton]
        at hlength
      have hone : rows.length + 1 - maxMessagesPerThread = 1 := by
        unfold maxMessagesPerThread at hlength ⊢
        omega
      rw [hone] at hnew
      have hshift : ∀ i, (rows.set pos row)[i]? = (rows ++ [row])[i + 1]? := by
        intro i
        rw [hnew, List.getElem?_drop, Nat.add_comm]
      have hlast : pos + 1 = rows.length := by
        by_contra hne'
        have hinside : pos + 1 < rows.length := by omega
        have hmoved := hshift pos
        rw [hset, List.getElem?_append_left hinside] at hmoved
        exact hpresent (List.mem_map.mpr ⟨row, List.mem_of_getElem? hmoved.symm, hid⟩)
      have hpos : pos ≠ 0 := by
        unfold maxMessagesPerThread at hone
        omega
      have hbefore := hshift (pos - 1)
      rw [List.getElem?_set_ne (by omega), Nat.sub_add_cancel (by omega),
        List.getElem?_append_left hlt, hm] at hbefore
      exact hfirst (pos - 1) (by omega) hbefore
  · by_cases hpos : pos' = pos
    · subst hpos
      rw [hm, Option.some_inj] at hm'
      exact hforeign (by rw [hm', hsender])
    · rw [hsame, List.getElem?_set_ne hpos, hm, Option.some_inj] at hset
      exact hne hset

theorem storesAsOwn_iff (rows : List ChatMessage) (replacesId : Option String)
    (hid : row.messageId = some messageId) :
    StoresAsOwn rows messageId row
        (insertOrReplaceMessage ChatMessage.messageId rows messageId replacesId row) ↔
      NamesOwn rows replacesId row.senderHash := by
  constructor
  · rintro h id rfl m hm
    obtain ⟨pos, hpos, hfirst, hset⟩ := insertOrReplaceMessage_of_some messageId row
      (Option.mem_def.mp hm)
    rw [hset] at h
    by_contra hforeign
    exact not_storesAsOwn_set hid hpos hfirst hforeign h
  · intro h
    cases replacesId with
    | none => exact Or.inl (insertOrReplaceMessage_of_none nofun)
    | some id =>
        cases hfind : rows.find? fun m => m.messageId = some id with
        | none =>
            apply Or.inl
            apply insertOrReplaceMessage_of_none
            rintro id' ⟨⟩
            exact hfind
        | some m =>
            obtain ⟨pos, hpos, -, hset⟩ :=
              insertOrReplaceMessage_of_some messageId row hfind
            exact Or.inr ⟨pos, m, hpos, h id rfl m hfind, hset⟩

end Rows

/-! ## On delivery -/

def PchatMessageDeliver.row (msg : PchatMessageDeliver lib) (pchat : PchatState lib) :
    ChatMessage :=
  let channelId := msg.channelId.getD 0
  (receive codecs (msg.inbound codecs channelId) pchat).2.chatMessage channelId

theorem messageId_row (msg : PchatMessageDeliver lib) (pchat : PchatState lib) :
    (msg.row codecs pchat).messageId = some (msg.messageId.getD "") :=
  congrArg some (messageId_receive codecs _ pchat)

theorem senderHash_row (msg : PchatMessageDeliver lib) (pchat : PchatState lib) :
    (msg.row codecs pchat).senderHash = some (msg.senderHash.getD "") := by
  change some (receive codecs _ pchat).2.senderHash = _
  rw [receive_eq_outcome, InboundEnvelope.senderHash_outcome]
  rfl

/-- What delivery does to the history: nothing in other channels, and in its channel the
message is stored as if it named none, or takes the place of a message of its sender. -/
structure DeliversAsOwn (msg : PchatMessageDeliver lib) (state : SharedState lib) : Prop where
  others : ∀ channelId ≠ msg.channelId.getD 0,
    (handleMsgDeliver codecs msg state).byChannel channelId = state.byChannel channelId
  disabled : state.pchat = none → handleMsgDeliver codecs msg state = state
  channel : ∀ pchat ∈ state.pchat,
    StoresAsOwn (state.byChannel (msg.channelId.getD 0)) (msg.messageId.getD "")
      (msg.row codecs pchat)
      ((handleMsgDeliver codecs msg state).byChannel (msg.channelId.getD 0))

theorem byChannel_handleMsgDeliver (msg : PchatMessageDeliver lib) {state : SharedState lib}
    {pchat : PchatState lib} (hpchat : state.pchat = some pchat) :
    (handleMsgDeliver codecs msg state).byChannel =
      Function.update state.byChannel (msg.channelId.getD 0)
        (insertOrReplaceMessage ChatMessage.messageId (state.byChannel (msg.channelId.getD 0))
          (msg.messageId.getD "") msg.replacesId (msg.row codecs pchat)) := by
  unfold handleMsgDeliver
  rw [hpchat]
  dsimp only
  rw [messageId_receive]
  rfl

theorem deliversAsOwn_iff (msg : PchatMessageDeliver lib) (state : SharedState lib) :
    DeliversAsOwn codecs msg state ↔ state.pchat = none ∨
      NamesOwn (state.byChannel (msg.channelId.getD 0)) msg.replacesId
        (some (msg.senderHash.getD "")) := by
  cases hpchat : state.pchat with
  | none =>
      have hsame : handleMsgDeliver codecs msg state = state := by
        unfold handleMsgDeliver
        rw [hpchat]
      simp only [true_or, iff_true]
      exact {
        others := fun channelId _ => by rw [hsame]
        disabled := fun _ => hsame
        channel := fun pchat hmem => by rw [hpchat] at hmem; cases hmem }
  | some pchat =>
      have hrows := byChannel_handleMsgDeliver codecs msg hpchat
      have hstores := storesAsOwn_iff (state.byChannel (msg.channelId.getD 0)) msg.replacesId
        (messageId_row codecs msg pchat)
      rw [senderHash_row] at hstores
      rw [← hstores, or_iff_right (Option.some_ne_none pchat)]
      constructor
      · intro h
        have hchannel := h.channel pchat hpchat
        rwa [hrows, Function.update_self] at hchannel
      · intro h
        exact {
          others := fun channelId hne => by rw [hrows, Function.update_of_ne hne]
          disabled := fun hnone => by rw [hpchat] at hnone; cases hnone
          channel := fun pchat' hmem => by
            rw [hpchat] at hmem
            cases hmem
            rw [hrows, Function.update_self]
            exact h }

/-! ## Everywhere -/

/-- A message that names another one supersedes only a message of its own sender, in the
history and in the stores of the providers. -/
structure SupersedesOwn (msg : PchatMessageDeliver lib) (state : SharedState lib)
    (provider : CompositeMessageProvider) (channelId : UInt32) (replacesId : String)
    (replacement : StoredMessage) : Prop where
  history : DeliversAsOwn codecs msg state
  volatile : ReplacesOwn channelId replacesId replacement provider.volatile.messages
    (provider.replaceMessage channelId replacesId replacement).1.volatile.messages
  persistent : ReplacesOwn channelId replacesId replacement provider.persistent.backend.cache
    (provider.replaceMessage channelId replacesId replacement).1.persistent.backend.cache

/-- A replacement supersedes a message of its own sender exactly if the id it names is one of
them. -/
theorem supersedesOwn_iff (msg : PchatMessageDeliver lib) (state : SharedState lib)
    (provider : CompositeMessageProvider) (channelId : UInt32) (replacesId : String)
    (replacement : StoredMessage) :
    SupersedesOwn codecs msg state provider channelId replacesId replacement ↔
      state.pchat = none ∨ NamesOwn (state.byChannel (msg.channelId.getD 0)) msg.replacesId
        (some (msg.senderHash.getD "")) := by
  rw [← deliversAsOwn_iff codecs]
  have hproviders := provider.replacesOwn channelId replacesId replacement
  constructor
  · exact SupersedesOwn.history
  · intro h
    exact ⟨h, hproviders.1, hproviders.2⟩

section Example

private def authorRow : ChatMessage where
  senderName := "Author"
  senderHash := some "author"
  body := "hello"
  channelId := 1
  messageId := some "id"
  timestamp := some 1
  decrypted := true

private def replacingExample : PchatMessageDeliver symbolic where
  messageId := some "new"
  channelId := some 1
  timestamp := some 2
  senderHash := some "other"
  protocol := some 2
  envelope := none
  replacesId := some "id"

/-- A message is superseded by one of another sender. -/
theorem foreign_message_superseded :
    ¬∀ (lib : Libraries) (codecs : Codecs lib) (msg : PchatMessageDeliver lib)
      (state : SharedState lib) (provider : CompositeMessageProvider) (channelId : UInt32)
      (replacesId : String) (replacement : StoredMessage),
      SupersedesOwn codecs msg state provider channelId replacesId replacement := by
  intro h
  have hdelivers := (h symbolic symbolicCodecs replacingExample
    { pchat := some {}, byChannel := fun _ => [authorRow] } {} 1 "id"
    { messageId := "new", channelId := 1, timestamp := 2, senderHash := "other",
      senderName := "Other", body := "", encrypted := false }).history
  rcases (deliversAsOwn_iff symbolicCodecs _ _).mp hdelivers with hnone | hown
  · cases hnone
  · have hsender := hown "id" rfl authorRow rfl
    exact absurd hsender (by decide)

end Example

end FancyMumble.Messages
