import FancyMumble.Messages.Inbound
import Mathlib.Data.Finset.Basic

/-!
# Unread messages and notifications

A delivered message is stored first. It is counted and announced afterwards, from the selection
and from the last row of its channel, whatever storing it came to.
-/

namespace FancyMumble.Messages

open Signal

variable {lib : Libraries} (codecs : Codecs lib)

/-! ## The handler -/

def stripTags : Bool → List Char → List Char
  | _, [] => []
  | _, '<' :: rest => stripTags true rest
  | _, '>' :: rest => stripTags false rest
  | true, _ :: rest => stripTags true rest
  | false, ch :: rest => ch :: stripTags false rest

def stripHtmlTags (html : String) : String := String.ofList (stripTags false html.toList)

example : stripHtmlTags "<div><p>text</p></div>" = "text" := by decide

structure ChatUser where
  session : UInt32
  name : String
  hash : Option String := none
  texture : Option (List UInt8) := none

/-- `SharedState`, with what is read for counting and announcing. Users are in the order of the
map. -/
structure ChatState (lib : Libraries) where
  shared : SharedState lib := {}
  selectedChannel : Option UInt32 := none
  channelUnread : UInt32 → UInt32 := fun _ => 0
  users : List ChatUser := []
  channelNames : UInt32 → Option String := fun _ => none
  permanentlyListened : Finset UInt32 := ∅
  appFocused : Bool := false
  notificationsEnabled : Bool := true

inductive ChatEvent where
  | newMessage (channelId : UInt32) (senderSession : Option UInt32)
  | unreadChanged (unreads : UInt32 → UInt32)
  | notification (title body : String) (icon : Option (List UInt8)) (channelId : Option UInt32)
  | requestUserAttention
  | stateChanged

namespace PchatMessageDeliver

variable (self : PchatMessageDeliver lib)

def channel : UInt32 := self.channelId.getD 0

def sender (users : List ChatUser) : Option ChatUser :=
  users.find? fun u => u.hash = some (self.senderHash.getD "")

def count (state : ChatState lib) : ChatState lib :=
  if state.selectedChannel ≠ some self.channel then
    { state with
      channelUnread := Function.update state.channelUnread self.channel
        (state.channelUnread self.channel + 1) }
  else state

def handle (state : ChatState lib) : ChatState lib × List ChatEvent :=
  let state := { state with shared := handleMsgDeliver codecs self state.shared }
  let unreadsChanged := state.selectedChannel ≠ some self.channel
  let state := self.count state
  let senderSession := (self.sender state.users).map ChatUser.session
  let entry := senderSession.bind fun sid => state.users.find? fun u => u.session = sid
  let senderName := (entry.map ChatUser.name).getD "Unknown"
  let body := (((state.shared.byChannel self.channel).getLast?).map ChatMessage.body).getD ""
  let title := match state.channelNames self.channel with
    | some name => senderName ++ " in #" ++ name
    | none => senderName
  (state,
    [.newMessage self.channel senderSession] ++
      (if unreadsChanged then [.unreadChanged state.channelUnread] else []) ++
      (if (unreadsChanged ∨ ¬state.appFocused) ∧ state.notificationsEnabled then
        [.notification title (stripHtmlTags body) (entry.bind ChatUser.texture)
          (some self.channel)]
      else []) ++
      (if unreadsChanged ∧ self.channel ∈ state.permanentlyListened then [.requestUserAttention]
      else []) ++
      [.stateChanged])

/-! ## What is to be counted and announced -/

def IsNew (rows : List ChatMessage) : Prop :=
  (∀ id ∈ self.replacesId, ∀ m ∈ rows, m.messageId ≠ some id) ∧
    ∀ m ∈ rows, m.messageId ≠ some (self.messageId.getD "")

def ReplacesLast (rows : List ChatMessage) : Prop :=
  ∃ id ∈ self.replacesId, rows.findIdx? (fun m => m.messageId = some id) = some (rows.length - 1)

def BecomesVisible (state : ChatState lib) : Prop :=
  (∃ pchat, state.shared.pchat = some pchat ∧ self.senderHash.getD "" ≠ pchat.ownCertHash) ∧
    self.IsNew (state.shared.byChannel self.channel)

/-- Exactly a message that becomes visible in a channel that is not selected is counted, and
only for its channel. -/
def Counted (state : ChatState lib) : Prop :=
  ∀ channel,
    (channel = self.channel ∧ state.selectedChannel ≠ some self.channel ∧
        self.BecomesVisible state →
      ((self.handle codecs state).1.channelUnread channel).toNat =
        (state.channelUnread channel).toNat + 1) ∧
    (¬(channel = self.channel ∧ state.selectedChannel ≠ some self.channel ∧
        self.BecomesVisible state) →
      (self.handle codecs state).1.channelUnread channel = state.channelUnread channel)

def Announced (state : ChatState lib) : Prop :=
  ∀ title body icon channelId,
    ChatEvent.notification title body icon channelId ∈ (self.handle codecs state).2 →
      ∃ pchat, state.shared.pchat = some pchat ∧
        body = stripHtmlTags (receive codecs (self.inbound codecs self.channel) pchat).2.body

/-- The channel is selected, or the message becomes visible and its counter is not full. -/
def CountsVisible (state : ChatState lib) : Prop :=
  state.selectedChannel = some self.channel ∨
    self.BecomesVisible state ∧ (state.channelUnread self.channel).toNat + 1 < 2 ^ 32

/-- When there is a notification, the message can be read, and is a new row, takes the place of
the last one, or has the same text as the last one. -/
def AnnouncesLast (state : ChatState lib) : Prop :=
  (state.selectedChannel ≠ some self.channel ∨ state.appFocused = false) →
    state.notificationsEnabled = true → ∃ pchat, state.shared.pchat = some pchat ∧
      (self.IsNew (state.shared.byChannel self.channel) ∨
        self.ReplacesLast (state.shared.byChannel self.channel) ∨
        ∃ last ∈ (state.shared.byChannel self.channel).getLast?,
          stripHtmlTags last.body =
            stripHtmlTags (receive codecs (self.inbound codecs self.channel) pchat).2.body)

/-! ## The last row -/

section LastRow

variable {self} {rows : List ChatMessage} {row : ChatMessage}

theorem getLast?_pushCapped (rows : List ChatMessage) (row : ChatMessage) :
    (pushCapped rows row).getLast? = some row := by
  have hdrop : rows.length + 1 - maxMessagesPerThread ≤ rows.length := by
    have hpos := maxMessagesPerThread_pos
    omega
  rw [pushCapped, List.drop_append_of_le_length hdrop]
  exact List.getLast?_concat

theorem getLast?_of_isNew (h : self.IsNew rows) :
    (insertOrReplaceMessage ChatMessage.messageId rows (self.messageId.getD "") self.replacesId
      row).getLast? = some row := by
  have hnone : self.replacesId.bind
      (fun id => rows.findIdx? fun m => m.messageId = some id) = none := by
    cases hreplaces : self.replacesId with
    | none => rfl
    | some id =>
        refine List.findIdx?_eq_none_iff.mpr fun m hm => decide_eq_false ?_
        exact h.1 id hreplaces m hm
  have hnew : some (self.messageId.getD "") ∉ rows.map ChatMessage.messageId := by
    intro hmem
    obtain ⟨m, hm, hid⟩ := List.mem_map.mp hmem
    exact h.2 m hm hid
  rw [insertOrReplaceMessage, hnone]
  dsimp only
  rw [insertNew_of_notMem hnew, getLast?_pushCapped]

theorem getLast?_of_replacesLast (h : self.ReplacesLast rows) :
    (insertOrReplaceMessage ChatMessage.messageId rows (self.messageId.getD "") self.replacesId
      row).getLast? = some row := by
  obtain ⟨id, hid, hpos⟩ := h
  have hlt : rows.length - 1 < rows.length := (List.findIdx?_eq_some_iff_getElem.mp hpos).1
  rw [insertOrReplaceMessage, Option.mem_def.mp hid, Option.bind_some, hpos]
  dsimp only
  rw [List.getLast?_eq_getElem?, List.length_set, List.getElem?_set_self hlt]

theorem getLast?_of_not_isNew (hnew : ¬self.IsNew rows) (hlast : ¬self.ReplacesLast rows)
    (row : ChatMessage) :
    rows ≠ [] ∧
      (insertOrReplaceMessage ChatMessage.messageId rows (self.messageId.getD "") self.replacesId
        row).getLast? = rows.getLast? := by
  cases hpos : self.replacesId.bind (fun id => rows.findIdx? fun m => m.messageId = some id) with
  | some pos =>
      obtain ⟨id, hid, hfind⟩ := Option.bind_eq_some_iff.mp hpos
      have hlt : pos < rows.length := (List.findIdx?_eq_some_iff_getElem.mp hfind).1
      have hne : pos ≠ rows.length - 1 := by
        rintro rfl
        exact hlast ⟨id, hid, hfind⟩
      refine ⟨List.ne_nil_of_length_pos (Nat.lt_of_le_of_lt (Nat.zero_le _) hlt), ?_⟩
      rw [insertOrReplaceMessage, hpos]
      dsimp only
      rw [List.getLast?_eq_getElem?, List.length_set, List.getElem?_set_ne hne,
        List.getLast?_eq_getElem?]
  | none =>
      have hpresent : some (self.messageId.getD "") ∈ rows.map ChatMessage.messageId := by
        by_contra hmissing
        refine hnew ⟨fun id hid m hm heq => ?_, fun m hm heq => ?_⟩
        · rw [Option.mem_def.mp hid, Option.bind_some, List.findIdx?_eq_none_iff] at hpos
          exact absurd heq (of_decide_eq_false (hpos m hm))
        · exact hmissing (heq ▸ List.mem_map_of_mem hm)
      refine ⟨fun hnil => ?_, ?_⟩
      · rw [hnil] at hpresent
        cases hpresent
      · rw [insertOrReplaceMessage, hpos]
        dsimp only
        rw [insertNew_of_mem hpresent]

end LastRow

/-! ## When it is -/

variable {state : ChatState lib}

theorem channelUnread_handle (state : ChatState lib) :
    (self.handle codecs state).1.channelUnread =
      if state.selectedChannel ≠ some self.channel then
        Function.update state.channelUnread self.channel
          (state.channelUnread self.channel + 1)
      else state.channelUnread := by
  rw [handle, count]
  dsimp only
  split
  · rfl
  · rfl

/-- The message is counted right exactly if its channel is selected, or it becomes visible there. -/
theorem counted_iff : self.Counted codecs state ↔ self.CountsVisible state := by
  unfold Counted CountsVisible
  rw [channelUnread_handle]
  by_cases hselected : state.selectedChannel = some self.channel
  · rw [if_neg (not_not_intro hselected)]
    exact iff_of_true (fun _ => ⟨fun hcounts => absurd hselected hcounts.2.1, fun _ => rfl⟩)
      (.inl hselected)
  · rw [if_pos hselected, or_iff_right hselected]
    have hnext : (state.channelUnread self.channel + 1).toNat =
        ((state.channelUnread self.channel).toNat + 1) % 2 ^ 32 := by
      rw [UInt32.toNat_add]
      rfl
    constructor
    · intro h
      obtain ⟨hcounted, hnot⟩ := h self.channel
      rw [Function.update_self] at hcounted hnot
      have hvisible : self.BecomesVisible state := by
        by_contra hvisible
        have hsame := congrArg UInt32.toNat (hnot fun hcounts => hvisible hcounts.2.2)
        omega
      have hgrown := hcounted ⟨rfl, hselected, hvisible⟩
      refine ⟨hvisible, ?_⟩
      rw [← hgrown]
      exact UInt32.toNat_lt _
    · rintro ⟨hvisible, hfits⟩ channel
      by_cases hchannel : channel = self.channel
      · subst hchannel
        rw [Function.update_self]
        exact ⟨fun _ => hnext.trans (Nat.mod_eq_of_lt hfits),
          fun hnot => absurd ⟨rfl, hselected, hvisible⟩ hnot⟩
      · rw [Function.update_of_ne hchannel]
        exact ⟨fun hcounts => absurd hcounts.1 hchannel, fun _ => rfl⟩

def lastBody (state : ChatState lib) : String :=
  ((((handleMsgDeliver codecs self state.shared).byChannel self.channel).getLast?).map
    ChatMessage.body).getD ""

theorem count_eq (state : ChatState lib) :
    self.count state = { state with channelUnread := (self.count state).channelUnread } := by
  rw [count]
  split
  · rfl
  · rfl

theorem notification_mem_handle_iff (body : String) :
    (∃ title icon channelId,
        ChatEvent.notification title body icon channelId ∈ (self.handle codecs state).2) ↔
      ((state.selectedChannel ≠ some self.channel ∨ state.appFocused = false) ∧
        state.notificationsEnabled = true) ∧
          body = stripHtmlTags (self.lastBody codecs state) := by
  rw [handle, count_eq]
  dsimp only
  simp only [List.mem_append, List.mem_singleton, List.mem_ite_nil_right, reduceCtorEq, and_false,
    false_or, or_false, ChatEvent.notification.injEq, Bool.not_eq_true]
  constructor
  · rintro ⟨title, icon, channelId, hnotifies, -, hbody, -, -⟩
    exact ⟨hnotifies, hbody⟩
  · rintro ⟨hnotifies, hbody⟩
    exact ⟨_, _, _, hnotifies, rfl, hbody, rfl, rfl⟩

theorem lastBody_iff {pchat : PchatState lib} (hpchat : state.shared.pchat = some pchat) :
    stripHtmlTags (self.lastBody codecs state) =
        stripHtmlTags (receive codecs (self.inbound codecs self.channel) pchat).2.body ↔
      self.IsNew (state.shared.byChannel self.channel) ∨
        self.ReplacesLast (state.shared.byChannel self.channel) ∨
        ∃ last ∈ (state.shared.byChannel self.channel).getLast?,
          stripHtmlTags last.body =
            stripHtmlTags (receive codecs (self.inbound codecs self.channel) pchat).2.body := by
  have hrow : (handleMsgDeliver codecs self state.shared).byChannel self.channel =
      insertOrReplaceMessage ChatMessage.messageId (state.shared.byChannel self.channel)
        (self.messageId.getD "") self.replacesId
        ((receive codecs (self.inbound codecs self.channel) pchat).2.chatMessage self.channel) := by
    rw [handleMsgDeliver, hpchat]
    dsimp only
    rw [messageId_receive]
    exact Function.update_self ..
  rw [lastBody, hrow]
  by_cases hnew : self.IsNew (state.shared.byChannel self.channel)
  · rw [getLast?_of_isNew hnew]
    exact iff_of_true rfl (.inl hnew)
  · by_cases hlast : self.ReplacesLast (state.shared.byChannel self.channel)
    · rw [getLast?_of_replacesLast hlast]
      exact iff_of_true rfl (.inr (.inl hlast))
    · obtain ⟨hne, hsame⟩ := getLast?_of_not_isNew hnew hlast
        ((receive codecs (self.inbound codecs self.channel) pchat).2.chatMessage self.channel)
      rw [hsame, or_iff_right hnew, or_iff_right hlast, List.getLast?_eq_some_getLast hne]
      simp

theorem announced_iff : self.Announced codecs state ↔ self.AnnouncesLast codecs state := by
  constructor
  · intro h hnotifies henabled
    obtain ⟨title, icon, channelId, hmem⟩ := (self.notification_mem_handle_iff codecs _).mpr
      ⟨⟨hnotifies, henabled⟩, rfl⟩
    obtain ⟨pchat, hpchat, hbody⟩ := h _ _ _ _ hmem
    exact ⟨pchat, hpchat, (self.lastBody_iff codecs hpchat).mp hbody⟩
  · intro h title body icon channelId hmem
    obtain ⟨⟨hnotifies, henabled⟩, hbody⟩ :=
      (self.notification_mem_handle_iff codecs body).mp ⟨title, icon, channelId, hmem⟩
    obtain ⟨pchat, hpchat, hlast⟩ := h hnotifies henabled
    exact ⟨pchat, hpchat, hbody.trans ((self.lastBody_iff codecs hpchat).mpr hlast)⟩

/-- For every history and selection, a delivered message is counted exactly if it becomes visible
in a channel that is not selected, and announced with its own text, exactly if it becomes
visible there and its text is the one of the last row. -/
theorem counted_and_announced_iff (state : ChatState lib) :
    self.Counted codecs state ∧ self.Announced codecs state ↔
      self.CountsVisible state ∧ self.AnnouncesLast codecs state :=
  and_congr (self.counted_iff codecs) (self.announced_iff codecs)

section Example

private def rowExample (messageId body : String) : ChatMessage where
  senderName := "Peer"
  senderHash := some "peer"
  body := body
  channelId := 1
  messageId := some messageId
  timestamp := some 0
  decrypted := true

private def stateExample : ChatState symbolic where
  shared :=
    { pchat := some { ownCertHash := "me" }
      byChannel := fun _ => [rowExample "first" "one", rowExample "second" "two"] }

private def editExample : PchatMessageDeliver symbolic where
  messageId := some "third"
  channelId := some 1
  timestamp := some 1
  senderHash := some "peer"
  protocol := none
  envelope := some (.text "one, edited")
  replacesId := some "first"

/-- An edit is counted as an unread message, and announced with the text of the last row. -/
theorem edit_counted :
    ¬(editExample.Counted symbolicCodecs stateExample ∧
      editExample.Announced symbolicCodecs stateExample) := by
  rw [counted_and_announced_iff]
  rintro ⟨hselected | ⟨⟨-, hnew⟩, -⟩, -⟩
  · cases hselected
  · exact hnew.1 "first" rfl _ List.mem_cons_self rfl

end Example

end PchatMessageDeliver

end FancyMumble.Messages
