import FancyMumble.Lib.BoundedLog
import FancyMumble.Messages.Deletion
import FancyMumble.Messages.Edits
import FancyMumble.Messages.Replacement
import FancyMumble.Messages.Stash

/-!
# Threads

Messages come into a thread when they are delivered, fetched, drained, sent, or received as
plain texts, each in a way of its own. In all of them a thread should stay a bounded log:
of messages with ids of their own, from which the oldest ones are dropped.
-/

namespace FancyMumble.Messages

open Lib.BoundedLog Lib.Runs Signal

variable {lib : Libraries} (codecs : Codecs lib)

/-! ## Histories -/

structure Histories (lib : Libraries) where
  shared : SharedState lib := {}
  byDm : UInt32 → List ChatMessage := fun _ => []

/-- What happens to the histories, and to the persistent chat between the messages: it is set
up, or its keys change. -/
inductive HistoryEvent (lib : Libraries) where
  | inbound (event : InboundEvent lib)
  | fetched (response : PchatFetchResponse lib)
  | sent (data : OwnMessageData) (freshId : String)
  | sentDm (targetSession : UInt32) (data : OwnMessageData) (freshId : String)
  | plain (event : TextEvent)
  | deleted (msg : PchatDeleteMessages)
  | pchatChanged (pchat : Option (PchatState lib))

def handleFetchResp (response : PchatFetchResponse lib) (state : SharedState lib) :
    SharedState lib :=
  match state.pchat with
  | none => state
  | some pchat =>
      let channelId := response.channelId.getD 0
      let (pchat, rows) := decryptFetchedMessages codecs pchat.ownCertHash pchat response.messages
      { state with
        pchat := some pchat
        byChannel := Function.update state.byChannel channelId
          (mergeDecryptedMessages (state.byChannel channelId) rows) }

/-! ## What handlers leave of a history -/

def openedBy (loaded : Option (SignalBridgeCtx lib)) (senderHash : String)
    (senderChannel : UInt32) (data : lib.Bytes) (state : SharedState lib) :
    List (PendingSignalEnvelope lib × MessageEnvelope) :=
  match state.pchat with
  | none => []
  | some pchat =>
      match pchat.processSenderKey loaded senderHash senderChannel data with
      | (_, .error _) => []
      | (pchat, .ok ()) =>
          let matched := pchat.pendingSignalEnvelopes.filter (·.IsFrom senderHash senderChannel)
          let remaining :=
            pchat.pendingSignalEnvelopes.filter (¬·.IsFrom senderHash senderChannel)
          (openStashed codecs { pchat with pendingSignalEnvelopes := remaining } matched).2.2

section Handlers

variable {codecs} {state : SharedState lib}

theorem byChannel_handleFetchResp (response : PchatFetchResponse lib) {pchat : PchatState lib}
    (hpchat : state.pchat = some pchat) :
    (handleFetchResp codecs response state).byChannel =
      Function.update state.byChannel (response.channelId.getD 0)
        (mergeDecryptedMessages (state.byChannel (response.channelId.getD 0))
          (decryptFetchedMessages codecs pchat.ownCertHash pchat response.messages).2) := by
  unfold handleFetchResp
  rw [hpchat]

theorem byChannel_handleOfflineMessages (channelId : UInt32)
    (messages : List (PchatMessageDeliver lib)) {pchat : PchatState lib}
    (hpchat : state.pchat = some pchat) (hmessages : messages.isEmpty = false) :
    (handleOfflineMessages codecs channelId messages state).1.byChannel =
      Function.update state.byChannel channelId
        (((decryptOfflineBatch codecs channelId pchat messages).2.foldl
          (fun rows msg => insertNew ChatMessage.messageId rows msg.messageId
            (msg.chatMessage channelId))
          (state.byChannel channelId)).insertionSort
            fun a b => a.timestamp.getD 0 ≤ b.timestamp.getD 0) := by
  unfold handleOfflineMessages
  dsimp only
  rw [hmessages, hpchat]
  rfl

theorem byChannel_handleSignalSenderKeyByHash (loaded : Option (SignalBridgeCtx lib))
    (senderHash : String) (senderChannel : UInt32) (data : lib.Bytes) :
    (handleSignalSenderKeyByHash codecs loaded senderHash senderChannel data state).byChannel =
      SharedState.showResults state.byChannel
        (openedBy codecs loaded senderHash senderChannel data state) := by
  unfold openedBy
  cases hpchat : state.pchat with
  | none =>
      rw [handleSignalSenderKeyByHash_of_none codecs hpchat]
      rfl
  | some pchat =>
      dsimp only
      split
      next _ keyed e hkey =>
        rw [handleSignalSenderKeyByHash_of_error codecs hpchat hkey]
        rfl
      next _ keyed hkey =>
        rw [handleSignalSenderKeyByHash_of_ok codecs hpchat hkey]
        unfold retryStashedSignalEnvelopes
        dsimp only
        split
        next hempty =>
          rw [List.isEmpty_iff.mp hempty]
          rfl
        next => rfl

theorem channelId_openedBy {loaded : Option (SignalBridgeCtx lib)} {senderHash : String}
    {senderChannel : UInt32} {data : lib.Bytes} :
    ∀ result ∈ openedBy codecs loaded senderHash senderChannel data state,
      result.1.channelId = senderChannel := by
  intro result hresult
  unfold openedBy at hresult
  split at hresult
  next => exact absurd hresult List.not_mem_nil
  next =>
    split at hresult
    next => exact absurd hresult List.not_mem_nil
    next =>
      have hmatched := SharedState.openStashed_mem codecs _ _ result hresult
      exact (of_decide_eq_true (List.mem_filter.mp hmatched).2).2

end Handlers

/-! ## Runs of a history -/

def TextEvent.IsStored (event : TextEvent) : Prop :=
  event.message.editId.isSome = false ∧
    ¬(event.message.actor = event.directory.ownSession ∧ event.message.actor.isSome)

namespace Histories

def thread (s : Histories lib) : Thread → List ChatMessage
  | .channel channelId => s.shared.byChannel channelId
  | .direct session => s.byDm session

/-- A plain message that is not an edit; edits keep the ids and the places of messages. -/
def handlePlain (event : TextEvent) (s : Histories lib) : Histories lib :=
  let tm := event.message
  if tm.editId.isSome then s
  else if tm.actor = event.directory.ownSession ∧ tm.actor.isSome then s
  else
    match classify tm with
    | .directMessage =>
        match directMessageRow event.directory (event.freshId 0) tm with
        | none => s
        | some (session, row) =>
            { s with
              byDm := Function.update s.byDm session (s.byDm session ++ [row.toChatMessage]) }
    | .channel =>
        { s with
          shared :=
            { s.shared with
              byChannel := (channelMessageRows event.directory event.freshId tm).foldl
                (fun byChannel target => Function.update byChannel target.1
                  (pushCapped (byChannel target.1) target.2.toChatMessage)) s.shared.byChannel } }

def step (s : Histories lib) : HistoryEvent lib → Histories lib
  | .inbound event => { s with shared := s.shared.step codecs event }
  | .fetched response => { s with shared := handleFetchResp codecs response s.shared }
  | .sent data freshId => { s with shared := storeOwnMessage freshId data s.shared }
  | .sentDm targetSession data freshId =>
      { s with
        byDm := Function.update s.byDm targetSession
          (pushCapped (s.byDm targetSession) { data.row freshId with channelId := 0 }) }
  | .plain event => s.handlePlain event
  | .deleted msg => { s with shared := handleDeleteMessages msg s.shared }
  | .pchatChanged pchat => { s with shared := { s.shared with pchat } }

end Histories

/-! ## Bounded logs -/

def ChatMessage.date (m : ChatMessage) : ℕ := (m.timestamp.getD 0).toNat

def Thread.Holds : Thread → ChatMessage → Prop
  | .channel channelId, m => m.channelId = channelId
  | .direct _, _ => True

structure ThreadSound (t : Thread) (rows : List ChatMessage) : Prop
    extends IsLog ChatMessage.messageId maxMessagesPerThread rows where
  holds : ∀ m ∈ rows, t.Holds m

def HistoryEvent.Removes (t : Thread) (m : ChatMessage) : HistoryEvent lib → Prop
  | .deleted msg => t = .channel (msg.channelId.getD 0) ∧ msg.drops m = true
  | .inbound (.msgDeliver msg) =>
      t = .channel (msg.channelId.getD 0) ∧ msg.replacesId.isSome ∧ m.messageId = msg.replacesId
  | _ => False

/-- Every thread is a bounded log after the event, and what is gone otherwise has been dropped
from a full thread that holds no older message. -/
structure KeepsHistory (s : Histories lib) (event : HistoryEvent lib) : Prop where
  sound : ∀ t, ThreadSound t ((s.step codecs event).thread t)
  oldest : ∀ t, ∀ m ∈ s.thread t,
    m.messageId ∉ ((s.step codecs event).thread t).map ChatMessage.messageId →
      event.Removes t m ∨
        ((s.step codecs event).thread t).length = maxMessagesPerThread ∧
          ∀ other ∈ (s.step codecs event).thread t, m.date ≤ other.date

/-! ## What the ways in ask for -/

/-- What decides about the place of a message: its id, and what messages are sorted by. -/
abbrev Entry : Type := Option String × ℕ

def ChatMessage.entry (m : ChatMessage) : Entry := (m.messageId, m.date)

def PchatMessageDeliver.entry (msg : PchatMessageDeliver lib) : Entry :=
  (some (msg.messageId.getD ""), (msg.timestamp.getD 0).toNat)

def FitsThread (thread : List Entry) (entry : Entry) : Prop :=
  entry.1 ∉ (kept maxMessagesPerThread thread).map Prod.fst ∧
    PushesOutOldest Prod.snd maxMessagesPerThread thread entry

def FitAll : (UInt32 → List Entry) → List (UInt32 × Entry) → Prop
  | _, [] => True
  | threads, (channelId, entry) :: rest =>
      FitsThread (threads channelId) entry ∧
        FitAll (Function.update threads channelId
          (push maxMessagesPerThread (threads channelId) entry)) rest

/-- Each message that has a new id finds the oldest message in front if the thread is full. -/
def InsertAll : List Entry → List Entry → Prop :=
  InsertsOldest Prod.fst Prod.snd maxMessagesPerThread

/-- What is delivered takes the place of a message with no other id in use, or is inserted. -/
def DeliversFit (rows : List ChatMessage) (replacesId : Option String) (entry : Entry) : Prop :=
  match replacesId.bind fun id => rows.findIdx? fun m => m.messageId = some id with
  | some pos => entry.1 ∉ (rows.eraseIdx pos).map ChatMessage.messageId
  | none => InsertAll (rows.map ChatMessage.entry) [entry]

/-- New messages of a fetch, by id and channel: of the channel, with ids of their own, and not
too many. -/
structure FetchFits (channelId : UInt32) (present : List (Option String))
    (fetched : List (Option String × UInt32)) : Prop where
  nodup : ((fetched.filter fun m => m.1 ∉ present).map Prod.fst).Nodup
  holds : ∀ m ∈ fetched, m.1 ∉ present → m.2 = channelId
  length_le : present.length + (fetched.filter fun m => m.1 ∉ present).length ≤
    maxMessagesPerThread

def Histories.Admits (s : Histories lib) : HistoryEvent lib → Prop
  | .inbound (.msgDeliver msg) =>
      s.shared.pchat.isSome →
        DeliversFit (s.shared.byChannel (msg.channelId.getD 0)) msg.replacesId msg.entry
  | .inbound (.senderKey ..) => True
  | .inbound (.offlineMessages channelId messages) =>
      s.shared.pchat.isSome →
        InsertAll ((s.shared.byChannel channelId).map ChatMessage.entry)
          (messages.map PchatMessageDeliver.entry)
  | .fetched response =>
      s.shared.pchat.isSome →
        FetchFits (response.channelId.getD 0)
          ((s.shared.byChannel (response.channelId.getD 0)).map ChatMessage.messageId)
          (response.messages.map fun msg => (some (msg.messageId.getD ""), msg.channelId.getD 0))
  | .sent data freshId =>
      FitsThread ((s.shared.byChannel data.channelId).map ChatMessage.entry)
        (data.row freshId).entry
  | .sentDm targetSession data freshId =>
      FitsThread ((s.byDm targetSession).map ChatMessage.entry) (data.row freshId).entry
  | .plain event =>
      event.IsStored →
        match classify event.message with
        | .directMessage =>
            ∀ target ∈ directMessageRow event.directory (event.freshId 0) event.message,
              target.2.messageId ∉ (s.byDm target.1).map ChatMessage.messageId ∧
                (s.byDm target.1).length < maxMessagesPerThread
        | .channel =>
            FitAll (fun channelId => (s.shared.byChannel channelId).map ChatMessage.entry)
              ((channelMessageRows event.directory event.freshId event.message).map fun target =>
                (target.1, target.2.toChatMessage.entry))
  | .deleted _ => True
  | .pchatChanged _ => True

/-! ## Threads that grow -/

structure ThreadGrows (t : Thread) (rows rows' : List ChatMessage) : Prop where
  sound : ThreadSound t rows'
  ages : Ages ChatMessage.date maxMessagesPerThread rows rows'

section Grows

variable {t : Thread} {rows rows' : List ChatMessage} {row : ChatMessage}

theorem ThreadGrows.refl (h : ThreadSound t rows) : ThreadGrows t rows rows :=
  ⟨h, Ages.refl _ _ _⟩

theorem ThreadGrows.push (h : ThreadGrows t rows rows')
    (hfits : FitsThread (rows'.map ChatMessage.entry) row.entry) (hholds : t.Holds row) :
    ThreadGrows t rows (pushCapped rows' row) where
  sound :=
    { toIsLog := by
        have hid := hfits.1
        rw [kept_map, List.map_map] at hid
        exact h.sound.toIsLog.push maxMessagesPerThread_pos hid
      holds := fun m hm => by
        rcases List.mem_append.mp (List.mem_of_mem_drop hm) with hbefore | hnew
        · exact h.sound.holds m hbefore
        · rw [List.mem_singleton.mp hnew]
          exact hholds }
  ages := h.ages.push maxMessagesPerThread_pos h.sound.length_le
    ((pushesOutOldest_map ChatMessage.entry rows' row).mp hfits.2)

theorem insertNew_eq_insert {messageId : String} (hid : row.messageId = some messageId) :
    insertNew ChatMessage.messageId rows messageId row =
      insert ChatMessage.messageId maxMessagesPerThread rows row := by
  by_cases hpresent : some messageId ∈ rows.map ChatMessage.messageId
  · rw [insertNew_of_mem hpresent, insert_of_mem (hid ▸ hpresent)]
  · rw [insertNew_of_notMem hpresent, insert_of_notMem (hid ▸ hpresent)]
    rfl

theorem ThreadGrows.insertNew (h : ThreadGrows t rows rows') {messageId : String}
    (hid : row.messageId = some messageId)
    (hinserts : row.messageId ∉ rows'.map ChatMessage.messageId →
      PushesOutOldest ChatMessage.date maxMessagesPerThread rows' row)
    (hholds : t.Holds row) :
    ThreadGrows t rows (insertNew ChatMessage.messageId rows' messageId row) := by
  by_cases hpresent : some messageId ∈ rows'.map ChatMessage.messageId
  · rw [insertNew_of_mem hpresent]
    exact h
  · rw [insertNew_of_notMem hpresent]
    rw [← hid] at hpresent
    refine h.push ⟨fun hkept => hpresent ?_,
      (pushesOutOldest_map ChatMessage.entry rows' row).mpr (hinserts hpresent)⟩ hholds
    rw [kept_map, List.map_map] at hkept
    exact ((kept_sublist _ _).map _).subset hkept

theorem ThreadGrows.insertAll (h : ThreadGrows t rows rows') {decrypted : List DecryptedMsg}
    {channelId : UInt32} (ht : t = .channel channelId)
    (hinserts : InsertsOldest ChatMessage.messageId ChatMessage.date maxMessagesPerThread rows'
      (decrypted.map (DecryptedMsg.chatMessage channelId))) :
    ThreadGrows t rows (decrypted.foldl (fun messages msg =>
      Messages.insertNew ChatMessage.messageId messages msg.messageId
        (msg.chatMessage channelId)) rows') := by
  induction decrypted generalizing rows' with
  | nil => exact h
  | cons msg rest ih =>
      have hholds : t.Holds (msg.chatMessage channelId) := by
        rw [ht]
        rfl
      have hrest := hinserts.2
      rw [← insertNew_eq_insert rfl] at hrest
      exact ih (h.insertNew rfl hinserts.1 hholds) hrest

theorem ThreadGrows.append (h : ThreadSound t rows)
    (hid : row.messageId ∉ rows.map ChatMessage.messageId)
    (hlength : rows.length < maxMessagesPerThread) (hholds : t.Holds row) :
    ThreadGrows t rows (rows ++ [row]) where
  sound :=
    { toIsLog := h.toIsLog.append hid hlength
      holds := fun m hm => by
        rcases List.mem_append.mp hm with hbefore | hnew
        · exact h.holds m hbefore
        · rw [List.mem_singleton.mp hnew]
          exact hholds }
  ages := Ages.of_subset fun _ hm => List.mem_append_left _ hm

theorem filter_merge_eq {fetched : List ChatMessage}
    (hids : ∀ m ∈ fetched, m.messageId.isSome) :
    (fetched.filter fun m => m.messageId.all (· ∉ rows.filterMap ChatMessage.messageId)) =
      fetched.filter fun m => m.messageId ∉ rows.map ChatMessage.messageId := by
  apply List.filter_congr
  intro m hm
  obtain ⟨id, hid⟩ := Option.isSome_iff_exists.mp (hids m hm)
  rw [hid, Option.all_some]
  congr 1
  rw [List.mem_filterMap, List.mem_map]

theorem ThreadGrows.merge (h : ThreadSound t rows) {channelId : UInt32}
    (ht : t = .channel channelId) {fetched : List ChatMessage}
    (hids : ∀ m ∈ fetched, m.messageId.isSome)
    (hfits : FetchFits channelId (rows.map ChatMessage.messageId)
      (fetched.map fun m => (m.messageId, m.channelId))) :
    ThreadGrows t rows (mergeDecryptedMessages rows fetched) := by
  unfold mergeDecryptedMessages
  split
  · exact ThreadGrows.refl h
  · dsimp only
    rw [filter_merge_eq hids]
    have hperm := (List.perm_insertionSort
      (fun a b : ChatMessage => a.timestamp.getD 0 ≤ b.timestamp.getD 0)
      ((fetched.filter fun m => m.messageId ∉ rows.map ChatMessage.messageId) ++ rows)).symm
    have hnodup := hfits.nodup
    have hlength := hfits.length_le
    rw [List.filter_map, List.map_map] at hnodup
    rw [List.filter_map, List.length_map, List.length_map] at hlength
    have hlog : IsLog ChatMessage.messageId maxMessagesPerThread
        ((fetched.filter fun m => m.messageId ∉ rows.map ChatMessage.messageId) ++ rows) :=
      h.toIsLog.append_left hnodup
        (fun m hm => of_decide_eq_true (List.mem_filter.mp hm).2) hlength
    exact {
      sound :=
        { toIsLog := hlog.perm hperm
          holds := fun m hm => by
            rcases List.mem_append.mp (hperm.mem_iff.mpr hm) with hnew | hbefore
            · rw [ht]
              obtain ⟨hfetched, hid⟩ := List.mem_filter.mp hnew
              exact hfits.holds (m.messageId, m.channelId) (List.mem_map_of_mem hfetched)
                (of_decide_eq_true hid)
            · exact h.holds m hbefore }
      ages := (Ages.of_subset fun _ hm => List.mem_append_right _ hm).perm hperm }

theorem ThreadGrows.sort (h : ThreadGrows t rows rows') :
    ThreadGrows t rows
      (rows'.insertionSort fun a b => a.timestamp.getD 0 ≤ b.timestamp.getD 0) := by
  have hperm := (List.perm_insertionSort
    (fun a b : ChatMessage => a.timestamp.getD 0 ≤ b.timestamp.getD 0) rows').symm
  exact {
    sound :=
      { toIsLog := h.sound.toIsLog.perm hperm
        holds := fun m hm => h.sound.holds m (hperm.mem_iff.mpr hm) }
    ages := h.ages.perm hperm }

end Grows

/-! ## Events -/

variable {codecs} {s : Histories lib} {event : HistoryEvent lib}

theorem keepsHistory_of_grows
    (h : ∀ t, ThreadGrows t (s.thread t) ((s.step codecs event).thread t)) :
    KeepsHistory codecs s event where
  sound t := (h t).sound
  oldest t m hm hgone :=
    Or.inr ((h t).ages m hm fun hmem => hgone (List.mem_map_of_mem hmem))

section Update

variable {s' : Histories lib} {channelId : UInt32} {rows : List ChatMessage}

theorem thread_update_self
    (hchannel : s'.shared.byChannel = Function.update s.shared.byChannel channelId rows) :
    s'.thread (.channel channelId) = rows :=
  (congrFun hchannel channelId).trans (Function.update_self ..)

theorem thread_update_of_ne (hdm : s'.byDm = s.byDm)
    (hchannel : s'.shared.byChannel = Function.update s.shared.byChannel channelId rows)
    {t : Thread} (ht : t ≠ .channel channelId) : s'.thread t = s.thread t := by
  cases t with
  | direct session => exact congrFun hdm session
  | channel other =>
      exact (congrFun hchannel other).trans
        (Function.update_of_ne (fun hsame => ht (congrArg Thread.channel hsame)) ..)

theorem grows_update_channel (h : ∀ t, ThreadSound t (s.thread t)) (hdm : s'.byDm = s.byDm)
    (hchannel : s'.shared.byChannel = Function.update s.shared.byChannel channelId rows)
    (hrows : ThreadGrows (.channel channelId) (s.shared.byChannel channelId) rows) (t : Thread) :
    ThreadGrows t (s.thread t) (s'.thread t) := by
  by_cases ht : t = .channel channelId
  · rw [ht, thread_update_self hchannel]
    exact hrows
  · rw [thread_update_of_ne hdm hchannel ht]
    exact ThreadGrows.refl (h t)

theorem keepsHistory_of_update (h : ∀ t, ThreadSound t (s.thread t))
    (hdm : (s.step codecs event).byDm = s.byDm)
    (hchannel : (s.step codecs event).shared.byChannel =
      Function.update s.shared.byChannel channelId rows)
    (hsound : ThreadSound (.channel channelId) rows)
    (hremoved : ∀ m ∈ s.shared.byChannel channelId,
      m.messageId ∉ rows.map ChatMessage.messageId → event.Removes (.channel channelId) m) :
    KeepsHistory codecs s event where
  sound t := by
    by_cases ht : t = .channel channelId
    · rw [ht, thread_update_self hchannel]
      exact hsound
    · rw [thread_update_of_ne hdm hchannel ht]
      exact h t
  oldest t m hm hgone := by
    by_cases ht : t = .channel channelId
    · rw [ht] at hm hgone ⊢
      rw [thread_update_self hchannel] at hgone
      exact Or.inl (hremoved m hm hgone)
    · rw [thread_update_of_ne hdm hchannel ht] at hgone
      exact absurd (List.mem_map_of_mem hm) hgone

end Update

theorem grows_update_direct (h : ∀ t, ThreadSound t (s.thread t)) {s' : Histories lib}
    {session : UInt32} {rows : List ChatMessage}
    (hchannel : s'.shared.byChannel = s.shared.byChannel)
    (hdm : s'.byDm = Function.update s.byDm session rows)
    (hrows : ThreadGrows (.direct session) (s.byDm session) rows) (t : Thread) :
    ThreadGrows t (s.thread t) (s'.thread t) := by
  cases t with
  | channel channelId =>
      rw [show s'.thread (.channel channelId) = s.thread (.channel channelId) from
        congrFun hchannel channelId]
      exact ThreadGrows.refl (h _)
  | direct other =>
      rw [show s'.thread (.direct other) = Function.update s.byDm session rows other from
        congrFun hdm other]
      by_cases hsame : other = session
      · subst hsame
        rw [Function.update_self]
        exact hrows
      · rw [Function.update_of_ne hsame]
        exact ThreadGrows.refl (h (.direct other))

theorem keepsHistory_of_map (h : ∀ t, ThreadSound t (s.thread t))
    (hids : ∀ t, ((s.step codecs event).thread t).map ChatMessage.messageId =
      (s.thread t).map ChatMessage.messageId)
    (hchannels : ∀ t, ((s.step codecs event).thread t).map ChatMessage.channelId =
      (s.thread t).map ChatMessage.channelId) : KeepsHistory codecs s event where
  sound t :=
    { toIsLog := (h t).toIsLog.of_map_key (hids t)
      holds := fun m hm => by
        have hchannel : m.channelId ∈ (s.thread t).map ChatMessage.channelId :=
          hchannels t ▸ List.mem_map_of_mem hm
        obtain ⟨before, hbefore, hsame⟩ := List.mem_map.mp hchannel
        have hholds := (h t).holds before hbefore
        cases t with
        | channel channelId => exact hsame.symm.trans hholds
        | direct session => trivial }
  oldest t m hm hgone := by
    rw [hids t] at hgone
    exact absurd (List.mem_map_of_mem hm) hgone

theorem keepsHistory_of_eq (h : ∀ t, ThreadSound t (s.thread t))
    (hsame : ∀ t, (s.step codecs event).thread t = s.thread t) : KeepsHistory codecs s event :=
  keepsHistory_of_map h (fun t => by rw [hsame t]) fun t => by rw [hsame t]

theorem keepsHistory_senderKey (h : ∀ t, ThreadSound t (s.thread t))
    (loaded : Option (SignalBridgeCtx lib)) (senderHash : String) (senderChannel : UInt32)
    (data : lib.Bytes) :
    KeepsHistory codecs s (.inbound (.senderKey loaded senderHash senderChannel data)) := by
  have hshown : (s.step codecs
      (.inbound (.senderKey loaded senderHash senderChannel data))).shared.byChannel = _ :=
    byChannel_handleSignalSenderKeyByHash loaded senderHash senderChannel data
  apply keepsHistory_of_map h
  · intro t
    cases t with
    | direct session => rfl
    | channel channelId =>
        rw [Histories.thread, hshown]
        exact SharedState.map_showResults (fun _ _ _ => rfl) ..
  · intro t
    cases t with
    | direct session => rfl
    | channel channelId =>
        rw [Histories.thread, hshown]
        exact SharedState.map_showResults (fun _ _ _ => rfl) ..

theorem threadSound_set {t : Thread} {rows : List ChatMessage} {row : ChatMessage} {pos : ℕ}
    (h : ThreadSound t rows) (hpos : pos < rows.length)
    (hid : row.messageId ∉ (rows.eraseIdx pos).map ChatMessage.messageId)
    (hholds : t.Holds row) : ThreadSound t (rows.set pos row) where
  nodup := by
    have hperm : (rows.set pos row).Perm (row :: rows.eraseIdx pos) :=
      List.set_perm_cons_eraseIdx hpos row
    refine (hperm.map ChatMessage.messageId).nodup_iff.mpr ?_
    rw [List.map_cons]
    exact List.nodup_cons.mpr
      ⟨hid, h.nodup.sublist ((List.eraseIdx_sublist rows pos).map ChatMessage.messageId)⟩
  length_le := by
    rw [List.length_set]
    exact h.length_le
  holds m hm := by
    rcases List.mem_or_eq_of_mem_set hm with hbefore | rfl
    · exact h.holds m hbefore
    · exact hholds

theorem eq_of_gone_set {rows : List ChatMessage} {row m : ChatMessage} {pos : ℕ} (hm : m ∈ rows)
    (hgone : m.messageId ∉ (rows.set pos row).map ChatMessage.messageId) :
    rows[pos]? = some m := by
  obtain ⟨i, hi, rfl⟩ := List.getElem_of_mem hm
  by_cases hplace : i = pos
  · subst hplace
    exact List.getElem?_eq_getElem hi
  · have hstays : (rows.set pos row)[i]? = some rows[i] := by
      rw [List.getElem?_set_ne (Ne.symm hplace), List.getElem?_eq_getElem hi]
    exact absurd (List.mem_map_of_mem (List.mem_of_getElem? hstays)) hgone

theorem entry_receive (env : InboundEnvelope lib) (pchat : PchatState lib) (channelId : UInt32) :
    ((receive codecs env pchat).2.chatMessage channelId).entry =
      (some env.messageId, env.timestamp.toNat) := by
  rw [receive_eq_outcome]
  cases (env.decrypt codecs pchat).2 <;> rfl

theorem keepsHistory_msgDeliver (h : ∀ t, ThreadSound t (s.thread t))
    (msg : PchatMessageDeliver lib) (hadmits : s.Admits (.inbound (.msgDeliver msg))) :
    KeepsHistory codecs s (.inbound (.msgDeliver msg)) := by
  cases hpchat : s.shared.pchat with
  | none =>
      apply keepsHistory_of_eq h
      intro t
      rw [Histories.step, SharedState.step_of_none codecs hpchat]
  | some pchat =>
      have hfits := hadmits (by rw [hpchat]; rfl)
      have hentry : (msg.row codecs pchat).entry = msg.entry := entry_receive ..
      have hchannel : (s.step codecs (.inbound (.msgDeliver msg))).shared.byChannel = _ :=
        byChannel_handleMsgDeliver codecs msg hpchat
      unfold DeliversFit at hfits
      rw [← hentry] at hfits
      unfold insertOrReplaceMessage at hchannel
      split at hfits
      · next pos hpos =>
          -- the message takes the place of another one
          rw [hpos] at hchannel
          obtain ⟨id, hreplaces, hfound⟩ := Option.bind_eq_some_iff.mp hpos
          obtain ⟨hlt, hmatch, -⟩ := List.findIdx?_eq_some_iff_getElem.mp hfound
          refine keepsHistory_of_update h rfl hchannel
            (threadSound_set (h (.channel (msg.channelId.getD 0))) hlt hfits rfl)
            fun m hm hgone => ?_
          have hsame := (List.getElem?_eq_getElem hlt).symm.trans (eq_of_gone_set hm hgone)
          have hid : m.messageId = some id := by
            rw [← Option.some_inj.mp hsame]
            exact of_decide_eq_true hmatch
          exact ⟨rfl, by rw [hreplaces]; rfl, hid.trans hreplaces.symm⟩
      · next hpos =>
          rw [hpos] at hchannel
          have hinserts := ((insertsOldest_map ChatMessage.entry _ [msg.row codecs pchat]).mp
            hfits).1
          exact keepsHistory_of_grows (grows_update_channel h rfl hchannel
            ((ThreadGrows.refl (h (.channel (msg.channelId.getD 0)))).insertNew
              (messageId_row codecs msg pchat) hinserts rfl))

theorem map_entry_decryptOfflineBatch (channelId : UInt32) (pchat : PchatState lib)
    (messages : List (PchatMessageDeliver lib)) :
    ((decryptOfflineBatch codecs channelId pchat messages).2.map
      (DecryptedMsg.chatMessage channelId)).map ChatMessage.entry =
        messages.map PchatMessageDeliver.entry := by
  induction messages generalizing pchat with
  | nil => rfl
  | cons msg rest ih =>
      exact congrArg₂ List.cons (entry_receive (msg.inbound codecs channelId) pchat channelId)
        (ih _)

theorem keepsHistory_offlineMessages (h : ∀ t, ThreadSound t (s.thread t)) (channelId : UInt32)
    (messages : List (PchatMessageDeliver lib))
    (hadmits : s.Admits (.inbound (.offlineMessages channelId messages))) :
    KeepsHistory codecs s (.inbound (.offlineMessages channelId messages)) := by
  cases hpchat : s.shared.pchat with
  | none =>
      apply keepsHistory_of_eq h
      intro t
      rw [Histories.step, SharedState.step_of_none codecs hpchat]
  | some pchat =>
      cases hempty : messages.isEmpty with
      | true =>
          apply keepsHistory_of_eq h
          intro t
          rw [Histories.step, SharedState.step, handleOfflineMessages, if_pos hempty]
      | false =>
          have hinserts := hadmits (by rw [hpchat]; rfl)
          rw [← map_entry_decryptOfflineBatch channelId pchat messages] at hinserts
          have hgrows := ((ThreadGrows.refl (h (.channel channelId))).insertAll rfl
            ((insertsOldest_map ChatMessage.entry _ _).mp hinserts)).sort
          exact keepsHistory_of_grows (grows_update_channel h rfl
            (byChannel_handleOfflineMessages channelId messages hpchat hempty) hgrows)

theorem messageId_decryptFetchedMessage (ownCertHash : String) (env : InboundEnvelope lib)
    (pchat : PchatState lib) :
    (decryptFetchedMessage codecs ownCertHash env pchat).2.messageId = some env.messageId := by
  unfold decryptFetchedMessage
  dsimp only
  split <;> rfl

theorem channelId_decryptFetchedMessage (ownCertHash : String) (env : InboundEnvelope lib)
    (pchat : PchatState lib) :
    (decryptFetchedMessage codecs ownCertHash env pchat).2.channelId = env.channelId := by
  unfold decryptFetchedMessage
  dsimp only
  split <;> rfl

theorem map_decryptFetchedMessages (ownCertHash : String) (pchat : PchatState lib)
    (messages : List (PchatMessage lib)) :
    ((decryptFetchedMessages codecs ownCertHash pchat messages).2.map fun m =>
      (m.messageId, m.channelId)) =
        messages.map fun msg => (some (msg.messageId.getD ""), msg.channelId.getD 0) := by
  induction messages generalizing pchat with
  | nil => rfl
  | cons msg rest ih =>
      refine congrArg₂ List.cons (Prod.ext ?_ ?_) (ih _)
      · exact messageId_decryptFetchedMessage ownCertHash (msg.inbound codecs) pchat
      · exact channelId_decryptFetchedMessage ownCertHash (msg.inbound codecs) pchat

theorem isSome_messageId_decryptFetched (ownCertHash : String) (pchat : PchatState lib)
    (messages : List (PchatMessage lib)) :
    ∀ m ∈ (decryptFetchedMessages codecs ownCertHash pchat messages).2, m.messageId.isSome := by
  intro m hm
  have hpair : (m.messageId, m.channelId) ∈
      messages.map fun msg => (some (msg.messageId.getD ""), msg.channelId.getD 0) := by
    rw [← map_decryptFetchedMessages ownCertHash pchat messages]
    exact List.mem_map_of_mem hm
  obtain ⟨msg, -, hmsg⟩ := List.mem_map.mp hpair
  have hid : some (msg.messageId.getD "") = m.messageId := congrArg Prod.fst hmsg
  rw [← hid]
  rfl

theorem keepsHistory_fetched (h : ∀ t, ThreadSound t (s.thread t))
    (response : PchatFetchResponse lib) (hadmits : s.Admits (.fetched response)) :
    KeepsHistory codecs s (.fetched response) := by
  cases hpchat : s.shared.pchat with
  | none =>
      apply keepsHistory_of_eq h
      intro t
      rw [Histories.step, handleFetchResp, hpchat]
  | some pchat =>
      have hfits := hadmits (by rw [hpchat]; rfl)
      rw [← map_decryptFetchedMessages pchat.ownCertHash pchat response.messages] at hfits
      exact keepsHistory_of_grows (grows_update_channel h rfl
        (byChannel_handleFetchResp response hpchat)
        (ThreadGrows.merge (h (.channel (response.channelId.getD 0))) rfl
          (isSome_messageId_decryptFetched pchat.ownCertHash pchat response.messages) hfits))

theorem keepsHistory_sent (h : ∀ t, ThreadSound t (s.thread t)) (data : OwnMessageData)
    (freshId : String) (hadmits : s.Admits (.sent data freshId)) :
    KeepsHistory codecs s (.sent data freshId) :=
  keepsHistory_of_grows (grows_update_channel h rfl
    (byChannel_storeOwnMessage freshId data s.shared)
    ((ThreadGrows.refl (h (.channel data.channelId))).push hadmits rfl))

theorem keepsHistory_sentDm (h : ∀ t, ThreadSound t (s.thread t)) (targetSession : UInt32)
    (data : OwnMessageData) (freshId : String)
    (hadmits : s.Admits (.sentDm targetSession data freshId)) :
    KeepsHistory codecs s (.sentDm targetSession data freshId) :=
  keepsHistory_of_grows (grows_update_direct h rfl rfl
    ((ThreadGrows.refl (h (.direct targetSession))).push hadmits trivial))

theorem grows_fitAll {start byChannel : UInt32 → List ChatMessage}
    (h : ∀ channelId, ThreadGrows (.channel channelId) (start channelId) (byChannel channelId))
    {targets : List (UInt32 × TextRow)}
    (hfits : FitAll (fun channelId => (byChannel channelId).map ChatMessage.entry)
      (targets.map fun target => (target.1, target.2.toChatMessage.entry)))
    (hchannels : ∀ target ∈ targets, target.2.channelId = target.1) (channelId : UInt32) :
    ThreadGrows (.channel channelId) (start channelId)
      (targets.foldl (fun (byChannel : UInt32 → List ChatMessage) target =>
        Function.update byChannel target.1
          (pushCapped (byChannel target.1) target.2.toChatMessage)) byChannel channelId) := by
  induction targets generalizing byChannel with
  | nil => exact h channelId
  | cons target rest ih =>
      have hrest := hfits.2
      rw [push_map ChatMessage.entry, ← Function.comp_def (List.map ChatMessage.entry) byChannel,
        ← Function.comp_update] at hrest
      refine ih (fun other => ?_) hrest fun target hmem =>
        hchannels target (List.mem_cons_of_mem _ hmem)
      dsimp only
      by_cases hsame : other = target.1
      · subst hsame
        rw [Function.update_self]
        exact (h target.1).push hfits.1 (hchannels target List.mem_cons_self)
      · rw [Function.update_of_ne hsame]
        exact h other

theorem channelId_of_mem_channelMessageRows {directory : Directory} {freshId : ℕ → String}
    {tm : TextMessage} {target : UInt32 × TextRow}
    (h : target ∈ channelMessageRows directory freshId tm) : target.2.channelId = target.1 := by
  obtain ⟨source, -, hsource⟩ := List.mem_filterMap.mp h
  obtain ⟨row, hrow, rfl⟩ := Option.map_eq_some_iff.mp hsource
  exact channelId_channelMessageRow hrow

theorem keepsHistory_plain (h : ∀ t, ThreadSound t (s.thread t)) (event : TextEvent)
    (hadmits : s.Admits (.plain event)) : KeepsHistory codecs s (.plain event) := by
  cases hedit : event.message.editId.isSome with
  | true =>
      apply keepsHistory_of_eq h
      intro t
      rw [Histories.step, Histories.handlePlain, if_pos hedit]
  | false =>
      by_cases hown : event.message.actor = event.directory.ownSession ∧
          event.message.actor.isSome
      · apply keepsHistory_of_eq h
        intro t
        rw [Histories.step, Histories.handlePlain, if_neg (by rw [hedit]; nofun), if_pos hown]
      · have hstep : s.step codecs (.plain event) = match classify event.message with
            | .directMessage =>
                match directMessageRow event.directory (event.freshId 0) event.message with
                | none => s
                | some (session, row) =>
                    { s with
                      byDm := Function.update s.byDm session
                        (s.byDm session ++ [row.toChatMessage]) }
            | .channel =>
                { s with
                  shared :=
                    { s.shared with
                      byChannel :=
                        (channelMessageRows event.directory event.freshId event.message).foldl
                          (fun byChannel target => Function.update byChannel target.1
                            (pushCapped (byChannel target.1) target.2.toChatMessage))
                          s.shared.byChannel } } := by
          rw [Histories.step, Histories.handlePlain, if_neg (by rw [hedit]; nofun), if_neg hown]
        have hfits := hadmits ⟨hedit, hown⟩
        cases hkind : classify event.message with
        | directMessage =>
            rw [hkind] at hfits hstep
            cases hrow : directMessageRow event.directory (event.freshId 0) event.message with
            | none =>
                rw [hrow] at hstep
                exact keepsHistory_of_eq h fun t => by rw [hstep]
            | some target =>
                obtain ⟨hid, hlength⟩ := hfits target hrow
                rw [hrow] at hstep
                apply keepsHistory_of_grows
                rw [hstep]
                exact grows_update_direct h rfl rfl
                  (ThreadGrows.append (h (.direct target.1)) hid hlength trivial)
        | channel =>
            rw [hkind] at hfits hstep
            apply keepsHistory_of_grows
            intro t
            rw [hstep]
            cases t with
            | direct session => exact ThreadGrows.refl (h (.direct session))
            | channel channelId =>
                exact grows_fitAll (fun other => ThreadGrows.refl (h (.channel other))) hfits
                  (fun _ => channelId_of_mem_channelMessageRows) channelId

theorem keepsHistory_deleted (h : ∀ t, ThreadSound t (s.thread t)) (msg : PchatDeleteMessages) :
    KeepsHistory codecs s (.deleted msg) := by
  have hbefore := h (.channel (msg.channelId.getD 0))
  refine keepsHistory_of_update h rfl rfl ?_ fun m hm hgone => ⟨rfl, ?_⟩
  · exact {
      toIsLog := hbefore.toIsLog.sublist List.filter_sublist
      holds := fun m hm => hbefore.holds m (List.mem_of_mem_filter hm) }
  · by_contra hkept
    exact hgone (List.mem_map_of_mem (List.mem_filter.mpr ⟨hm, by simpa using hkept⟩))

theorem keepsHistory_of_admits (h : ∀ t, ThreadSound t (s.thread t))
    (hadmits : s.Admits event) : KeepsHistory codecs s event := by
  cases event with
  | inbound event =>
      cases event with
      | msgDeliver msg => exact keepsHistory_msgDeliver h msg hadmits
      | senderKey loaded senderHash senderChannel data =>
          exact keepsHistory_senderKey h loaded senderHash senderChannel data
      | offlineMessages channelId messages =>
          exact keepsHistory_offlineMessages h channelId messages hadmits
  | fetched response => exact keepsHistory_fetched h response hadmits
  | sent data freshId => exact keepsHistory_sent h data freshId hadmits
  | sentDm targetSession data freshId =>
      exact keepsHistory_sentDm h targetSession data freshId hadmits
  | plain event => exact keepsHistory_plain h event hadmits
  | deleted msg => exact keepsHistory_deleted h msg
  | pchatChanged pchat =>
      apply keepsHistory_of_eq h
      intro t
      cases t <;> rfl

/-- Threads stay bounded logs that lose the oldest messages, in every run in which each message
fits where it comes in. -/
theorem keepsHistory_run (events : List (HistoryEvent lib))
    (h : Along (Histories.step codecs) Histories.Admits {} events) :
    Along (Histories.step codecs) (KeepsHistory codecs) {} events := by
  have hstart : ∀ t, ThreadSound t (({} : Histories lib).thread t) := by
    intro t
    cases t <;> exact ⟨⟨List.nodup_nil, Nat.zero_le _⟩, nofun⟩
  have hstep : ∀ (s : Histories lib) (event : HistoryEvent lib),
      (∀ t, ThreadSound t (s.thread t)) → s.Admits event →
        ∀ t, ThreadSound t ((s.step codecs event).thread t) :=
    fun _ _ hs hadmits => (keepsHistory_of_admits hs hadmits).sound
  exact along_of_invariant hstep (fun _ _ => keepsHistory_of_admits) hstart h

section Example

private def storedExample : PchatMessage symbolic where
  messageId := some "id"
  channelId := some 1
  timestamp := some 7
  senderHash := some "peer"
  protocol := some 4
  envelope := some (.text "hello")

private def historyExample : List (HistoryEvent symbolic) :=
  [.pchatChanged (some {}), .fetched { channelId := some 1, messages := [storedExample] },
    .inbound (.msgDeliver
      { messageId := some "id"
        channelId := some 1
        timestamp := some 7
        senderHash := some "peer"
        protocol := some 4
        envelope := some (.text "hello") })]

theorem keepsHistory_run_example :
    Along (Histories.step symbolicCodecs) (KeepsHistory symbolicCodecs) {} historyExample := by
  refine keepsHistory_run historyExample ⟨trivial, fun _ => ⟨?_, ?_, ?_⟩, fun _ => ?_, trivial⟩
  · decide
  · decide
  · decide
  · exact ⟨fun hnew => absurd List.mem_cons_self hnew, trivial⟩

/-- A message that is in a fetch response twice is in the thread twice. -/
theorem fetched_twice_kept_twice :
    ¬∀ (lib : Libraries) (codecs : Codecs lib) (events : List (HistoryEvent lib)),
      Along (Histories.step codecs) (KeepsHistory codecs) {} events := by
  intro h
  have hkeeps := (h symbolic symbolicCodecs [.pchatChanged (some {}),
    .fetched { channelId := some 1, messages := [storedExample, storedExample] }]).2.1
  exact absurd (hkeeps.sound (.channel 1)).nodup (by decide)

end Example

end FancyMumble.Messages
