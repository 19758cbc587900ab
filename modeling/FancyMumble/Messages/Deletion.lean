import FancyMumble.Messages.Fetch

/-!
# Deleted messages

A delete notice names messages by their ids, by a range of time or by their sender. The
handler takes them out of the history of the channel, where it compares the sender with the
name that is shown; the cache and its file keep what they have.
-/

namespace FancyMumble.Messages

open Signal

variable {lib : Libraries}

structure TimeRange where
  fromTime : Option UInt64 := none
  toTime : Option UInt64 := none

structure PchatDeleteMessages where
  channelId : Option UInt32
  messageIds : List String := []
  timeRange : Option TimeRange := none
  senderHash : Option String := none

/-- What a client keeps of messages: the state of the connection, and the cache file. The
encryption of the file is left out. -/
structure MessageStores (lib : Libraries) where
  shared : SharedState lib := {}
  file : Option LocalMessageCache := none

/-! ## Handling -/

def TimeRange.contains (range : TimeRange) (ts : UInt64) : Bool :=
  range.fromTime.all (· ≤ ts) && range.toTime.all (ts ≤ ·)

namespace PchatDeleteMessages

def namesId (msg : PchatDeleteMessages) (m : ChatMessage) : Bool :=
  m.messageId.any (· ∈ msg.messageIds)

def inRange (msg : PchatDeleteMessages) (m : ChatMessage) : Bool :=
  msg.timeRange.any fun range => m.timestamp.any range.contains

def drops (msg : PchatDeleteMessages) (m : ChatMessage) : Bool :=
  msg.namesId m || msg.inRange m || msg.senderHash.any fun hash => m.senderName == hash

/-- The notice is for the message: by its id, its time, or the certificate hash of its
sender. -/
def designates (msg : PchatDeleteMessages) (m : ChatMessage) : Bool :=
  msg.namesId m || msg.inRange m || msg.senderHash.any fun hash => m.senderHash == some hash

end PchatDeleteMessages

def handleDeleteMessages (msg : PchatDeleteMessages) (state : SharedState lib) :
    SharedState lib :=
  let channelId := msg.channelId.getD 0
  { state with
    byChannel := Function.update state.byChannel channelId
      ((state.byChannel channelId).filter fun m => !msg.drops m) }

namespace MessageStores

def handleDelete (msg : PchatDeleteMessages) (stores : MessageStores lib) : MessageStores lib :=
  { stores with shared := handleDeleteMessages msg stores.shared }

def cached (stores : MessageStores lib) (channelId : UInt32) : List CachedMessage :=
  (stores.shared.pchat.map fun pchat => pchat.cached channelId).getD []

def inFile (stores : MessageStores lib) (channelId : UInt32) : List CachedMessage :=
  (stores.file.map fun cache => cache.messages channelId).getD []

def saveLocalCache (stores : MessageStores lib) : MessageStores lib :=
  match stores.shared.pchat.bind PchatState.localCache with
  | some cache => { stores with file := some cache }
  | none => stores

def loadLocalCache (stores : MessageStores lib) (channelId : UInt32) : List ChatMessage :=
  (stores.inFile channelId).map CachedMessage.chatMessage

theorem mem_inFile_saveLocalCache {stores : MessageStores lib} {channelId : UInt32}
    {m : CachedMessage} (h : m ∈ stores.saveLocalCache.inFile channelId) :
    m ∈ stores.cached channelId ∨ m ∈ stores.inFile channelId := by
  unfold saveLocalCache at h
  split at h
  next cache hcache =>
    obtain ⟨pchat, hpchat, hcache⟩ := Option.bind_eq_some_iff.mp hcache
    apply Or.inl
    unfold cached PchatState.cached
    rw [hpchat, Option.map_some, Option.getD_some, hcache]
    exact h
  next => exact Or.inr h

end MessageStores

/-! ## What is left -/

/-- Of the messages of the channel, those that the notice is for are gone from the history,
the cache, the file and what a later start restores, whether or not the cache is saved
before; all others are still there. -/
structure DeletesDesignated (msg : PchatDeleteMessages) (before after : MessageStores lib) :
    Prop where
  history : after.shared.byChannel (msg.channelId.getD 0) =
    (before.shared.byChannel (msg.channelId.getD 0)).filter fun m => !msg.designates m
  cache : ∀ m, m ∈ after.cached (msg.channelId.getD 0) ↔
    m ∈ before.cached (msg.channelId.getD 0) ∧ msg.designates m.chatMessage = false
  file : ∀ m, m ∈ after.inFile (msg.channelId.getD 0) ↔
    m ∈ before.inFile (msg.channelId.getD 0) ∧ msg.designates m.chatMessage = false
  restored : ∀ m ∈ after.loadLocalCache (msg.channelId.getD 0), msg.designates m = false
  restoredSaved : ∀ m ∈ after.saveLocalCache.loadLocalCache (msg.channelId.getD 0),
    msg.designates m = false
  others : ∀ channelId ≠ msg.channelId.getD 0,
    after.shared.byChannel channelId = before.shared.byChannel channelId ∧
      after.cached channelId = before.cached channelId ∧
      after.inFile channelId = before.inFile channelId

/-- The notice names a sender only if every message of the channel that is not named
otherwise shows the hash as its name exactly if it is the hash of its sender. -/
def ShowsHashes (msg : PchatDeleteMessages) (rows : List ChatMessage) : Prop :=
  ∀ m ∈ rows, msg.namesId m = false → msg.inRange m = false → ∀ hash ∈ msg.senderHash,
    (m.senderName = hash ↔ m.senderHash = some hash)

def NoneCached (msg : PchatDeleteMessages) (cached : List CachedMessage) : Prop :=
  ∀ m ∈ cached, msg.designates m.chatMessage = false

theorem drops_eq_designates_iff (msg : PchatDeleteMessages) (m : ChatMessage) :
    msg.drops m = msg.designates m ↔ (msg.namesId m = false → msg.inRange m = false →
      ∀ hash ∈ msg.senderHash, (m.senderName = hash ↔ m.senderHash = some hash)) := by
  unfold PchatDeleteMessages.drops PchatDeleteMessages.designates
  cases msg.namesId m with
  | true => simp
  | false =>
      cases msg.inRange m with
      | true => simp
      | false =>
          cases msg.senderHash with
          | none => simp
          | some hash =>
              simp only [Bool.or_self, Bool.false_or, Option.any_some, forall_const,
                Option.mem_some_iff, forall_eq']
              rw [Bool.eq_iff_iff, beq_iff_eq, beq_iff_eq]

theorem filter_not_eq_iff {α : Type} {p q : α → Bool} {xs : List α} :
    (xs.filter fun x => !p x) = (xs.filter fun x => !q x) ↔ ∀ x ∈ xs, p x = q x := by
  constructor
  · intro h x hx
    have hmem : (x ∈ xs.filter fun x => !p x) ↔ x ∈ xs.filter fun x => !q x := by rw [h]
    simp only [List.mem_filter, hx, true_and] at hmem
    rw [Bool.not_eq_true', Bool.not_eq_true'] at hmem
    exact Bool.eq_iff_iff.mpr (not_iff_not.mp (by simpa using hmem))
  · intro h
    apply List.filter_congr
    intro x hx
    rw [h x hx]

theorem history_handleDelete_iff (msg : PchatDeleteMessages) (stores : MessageStores lib) :
    (stores.handleDelete msg).shared.byChannel (msg.channelId.getD 0) =
        (stores.shared.byChannel (msg.channelId.getD 0)).filter (fun m => !msg.designates m) ↔
      ShowsHashes msg (stores.shared.byChannel (msg.channelId.getD 0)) := by
  have hrows : (stores.handleDelete msg).shared.byChannel (msg.channelId.getD 0) =
      (stores.shared.byChannel (msg.channelId.getD 0)).filter fun m => !msg.drops m :=
    Function.update_self ..
  rw [hrows, filter_not_eq_iff]
  exact forall₂_congr fun m _ => drops_eq_designates_iff msg m

theorem mem_iff_mem_and_iff {cached : List CachedMessage} {msg : PchatDeleteMessages} :
    (∀ m, m ∈ cached ↔ m ∈ cached ∧ msg.designates m.chatMessage = false) ↔
      NoneCached msg cached := by
  constructor
  · intro h m hm
    exact ((h m).mp hm).2
  · intro h m
    exact ⟨fun hm => ⟨hm, h m hm⟩, And.left⟩

/-- A notice is effective exactly if the names that are shown tell the senders, and nothing
that it is for is in the cache or in its file. -/
theorem deletesDesignated_iff (msg : PchatDeleteMessages) (stores : MessageStores lib) :
    DeletesDesignated msg stores (stores.handleDelete msg) ↔
      ShowsHashes msg (stores.shared.byChannel (msg.channelId.getD 0)) ∧
        NoneCached msg (stores.cached (msg.channelId.getD 0)) ∧
        NoneCached msg (stores.inFile (msg.channelId.getD 0)) := by
  constructor
  · intro h
    exact ⟨(history_handleDelete_iff msg stores).mp h.history, mem_iff_mem_and_iff.mp h.cache,
      mem_iff_mem_and_iff.mp h.file⟩
  · rintro ⟨hshown, hcache, hfile⟩
    exact {
      history := (history_handleDelete_iff msg stores).mpr hshown
      cache := mem_iff_mem_and_iff.mpr hcache
      file := mem_iff_mem_and_iff.mpr hfile
      restored := by
        intro m hm
        obtain ⟨entry, hentry, rfl⟩ := List.mem_map.mp hm
        exact hfile entry hentry
      restoredSaved := by
        intro m hm
        obtain ⟨entry, hentry, rfl⟩ := List.mem_map.mp hm
        rcases MessageStores.mem_inFile_saveLocalCache hentry with hcached | hsaved
        · exact hcache entry hcached
        · exact hfile entry hsaved
      others := fun channelId hne => ⟨Function.update_of_ne hne .., rfl, rfl⟩ }

section Example

private def cachedExample : CachedMessage where
  messageId := "id"
  channelId := 1
  timestamp := 1
  senderHash := "author"
  senderName := "Author"
  body := "hello"
  isOwn := false

private def storesExample : MessageStores symbolic where
  shared :=
    { pchat := some
        { localCache := some
            { messages := Function.update (fun _ => []) 1 [cachedExample] } }
      byChannel := Function.update (fun _ => []) 1 [cachedExample.chatMessage] }

/-- A message that is deleted by its id stays in the cache. -/
theorem deleted_message_cached :
    ¬∀ (lib : Libraries) (msg : PchatDeleteMessages) (stores : MessageStores lib),
      DeletesDesignated msg stores (stores.handleDelete msg) := by
  intro h
  have hdeletes := h symbolic { channelId := some 1, messageIds := ["id"] } storesExample
  have hcached := (hdeletes.cache cachedExample).mp List.mem_cons_self
  exact absurd hcached.2 (by decide)

end Example

end FancyMumble.Messages
