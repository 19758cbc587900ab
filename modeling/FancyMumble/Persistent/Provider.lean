import FancyMumble.Persistent.Types

/-!
# Message providers

The stores that the library offers for the messages of channels, in memory and behind a
server, and the one that routes to either by the mode of a channel. A message that names
another one takes its place in either store.
-/

namespace FancyMumble.Persistent

structure StoredMessage where
  messageId : String
  channelId : UInt32
  timestamp : UInt64
  senderHash : String
  senderName : String
  body : String
  encrypted : Bool
  epoch : Option UInt32 := none
  chainIndex : Option UInt32 := none
  replacesId : Option String := none
deriving DecidableEq

inductive MessageRange where
  | latest (limit : UInt64)
  | before (messageId : String) (limit : UInt64)
  | after (messageId : String) (limit : UInt64)
deriving DecidableEq

def applyRange (msgs : List StoredMessage) : MessageRange → Option (List StoredMessage)
  | .latest limit =>
      let start := msgs.length - limit.toNat
      some (msgs.drop start)
  | .before messageId limit =>
      match msgs.findIdx? fun m => m.messageId = messageId with
      | some pos =>
          let start := pos - limit.toNat
          some ((msgs.take pos).drop start)
      | none => some []
  | .after messageId limit =>
      match msgs.findIdx? fun m => m.messageId = messageId with
      | some pos =>
          -- where the sum wraps around instead, the end of the slice is before its start
          if pos + 1 + limit.toNat < 2 ^ 64 then
            let stop := min (pos + 1 + limit.toNat) msgs.length
            some ((msgs.take stop).drop (pos + 1))
          else none
      | none => some []

def pushTo (messages : UInt32 → List StoredMessage) (channelId : UInt32)
    (message : StoredMessage) : UInt32 → List StoredMessage :=
  Function.update messages channelId (messages channelId ++ [message])

/-- The replacement goes where the first message with the id and the sender of the
replacement is; with whether there is one. -/
def replaceIn (messages : UInt32 → List StoredMessage) (channelId : UInt32)
    (replacesId : String) (replacement : StoredMessage) :
    (UInt32 → List StoredMessage) × Bool :=
  let msgs := messages channelId
  match msgs.findIdx? fun m =>
      m.messageId = replacesId ∧ m.senderHash = replacement.senderHash with
  | some pos => (Function.update messages channelId (msgs.set pos replacement), true)
  | none => (messages, false)

structure VolatileMessageProvider where
  messages : UInt32 → List StoredMessage := fun _ => []

def VolatileMessageProvider.replaceMessage (provider : VolatileMessageProvider)
    (channelId : UInt32) (replacesId : String) (replacement : StoredMessage) :
    VolatileMessageProvider × Bool :=
  let (messages, replaced) := replaceIn provider.messages channelId replacesId replacement
  ({ messages }, replaced)

def VolatileMessageProvider.getMessages (provider : VolatileMessageProvider)
    (channelId : UInt32) (range : MessageRange) : Option (List StoredMessage) :=
  applyRange (provider.messages channelId) range

def VolatileMessageProvider.storeMessage (provider : VolatileMessageProvider)
    (channelId : UInt32) (message : StoredMessage) : VolatileMessageProvider :=
  { messages := pushTo provider.messages channelId message }

structure InMemoryPersistentBackend where
  cache : UInt32 → List StoredMessage := fun _ => []
  modes : UInt32 → PchatProtocol := fun _ => .none

def InMemoryPersistentBackend.setMode (backend : InMemoryPersistentBackend)
    (channelId : UInt32) (mode : PchatProtocol) : InMemoryPersistentBackend :=
  { backend with modes := Function.update backend.modes channelId mode }

def InMemoryPersistentBackend.cachedMessages (backend : InMemoryPersistentBackend)
    (channelId : UInt32) (range : MessageRange) : Option (List StoredMessage) :=
  applyRange (backend.cache channelId) range

def InMemoryPersistentBackend.cacheMessage (backend : InMemoryPersistentBackend)
    (channelId : UInt32) (message : StoredMessage) : InMemoryPersistentBackend :=
  { backend with cache := pushTo backend.cache channelId message }

def InMemoryPersistentBackend.replaceCachedMessage (backend : InMemoryPersistentBackend)
    (channelId : UInt32) (replacesId : String) (replacement : StoredMessage) :
    InMemoryPersistentBackend × Bool :=
  let (cache, replaced) := replaceIn backend.cache channelId replacesId replacement
  ({ backend with cache }, replaced)

structure PersistentMessageProvider where
  backend : InMemoryPersistentBackend := {}

def PersistentMessageProvider.replaceMessage (provider : PersistentMessageProvider)
    (channelId : UInt32) (replacesId : String) (replacement : StoredMessage) :
    PersistentMessageProvider × Bool :=
  let (backend, replaced) :=
    provider.backend.replaceCachedMessage channelId replacesId replacement
  ({ backend }, replaced)

def PersistentMessageProvider.getMessages (provider : PersistentMessageProvider)
    (channelId : UInt32) (range : MessageRange) : Option (List StoredMessage) :=
  provider.backend.cachedMessages channelId range

def PersistentMessageProvider.storeMessage (provider : PersistentMessageProvider)
    (channelId : UInt32) (message : StoredMessage) : PersistentMessageProvider :=
  { backend := provider.backend.cacheMessage channelId message }

def PersistentMessageProvider.mode (provider : PersistentMessageProvider)
    (channelId : UInt32) : PchatProtocol := provider.backend.modes channelId

structure CompositeMessageProvider where
  volatile : VolatileMessageProvider := {}
  persistent : PersistentMessageProvider := {}

/-- `CompositeMessageProvider::replace_message`: the persistent messages are searched only
if none of the volatile ones is replaced. -/
def CompositeMessageProvider.replaceMessage (provider : CompositeMessageProvider)
    (channelId : UInt32) (replacesId : String) (replacement : StoredMessage) :
    CompositeMessageProvider × Bool :=
  match provider.volatile.replaceMessage channelId replacesId replacement with
  | (volatile, true) => ({ provider with volatile }, true)
  | (volatile, false) =>
      let (persistent, replaced) :=
        provider.persistent.replaceMessage channelId replacesId replacement
      ({ volatile, persistent }, replaced)

def CompositeMessageProvider.effectiveMode (provider : CompositeMessageProvider)
    (channelId : UInt32) : PchatProtocol := provider.persistent.mode channelId

def CompositeMessageProvider.getMessages (provider : CompositeMessageProvider)
    (channelId : UInt32) (range : MessageRange) : Option (List StoredMessage) :=
  match provider.effectiveMode channelId with
  | .fancyV1FullArchive => provider.persistent.getMessages channelId range
  | _ => provider.volatile.getMessages channelId range

def CompositeMessageProvider.storeMessage (provider : CompositeMessageProvider)
    (channelId : UInt32) (message : StoredMessage) : CompositeMessageProvider :=
  match provider.effectiveMode channelId with
  | .fancyV1FullArchive =>
      { provider with persistent := provider.persistent.storeMessage channelId message }
  | _ => { provider with volatile := provider.volatile.storeMessage channelId message }

def CompositeMessageProvider.setMode (provider : CompositeMessageProvider)
    (channelId : UInt32) (mode : PchatProtocol) : CompositeMessageProvider :=
  { provider with persistent.backend := provider.persistent.backend.setMode channelId mode }

/-! ## Whose messages are replaced -/

/-- The messages of every channel are what they were, but that in the channel one message
with the id and the sender of the replacement may have given way to it. -/
def ReplacesOwn (channelId : UInt32) (replacesId : String) (replacement : StoredMessage)
    (before after : UInt32 → List StoredMessage) : Prop :=
  after = before ∨
    ∃ pos m, (before channelId)[pos]? = some m ∧ m.messageId = replacesId ∧
      m.senderHash = replacement.senderHash ∧
      after = Function.update before channelId ((before channelId).set pos replacement)

theorem replacesOwn_replaceIn (messages : UInt32 → List StoredMessage) (channelId : UInt32)
    (replacesId : String) (replacement : StoredMessage) :
    ReplacesOwn channelId replacesId replacement messages
      (replaceIn messages channelId replacesId replacement).1 := by
  unfold replaceIn
  dsimp only
  split
  next pos hpos =>
    obtain ⟨hlt, hfound, -⟩ := List.findIdx?_eq_some_iff_getElem.mp hpos
    obtain ⟨hid, hsender⟩ := of_decide_eq_true hfound
    exact Or.inr ⟨pos, _, List.getElem?_eq_getElem hlt, hid, hsender, rfl⟩
  next => exact Or.inl rfl

theorem CompositeMessageProvider.replacesOwn (provider : CompositeMessageProvider)
    (channelId : UInt32) (replacesId : String) (replacement : StoredMessage) :
    ReplacesOwn channelId replacesId replacement provider.volatile.messages
        (provider.replaceMessage channelId replacesId replacement).1.volatile.messages ∧
      ReplacesOwn channelId replacesId replacement provider.persistent.backend.cache
        (provider.replaceMessage channelId replacesId replacement).1.persistent.backend.cache := by
  have hvolatile := replacesOwn_replaceIn provider.volatile.messages channelId replacesId
    replacement
  have hpersistent := replacesOwn_replaceIn provider.persistent.backend.cache channelId
    replacesId replacement
  unfold CompositeMessageProvider.replaceMessage VolatileMessageProvider.replaceMessage
  cases hreplaced : replaceIn provider.volatile.messages channelId replacesId replacement with
  | mk messages replaced =>
      rw [hreplaced] at hvolatile
      cases replaced with
      | true => exact ⟨hvolatile, Or.inl rfl⟩
      | false => exact ⟨hvolatile, hpersistent⟩

end FancyMumble.Persistent
