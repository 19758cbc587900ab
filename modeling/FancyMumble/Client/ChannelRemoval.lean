import FancyMumble.Client.Pchat
import FancyMumble.Messages.Inbound
import FancyMumble.Messages.LocalCache
import FancyMumble.Persistent.Keys.Removal

/-!
# Removed channels of a connection

Everything that a connection keeps by channel, and what the handler of `ChannelRemove` takes
out of it.
-/

namespace FancyMumble.Client.ChannelRemoval

open Messages (ChatMessage PendingSignalEnvelope)
open Messages.LocalCache (LocalMessageCache)
open Persistent Signal

variable {lib : Libraries}

/-! ## State -/

structure KeyHolderEntry where
  certHash : String
  name : String
  isOnline : Bool

structure PchatState (lib : Libraries) where
  keyManager : KeyManager := {}
  signalBridge : Option (SignalBridgeCtx lib) := none
  fetchedChannels : Finset UInt32 := ∅
  localCache : Option LocalMessageCache := none
  pendingSignalEnvelopes : List (PendingSignalEnvelope lib) := []

structure PchatContext (lib : Libraries) where
  pchat : Option (PchatState lib) := none
  pendingKeyShares : List PendingKeyShare := []
  keyHolders : UInt32 → Option (List KeyHolderEntry) := fun _ => none

structure MessageStore where
  byChannel : UInt32 → Option (List ChatMessage) := fun _ => none
  channelUnread : UInt32 → Option UInt32 := fun _ => none

/-- `SharedState`, with what it keeps by channel. -/
structure SharedState (lib : Libraries) where
  channels : UInt32 → Option ChannelEntry := fun _ => none
  selectedChannel : Option UInt32 := none
  permanentlyListened : Finset UInt32 := ∅
  pushSubscribedChannels : Finset UInt32 := ∅
  msgs : MessageStore := {}
  pchatCtx : PchatContext lib := {}

def PchatState.removeChannel (p : PchatState lib) (channelId : UInt32) : PchatState lib :=
  { p with
    keyManager := p.keyManager.removeChannel channelId
    signalBridge := p.signalBridge.map (·.removeChannel channelId) }

def PchatState.afterRemove (p : PchatState lib) (channelId : UInt32) : PchatState lib :=
  { p.removeChannel channelId with fetchedChannels := p.fetchedChannels.erase channelId }

def SharedState.handleChannelRemove (state : SharedState lib) (channelId : UInt32) :
    SharedState lib :=
  { state with
    channels := Function.update state.channels channelId none
    msgs.byChannel := Function.update state.msgs.byChannel channelId none
    pchatCtx.pchat := state.pchatCtx.pchat.map (·.afterRemove channelId)
    pchatCtx.keyHolders := Function.update state.pchatCtx.keyHolders channelId none
    pchatCtx.pendingKeyShares :=
      state.pchatCtx.pendingKeyShares.filter fun p => p.channelId ≠ channelId }

/-! ## What is left of a channel -/

structure BridgeForgets (c : SignalBridgeCtx lib) (channelId : UInt32) : Prop where
  ourChannels : channelId ∉ c.ourChannels
  knownKeys : ∀ senderHash, (senderHash, channelId) ∉ c.knownKeys
  initialDistributions : c.initialDistributions.lookup (lib.channelDistributionId channelId) = none
  records : ∀ address, c.loadSenderKey address (lib.channelDistributionId channelId) = none

/-- What the handler does not look at: cached messages and reactions, stashed envelopes, and
candidates of epochs. -/
structure PchatState.HasNone (p : PchatState lib) (channelId : UInt32) : Prop where
  cachedMessages : ∀ cache, p.localCache = some cache →
    cache.messages channelId = [] ∧ cache.messageIds channelId = ∅
  cachedReactions : ∀ cache, p.localCache = some cache → cache.reactions channelId = []
  stash : ∀ env ∈ p.pendingSignalEnvelopes, env.channelId ≠ channelId
  candidates : ∀ epoch, p.keyManager.pendingEpochCandidates (channelId, epoch) = none

/-- The persistent chat has nothing of the channel. -/
structure PchatState.Forgets (p : PchatState lib) (channelId : UInt32) : Prop
    extends p.HasNone channelId where
  keyManager : p.keyManager.Forgotten channelId
  bridge : ∀ c, p.signalBridge = some c → BridgeForgets c channelId
  fetched : channelId ∉ p.fetchedChannels

/-- Neither unread messages nor the selection, a listen or a subscription are of the channel,
and the persistent chat has none of what the handler does not look at. -/
structure SharedState.HasNone (state : SharedState lib) (channelId : UInt32) : Prop where
  unread : state.msgs.channelUnread channelId = none
  selection : state.selectedChannel ≠ some channelId
  listens : channelId ∉ state.permanentlyListened
  subscriptions : channelId ∉ state.pushSubscribedChannels
  pchat : ∀ p, state.pchatCtx.pchat = some p → p.HasNone channelId

structure SharedState.Forgets (state : SharedState lib) (channelId : UInt32) : Prop where
  channels : state.channels channelId = none
  messages : state.msgs.byChannel channelId = none
  unread : state.msgs.channelUnread channelId = none
  selection : state.selectedChannel ≠ some channelId
  listens : channelId ∉ state.permanentlyListened
  subscriptions : channelId ∉ state.pushSubscribedChannels
  keyHolders : state.pchatCtx.keyHolders channelId = none
  keyShares : ∀ p ∈ state.pchatCtx.pendingKeyShares, p.channelId ≠ channelId
  pchat : ∀ p, state.pchatCtx.pchat = some p → p.Forgets channelId

/-- The bridges know the same of a channel. Records are by distribution ids, which are hashes
of the channels. -/
structure BridgeSameFor (c c' : SignalBridgeCtx lib) (removed d : UInt32) : Prop where
  ourChannels : d ∈ c'.ourChannels ↔ d ∈ c.ourChannels
  knownKeys : ∀ senderHash, (senderHash, d) ∈ c'.knownKeys ↔ (senderHash, d) ∈ c.knownKeys
  initialDistributions : lib.channelDistributionId d ≠ lib.channelDistributionId removed →
    c'.initialDistributions.lookup (lib.channelDistributionId d) =
      c.initialDistributions.lookup (lib.channelDistributionId d)
  records : lib.channelDistributionId d ≠ lib.channelDistributionId removed →
    ∀ address, c'.loadSenderKey address (lib.channelDistributionId d) =
      c.loadSenderKey address (lib.channelDistributionId d)

/-- The persistent chats have the same of a channel. -/
structure PchatState.SameFor (p p' : PchatState lib) (removed d : UInt32) : Prop where
  keyManager : KeyManager.SameFor p.keyManager p'.keyManager d
  bridge : ∀ c, p.signalBridge = some c →
    ∃ c', p'.signalBridge = some c' ∧ BridgeSameFor c c' removed d
  fetched : d ∈ p'.fetchedChannels ↔ d ∈ p.fetchedChannels
  cache : p'.localCache = p.localCache
  stash : p'.pendingSignalEnvelopes = p.pendingSignalEnvelopes

structure SharedState.SameFor (state state' : SharedState lib) (removed d : UInt32) : Prop where
  channels : state'.channels d = state.channels d
  messages : state'.msgs.byChannel d = state.msgs.byChannel d
  unread : state'.msgs.channelUnread d = state.msgs.channelUnread d
  selection : state'.selectedChannel = some d ↔ state.selectedChannel = some d
  listens : d ∈ state'.permanentlyListened ↔ d ∈ state.permanentlyListened
  subscriptions : d ∈ state'.pushSubscribedChannels ↔ d ∈ state.pushSubscribedChannels
  keyHolders : state'.pchatCtx.keyHolders d = state.pchatCtx.keyHolders d
  keyShares : ∀ p, p.channelId = d →
    (p ∈ state'.pchatCtx.pendingKeyShares ↔ p ∈ state.pchatCtx.pendingKeyShares)
  pchat : ∀ p, state.pchatCtx.pchat = some p →
    ∃ p', state'.pchatCtx.pchat = some p' ∧ p.SameFor p' removed d

/-! ## Removal -/

theorem bridgeForgets_removeChannel (c : SignalBridgeCtx lib) (channelId : UInt32) :
    BridgeForgets (c.removeChannel channelId) channelId where
  ourChannels hmem := of_decide_eq_true (List.mem_filter.mp hmem).2 rfl
  knownKeys _ hmem := of_decide_eq_true (List.mem_filter.mp hmem).2 rfl
  initialDistributions := AList.lookup_erase _ _
  records _ :=
    (SignalBridgeCtx.lookup_removeByDistribution _ _ _).trans (if_pos rfl)

theorem bridgeSameFor_removeChannel (c : SignalBridgeCtx lib) {channelId d : UInt32}
    (h : d ≠ channelId) : BridgeSameFor c (c.removeChannel channelId) channelId d where
  ourChannels := List.mem_filter.trans (and_iff_left (decide_eq_true h))
  knownKeys _ := List.mem_filter.trans (and_iff_left (decide_eq_true h))
  initialDistributions hid := AList.lookup_erase_ne hid
  records hid _ :=
    (SignalBridgeCtx.lookup_removeByDistribution _ _ _).trans (if_neg hid)

theorem PchatState.forgets_afterRemove_iff (p : PchatState lib) (channelId : UInt32) :
    (p.afterRemove channelId).Forgets channelId ↔ p.HasNone channelId := by
  constructor
  · intro h
    exact { h.toHasNone with
      candidates := KeyManager.forgotten_removeChannel_iff.mp h.keyManager }
  · intro h
    refine { h with
      keyManager := KeyManager.forgotten_removeChannel_iff.mpr h.candidates
      bridge := fun c hc => ?_
      fetched := Finset.notMem_erase _ _ }
    obtain ⟨c, -, rfl⟩ := Option.map_eq_some_iff.mp hc
    exact bridgeForgets_removeChannel c channelId

theorem PchatState.sameFor_afterRemove (p : PchatState lib) {channelId d : UInt32}
    (h : d ≠ channelId) : p.SameFor (p.afterRemove channelId) channelId d where
  keyManager := KeyManager.removeChannel_sameFor p.keyManager h
  bridge c hc := ⟨_, congrArg (Option.map _) hc, bridgeSameFor_removeChannel c h⟩
  fetched := Finset.mem_erase.trans (and_iff_right h)
  cache := rfl
  stash := rfl

namespace SharedState

variable (state : SharedState lib) (channelId : UInt32)

theorem forgets_handleChannelRemove_iff :
    (state.handleChannelRemove channelId).Forgets channelId ↔ state.HasNone channelId := by
  constructor
  · intro h
    refine ⟨h.unread, h.selection, h.listens, h.subscriptions, fun p hp => ?_⟩
    exact (p.forgets_afterRemove_iff channelId).mp
      (h.pchat _ (congrArg (Option.map fun p : PchatState lib => p.afterRemove channelId) hp))
  · intro h
    refine ⟨Function.update_self _ _ _, Function.update_self _ _ _, h.unread, h.selection,
      h.listens, h.subscriptions, Function.update_self _ _ _, fun p hp => ?_, fun p hp => ?_⟩
    · exact of_decide_eq_true (List.mem_filter.mp hp).2
    · obtain ⟨p, hold, rfl⟩ := Option.map_eq_some_iff.mp hp
      exact (p.forgets_afterRemove_iff channelId).mpr (h.pchat p hold)

theorem sameFor_handleChannelRemove {d : UInt32} (h : d ≠ channelId) :
    state.SameFor (state.handleChannelRemove channelId) channelId d where
  channels := Function.update_of_ne h _ _
  messages := Function.update_of_ne h _ _
  unread := rfl
  selection := Iff.rfl
  listens := Iff.rfl
  subscriptions := Iff.rfl
  keyHolders := Function.update_of_ne h _ _
  keyShares _ hp := List.mem_filter.trans (and_iff_left (decide_eq_true (hp ▸ h)))
  pchat p hp := ⟨_, congrArg (Option.map _) hp, p.sameFor_afterRemove h⟩

/-- A removed channel leaves nothing behind exactly if there was nothing of it where the handler
does not look; the other channels stay as they are in any case. -/
theorem removed_channel_leaves_nothing_iff :
    (state.handleChannelRemove channelId).Forgets channelId ∧
        (∀ d, d ≠ channelId →
          state.SameFor (state.handleChannelRemove channelId) channelId d) ↔
      state.HasNone channelId :=
  (and_iff_left fun _ h => state.sameFor_handleChannelRemove channelId h).trans
    (state.forgets_handleChannelRemove_iff channelId)

/-- A channel that is listened to is removed. -/
theorem removed_channel_listened :
    ¬∀ (state : SharedState symbolic) (channelId : UInt32),
      (state.handleChannelRemove channelId).Forgets channelId ∧
        ∀ d, d ≠ channelId →
          state.SameFor (state.handleChannelRemove channelId) channelId d := by
  intro h
  exact (h { permanentlyListened := {5} } 5).1.listens (Finset.mem_singleton_self 5)

end SharedState

end FancyMumble.Client.ChannelRemoval
