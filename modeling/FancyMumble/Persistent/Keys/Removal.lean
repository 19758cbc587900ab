import FancyMumble.Persistent.Keys.Consensus
import FancyMumble.Persistent.Keys.Countersignature
import FancyMumble.Persistent.Keys.EpochForks
import FancyMumble.Persistent.Keys.Requests

/-!
# Removed channels

Removing a channel clears the maps that are keyed by channels. What was collected for it
under request identifiers, or as candidates of its epochs, stays behind. When do these
leftovers bring a key of the channel back?
-/

namespace FancyMumble.Persistent

open Lib.Choice Lib.Grouping Lib.Runs

inductive KeyOp where
  | recordPeerKey (announce : PchatKeyAnnounce)
  | receiveKeyExchange (exchange : PchatKeyExchange) (requestTimestamp : Option UInt64)
  | evaluateConsensus (responseOrder groupOrder : HashOrder) (requestId : String)
      (channelId : UInt32) (keyCustodians : List String)
  | setEpochCandidates (channelId epoch : UInt32) (candidates : List EpochCandidate)
  | resolveEpochFork (channelId epoch : UInt32)
  | verifyCountersignature (now : UInt64) (c : Countersignature) (keyCustodians : List String)
  | handleKeyRequest (nonce : List UInt8) (now : UInt64) (request : PchatKeyRequest)
      (ourCertHash : String)
  | storeEpochKey (channelId epoch : UInt32) (key : ChannelKey) (trust : KeyTrustLevel)
  | storeArchiveKey (channelId : UInt32) (key : ChannelKey) (trust : KeyTrustLevel)
  | resolveDispute (channelId : UInt32) (mode : PchatProtocol)
  | setChannelOriginator (channelId : UInt32) (certHash : String)
  | recordKeyHolder (channelId : UInt32) (certHash : String)
  | replaceKeyHolders (channelId : UInt32) (hashes : Finset String)
  | updateCustodianPin (channelId : UInt32) (newCustodians : List String)
  | acceptCustodianUpdate (channelId : UInt32)
  | confirmCustodianList (channelId : UInt32)
  | removeChannel (channelId : UInt32)

/-- The operation brings a key for the channel: an exchange or candidates for it, or a key
that is generated or loaded for it. -/
def KeyOp.BringsKey (c : UInt32) : KeyOp → Prop
  | .receiveKeyExchange exchange _ => exchange.channelId = c
  | .setEpochCandidates channelId _ _ | .storeEpochKey channelId _ _ _
  | .storeArchiveKey channelId _ _ => channelId = c
  | _ => False

namespace KeyManager

variable (toLowercase : String → String) (identity : Identity)

def apply (km : KeyManager) : KeyOp → KeyManager
  | .recordPeerKey announce => km.announced identity.crypto announce
  | .receiveKeyExchange exchange requestTimestamp =>
      (km.receiveKeyExchange identity.crypto exchange requestTimestamp).1
  | .evaluateConsensus responseOrder groupOrder requestId channelId keyCustodians =>
      (km.evaluateConsensus responseOrder groupOrder requestId channelId keyCustodians).1
  | .setEpochCandidates channelId epoch candidates =>
      km.setEpochCandidates channelId epoch candidates
  | .resolveEpochFork channelId epoch =>
      (km.resolveEpochFork toLowercase identity.crypto channelId epoch).1
  | .verifyCountersignature now c keyCustodians =>
      km.countersigned identity.crypto now c keyCustodians
  | .handleKeyRequest nonce now request ourCertHash =>
      (km.handleKeyRequest identity nonce now request ourCertHash).1
  | .storeEpochKey channelId epoch key trust => km.storeEpochKey channelId epoch key trust
  | .storeArchiveKey channelId key trust => km.storeArchiveKey channelId key trust
  | .resolveDispute channelId mode => (km.resolveDispute channelId mode).1
  | .setChannelOriginator channelId certHash => km.setChannelOriginator channelId certHash
  | .recordKeyHolder channelId certHash => km.recordKeyHolder channelId certHash
  | .replaceKeyHolders channelId hashes => km.replaceKeyHolders channelId hashes
  | .updateCustodianPin channelId newCustodians =>
      (km.updateCustodianPin channelId newCustodians).1
  | .acceptCustodianUpdate channelId => km.acceptCustodianUpdate channelId
  | .confirmCustodianList channelId => km.confirmCustodianList channelId
  | .removeChannel channelId => km.removeChannel channelId

structure HoldsNoKey (km : KeyManager) (c : UInt32) : Prop where
  archiveKeys : km.archiveKeys c = none
  epochKeys : km.epochKeys c = none

structure Forgotten (km : KeyManager) (c : UInt32) : Prop extends km.HoldsNoKey c where
  channelOriginators : km.channelOriginators c = none
  pinnedCustodians : km.pinnedCustodians c = none
  keyHolders : km.keyHolders c = ∅
  pendingEpochCandidates : ∀ epoch, km.pendingEpochCandidates (c, epoch) = none

/-- The two know the same about a channel, and the same besides the channels. -/
structure SameFor (km km' : KeyManager) (d : UInt32) : Prop where
  archiveKeys : km'.archiveKeys d = km.archiveKeys d
  epochKeys : km'.epochKeys d = km.epochKeys d
  channelOriginators : km'.channelOriginators d = km.channelOriginators d
  pinnedCustodians : km'.pinnedCustodians d = km.pinnedCustodians d
  keyHolders : km'.keyHolders d = km.keyHolders d
  pendingEpochCandidates : ∀ epoch,
    km'.pendingEpochCandidates (d, epoch) = km.pendingEpochCandidates (d, epoch)
  peerKeys : km'.peerKeys = km.peerKeys
  pendingConsensus : km'.pendingConsensus = km.pendingConsensus
  requestsProcessed : km'.requestsProcessed = km.requestsProcessed

/-- An evaluation for the channel finds no responses, and a fork of the channel that is
resolved has no candidates. -/
def FindsNothing (c : UInt32) (km : KeyManager) : KeyOp → Prop
  | .evaluateConsensus _ _ requestId channelId _ =>
      channelId = c → ∀ collector, km.pendingConsensus requestId = some collector →
        collector.responses.entries = []
  | .resolveEpochFork channelId epoch =>
      channelId = c → (km.pendingEpochCandidates (c, epoch)).getD [] = []
  | _ => True

variable {toLowercase identity} {km : KeyManager} {c : UInt32}

theorem removeChannel_sameFor (km : KeyManager) {c d : UInt32} (h : d ≠ c) :
    SameFor km (km.removeChannel c) d where
  archiveKeys := Function.update_of_ne h _ _
  epochKeys := Function.update_of_ne h _ _
  channelOriginators := Function.update_of_ne h _ _
  pinnedCustodians := Function.update_of_ne h _ _
  keyHolders := Function.update_of_ne h _ _
  pendingEpochCandidates := fun _ => rfl
  peerKeys := rfl
  pendingConsensus := rfl
  requestsProcessed := rfl

theorem removeChannel_holdsNoKey (km : KeyManager) (c : UInt32) :
    (km.removeChannel c).HoldsNoKey c :=
  ⟨Function.update_self _ _ _, Function.update_self _ _ _⟩

theorem forgotten_removeChannel_iff :
    (km.removeChannel c).Forgotten c ↔
      ∀ epoch, km.pendingEpochCandidates (c, epoch) = none := by
  constructor
  · exact fun h => h.pendingEpochCandidates
  · intro h
    exact
      { km.removeChannel_holdsNoKey c with
        channelOriginators := Function.update_self _ _ _
        pinnedCustodians := Function.update_self _ _ _
        keyHolders := Function.update_self _ _ _
        pendingEpochCandidates := h }

theorem holdsNoKey_storeArchiveKey_iff {channelId : UInt32} {key : ChannelKey}
    {trust : KeyTrustLevel} (h : km.HoldsNoKey c) :
    (km.storeArchiveKey channelId key trust).HoldsNoKey c ↔ channelId ≠ c := by
  constructor
  · rintro hafter rfl
    have harchive := hafter.archiveKeys
    rw [storeArchiveKey_archiveKeys, Function.update_self] at harchive
    cases harchive
  · intro hne
    refine ⟨?_, h.epochKeys⟩
    rw [storeArchiveKey_archiveKeys, Function.update_of_ne (Ne.symm hne)]
    exact h.archiveKeys

theorem holdsNoKey_insertEpochKey_iff {channelId epoch : UInt32} {key : EpochKey}
    {trust : KeyTrustLevel} (h : km.HoldsNoKey c) :
    (km.insertEpochKey channelId epoch key trust).HoldsNoKey c ↔ channelId ≠ c := by
  constructor
  · rintro hafter rfl
    have hepochs := hafter.epochKeys
    simp only [insertEpochKey, Function.update_self, reduceCtorEq] at hepochs
  · intro hne
    refine ⟨h.archiveKeys, ?_⟩
    simp only [insertEpochKey, Function.update_of_ne (Ne.symm hne)]
    exact h.epochKeys

theorem holdsNoKey_evaluateConsensus_iff (h : km.HoldsNoKey c)
    (responseOrder groupOrder : HashOrder) (requestId : String) (channelId : UInt32)
    (keyCustodians : List String) :
    (km.evaluateConsensus responseOrder groupOrder requestId channelId
        keyCustodians).1.HoldsNoKey c ↔
      (channelId = c → ∀ collector, km.pendingConsensus requestId = some collector →
        collector.responses.entries = []) := by
  rcases km.evaluateConsensus_cases responseOrder groupOrder requestId channelId
      keyCustodians with
    ⟨hnone, e, hstep⟩ | ⟨collector, hpending, ⟨hempty, hstep⟩ |
      ⟨key, trust, hne, -, -, hstep⟩⟩
  · rw [hstep]
    refine iff_of_true h fun _ collector hcollector => ?_
    rw [hnone] at hcollector
    cases hcollector
  · rw [hstep]
    refine iff_of_true ⟨h.archiveKeys, h.epochKeys⟩ fun _ collector' hcollector => ?_
    rw [hpending] at hcollector
    cases hcollector
    exact hempty
  · have hremoved : (km.removeCollector requestId).HoldsNoKey c :=
      ⟨h.archiveKeys, h.epochKeys⟩
    rw [hstep, holdsNoKey_storeArchiveKey_iff hremoved]
    constructor
    · exact fun hother hchannel => absurd hchannel hother
    · exact fun hfinds hchannel => hne (hfinds hchannel collector hpending)

theorem validCandidates_of_holdsNoKey (crypto : Crypto) (h : km.epochKeys c = none)
    (candidates : List EpochCandidate) : km.validCandidates crypto c candidates = candidates := by
  unfold validCandidates
  rw [List.filter_eq_self]
  intro candidate hcandidate
  simp only [continuesEpoch, currentEpochFingerprint, h, Option.bind_none]

/-- Resolving a fork brings a key exactly if it is one of the channel and has candidates. -/
theorem holdsNoKey_resolveEpochFork_iff (h : km.HoldsNoKey c) (channelId epoch : UInt32) :
    (km.resolveEpochFork toLowercase identity.crypto channelId epoch).1.HoldsNoKey c ↔
      (channelId = c → (km.pendingEpochCandidates (c, epoch)).getD [] = []) := by
  have hremoved : (km.removeEpochCandidates channelId epoch).HoldsNoKey c :=
    ⟨h.archiveKeys, h.epochKeys⟩
  rw [resolveEpochFork]
  by_cases hchannel : channelId = c
  · subst hchannel
    rw [validCandidates_of_holdsNoKey identity.crypto hremoved.epochKeys]
    dsimp only
    generalize (km.pendingEpochCandidates (channelId, epoch)).getD [] = candidates
    cases hwinner : minByKey (fun c => toLowercase c.senderHash) candidates with
    | none =>
        have hempty := minByKey_eq_none_iff.mp hwinner
        subst hempty
        exact iff_of_true hremoved fun _ => rfl
    | some winner =>
        have hne : candidates ≠ [] := by
          rintro rfl
          cases hwinner
        simp only [List.isEmpty_eq_false_iff.mpr hne, Bool.false_eq_true, if_false]
        rw [holdsNoKey_insertEpochKey_iff hremoved]
        exact iff_of_false (fun hother => hother rfl) fun hempty => hne (hempty trivial)
  · refine iff_of_true ?_ fun hsame => absurd hsame hchannel
    dsimp only
    split
    · exact hremoved
    split
    · exact hremoved
    split
    · exact hremoved
    · exact (holdsNoKey_insertEpochKey_iff hremoved).mpr hchannel

theorem countersigned_holdsNoKey (h : km.HoldsNoKey c) (crypto : Crypto) (now : UInt64)
    (countersig : Countersignature) (keyCustodians : List String) :
    (km.countersigned crypto now countersig keyCustodians).HoldsNoKey c := by
  rcases km.countersigned_cases crypto now countersig keyCustodians with hstep | hstep
  · rwa [hstep]
  · rw [hstep]
    refine ⟨?_, ?_⟩
    · rw [promoteEpochKey_eq]
      exact h.archiveKeys
    · unfold promoteEpochKey
      cases hepochs : km.epochKeys countersig.channelId with
      | none => exact h.epochKeys
      | some epochs =>
          have hother : countersig.channelId ≠ c := by
            rintro rfl
            rw [h.epochKeys] at hepochs
            cases hepochs
          dsimp only
          split
          · dsimp only
            rw [Function.update_of_ne (Ne.symm hother)]
            exact h.epochKeys
          · exact h.epochKeys

theorem resolveDispute_holdsNoKey (h : km.HoldsNoKey c) (channelId : UInt32)
    (mode : PchatProtocol) : (km.resolveDispute channelId mode).1.HoldsNoKey c := by
  cases mode with
  | none => exact h
  | signalV1 => exact h
  | fancyV1FullArchive =>
      rcases Option.eq_none_or_eq_some (km.archiveKeys channelId) with
        hstored | ⟨⟨key, trust⟩, hstored⟩
      · rwa [resolveDispute_of_none hstored]
      · rw [resolveDispute_of_some hstored]
        refine (holdsNoKey_storeArchiveKey_iff h).mpr ?_
        rintro rfl
        rw [h.archiveKeys] at hstored
        cases hstored

theorem updateCustodianPin_holdsNoKey (h : km.HoldsNoKey c) (channelId : UInt32)
    (newCustodians : List String) :
    (km.updateCustodianPin channelId newCustodians).1.HoldsNoKey c := by
  unfold updateCustodianPin
  split
  · split
    · exact h
    · exact ⟨h.archiveKeys, h.epochKeys⟩
  · exact ⟨h.archiveKeys, h.epochKeys⟩

theorem acceptCustodianUpdate_holdsNoKey (h : km.HoldsNoKey c) (channelId : UInt32) :
    (km.acceptCustodianUpdate channelId).HoldsNoKey c := by
  unfold acceptCustodianUpdate
  split
  · exact ⟨h.archiveKeys, h.epochKeys⟩
  · exact h

theorem confirmCustodianList_holdsNoKey (h : km.HoldsNoKey c) (channelId : UInt32) :
    (km.confirmCustodianList channelId).HoldsNoKey c := by
  unfold confirmCustodianList
  split
  · exact ⟨h.archiveKeys, h.epochKeys⟩
  · exact h

theorem removeChannel_holdsNoKey_of (h : km.HoldsNoKey c) (channelId : UInt32) :
    (km.removeChannel channelId).HoldsNoKey c := by
  by_cases hchannel : c = channelId
  · subst hchannel
    exact removeChannel_holdsNoKey km c
  · have hsame := removeChannel_sameFor km hchannel
    exact ⟨hsame.archiveKeys.trans h.archiveKeys, hsame.epochKeys.trans h.epochKeys⟩

theorem receiveKeyExchange_holdsNoKey (h : km.HoldsNoKey c) (crypto : Crypto)
    {exchange : PchatKeyExchange} (hother : exchange.channelId ≠ c)
    (requestTimestamp : Option UInt64) :
    (km.receiveKeyExchange crypto exchange requestTimestamp).1.HoldsNoKey c := by
  rcases km.receiveKeyExchange_cases crypto exchange requestTimestamp with
    ⟨-, e, hstep⟩ | ⟨key, -, ⟨requestId, -, hstep⟩ | ⟨-, hstep⟩⟩
  · rwa [hstep]
  · rw [hstep]
    exact ⟨h.archiveKeys, h.epochKeys⟩
  · rw [hstep]
    exact (holdsNoKey_storeArchiveKey_iff h).mpr hother

/-- An operation that does not bring a key for the channel leaves it without a key exactly if it
finds nothing. -/
theorem holdsNoKey_apply_iff (h : km.HoldsNoKey c) {op : KeyOp} (hop : ¬op.BringsKey c) :
    (km.apply toLowercase identity op).HoldsNoKey c ↔ km.FindsNothing c op := by
  cases op with
  | recordPeerKey announce =>
      refine iff_of_true ?_ trivial
      rw [apply, announced_eq]
      exact ⟨h.archiveKeys, h.epochKeys⟩
  | receiveKeyExchange exchange requestTimestamp =>
      exact iff_of_true (receiveKeyExchange_holdsNoKey h _ hop _) trivial
  | evaluateConsensus responseOrder groupOrder requestId channelId keyCustodians =>
      exact holdsNoKey_evaluateConsensus_iff h responseOrder groupOrder requestId channelId
        keyCustodians
  | setEpochCandidates channelId epoch candidates =>
      exact iff_of_true ⟨h.archiveKeys, h.epochKeys⟩ trivial
  | resolveEpochFork channelId epoch => exact holdsNoKey_resolveEpochFork_iff h channelId epoch
  | verifyCountersignature now countersig keyCustodians =>
      exact iff_of_true (countersigned_holdsNoKey h _ now countersig keyCustodians) trivial
  | handleKeyRequest nonce now request ourCertHash =>
      refine iff_of_true ?_ trivial
      rw [apply]
      rcases km.handleKeyRequest_cases identity nonce now request ourCertHash with
        ⟨hsame, -⟩ | ⟨-, exchange, hstep, -⟩
      · rwa [hsame]
      · rw [hstep]
        exact ⟨h.archiveKeys, h.epochKeys⟩
  | storeEpochKey channelId epoch key trust =>
      exact iff_of_true ((holdsNoKey_insertEpochKey_iff h).mpr hop) trivial
  | storeArchiveKey channelId key trust =>
      exact iff_of_true ((holdsNoKey_storeArchiveKey_iff h).mpr hop) trivial
  | resolveDispute channelId mode =>
      exact iff_of_true (resolveDispute_holdsNoKey h channelId mode) trivial
  | setChannelOriginator channelId certHash =>
      exact iff_of_true ⟨h.archiveKeys, h.epochKeys⟩ trivial
  | recordKeyHolder channelId certHash => exact iff_of_true ⟨h.archiveKeys, h.epochKeys⟩ trivial
  | replaceKeyHolders channelId hashes => exact iff_of_true ⟨h.archiveKeys, h.epochKeys⟩ trivial
  | updateCustodianPin channelId newCustodians =>
      exact iff_of_true (updateCustodianPin_holdsNoKey h channelId newCustodians) trivial
  | acceptCustodianUpdate channelId =>
      exact iff_of_true (acceptCustodianUpdate_holdsNoKey h channelId) trivial
  | confirmCustodianList channelId =>
      exact iff_of_true (confirmCustodianList_holdsNoKey h channelId) trivial
  | removeChannel channelId =>
      exact iff_of_true (removeChannel_holdsNoKey_of h channelId) trivial

/-- The channel is without a key after the operation. -/
def StaysWithoutKey (toLowercase : String → String) (identity : Identity) (c : UInt32)
    (km : KeyManager) (op : KeyOp) : Prop :=
  (km.apply toLowercase identity op).HoldsNoKey c

/-- Removing a channel leaves nothing of it exactly if it has no epoch candidates; later
operations that bring no key for it never make it hold one exactly if they find nothing;
and other channels are not affected. -/
theorem removed_channel_iff (toLowercase : String → String) (identity : Identity)
    (km : KeyManager) (c : UInt32) :
    ((km.removeChannel c).Forgotten c ↔
        ∀ epoch, km.pendingEpochCandidates (c, epoch) = none) ∧
      (∀ ops : List KeyOp, (∀ op ∈ ops, ¬op.BringsKey c) →
        (Along (apply toLowercase identity) (StaysWithoutKey toLowercase identity c)
            (km.removeChannel c) ops ↔
          Along (apply toLowercase identity) (FindsNothing c) (km.removeChannel c) ops)) ∧
      ∀ d, d ≠ c → SameFor km (km.removeChannel c) d := by
  refine ⟨forgotten_removeChannel_iff, fun ops hops => ?_, fun d => removeChannel_sameFor km⟩
  refine along_iff_along
    (fun km op (hkm : km.HoldsNoKey c) hop => holdsNoKey_apply_iff hkm hop) ?_
    (removeChannel_holdsNoKey km c) (along_of_mem hops)
  exact fun km op hkm hop hfinds => (holdsNoKey_apply_iff hkm hop).mpr hfinds

section Example

private def waitingResponse : KeyManager :=
  ({} : KeyManager).setCollector "request"
    { responses := AList.singleton "peer" (.replicate 2) }

/-- A manager with keys, an originator and holders for channel 7, and a key for 8. -/
private def keyedManager : KeyManager :=
  ((((({} : KeyManager).storeArchiveKey 7 (.replicate 1) .verified).storeEpochKey 7 0
    (.replicate 2) .verified).setChannelOriginator 7 "anna").replaceKeyHolders 7
      {"anna", "bert"}).storeArchiveKey 8 (.replicate 3) .unverified

/-- A channel is removed with all that is kept of it, and stays without a key when a
holder comes back, its request is evaluated, and another channel gets a key. -/
theorem removed_channel_example :
    ¬keyedManager.HoldsNoKey 7 ∧ keyedManager.keyHolders 7 = {"anna", "bert"} ∧
      (keyedManager.removeChannel 7).Forgotten 7 ∧
      Along (apply id .plain) (StaysWithoutKey id .plain 7) (keyedManager.removeChannel 7)
        [.recordKeyHolder 7 "bert", .evaluateConsensus .listed .listed "request" 7 [],
          .storeEpochKey 8 0 (.replicate 4) .verified] ∧
      SameFor keyedManager (keyedManager.removeChannel 7) 8 := by
  obtain ⟨hforgotten, hstays, hother⟩ := removed_channel_iff id .plain keyedManager 7
  refine ⟨fun h => absurd h.archiveKeys (by decide), rfl, hforgotten.mpr fun _ => rfl,
    (hstays _ ?_).mpr ⟨trivial, ?_, trivial, trivial⟩, hother 8 (by decide)⟩
  · simp [KeyOp.BringsKey]
  · rintro - collector ⟨⟩

/-- The response that waits under the request brings the key of a removed channel back. -/
theorem waiting_response_restores_key :
    ¬∀ (toLowercase : String → String) (identity : Identity) (km : KeyManager) (c : UInt32)
      (ops : List KeyOp), (∀ op ∈ ops, ¬op.BringsKey c) →
        Along (apply toLowercase identity) (StaysWithoutKey toLowercase identity c)
          (km.removeChannel c) ops := by
  intro h
  obtain ⟨hstays, -⟩ := h id .plain waitingResponse 7
    [.evaluateConsensus .listed .listed "request" 7 []] (by
      intro op hop
      cases List.mem_singleton.mp hop
      exact id)
  exact absurd hstays.archiveKeys (by decide)

end Example

end KeyManager

end FancyMumble.Persistent
