import FancyMumble.Persistent.Types
import Mathlib.Data.Finset.Insert

/-!
# The key manager

The keys and the trust state of a participant, with the accessors, the custodian
lists, and the question who is a trusted authority of a channel.
-/

namespace FancyMumble.Persistent

def defaultMaxRequests : UInt32 := 50

/-- `KeyManager`, with all its maps and the request counter; the identity and the cipher
suite are a parameter of the functions that use them. -/
structure KeyManager where
  peerKeys : String → Option PeerKeyRecord := fun _ => none
  epochKeys : UInt32 → Option EpochKeys := fun _ => none
  archiveKeys : UInt32 → Option (ChannelKey × KeyTrustLevel) := fun _ => none
  requestsProcessed : UInt32 := 0
  maxRequestsPerConnection : UInt32 := defaultMaxRequests
  pendingConsensus : String → Option ConsensusCollector := fun _ => none
  channelOriginators : UInt32 → Option String := fun _ => none
  pinnedCustodians : UInt32 → Option CustodianPinState := fun _ => none
  /-- Candidates for fork resolution, by channel and epoch. -/
  pendingEpochCandidates : UInt32 × UInt32 → Option (List EpochCandidate) := fun _ => none
  keyHolders : UInt32 → Finset String := fun _ => ∅
  /-- The Signal bridge is loaded. -/
  signalBridge : Bool := false

namespace KeyManager

/-! ## Archive keys -/

def hasKey (km : KeyManager) (channelId : UInt32) (protocol : PchatProtocol) : Bool :=
  match protocol with
  | .fancyV1FullArchive => (km.archiveKeys channelId).isSome
  | .signalV1 => km.signalBridge
  | .none => false

def storeArchiveKey (km : KeyManager) (channelId : UInt32) (key : ChannelKey)
    (trust : KeyTrustLevel) : KeyManager :=
  { km with archiveKeys := Function.update km.archiveKeys channelId (some (key, trust)) }

@[simp] theorem storeArchiveKey_archiveKeys (km : KeyManager) (channelId : UInt32)
    (key : ChannelKey) (trust : KeyTrustLevel) :
    (km.storeArchiveKey channelId key trust).archiveKeys =
      Function.update km.archiveKeys channelId (some (key, trust)) := rfl

def setChannelOriginator (km : KeyManager) (channelId : UInt32) (certHash : String) :
    KeyManager :=
  { km with
    channelOriginators := Function.update km.channelOriginators channelId (some certHash) }

def recordKeyHolder (km : KeyManager) (channelId : UInt32) (certHash : String) :
    KeyManager :=
  { km with
    keyHolders := Function.update km.keyHolders channelId
      (insert certHash (km.keyHolders channelId)) }

def replaceKeyHolders (km : KeyManager) (channelId : UInt32) (hashes : Finset String) :
    KeyManager :=
  { km with keyHolders := Function.update km.keyHolders channelId hashes }

def removeChannel (km : KeyManager) (channelId : UInt32) : KeyManager :=
  { km with
    epochKeys := Function.update km.epochKeys channelId none
    archiveKeys := Function.update km.archiveKeys channelId none
    channelOriginators := Function.update km.channelOriginators channelId none
    pinnedCustodians := Function.update km.pinnedCustodians channelId none
    keyHolders := Function.update km.keyHolders channelId ∅ }

/-! ## Trust -/

/-- `is_trusted_authority`: the sender is the originator of the channel or one of the
given custodians, and a pinned list, if there is one, is confirmed and has the sender
on it. -/
def isTrustedAuthority (km : KeyManager) (senderHash : String) (channelId : UInt32)
    (keyCustodians : List String) : Bool :=
  let inServerList := keyCustodians.any (· == senderHash)
  let isOriginator := km.channelOriginators channelId == some senderHash
  if !inServerList && !isOriginator then
    false
  else
    match km.pinnedCustodians channelId with
    | some pinState =>
        if !pinState.confirmed then false
        else pinState.pinned.any (· == senderHash) || isOriginator
    | none => isOriginator

/-- `update_custodian_pin`: a changed list waits for acceptance, a first one is
pinned. The result says whether the user has to accept something. -/
def updateCustodianPin (km : KeyManager) (channelId : UInt32) (newCustodians : List String) :
    KeyManager × Bool :=
  match km.pinnedCustodians channelId with
  | some pinState =>
      if pinState.pinned = newCustodians then
        (km, false)
      else
        ({ km with
          pinnedCustodians := Function.update km.pinnedCustodians channelId
            (some { pinState with pendingUpdate := some newCustodians }) }, true)
  | none =>
      let pinState := CustodianPinState.firstObservation newCustodians
      ({ km with
        pinnedCustodians := Function.update km.pinnedCustodians channelId (some pinState) },
        !pinState.confirmed)

def acceptCustodianUpdate (km : KeyManager) (channelId : UInt32) : KeyManager :=
  match km.pinnedCustodians channelId with
  | some pinState =>
      { km with
        pinnedCustodians := Function.update km.pinnedCustodians channelId
          (some
            { pinned := pinState.pendingUpdate.getD pinState.pinned
              confirmed := true
              pendingUpdate := none }) }
  | none => km

def confirmCustodianList (km : KeyManager) (channelId : UInt32) : KeyManager :=
  match km.pinnedCustodians channelId with
  | some pinState =>
      { km with
        pinnedCustodians := Function.update km.pinnedCustodians channelId
          (some { pinState with confirmed := true }) }
  | none => km

def resolveDispute (km : KeyManager) (channelId : UInt32) (mode : PchatProtocol) :
    KeyManager × Except Error Unit :=
  match mode with
  | .fancyV1FullArchive =>
      match km.archiveKeys channelId with
      | some (key, _) => (km.storeArchiveKey channelId key .manuallyVerified, .ok ())
      | none => (km, .ok ())
  | mode =>
      (km, .error (.invalidState s!"cannot resolve dispute for mode {mode.debugName}"))

theorem resolveDispute_of_none {km : KeyManager} {channelId : UInt32}
    (h : km.archiveKeys channelId = none) :
    km.resolveDispute channelId .fancyV1FullArchive = (km, .ok ()) := by
  simp only [resolveDispute, h]

theorem resolveDispute_of_some {km : KeyManager} {channelId : UInt32} {key : ChannelKey}
    {trust : KeyTrustLevel} (h : km.archiveKeys channelId = some (key, trust)) :
    km.resolveDispute channelId .fancyV1FullArchive =
      (km.storeArchiveKey channelId key .manuallyVerified, .ok ()) := by
  simp only [resolveDispute, h]

end KeyManager

end FancyMumble.Persistent
