import FancyMumble.Error
import FancyMumble.Lib.Bytes
import Mathlib.Data.List.AList

/-!
# Types of the persistent chat

The protocols, trust levels and keys of persistent channels, the key-exchange
message, and the data that is signed in it.
-/

namespace FancyMumble.Persistent

open Lib

inductive PchatProtocol where
  | none
  | fancyV1FullArchive
  | signalV1
deriving DecidableEq

namespace PchatProtocol

def asWireStr : PchatProtocol → String
  | .none => "NONE"
  | .fancyV1FullArchive => "FANCY_V1_FULL_ARCHIVE"
  | .signalV1 => "SIGNAL_V1"

def fromWireStr (s : String) : PchatProtocol :=
  if s = "FANCY_V1_FULL_ARCHIVE" ∨ s = "FULL_ARCHIVE" then .fancyV1FullArchive
  else if s = "SIGNAL_V1" then .signalV1
  else .none

def fromProto (value : Int32) : PchatProtocol :=
  match value.toInt with
  | 2 => .fancyV1FullArchive
  | 4 => .signalV1
  | _ => .none

def debugName : PchatProtocol → String
  | .none => "None"
  | .fancyV1FullArchive => "FancyV1FullArchive"
  | .signalV1 => "SignalV1"

theorem fromWireStr_asWireStr (protocol : PchatProtocol) :
    fromWireStr protocol.asWireStr = protocol := by
  cases protocol <;> decide

end PchatProtocol

/-- `KeyTrustLevel`: the trust level of a received key. -/
inductive KeyTrustLevel where
  | manuallyVerified
  | verified
  | unverified
  | disputed
deriving DecidableEq

@[ext] structure ChannelKey where
  bytes : List UInt8
  length_bytes : bytes.length = 32
deriving DecidableEq

def ChannelKey.ofBytes? (bytes : List UInt8) : Option ChannelKey :=
  if h : bytes.length = 32 then some ⟨bytes, h⟩ else none

def ChannelKey.replicate (byte : UInt8) : ChannelKey :=
  ⟨List.replicate 32 byte, by simp⟩

structure EpochKey where
  key : ChannelKey
  chainIndex : UInt32 := 0
  currentChainKey : ChannelKey := key
deriving DecidableEq

abbrev EpochKeys := AList fun _ : UInt32 => EpochKey × KeyTrustLevel

/-- A candidate epoch key received during the fork-resolution window. -/
structure EpochCandidate where
  senderHash : String
  epochKey : EpochKey
  parentFingerprint : List UInt8
  epochFingerprint : List UInt8
deriving DecidableEq

structure PeerKeyRecord where
  algorithmVersion : UInt8
  dhPublic : List UInt8
  signingPublic : List UInt8
  highestAnnounceTs : UInt64

structure PchatKeyExchange where
  channelId : UInt32
  protocol : String
  epoch : UInt32 := 0
  encryptedKey : List UInt8
  senderHash : String
  recipientHash : String
  requestId : Option String := none
  timestamp : UInt64
  algorithmVersion : UInt8 := 1
  signature : List UInt8
  parentFingerprint : Option (List UInt8) := none
  epochFingerprint : List UInt8
  countersignature : Option (List UInt8) := none
  countersignerHash : Option String := none
deriving DecidableEq

/-- The key-exchange responses to one request. The responses are listed by sender;
`observedMembers` is the number of members observed in the channel. -/
structure ConsensusCollector where
  responses : AList fun _ : String => ChannelKey := ∅
  requestTimestamp : UInt64 := 0
  observedMembers : UInt32 := 0

structure CustodianPinState where
  pinned : List String
  confirmed : Bool
  pendingUpdate : Option (List String) := none
deriving DecidableEq

def CustodianPinState.firstObservation (custodians : List String) : CustodianPinState where
  pinned := custodians
  confirmed := custodians.isEmpty

/-! ## Signed data -/

def toBeBytes (width n : Nat) : List UInt8 :=
  (Bytes.leBytes width n).reverse

def asBytes (s : String) : List UInt8 :=
  s.toUTF8.toList

def buildKeyExchangeSignedData (algorithmVersion : UInt8) (channelId : UInt32)
    (mode : PchatProtocol) (epoch : UInt32) (encryptedKey : List UInt8)
    (recipientHash : String) (requestId : Option String) (timestamp : UInt64) : List UInt8 :=
  let modeByte : UInt8 := if mode = .fancyV1FullArchive then 2 else 0
  [algorithmVersion] ++ toBeBytes 4 channelId.toNat ++ [modeByte] ++
    toBeBytes 4 epoch.toNat ++ encryptedKey ++ asBytes recipientHash ++
    asBytes (requestId.getD "") ++ toBeBytes 8 timestamp.toNat

def buildCountersigData (channelId epoch : UInt32) (epochFp parentFp : List UInt8)
    (timestamp : UInt64) (distributorHash : String) : List UInt8 :=
  toBeBytes 4 channelId.toNat ++ toBeBytes 4 epoch.toNat ++ epochFp ++ parentFp ++
    toBeBytes 8 timestamp.toNat ++ asBytes distributorHash

end FancyMumble.Persistent
