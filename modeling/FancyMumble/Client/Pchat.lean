import FancyMumble.Client.KeyExchange
import FancyMumble.Persistent.Keys.Requests

/-!
# The persistent chat of a client

The state that the message handlers of a client share, the handlers that read or write
its channel keys, and the tasks that they spawn. A task is a list of operations, each of
which holds the lock of the shared state once; between two of them everything else can
happen.
-/

namespace FancyMumble.Client

open Lib.Grouping Persistent

/-! ## State -/

/-- `UserEntry`, with the fields that key sharing reads. -/
structure UserEntry where
  hash : Option String := none
  channelId : UInt32 := 0

/-- `ChannelEntry`, with the fields of the persistent chat. -/
structure ChannelEntry where
  pchatProtocol : Option PchatProtocol := none
  pchatKeyCustodians : List String := []

/-- `PendingKeyShare`: the user has to decide whether a peer gets the key of a channel. -/
structure PendingKeyShare where
  channelId : UInt32
  peerCertHash : String
  requestId : Option String

structure PchatState where
  keyManager : KeyManager := {}
  fetchedChannels : Finset UInt32 := ∅

/-- `SharedState`, with the fields that the handlers below use. -/
structure SharedState where
  ownSession : Option UInt32 := none
  synced : Bool := false
  users : AList fun _ : UInt32 => UserEntry := ∅
  channels : UInt32 → Option ChannelEntry := fun _ => none
  currentChannel : Option UInt32 := none
  pendingKeyShares : List PendingKeyShare := []
  pchat : Option PchatState := none

/-- What stays the same for a client: the hash of its certificate, its identity, the
archive keys that `derive_archive_key` makes from its seed, and whether it has an
identity directory. -/
structure Account where
  certHash : String
  identity : Identity
  deriveArchiveKey : UInt32 → ChannelKey
  identityDir : Bool

inductive Op where
  | sendKeyAnnounce
  | resolveInitialChannel
  | ensureProtocolKey (ch : UInt32) (mode : PchatProtocol)
  | ensureSignalBridge (ch : UInt32)
  | reportKeyHolder (ch : UInt32)
  | checkNeedsKey (ch : UInt32) (mode : PchatProtocol)
  | selfGenerateKey (ch : UInt32)
  | fetchChannelHistory (ch : UInt32)
  | pchatInit (ch : UInt32)
  | maybeDeriveArchiveKeyForJoin (ch : UInt32)
  | checkNeedsKeyOnJoin (ch : UInt32)
  | deriveChannelKeyAsOriginator (ch : UInt32)
  | keyGenAndFetch (id : UInt32)
  | checkNeedsKeyAfterModeChange (id : UInt32) (mode : PchatProtocol)
  | deriveAndStoreArchiveKey (id : UInt32)
  | persistArchiveKey (ch : UInt32) (key : ChannelKey) (originator : Option String)
  | deletePersistedArchiveKey (ch : UInt32)
  | recordKeyHolder (ch : UInt32) (certHash : String)

/-- A client: the shared state, the archive keys on its disk with their originators, and
its tasks. The keys that it has accepted from others so far, with channel and sender,
are recorded for the statements only. -/
structure Participant where
  shared : SharedState := {}
  archiveKeysFile : UInt32 → Option (ChannelKey × Option String) := fun _ => none
  tasks : List (List Op) := []
  accepted : List (UInt32 × String × ChannelKey) := []

def isEncrypted : PchatProtocol → Bool
  | .fancyV1FullArchive | .signalV1 => true
  | .none => false

namespace Participant

def mode (cl : Participant) (ch : UInt32) : Option PchatProtocol :=
  (cl.shared.channels ch).bind ChannelEntry.pchatProtocol

def archiveKey (cl : Participant) (ch : UInt32) : Option (ChannelKey × KeyTrustLevel) :=
  cl.shared.pchat.bind fun pchat => pchat.keyManager.archiveKeys ch

def needsKey (cl : Participant) (ch : UInt32) (mode : PchatProtocol) : Bool :=
  (cl.shared.pchat.map fun pchat => !pchat.keyManager.hasKey ch mode).getD false

def mapPchat (f : PchatState → PchatState) (cl : Participant) : Participant :=
  { cl with shared := { cl.shared with pchat := cl.shared.pchat.map f } }

def mapKeyManager (f : KeyManager → KeyManager) (cl : Participant) : Participant :=
  cl.mapPchat fun pchat => { pchat with keyManager := f pchat.keyManager }

def spawn (cl : Participant) (ops : List Op) : Participant :=
  { cl with tasks := cl.tasks ++ [ops] }

/-! ## Tasks -/

/-- The client's own key becomes the verified key of a channel, and the client its
originator. -/
def storeDerivedKey (account : Account) (ch : UInt32) (cl : Participant) : Participant :=
  cl.mapKeyManager fun km =>
    (km.storeArchiveKey ch (account.deriveArchiveKey ch) .verified).setChannelOriginator ch
      account.certHash

def loadSignalBridge (bridgeLoads : Bool) (cl : Participant) : Participant :=
  cl.mapKeyManager fun km => { km with signalBridge := km.signalBridge || bridgeLoads }

def execOp (account : Account) (bridgeLoads : Bool) (cl : Participant) : Op → Participant
  | .ensureProtocolKey ch mode =>
      if mode = .fancyV1FullArchive ∧ cl.needsKey ch mode then cl.storeDerivedKey account ch
      else cl
  | .maybeDeriveArchiveKeyForJoin ch =>
      if cl.needsKey ch .fancyV1FullArchive then cl.storeDerivedKey account ch else cl
  | .selfGenerateKey ch | .deriveChannelKeyAsOriginator ch =>
      match cl.mode ch with
      | some .fancyV1FullArchive => cl.storeDerivedKey account ch
      | some .signalV1 => cl.loadSignalBridge bridgeLoads
      | _ => cl
  | .deriveAndStoreArchiveKey id =>
      if cl.mode id = some .fancyV1FullArchive then cl.storeDerivedKey account id else cl
  | .ensureSignalBridge _ => cl.loadSignalBridge bridgeLoads
  | .reportKeyHolder ch =>
      -- a client without a usable key does not report itself
      if (cl.mode ch).any (cl.needsKey ch) then cl
      else cl.mapKeyManager (·.recordKeyHolder ch account.certHash)
  | .fetchChannelHistory ch =>
      cl.mapPchat fun pchat => { pchat with fetchedChannels := insert ch pchat.fetchedChannels }
  | .persistArchiveKey ch key originator =>
      { cl with
        archiveKeysFile := Function.update cl.archiveKeysFile ch (some (key, originator)) }
  | .deletePersistedArchiveKey ch =>
      { cl with archiveKeysFile := Function.update cl.archiveKeysFile ch none }
  | .recordKeyHolder ch certHash => cl.mapKeyManager (·.recordKeyHolder ch certHash)
  | .sendKeyAnnounce | .resolveInitialChannel | .checkNeedsKey _ _ | .pchatInit _
  | .checkNeedsKeyOnJoin _ | .keyGenAndFetch _ | .checkNeedsKeyAfterModeChange _ _ => cl

def initEncryptedChannel (ch : UInt32) (mode : PchatProtocol) : List Op :=
  [.ensureProtocolKey ch mode] ++
    (match mode with
      | .fancyV1FullArchive => [.reportKeyHolder ch]
      | .signalV1 => [.ensureSignalBridge ch, .reportKeyHolder ch]
      | .none => []) ++
    [.checkNeedsKey ch mode, .fetchChannelHistory ch]

def pchatInitTask (ch : UInt32) (mode : Option PchatProtocol) : List Op :=
  (match mode with
    | some .fancyV1FullArchive => [.maybeDeriveArchiveKeyForJoin ch, .reportKeyHolder ch]
    | some .signalV1 => [.ensureSignalBridge ch, .reportKeyHolder ch]
    | _ => []) ++
    [.checkNeedsKeyOnJoin ch]

def persistDerivedKey (account : Account) (ch : UInt32) : List Op :=
  if account.identityDir then
    [.persistArchiveKey ch (account.deriveArchiveKey ch) (some account.certHash)]
  else []

/-- How a task goes on after an operation, which the client started in the given
state. -/
def afterOp (account : Account) (bridgeLoads : Bool) (cl : Participant) (op : Op)
    (rest : List Op) : List Op :=
  match op with
  | .resolveInitialChannel =>
      match cl.shared.currentChannel with
      | some ch =>
          match cl.mode ch with
          | some mode => if isEncrypted mode then initEncryptedChannel ch mode ++ rest else rest
          | none => rest
      | none => rest
  | .ensureSignalBridge _ =>
      -- the task is given up when the library cannot be loaded
      if cl.shared.pchat.any fun pchat => pchat.keyManager.signalBridge || bridgeLoads then rest
      else []
  | .checkNeedsKey ch mode =>
      if cl.needsKey ch mode then .selfGenerateKey ch :: .reportKeyHolder ch :: rest else rest
  | .pchatInit ch => pchatInitTask ch (cl.mode ch) ++ rest
  | .maybeDeriveArchiveKeyForJoin ch =>
      if cl.needsKey ch .fancyV1FullArchive then persistDerivedKey account ch ++ rest else rest
  | .checkNeedsKeyOnJoin ch =>
      if (cl.mode ch).any (cl.needsKey ch) then
        .deriveChannelKeyAsOriginator ch :: .reportKeyHolder ch :: rest
      else rest
  | .deriveChannelKeyAsOriginator ch =>
      if cl.mode ch = some .fancyV1FullArchive ∧ cl.shared.pchat.isSome then
        persistDerivedKey account ch ++ rest
      else rest
  | .keyGenAndFetch id =>
      match cl.mode id with
      | some mode =>
          if isEncrypted mode then
            .checkNeedsKeyAfterModeChange id mode :: .fetchChannelHistory id :: rest
          else rest
      | none => rest
  | .checkNeedsKeyAfterModeChange id mode =>
      if cl.needsKey id mode then .deriveAndStoreArchiveKey id :: rest else rest
  | _ => rest

def nextOp (cl : Participant) (task : Nat) : Option Op :=
  cl.tasks[task]?.bind List.head?

def runTask (account : Account) (bridgeLoads : Bool) (cl : Participant) (task : Nat) :
    Participant :=
  match cl.tasks[task]? with
  | some (op :: rest) =>
      { cl.execOp account bridgeLoads op with
        tasks := cl.tasks.set task (cl.afterOp account bridgeLoads op rest) }
  | _ => cl

def announcement (account : Account) (now : UInt64) (cl : Participant) (task : Nat) :
    Option PchatKeyAnnounce :=
  match cl.nextOp task, cl.shared.pchat with
  | some .sendKeyAnnounce, some _ =>
      some (KeyManager.buildKeyAnnounce account.identity account.certHash now)
  | _, _ => none

/-! ## Key sharing -/

def queueKeyShareConsent (requestId : Option String) (channelId : UInt32) (cl : Participant)
    (peerCertHash : String) : Participant :=
  let pending := cl.shared.pendingKeyShares
  if pending.any fun p => p.channelId = channelId && p.peerCertHash = peerCertHash then
    cl
  else
    { cl with
      shared :=
        { cl.shared with
          pendingKeyShares := pending ++ [{ channelId, peerCertHash, requestId }] } }

def retainKeyShares (keep : PendingKeyShare → Bool) (cl : Participant) : Participant :=
  { cl with
    shared :=
      { cl.shared with pendingKeyShares := cl.shared.pendingKeyShares.filter keep } }

def hashesIn (cl : Participant) (ch : UInt32) : List String :=
  (cl.shared.users.entries.filter fun user => user.2.channelId = ch).filterMap
    fun user => user.2.hash

def checkKeyShareForChannel (account : Account) (cl : Participant) (ch : UInt32) : Participant :=
  match cl.shared.pchat with
  | some pchat =>
      let km := pchat.keyManager
      if cl.mode ch = some .fancyV1FullArchive ∧ km.hasKey ch .fancyV1FullArchive then
        ((cl.hashesIn ch).filter fun hash =>
          hash ≠ account.certHash && hash ∉ km.keyHolders ch && (km.peerKeys hash).isSome).foldl
            (queueKeyShareConsent none ch) cl
      else cl
  | none => cl

def findShareableChannels (cl : Participant) (peerCertHash : String) : List UInt32 :=
  match cl.shared.pchat with
  | some pchat =>
      ((cl.shared.users.entries.filter fun user => user.2.hash = some peerCertHash).map
        fun user => user.2.channelId).filter fun ch =>
          cl.mode ch = some .fancyV1FullArchive &&
            pchat.keyManager.hasKey ch .fancyV1FullArchive &&
            peerCertHash ∉ pchat.keyManager.keyHolders ch
  | none => []

def handleKeyAnnounce (account : Account) (cl : Participant) (announce : PchatKeyAnnounce) :
    Participant :=
  match cl.shared.pchat with
  | some pchat =>
      match pchat.keyManager.recordPeerKey account.identity.crypto announce with
      | (km, .ok true) =>
          let cl := cl.mapKeyManager fun _ => km
          (cl.findShareableChannels announce.certHash).foldl
            (fun cl ch => cl.queueKeyShareConsent none ch announce.certHash) cl
      | (km, _) => cl.mapKeyManager fun _ => km
  | none => cl

def handleKeyRequest (cl : Participant) (channelId : UInt32) (requesterHash requestId : String) :
    Participant :=
  match cl.shared.pchat with
  | some pchat =>
      let km := pchat.keyManager
      let requesterOnline :=
        cl.shared.users.entries.any fun user => user.2.hash = some requesterHash
      if km.hasKey channelId .fancyV1FullArchive ∧ requesterOnline ∧
          requesterHash ∉ km.keyHolders channelId then
        cl.queueKeyShareConsent (some requestId) channelId requesterHash
      else cl
  | none => cl

/-- `approve_key_share`: the user lets a peer have the key of a channel. The exchange
that is sent, if there is one, answers the request that the share waited for. -/
def approveKeyShare (account : Account) (nonce : List UInt8) (now : UInt64) (cl : Participant)
    (channelId : UInt32) (peerCertHash : String) : Participant × Option PchatKeyExchange :=
  let isShare (p : PendingKeyShare) : Bool :=
    p.channelId = channelId && p.peerCertHash = peerCertHash
  match cl.shared.pendingKeyShares.find? isShare with
  | none => (cl, none)
  | some share =>
      let cl := cl.retainKeyShares (!isShare ·)
      match cl.shared.pchat with
      | none => (cl, none)
      | some pchat =>
          match pchat.keyManager.peerKeys peerCertHash with
          | none => (cl, none)
          | some peer =>
              match pchat.keyManager.distributeKey account.identity nonce channelId
                  .fancyV1FullArchive 0 peerCertHash peer.dhPublic share.requestId now with
              | .error _ => (cl, none)
              | .ok exchange =>
                  (cl.spawn [.recordKeyHolder channelId peerCertHash],
                    some { exchange with senderHash := account.certHash })

theorem approveKeyShare_snd (account : Account) (nonce : List UInt8) (now : UInt64)
    (cl : Participant) (channelId : UInt32) (peerCertHash : String) :
    (cl.approveKeyShare account nonce now channelId peerCertHash).2 =
      (cl.shared.pendingKeyShares.find? fun p =>
        p.channelId = channelId && p.peerCertHash = peerCertHash).bind fun share =>
          cl.shared.pchat.bind fun pchat =>
            pchat.keyManager.shareKey account.identity nonce now account.certHash channelId
              peerCertHash share.requestId := by
  unfold approveKeyShare
  dsimp only
  split
  next hnone => rw [hnone, Option.bind_none]
  next share hshare =>
    rw [hshare, Option.bind_some]
    unfold KeyManager.shareKey
    simp only [retainKeyShares]
    cases cl.shared.pchat with
    | none => rfl
    | some pchat =>
        cases hpeer : pchat.keyManager.peerKeys peerCertHash with
        | none => simp only [Option.bind_some, hpeer]
        | some peer =>
            cases hdistribute : pchat.keyManager.distributeKey account.identity nonce channelId
                .fancyV1FullArchive 0 peerCertHash peer.dhPublic share.requestId now with
            | error e => simp only [Option.bind_some, hpeer, hdistribute]
            | ok exchange => simp only [Option.bind_some, hpeer, hdistribute]

def dismissKeyShare (cl : Participant) (channelId : UInt32) (peerCertHash : String) : Participant :=
  cl.retainKeyShares fun p => !(p.channelId = channelId && p.peerCertHash = peerCertHash)

/-! ## Received keys -/

/-- `finalize_key_acceptance`. Messages that could not be decrypted are fetched again. -/
def finalizeKeyAcceptance (account : Account) (hasPlaceholders : Bool)
    (exchange : PchatKeyExchange) (cl : Participant) : Participant :=
  let ch := exchange.channelId
  let cl := cl.mapKeyManager (·.recordKeyHolder ch account.certHash)
  let cl := cl.retainKeyShares fun p =>
    !(p.channelId = ch && p.peerCertHash = exchange.senderHash)
  let cl := if hasPlaceholders then
      cl.mapPchat fun pchat => { pchat with fetchedChannels := pchat.fetchedChannels.erase ch }
    else cl
  let persist :=
    match cl.shared.pchat, cl.archiveKey ch with
    | some pchat, some (key, _) =>
        if PchatProtocol.fromWireStr exchange.protocol = .fancyV1FullArchive ∧
            account.identityDir then
          [.persistArchiveKey ch key (pchat.keyManager.channelOriginators ch)]
        else []
    | _, _ => []
  cl.spawn (.reportKeyHolder ch :: persist)

def handleKeyExchange (account : Account) (responseOrder groupOrder : HashOrder)
    (hasPlaceholders : Bool) (cl : Participant) (exchange : PchatKeyExchange) : Participant :=
  match cl.shared.pchat with
  | some pchat =>
      let crypto := account.identity.crypto
      let (km, keyAccepted) :=
        tryAcceptKeyExchange crypto responseOrder groupOrder pchat.keyManager exchange
      let received := cl.mapKeyManager fun _ => km
      let received := { received with
        accepted := ObservedState.suppliedBy crypto pchat.keyManager exchange ++ cl.accepted }
      if keyAccepted then received.finalizeKeyAcceptance account hasPlaceholders exchange
      else received
  | none => cl

/-! ## What the relay tells a client -/

/-- The messages of the relay that other clients have no part in, and the decisions of
the user that send nothing. -/
inductive Input where
  | serverSync (session : UInt32) (fancyServer : Bool)
  | userState (session : UInt32) (hash : Option String) (channelId : Option UInt32)
  | userRemove (session : UInt32)
  | channelState (id : UInt32) (pchatProtocol : Option PchatProtocol)
      (pchatKeyCustodians : List String)
  | channelRemove (id : UInt32)
  | keyRequest (channelId : UInt32) (requesterHash requestId : String)
  | keyHoldersList (channelId : UInt32) (holders : List String)
  | keyChallengeResult (channelId : UInt32) (passed : Bool)
  | disconnected
  | dismissKeyShare (channelId : UInt32) (peerCertHash : String)

def restoreArchiveKeys (account : Account) (cl : Participant) : KeyManager :=
  if account.identityDir then
    { archiveKeys := fun ch => (cl.archiveKeysFile ch).map fun entry => (entry.1, .verified)
      channelOriginators := fun ch => (cl.archiveKeysFile ch).bind Prod.snd }
  else {}

def handleServerSync (account : Account) (cl : Participant) (session : UInt32)
    (fancyServer : Bool) : Participant :=
  let own := cl.shared.users.lookup session
  let currentChannel := (own.map UserEntry.channelId).or cl.shared.currentChannel
  let cl := { cl with
    shared := { cl.shared with ownSession := some session, synced := true, currentChannel } }
  if (own.bind UserEntry.hash).isSome ∧ fancyServer then
    let pchat : PchatState := { keyManager := cl.restoreArchiveKeys account }
    { cl with shared := { cl.shared with pchat := some pchat } }.spawn
      [.sendKeyAnnounce, .resolveInitialChannel]
  else cl

def handleOwnChannelChange (cl : Participant) (ch : UInt32) : Participant :=
  let alreadyFetched := cl.shared.pchat.any fun pchat => ch ∈ pchat.fetchedChannels
  if cl.shared.pchat.isSome ∧ (cl.mode ch).any isEncrypted ∧ !alreadyFetched then
    (cl.mapPchat fun pchat =>
      { pchat with fetchedChannels := insert ch pchat.fetchedChannels }).spawn [.pchatInit ch]
  else cl

def handleUserState (account : Account) (cl : Participant) (session : UInt32)
    (hash : Option String) (channelId : Option UInt32) : Participant :=
  let known := cl.shared.users.lookup session
  let user := known.getD {}
  let isOwn : Bool := cl.shared.ownSession = some session
  let shared := { cl.shared with
    users := cl.shared.users.insert session
      { hash := hash.or user.hash, channelId := channelId.getD user.channelId }
    currentChannel :=
      if isOwn then channelId.or cl.shared.currentChannel else cl.shared.currentChannel }
  let updated := { cl with shared }
  match channelId with
  | some ch =>
      if isOwn then updated.handleOwnChannelChange ch
      else if cl.shared.synced ∧ (known.isNone ∨ ch ≠ user.channelId) then
        updated.checkKeyShareForChannel account ch
      else updated
  | none => updated

def handleUserRemove (cl : Participant) (session : UInt32) : Participant :=
  let hash := (cl.shared.users.lookup session).bind UserEntry.hash
  let cl := { cl with shared := { cl.shared with users := cl.shared.users.erase session } }
  cl.retainKeyShares fun p => hash ≠ some p.peerCertHash

def handleChannelState (cl : Participant) (id : UInt32) (pchatProtocol : Option PchatProtocol)
    (pchatKeyCustodians : List String) : Participant :=
  let oldMode := cl.mode id
  let modeChanged : Bool := pchatProtocol.isSome && oldMode ≠ pchatProtocol
  let entry : ChannelEntry := { pchatProtocol := pchatProtocol.or oldMode, pchatKeyCustodians }
  let cl := { cl with
    shared := { cl.shared with channels := Function.update cl.shared.channels id (some entry) } }
  let cl := cl.mapKeyManager fun km => (km.updateCustodianPin id pchatKeyCustodians).1
  if modeChanged ∧ cl.shared.currentChannel = some id then cl.spawn [.keyGenAndFetch id] else cl

theorem handleChannelState_tasks (cl : Participant) (id : UInt32)
    (pchatProtocol : Option PchatProtocol) (pchatKeyCustodians : List String) :
    (cl.handleChannelState id pchatProtocol pchatKeyCustodians).tasks =
      cl.tasks ++
        if (pchatProtocol.isSome && decide (cl.mode id ≠ pchatProtocol)) = true ∧
            cl.shared.currentChannel = some id then
          [[.keyGenAndFetch id]]
        else [] := by
  unfold handleChannelState
  dsimp only
  by_cases hstarts : (pchatProtocol.isSome && decide (cl.mode id ≠ pchatProtocol)) = true ∧
      cl.shared.currentChannel = some id
  · rw [if_pos hstarts]
    exact congrArg tasks (if_pos hstarts)
  · rw [if_neg hstarts, List.append_nil]
    exact (congrArg tasks (if_neg hstarts)).trans rfl

def handleChannelRemove (account : Account) (cl : Participant) (id : UInt32) : Participant :=
  let archiveKeysFile :=
    if cl.shared.pchat.isSome ∧ account.identityDir then
      Function.update cl.archiveKeysFile id none
    else cl.archiveKeysFile
  let cl := { cl with
    shared := { cl.shared with channels := Function.update cl.shared.channels id none }
    archiveKeysFile }
  let cl := cl.mapPchat fun pchat =>
    { pchat with
      keyManager := pchat.keyManager.removeChannel id
      fetchedChannels := pchat.fetchedChannels.erase id }
  cl.retainKeyShares fun p => p.channelId ≠ id

def handleKeyHoldersList (cl : Participant) (channelId : UInt32) (holders : List String) :
    Participant :=
  let holderHashes := (holders.filter (· ≠ "")).toFinset
  let cl := cl.mapKeyManager fun km =>
    { km with keyHolders := Function.update km.keyHolders channelId holderHashes }
  cl.retainKeyShares fun p => !(p.channelId = channelId && p.peerCertHash ∈ holderHashes)

def handleKeyChallengeResult (account : Account) (cl : Participant) (channelId : UInt32)
    (passed : Bool) : Participant :=
  if passed then cl
  else
    let cl := cl.mapKeyManager (·.removeChannel channelId)
    let cl := cl.retainKeyShares fun p => p.channelId ≠ channelId
    if cl.shared.pchat.isSome ∧ account.identityDir then
      cl.spawn [.deletePersistedArchiveKey channelId]
    else cl

/-- The state after an input. A lost connection takes everything with it but the disk
and the tasks. -/
def handle (account : Account) (cl : Participant) : Input → Participant
  | .serverSync session fancyServer => cl.handleServerSync account session fancyServer
  | .userState session hash channelId => cl.handleUserState account session hash channelId
  | .userRemove session => cl.handleUserRemove session
  | .channelState id pchatProtocol pchatKeyCustodians =>
      cl.handleChannelState id pchatProtocol pchatKeyCustodians
  | .channelRemove id => cl.handleChannelRemove account id
  | .keyRequest channelId requesterHash requestId =>
      cl.handleKeyRequest channelId requesterHash requestId
  | .keyHoldersList channelId holders => cl.handleKeyHoldersList channelId holders
  | .keyChallengeResult channelId passed =>
      cl.handleKeyChallengeResult account channelId passed
  | .disconnected => { cl with shared := {} }
  | .dismissKeyShare channelId peerCertHash => cl.dismissKeyShare channelId peerCertHash

end Participant

/-- The account of the examples. -/
def annaAccount : Account where
  certHash := "anna"
  identity := .plain
  deriveArchiveKey := fun _ => .replicate 1
  identityDir := true

end FancyMumble.Client
