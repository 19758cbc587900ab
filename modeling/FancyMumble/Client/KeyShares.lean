import FancyMumble.Client.HeldKeys

/-!
# Pending key shares

The user decides for every pending share whether a peer gets the key of a channel. When is
every pending share one that there is still something to decide about?
-/

namespace FancyMumble.Client

open Lib.Grouping Lib.Runs Persistent

namespace Participant

variable (account : Account)

/-! ## Operations in parts -/

def consents (cl : Participant) : List (UInt32 × String) :=
  cl.shared.pendingKeyShares.map fun p => (p.channelId, p.peerCertHash)

def Connected (cl : Participant) (hash : String) : Prop :=
  ∃ session user, cl.shared.users.lookup session = some user ∧ user.hash = some hash

def handleKicked (cl : Participant) : Participant :=
  { cl with
    shared :=
      { cl.shared with
        ownSession := none
        synced := false
        users := ∅
        channels := fun _ => none
        currentChannel := none } }

def receive (cl : Participant) : Input → Participant
  | .userRemove session =>
      if cl.shared.ownSession = some session then cl.handleKicked
      else cl.handleUserRemove session
  | input => cl.handle account input

def withUser (cl : Participant) (session : UInt32) (hash : Option String)
    (channelId : Option UInt32) : Participant :=
  let user := (cl.shared.users.lookup session).getD {}
  { cl with
    shared :=
      { cl.shared with
        users := cl.shared.users.insert session
          { hash := hash.or user.hash, channelId := channelId.getD user.channelId }
        currentChannel :=
          if (decide (cl.shared.ownSession = some session)) then
            channelId.or cl.shared.currentChannel
          else cl.shared.currentChannel } }

def movedTo (cl : Participant) (session : UInt32) (channelId : Option UInt32) : Option UInt32 :=
  let known := cl.shared.users.lookup session
  channelId.filter fun ch =>
    cl.shared.ownSession ≠ some session ∧ cl.shared.synced ∧
      (known.isNone ∨ ch ≠ (known.getD {}).channelId)

def shareablePeers (cl : Participant) (ch : UInt32) : List String :=
  match cl.shared.pchat with
  | some pchat =>
      let km := pchat.keyManager
      if cl.mode ch = some .fancyV1FullArchive ∧ km.hasKey ch .fancyV1FullArchive then
        (cl.hashesIn ch).filter fun hash =>
          hash ≠ account.certHash && hash ∉ km.keyHolders ch && (km.peerKeys hash).isSome
      else []
  | none => []

theorem checkKeyShareForChannel_eq (cl : Participant) (ch : UInt32) :
    cl.checkKeyShareForChannel account ch =
      (cl.shareablePeers account ch).foldl (queueKeyShareConsent none ch) cl := by
  unfold checkKeyShareForChannel shareablePeers
  cases cl.shared.pchat with
  | none => rfl
  | some pchat =>
      dsimp only
      split
      next => rfl
      next => rfl

theorem handleUserState_cases (cl : Participant) (session : UInt32) (hash : Option String)
    (channelId : Option UInt32) :
    (∃ ch, cl.movedTo session channelId = some ch ∧
      cl.handleUserState account session hash channelId =
        (cl.withUser session hash channelId).checkKeyShareForChannel account ch) ∨
    cl.movedTo session channelId = none ∧
      (cl.handleUserState account session hash channelId = cl.withUser session hash channelId ∨
        ∃ ch, cl.handleUserState account session hash channelId =
          (cl.withUser session hash channelId).handleOwnChannelChange ch) := by
  unfold handleUserState
  dsimp only
  cases channelId with
  | none => exact .inr ⟨rfl, .inl rfl⟩
  | some ch =>
      by_cases hown : cl.shared.ownSession = some session
      · refine .inr ⟨if_neg (by simp [hown]), .inr ⟨ch, if_pos (decide_eq_true hown)⟩⟩
      · by_cases hmoved : cl.shared.synced = true ∧
            ((cl.shared.users.lookup session).isNone = true ∨
              ch ≠ ((cl.shared.users.lookup session).getD {}).channelId)
        · exact .inl ⟨ch, if_pos (by simpa [hown] using hmoved),
            (if_neg (by simpa using hown)).trans (if_pos hmoved)⟩
        · exact .inr ⟨if_neg (by simpa [hown] using hmoved),
            .inl ((if_neg (by simpa using hown)).trans (if_neg hmoved))⟩

/-! ## Effects on the pending shares -/

/-- The pending shares of the second state are those of the first one and those that are asked
for, each of them once. Users and keys are the same. -/
structure Asks (cl cl' : Participant) (asked : List (UInt32 × String)) : Prop where
  mem : ∀ pair, pair ∈ cl'.consents ↔ pair ∈ cl.consents ∨ pair ∈ asked
  nodup : cl.consents.Nodup → cl'.consents.Nodup
  users : cl'.shared.users = cl.shared.users
  archiveKey : cl'.archiveKey = cl.archiveKey

theorem Asks.of_eq {cl cl' : Participant}
    (hpending : cl'.shared.pendingKeyShares = cl.shared.pendingKeyShares)
    (husers : cl'.shared.users = cl.shared.users) (hkeys : cl'.archiveKey = cl.archiveKey) :
    Asks cl cl' [] := by
  have hconsents : cl'.consents = cl.consents := by unfold consents; rw [hpending]
  refine ⟨fun pair => ?_, fun h => hconsents ▸ h, husers, hkeys⟩
  rw [hconsents, or_iff_left List.not_mem_nil]

theorem Asks.trans {a b c : Participant} {asked asked' : List (UInt32 × String)}
    (hab : Asks a b asked) (hbc : Asks b c asked') : Asks a c (asked ++ asked') where
  mem pair := by rw [hbc.mem, hab.mem, List.mem_append, or_assoc]
  nodup h := hbc.nodup (hab.nodup h)
  users := hbc.users.trans hab.users
  archiveKey := hbc.archiveKey.trans hab.archiveKey

theorem asks_queue (requestId : Option String) (channelId : UInt32) (cl : Participant)
    (peerCertHash : String) :
    Asks cl (cl.queueKeyShareConsent requestId channelId peerCertHash)
      [(channelId, peerCertHash)] := by
  have hany : (cl.shared.pendingKeyShares.any fun p =>
      p.channelId = channelId && p.peerCertHash = peerCertHash) = true ↔
      (channelId, peerCertHash) ∈ cl.consents := by
    simp only [consents, List.any_eq_true, List.mem_map, Bool.and_eq_true, decide_eq_true_eq,
      Prod.mk.injEq]
  unfold queueKeyShareConsent
  dsimp only
  split
  next hpending =>
    refine ⟨fun pair => ?_, id, rfl, rfl⟩
    rw [List.mem_singleton]
    exact (or_iff_left_of_imp fun heq => heq ▸ hany.mp hpending).symm
  next hpending =>
    have hconsents (cl' : Participant) (h : cl'.shared.pendingKeyShares =
        cl.shared.pendingKeyShares ++ [⟨channelId, peerCertHash, requestId⟩]) :
        cl'.consents = cl.consents ++ [(channelId, peerCertHash)] := by
      unfold consents
      rw [h, List.map_append]
      rfl
    refine ⟨fun pair => ?_, fun hnodup => ?_, rfl, rfl⟩
    · rw [hconsents _ rfl]
      exact List.mem_append
    · rw [hconsents _ rfl]
      exact hnodup.append (List.nodup_singleton _)
        (List.disjoint_singleton.mpr (mt hany.mpr hpending))

theorem asks_foldl {ι : Type} (ask : Participant → ι → Participant) (pair : ι → UInt32 × String)
    (hask : ∀ cl i, Asks cl (ask cl i) [pair i]) (is : List ι) (cl : Participant) :
    Asks cl (is.foldl ask cl) (is.map pair) := by
  induction is generalizing cl with
  | nil => exact .of_eq rfl rfl rfl
  | cons i rest ih => exact (hask cl i).trans (ih (ask cl i))

theorem asks_checkKeyShareForChannel (cl : Participant) (ch : UInt32) :
    Asks cl (cl.checkKeyShareForChannel account ch)
      ((cl.shareablePeers account ch).map (ch, ·)) := by
  rw [checkKeyShareForChannel_eq]
  exact asks_foldl _ _ (asks_queue none ch) _ cl

theorem archiveKey_mapPchat (cl : Participant) (f : PchatState → PchatState)
    (h : ∀ pchat ∈ cl.shared.pchat,
      (f pchat).keyManager.archiveKeys = pchat.keyManager.archiveKeys) :
    (cl.mapPchat f).archiveKey = cl.archiveKey := by
  funext ch
  unfold archiveKey mapPchat
  cases hpchat : cl.shared.pchat with
  | none => rfl
  | some pchat => exact congrFun (h pchat hpchat) ch

theorem asks_mapPchat (cl : Participant) (f : PchatState → PchatState)
    (h : ∀ pchat ∈ cl.shared.pchat,
      (f pchat).keyManager.archiveKeys = pchat.keyManager.archiveKeys) :
    Asks cl (cl.mapPchat f) [] :=
  .of_eq rfl rfl (archiveKey_mapPchat cl f h)

theorem asks_spawn (cl : Participant) (ops : List Op) : Asks cl (cl.spawn ops) [] :=
  .of_eq rfl rfl rfl

theorem asks_handleOwnChannelChange (cl : Participant) (ch : UInt32) :
    Asks cl (cl.handleOwnChannelChange ch) [] := by
  unfold handleOwnChannelChange
  dsimp only
  split
  next =>
    let fetched (pchat : PchatState) : PchatState :=
      { pchat with fetchedChannels := insert ch pchat.fetchedChannels }
    exact (asks_mapPchat cl fetched fun _ _ => rfl).trans (asks_spawn _ _)
  next => exact .of_eq rfl rfl rfl

theorem consents_retainKeyShares (cl : Participant) (keep : UInt32 × String → Bool) :
    (cl.retainKeyShares fun p => keep (p.channelId, p.peerCertHash)).consents =
      cl.consents.filter keep := by
  unfold consents retainKeyShares
  rw [List.filter_map]
  rfl

theorem shareablePeers_sound {cl : Participant} {ch : UInt32} {hash : String}
    (h : hash ∈ cl.shareablePeers account ch) :
    cl.Connected hash ∧ (cl.archiveKey ch).isSome := by
  unfold shareablePeers at h
  split at h
  next pchat hpchat =>
    dsimp only at h
    split at h
    next hkey =>
      obtain ⟨user, huser, hhash⟩ := List.mem_filterMap.mp (List.mem_filter.mp h).1
      refine ⟨⟨user.1, user.2, AList.mem_lookup_iff.mpr (List.mem_filter.mp huser).1, hhash⟩, ?_⟩
      rw [archiveKey_of_pchat hpchat]
      exact hkey.2
    next => exact absurd h List.not_mem_nil
  next => exact absurd h List.not_mem_nil

theorem findShareableChannels_sound {cl : Participant} {peerCertHash : String} {ch : UInt32}
    (h : ch ∈ cl.findShareableChannels peerCertHash) :
    cl.Connected peerCertHash ∧ (cl.archiveKey ch).isSome := by
  unfold findShareableChannels at h
  split at h
  next pchat hpchat =>
    obtain ⟨hmem, hkey⟩ := List.mem_filter.mp h
    obtain ⟨user, huser, rfl⟩ := List.mem_map.mp hmem
    obtain ⟨hentry, hhash⟩ := List.mem_filter.mp huser
    refine ⟨⟨user.1, user.2, AList.mem_lookup_iff.mpr hentry, of_decide_eq_true hhash⟩, ?_⟩
    rw [archiveKey_of_pchat hpchat]
    exact (Bool.and_eq_true_iff.mp (Bool.and_eq_true_iff.mp hkey).1).2
  next => exact absurd h List.not_mem_nil

/-! ## Effects on the keys -/

theorem archiveKey_storeDerivedKey_eq (cl : Participant) (ch : UInt32)
    (h : cl.shared.pchat.isSome) :
    (cl.storeDerivedKey account ch).archiveKey =
      Function.update cl.archiveKey ch (some (account.deriveArchiveKey ch, .verified)) := by
  obtain ⟨pchat, hpchat⟩ := Option.isSome_iff_exists.mp h
  funext c
  by_cases hchannel : c = ch
  · subst hchannel
    rw [Function.update_self]
    exact archiveKey_storeDerivedKey account cl c h
  · rw [Function.update_of_ne hchannel, archiveKey_of_pchat hpchat]
    simp [storeDerivedKey, mapKeyManager, mapPchat, archiveKey, hpchat,
      KeyManager.setChannelOriginator, Function.update_of_ne hchannel]

theorem asks_execOp (bridgeLoads : Bool) {cl : Participant} {op : Op}
    (h : cl.storesOwnKey op = none) : Asks cl (cl.execOp account bridgeLoads op) [] := by
  have hbridge : Asks cl (cl.loadSignalBridge bridgeLoads) [] :=
    asks_mapPchat cl _ fun _ _ => rfl
  have hnowhere (ch : UInt32) (hpchat : ¬cl.shared.pchat.isSome) :
      Asks cl (cl.storeDerivedKey account ch) [] := by
    refine asks_mapPchat cl _ fun pchat hsome => absurd ?_ hpchat
    rw [Option.mem_def.mp hsome]
    rfl
  cases op with
  | ensureProtocolKey ch mode | maybeDeriveArchiveKeyForJoin ch =>
      simp only [storesOwnKey, ite_eq_right_iff, reduceCtorEq, imp_false] at h
      simp only [execOp, if_neg h]
      exact .of_eq rfl rfl rfl
  | selfGenerateKey ch | deriveChannelKeyAsOriginator ch =>
      simp only [storesOwnKey, ite_eq_right_iff, reduceCtorEq, imp_false, not_and] at h
      simp only [execOp]
      split
      next hmode => exact hnowhere ch (h hmode)
      next => exact hbridge
      next => exact .of_eq rfl rfl rfl
  | deriveAndStoreArchiveKey ch =>
      simp only [storesOwnKey, ite_eq_right_iff, reduceCtorEq, imp_false, not_and] at h
      simp only [execOp]
      split
      next hmode => exact hnowhere ch (h hmode)
      next => exact .of_eq rfl rfl rfl
  | ensureSignalBridge ch => exact hbridge
  | reportKeyHolder ch =>
      simp only [execOp]
      split
      next => exact .of_eq rfl rfl rfl
      next => exact asks_mapPchat cl _ fun _ _ => rfl
  | fetchChannelHistory ch => exact asks_mapPchat cl _ fun _ _ => rfl
  | recordKeyHolder ch certHash => exact asks_mapPchat cl _ fun _ _ => rfl
  | persistArchiveKey | deletePersistedArchiveKey | sendKeyAnnounce | resolveInitialChannel
  | checkNeedsKey | pchatInit | checkNeedsKeyOnJoin | keyGenAndFetch
  | checkNeedsKeyAfterModeChange => exact .of_eq rfl rfl rfl

theorem archiveKey_mapKeyManager_removeChannel (cl : Participant) {ch c : UInt32} (h : c ≠ ch)
    (f : PchatState → PchatState)
    (hf : ∀ pchat, (f pchat).keyManager = pchat.keyManager.removeChannel ch) :
    (cl.mapPchat f).archiveKey c = cl.archiveKey c := by
  unfold archiveKey mapPchat
  cases cl.shared.pchat with
  | none => rfl
  | some pchat =>
      change (f pchat).keyManager.archiveKeys c = pchat.keyManager.archiveKeys c
      rw [hf]
      exact Function.update_of_ne h _ _

end Participant

/-! ## Sharing -/

structure Sharer where
  cl : Participant := {}
  sent : List (UInt32 × String × ChannelKey) := []

/-- What happens. An approved share is sent or not. -/
inductive ShareEvent where
  | input (input : Participant.Input)
  | keyAnnounce (announce : PchatKeyAnnounce)
  | keyExchange (responseOrder groupOrder : HashOrder) (hasPlaceholders : Bool)
      (exchange : PchatKeyExchange)
  | approve (nonce : List UInt8) (now : UInt64) (channelId : UInt32) (peerCertHash : String)
      (sends : Bool)
  | runTask (task : ℕ) (bridgeLoads : Bool)

namespace Sharer

variable (account : Account)

def approve (s : Sharer) (nonce : List UInt8) (now : UInt64) (channelId : UInt32)
    (peerCertHash : String) (sends : Bool) : Sharer :=
  let (cl, exchange) := s.cl.approveKeyShare account nonce now channelId peerCertHash
  if sends then
    { cl
      sent := s.sent ++
        (exchange.bind fun _ =>
          (s.cl.archiveKey channelId).map fun key => (channelId, peerCertHash, key.1)).toList }
  else { s with cl := { cl with tasks := s.cl.tasks } }

def step (s : Sharer) : ShareEvent → Sharer
  | .input input => { s with cl := s.cl.receive account input }
  | .keyAnnounce announce => { s with cl := s.cl.handleKeyAnnounce account announce }
  | .keyExchange responseOrder groupOrder hasPlaceholders exchange =>
      { s with
        cl := s.cl.handleKeyExchange account responseOrder groupOrder hasPlaceholders exchange }
  | .approve nonce now channelId peerCertHash sends =>
      s.approve account nonce now channelId peerCertHash sends
  | .runTask task bridgeLoads => { s with cl := s.cl.runTask account bridgeLoads task }

def Unshared (s : Sharer) (channelId : UInt32) (peerCertHash : String) : Prop :=
  ∀ key trust, s.cl.archiveKey channelId = some (key, trust) →
    (channelId, peerCertHash, key) ∉ s.sent

/-- Each share is pending once, for a connected peer to whom the current key of the channel was
not sent, and there is a key. -/
structure Accurate (s : Sharer) : Prop where
  distinct : s.cl.consents.Nodup
  connected : ∀ share ∈ s.cl.consents, s.cl.Connected share.2
  unshared : ∀ share ∈ s.cl.consents, s.Unshared share.1 share.2
  holdsKey : ∀ share ∈ s.cl.consents, (s.cl.archiveKey share.1).isSome

/-- What an approved share sends is the key of the channel, sealed for the peer. -/
def SendsToPeer (s : Sharer) : ShareEvent → Prop
  | .approve nonce now channelId peerCertHash _ =>
      ∀ exchange, (s.cl.approveKeyShare account nonce now channelId peerCertHash).2 =
          some exchange →
        exchange.channelId = channelId ∧ exchange.recipientHash = peerCertHash ∧
          ∃ pchat, s.cl.shared.pchat = some pchat ∧
            ∃ peer, pchat.keyManager.peerKeys peerCertHash = some peer ∧
              pchat.keyManager.WrappedFor account.identity exchange peer.dhPublic
  | _ => True

/-! ## When shares stay accurate -/

def LosesHash (s : Sharer) (session : UInt32) (hash : Option String) (old : String) : Prop :=
  (s.cl.shared.users.lookup session).bind UserEntry.hash = some old ∧
    (∃ new, hash = some new ∧ new ≠ old) ∧
    ∀ other user, other ≠ session → s.cl.shared.users.lookup other = some user →
      user.hash ≠ some old

/-- The condition on inputs. A new persistent chat has the keys of all pending shares; hashes
of peers with pending shares do not vanish; the client is not removed while shares are pending;
and no peer is asked about who was sent the current key. -/
def KeepsAccurateInput (s : Sharer) : Participant.Input → Prop
  | .serverSync session fancyServer =>
      ((s.cl.shared.users.lookup session).bind UserEntry.hash).isSome = true →
        fancyServer = true → ∀ share ∈ s.cl.consents, account.identityDir = true ∧
          ∃ key originator, s.cl.archiveKeysFile share.1 = some (key, originator) ∧
            (share.1, share.2, key) ∉ s.sent
  | .userState session hash channelId =>
      (∀ share ∈ s.cl.consents, ¬s.LosesHash session hash share.2) ∧
        ∀ ch ∈ s.cl.movedTo session channelId,
          ∀ peer ∈ (s.cl.withUser session hash channelId).shareablePeers account ch,
            s.Unshared ch peer
  | .userRemove session => s.cl.shared.ownSession = some session → s.cl.consents = []
  | .keyRequest channelId requesterHash _ =>
      (s.cl.archiveKey channelId).isSome = true → s.cl.Connected requesterHash →
        (∀ pchat ∈ s.cl.shared.pchat, requesterHash ∉ pchat.keyManager.keyHolders channelId) →
          s.Unshared channelId requesterHash
  | _ => True

/-- The condition on events. Nobody is asked about who was sent the current key, and no key
becomes current that was sent to a peer with a pending share. -/
def KeepsAccurate (s : Sharer) : ShareEvent → Prop
  | .input input => s.KeepsAccurateInput account input
  | .keyAnnounce announce =>
      ∀ pchat ∈ s.cl.shared.pchat,
        (pchat.keyManager.recordPeerKey account.identity.crypto announce).2 = .ok true →
          ∀ ch ∈ s.cl.findShareableChannels announce.certHash, s.Unshared ch announce.certHash
  | .keyExchange responseOrder groupOrder _ exchange =>
      ∀ pchat ∈ s.cl.shared.pchat,
        let (km, keyAccepted) := tryAcceptKeyExchange account.identity.crypto responseOrder
          groupOrder pchat.keyManager exchange
        ∀ share ∈ s.cl.consents,
          ¬(keyAccepted = true ∧ share = (exchange.channelId, exchange.senderHash)) →
            ∀ key trust, km.archiveKeys share.1 = some (key, trust) →
              (share.1, share.2, key) ∉ s.sent
  | .approve .. => True
  | .runTask task _ =>
      ∀ op ∈ s.cl.nextOp task, ∀ ch ∈ s.cl.storesOwnKey op, ∀ peer, (ch, peer) ∈ s.cl.consents →
        (ch, peer, account.deriveArchiveKey ch) ∉ s.sent

/-! ## Steps -/

variable {account} {s : Sharer} {cl' : Participant}

theorem accurate_asks_iff {cl : Participant} {sent : List (UInt32 × String × ChannelKey)}
    {asked : List (UInt32 × String)} (hdistinct : cl.consents.Nodup)
    (hasks : Participant.Asks cl cl' asked)
    (hpeers : ∀ share ∈ asked, cl.Connected share.2 ∧ (cl.archiveKey share.1).isSome) :
    Accurate ⟨cl', sent⟩ ↔
      Accurate ⟨cl, sent⟩ ∧ ∀ share ∈ asked, Unshared ⟨cl, sent⟩ share.1 share.2 := by
  have hconnected (hash : String) : cl'.Connected hash ↔ cl.Connected hash := by
    unfold Participant.Connected
    rw [hasks.users]
  have hunshared (c : UInt32) (hash : String) :
      Unshared ⟨cl', sent⟩ c hash ↔ Unshared ⟨cl, sent⟩ c hash := by
    unfold Unshared
    dsimp only
    rw [hasks.archiveKey]
  constructor
  · intro h
    have hold (share : UInt32 × String) (hshare : share ∈ cl.consents) : share ∈ cl'.consents :=
      (hasks.mem share).mpr (.inl hshare)
    refine ⟨⟨hdistinct, fun share hshare => ?_, fun share hshare => ?_, fun share hshare => ?_⟩,
      fun share hshare => ?_⟩
    · exact (hconnected _).mp (h.connected share (hold share hshare))
    · exact (hunshared _ _).mp (h.unshared share (hold share hshare))
    · exact hasks.archiveKey ▸ h.holdsKey share (hold share hshare)
    · exact (hunshared _ _).mp (h.unshared share ((hasks.mem share).mpr (.inr hshare)))
  · rintro ⟨h, hnew⟩
    refine ⟨hasks.nodup hdistinct, fun share hshare => (hconnected _).mpr ?_,
      fun share hshare => (hunshared _ _).mpr ?_, fun share hshare => ?_⟩
    · exact ((hasks.mem share).mp hshare).elim (h.connected share) fun hasked =>
        (hpeers share hasked).1
    · exact ((hasks.mem share).mp hshare).elim (h.unshared share) (hnew share)
    · change (cl'.archiveKey share.1).isSome
      rw [hasks.archiveKey]
      exact ((hasks.mem share).mp hshare).elim (h.holdsKey share) fun hasked =>
        (hpeers share hasked).2

theorem accurate_of_asks_nil (h : Accurate s) (hasks : Participant.Asks s.cl cl' []) :
    Accurate { s with cl := cl' } :=
  (accurate_asks_iff h.distinct hasks fun _ hshare => absurd hshare List.not_mem_nil).mpr
    ⟨h, fun _ hshare => absurd hshare List.not_mem_nil⟩

theorem Accurate.mono (h : Accurate s) (hsub : cl'.consents.Sublist s.cl.consents)
    (hconnected : ∀ share ∈ cl'.consents, cl'.Connected share.2)
    (hkeys : ∀ share ∈ cl'.consents, cl'.archiveKey share.1 = s.cl.archiveKey share.1) :
    Accurate { s with cl := cl' } where
  distinct := h.distinct.sublist hsub
  connected := hconnected
  unshared share hshare key trust hkey :=
    h.unshared share (hsub.subset hshare) key trust ((hkeys share hshare).symm.trans hkey)
  holdsKey share hshare := by
    change (cl'.archiveKey share.1).isSome
    rw [hkeys share hshare]
    exact h.holdsKey share (hsub.subset hshare)

theorem Accurate.retain (h : Accurate s) (keep : UInt32 × String → Bool)
    (hpending : cl'.consents = s.cl.consents.filter keep)
    (husers : cl'.shared.users = s.cl.shared.users)
    (hkeys : ∀ share, keep share = true → cl'.archiveKey share.1 = s.cl.archiveKey share.1) :
    Accurate { s with cl := cl' } := by
  refine h.mono (hpending ▸ List.filter_sublist) (fun share hshare => ?_) fun share hshare => ?_
  · rw [hpending] at hshare
    have hconnected := h.connected share (List.mem_filter.mp hshare).1
    unfold Participant.Connected at hconnected ⊢
    rw [husers]
    exact hconnected
  · rw [hpending] at hshare
    exact hkeys share (List.mem_filter.mp hshare).2

theorem accurate_rekey_iff (h : Accurate s) (hsub : cl'.consents.Sublist s.cl.consents)
    (husers : cl'.shared.users = s.cl.shared.users) :
    Accurate { s with cl := cl' } ↔
      ∀ share ∈ cl'.consents, ∃ key trust, cl'.archiveKey share.1 = some (key, trust) ∧
        (share.1, share.2, key) ∉ s.sent := by
  constructor
  · intro h' share hshare
    obtain ⟨⟨key, trust⟩, hkey⟩ := Option.isSome_iff_exists.mp (h'.holdsKey share hshare)
    exact ⟨key, trust, hkey, h'.unshared share hshare key trust hkey⟩
  · intro hkeys
    refine ⟨h.distinct.sublist hsub, fun share hshare => ?_, fun share hshare => ?_,
      fun share hshare => ?_⟩
    · have hconnected := h.connected share (hsub.subset hshare)
      unfold Participant.Connected at hconnected ⊢
      dsimp only
      rw [husers]
      exact hconnected
    · obtain ⟨key, trust, hkey, hunsent⟩ := hkeys share hshare
      intro key' trust' hkey'
      cases hkey.symm.trans hkey'
      exact hunsent
    · obtain ⟨key, trust, hkey, -⟩ := hkeys share hshare
      exact Option.isSome_of_eq_some hkey

theorem archiveKey_restoreArchiveKeys (cl : Participant) (ch : UInt32) (key : ChannelKey)
    (trust : KeyTrustLevel) :
    (cl.restoreArchiveKeys account).archiveKeys ch = some (key, trust) ↔
      account.identityDir = true ∧ trust = .verified ∧
        ∃ originator, cl.archiveKeysFile ch = some (key, originator) := by
  unfold Participant.restoreArchiveKeys
  split
  next hdir =>
    rw [Option.map_eq_some_iff]
    constructor
    · rintro ⟨⟨file, originator⟩, hfile, ⟨⟩⟩
      exact ⟨hdir, rfl, originator, hfile⟩
    · rintro ⟨-, rfl, originator, hfile⟩
      exact ⟨(key, originator), hfile, rfl⟩
  next hdir => exact iff_of_false nofun fun hfile => hdir hfile.1

theorem accurate_serverSync_iff (h : Accurate s) (session : UInt32) (fancyServer : Bool) :
    Accurate { s with cl := s.cl.handleServerSync account session fancyServer } ↔
      s.KeepsAccurateInput account (.serverSync session fancyServer) := by
  unfold Participant.handleServerSync KeepsAccurateInput
  dsimp only
  split
  next hsetup =>
    refine (accurate_rekey_iff h ?_ ?_).trans ?_
    · exact List.Sublist.refl _
    · rfl
    · have hfile (ch : UInt32) (peer : String) :
          (∃ key trust, (s.cl.restoreArchiveKeys account).archiveKeys ch = some (key, trust) ∧
            (ch, peer, key) ∉ s.sent) ↔
          account.identityDir = true ∧
            ∃ key originator, s.cl.archiveKeysFile ch = some (key, originator) ∧
              (ch, peer, key) ∉ s.sent := by
        simp only [archiveKey_restoreArchiveKeys]
        constructor
        · rintro ⟨key, trust, ⟨hdir, -, originator, hfile⟩, hunsent⟩
          exact ⟨hdir, key, originator, hfile, hunsent⟩
        · rintro ⟨hdir, key, originator, hfile, hunsent⟩
          exact ⟨key, .verified, ⟨hdir, rfl, originator, hfile⟩, hunsent⟩
      constructor
      · exact fun hkeys _ _ share hshare => (hfile _ _).mp (hkeys share hshare)
      · exact fun hkeys share hshare => (hfile _ _).mpr (hkeys hsetup.1 hsetup.2 share hshare)
  next hsetup =>
    refine iff_of_true (accurate_of_asks_nil h (.of_eq rfl rfl rfl)) fun hown hfancy => ?_
    exact absurd ⟨hown, hfancy⟩ hsetup

theorem connected_withUser_iff {cl : Participant} {peer : String} (h : cl.Connected peer)
    (session : UInt32) (hash : Option String) (channelId : Option UInt32)
    (sent : List (UInt32 × String × ChannelKey)) :
    (cl.withUser session hash channelId).Connected peer ↔
      ¬LosesHash ⟨cl, sent⟩ session hash peer := by
  have hlookup (other : UInt32) : (cl.withUser session hash channelId).shared.users.lookup other =
      if other = session then
        some ⟨hash.or ((cl.shared.users.lookup session).getD {}).hash,
          channelId.getD ((cl.shared.users.lookup session).getD {}).channelId⟩
      else cl.shared.users.lookup other := by
    unfold Participant.withUser
    by_cases hsame : other = session
    · subst hsame
      rw [if_pos rfl]
      exact AList.lookup_insert _
    · rw [if_neg hsame]
      exact AList.lookup_insert_ne hsame
  constructor
  · rintro ⟨other, user, huser, hpeer⟩ ⟨-, ⟨new, rfl, hne⟩, hothers⟩
    rw [hlookup] at huser
    split at huser
    next =>
      cases huser
      exact hne (Option.some.inj hpeer)
    next hsame => exact hothers other user hsame huser hpeer
  · intro hkept
    obtain ⟨other, user, huser, hpeer⟩ := h
    by_cases hsame : other = session
    · subst hsame
      have hknown : (cl.shared.users.lookup other).bind UserEntry.hash = some peer := by
        rw [huser]
        exact hpeer
      by_cases hstays : hash = none ∨ hash = some peer
      · refine ⟨other, _, (hlookup other).trans (if_pos rfl), ?_⟩
        rw [huser]
        obtain rfl | rfl := hstays
        · exact hpeer
        · rfl
      · obtain ⟨hsome, hne⟩ := not_or.mp hstays
        obtain ⟨new, rfl⟩ := Option.ne_none_iff_exists'.mp hsome
        have hagain : ∃ third user, third ≠ other ∧ cl.shared.users.lookup third = some user ∧
            user.hash = some peer := by
          by_contra hnone
          exact hkept ⟨hknown, ⟨new, rfl, fun heq => hne (congrArg some heq)⟩,
            fun third user hthird huser hpeer => hnone ⟨third, user, hthird, huser, hpeer⟩⟩
        obtain ⟨third, user, hthird, huser, hpeer⟩ := hagain
        exact ⟨third, user, (hlookup third).trans ((if_neg hthird).trans huser), hpeer⟩
    · exact ⟨other, user, (hlookup other).trans ((if_neg hsame).trans huser), hpeer⟩

theorem accurate_userState_iff (h : Accurate s) (session : UInt32) (hash : Option String)
    (channelId : Option UInt32) :
    Accurate { s with cl := s.cl.handleUserState account session hash channelId } ↔
      s.KeepsAccurateInput account (.userState session hash channelId) := by
  have huser : Accurate ⟨s.cl.withUser session hash channelId, s.sent⟩ ↔
      ∀ share ∈ s.cl.consents, ¬s.LosesHash session hash share.2 := by
    constructor
    · intro h' share hshare
      exact (connected_withUser_iff (h.connected share hshare) session hash channelId s.sent).mp
        (h'.connected share hshare)
    · intro hkept
      refine h.mono (List.Sublist.refl _) (fun share hshare => ?_) fun _ _ => rfl
      exact (connected_withUser_iff (h.connected share hshare) session hash channelId s.sent).mpr
        (hkept share hshare)
  have hdistinct : (s.cl.withUser session hash channelId).consents.Nodup := h.distinct
  unfold KeepsAccurateInput
  dsimp only
  obtain ⟨ch, hmoved, heq⟩ | ⟨hmoved, hrest⟩ :=
    s.cl.handleUserState_cases account session hash channelId
  · rw [heq, hmoved]
    refine (accurate_asks_iff hdistinct (Participant.asks_checkKeyShareForChannel account _ ch)
      fun share hshare => ?_).trans (and_congr huser ?_)
    · obtain ⟨peer, hpeer, rfl⟩ := List.mem_map.mp hshare
      exact Participant.shareablePeers_sound account hpeer
    · simp only [List.forall_mem_map, Option.mem_some_iff, forall_eq']
      exact Iff.rfl
  · have hasks : Participant.Asks (s.cl.withUser session hash channelId)
        (s.cl.handleUserState account session hash channelId) [] := by
      obtain heq | ⟨ch, heq⟩ := hrest
      · rw [heq]
        exact .of_eq rfl rfl rfl
      · rw [heq]
        exact Participant.asks_handleOwnChannelChange _ ch
    rw [hmoved]
    refine (accurate_asks_iff hdistinct hasks fun _ hshare => absurd hshare List.not_mem_nil).trans
      (and_congr huser ?_)
    exact iff_of_true (fun _ hshare => absurd hshare List.not_mem_nil) nofun

theorem accurate_userRemove_iff (h : Accurate s) (session : UInt32) :
    Accurate { s with cl := s.cl.receive account (.userRemove session) } ↔
      s.KeepsAccurateInput account (.userRemove session) := by
  unfold Participant.receive KeepsAccurateInput
  dsimp only
  split
  next hown =>
    refine Iff.trans ?_ ⟨fun hnone _ => hnone, fun hnone => hnone hown⟩
    constructor
    · intro h'
      refine List.eq_nil_iff_forall_not_mem.mpr fun share hshare => ?_
      obtain ⟨other, user, hlookup, -⟩ := h'.connected share hshare
      cases hlookup
    · intro hnone
      refine h.mono (List.Sublist.refl _) (fun share hshare => ?_) fun _ _ => rfl
      exact absurd (hnone ▸ hshare : share ∈ []) List.not_mem_nil
  next hother =>
    refine iff_of_true ?_ fun hown => absurd hown hother
    have hpending : (s.cl.handleUserRemove session).consents = s.cl.consents.filter fun share =>
        decide ((s.cl.shared.users.lookup session).bind UserEntry.hash ≠ some share.2) :=
      Participant.consents_retainKeyShares _ fun share =>
        decide ((s.cl.shared.users.lookup session).bind UserEntry.hash ≠ some share.2)
    refine h.mono (hpending ▸ List.filter_sublist) (fun share hshare => ?_) fun _ _ => rfl
    rw [hpending] at hshare
    obtain ⟨hold, hstays⟩ := List.mem_filter.mp hshare
    obtain ⟨other, user, hlookup, hhash⟩ := h.connected share hold
    have hne : other ≠ session := by
      rintro rfl
      refine of_decide_eq_true hstays ?_
      rw [hlookup]
      exact hhash
    exact ⟨other, user, (AList.lookup_erase_ne hne).trans hlookup, hhash⟩

theorem accurate_channelState (h : Accurate s) (id : UInt32) (pchatProtocol : Option PchatProtocol)
    (pchatKeyCustodians : List String) :
    Accurate { s with
      cl := s.cl.handleChannelState id pchatProtocol pchatKeyCustodians } := by
  have hpin (km : KeyManager) :
      (km.updateCustodianPin id pchatKeyCustodians).1.archiveKeys = km.archiveKeys := by
    unfold KeyManager.updateCustodianPin
    split
    next => split <;> rfl
    next => rfl
  refine accurate_of_asks_nil h ?_
  unfold Participant.handleChannelState
  dsimp only
  split
  next => exact .of_eq rfl rfl (Participant.archiveKey_mapPchat _ _ fun pchat _ => hpin _)
  next => exact .of_eq rfl rfl (Participant.archiveKey_mapPchat _ _ fun pchat _ => hpin _)

theorem accurate_channelRemove (h : Accurate s) (id : UInt32) :
    Accurate { s with cl := s.cl.handleChannelRemove account id } := by
  refine h.retain (fun share => decide (share.1 ≠ id)) ?_ rfl fun share hshare => ?_
  · exact Participant.consents_retainKeyShares _ fun share => decide (share.1 ≠ id)
  · exact Participant.archiveKey_mapKeyManager_removeChannel _ (of_decide_eq_true hshare) _
      fun _ => rfl

theorem accurate_keyHoldersList (h : Accurate s) (channelId : UInt32) (holders : List String) :
    Accurate { s with cl := s.cl.handleKeyHoldersList channelId holders } := by
  refine h.retain (fun share => !(decide (share.1 = channelId) &&
    decide (share.2 ∈ (holders.filter (· ≠ "")).toFinset))) ?_ rfl fun share _ => ?_
  · exact Participant.consents_retainKeyShares _ fun share => !(decide (share.1 = channelId) &&
      decide (share.2 ∈ (holders.filter (· ≠ "")).toFinset))
  · let synced (pchat : PchatState) : PchatState :=
      { pchat with
        keyManager :=
          { pchat.keyManager with
            keyHolders := Function.update pchat.keyManager.keyHolders channelId
              (holders.filter (· ≠ "")).toFinset } }
    exact congrFun (Participant.archiveKey_mapPchat s.cl synced fun _ _ => rfl) share.1

theorem accurate_keyChallengeResult (h : Accurate s) (channelId : UInt32) (passed : Bool) :
    Accurate { s with cl := s.cl.handleKeyChallengeResult account channelId passed } := by
  unfold Participant.handleKeyChallengeResult
  dsimp only
  split
  next => exact h
  next =>
    let dropped : Sharer := { s with
      cl := (s.cl.mapKeyManager (·.removeChannel channelId)).retainKeyShares
        fun p => p.channelId ≠ channelId }
    have hdropped : Accurate dropped := by
      refine h.retain (fun share => decide (share.1 ≠ channelId)) ?_ rfl fun share hshare => ?_
      · exact Participant.consents_retainKeyShares _ fun share => decide (share.1 ≠ channelId)
      · exact Participant.archiveKey_mapKeyManager_removeChannel _ (of_decide_eq_true hshare) _
          fun _ => rfl
    split
    next =>
      have hspawned := accurate_of_asks_nil hdropped
        (Participant.asks_spawn dropped.cl [.deletePersistedArchiveKey channelId])
      exact hspawned
    next => exact hdropped

theorem accurate_keyRequest_iff (h : Accurate s) (channelId : UInt32)
    (requesterHash requestId : String) :
    Accurate { s with cl := s.cl.handleKeyRequest channelId requesterHash requestId } ↔
      s.KeepsAccurateInput account (.keyRequest channelId requesterHash requestId) := by
  have honline : (s.cl.shared.users.entries.any fun user => user.2.hash = some requesterHash) =
      true ↔ s.cl.Connected requesterHash := by
    rw [List.any_eq_true]
    constructor
    · rintro ⟨user, huser, hhash⟩
      exact ⟨user.1, user.2, AList.mem_lookup_iff.mpr huser, of_decide_eq_true hhash⟩
    · rintro ⟨session, user, huser, hhash⟩
      exact ⟨⟨session, user⟩, AList.mem_lookup_iff.mp huser, decide_eq_true hhash⟩
  unfold Participant.handleKeyRequest KeepsAccurateInput
  dsimp only
  cases hpchat : s.cl.shared.pchat with
  | none =>
      refine iff_of_true h fun hkey => ?_
      unfold Participant.archiveKey at hkey
      rw [hpchat] at hkey
      cases hkey
  | some pchat =>
      have hkey : pchat.keyManager.hasKey channelId .fancyV1FullArchive = true ↔
          (s.cl.archiveKey channelId).isSome = true := by
        rw [Participant.archiveKey_of_pchat hpchat]
        exact Iff.rfl
      dsimp only
      split
      next hasks =>
        obtain ⟨hhas, hrequester, hholder⟩ := hasks
        refine (accurate_asks_iff h.distinct
          (Participant.asks_queue (some requestId) channelId s.cl requesterHash)
          fun share hshare => ?_).trans ((and_iff_right h).trans ?_)
        · rw [List.mem_singleton.mp hshare]
          exact ⟨honline.mp hrequester, hkey.mp hhas⟩
        · rw [List.forall_mem_singleton]
          refine ⟨fun hunshared _ _ _ => hunshared, fun hall =>
            hall (hkey.mp hhas) (honline.mp hrequester) ?_⟩
          rintro _ ⟨⟩
          exact hholder
      next hasks =>
        refine iff_of_true h fun hhas hconnected hholder => absurd ?_ hasks
        exact ⟨hkey.mpr hhas, honline.mpr hconnected, hholder pchat rfl⟩

theorem accurate_input_iff (h : Accurate s) (input : Participant.Input) :
    Accurate { s with cl := s.cl.receive account input } ↔ s.KeepsAccurateInput account input := by
  cases input with
  | serverSync session fancyServer => exact accurate_serverSync_iff h session fancyServer
  | userState session hash channelId => exact accurate_userState_iff h session hash channelId
  | userRemove session => exact accurate_userRemove_iff h session
  | channelState id pchatProtocol pchatKeyCustodians =>
      exact iff_of_true (accurate_channelState h id pchatProtocol pchatKeyCustodians) trivial
  | channelRemove id => exact iff_of_true (accurate_channelRemove h id) trivial
  | keyRequest channelId requesterHash requestId =>
      exact accurate_keyRequest_iff h channelId requesterHash requestId
  | keyHoldersList channelId holders =>
      exact iff_of_true (accurate_keyHoldersList h channelId holders) trivial
  | keyChallengeResult channelId passed =>
      exact iff_of_true (accurate_keyChallengeResult h channelId passed) trivial
  | disconnected =>
      refine iff_of_true ⟨List.nodup_nil, ?_, ?_, ?_⟩ trivial <;>
        exact fun _ hshare => absurd hshare List.not_mem_nil
  | dismissKeyShare channelId peerCertHash =>
      refine iff_of_true (h.retain (fun share =>
        !(decide (share.1 = channelId) && decide (share.2 = peerCertHash))) ?_ rfl
          fun _ _ => rfl) trivial
      exact Participant.consents_retainKeyShares s.cl fun share =>
        !(decide (share.1 = channelId) && decide (share.2 = peerCertHash))

theorem accurate_keyAnnounce_iff (h : Accurate s) (announce : PchatKeyAnnounce) :
    Accurate { s with cl := s.cl.handleKeyAnnounce account announce } ↔
      s.KeepsAccurate account (.keyAnnounce announce) := by
  unfold Participant.handleKeyAnnounce KeepsAccurate
  dsimp only
  cases hpchat : s.cl.shared.pchat with
  | none => exact iff_of_true h nofun
  | some pchat =>
      have hcases := pchat.keyManager.recordPeerKey_cases account.identity.crypto announce
      simp only [Option.mem_some_iff, forall_eq']
      generalize pchat.keyManager.recordPeerKey account.identity.crypto announce = outcome
        at hcases ⊢
      obtain ⟨km, result⟩ := outcome
      have hmanager : km.archiveKeys = pchat.keyManager.archiveKeys ∧
          km.keyHolders = pchat.keyManager.keyHolders := by
        obtain hsame | ⟨peer, -, hpeer⟩ := hcases
        · rw [show km = pchat.keyManager from hsame]
          exact ⟨rfl, rfl⟩
        · rw [show km = _ from hpeer]
          exact ⟨rfl, rfl⟩
      have hasks : Participant.Asks s.cl (s.cl.mapKeyManager fun _ => km) [] := by
        refine Participant.asks_mapPchat s.cl _ fun pchat' hsame => ?_
        cases hpchat.symm.trans (Option.mem_def.mp hsame)
        exact hmanager.1
      have hrecorded : Accurate { s with cl := s.cl.mapKeyManager fun _ => km } :=
        accurate_of_asks_nil h hasks
      cases result with
      | error e => exact iff_of_true hrecorded nofun
      | ok recorded =>
          cases recorded with
          | false => exact iff_of_true hrecorded nofun
          | true =>
              have hfind : (s.cl.mapKeyManager fun _ => km).findShareableChannels
                  announce.certHash = s.cl.findShareableChannels announce.certHash := by
                unfold Participant.findShareableChannels Participant.mapKeyManager
                  Participant.mapPchat
                simp only [hpchat, Option.map_some, KeyManager.hasKey, hmanager.1, hmanager.2]
                rfl
              dsimp only
              rw [hfind]
              refine (accurate_asks_iff hrecorded.distinct (Participant.asks_foldl _
                (fun ch => (ch, announce.certHash))
                (fun cl ch => Participant.asks_queue none ch cl announce.certHash) _ _)
                fun share hshare => ?_).trans ((and_iff_right hrecorded).trans ?_)
              · obtain ⟨ch, hch, rfl⟩ := List.mem_map.mp hshare
                rw [← hfind] at hch
                exact Participant.findShareableChannels_sound hch
              · rw [List.forall_mem_map]
                refine Iff.trans ?_ ⟨fun hunshared _ => hunshared, fun hunshared => hunshared rfl⟩
                refine forall₂_congr fun ch _ => ?_
                unfold Unshared
                dsimp only
                rw [hasks.archiveKey]

variable (account) in
theorem finalizeKeyAcceptance_shares (cl : Participant) (hasPlaceholders : Bool)
    (exchange : PchatKeyExchange) :
    (cl.finalizeKeyAcceptance account hasPlaceholders exchange).consents =
        cl.consents.filter (fun share =>
          !(decide (share.1 = exchange.channelId) && decide (share.2 = exchange.senderHash))) ∧
      (cl.finalizeKeyAcceptance account hasPlaceholders exchange).shared.users =
        cl.shared.users ∧
      (cl.finalizeKeyAcceptance account hasPlaceholders exchange).archiveKey = cl.archiveKey := by
  let holder (pchat : PchatState) : PchatState :=
    { pchat with
      keyManager := pchat.keyManager.recordKeyHolder exchange.channelId account.certHash }
  let refetch (pchat : PchatState) : PchatState :=
    { pchat with fetchedChannels := pchat.fetchedChannels.erase exchange.channelId }
  have hholder : (cl.mapPchat holder).archiveKey = cl.archiveKey :=
    Participant.archiveKey_mapPchat cl holder fun _ _ => rfl
  have hrefetch : ((cl.mapPchat holder).mapPchat refetch).archiveKey = cl.archiveKey :=
    (Participant.archiveKey_mapPchat (cl.mapPchat holder) refetch fun _ _ => rfl).trans hholder
  have hconsents := Participant.consents_retainKeyShares cl fun share =>
    !(decide (share.1 = exchange.channelId) && decide (share.2 = exchange.senderHash))
  unfold Participant.finalizeKeyAcceptance
  dsimp only
  cases hasPlaceholders with
  | true => exact ⟨hconsents, rfl, hrefetch⟩
  | false => exact ⟨hconsents, rfl, hholder⟩

theorem isSome_archiveKeys_of_handled {crypto : Crypto} {km km' : KeyManager}
    {exchange : PchatKeyExchange} (h : Handled crypto km exchange km') (c : UInt32)
    (hkey : (km.archiveKeys c).isSome) : (km'.archiveKeys c).isSome := by
  have hupdate (entry : ChannelKey × KeyTrustLevel) (harchive : km'.archiveKeys =
      Function.update km.archiveKeys exchange.channelId (some entry)) :
      (km'.archiveKeys c).isSome := by
    rw [harchive]
    by_cases hchannel : c = exchange.channelId
    · rw [hchannel, Function.update_self]
      rfl
    · rwa [Function.update_of_ne hchannel]
  cases h with
  | rejected hrejected => exact hkey
  | unsolicited haccepts hrequest harchive hpending hpeers => exact hupdate _ harchive
  | answered haccepts hrequest hsent hdecides harchive hpending hpeers =>
      exact hupdate _ harchive

theorem accurate_filter_rekey_iff (h : Accurate s) {cl' : Participant}
    {keys : UInt32 → Option (ChannelKey × KeyTrustLevel)} (keep : UInt32 × String → Bool)
    (hconsents : cl'.consents = s.cl.consents.filter keep)
    (husers : cl'.shared.users = s.cl.shared.users) (hkeys : cl'.archiveKey = keys)
    (hkept : ∀ c, (s.cl.archiveKey c).isSome → (keys c).isSome) :
    Accurate { s with cl := cl' } ↔ ∀ share ∈ s.cl.consents, keep share = true →
      ∀ key trust, keys share.1 = some (key, trust) → (share.1, share.2, key) ∉ s.sent := by
  refine (accurate_rekey_iff h (hconsents ▸ List.filter_sublist) husers).trans ?_
  simp only [hconsents, hkeys, List.mem_filter, and_imp]
  refine forall₂_congr fun share hshare => forall_congr' fun _ => ?_
  constructor
  · rintro ⟨key, trust, hkey, hunsent⟩ key' trust' hkey'
    cases hkey.symm.trans hkey'
    exact hunsent
  · intro hunsent
    obtain ⟨⟨key, trust⟩, hkey⟩ :=
      Option.isSome_iff_exists.mp (hkept share.1 (h.holdsKey share hshare))
    exact ⟨key, trust, hkey, hunsent key trust hkey⟩

theorem accurate_keyExchange_iff (h : Accurate s) (responseOrder groupOrder : HashOrder)
    (hasPlaceholders : Bool) (exchange : PchatKeyExchange) :
    Accurate { s with
        cl := s.cl.handleKeyExchange account responseOrder groupOrder hasPlaceholders exchange } ↔
      s.KeepsAccurate account (.keyExchange responseOrder groupOrder hasPlaceholders exchange) := by
  unfold Participant.handleKeyExchange KeepsAccurate
  dsimp only
  cases hpchat : s.cl.shared.pchat with
  | none => exact iff_of_true h nofun
  | some pchat =>
      simp only [Option.mem_some_iff, forall_eq']
      have hhandled := tryAcceptKeyExchange_handled account.identity.crypto responseOrder
        groupOrder pchat.keyManager exchange
      generalize tryAcceptKeyExchange account.identity.crypto responseOrder groupOrder
        pchat.keyManager exchange = outcome at hhandled ⊢
      obtain ⟨km, keyAccepted⟩ := outcome
      have hkept (c : UInt32) (hkey : (s.cl.archiveKey c).isSome) : (km.archiveKeys c).isSome := by
        rw [Participant.archiveKey_of_pchat hpchat] at hkey
        exact isSome_archiveKeys_of_handled hhandled c hkey
      have hfinal (cl' : Participant) (keep : UInt32 × String → Bool)
          (hconsents : cl'.consents = s.cl.consents.filter keep)
          (husers : cl'.shared.users = s.cl.shared.users)
          (hkeys : cl'.archiveKey = km.archiveKeys) :=
        accurate_filter_rekey_iff h keep hconsents husers hkeys hkept
      have hreceived : (s.cl.mapKeyManager fun _ => km).archiveKey = km.archiveKeys := by
        funext c
        unfold Participant.archiveKey Participant.mapKeyManager Participant.mapPchat
        rw [hpchat]
        rfl
      let received : Participant := { s.cl.mapKeyManager fun _ => km with
        accepted := ObservedState.suppliedBy account.identity.crypto pchat.keyManager exchange ++
          s.cl.accepted }
      cases keyAccepted with
      | false =>
          refine (hfinal received (fun _ => true) ?_ rfl hreceived).trans ?_
          · exact (List.filter_eq_self.mpr fun _ _ => rfl).symm
          · exact forall₂_congr fun share _ => ⟨fun hall _ => hall rfl, fun hall _ => hall nofun⟩
      | true =>
          obtain ⟨hconsents, husers, hkeys⟩ :=
            finalizeKeyAcceptance_shares account received hasPlaceholders exchange
          refine (hfinal _ _ hconsents husers (hkeys.trans hreceived)).trans ?_
          refine forall₂_congr fun share _ => imp_congr ?_ Iff.rfl
          simp only [Bool.not_eq_true', Bool.and_eq_false_iff, decide_eq_false_iff_not, true_and,
            Prod.ext_iff]
          exact not_and_or.symm

variable (account) in
theorem consents_approveKeyShare (cl : Participant) (nonce : List UInt8) (now : UInt64)
    (channelId : UInt32) (peerCertHash : String) :
    (cl.approveKeyShare account nonce now channelId peerCertHash).1.consents =
        cl.consents.filter (fun share =>
          !(decide (share.1 = channelId) && decide (share.2 = peerCertHash))) ∧
      (cl.approveKeyShare account nonce now channelId peerCertHash).1.shared.users =
        cl.shared.users ∧
      (cl.approveKeyShare account nonce now channelId peerCertHash).1.archiveKey =
        cl.archiveKey := by
  have hconsents := Participant.consents_retainKeyShares cl fun share =>
    !(decide (share.1 = channelId) && decide (share.2 = peerCertHash))
  unfold Participant.approveKeyShare
  dsimp only
  split
  next hnone =>
    refine ⟨(List.filter_eq_self.mpr fun share hshare => ?_).symm, rfl, rfl⟩
    obtain ⟨p, hp, rfl⟩ := List.mem_map.mp hshare
    have hother := List.find?_eq_none.mp hnone p hp
    rwa [Bool.not_eq_true, ← Bool.not_eq_true'] at hother
  next share hshare =>
    split
    next => exact ⟨hconsents, rfl, rfl⟩
    next pchat hpchat =>
      split
      next => exact ⟨hconsents, rfl, rfl⟩
      next peer hpeer =>
        split
        next => exact ⟨hconsents, rfl, rfl⟩
        next => exact ⟨hconsents, rfl, rfl⟩

theorem accurate_approve (h : Accurate s) (nonce : List UInt8) (now : UInt64)
    (channelId : UInt32) (peerCertHash : String) (sends : Bool) :
    Accurate (s.approve account nonce now channelId peerCertHash sends) := by
  obtain ⟨hconsents, husers, hkeys⟩ :=
    consents_approveKeyShare account s.cl nonce now channelId peerCertHash
  have hdropped : Accurate { s with
      cl := (s.cl.approveKeyShare account nonce now channelId peerCertHash).1 } :=
    h.retain _ hconsents husers fun share _ => congrFun hkeys share.1
  unfold approve
  dsimp only
  split
  next =>
    refine ⟨hdropped.distinct, hdropped.connected, fun share hshare key trust hkey => ?_,
      hdropped.holdsKey⟩
    rw [List.mem_append, not_or]
    refine ⟨hdropped.unshared share hshare key trust hkey, fun hnew => ?_⟩
    obtain ⟨exchange, -, hentry⟩ := Option.bind_eq_some_iff.mp (Option.mem_toList.mp hnew)
    obtain ⟨current, -, heq⟩ := Option.map_eq_some_iff.mp hentry
    cases heq
    dsimp only at hshare
    rw [hconsents] at hshare
    have hother := (List.mem_filter.mp hshare).2
    simp at hother
  next => exact ⟨hdropped.distinct, hdropped.connected, hdropped.unshared, hdropped.holdsKey⟩

theorem sendsToPeer (s : Sharer) (e : ShareEvent) : s.SendsToPeer account e := by
  cases e with
  | approve nonce now channelId peerCertHash sends =>
      intro exchange hsent
      obtain ⟨pchat, hpchat, peer, hpeer, requestId, distributed, hdistributed, rfl⟩ :=
        Participant.approveKeyShare_sent account hsent
      obtain ⟨hrecipient, hwrapped⟩ :=
        KeyManager.wrappedFor_of_distributeKey hdistributed account.certHash
      have hchannel := KeyManager.channelId_distributeKey hdistributed
      exact ⟨hchannel, hrecipient, pchat, hpchat, peer, hpeer, hwrapped⟩
  | _ => trivial

theorem accurate_runTask_iff (h : Accurate s) (task : ℕ) (bridgeLoads : Bool) :
    Accurate { s with cl := s.cl.runTask account bridgeLoads task } ↔
      s.KeepsAccurate account (.runTask task bridgeLoads) := by
  unfold Participant.runTask KeepsAccurate Participant.nextOp
  dsimp only
  split
  next op rest htask =>
    rw [htask, Option.bind_some, List.head?_cons]
    simp only [Option.mem_some_iff, forall_eq']
    cases hstores : s.cl.storesOwnKey op with
    | none =>
        refine iff_of_true (accurate_of_asks_nil h ?_) nofun
        exact (Participant.asks_execOp account bridgeLoads hstores).trans (.of_eq rfl rfl rfl)
    | some ch =>
        obtain ⟨hexec, hpchat⟩ := Participant.execOp_of_storesOwnKey account bridgeLoads hstores
        have hkeys := Participant.archiveKey_storeDerivedKey_eq account s.cl ch hpchat
        simp only [hexec, Option.mem_some_iff, forall_eq']
        refine (accurate_rekey_iff h ?_ ?_).trans ?_
        · exact List.Sublist.refl _
        · rfl
        constructor
        · intro hall peer hpeer
          obtain ⟨key, trust, hkey, hunsent⟩ := hall (ch, peer) hpeer
          have hnew := (congrFun hkeys ch).trans (Function.update_self _ _ _)
          cases hnew.symm.trans hkey
          exact hunsent
        · rintro hderived ⟨c, peer⟩ hshare
          by_cases hchannel : c = ch
          · subst hchannel
            exact ⟨_, _, (congrFun hkeys c).trans (Function.update_self _ _ _),
              hderived peer hshare⟩
          · obtain ⟨⟨key, trust⟩, hkey⟩ := Option.isSome_iff_exists.mp (h.holdsKey _ hshare)
            exact ⟨key, trust,
              (congrFun hkeys c).trans ((Function.update_of_ne hchannel _ _).trans hkey),
              h.unshared _ hshare key trust hkey⟩
  next hnone =>
    refine iff_of_true h ?_
    cases htask : s.cl.tasks[task]? with
    | none => exact nofun
    | some ops =>
        cases ops with
        | nil => exact nofun
        | cons op rest => exact absurd htask (hnone op rest)

theorem accurate_step_iff (h : Accurate s) (e : ShareEvent) :
    Accurate (s.step account e) ↔ s.KeepsAccurate account e := by
  cases e with
  | input input => exact accurate_input_iff h input
  | keyAnnounce announce => exact accurate_keyAnnounce_iff h announce
  | keyExchange responseOrder groupOrder hasPlaceholders exchange =>
      exact accurate_keyExchange_iff h responseOrder groupOrder hasPlaceholders exchange
  | approve nonce now channelId peerCertHash sends =>
      exact iff_of_true (accurate_approve h nonce now channelId peerCertHash sends) trivial
  | runTask task bridgeLoads => exact accurate_runTask_iff h task bridgeLoads

variable (account)

/-- In every run of a new client, with any keys on its disk, the pending shares are accurate in
every state and are sent to their peers only, exactly if nobody is asked about who was sent the
current key, and hashes and keys of pending shares do not vanish. -/
theorem accurate_run_iff (archiveKeysFile : UInt32 → Option (ChannelKey × Option String))
    (events : List ShareEvent) :
    Along (step account) (fun s e => Accurate (s.step account e) ∧ s.SendsToPeer account e)
        { cl := { archiveKeysFile } } events ↔
      Along (step account) (KeepsAccurate account) { cl := { archiveKeysFile } } events :=
  along_iff_of_invariant
    (fun s e (hs : Accurate s) => (and_iff_left (sendsToPeer s e)).trans (accurate_step_iff hs e))
    (fun _ e hs hkeeps => (accurate_step_iff hs e).mpr hkeeps)
    ⟨List.nodup_nil, nofun, nofun, nofun⟩

section Example

/-- A peer asks again before the client has recorded that it sent the key. -/
theorem shared_key_asked_again :
    ¬∀ (account : Account) (archiveKeysFile : UInt32 → Option (ChannelKey × Option String))
      (events : List ShareEvent),
      Along (step account) (fun s e => Accurate (s.step account e) ∧ s.SendsToPeer account e)
        { cl := { archiveKeysFile } } events := by
  intro h
  have hruns := h annaAccount (fun _ => some (.replicate 1, none))
    [.input (.userState 1 (some "anna") (some 0)), .input (.userState 2 (some "bert") (some 0)),
      .input (.serverSync 1 true), .keyAnnounce (KeyManager.buildKeyAnnounce .plain "bert" 1),
      .input (.keyRequest 0 "bert" "first"), .approve [] 0 0 "bert" true,
      .input (.keyRequest 0 "bert" "second")]
  have haccurate := hruns.2.2.2.2.2.2.1.1
  exact haccurate.unshared (0, "bert") (by decide) (.replicate 1) .verified rfl (by decide)

end Example

end Sharer

end FancyMumble.Client
