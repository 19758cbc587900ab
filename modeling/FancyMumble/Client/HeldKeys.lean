import FancyMumble.Client.Pchat

/-!
# The keys that a client holds

A client holds the archive keys in its key manager, on its disk, and in the writes to
its disk that wait. What each handler and each operation of a task can add to these
keys, and to the known keys of peers.
-/

namespace FancyMumble.Client

open Lib.Grouping Persistent

namespace Participant

def Holds (cl : Participant) (c : UInt32) (key : ChannelKey) : Prop :=
  (∃ trust, cl.archiveKey c = some (key, trust)) ∨
    (∃ originator, cl.archiveKeysFile c = some (key, originator)) ∨
      ∃ ops ∈ cl.tasks, ∃ originator, .persistArchiveKey c key originator ∈ ops

def Knows (cl : Participant) (peerCertHash : String) (peer : PeerKeyRecord) : Prop :=
  ∃ pchat ∈ cl.shared.pchat, pchat.keyManager.peerKeys peerCertHash = some peer

def NothingPending (cl : Participant) : Prop :=
  ∀ pchat ∈ cl.shared.pchat, ∀ requestId, pchat.keyManager.pendingConsensus requestId = none

theorem holds_of_archiveKey {cl : Participant} {c : UInt32} {key : ChannelKey}
    {trust : KeyTrustLevel} (h : cl.archiveKey c = some (key, trust)) : cl.Holds c key :=
  .inl ⟨trust, h⟩

theorem archiveKey_of_pchat {cl : Participant} {pchat : PchatState}
    (h : cl.shared.pchat = some pchat) (c : UInt32) :
    cl.archiveKey c = pchat.keyManager.archiveKeys c := by
  simp only [archiveKey, h, Option.bind_some]

/-! ## Gains -/

variable {keys : UInt32 → ChannelKey → Prop} {peers : String → PeerKeyRecord → Prop}

/-- One key manager has no archive keys beside those of another one and the given ones,
no peers beside those of the other one and the given ones, and no new collectors. -/
structure ManagerGains (km km' : KeyManager) (keys : UInt32 → ChannelKey → Prop)
    (peers : String → PeerKeyRecord → Prop) : Prop where
  archiveKeys : ∀ {c key trust}, km'.archiveKeys c = some (key, trust) →
    (∃ trust, km.archiveKeys c = some (key, trust)) ∨ keys c key
  peerKeys : ∀ {hash peer}, km'.peerKeys hash = some peer →
    km.peerKeys hash = some peer ∨ peers hash peer
  pendingConsensus : (∀ requestId, km.pendingConsensus requestId = none) →
    ∀ requestId, km'.pendingConsensus requestId = none

/-- From one state of a client to another it gains at most the given keys and peers. -/
structure Gains (before after : Participant) (keys : UInt32 → ChannelKey → Prop)
    (peers : String → PeerKeyRecord → Prop) : Prop where
  holds : ∀ {c key}, after.Holds c key → before.Holds c key ∨ keys c key
  knows : ∀ {hash peer}, after.Knows hash peer → before.Knows hash peer ∨ peers hash peer
  nothingPending : before.NothingPending → after.NothingPending

variable {keys' : UInt32 → ChannelKey → Prop} {peers' : String → PeerKeyRecord → Prop}

theorem ManagerGains.imp {km km' : KeyManager} (h : ManagerGains km km' keys peers)
    (hkeys : ∀ c key, keys c key → keys' c key)
    (hpeers : ∀ hash peer, peers hash peer → peers' hash peer) :
    ManagerGains km km' keys' peers' where
  archiveKeys := fun harchive => (h.archiveKeys harchive).imp_right (hkeys _ _)
  peerKeys := fun hpeer => (h.peerKeys hpeer).imp_right (hpeers _ _)
  pendingConsensus := h.pendingConsensus

theorem Gains.imp {before after : Participant} (h : Gains before after keys peers)
    (hkeys : ∀ c key, keys c key → keys' c key)
    (hpeers : ∀ hash peer, peers hash peer → peers' hash peer) :
    Gains before after keys' peers' where
  holds := fun hholds => (h.holds hholds).imp_right (hkeys _ _)
  knows := fun hknows => (h.knows hknows).imp_right (hpeers _ _)
  nothingPending := h.nothingPending

theorem Gains.trans {a b c : Participant} (hab : Gains a b keys peers)
    (hbc : Gains b c keys peers) : Gains a c keys peers where
  holds := fun h => (hbc.holds h).elim hab.holds .inr
  knows := fun h => (hbc.knows h).elim hab.knows .inr
  nothingPending := fun h => hbc.nothingPending (hab.nothingPending h)

theorem Gains.of_eq {before after : Participant}
    (hpchat : after.shared.pchat = before.shared.pchat)
    (hfile : after.archiveKeysFile = before.archiveKeysFile)
    (htasks : after.tasks = before.tasks) : Gains before after keys peers where
  holds := by
    intro c key h
    simp only [Holds, archiveKey, hpchat, hfile, htasks] at h
    exact .inl h
  knows := by
    intro hash peer h
    simp only [Knows, hpchat] at h
    exact .inl h
  nothingPending := by
    intro h
    simp only [NothingPending, hpchat]
    exact h

theorem Gains.refl (cl : Participant) : Gains cl cl keys peers :=
  .of_eq rfl rfl rfl

theorem gains_mapPchat {f : PchatState → PchatState} (cl : Participant)
    (h : ∀ pchat ∈ cl.shared.pchat,
      ManagerGains pchat.keyManager (f pchat).keyManager keys peers) :
    Gains cl (cl.mapPchat f) keys peers := by
  unfold mapPchat
  cases hpchat : cl.shared.pchat with
  | none =>
      refine .of_eq ?_ rfl rfl
      rw [hpchat]
      rfl
  | some pchat =>
      have hgains := h pchat hpchat
      constructor
      · rintro c key (⟨trust, harchive⟩ | hdisk)
        · rcases hgains.archiveKeys harchive with ⟨trust, hbefore⟩ | hnew
          · refine .inl (.inl ⟨trust, ?_⟩)
            rw [archiveKey_of_pchat hpchat]
            exact hbefore
          · exact .inr hnew
        · exact .inl (.inr hdisk)
      · rintro hash peer ⟨pchat', hafter, hpeer⟩
        cases hafter
        exact (hgains.peerKeys hpeer).imp_left fun hbefore => ⟨pchat, hpchat, hbefore⟩
      · intro hnothing pchat' hafter
        cases hafter
        exact hgains.pendingConsensus (hnothing pchat hpchat)

theorem gains_mapKeyManager {f : KeyManager → KeyManager} (cl : Participant)
    (h : ∀ km, ManagerGains km (f km) keys peers) :
    Gains cl (cl.mapKeyManager f) keys peers :=
  gains_mapPchat cl fun pchat _ => h pchat.keyManager

theorem ManagerGains.of_eq {km km' : KeyManager} (harchive : km'.archiveKeys = km.archiveKeys)
    (hpeers : km'.peerKeys = km.peerKeys)
    (hpending : km'.pendingConsensus = km.pendingConsensus) :
    ManagerGains km km' keys peers where
  archiveKeys := fun h => .inl ⟨_, harchive ▸ h⟩
  peerKeys := fun h => .inl (hpeers ▸ h)
  pendingConsensus := fun h => hpending ▸ h

theorem gains_spawn (cl : Participant) {ops : List Op}
    (h : ∀ c key originator, .persistArchiveKey c key originator ∈ ops →
      cl.Holds c key ∨ keys c key) : Gains cl (cl.spawn ops) keys peers where
  holds := by
    rintro c key (harchive | hfile | ⟨ops', hops, originator, hop⟩)
    · exact .inl (.inl harchive)
    · exact .inl (.inr (.inl hfile))
    · rcases List.mem_append.mp hops with hold | hnew
      · exact .inl (.inr (.inr ⟨ops', hold, originator, hop⟩))
      · rw [List.mem_singleton.mp hnew] at hop
        exact h c key originator hop
  knows := .inl
  nothingPending := id

/-! ## Tasks -/

/-- The channel whose key an operation derives from the client's own seed and stores. -/
def storesOwnKey (cl : Participant) : Op → Option UInt32
  | .ensureProtocolKey ch mode =>
      if mode = .fancyV1FullArchive ∧ cl.needsKey ch mode then some ch else none
  | .maybeDeriveArchiveKeyForJoin ch =>
      if cl.needsKey ch .fancyV1FullArchive then some ch else none
  | .selfGenerateKey ch | .deriveChannelKeyAsOriginator ch | .deriveAndStoreArchiveKey ch =>
      if cl.mode ch = some .fancyV1FullArchive ∧ cl.shared.pchat.isSome then some ch else none
  | _ => none

variable (account : Account)

def StoredByOp (cl : Participant) (op : Op) (c : UInt32) (key : ChannelKey) : Prop :=
  cl.storesOwnKey op = some c ∧ key = account.deriveArchiveKey c

theorem managerGains_storeDerivedKey (ch : UInt32) (km : KeyManager) :
    ManagerGains km ((km.storeArchiveKey ch (account.deriveArchiveKey ch)
      .verified).setChannelOriginator ch account.certHash)
      (fun c key => c = ch ∧ key = account.deriveArchiveKey c) peers where
  archiveKeys := by
    intro c key trust h
    change Function.update km.archiveKeys ch (some (account.deriveArchiveKey ch, .verified)) c =
      some (key, trust) at h
    by_cases hchannel : c = ch
    · subst hchannel
      rw [Function.update_self] at h
      cases h
      exact .inr ⟨rfl, rfl⟩
    · rw [Function.update_of_ne hchannel] at h
      exact .inl ⟨trust, h⟩
  peerKeys := .inl
  pendingConsensus := id

theorem gains_storeDerivedKey (cl : Participant) (ch : UInt32)
    (h : cl.shared.pchat.isSome → ∀ c key, c = ch ∧ key = account.deriveArchiveKey c →
      keys c key) : Gains cl (cl.storeDerivedKey account ch) keys peers := by
  refine gains_mapPchat cl fun pchat hpchat => ?_
  have hsome : cl.shared.pchat.isSome := by
    rw [Option.mem_def.mp hpchat]
    rfl
  exact (managerGains_storeDerivedKey account ch pchat.keyManager).imp (h hsome) fun _ _ => id

theorem managerGains_removeChannel (km : KeyManager) (c : UInt32) :
    ManagerGains km (km.removeChannel c) keys peers where
  archiveKeys := by
    intro c' key trust h
    change Function.update km.archiveKeys c none c' = some (key, trust) at h
    by_cases hchannel : c' = c
    · subst hchannel
      rw [Function.update_self] at h
      cases h
    · rw [Function.update_of_ne hchannel] at h
      exact .inl ⟨trust, h⟩
  peerKeys := .inl
  pendingConsensus := id

theorem managerGains_updateCustodianPin (km : KeyManager) (c : UInt32)
    (custodians : List String) :
    ManagerGains km (km.updateCustodianPin c custodians).1 keys peers := by
  unfold KeyManager.updateCustodianPin
  split
  · split <;> exact .of_eq rfl rfl rfl
  · exact .of_eq rfl rfl rfl

theorem gains_writeArchiveKeysFile (cl : Participant) (c : UInt32)
    (entry : Option (ChannelKey × Option String))
    (h : ∀ key originator, entry = some (key, originator) → cl.Holds c key) :
    Gains cl { cl with archiveKeysFile := Function.update cl.archiveKeysFile c entry } keys
      peers where
  holds := by
    rintro c' key (harchive | ⟨originator, hfile⟩ | htask)
    · exact .inl (.inl harchive)
    · change Function.update cl.archiveKeysFile c entry c' = some (key, originator) at hfile
      by_cases hchannel : c' = c
      · subst hchannel
        rw [Function.update_self] at hfile
        exact .inl (h key originator hfile)
      · rw [Function.update_of_ne hchannel] at hfile
        exact .inl (.inr (.inl ⟨originator, hfile⟩))
    · exact .inl (.inr (.inr htask))
  knows := .inl
  nothingPending := id

theorem isSome_pchat_of_needsKey {cl : Participant} {ch : UInt32} {mode : PchatProtocol}
    (h : cl.needsKey ch mode = true) : cl.shared.pchat.isSome := by
  unfold needsKey at h
  cases hpchat : cl.shared.pchat with
  | none => rw [hpchat] at h; exact h
  | some pchat => rfl

theorem gains_execOp (bridgeLoads : Bool) (cl : Participant) {op : Op}
    (hwaiting : ∀ c key originator, op = .persistArchiveKey c key originator → cl.Holds c key) :
    Gains cl (cl.execOp account bridgeLoads op) (cl.StoredByOp account op) peers := by
  have hbridge : ∀ {keys : UInt32 → ChannelKey → Prop},
      Gains cl (cl.loadSignalBridge bridgeLoads) keys peers :=
    gains_mapKeyManager cl fun km => .of_eq rfl rfl rfl
  have hholder : ∀ {keys : UInt32 → ChannelKey → Prop} ch certHash,
      Gains cl (cl.mapKeyManager (·.recordKeyHolder ch certHash)) keys peers :=
    fun ch certHash => gains_mapKeyManager cl fun km => .of_eq rfl rfl rfl
  cases op with
  | ensureProtocolKey ch mode | maybeDeriveArchiveKeyForJoin ch =>
      simp only [execOp]
      split
      · next hneeds =>
          refine gains_storeDerivedKey account cl ch fun _ c key ⟨hc, hkey⟩ => ?_
          subst hc
          exact ⟨if_pos hneeds, hkey⟩
      · exact .refl cl
  | selfGenerateKey ch | deriveChannelKeyAsOriginator ch =>
      simp only [execOp]
      split
      · next hmode =>
          refine gains_storeDerivedKey account cl ch fun hpchat c key ⟨hc, hkey⟩ => ?_
          subst hc
          exact ⟨if_pos ⟨hmode, hpchat⟩, hkey⟩
      · exact hbridge
      · exact .refl cl
  | deriveAndStoreArchiveKey ch =>
      simp only [execOp]
      split
      · next hmode =>
          refine gains_storeDerivedKey account cl ch fun hpchat c key ⟨hc, hkey⟩ => ?_
          subst hc
          exact ⟨if_pos ⟨hmode, hpchat⟩, hkey⟩
      · exact .refl cl
  | ensureSignalBridge ch => exact hbridge
  | reportKeyHolder ch =>
      simp only [execOp]
      split
      · exact .refl cl
      · exact hholder ch account.certHash
  | fetchChannelHistory ch => exact gains_mapPchat cl fun pchat _ => .of_eq rfl rfl rfl
  | persistArchiveKey ch key originator =>
      refine gains_writeArchiveKeysFile cl ch _ fun key' originator' hentry => ?_
      cases hentry
      exact hwaiting ch key originator rfl
  | deletePersistedArchiveKey ch =>
      exact gains_writeArchiveKeysFile cl ch _ fun _ _ hentry => nomatch hentry
  | recordKeyHolder ch certHash => exact hholder ch certHash
  | sendKeyAnnounce | resolveInitialChannel | checkNeedsKey | pchatInit | checkNeedsKeyOnJoin
  | keyGenAndFetch | checkNeedsKeyAfterModeChange => exact .refl cl

theorem archiveKey_storeDerivedKey (cl : Participant) (ch : UInt32)
    (h : cl.shared.pchat.isSome) :
    (cl.storeDerivedKey account ch).archiveKey ch =
      some (account.deriveArchiveKey ch, .verified) := by
  obtain ⟨pchat, hpchat⟩ := Option.isSome_iff_exists.mp h
  simp [storeDerivedKey, mapKeyManager, mapPchat, archiveKey, hpchat,
    KeyManager.setChannelOriginator]

theorem execOp_of_storesOwnKey (bridgeLoads : Bool) {cl : Participant} {op : Op} {c : UInt32}
    (h : cl.storesOwnKey op = some c) :
    cl.execOp account bridgeLoads op = cl.storeDerivedKey account c ∧
      cl.shared.pchat.isSome := by
  cases op with
  | ensureProtocolKey ch mode =>
      simp only [storesOwnKey] at h
      split at h
      · next hneeds =>
          cases h
          exact ⟨if_pos hneeds, isSome_pchat_of_needsKey hneeds.2⟩
      · cases h
  | maybeDeriveArchiveKeyForJoin ch =>
      simp only [storesOwnKey] at h
      split at h
      · next hneeds =>
          cases h
          exact ⟨if_pos hneeds, isSome_pchat_of_needsKey hneeds⟩
      · cases h
  | selfGenerateKey ch | deriveChannelKeyAsOriginator ch =>
      simp only [storesOwnKey] at h
      split at h
      · next hstores =>
          cases h
          refine ⟨?_, hstores.2⟩
          simp only [execOp, hstores.1]
      · cases h
  | deriveAndStoreArchiveKey ch =>
      simp only [storesOwnKey] at h
      split at h
      · next hstores =>
          cases h
          exact ⟨if_pos hstores.1, hstores.2⟩
      · cases h
  | _ => cases h

theorem mem_persistDerivedKey {ch c : UInt32} {key : ChannelKey} {originator : Option String}
    (h : .persistArchiveKey c key originator ∈ persistDerivedKey account ch) :
    c = ch ∧ key = account.deriveArchiveKey ch := by
  unfold persistDerivedKey at h
  split at h
  · cases List.mem_singleton.mp h
    exact ⟨rfl, rfl⟩
  · cases h

theorem mem_afterOp (bridgeLoads : Bool) (cl : Participant) (op : Op) (rest : List Op)
    {c : UInt32} {key : ChannelKey} {originator : Option String}
    (h : .persistArchiveKey c key originator ∈ cl.afterOp account bridgeLoads op rest) :
    .persistArchiveKey c key originator ∈ rest ∨ cl.StoredByOp account op c key := by
  cases op with
  | resolveInitialChannel =>
      simp only [afterOp] at h
      split at h
      · split at h
        · split at h
          · rcases List.mem_append.mp h with hinit | hrest
            · next ch mode _ _ =>
                cases mode <;> simp [initEncryptedChannel] at hinit
            · exact .inl hrest
          · exact .inl h
        · exact .inl h
      · exact .inl h
  | pchatInit ch =>
      simp only [afterOp] at h
      rcases List.mem_append.mp h with hinit | hrest
      · unfold pchatInitTask at hinit
        split at hinit <;> simp at hinit
      · exact .inl hrest
  | ensureSignalBridge ch =>
      simp only [afterOp] at h
      split at h
      · exact .inl h
      · cases h
  | checkNeedsKey ch mode =>
      simp only [afterOp] at h
      split at h
      · exact .inl (by simpa using h)
      · exact .inl h
  | checkNeedsKeyOnJoin ch =>
      simp only [afterOp] at h
      split at h
      · exact .inl (by simpa using h)
      · exact .inl h
  | keyGenAndFetch id =>
      simp only [afterOp] at h
      split at h
      · split at h
        · exact .inl (by simpa using h)
        · exact .inl h
      · exact .inl h
  | checkNeedsKeyAfterModeChange id mode =>
      simp only [afterOp] at h
      split at h
      · exact .inl (by simpa using h)
      · exact .inl h
  | maybeDeriveArchiveKeyForJoin ch =>
      simp only [afterOp] at h
      split at h
      · next hneeds =>
          rcases List.mem_append.mp h with hpersist | hrest
          · obtain ⟨rfl, rfl⟩ := mem_persistDerivedKey account hpersist
            exact .inr ⟨if_pos hneeds, rfl⟩
          · exact .inl hrest
      · exact .inl h
  | deriveChannelKeyAsOriginator ch =>
      simp only [afterOp] at h
      split at h
      · next hstores =>
          rcases List.mem_append.mp h with hpersist | hrest
          · obtain ⟨rfl, rfl⟩ := mem_persistDerivedKey account hpersist
            exact .inr ⟨if_pos hstores, rfl⟩
          · exact .inl hrest
      · exact .inl h
  | sendKeyAnnounce | ensureProtocolKey | reportKeyHolder | selfGenerateKey
  | fetchChannelHistory | deriveAndStoreArchiveKey | persistArchiveKey
  | deletePersistedArchiveKey | recordKeyHolder => exact .inl h

theorem gains_runTask (bridgeLoads : Bool) (cl : Participant) (task : Nat) :
    Gains cl (cl.runTask account bridgeLoads task)
      (fun c key => ∃ op, cl.nextOp task = some op ∧ cl.StoredByOp account op c key) peers := by
  unfold runTask
  split
  · next op rest htask =>
      have hnext : cl.nextOp task = some op := by
        unfold nextOp
        rw [htask]
        rfl
      have hmem : op :: rest ∈ cl.tasks := List.mem_of_getElem? htask
      have hexec :
          Gains cl (cl.execOp account bridgeLoads op) (cl.StoredByOp account op) peers := by
        refine gains_execOp account bridgeLoads cl fun c key originator hop => ?_
        exact .inr (.inr ⟨op :: rest, hmem, originator, hop ▸ List.mem_cons_self⟩)
      constructor
      · rintro c key (harchive | hfile | ⟨ops, hops, originator, hop⟩)
        · exact (hexec.holds (.inl harchive)).imp_right fun hstored => ⟨op, hnext, hstored⟩
        · exact (hexec.holds (.inr (.inl hfile))).imp_right fun hstored => ⟨op, hnext, hstored⟩
        · rcases List.mem_or_eq_of_mem_set hops with hold | rfl
          · exact .inl (.inr (.inr ⟨ops, hold, originator, hop⟩))
          · rcases mem_afterOp account bridgeLoads cl op rest hop with hrest | hstored
            · exact .inl (.inr (.inr ⟨op :: rest, hmem, originator, List.mem_cons_of_mem op hrest⟩))
            · exact .inr ⟨op, hnext, hstored⟩
      · exact hexec.knows
      · exact hexec.nothingPending
  · exact .refl cl

/-! ## Handlers -/

theorem gains_queueKeyShareConsent (cl : Participant) (requestId : Option String)
    (channelId : UInt32) (peerCertHash : String) :
    Gains cl (cl.queueKeyShareConsent requestId channelId peerCertHash) keys peers := by
  unfold queueKeyShareConsent
  dsimp only
  split <;> exact .of_eq rfl rfl rfl

theorem gains_foldl {α : Type*} {f : Participant → α → Participant}
    (h : ∀ cl a, Gains cl (f cl a) keys peers) (cl : Participant) (l : List α) :
    Gains cl (l.foldl f cl) keys peers := by
  induction l generalizing cl with
  | nil => exact .refl cl
  | cons a l ih => exact (h cl a).trans (ih (f cl a))

theorem gains_retainKeyShares (cl : Participant) (keep : PendingKeyShare → Bool) :
    Gains cl (cl.retainKeyShares keep) keys peers :=
  .of_eq rfl rfl rfl

theorem gains_checkKeyShareForChannel (cl : Participant) (ch : UInt32) :
    Gains cl (cl.checkKeyShareForChannel account ch) keys peers := by
  unfold checkKeyShareForChannel
  split
  · dsimp only
    split
    · exact gains_foldl (fun cl hash => gains_queueKeyShareConsent cl none ch hash) cl _
    · exact .refl cl
  · exact .refl cl

theorem managerGains_recordPeerKey (crypto : Crypto) (km : KeyManager)
    (announce : PchatKeyAnnounce) :
    ManagerGains km (km.recordPeerKey crypto announce).1 keys
      (fun hash peer => hash = announce.certHash ∧ peer.dhPublic = announce.identityPublic) := by
  rcases km.recordPeerKey_cases crypto announce with hstep | ⟨peer, hdh, hstep⟩
  · rw [hstep]
    exact .of_eq rfl rfl rfl
  · rw [hstep]
    refine ⟨fun harchive => .inl ⟨_, harchive⟩, fun {hash peer'} hpeer => ?_, id⟩
    change Function.update km.peerKeys announce.certHash (some peer) hash = some peer' at hpeer
    by_cases hhash : hash = announce.certHash
    · rw [hhash, Function.update_self] at hpeer
      cases hpeer
      exact .inr ⟨hhash, hdh⟩
    · rw [Function.update_of_ne hhash] at hpeer
      exact .inl hpeer

theorem gains_handleKeyAnnounce (cl : Participant) (announce : PchatKeyAnnounce) :
    Gains cl (cl.handleKeyAnnounce account announce) keys
      (fun hash peer => hash = announce.certHash ∧ peer.dhPublic = announce.identityPublic) := by
  unfold handleKeyAnnounce
  split
  · next pchat hpchat =>
      have hgains : ManagerGains pchat.keyManager
          (pchat.keyManager.recordPeerKey account.identity.crypto announce).1 keys _ :=
        managerGains_recordPeerKey account.identity.crypto pchat.keyManager announce
      generalize pchat.keyManager.recordPeerKey account.identity.crypto announce = outcome
        at hgains ⊢
      obtain ⟨km, recorded⟩ := outcome
      have hrecord : Gains cl (cl.mapKeyManager fun _ => km) keys (fun hash peer =>
          hash = announce.certHash ∧ peer.dhPublic = announce.identityPublic) := by
        refine gains_mapPchat cl fun pchat' hpchat' => ?_
        cases hpchat.symm.trans (Option.mem_def.mp hpchat')
        exact hgains
      split
      · next km' hkm =>
          cases hkm
          exact hrecord.trans (gains_foldl
            (fun cl ch => gains_queueKeyShareConsent cl none ch announce.certHash) _ _)
      · next km' recorded' hnot hkm =>
          cases hkm
          exact hrecord
  · exact .refl cl

theorem gains_restoreArchiveKeys (cl : Participant) (shared : SharedState)
    (hpchat : shared.pchat = some { keyManager := cl.restoreArchiveKeys account }) :
    Gains cl { cl with shared } keys peers where
  holds := by
    rintro c key (⟨trust, harchive⟩ | hrest)
    · rw [archiveKey_of_pchat hpchat] at harchive
      unfold restoreArchiveKeys at harchive
      split at harchive
      · obtain ⟨entry, hentry, hkey⟩ := Option.map_eq_some_iff.mp harchive
        cases hkey
        exact .inl (.inr (.inl ⟨entry.2, hentry⟩))
      · cases harchive
    · exact .inl (.inr hrest)
  knows := by
    rintro hash peer ⟨pchat, hpchat', hpeer⟩
    cases hpchat.symm.trans (Option.mem_def.mp hpchat')
    unfold restoreArchiveKeys at hpeer
    split at hpeer <;> cases hpeer
  nothingPending := by
    intro _ pchat hpchat' requestId
    cases hpchat.symm.trans (Option.mem_def.mp hpchat')
    unfold restoreArchiveKeys
    split <;> rfl

theorem gains_handleServerSync (cl : Participant) (session : UInt32) (fancyServer : Bool) :
    Gains cl (cl.handleServerSync account session fancyServer) keys peers := by
  unfold handleServerSync
  dsimp only
  split
  · refine (gains_restoreArchiveKeys account cl _ rfl).trans (gains_spawn _ ?_)
    simp
  · exact .of_eq rfl rfl rfl

theorem gains_handleOwnChannelChange (cl : Participant) (ch : UInt32) :
    Gains cl (cl.handleOwnChannelChange ch) keys peers := by
  unfold handleOwnChannelChange
  dsimp only
  split
  · refine .trans (gains_mapPchat cl fun pchat _ => ?_) (gains_spawn _ ?_)
    · exact .of_eq rfl rfl rfl
    · simp
  · exact .refl cl

theorem gains_handleUserState (cl : Participant) (session : UInt32) (hash : Option String)
    (channelId : Option UInt32) :
    Gains cl (cl.handleUserState account session hash channelId) keys peers := by
  unfold handleUserState
  dsimp only
  have hupdated : ∀ shared : SharedState, shared.pchat = cl.shared.pchat →
      Gains cl { cl with shared } keys peers := fun shared hpchat => .of_eq hpchat rfl rfl
  split
  · split
    · refine .trans ?_ (gains_handleOwnChannelChange _ _)
      exact hupdated _ rfl
    · split
      · refine .trans ?_ (gains_checkKeyShareForChannel account _ _)
        exact hupdated _ rfl
      · exact hupdated _ rfl
  · exact hupdated _ rfl

theorem gains_handleChannelState (cl : Participant) (id : UInt32)
    (pchatProtocol : Option PchatProtocol) (pchatKeyCustodians : List String) :
    Gains cl (cl.handleChannelState id pchatProtocol pchatKeyCustodians) keys peers := by
  unfold handleChannelState
  dsimp only
  have hpinned : ∀ shared : SharedState, shared.pchat = cl.shared.pchat →
      Gains cl ({ cl with shared }.mapKeyManager fun km =>
        (km.updateCustodianPin id pchatKeyCustodians).1) keys peers := by
    intro shared hpchat
    refine .trans ?_ (gains_mapKeyManager _ fun km =>
      managerGains_updateCustodianPin km id pchatKeyCustodians)
    exact .of_eq hpchat rfl rfl
  split
  · refine .trans ?_ (gains_spawn _ ?_)
    · exact hpinned _ rfl
    · simp
  · exact hpinned _ rfl

theorem gains_handleChannelRemove (cl : Participant) (id : UInt32) :
    Gains cl (cl.handleChannelRemove account id) keys peers := by
  unfold handleChannelRemove
  dsimp only
  have hfile : ∀ file : UInt32 → Option (ChannelKey × Option String),
      (file = Function.update cl.archiveKeysFile id none ∨ file = cl.archiveKeysFile) →
        Gains cl
          { cl with
            shared :=
              { cl.shared with channels := Function.update cl.shared.channels id none }
            archiveKeysFile := file } keys peers := by
    rintro file (rfl | rfl)
    · exact (gains_writeArchiveKeysFile cl id none fun _ _ hentry => nomatch hentry).trans
        (.of_eq rfl rfl rfl)
    · exact .of_eq rfl rfl rfl
  refine ((hfile _ ?_).trans (gains_mapPchat _ fun pchat _ => ?_)).trans
    (gains_retainKeyShares _ _)
  · split
    · exact .inl rfl
    · exact .inr rfl
  · exact managerGains_removeChannel pchat.keyManager id

theorem gains_handleKeyChallengeResult (cl : Participant) (channelId : UInt32)
    (passed : Bool) :
    Gains cl (cl.handleKeyChallengeResult account channelId passed) keys peers := by
  unfold handleKeyChallengeResult
  split
  · exact .refl cl
  · have hremoved : Gains cl ((cl.mapKeyManager (·.removeChannel channelId)).retainKeyShares
        fun p => p.channelId ≠ channelId) keys peers :=
      (gains_mapKeyManager cl fun km => managerGains_removeChannel km channelId).trans
        (gains_retainKeyShares _ _)
    dsimp only
    split
    · refine hremoved.trans (gains_spawn _ ?_)
      simp
    · exact hremoved

/-- What the relay tells a client by itself gains neither keys nor peers. -/
theorem gains_handle (cl : Participant) (input : Input) :
    Gains cl (cl.handle account input) keys peers := by
  cases input with
  | serverSync session fancyServer => exact gains_handleServerSync account cl session fancyServer
  | userState session hash channelId =>
      exact gains_handleUserState account cl session hash channelId
  | userRemove session => exact .of_eq rfl rfl rfl
  | channelState id pchatProtocol pchatKeyCustodians =>
      exact gains_handleChannelState cl id pchatProtocol pchatKeyCustodians
  | channelRemove id => exact gains_handleChannelRemove account cl id
  | keyRequest channelId requesterHash requestId =>
      simp only [handle, handleKeyRequest]
      split
      · split
        · exact gains_queueKeyShareConsent cl _ _ _
        · exact .refl cl
      · exact .refl cl
  | keyHoldersList channelId holders =>
      refine .trans (gains_mapKeyManager cl fun km => ?_) (gains_retainKeyShares _ _)
      exact .of_eq rfl rfl rfl
  | keyChallengeResult channelId passed =>
      exact gains_handleKeyChallengeResult account cl channelId passed
  | disconnected =>
      constructor
      · rintro c key (⟨trust, harchive⟩ | hrest)
        · cases harchive
        · exact .inl (.inr hrest)
      · rintro hash peer ⟨pchat, hpchat, -⟩
        cases hpchat
      · intro _ pchat hpchat
        cases hpchat
  | dismissKeyShare channelId peerCertHash => exact gains_retainKeyShares cl _

theorem gains_approveKeyShare (nonce : List UInt8) (now : UInt64) (cl : Participant)
    (channelId : UInt32) (peerCertHash : String) :
    Gains cl (cl.approveKeyShare account nonce now channelId peerCertHash).1 keys peers := by
  unfold approveKeyShare
  dsimp only
  split
  · exact .refl cl
  split
  · exact gains_retainKeyShares cl _
  split
  · exact gains_retainKeyShares cl _
  split
  · exact gains_retainKeyShares cl _
  · refine (gains_retainKeyShares cl _).trans (gains_spawn _ ?_)
    simp

theorem approveKeyShare_sent {nonce : List UInt8} {now : UInt64} {cl : Participant}
    {channelId : UInt32} {peerCertHash : String} {exchange : PchatKeyExchange}
    (h : (cl.approveKeyShare account nonce now channelId peerCertHash).2 = some exchange) :
    ∃ pchat ∈ cl.shared.pchat, ∃ peer, pchat.keyManager.peerKeys peerCertHash = some peer ∧
      ∃ requestId distributed, pchat.keyManager.distributeKey account.identity nonce channelId
          .fancyV1FullArchive 0 peerCertHash peer.dhPublic requestId now = .ok distributed ∧
        exchange = { distributed with senderHash := account.certHash } := by
  rw [approveKeyShare_snd] at h
  obtain ⟨share, -, hshared⟩ := Option.bind_eq_some_iff.mp h
  obtain ⟨pchat, hpchat, hkey⟩ := Option.bind_eq_some_iff.mp hshared
  unfold KeyManager.shareKey at hkey
  split at hkey
  · cases hkey
  next peer hpeer =>
    split at hkey
    · cases hkey
    next distributed hdistributed =>
      cases hkey
      exact ⟨pchat, hpchat, peer, hpeer, share.requestId, distributed, hdistributed, rfl⟩

/-! ## Received keys -/

theorem managerGains_tryAccept {crypto : Crypto} {responseOrder groupOrder : HashOrder}
    {km : KeyManager} {exchange : PchatKeyExchange}
    (hnothing : ∀ requestId, km.pendingConsensus requestId = none) :
    ManagerGains km (tryAcceptKeyExchange crypto responseOrder groupOrder km exchange).1
      (fun c key => c = exchange.channelId ∧ km.Accepts crypto exchange none key) peers := by
  have hhandled := tryAcceptKeyExchange_handled crypto responseOrder groupOrder km exchange
  generalize (tryAcceptKeyExchange crypto responseOrder groupOrder km exchange).1 = km'
    at hhandled ⊢
  have hstored : ∀ {key newKey : ChannelKey} {newTrust : KeyTrustLevel},
      km.Accepts crypto exchange none newKey →
        km'.archiveKeys = Function.update km.archiveKeys exchange.channelId
            (some (newKey, newTrust)) →
          ∀ {c trust}, km'.archiveKeys c = some (key, trust) →
            (∃ trust, km.archiveKeys c = some (key, trust)) ∨
              c = exchange.channelId ∧ km.Accepts crypto exchange none key := by
    intro key newKey newTrust haccepts harchive c trust h
    rw [harchive] at h
    by_cases hchannel : c = exchange.channelId
    · rw [hchannel, Function.update_self] at h
      cases h
      exact .inr ⟨hchannel, haccepts⟩
    · rw [Function.update_of_ne hchannel] at h
      exact .inl ⟨trust, h⟩
  cases hhandled with
  | rejected hrejected => exact .of_eq rfl rfl rfl
  | unsolicited haccepts hrequest harchive hpending hpeers =>
      exact ⟨hstored haccepts harchive, fun h => .inl (hpeers ▸ h), fun h => hpending ▸ h⟩
  | @answered _ _ _ _ requestId _ haccepts hrequest hsent hdecides harchive hpending hpeers =>
      obtain ⟨rfl, -⟩ := ObservedState.decides_single (hnothing requestId) hdecides hsent
      refine ⟨hstored haccepts harchive, fun h => .inl (hpeers ▸ h), fun h requestId' => ?_⟩
      rw [hpending]
      by_cases hid : requestId' = requestId
      · rw [hid, Function.update_self]
      · rw [Function.update_of_ne hid]
        exact h requestId'

theorem gains_finalizeKeyAcceptance (hasPlaceholders : Bool) (exchange : PchatKeyExchange)
    (cl : Participant) :
    Gains cl (cl.finalizeKeyAcceptance account hasPlaceholders exchange) keys peers := by
  unfold finalizeKeyAcceptance
  dsimp only
  refine .trans ?_ (gains_spawn _ ?_)
  · split
    · refine .trans (b := (cl.mapKeyManager _).retainKeyShares _) ?_
        (gains_mapPchat _ fun pchat _ => ?_)
      · refine .trans ?_ (gains_retainKeyShares _ _)
        exact gains_mapKeyManager cl fun km => .of_eq rfl rfl rfl
      · exact .of_eq rfl rfl rfl
    · refine .trans ?_ (gains_retainKeyShares _ _)
      exact gains_mapKeyManager cl fun km => .of_eq rfl rfl rfl
  · intro c key originator hop
    rcases List.mem_cons.mp hop with hreport | hpersist
    · cases hreport
    · split at hpersist
      · next pchat' key' trust' hpchat harchive =>
          split at hpersist
          · cases List.mem_singleton.mp hpersist
            exact .inl (holds_of_archiveKey harchive)
          · cases hpersist
      · cases hpersist

theorem gains_handleKeyExchange (responseOrder groupOrder : HashOrder) (hasPlaceholders : Bool)
    {cl : Participant} (exchange : PchatKeyExchange) (hnothing : cl.NothingPending) :
    Gains cl (cl.handleKeyExchange account responseOrder groupOrder hasPlaceholders exchange)
      (fun c key => c = exchange.channelId ∧ ∃ pchat ∈ cl.shared.pchat,
        pchat.keyManager.Accepts account.identity.crypto exchange none key) peers := by
  unfold handleKeyExchange
  split
  · next pchat hpchat =>
      have hgains : ManagerGains pchat.keyManager (tryAcceptKeyExchange account.identity.crypto
          responseOrder groupOrder pchat.keyManager exchange).1 _ peers :=
        managerGains_tryAccept (hnothing pchat hpchat)
      have hreceived : ∀ accepted, Gains cl
          { cl.mapKeyManager (fun _ => (tryAcceptKeyExchange account.identity.crypto
              responseOrder groupOrder pchat.keyManager exchange).1) with
            accepted := accepted }
          (fun c key => c = exchange.channelId ∧ ∃ pchat ∈ cl.shared.pchat,
            pchat.keyManager.Accepts account.identity.crypto exchange none key) peers := by
        intro accepted
        refine .trans (gains_mapPchat cl fun pchat' hpchat' => ?_) (.of_eq rfl rfl rfl)
        cases hpchat.symm.trans (Option.mem_def.mp hpchat')
        exact hgains.imp
          (fun c key ⟨hchannel, haccepts⟩ => ⟨hchannel, pchat, hpchat, haccepts⟩) fun _ _ => id
      dsimp only
      split
      · refine .trans ?_ (gains_finalizeKeyAcceptance account _ _ _)
        exact hreceived _
      · exact hreceived _
  · exact .refl cl

end Participant

end FancyMumble.Client
