import FancyMumble.Client.HeldKeys

/-!
# Archive keys among the members of a channel

Any number of clients and the relay between them. Every client derives archive keys from
its own seed, and it accepts the keys that others send. When do the members of a channel
end up with one key?
-/

namespace FancyMumble.Client

open Lib.Grouping Lib.Runs Persistent

/-! ## The system -/

/-- What the clients start with: their identities, the archive keys that
`derive_archive_key` makes from their seeds, and whether they have an identity
directory. -/
structure Setup where
  identity : String → Identity
  deriveArchiveKey : String → UInt32 → ChannelKey
  identityDir : String → Bool

def Setup.account (setup : Setup) (certHash : String) : Account where
  certHash := certHash
  identity := setup.identity certHash
  deriveArchiveKey := setup.deriveArchiveKey certHash
  identityDir := setup.identityDir certHash

inductive Payload where
  | keyAnnounce (announce : PchatKeyAnnounce)
  | keyExchange (exchange : PchatKeyExchange)

/-- The clients by their certificates, the announcements that the relay has, and the
messages on their way with their recipients. -/
structure System where
  clients : String → Participant := fun _ => {}
  announces : List PchatKeyAnnounce := []
  inFlight : List (String × Payload) := []

/-- What can happen next: a client hears from the relay or its user decides something, a
user shares a key, a task goes on, or the relay passes a message on. -/
inductive Event where
  | input (x : String) (input : Participant.Input)
  | approveKeyShare (x : String) (nonce : List UInt8) (now : UInt64) (channelId : UInt32)
      (peerCertHash : String)
  | runTask (x : String) (task : Nat) (now : UInt64) (bridgeLoads : Bool)
  | forwardAnnounce (index : Nat) (recipient : String)
  | deliver (index : Nat) (responseOrder groupOrder : HashOrder) (hasPlaceholders : Bool)

namespace System

/-- The relay is honest: it synchronises a connection once, and in its list of users the
client finds its own certificate. -/
def Honest (s : System) (x : String) : Participant.Input → Prop
  | .serverSync session _ =>
      (s.clients x).shared.synced = false ∧
        ∀ hash ∈ ((s.clients x).shared.users.lookup session).bind UserEntry.hash, hash = x
  | .userRemove session => (s.clients x).shared.ownSession ≠ some session
  | _ => True

instance (s : System) (x : String) (input : Participant.Input) :
    Decidable (s.Honest x input) := by
  cases input <;> unfold Honest <;> infer_instance

def setClient (s : System) (x : String) (cl : Participant) : System :=
  { s with clients := Function.update s.clients x cl }

def receive (setup : Setup) (s : System) (x : String) (responseOrder groupOrder : HashOrder)
    (hasPlaceholders : Bool) : Payload → Participant
  | .keyAnnounce announce => (s.clients x).handleKeyAnnounce (setup.account x) announce
  | .keyExchange exchange =>
      (s.clients x).handleKeyExchange (setup.account x) responseOrder groupOrder
        hasPlaceholders exchange

def step (setup : Setup) (s : System) : Event → System
  | .input x input =>
      if s.Honest x input then
        s.setClient x ((s.clients x).handle (setup.account x) input)
      else s
  | .approveKeyShare x nonce now channelId peerCertHash =>
      let (cl, sent) :=
        (s.clients x).approveKeyShare (setup.account x) nonce now channelId peerCertHash
      { s.setClient x cl with
        inFlight := s.inFlight ++
          (sent.map fun exchange => (exchange.recipientHash, .keyExchange exchange)).toList }
  | .runTask x task now bridgeLoads =>
      { s.setClient x ((s.clients x).runTask (setup.account x) bridgeLoads task) with
        announces := s.announces ++
          ((s.clients x).announcement (setup.account x) now task).toList }
  | .forwardAnnounce index recipient =>
      { s with
        inFlight := s.inFlight ++
          (s.announces[index]?.map fun announce =>
            (recipient, Payload.keyAnnounce announce)).toList }
  | .deliver index responseOrder groupOrder hasPlaceholders =>
      match s.inFlight[index]? with
      | some (x, payload) =>
          { s.setClient x (s.receive setup x responseOrder groupOrder hasPlaceholders payload) with
            inFlight := s.inFlight.eraseIdx index }
      | none => s

/-! ## Agreement -/

def IsMember (s : System) (x : String) (c : UInt32) : Prop :=
  (s.clients x).shared.currentChannel = some c

/-- Once no message is in flight, no two members of a channel hold different keys of it
that both are verified. -/
def MembersAgree (s : System) : Prop :=
  s.inFlight = [] → ∀ c x y, s.IsMember x c → s.IsMember y c → ∀ key key',
    (s.clients x).archiveKey c = some (key, .verified) →
      (s.clients y).archiveKey c = some (key', .verified) → key = key'

def Received (s : System) (x : String) (c : UInt32) (key : ChannelKey) : Prop :=
  ∃ sender, (c, sender, key) ∈ (s.clients x).accepted

/-- A key that a client holds and has received is in place of another key of the channel
after the event only if that was received as well. -/
def KeepsReceived (setup : Setup) (s : System) (event : Event) : Prop :=
  ∀ x c key trust, (s.clients x).archiveKey c = some (key, trust) → s.Received x c key →
    ∀ key' trust', ((s.step setup event).clients x).archiveKey c = some (key', trust') →
      key' = key ∨ (s.step setup event).Received x c key'

def Exists (setup : Setup) (s : System) (c : UInt32) (key : ChannelKey) : Prop :=
  (∃ x, (s.clients x).Holds c key) ∨
    ∃ x exchange, (x, .keyExchange exchange) ∈ s.inFlight ∧ exchange.channelId = c ∧
      unwrapKey (setup.identity x).crypto (setup.identity exchange.senderHash).dhPublic
        exchange.encryptedKey = .ok key

/-- The client that stores a key that it derives from its own seed, with the channel. -/
def storesOwnKey (s : System) : Event → Option (String × UInt32)
  | .runTask x task _ _ =>
      (((s.clients x).nextOp task).bind (s.clients x).storesOwnKey).map fun c => (x, c)
  | _ => none

/-- A client stores a key that it derives from its own seed only while there is no other
key of the channel. -/
def StoresOnlyKey (setup : Setup) (s : System) (event : Event) : Prop :=
  ∀ x c, s.storesOwnKey event = some (x, c) →
    ∀ key, s.Exists setup c key → key = setup.deriveArchiveKey x c

/-! ## Invariants -/

/-- What the clients know of each other is right, no responses wait between the calls of
the handlers, and there is at most one key of every channel. -/
structure Consistent (setup : Setup) (s : System) : Prop where
  announced : ∀ announce ∈ s.announces,
    announce.identityPublic = (setup.identity announce.certHash).dhPublic
  forwarded : ∀ x announce, (x, .keyAnnounce announce) ∈ s.inFlight →
    announce.identityPublic = (setup.identity announce.certHash).dhPublic
  peers : ∀ x hash peer, (s.clients x).Knows hash peer →
    peer.dhPublic = (setup.identity hash).dhPublic
  nothingPending : ∀ x, (s.clients x).NothingPending
  oneKey : ∀ c key key', s.Exists setup c key → s.Exists setup c key' → key = key'

variable {setup : Setup}

theorem not_exists_initial (c : UInt32) (key : ChannelKey) :
    ¬({} : System).Exists setup c key := by
  rintro (⟨x, ⟨trust, h⟩ | ⟨originator, h⟩ | ⟨ops, h, -⟩⟩ | ⟨x, exchange, h, -⟩)
  all_goals cases h

theorem consistent_initial : Consistent setup {} where
  announced := fun _ h => nomatch h
  forwarded := fun _ _ h => nomatch h
  peers := fun _ _ _ ⟨_, h, _⟩ => nomatch h
  nothingPending := fun _ _ h => nomatch h
  oneKey := fun c key _ h => absurd h (not_exists_initial c key)

/-! ### One client at a time -/

section SetClient

variable {s : System} {x : String} {cl : Participant} {keys : UInt32 → ChannelKey → Prop}
  {peers : String → PeerKeyRecord → Prop}

theorem holds_setClient (hgains : Participant.Gains (s.clients x) cl keys peers) {c : UInt32}
    {key : ChannelKey} {y : String} (h : ((s.setClient x cl).clients y).Holds c key) :
    (s.clients y).Holds c key ∨ keys c key := by
  change (Function.update s.clients x cl y).Holds c key at h
  by_cases hy : y = x
  · subst hy
    rw [Function.update_self] at h
    exact hgains.holds h
  · rw [Function.update_of_ne hy] at h
    exact .inl h

theorem knows_setClient (hgains : Participant.Gains (s.clients x) cl keys peers) {hash : String}
    {peer : PeerKeyRecord} {y : String} (h : ((s.setClient x cl).clients y).Knows hash peer) :
    (s.clients y).Knows hash peer ∨ peers hash peer := by
  change (Function.update s.clients x cl y).Knows hash peer at h
  by_cases hy : y = x
  · subst hy
    rw [Function.update_self] at h
    exact hgains.knows h
  · rw [Function.update_of_ne hy] at h
    exact .inl h

theorem nothingPending_setClient (hgains : Participant.Gains (s.clients x) cl keys peers)
    (h : ∀ y, (s.clients y).NothingPending) (y : String) :
    ((s.setClient x cl).clients y).NothingPending := by
  change (Function.update s.clients x cl y).NothingPending
  by_cases hy : y = x
  · subst hy
    rw [Function.update_self]
    exact hgains.nothingPending (h y)
  · rw [Function.update_of_ne hy]
    exact h y

theorem exists_setClient {s' : System} {c : UInt32} {key : ChannelKey}
    (h : s'.Exists setup c key) (hclients : s'.clients = (s.setClient x cl).clients)
    (hgains : Participant.Gains (s.clients x) cl keys peers)
    (hflight : ∀ y exchange, (y, .keyExchange exchange) ∈ s'.inFlight →
      exchange.channelId = c → unwrapKey (setup.identity y).crypto
        (setup.identity exchange.senderHash).dhPublic exchange.encryptedKey = .ok key →
          s.Exists setup c key) : s.Exists setup c key ∨ keys c key := by
  rcases h with ⟨y, hholds⟩ | ⟨y, exchange, hmem, hchannel, hkey⟩
  · rw [hclients] at hholds
    exact (holds_setClient hgains hholds).imp_left fun hbefore => .inl ⟨y, hbefore⟩
  · exact .inl (hflight y exchange hmem hchannel hkey)

end SetClient

/-! ### Steps -/

theorem exists_of_approved (hlawful : LawfulIdentities setup.identity) {s : System}
    (h : Consistent setup s) {x : String} {nonce : List UInt8} {now : UInt64}
    {channelId : UInt32} {peerCertHash : String} {exchange : PchatKeyExchange}
    (hsent : ((s.clients x).approveKeyShare (setup.account x) nonce now channelId
      peerCertHash).2 = some exchange) {key : ChannelKey}
    (hkey : unwrapKey (setup.identity exchange.recipientHash).crypto
      (setup.identity exchange.senderHash).dhPublic exchange.encryptedKey = .ok key) :
    s.Exists setup exchange.channelId key := by
  obtain ⟨pchat, hpchat, peer, hpeer, requestId, distributed, hdistributed, rfl⟩ :=
    Participant.approveKeyShare_sent (setup.account x) hsent
  rw [h.peers x peerCertHash peer ⟨pchat, hpchat, hpeer⟩] at hdistributed
  obtain ⟨hchannel, hrecipient, held, trust, harchive, hopens⟩ :=
    KeyManager.unwrapKey_distributeKey hlawful hdistributed
  rw [← hrecipient] at hopens
  cases hopens.symm.trans hkey
  refine .inl ⟨x, .inl ⟨trust, ?_⟩⟩
  rw [Participant.archiveKey_of_pchat hpchat]
  exact hchannel ▸ harchive

theorem exists_step (hlawful : LawfulIdentities setup.identity) {s : System} {event : Event}
    (h : Consistent setup s) {c : UInt32} {key : ChannelKey}
    (hafter : (s.step setup event).Exists setup c key) :
    s.Exists setup c key ∨
      ∃ x, s.storesOwnKey event = some (x, c) ∧ key = setup.deriveArchiveKey x c := by
  have hsame : ∀ y exchange, (y, Payload.keyExchange exchange) ∈ s.inFlight →
      exchange.channelId = c → unwrapKey (setup.identity y).crypto
        (setup.identity exchange.senderHash).dhPublic exchange.encryptedKey = .ok key →
          s.Exists setup c key := fun y exchange hmem hchannel hkey =>
    .inr ⟨y, exchange, hmem, hchannel, hkey⟩
  cases event with
  | input x input =>
      simp only [step] at hafter
      split at hafter
      · have hgains : Participant.Gains _ _ (fun _ _ => False) (fun _ _ => False) :=
          Participant.gains_handle (setup.account x) (s.clients x) input
        exact (exists_setClient hafter rfl hgains hsame).imp_right False.elim
      · exact .inl hafter
  | approveKeyShare x nonce now channelId peerCertHash =>
      have hgains : Participant.Gains _ _ (fun _ _ => False) (fun _ _ => False) :=
        Participant.gains_approveKeyShare (setup.account x) nonce now (s.clients x) channelId
          peerCertHash
      refine (exists_setClient hafter rfl hgains fun y exchange hmem hchannel hkey =>
        ?_).imp_right False.elim
      rcases List.mem_append.mp hmem with hold | hnew
      · exact hsame y exchange hold hchannel hkey
      · rw [Option.mem_toList, Option.map_eq_some_iff] at hnew
        obtain ⟨sent, hsent, heq⟩ := hnew
        cases heq
        exact hchannel ▸ exists_of_approved hlawful h hsent hkey
  | runTask x task now bridgeLoads =>
      have hgains : Participant.Gains _ _ _ (fun _ _ => False) :=
        Participant.gains_runTask (setup.account x) bridgeLoads (s.clients x) task
      rcases exists_setClient hafter rfl hgains hsame with hbefore | ⟨op, hnext, hstores, hkey⟩
      · exact .inl hbefore
      · refine .inr ⟨x, ?_, hkey⟩
        simp only [storesOwnKey, hnext, Option.bind_some, hstores, Option.map_some]
  | forwardAnnounce index recipient =>
      rcases hafter with hholds | ⟨y, exchange, hmem, hchannel, hkey⟩
      · exact .inl (.inl hholds)
      · rcases List.mem_append.mp hmem with hold | hnew
        · exact .inl (hsame y exchange hold hchannel hkey)
        · rw [Option.mem_toList, Option.map_eq_some_iff] at hnew
          obtain ⟨announce, -, heq⟩ := hnew
          cases heq
  | deliver index responseOrder groupOrder hasPlaceholders =>
      simp only [step] at hafter
      split at hafter
      · next x payload hindex =>
          have hpayload : (x, payload) ∈ s.inFlight := List.mem_of_getElem? hindex
          cases payload with
          | keyAnnounce announce =>
              have hgains : Participant.Gains _ _ (fun _ _ => False) _ :=
                Participant.gains_handleKeyAnnounce (setup.account x) (s.clients x) announce
              exact (exists_setClient hafter rfl hgains fun y exchange hmem =>
                hsame y exchange (List.mem_of_mem_eraseIdx hmem)).imp_right False.elim
          | keyExchange exchange =>
              have hgains : Participant.Gains _ _ _ (fun _ _ => False) :=
                Participant.gains_handleKeyExchange (setup.account x) responseOrder groupOrder
                  hasPlaceholders exchange (h.nothingPending x)
              rcases exists_setClient hafter rfl hgains fun y exchange hmem =>
                  hsame y exchange (List.mem_of_mem_eraseIdx hmem) with
                hbefore | ⟨rfl, pchat, hpchat, haccepts⟩
              · exact .inl hbefore
              · obtain ⟨peer, hpeer, hopens⟩ := KeyManager.unwrapKey_of_accepts haccepts
                rw [h.peers x exchange.senderHash peer ⟨pchat, hpchat, hpeer⟩] at hopens
                exact .inl (hsame x exchange hpayload rfl hopens)
      · exact .inl hafter

theorem identityPublic_of_announcement {x : String} {now : UInt64} {cl : Participant}
    {task : Nat} {announce : PchatKeyAnnounce}
    (h : cl.announcement (setup.account x) now task = some announce) :
    announce.identityPublic = (setup.identity announce.certHash).dhPublic := by
  unfold Participant.announcement at h
  split at h
  · cases h
    rfl
  · cases h

/-- What the clients know of each other stays right, and nothing waits. -/
theorem peers_step {s : System} (event : Event) (h : Consistent setup s) :
    (∀ x hash peer, ((s.step setup event).clients x).Knows hash peer →
        peer.dhPublic = (setup.identity hash).dhPublic) ∧
      ∀ x, ((s.step setup event).clients x).NothingPending := by
  have hclient : ∀ {x cl}, Participant.Gains (s.clients x) cl (fun _ _ => True)
      (fun hash peer => peer.dhPublic = (setup.identity hash).dhPublic) →
        (∀ y hash peer, ((s.setClient x cl).clients y).Knows hash peer →
          peer.dhPublic = (setup.identity hash).dhPublic) ∧
        ∀ y, ((s.setClient x cl).clients y).NothingPending := by
    intro x cl hgains
    refine ⟨fun y hash peer hknows => ?_, nothingPending_setClient hgains h.nothingPending⟩
    exact (knows_setClient hgains hknows).elim (h.peers y hash peer) id
  have hsame := And.intro h.peers h.nothingPending
  cases event with
  | input x input =>
      simp only [step]
      split
      · exact hclient (Participant.gains_handle (setup.account x) (s.clients x) input)
      · exact hsame
  | approveKeyShare x nonce now channelId peerCertHash =>
      exact hclient (Participant.gains_approveKeyShare (setup.account x) nonce now (s.clients x)
        channelId peerCertHash)
  | runTask x task now bridgeLoads =>
      exact hclient ((Participant.gains_runTask (setup.account x) bridgeLoads (s.clients x)
        task).imp (fun _ _ _ => trivial) fun _ _ => id)
  | forwardAnnounce index recipient => exact hsame
  | deliver index responseOrder groupOrder hasPlaceholders =>
      simp only [step]
      split
      · next x payload hindex =>
          cases payload with
          | keyAnnounce announce =>
              have hright := h.forwarded x announce (List.mem_of_getElem? hindex)
              refine hclient ((Participant.gains_handleKeyAnnounce (setup.account x)
                (s.clients x) announce).imp (fun _ _ => id) ?_)
              rintro hash peer ⟨rfl, hdh⟩
              exact hdh.trans hright
          | keyExchange exchange =>
              exact hclient ((Participant.gains_handleKeyExchange (setup.account x)
                responseOrder groupOrder hasPlaceholders exchange (h.nothingPending x)).imp
                  (fun _ _ _ => trivial) fun _ _ => id)
      · exact hsame

theorem announces_step {s : System} (event : Event) (h : Consistent setup s) :
    (∀ announce ∈ (s.step setup event).announces,
        announce.identityPublic = (setup.identity announce.certHash).dhPublic) ∧
      ∀ x announce, (x, .keyAnnounce announce) ∈ (s.step setup event).inFlight →
        announce.identityPublic = (setup.identity announce.certHash).dhPublic := by
  have hsame := And.intro h.announced h.forwarded
  cases event with
  | input x input =>
      simp only [step]
      split <;> exact hsame
  | approveKeyShare x nonce now channelId peerCertHash =>
      refine ⟨h.announced, fun y announce hmem => ?_⟩
      rcases List.mem_append.mp hmem with hold | hnew
      · exact h.forwarded y announce hold
      · rw [Option.mem_toList, Option.map_eq_some_iff] at hnew
        obtain ⟨exchange, -, heq⟩ := hnew
        cases heq
  | runTask x task now bridgeLoads =>
      refine ⟨fun announce hmem => ?_, h.forwarded⟩
      rcases List.mem_append.mp hmem with hold | hnew
      · exact h.announced announce hold
      · rw [Option.mem_toList] at hnew
        exact identityPublic_of_announcement hnew
  | forwardAnnounce index recipient =>
      refine ⟨h.announced, fun y announce hmem => ?_⟩
      rcases List.mem_append.mp hmem with hold | hnew
      · exact h.forwarded y announce hold
      · rw [Option.mem_toList, Option.map_eq_some_iff] at hnew
        obtain ⟨announced, hindex, heq⟩ := hnew
        cases heq
        exact h.announced announce (List.mem_of_getElem? hindex)
  | deliver index responseOrder groupOrder hasPlaceholders =>
      simp only [step]
      split
      · exact ⟨h.announced, fun y announce hmem =>
          h.forwarded y announce (List.mem_of_mem_eraseIdx hmem)⟩
      · exact hsame

/-- Where a client stores the only key of a channel, all keys of the channel before and after the
event are the same. -/
theorem oneKey_step (hlawful : LawfulIdentities setup.identity) {s : System} {event : Event}
    (h : Consistent setup s) (honly : s.StoresOnlyKey setup event) {c : UInt32}
    {key key' : ChannelKey}
    (hkey : s.Exists setup c key ∨ (s.step setup event).Exists setup c key)
    (hkey' : (s.step setup event).Exists setup c key') : key = key' := by
  have hold : s.Exists setup c key ∨
      ∃ x, s.storesOwnKey event = some (x, c) ∧ key = setup.deriveArchiveKey x c :=
    hkey.elim .inl (exists_step hlawful h)
  rcases exists_step hlawful h hkey' with hbefore' | ⟨x', hstores', rfl⟩
  · rcases hold with hbefore | ⟨x, hstores, rfl⟩
    · exact h.oneKey c key key' hbefore hbefore'
    · exact (honly x c hstores key' hbefore').symm
  · rcases hold with hbefore | ⟨x, hstores, rfl⟩
    · exact honly x' c hstores' key hbefore
    · cases hstores.symm.trans hstores'
      rfl

theorem consistent_step (hlawful : LawfulIdentities setup.identity) {s : System}
    {event : Event} (h : Consistent setup s) (honly : s.StoresOnlyKey setup event) :
    Consistent setup (s.step setup event) where
  announced := (announces_step event h).1
  forwarded := (announces_step event h).2
  peers := (peers_step event h).1
  nothingPending := (peers_step event h).2
  oneKey := fun _ _ _ hkey hkey' => oneKey_step hlawful h honly (.inr hkey) hkey'

theorem exists_of_archiveKey {s : System} {x : String} {c : UInt32} {key : ChannelKey}
    {trust : KeyTrustLevel} (h : (s.clients x).archiveKey c = some (key, trust)) :
    s.Exists setup c key :=
  .inl ⟨x, Participant.holds_of_archiveKey h⟩

theorem Consistent.membersAgree {s : System} (h : Consistent setup s) : s.MembersAgree := by
  intro _ c x y _ _ key key' hkey hkey'
  exact h.oneKey c key key' (exists_of_archiveKey hkey) (exists_of_archiveKey hkey')

theorem keepsReceived_of_storesOnlyKey (hlawful : LawfulIdentities setup.identity) {s : System}
    {event : Event} (h : Consistent setup s) (honly : s.StoresOnlyKey setup event) :
    s.KeepsReceived setup event := by
  intro x c key trust hkey _ key' trust' hkey'
  exact .inl (oneKey_step hlawful h honly (.inl (exists_of_archiveKey hkey))
    (exists_of_archiveKey hkey')).symm

/-- In every run in which clients store their own keys only as the only keys of their
channels, the members agree after each event, and received keys are kept. -/
theorem members_agree_run {setup : Setup} (hlawful : LawfulIdentities setup.identity)
    (events : List Event)
    (honly : Along (step setup) (StoresOnlyKey setup) {} events) :
    Along (step setup)
      (fun s event => (s.step setup event).MembersAgree ∧ s.KeepsReceived setup event) {}
      events :=
  along_of_invariant (fun _ _ => consistent_step hlawful)
    (fun _ _ h honly =>
      ⟨(consistent_step hlawful h honly).membersAgree,
        keepsReceived_of_storesOnlyKey hlawful h honly⟩)
    consistent_initial honly

/-! ## A second key of a channel -/

/-- What a client that stores its own key holds afterwards; nothing else changes. -/
theorem step_of_storesOwnKey {s : System} {event : Event} {x : String} {c : UInt32}
    (h : s.storesOwnKey event = some (x, c)) :
    ((s.step setup event).clients x).archiveKey c =
        some (setup.deriveArchiveKey x c, .verified) ∧
      ((s.step setup event).clients x).accepted = (s.clients x).accepted ∧
      (∀ y, ((s.step setup event).clients y).shared.currentChannel =
        (s.clients y).shared.currentChannel) ∧
      (∀ y, y ≠ x → (s.step setup event).clients y = s.clients y) ∧
      (s.step setup event).inFlight = s.inFlight := by
  cases event with
  | runTask x' task now bridgeLoads =>
      simp only [storesOwnKey, Option.map_eq_some_iff, Option.bind_eq_some_iff] at h
      obtain ⟨c', ⟨op, hnext, hstores⟩, heq⟩ := h
      cases heq
      obtain ⟨ops, htask, hop⟩ := Option.bind_eq_some_iff.mp hnext
      obtain ⟨rest, rfl⟩ := List.head?_eq_some_iff.mp hop
      obtain ⟨hexec, hpchat⟩ :=
        Participant.execOp_of_storesOwnKey (setup.account x) bridgeLoads hstores
      have hself : ((s.step setup (.runTask x task now bridgeLoads)).clients x) =
          { (s.clients x).storeDerivedKey (setup.account x) c with
            tasks := (s.clients x).tasks.set task
              ((s.clients x).afterOp (setup.account x) bridgeLoads op rest) } := by
        show Function.update s.clients x _ x = _
        rw [Function.update_self]
        simp only [Participant.runTask, htask, hexec]
      have hother : ∀ y, y ≠ x →
          (s.step setup (.runTask x task now bridgeLoads)).clients y = s.clients y :=
        fun y hy => Function.update_of_ne hy _ _
      refine ⟨?_, ?_, fun y => ?_, hother, rfl⟩
      · rw [hself]
        exact Participant.archiveKey_storeDerivedKey (setup.account x) (s.clients x) c hpchat
      · rw [hself]
        rfl
      · by_cases hy : y = x
        · rw [hy, hself]
          rfl
        · rw [hother y hy]
  | _ => cases h

theorem not_membersAgree_of_storesOwnKey {s : System} {event : Event} {x y : String}
    {c : UInt32} {key : ChannelKey} (hflight : s.inFlight = []) (hx : s.IsMember x c)
    (hy : s.IsMember y c) (hne : y ≠ x)
    (hverified : (s.clients y).archiveKey c = some (key, .verified))
    (hkey : key ≠ setup.deriveArchiveKey x c) (h : s.storesOwnKey event = some (x, c)) :
    ¬(s.step setup event).MembersAgree := by
  obtain ⟨hstored, -, hchannel, hother, hflight'⟩ := @step_of_storesOwnKey setup _ _ _ _ h
  intro hagree
  refine hkey (hagree (hflight'.trans hflight) c y x ?_ ?_ key _ ?_ hstored)
  · exact (hchannel y).trans hy
  · exact (hchannel x).trans hx
  · rw [hother y hne]
    exact hverified

theorem not_keepsReceived_of_storesOwnKey {s : System} {event : Event} {x : String}
    {c : UInt32} {key : ChannelKey} {trust : KeyTrustLevel}
    (hheld : (s.clients x).archiveKey c = some (key, trust)) (hreceived : s.Received x c key)
    (hkey : key ≠ setup.deriveArchiveKey x c)
    (hown : ¬s.Received x c (setup.deriveArchiveKey x c))
    (h : s.storesOwnKey event = some (x, c)) : ¬s.KeepsReceived setup event := by
  obtain ⟨hstored, haccepted, -⟩ := @step_of_storesOwnKey setup _ _ _ _ h
  intro hkeeps
  rcases hkeeps x c key trust hheld hreceived _ _ hstored with heq | ⟨sender, hsender⟩
  · exact hkey heq.symm
  · exact hown ⟨sender, haccepted ▸ hsender⟩

/-! ## The first key of a channel -/

/-- Keys come from clients that store their own: before the first one there is none. -/
theorem not_exists_run (hlawful : LawfulIdentities setup.identity) {events : List Event}
    (hnone : Along (step setup) (fun s event => s.storesOwnKey event = none) {} events) :
    ∀ c key, ¬(run (step setup) {} events).Exists setup c key := by
  have hstep : ∀ s event, (Consistent setup s ∧ ∀ c key, ¬s.Exists setup c key) →
      s.storesOwnKey event = none → Consistent setup (s.step setup event) ∧
        ∀ c key, ¬(s.step setup event).Exists setup c key := by
    intro s event hs hstores
    refine ⟨consistent_step hlawful hs.1 fun x c hstored => ?_, fun c key hafter => ?_⟩
    · cases hstores.symm.trans hstored
    · rcases exists_step hlawful hs.1 hafter with hbefore | ⟨x, hstored, -⟩
      · exact hs.2 c key hbefore
      · cases hstores.symm.trans hstored
  exact (invariant_run hstep ⟨consistent_initial, not_exists_initial⟩ hnone).2

theorem along_storesOnlyKey_of_none {s : System} {events : List Event}
    (h : Along (step setup) (fun s event => s.storesOwnKey event = none) s events) :
    Along (step setup) (StoresOnlyKey setup) s events :=
  along_mono (fun _ _ hnone _ _ hstores => nomatch hnone.symm.trans hstores) h

theorem along_storesOnlyKey_of_first (hlawful : LawfulIdentities setup.identity)
    {before after : List Event} {event : Event}
    (hbefore : Along (step setup) (fun s event => s.storesOwnKey event = none) {} before)
    (hafter : Along (step setup) (fun s event => s.storesOwnKey event = none)
      ((run (step setup) {} before).step setup event) after) :
    Along (step setup) (StoresOnlyKey setup) {} (before ++ event :: after) := by
  rw [along_append]
  refine ⟨along_storesOnlyKey_of_none hbefore, fun x c _ key hexists => ?_,
    along_storesOnlyKey_of_none hafter⟩
  exact absurd hexists (not_exists_run hlawful hbefore c key)

section Example

private def twoSeeds : Setup where
  identity := fun _ => .plain
  deriveArchiveKey := fun x _ => .replicate (if x = "anna" then 1 else 2)
  identityDir := fun _ => true

private def connects (x : String) (session : UInt32) (y : String) (other : UInt32) :
    List Event :=
  [.input x (.userState session (some x) (some 0)), .input x (.userState other (some y) (some 0)),
    .input x (.serverSync session true), .runTask x 0 0 false, .runTask x 0 0 false]

private def bothConnect : List Event :=
  connects "anna" 1 "bert" 2 ++ connects "bert" 2 "anna" 1 ++
    [.forwardAnnounce 0 "bert", .deliver 0 .listed .listed false,
      .forwardAnnounce 1 "anna", .deliver 0 .listed .listed false]

private def findsNoKey (x : String) : List Event :=
  [.input x (.channelState 0 (some .fancyV1FullArchive) []), .runTask x 1 0 false,
    .runTask x 1 0 false]

private def annaShares : List Event :=
  [.input "anna" (.keyRequest 0 "bert" "request"), .approveKeyShare "anna" [] 0 0 "bert"]

/-- The first client derives a key, and the second one receives it before it looks. -/
theorem members_agree_example :
    Along (step twoSeeds)
      (fun s event =>
        (s.step twoSeeds event).MembersAgree ∧ s.KeepsReceived twoSeeds event) {}
      ((bothConnect ++ findsNoKey "anna") ++ .runTask "anna" 1 0 false ::
        (annaShares ++ [.deliver 0 .listed .listed false] ++ findsNoKey "bert")) :=
  members_agree_run lawfulIdentities_plain _
    (along_storesOnlyKey_of_first lawfulIdentities_plain (by decide) (by decide))

/-- Two clients that find no key derive one each. A client that receives a key after it
has found none replaces it by its own. -/
theorem members_disagree :
    (¬∀ (setup : Setup) (events : List Event), LawfulIdentities setup.identity →
        (run (step setup) {} events).MembersAgree) ∧
      ¬∀ (setup : Setup) (events : List Event), LawfulIdentities setup.identity →
        Along (step setup) (KeepsReceived setup) {} events := by
  constructor
  · intro h
    have hagree := h twoSeeds
      (bothConnect ++ findsNoKey "anna" ++ [.runTask "anna" 1 0 false] ++ findsNoKey "bert" ++
        [.runTask "bert" 1 0 false]) lawfulIdentities_plain
    exact absurd (hagree rfl 0 "anna" "bert" rfl rfl (.replicate 1) (.replicate 2) rfl rfl)
      (by decide)
  · intro h
    have hkeeps := h twoSeeds
      ((bothConnect ++ findsNoKey "anna" ++ [.runTask "anna" 1 0 false] ++ annaShares ++
        findsNoKey "bert" ++ [.deliver 0 .listed .listed false]) ++
          [.runTask "bert" 1 0 false]) lawfulIdentities_plain
    rw [along_append] at hkeeps
    rcases hkeeps.2.1 "bert" 0 (.replicate 1) .verified rfl ⟨"anna", List.mem_cons_self⟩
        (.replicate 2) .verified rfl with heq | ⟨sender, hreceived⟩
    · exact absurd heq (by decide)
    · have haccepted : (0, sender, ChannelKey.replicate 2) ∈
          [((0 : UInt32), "anna", ChannelKey.replicate 1)] := hreceived
      have hkey : ChannelKey.replicate 2 = .replicate 1 :=
        congrArg (fun entry => entry.2.2) (List.mem_singleton.mp haccepted)
      exact absurd hkey (by decide)

end Example

end System

end FancyMumble.Client
