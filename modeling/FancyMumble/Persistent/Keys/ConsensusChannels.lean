import FancyMumble.Persistent.Keys.TrustKept

/-!
# Consensus and channels

Responses are collected by request, the signature of an exchange covers a channel, and an
evaluation is told a request and a channel. Where does each response that is counted for a
channel come from? A trace of the run keeps the exchange behind every response and the
channel for which each collection was opened.
-/

namespace FancyMumble.Persistent

open Lib.Grouping Lib.Runs

namespace KeyManager

def acceptedKey (crypto : Crypto) (km : KeyManager) (exchange : PchatKeyExchange)
    (requestTimestamp : Option UInt64) : Option ChannelKey :=
  match km.openKeyExchange crypto exchange requestTimestamp with
  | .ok key =>
      if PchatProtocol.fromWireStr exchange.protocol = .fancyV1FullArchive then some key
      else none
  | .error _ => none

variable {crypto : Crypto} {km : KeyManager} {exchange : PchatKeyExchange}
  {requestTimestamp : Option UInt64} {key : ChannelKey}

theorem acceptedKey_eq_some :
    km.acceptedKey crypto exchange requestTimestamp = some key ↔
      km.Accepts crypto exchange requestTimestamp key := by
  unfold acceptedKey Accepts
  cases km.openKeyExchange crypto exchange requestTimestamp with
  | error e => simp
  | ok opened => by_cases hprotocol :
      PchatProtocol.fromWireStr exchange.protocol = .fancyV1FullArchive <;> simp [hprotocol]

end KeyManager

/-- A key manager, with the exchange and the key behind the response of each sender to each
request, and the channel for which the first response to a request was collected. -/
structure CollectingState where
  keyManager : KeyManager
  source : String → String → Option (PchatKeyExchange × ChannelKey) := fun _ _ => none
  openedFor : String → Option UInt32 := fun _ => none

namespace CollectingState

def collect (s : CollectingState) (exchange : PchatKeyExchange) (requestId : String)
    (key : ChannelKey) : CollectingState :=
  { s with
    source := Function.update s.source requestId
      (Function.update (s.source requestId) exchange.senderHash (some (exchange, key)))
    openedFor := Function.update s.openedFor requestId
      (some ((s.openedFor requestId).getD exchange.channelId)) }

def close (s : CollectingState) (requestId : String) : CollectingState :=
  { s with
    source := Function.update s.source requestId fun _ => none
    openedFor := Function.update s.openedFor requestId none }

def trace (crypto : Crypto) (s : CollectingState) : KeyEvent → CollectingState
  | .keyExchange exchange requestTimestamp =>
      match exchange.requestId, s.keyManager.acceptedKey crypto exchange requestTimestamp with
      | some requestId, some key => s.collect exchange requestId key
      | _, _ => s
  | .evaluate _ _ requestId _ _ => s.close requestId
  | .userVerifies _ | .removeChannel _ => s

def step (crypto : Crypto) (s : CollectingState) (event : KeyEvent) : CollectingState :=
  { s.trace crypto event with keyManager := s.keyManager.step crypto event }

def start (km : KeyManager) : CollectingState where
  keyManager := { km with pendingConsensus := fun _ => none }

/-- The response of a sender to a request is the key of an exchange that was accepted and
signed for a channel. -/
def SignedFor (crypto : Crypto) (s : CollectingState) (requestId sender : String)
    (key : ChannelKey) (channelId : UInt32) : Prop :=
  ∃ exchange, s.source requestId sender = some (exchange, key) ∧
    exchange.channelId = channelId ∧ exchange.senderHash = sender ∧
    ∃ km requestTimestamp, KeyManager.Accepts crypto km exchange requestTimestamp key

/-- An evaluation for a channel counts and stores only what was signed for the channel. -/
def IsolatesChannels (crypto : Crypto) (s : CollectingState) : KeyEvent → Prop
  | .evaluate responseOrder groupOrder requestId channelId keyCustodians =>
      (∀ collector, s.keyManager.pendingConsensus requestId = some collector →
        ∀ response ∈ collector.responses.entries,
          s.SignedFor crypto requestId response.1 response.2 channelId) ∧
      ∀ trust key, (s.keyManager.evaluateConsensus responseOrder groupOrder requestId channelId
          keyCustodians).2 = .ok (trust, some key) →
        ∃ sender, s.SignedFor crypto requestId sender key channelId
  | .keyExchange _ _ | .userVerifies _ | .removeChannel _ => True

/-- The event names a request for the channel for which its collection was opened: an
exchange with the channel that it is signed for, an evaluation with the channel that it
decides about. -/
def NamesOwnChannel (crypto : Crypto) (s : CollectingState) : KeyEvent → Prop
  | .keyExchange exchange requestTimestamp =>
      ∀ requestId ∈ exchange.requestId, ∀ c ∈ s.openedFor requestId,
        (∃ key, s.keyManager.Accepts crypto exchange requestTimestamp key) →
          exchange.channelId = c
  | .evaluate _ _ requestId channelId _ => ∀ c ∈ s.openedFor requestId, channelId = c
  | .userVerifies _ | .removeChannel _ => True

/-- Every collected response was signed for the channel for which its collection was
opened. -/
def Traced (crypto : Crypto) (s : CollectingState) : Prop :=
  ∀ requestId collector, s.keyManager.pendingConsensus requestId = some collector →
    ∀ response ∈ collector.responses.entries, ∃ c, s.openedFor requestId = some c ∧
      s.SignedFor crypto requestId response.1 response.2 c

variable {crypto : Crypto} {s : CollectingState}

theorem traced_start (crypto : Crypto) (km : KeyManager) : (start km).Traced crypto :=
  nofun

theorem isolatesChannels_of_traced (hs : s.Traced crypto) {event : KeyEvent}
    (hnames : s.NamesOwnChannel crypto event) : s.IsolatesChannels crypto event := by
  cases event with
  | keyExchange exchange requestTimestamp => trivial
  | userVerifies channelId => trivial
  | removeChannel channelId => trivial
  | evaluate responseOrder groupOrder requestId channelId keyCustodians =>
      have hvotes : ∀ collector, s.keyManager.pendingConsensus requestId = some collector →
          ∀ response ∈ collector.responses.entries,
            s.SignedFor crypto requestId response.1 response.2 channelId := by
        intro collector hpending response hresponse
        obtain ⟨c, hopened, hsigned⟩ := hs requestId collector hpending response hresponse
        rwa [hnames c hopened]
      refine ⟨hvotes, fun trust key hresult => ?_⟩
      rcases s.keyManager.evaluateConsensus_cases responseOrder groupOrder requestId channelId
          keyCustodians with
        ⟨-, e, hstep⟩ | ⟨collector, hpending, ⟨-, hstep⟩ |
          ⟨stored, trust', -, ⟨sender, hsent⟩, -, hstep⟩⟩
      · rw [hstep] at hresult
        cases hresult
      · rw [hstep] at hresult
        cases hresult
      · rw [hstep] at hresult
        cases hresult
        exact ⟨sender, hvotes collector hpending _ hsent⟩

theorem traced_collect (hs : s.Traced crypto) {exchange : PchatKeyExchange}
    {requestTimestamp : Option UInt64} {requestId : String} {key : ChannelKey}
    (haccepts : s.keyManager.Accepts crypto exchange requestTimestamp key)
    (hown : ∀ c ∈ s.openedFor requestId, exchange.channelId = c) :
    Traced crypto
      { s.collect exchange requestId key with
        keyManager := s.keyManager.setCollector requestId
          (s.keyManager.collectedBy exchange requestId key requestTimestamp) } := by
  intro r collector hpending response hresponse
  by_cases hr : r = requestId
  · subst hr
    rw [KeyManager.setCollector_pendingConsensus, Function.update_self] at hpending
    cases hpending
    have hopened : (s.openedFor r).getD exchange.channelId = exchange.channelId := by
      cases hopen : s.openedFor r with
      | none => rfl
      | some c => exact (hown c hopen).symm
    refine ⟨exchange.channelId, ?_, ?_⟩
    · simp only [collect, Function.update_self, hopened]
    · by_cases hsender : response.1 = exchange.senderHash
      · -- the response of the exchange itself
        have hkey : response.2 = key := by
          obtain ⟨sender, key'⟩ := response
          subst hsender
          have hlookup := AList.mem_lookup_iff.mpr hresponse
          rw [KeyManager.collectedBy, AList.lookup_insert] at hlookup
          exact (Option.some.inj hlookup).symm
        rw [hsender, hkey]
        refine ⟨exchange, ?_, rfl, rfl, s.keyManager, requestTimestamp, haccepts⟩
        simp only [collect, Function.update_self]
      · -- a response from before
        obtain ⟨sender, key'⟩ := response
        have hlookup := AList.mem_lookup_iff.mpr hresponse
        rw [KeyManager.collectedBy, AList.lookup_insert_ne hsender] at hlookup
        unfold KeyManager.collectorOf at hlookup
        cases hbefore : s.keyManager.pendingConsensus r with
        | none =>
            rw [hbefore] at hlookup
            cases hlookup
        | some earlier =>
            rw [hbefore] at hlookup
            obtain ⟨c, hopen, sent, hsource, hchannel, hsent⟩ :=
              hs r earlier hbefore ⟨sender, key'⟩ (AList.mem_lookup_iff.mp hlookup)
            refine ⟨sent, ?_, hchannel.trans (hown c hopen).symm, hsent⟩
            simp only [collect, Function.update_self, Function.update_of_ne hsender]
            exact hsource
  · rw [KeyManager.setCollector_pendingConsensus, Function.update_of_ne hr] at hpending
    obtain ⟨c, hopened, hsigned⟩ := hs r collector hpending response hresponse
    refine ⟨c, ?_, ?_⟩
    · simp only [collect, Function.update_of_ne hr]
      exact hopened
    · simpa only [SignedFor, collect, Function.update_of_ne hr] using hsigned

theorem traced_close (hs : s.Traced crypto) {requestId : String} {km : KeyManager}
    (hclosed : km.pendingConsensus requestId = none)
    (hothers : ∀ r, r ≠ requestId →
      km.pendingConsensus r = s.keyManager.pendingConsensus r) :
    Traced crypto { s.close requestId with keyManager := km } := by
  intro r collector hpending response hresponse
  by_cases hr : r = requestId
  · rw [hr] at hpending
    exact absurd (hpending.symm.trans hclosed) nofun
  · obtain ⟨c, hopened, hsigned⟩ :=
      hs r collector ((hothers r hr).symm.trans hpending) response hresponse
    refine ⟨c, ?_, ?_⟩
    · simp only [close, Function.update_of_ne hr]
      exact hopened
    · simpa only [SignedFor, close, Function.update_of_ne hr] using hsigned

theorem traced_step (hs : s.Traced crypto) {event : KeyEvent}
    (hnames : s.NamesOwnChannel crypto event) : (s.step crypto event).Traced crypto := by
  cases event with
  | keyExchange exchange requestTimestamp =>
      simp only [step, trace, KeyManager.step]
      rcases s.keyManager.receiveKeyExchange_cases crypto exchange requestTimestamp with
        ⟨hnone, e, hstep⟩ | ⟨key, haccepts, ⟨requestId, hrequest, hstep⟩ | ⟨hrequest, hstep⟩⟩
      · have hkey : s.keyManager.acceptedKey crypto exchange requestTimestamp = none := by
          rw [Option.eq_none_iff_forall_ne_some]
          exact fun key hkey => hnone key (KeyManager.acceptedKey_eq_some.mp hkey)
        rw [hstep, hkey]
        split
        next hsome => cases hsome
        · exact hs
      · rw [hstep, hrequest, KeyManager.acceptedKey_eq_some.mpr haccepts]
        exact traced_collect hs haccepts fun c hc =>
          hnames requestId hrequest c hc ⟨key, haccepts⟩
      · rw [hstep, hrequest]
        exact hs
  | evaluate responseOrder groupOrder requestId channelId keyCustodians =>
      simp only [step, trace, KeyManager.step]
      rcases s.keyManager.evaluateConsensus_cases responseOrder groupOrder requestId channelId
          keyCustodians with
        ⟨hnone, e, hstep⟩ | ⟨collector, hpending, ⟨-, hstep⟩ | ⟨key, trust, -, -, -, hstep⟩⟩
      · rw [hstep]
        exact traced_close hs hnone fun r hr => rfl
      all_goals
        rw [hstep]
        refine traced_close hs (Function.update_self _ _ _) fun r hr => ?_
        exact Function.update_of_ne hr _ _
  | userVerifies channelId =>
      have hpending : (s.keyManager.resolveDispute channelId .fancyV1FullArchive).1.pendingConsensus
          = s.keyManager.pendingConsensus := by
        rcases Option.eq_none_or_eq_some (s.keyManager.archiveKeys channelId) with
          hstored | ⟨⟨key, trust⟩, hstored⟩
        · rw [KeyManager.resolveDispute_of_none hstored]
        · rw [KeyManager.resolveDispute_of_some hstored]
          rfl
      intro requestId collector hcollector
      exact hs requestId collector (hpending ▸ hcollector)
  | removeChannel channelId => exact hs

/-- In a run in which requests are named for their own channels, consensus isolates
channels. -/
theorem isolatesChannels_run (crypto : Crypto) (km : KeyManager) (events : List KeyEvent)
    (hnames : Along (step crypto) (NamesOwnChannel crypto) (start km) events) :
    Along (step crypto) (IsolatesChannels crypto) (start km) events := by
  have hstep : ∀ s event, Traced crypto s → NamesOwnChannel crypto s event →
      (s.step crypto event).Traced crypto := fun s event hs hown => traced_step hs hown
  exact along_of_invariant hstep (fun s event hs hown => isolatesChannels_of_traced hs hown)
    (traced_start crypto km) hnames

/-! ## The handler -/

/-- What the client does with its key manager: it handles exchanges, and the user verifies
and leaves channels. -/
inductive Handled where
  | keyExchange (exchange : PchatKeyExchange) (responseOrder groupOrder : HashOrder)
  | userVerifies (channelId : UInt32)
  | removeChannel (channelId : UInt32)

/-- `try_accept_key_exchange` evaluates an accepted answer at once, for its own channel. -/
def handledEvents (crypto : Crypto) (s : CollectingState) : Handled → List KeyEvent
  | .keyExchange exchange responseOrder groupOrder =>
      .keyExchange exchange none ::
        match exchange.requestId, s.keyManager.acceptedKey crypto exchange none with
        | some requestId, some _ =>
            [.evaluate responseOrder groupOrder requestId exchange.channelId []]
        | _, _ => []
  | .userVerifies channelId => [.userVerifies channelId]
  | .removeChannel channelId => [.removeChannel channelId]

def clientEvents (crypto : Crypto) : CollectingState → List Handled → List KeyEvent
  | _, [] => []
  | s, handled :: rest =>
      let events := s.handledEvents crypto handled
      events ++ clientEvents crypto (run (step crypto) s events) rest

theorem namesOwnChannel_handled (hs : ∀ requestId, s.openedFor requestId = none)
    (handled : Handled) :
    Along (step crypto) (NamesOwnChannel crypto) s (s.handledEvents crypto handled) ∧
      ∀ requestId,
        (run (step crypto) s (s.handledEvents crypto handled)).openedFor requestId = none := by
  cases handled with
  | userVerifies channelId => exact ⟨⟨trivial, trivial⟩, hs⟩
  | removeChannel channelId => exact ⟨⟨trivial, trivial⟩, hs⟩
  | keyExchange exchange responseOrder groupOrder =>
      have hfirst : s.NamesOwnChannel crypto (.keyExchange exchange none) := by
        intro requestId _ c hc
        rw [hs requestId] at hc
        cases hc
      rw [handledEvents]
      cases hrequest : exchange.requestId with
      | none =>
          refine ⟨⟨hfirst, trivial⟩, fun requestId => ?_⟩
          simp only [run_cons, run_nil, step, trace, hrequest]
          exact hs requestId
      | some requestId =>
          cases hkey : s.keyManager.acceptedKey crypto exchange none with
          | none =>
              refine ⟨⟨hfirst, trivial⟩, fun requestId' => ?_⟩
              simp only [run_cons, run_nil, step, trace, hrequest, hkey]
              exact hs requestId'
          | some key =>
              have hopened : (s.step crypto (.keyExchange exchange none)).openedFor =
                  Function.update s.openedFor requestId (some exchange.channelId) := by
                simp only [step, trace, hrequest, hkey, collect, hs, Option.getD_none]
              refine ⟨⟨hfirst, ?_, trivial⟩, fun requestId' => ?_⟩
              · intro c hc
                rw [hopened, Function.update_self] at hc
                exact Option.some.inj hc
              · change Function.update (s.step crypto (.keyExchange exchange none)).openedFor
                  requestId none requestId' = none
                rw [hopened, Function.update_idem, Function.update_apply]
                split
                · rfl
                · exact hs requestId'

theorem namesOwnChannel_client (hs : ∀ requestId, s.openedFor requestId = none)
    (handled : List Handled) :
    Along (step crypto) (NamesOwnChannel crypto) s (clientEvents crypto s handled) := by
  induction handled generalizing s with
  | nil => trivial
  | cons first rest ih =>
      obtain ⟨hnames, hclosed⟩ := namesOwnChannel_handled hs first
      exact along_append.mpr ⟨hnames, ih hclosed⟩

/-- The client that evaluates every exchange when it arrives isolates channels in every run. -/
theorem isolatesChannels_client (crypto : Crypto) (km : KeyManager) (handled : List Handled) :
    Along (step crypto) (IsolatesChannels crypto) (start km)
      (clientEvents crypto (start km) handled) :=
  isolatesChannels_run crypto km _ (namesOwnChannel_client (fun _ => rfl) handled)

section Example

private def answerFor (channelId : UInt32) : PchatKeyExchange where
  channelId := channelId
  protocol := "FANCY_V1_FULL_ARCHIVE"
  encryptedKey := List.replicate 32 2
  senderHash := "peer"
  recipientHash := "own"
  requestId := some "request"
  timestamp := 0
  signature := []
  epochFingerprint := List.replicate 8 2

def knowsPeer : KeyManager where
  peerKeys := fun hash => if hash = "peer" then some ⟨1, [], [], 0⟩ else none

/-- A collection for a channel is evaluated for the channel. -/
theorem isolatesChannels_run_example :
    Along (step .plain) (IsolatesChannels .plain) (start knowsPeer)
      [.keyExchange (answerFor 7) none, .evaluate .listed .listed "request" 7 []] := by
  refine isolatesChannels_run .plain knowsPeer _ ⟨?_, ?_, trivial⟩
  · rintro requestId - c ⟨⟩
  · rintro c hc
    exact Option.some.inj hc

/-- A key that is signed for channel 7 is stored for channel 8. -/
theorem key_of_other_channel_stored :
    ¬∀ (crypto : Crypto) (km : KeyManager) (events : List KeyEvent),
      Along (step crypto) (IsolatesChannels crypto) (start km) events := by
  intro h
  obtain ⟨-, ⟨-, hstored⟩, -⟩ := h .plain knowsPeer
    [.keyExchange (answerFor 7) none, .evaluate .listed .listed "request" 8 []]
  obtain ⟨sender, exchange, hsource, hchannel, hsender, -⟩ :=
    hstored .verified (.replicate 2) rfl
  have hpeer : sender = "peer" := by
    by_contra hne
    have hnone : ((start knowsPeer).step .plain (.keyExchange (answerFor 7) none)).source
        "request" sender = none := Function.update_of_ne hne _ _
    rw [hnone] at hsource
    cases hsource
  subst hpeer
  cases hsource
  exact absurd hchannel (by decide)

end Example

end CollectingState

end FancyMumble.Persistent
