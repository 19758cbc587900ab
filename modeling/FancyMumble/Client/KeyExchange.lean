import FancyMumble.Lib.Runs
import FancyMumble.Persistent.Keys.Consensus
import FancyMumble.Persistent.Keys.Exchange

/-!
# The key-exchange handler

The handler evaluates the consensus right after each exchange that answers a request.
When does an archive key that becomes verified in this way have the agreement that
its trust level stands for?
-/

namespace FancyMumble.Client

open Lib.Grouping Lib.Runs Persistent

/-! ## The handler -/

/-- `try_accept_key_exchange`: receive an exchange and evaluate its request; whether
there is a usable key afterwards. -/
def tryAcceptKeyExchange (crypto : Crypto) (responseOrder groupOrder : HashOrder)
    (km : KeyManager) (exchange : PchatKeyExchange) : KeyManager × Bool :=
  let channelId := exchange.channelId
  let protocol := PchatProtocol.fromWireStr exchange.protocol
  match km.receiveKeyExchange crypto exchange none with
  | (km, .error _) => (km, false)
  | (km, .ok ()) =>
      let km := km.recordKeyHolder channelId exchange.senderHash
      if protocol = .fancyV1FullArchive then
        match exchange.requestId with
        | some requestId =>
            match km.evaluateConsensus responseOrder groupOrder requestId channelId [] with
            | (km, .ok (_, some _)) => (km, true)
            | (km, .ok (_, none)) => (km, false)
            | (km, .error _) => (km, false)
        | none => (km, km.hasKey channelId protocol)
      else
        (km, km.hasKey channelId protocol)

/-- `handle_proto_key_exchange`, as far as the key manager goes: with a usable key we
are a holder ourselves. -/
def handleKeyExchange (crypto : Crypto) (responseOrder groupOrder : HashOrder)
    (ownCertHash : String) (km : KeyManager) (exchange : PchatKeyExchange) : KeyManager :=
  let (km, keyAccepted) := tryAcceptKeyExchange crypto responseOrder groupOrder km exchange
  if keyAccepted then km.recordKeyHolder exchange.channelId ownCertHash else km

/-- What the handler makes of an exchange: it is rejected, its key becomes the unverified
key of the channel, or the responses to its request decide. -/
inductive Handled (crypto : Crypto) (km : KeyManager) (exchange : PchatKeyExchange) :
    KeyManager → Prop where
  | rejected (hrejected : ∀ key, ¬km.Accepts crypto exchange none key) :
      Handled crypto km exchange km
  | unsolicited {km' : KeyManager} {key : ChannelKey}
      (haccepts : km.Accepts crypto exchange none key) (hrequest : exchange.requestId = none)
      (harchive : km'.archiveKeys =
        Function.update km.archiveKeys exchange.channelId (some (key, .unverified)))
      (hpending : km'.pendingConsensus = km.pendingConsensus)
      (hpeers : km'.peerKeys = km.peerKeys) :
      Handled crypto km exchange km'
  | answered {km' deciding : KeyManager} {key newKey : ChannelKey} {requestId : String}
      {trust : KeyTrustLevel} (haccepts : km.Accepts crypto exchange none key)
      (hrequest : exchange.requestId = some requestId)
      (hsent : ∃ sender, (⟨sender, newKey⟩ : Response) ∈
        (km.collectedBy exchange requestId key none).responses.entries)
      (hdecides : deciding.Decides (km.collectedBy exchange requestId key none)
        exchange.channelId [] newKey trust)
      (harchive : km'.archiveKeys =
        Function.update km.archiveKeys exchange.channelId (some (newKey, trust)))
      (hpending : km'.pendingConsensus = Function.update km.pendingConsensus requestId none)
      (hpeers : km'.peerKeys = km.peerKeys) :
      Handled crypto km exchange km'

theorem Handled.recordKeyHolder {crypto : Crypto} {km km' : KeyManager}
    {exchange : PchatKeyExchange} {c : UInt32} {certHash : String} {key : ChannelKey}
    (haccepts : km.Accepts crypto exchange none key)
    (h : Handled crypto km exchange km') :
    Handled crypto km exchange (km'.recordKeyHolder c certHash) := by
  cases h with
  | rejected hrejected => exact absurd haccepts (hrejected key)
  | unsolicited haccepts hrequest harchive hpending hpeers =>
      exact .unsolicited haccepts hrequest harchive hpending hpeers
  | answered haccepts hrequest hsent hdecides harchive hpending hpeers =>
      exact .answered haccepts hrequest hsent hdecides harchive hpending hpeers

theorem entries_collectedBy_ne_nil (km : KeyManager) (exchange : PchatKeyExchange)
    (requestId : String) (key : ChannelKey) (requestTimestamp : Option UInt64) :
    (km.collectedBy exchange requestId key requestTimestamp).responses.entries ≠ [] := by
  unfold KeyManager.collectedBy
  rw [AList.entries_insert]
  exact List.cons_ne_nil _ _

theorem tryAcceptKeyExchange_answered {crypto : Crypto} {responseOrder groupOrder : HashOrder}
    {km received : KeyManager} {exchange : PchatKeyExchange} {requestId : String}
    (hreceive : km.receiveKeyExchange crypto exchange none = (received, .ok ()))
    (hprotocol : PchatProtocol.fromWireStr exchange.protocol = .fancyV1FullArchive)
    (hrequest : exchange.requestId = some requestId) :
    (tryAcceptKeyExchange crypto responseOrder groupOrder km exchange).1 =
      ((received.recordKeyHolder exchange.channelId exchange.senderHash).evaluateConsensus
        responseOrder groupOrder requestId exchange.channelId []).1 := by
  simp only [tryAcceptKeyExchange, hreceive, hprotocol, hrequest, if_true]
  split <;> next hevaluate => rw [hevaluate]

theorem tryAcceptKeyExchange_unsolicited {crypto : Crypto}
    {responseOrder groupOrder : HashOrder} {km received : KeyManager}
    {exchange : PchatKeyExchange}
    (hreceive : km.receiveKeyExchange crypto exchange none = (received, .ok ()))
    (hrequest : exchange.requestId = none) :
    (tryAcceptKeyExchange crypto responseOrder groupOrder km exchange).1 =
      received.recordKeyHolder exchange.channelId exchange.senderHash := by
  simp only [tryAcceptKeyExchange, hreceive, hrequest]
  split <;> rfl

theorem accepts_of_tryAcceptKeyExchange (crypto : Crypto) (responseOrder groupOrder : HashOrder)
    (km : KeyManager) (exchange : PchatKeyExchange)
    (h : (tryAcceptKeyExchange crypto responseOrder groupOrder km exchange).2 = true) :
    ∃ key, km.Accepts crypto exchange none key := by
  rcases km.receiveKeyExchange_cases crypto exchange none with
    ⟨-, e, hreceive⟩ | ⟨key, haccepts, -⟩
  · simp only [tryAcceptKeyExchange, hreceive] at h
    cases h
  · exact ⟨key, haccepts⟩

theorem tryAcceptKeyExchange_handled (crypto : Crypto) (responseOrder groupOrder : HashOrder)
    (km : KeyManager) (exchange : PchatKeyExchange) :
    Handled crypto km exchange
      (tryAcceptKeyExchange crypto responseOrder groupOrder km exchange).1 := by
  rcases km.receiveKeyExchange_cases crypto exchange none with
    ⟨hrejected, e, hreceive⟩ |
      ⟨key, haccepts, ⟨requestId, hrequest, hreceive⟩ | ⟨hrequest, hreceive⟩⟩
  · have htry : tryAcceptKeyExchange crypto responseOrder groupOrder km exchange = (km, false) := by
      simp only [tryAcceptKeyExchange, hreceive]
    rw [htry]
    exact .rejected hrejected
  · rw [tryAcceptKeyExchange_answered hreceive haccepts.2 hrequest]
    let received := (km.setCollector requestId
      (km.collectedBy exchange requestId key none)).recordKeyHolder exchange.channelId
        exchange.senderHash
    have hcollected : received.pendingConsensus requestId =
        some (km.collectedBy exchange requestId key none) := by
      show Function.update _ _ _ requestId = _
      rw [Function.update_self]
    rcases received.evaluateConsensus_cases responseOrder groupOrder requestId
        exchange.channelId [] with
      ⟨hnone, -⟩ | ⟨collector, hpending, ⟨hempty, -⟩ | ⟨newKey, trust, -, hsent, hdecides, hstep⟩⟩
    · rw [hcollected] at hnone
      cases hnone
    · rw [hcollected] at hpending
      cases hpending
      exact absurd hempty (entries_collectedBy_ne_nil km exchange requestId key none)
    · rw [hcollected] at hpending
      cases hpending
      rw [hstep]
      refine .answered haccepts hrequest hsent hdecides rfl ?_ rfl
      show Function.update (Function.update _ _ _) _ _ = _
      rw [Function.update_idem]
  · rw [tryAcceptKeyExchange_unsolicited hreceive hrequest]
    exact .unsolicited haccepts hrequest rfl rfl rfl

theorem handleKeyExchange_handled (crypto : Crypto) (responseOrder groupOrder : HashOrder)
    (ownCertHash : String) (km : KeyManager) (exchange : PchatKeyExchange) :
    Handled crypto km exchange
      (handleKeyExchange crypto responseOrder groupOrder ownCertHash km exchange) := by
  have hhandled := tryAcceptKeyExchange_handled crypto responseOrder groupOrder km exchange
  have haccepted := accepts_of_tryAcceptKeyExchange crypto responseOrder groupOrder km exchange
  unfold handleKeyExchange
  generalize tryAcceptKeyExchange crypto responseOrder groupOrder km exchange = outcome
    at hhandled haccepted ⊢
  obtain ⟨km', accepted⟩ := outcome
  cases accepted with
  | false => exact hhandled
  | true =>
      obtain ⟨key, haccepts⟩ := haccepted rfl
      exact hhandled.recordKeyHolder haccepts

/-! ## Agreement -/

/-- The key manager with what the client sees besides: how many other members it
observes in each channel, and which keys were supplied to it for a channel, by whom. -/
structure ObservedState where
  keyManager : KeyManager
  observedMembers : UInt32 → UInt32
  supplied : List (UInt32 × String × ChannelKey) := []

/-- A received exchange, or a change of the members in view. -/
inductive ObservedEvent where
  | keyExchange (responseOrder groupOrder : HashOrder) (exchange : PchatKeyExchange)
  | membersObserved (channelId : UInt32) (count : UInt32)

namespace ObservedState

def suppliedBy (crypto : Crypto) (km : KeyManager) (exchange : PchatKeyExchange) :
    List (UInt32 × String × ChannelKey) :=
  match km.openKeyExchange crypto exchange none with
  | .ok key =>
      if PchatProtocol.fromWireStr exchange.protocol = .fancyV1FullArchive then
        [(exchange.channelId, exchange.senderHash, key)]
      else []
  | .error _ => []

theorem suppliedBy_of_accepts {crypto : Crypto} {km : KeyManager}
    {exchange : PchatKeyExchange} {key : ChannelKey}
    (h : km.Accepts crypto exchange none key) :
    suppliedBy crypto km exchange = [(exchange.channelId, exchange.senderHash, key)] := by
  simp only [suppliedBy, h.1, if_pos h.2]

def step (crypto : Crypto) (ownCertHash : String) (s : ObservedState) :
    ObservedEvent → ObservedState
  | .keyExchange responseOrder groupOrder exchange =>
      { s with
        keyManager :=
          handleKeyExchange crypto responseOrder groupOrder ownCertHash s.keyManager exchange
        supplied := suppliedBy crypto s.keyManager exchange ++ s.supplied }
  | .membersObserved channelId count =>
      { s with observedMembers := Function.update s.observedMembers channelId count }

def suppliers (s : ObservedState) (c : UInt32) (key : ChannelKey) : Finset String :=
  ((s.supplied.filter fun entry => entry.1 = c ∧ entry.2.2 = key).map
    fun entry => entry.2.1).toFinset

def IsAuthority (s : ObservedState) (c : UInt32) (sender : String) : Prop :=
  s.keyManager.isTrustedAuthority sender c
    (((s.keyManager.pinnedCustodians c).map CustodianPinState.pinned).getD []) = true

/-- A trusted authority supplied the key, or as many members as the threshold asks for;
where there are three or more members, at least two. -/
def Agreed (s : ObservedState) (c : UInt32) (senders : Finset String) : Prop :=
  (∃ sender ∈ senders, s.IsAuthority c sender) ∨
    (computeConsensusThreshold (s.observedMembers c)).toNat ≤ senders.card ∧
      (2 ≤ s.observedMembers c → 2 ≤ senders.card)

/-- A key that becomes verified in the step has been agreed on. -/
def VerifiesAgreed (crypto : Crypto) (ownCertHash : String) (s : ObservedState)
    (event : ObservedEvent) : Prop :=
  ∀ c key, (s.step crypto ownCertHash event).keyManager.archiveKeys c = some (key, .verified) →
    s.keyManager.archiveKeys c ≠ some (key, .verified) →
      s.Agreed c ((s.step crypto ownCertHash event).suppliers c key)

/-- An accepted exchange that answers a request is the only response to it, and its key
is verified already, or its sender and the earlier suppliers of the key make up an
agreement. -/
def CompletesAgreement (crypto : Crypto) (s : ObservedState) : ObservedEvent → Prop
  | .keyExchange _ _ exchange =>
      ∀ key requestId, s.keyManager.Accepts crypto exchange none key →
        exchange.requestId = some requestId →
          s.keyManager.pendingConsensus requestId = none ∧
            (s.keyManager.archiveKeys exchange.channelId = some (key, .verified) ∨
              s.Agreed exchange.channelId
                (insert exchange.senderHash (s.suppliers exchange.channelId key)))
  | .membersObserved _ _ => True

/-- Nothing is collected between the handler's calls. -/
def NothingPending (s : ObservedState) : Prop :=
  ∀ requestId, s.keyManager.pendingConsensus requestId = none

variable {crypto : Crypto} {ownCertHash : String}

theorem suppliers_step {s : ObservedState} {responseOrder groupOrder : HashOrder}
    {exchange : PchatKeyExchange} {key : ChannelKey}
    (h : s.keyManager.Accepts crypto exchange none key) :
    (s.step crypto ownCertHash (.keyExchange responseOrder groupOrder exchange)).suppliers
        exchange.channelId key =
      insert exchange.senderHash (s.suppliers exchange.channelId key) := by
  simp [step, suppliers, suppliedBy_of_accepts h]

theorem entries_collectedBy_of_none {km : KeyManager} {exchange : PchatKeyExchange}
    {requestId : String} {key : ChannelKey} (h : km.pendingConsensus requestId = none) :
    (km.collectedBy exchange requestId key none).responses.entries =
      [⟨exchange.senderHash, key⟩] := by
  simp only [KeyManager.collectedBy, KeyManager.collectorOf, h, Option.getD_none]
  rfl

theorem decides_single {km deciding : KeyManager} {exchange : PchatKeyExchange}
    {requestId : String} {key newKey : ChannelKey} {c : UInt32} {keyCustodians : List String}
    {trust : KeyTrustLevel} (h : km.pendingConsensus requestId = none)
    (hdecides : deciding.Decides (km.collectedBy exchange requestId key none) c keyCustodians
      newKey trust)
    (hsent : ∃ sender, (⟨sender, newKey⟩ : Response) ∈
      (km.collectedBy exchange requestId key none).responses.entries) :
    newKey = key ∧ trust = .verified := by
  have hentries : (km.collectedBy exchange requestId key none).responses.entries =
      [⟨exchange.senderHash, key⟩] := entries_collectedBy_of_none h
  obtain ⟨sender, hsent⟩ := hsent
  rw [hentries] at hsent
  cases List.mem_singleton.mp hsent
  refine ⟨rfl, ?_⟩
  cases hdecides with
  | verified => rfl
  | unverified hnone hagree hfew =>
      have hmembers : (km.collectedBy exchange requestId key none).observedMembers = 0 := by
        simp only [KeyManager.collectedBy, KeyManager.collectorOf, h, Option.getD_none]
      rw [hentries, hmembers, List.length_singleton] at hfew
      exact absurd hfew (by decide)
  | disputed hnone hdisagree =>
      obtain ⟨response, hresponse, hne⟩ := hdisagree key
      rw [hentries] at hresponse
      cases List.mem_singleton.mp hresponse
      exact absurd rfl hne

/-- A key that becomes verified has completed an agreement. -/
theorem verifiesAgreed_of_completes {s : ObservedState} {event : ObservedEvent}
    (h : s.CompletesAgreement crypto event) : s.VerifiesAgreed crypto ownCertHash event := by
  intro c newKey hafter hbefore
  cases event with
  | membersObserved channelId count => exact absurd hafter hbefore
  | keyExchange responseOrder groupOrder exchange =>
      have hhandled := handleKeyExchange_handled crypto responseOrder groupOrder ownCertHash
        s.keyManager exchange
      simp only [step] at hafter
      generalize handleKeyExchange crypto responseOrder groupOrder ownCertHash s.keyManager
        exchange = km' at hhandled hafter
      cases hhandled with
      | rejected hrejected => exact absurd hafter hbefore
      | unsolicited haccepts hrequest harchive hpending =>
          rw [harchive] at hafter
          by_cases hchannel : c = exchange.channelId
          · rw [hchannel, Function.update_self] at hafter
            cases hafter
          · rw [Function.update_of_ne hchannel] at hafter
            exact absurd hafter hbefore
      | answered haccepts hrequest hsent hdecides harchive hpending =>
          rw [harchive] at hafter
          by_cases hchannel : c = exchange.channelId
          · subst hchannel
            obtain ⟨hnone, hverified | hagreed⟩ := h _ _ haccepts hrequest
            all_goals
              obtain ⟨rfl, rfl⟩ := decides_single hnone hdecides hsent
              rw [Function.update_self] at hafter
              cases hafter
            · exact absurd hverified hbefore
            · rwa [suppliers_step haccepts]
          · rw [Function.update_of_ne hchannel] at hafter
            exact absurd hafter hbefore

/-- Between the handler's calls, an exchange whose key becomes verified by an agreement completes
it. -/
theorem completes_of_verifiesAgreed {s : ObservedState} {event : ObservedEvent}
    (hnone : s.NothingPending) (h : s.VerifiesAgreed crypto ownCertHash event) :
    s.CompletesAgreement crypto event := by
  cases event with
  | membersObserved channelId count => trivial
  | keyExchange responseOrder groupOrder exchange =>
      intro key requestId haccepts hrequest
      refine ⟨hnone requestId, ?_⟩
      by_cases hverified : s.keyManager.archiveKeys exchange.channelId = some (key, .verified)
      · exact .inl hverified
      · right
        have hsuppliers := @suppliers_step crypto ownCertHash s responseOrder groupOrder
          exchange key haccepts
        rw [← hsuppliers]
        refine h exchange.channelId key ?_ hverified
        simp only [step]
        have hhandled := handleKeyExchange_handled crypto responseOrder groupOrder ownCertHash
          s.keyManager exchange
        generalize handleKeyExchange crypto responseOrder groupOrder ownCertHash s.keyManager
          exchange = km' at hhandled
        cases hhandled with
        | rejected hrejected => exact absurd haccepts (hrejected key)
        | unsolicited haccepts' hrequest' harchive hpending =>
            rw [hrequest] at hrequest'
            cases hrequest'
        | answered haccepts' hrequest' hsent hdecides harchive hpending =>
            rw [hrequest] at hrequest'
            cases hrequest'
            obtain ⟨rfl, rfl⟩ := decides_single (hnone requestId) hdecides hsent
            have hkey : key = _ := Except.ok.inj (haccepts.1.symm.trans haccepts'.1)
            rw [harchive, Function.update_self, hkey]

theorem nothingPending_step {s : ObservedState} (event : ObservedEvent)
    (h : s.NothingPending) : (s.step crypto ownCertHash event).NothingPending := by
  cases event with
  | membersObserved channelId count => exact h
  | keyExchange responseOrder groupOrder exchange =>
      intro requestId
      simp only [step]
      have hhandled := handleKeyExchange_handled crypto responseOrder groupOrder ownCertHash
        s.keyManager exchange
      generalize handleKeyExchange crypto responseOrder groupOrder ownCertHash s.keyManager
        exchange = km' at hhandled
      cases hhandled with
      | rejected hrejected => exact h requestId
      | unsolicited haccepts hrequest harchive hpending =>
          rw [hpending]
          exact h requestId
      | @answered _ _ _ _ answeredId _ haccepts hrequest hsent hdecides harchive hpending =>
          rw [hpending]
          by_cases hid : requestId = answeredId
          · rw [hid, Function.update_self]
          · rw [Function.update_of_ne hid]
            exact h requestId

/-- In a run in which every answer to a request completes an agreement, archive keys
become verified only by agreement; from a state in which nothing is collected, only in
such runs. -/
theorem verified_by_agreement_run (crypto : Crypto) (ownCertHash : String)
    (s : ObservedState) (events : List ObservedEvent) :
    (Along (step crypto ownCertHash) (CompletesAgreement crypto) s events →
        Along (step crypto ownCertHash) (VerifiesAgreed crypto ownCertHash) s events) ∧
      (s.NothingPending →
        Along (step crypto ownCertHash) (VerifiesAgreed crypto ownCertHash) s events →
          Along (step crypto ownCertHash) (CompletesAgreement crypto) s events) := by
  constructor
  · exact along_mono fun s event => verifiesAgreed_of_completes
  · intro hnone h
    exact along_of_invariant (fun s event hs _ => nothingPending_step event hs)
      (fun s event hs hverifies => completes_of_verifiesAgreed hs hverifies) hnone h

section Example

private def answer : PchatKeyExchange where
  channelId := 7
  protocol := "FANCY_V1_FULL_ARCHIVE"
  encryptedKey := List.replicate 32 2
  senderHash := "peer"
  recipientHash := "own"
  requestId := some "request"
  timestamp := 0
  signature := []
  epochFingerprint := List.replicate 8 2

private def sixMembers (originator : Option String) : ObservedState where
  keyManager :=
    { peerKeys := fun hash => if hash = "peer" then some ⟨1, [], [], 0⟩ else none
      channelOriginators := fun c => if c = 7 then originator else none }
  observedMembers := fun c => if c = 7 then 5 else 0

private theorem completesAgreement_answer :
    (sixMembers (some "peer")).CompletesAgreement .plain (.keyExchange .listed .listed answer) :=
  fun _ _ _ _ => ⟨rfl, .inr (.inl ⟨"peer", Finset.mem_insert_self _ _, rfl⟩)⟩

/-- The answer of the originator is an agreement. -/
theorem verified_by_agreement_example :
    Along (step .plain "own") (VerifiesAgreed .plain "own") (sixMembers (some "peer"))
      [.keyExchange .listed .listed answer] :=
  (verified_by_agreement_run .plain "own" _ _).1 ⟨completesAgreement_answer, trivial⟩

/-- One of five other members answers, and its key is verified. -/
theorem single_answer_verified :
    ¬∀ (crypto : Crypto) (ownCertHash : String) (s : ObservedState)
      (events : List ObservedEvent),
      Along (step crypto ownCertHash) (VerifiesAgreed crypto ownCertHash) s events := by
  intro h
  have hagreed := (h .plain "own" (sixMembers none) [.keyExchange .listed .listed answer]).1 7
    (.replicate 2) rfl (by decide)
  have hsuppliers : ((sixMembers none).step .plain "own"
      (.keyExchange .listed .listed answer)).suppliers 7 (.replicate 2) = {"peer"} := rfl
  rw [hsuppliers] at hagreed
  rcases hagreed with ⟨sender, -, hauthority⟩ | ⟨hthreshold, -⟩
  · exact absurd hauthority (by simp [IsAuthority, KeyManager.isTrustedAuthority, sixMembers])
  · exact absurd hthreshold (by decide)

end Example

end ObservedState

end FancyMumble.Client
