import FancyMumble.Client.KeyExchange
import FancyMumble.Persistent.Keys.ConsensusChannels
import FancyMumble.Persistent.Keys.Countersignature

/-!
# Fresh and replayed exchanges

The handler of key exchanges does not know when its requests were sent, and it does not
remember what it has handled. A history of the client does: its outstanding requests, the
exchanges it has handled, and the keys that they supplied.
-/

namespace FancyMumble.Client

open Lib.Grouping Lib.Runs Persistent
open Persistent.CollectingState (knowsPeer)

/-- A key manager, with the outstanding requests of the client and their timestamps, the
exchanges that have been handled, and the keys that were supplied for channels, with the
timestamps of their exchanges. -/
structure FreshnessState where
  keyManager : KeyManager
  outstanding : String → Option UInt64 := fun _ => none
  handled : List PchatKeyExchange := []
  supplied : List (UInt32 × ChannelKey × UInt64) := []

inductive FreshnessEvent where
  | requested (requestId : String) (timestamp : UInt64)
  | keyExchange (responseOrder groupOrder : HashOrder) (exchange : PchatKeyExchange)
  | countersigned (now : UInt64) (c : Countersignature) (keyCustodians : List String)

/-- An exchange is rejected, or its key becomes the key of the channel, provided that nothing else
has been collected. -/
theorem handleKeyExchange_cases {crypto : Crypto} {responseOrder groupOrder : HashOrder}
    {ownCertHash : String} {km : KeyManager} (exchange : PchatKeyExchange)
    (hnone : ∀ requestId, km.pendingConsensus requestId = none) :
    ((∀ key, ¬km.Accepts crypto exchange none key) ∧
        handleKeyExchange crypto responseOrder groupOrder ownCertHash km exchange = km) ∨
      ∃ key, km.Accepts crypto exchange none key ∧
        (handleKeyExchange crypto responseOrder groupOrder ownCertHash km exchange).archiveKeys =
          Function.update km.archiveKeys exchange.channelId
            (some (key, if exchange.requestId.isSome then .verified else .unverified)) ∧
        ∀ requestId, (handleKeyExchange crypto responseOrder groupOrder ownCertHash km
          exchange).pendingConsensus requestId = none := by
  have hhandled := handleKeyExchange_handled crypto responseOrder groupOrder ownCertHash km
    exchange
  generalize handleKeyExchange crypto responseOrder groupOrder ownCertHash km exchange = km'
    at hhandled ⊢
  cases hhandled with
  | rejected hrejected => exact .inl ⟨hrejected, rfl⟩
  | unsolicited haccepts hrequest harchive hpending =>
      refine .inr ⟨_, haccepts, ?_, fun requestId => ?_⟩
      · rw [harchive, hrequest]
        rfl
      · rw [hpending]
        exact hnone requestId
  | @answered _ _ key newKey answeredId trust haccepts hrequest hsent hdecides harchive hpending =>
      obtain ⟨rfl, rfl⟩ := ObservedState.decides_single (hnone answeredId) hdecides hsent
      refine .inr ⟨newKey, haccepts, ?_, fun requestId => ?_⟩
      · rw [harchive, hrequest]
        rfl
      · rw [hpending]
        by_cases hid : requestId = answeredId
        · rw [hid, Function.update_self]
        · rw [Function.update_of_ne hid]
          exact hnone requestId

namespace FreshnessState

def step (crypto : Crypto) (ownCertHash : String) (s : FreshnessState) :
    FreshnessEvent → FreshnessState
  | .requested requestId timestamp =>
      { s with outstanding := Function.update s.outstanding requestId (some timestamp) }
  | .keyExchange responseOrder groupOrder exchange =>
      { s with
        keyManager :=
          handleKeyExchange crypto responseOrder groupOrder ownCertHash s.keyManager exchange
        handled := exchange :: s.handled
        supplied :=
          (s.keyManager.acceptedKey crypto exchange none).toList.map
            (fun key => (exchange.channelId, key, exchange.timestamp)) ++ s.supplied }
  | .countersigned now c keyCustodians =>
      { s with keyManager := s.keyManager.countersigned crypto now c keyCustodians }

def start (km : KeyManager) : FreshnessState where
  keyManager := { km with pendingConsensus := fun _ => none }

def AnswersStale (s : FreshnessState) (exchange : PchatKeyExchange) : Prop :=
  ∃ requestId ∈ exchange.requestId, ∃ timestamp ∈ s.outstanding requestId,
    Stale timestamp exchange.timestamp

/-- The exchange has been handled before, and the key of its channel comes from a newer
one. -/
def Replayed (s : FreshnessState) (exchange : PchatKeyExchange) : Prop :=
  exchange ∈ s.handled ∧ ∃ key trust timestamp,
    s.keyManager.archiveKeys exchange.channelId = some (key, trust) ∧
      (exchange.channelId, key, timestamp) ∈ s.supplied ∧ exchange.timestamp < timestamp

/-- A stale answer is not stored, a replayed exchange does not replace a newer key, and no
sum wraps. -/
def KeepsFresh (crypto : Crypto) (ownCertHash : String) (s : FreshnessState) :
    FreshnessEvent → Prop
  | .requested _ _ => True
  | .keyExchange responseOrder groupOrder exchange =>
      let after :=
        handleKeyExchange crypto responseOrder groupOrder ownCertHash s.keyManager exchange
      (s.AnswersStale exchange → after.archiveKeys = s.keyManager.archiveKeys) ∧
        (s.Replayed exchange → (after.archiveKeys exchange.channelId).map Prod.fst =
          (s.keyManager.archiveKeys exchange.channelId).map Prod.fst) ∧
        ∀ t ∈ s.keyManager.freshnessSums crypto exchange none, FitsWindow t
  | .countersigned _ c _ => FitsWindow c.timestamp

/-- An accepted exchange is no stale answer, unless its key is the verified key of the
channel already, and no replay, unless it carries the stored key; and the windows after
countersigned timestamps fit. -/
def ComesFresh (crypto : Crypto) (s : FreshnessState) : FreshnessEvent → Prop
  | .requested _ _ => True
  | .keyExchange _ _ exchange =>
      ∀ key, s.keyManager.Accepts crypto exchange none key →
        (s.AnswersStale exchange →
          s.keyManager.archiveKeys exchange.channelId = some (key, .verified)) ∧
        (s.Replayed exchange →
          (s.keyManager.archiveKeys exchange.channelId).map Prod.fst = some key) ∧
        ((KeyManager.inlineCountersignature exchange).isSome → FitsWindow exchange.timestamp)
  | .countersigned _ c _ => FitsWindow c.timestamp

/-- Nothing is collected between the handler's calls. -/
def NothingPending (s : FreshnessState) : Prop :=
  ∀ requestId, s.keyManager.pendingConsensus requestId = none

variable {crypto : Crypto} {ownCertHash : String} {s : FreshnessState}

theorem nothingPending_step (hs : s.NothingPending) (event : FreshnessEvent) :
    (s.step crypto ownCertHash event).NothingPending := by
  cases event with
  | requested requestId timestamp => exact hs
  | keyExchange responseOrder groupOrder exchange =>
      simp only [NothingPending, step]
      rcases @handleKeyExchange_cases crypto responseOrder groupOrder ownCertHash s.keyManager
          exchange hs with
        ⟨-, hsame⟩ | ⟨key, -, -, hnone⟩
      · rw [hsame]
        exact hs
      · exact hnone
  | countersigned now c keyCustodians =>
      intro requestId
      rw [step, KeyManager.countersigned_eq]
      exact hs requestId

/-- An event keeps keys fresh exactly if it comes fresh. -/
theorem keepsFresh_iff (hs : s.NothingPending) (event : FreshnessEvent) :
    s.KeepsFresh crypto ownCertHash event ↔ s.ComesFresh crypto event := by
  cases event with
  | requested requestId timestamp => exact Iff.rfl
  | countersigned now c keyCustodians => exact Iff.rfl
  | keyExchange responseOrder groupOrder exchange =>
      simp only [KeepsFresh, ComesFresh]
      rw [KeyManager.freshnessSums_fit_iff]
      rcases @handleKeyExchange_cases crypto responseOrder groupOrder ownCertHash s.keyManager
          exchange hs with
        ⟨hrejected, hsame⟩ | ⟨key, haccepts, harchive, -⟩
      · rw [hsame]
        refine iff_of_true ⟨fun _ => rfl, fun _ => rfl, nofun, ?_⟩ fun key haccepts => ?_
        · exact fun ⟨key, haccepts⟩ => absurd haccepts (hrejected key)
        · exact absurd haccepts (hrejected key)
      · have hunique : ∀ key', s.keyManager.Accepts crypto exchange none key' → key' = key :=
          fun key' haccepts' => Except.ok.inj (haccepts'.1.symm.trans haccepts.1)
        have hstale : s.AnswersStale exchange → ((handleKeyExchange crypto responseOrder
              groupOrder ownCertHash s.keyManager exchange).archiveKeys =
                s.keyManager.archiveKeys ↔
            s.keyManager.archiveKeys exchange.channelId = some (key, .verified)) := by
          rintro ⟨requestId, hrequest, -⟩
          rw [harchive, Option.mem_def.mp hrequest, Function.update_eq_self_iff, eq_comm]
          rfl
        have hreplayed : ((handleKeyExchange crypto responseOrder groupOrder ownCertHash
              s.keyManager exchange).archiveKeys exchange.channelId).map Prod.fst = some key := by
          rw [harchive, Function.update_self, Option.map_some]
        rw [hreplayed]
        constructor
        · rintro ⟨h₁, h₂, -, h₃⟩ key' haccepts'
          rw [hunique key' haccepts']
          exact ⟨fun h => (hstale h).mp (h₁ h), fun h => (h₂ h).symm, h₃ ⟨key, haccepts⟩⟩
        · intro h
          obtain ⟨h₁, h₂, h₃⟩ := h key haccepts
          exact ⟨fun h => (hstale h).mpr (h₁ h), fun h => (h₂ h).symm, nofun, fun _ => h₃⟩

/-- In a run of the client, keys stay fresh exactly if what arrives is fresh. Where the
timestamp of a request is known, a stale answer is always rejected, and no sum wraps
exactly if the windows that are computed fit. -/
theorem keepsFresh_run_iff (crypto : Crypto) (ownCertHash : String) :
    (∀ (km : KeyManager) (events : List FreshnessEvent),
        Along (step crypto ownCertHash) (KeepsFresh crypto ownCertHash) (start km) events ↔
          Along (step crypto ownCertHash) (ComesFresh crypto) (start km) events) ∧
      ∀ (km : KeyManager) (exchange : PchatKeyExchange) (requestTimestamp : UInt64),
        (Stale requestTimestamp exchange.timestamp →
          ∃ e, km.receiveKeyExchange crypto exchange (some requestTimestamp) = (km, .error e)) ∧
        ((∀ t ∈ km.freshnessSums crypto exchange (some requestTimestamp), FitsWindow t) ↔
          (km.verifyKeyExchangeSignature crypto exchange = .ok () →
            requestTimestamp ≤ exchange.timestamp → FitsWindow requestTimestamp) ∧
          ((∃ key, km.Accepts crypto exchange (some requestTimestamp) key) →
            (KeyManager.inlineCountersignature exchange).isSome →
              FitsWindow exchange.timestamp)) := by
  refine ⟨fun km events => ?_, fun km exchange requestTimestamp => ⟨?_, ?_⟩⟩
  · have hruns : Along (step crypto ownCertHash) (fun _ _ => True) (start km) events :=
      along_of_forall (fun _ _ => trivial) _ _
    refine along_iff_along (fun s event (hs : s.NothingPending) _ => keepsFresh_iff hs event) ?_
      (fun _ => rfl) hruns
    exact fun s event hs _ _ => nothingPending_step hs event
  · exact KeyManager.receiveKeyExchange_of_stale
  · rw [KeyManager.freshnessSums_fit_iff]
    simp

section Example

/-- A key of channel 7 as the answer to "request", sent at a time; it consists of the given
byte. -/
private def answerAt (timestamp : UInt64) (byte : UInt8) : PchatKeyExchange where
  channelId := 7
  protocol := "FANCY_V1_FULL_ARCHIVE"
  encryptedKey := List.replicate 32 byte
  senderHash := "peer"
  recipientHash := "own"
  requestId := some "request"
  timestamp := timestamp
  signature := []
  epochFingerprint := List.replicate 8 byte

/-- An answer from before the request is rejected when the timestamp of the request is
known. -/
theorem keepsFresh_run_example :
    ∃ e, knowsPeer.receiveKeyExchange .plain (answerAt 1 2) (some 5) = (knowsPeer, .error e) :=
  ((keepsFresh_run_iff .plain "own").2 knowsPeer (answerAt 1 2) 5).1 (.inl (by decide))

/-- The handler stores an answer from before its request. -/
theorem stale_answer_stored :
    ¬∀ (crypto : Crypto) (ownCertHash : String) (km : KeyManager)
      (events : List FreshnessEvent),
      Along (step crypto ownCertHash) (KeepsFresh crypto ownCertHash) (start km) events := by
  intro h
  obtain ⟨-, ⟨hstale, -⟩, -⟩ := h .plain "own" knowsPeer
    [.requested "request" 5, .keyExchange .listed .listed (answerAt 1 2)]
  have hsame := hstale ⟨"request", rfl, 5, rfl, .inl (by decide)⟩
  exact absurd (congrArg (fun keys => (keys 7).isSome) hsame) (by decide)

theorem replayed_key_stored :
    ¬Along (step .plain "own") (KeepsFresh .plain "own") (start knowsPeer)
      [.keyExchange .listed .listed (answerAt 1 2), .keyExchange .listed .listed (answerAt 2 3),
        .keyExchange .listed .listed (answerAt 1 2)] := by
  rintro ⟨-, -, ⟨-, hreplayed, -⟩, -⟩
  have hsame := hreplayed ⟨by simp [step, start], .replicate 3, .verified, 2, rfl, ?_, by decide⟩
  · exact absurd hsame (by decide)
  · exact List.mem_cons_self

end Example

end FreshnessState

end FancyMumble.Client
