import FancyMumble.Lib.Runs
import FancyMumble.Persistent.Keys.Consensus
import FancyMumble.Persistent.Keys.Exchange

/-!
# What happens to the archive key of a channel

Key exchanges, consensus evaluations and the user's own decisions in any order: the
stored key and its trust level stay as they are until an event replaces them, and
what each event may put in their place.
-/

namespace FancyMumble.Persistent

open Lib.Grouping Lib.Runs

/-- What can happen to the archive keys of a key manager. -/
inductive KeyEvent where
  | keyExchange (exchange : PchatKeyExchange) (requestTimestamp : Option UInt64)
  | evaluate (responseOrder groupOrder : HashOrder) (requestId : String) (channelId : UInt32)
      (keyCustodians : List String)
  | userVerifies (channelId : UInt32)
  | removeChannel (channelId : UInt32)

namespace KeyManager

def step (crypto : Crypto) (km : KeyManager) : KeyEvent → KeyManager
  | .keyExchange exchange requestTimestamp =>
      (km.receiveKeyExchange crypto exchange requestTimestamp).1
  | .evaluate responseOrder groupOrder requestId channelId keyCustodians =>
      (km.evaluateConsensus responseOrder groupOrder requestId channelId keyCustodians).1
  | .userVerifies channelId => (km.resolveDispute channelId .fancyV1FullArchive).1
  | .removeChannel channelId => km.removeChannel channelId

/-- An event puts something else in the place of the archive key of a channel. -/
inductive Replaces (crypto : Crypto) (c : UInt32) (km : KeyManager) :
    KeyEvent → Option (ChannelKey × KeyTrustLevel) → Prop where
  /-- The user vouches for the stored key. -/
  | userVerifies {key : ChannelKey} {trust : KeyTrustLevel}
      (hstored : km.archiveKeys c = some (key, trust)) :
      Replaces crypto c km (.userVerifies c) (some (key, .manuallyVerified))
  | channelRemoved : Replaces crypto c km (.removeChannel c) none
  /-- The responses to a request decide. -/
  | decided {responseOrder groupOrder : HashOrder} {requestId : String}
      {keyCustodians : List String} {collector : ConsensusCollector} {key : ChannelKey}
      {trust : KeyTrustLevel} (hpending : km.pendingConsensus requestId = some collector)
      (hsent : ∃ sender, (⟨sender, key⟩ : Response) ∈ collector.responses.entries)
      (hdecides : km.Decides collector c keyCustodians key trust) :
      Replaces crypto c km (.evaluate responseOrder groupOrder requestId c keyCustodians)
        (some (key, trust))
  /-- A key arrives that no request asked for. -/
  | unsolicited {exchange : PchatKeyExchange} {requestTimestamp : Option UInt64}
      {key : ChannelKey} (hchannel : exchange.channelId = c)
      (hrequest : exchange.requestId = none)
      (haccepts : km.Accepts crypto exchange requestTimestamp key) :
      Replaces crypto c km (.keyExchange exchange requestTimestamp) (some (key, .unverified))

variable (crypto : Crypto) (c : UInt32)

/-- An event leaves the archive key of a channel as it is or replaces it. -/
theorem step_archiveKeys (km : KeyManager) (event : KeyEvent) :
    (km.step crypto event).archiveKeys c = km.archiveKeys c ∨
      Replaces crypto c km event ((km.step crypto event).archiveKeys c) := by
  cases event with
  | keyExchange exchange requestTimestamp =>
      simp only [step]
      rcases km.receiveKeyExchange_cases crypto exchange requestTimestamp with
        ⟨-, e, hstep⟩ | ⟨key, haccepts, ⟨requestId, -, hstep⟩ | ⟨hrequest, hstep⟩⟩
      · rw [hstep]
        exact .inl rfl
      · rw [hstep]
        exact .inl rfl
      · rw [hstep]
        by_cases hchannel : exchange.channelId = c
        · refine .inr ?_
          rw [storeArchiveKey_archiveKeys, hchannel, Function.update_self]
          exact .unsolicited hchannel hrequest haccepts
        · refine .inl ?_
          rw [storeArchiveKey_archiveKeys, Function.update_of_ne (Ne.symm hchannel)]
  | evaluate responseOrder groupOrder requestId channelId keyCustodians =>
      simp only [step]
      rcases km.evaluateConsensus_cases responseOrder groupOrder requestId channelId
          keyCustodians with
        ⟨-, e, hstep⟩ | ⟨collector, hpending, ⟨-, hstep⟩ | ⟨key, trust, -, hsent, hdecides, hstep⟩⟩
      · rw [hstep]
        exact .inl rfl
      · rw [hstep]
        exact .inl rfl
      · rw [hstep]
        by_cases hchannel : channelId = c
        · subst hchannel
          refine .inr ?_
          rw [storeArchiveKey_archiveKeys, Function.update_self]
          exact .decided hpending hsent hdecides
        · refine .inl ?_
          rw [storeArchiveKey_archiveKeys, Function.update_of_ne (Ne.symm hchannel),
            removeCollector_archiveKeys]
  | userVerifies channelId =>
      simp only [step]
      rcases Option.eq_none_or_eq_some (km.archiveKeys channelId) with
        hstored | ⟨⟨key, trust⟩, hstored⟩
      · rw [resolveDispute_of_none hstored]
        exact .inl rfl
      · rw [resolveDispute_of_some hstored, storeArchiveKey_archiveKeys]
        by_cases hchannel : channelId = c
        · subst hchannel
          rw [Function.update_self]
          exact .inr (.userVerifies hstored)
        · rw [Function.update_of_ne (Ne.symm hchannel)]
          exact .inl rfl
  | removeChannel channelId =>
      simp only [step, removeChannel]
      by_cases hchannel : channelId = c
      · subst hchannel
        refine .inr ?_
        simp only [Function.update_self]
        exact .channelRemoved
      · refine .inl ?_
        simp only [Function.update_of_ne (Ne.symm hchannel)]

/-- The archive key of a channel after a run is the one before it, or what the last
event that replaced it put in its place. -/
theorem archiveKey_kept_unless_replaced (km : KeyManager) (events : List KeyEvent) :
    (run (step crypto) km events).archiveKeys c = km.archiveKeys c ∨
      ∃ before event after, events = before ++ event :: after ∧
        Replaces crypto c (run (step crypto) km before) event
          ((run (step crypto) km events).archiveKeys c) := by
  induction events using List.reverseRecOn with
  | nil => exact .inl rfl
  | append_singleton events event ih =>
      have hlast : run (step crypto) km (events ++ [event]) =
          (run (step crypto) km events).step crypto event := by
        rw [run_append]
        rfl
      rw [hlast]
      rcases step_archiveKeys crypto c (run (step crypto) km events) event with hsame | hnew
      · rw [hsame]
        rcases ih with hkept | ⟨before, replacing, after, hevents, hreplaces⟩
        · exact .inl hkept
        · refine .inr ⟨before, replacing, after ++ [event], ?_, hreplaces⟩
          rw [hevents, List.append_assoc, List.cons_append]
      · exact .inr ⟨events, event, [], rfl, hnew⟩

section Example

private def verifiedChannel : KeyManager where
  peerKeys := fun hash => if hash = "peer" then some ⟨1, [], [], 0⟩ else none
  archiveKeys := fun c => if c = 7 then some (.replicate 1, .verified) else none

private def unsolicitedExchange : PchatKeyExchange where
  channelId := 7
  protocol := "FANCY_V1_FULL_ARCHIVE"
  encryptedKey := List.replicate 32 2
  senderHash := "peer"
  recipientHash := "own"
  timestamp := 0
  signature := []
  epochFingerprint := List.replicate 8 2

private theorem archiveKeys_unsolicited :
    (verifiedChannel.step .plain (.keyExchange unsolicitedExchange none)).archiveKeys 7 =
      some (.replicate 2, .unverified) := by
  rfl

/-- An unverified key that nobody asked for takes the place of a verified one. -/
theorem unsolicited_key_replaces_verified :
    ¬∀ (crypto : Crypto) (c : UInt32) (km : KeyManager) (events : List KeyEvent)
      (key : ChannelKey) (trust : KeyTrustLevel),
      km.archiveKeys c = some (key, trust) → (trust = .verified ∨ trust = .manuallyVerified) →
        .userVerifies c ∉ events → .removeChannel c ∉ events →
          (run (step crypto) km events).archiveKeys c = some (key, trust) ∨
            ∃ newKey, (run (step crypto) km events).archiveKeys c = some (newKey, .verified) := by
  intro h
  have hkept := h .plain 7 verifiedChannel [.keyExchange unsolicitedExchange none]
    (.replicate 1) .verified rfl (.inl rfl) (by simp) (by simp)
  rw [run_cons, run_nil, archiveKeys_unsolicited] at hkept
  rcases hkept with hsame | ⟨newKey, hnew⟩
  · exact absurd hsame (by decide)
  · cases hnew

end Example

end KeyManager

end FancyMumble.Persistent
