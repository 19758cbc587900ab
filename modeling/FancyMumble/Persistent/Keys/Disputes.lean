import FancyMumble.Persistent.Keys.Removal

/-!
# Resolving a dispute

Responses that disagree leave the key of a largest group as the disputed key of a channel,
and are gone. The user then names a peer; the stored key becomes the manually verified one,
whoever that is.
-/

namespace FancyMumble.Persistent

open Lib.Grouping Lib.Runs

structure Dispute where
  collector : ConsensusCollector
  responseOrder : HashOrder
  groupOrder : HashOrder

namespace Dispute

def majorityKey (d : Dispute) : Option ChannelKey :=
  (maxByKey (fun group => group.2.length)
    (d.groupOrder.visit
      (groupBy Sigma.snd Sigma.fst (d.responseOrder.visit d.collector.responses.entries)))).map
    Prod.fst

def keyOf (d : Dispute) (peer : String) : Option ChannelKey := d.collector.responses.lookup peer

end Dispute

namespace KeyManager

def resolveDisputeFor (km : KeyManager) (channelId : UInt32) (mode : PchatProtocol)
    (_trustedSenderHash : String) : KeyManager × Except Error Unit :=
  km.resolveDispute channelId mode

variable {km : KeyManager} {responseOrder groupOrder : HashOrder} {requestId : String}
  {channelId : UInt32} {keyCustodians : List String} {collector : ConsensusCollector}
  {key : ChannelKey}

/-- An evaluation that ends in a dispute stores the key of the last of the largest groups. -/
theorem stored_of_disputed (hpending : km.pendingConsensus requestId = some collector)
    (h : (km.evaluateConsensus responseOrder groupOrder requestId channelId keyCustodians).2 =
      .ok (.disputed, some key)) :
    Dispute.majorityKey ⟨collector, responseOrder, groupOrder⟩ = some key ∧
      (km.evaluateConsensus responseOrder groupOrder requestId channelId
        keyCustodians).1.archiveKeys channelId = some (key, .disputed) := by
  generalize hresult :
    km.evaluateConsensus responseOrder groupOrder requestId channelId keyCustodians = result at h ⊢
  unfold evaluateConsensus at hresult
  rw [hpending] at hresult
  dsimp only at hresult
  split at hresult
  · subst hresult
    cases h
  split at hresult
  · subst hresult
    cases h
  split at hresult
  · -- the responses agree
    subst hresult
    dsimp only at h
    split at h
    · cases h
    · cases h
  rename_i hgroups
  split at hresult
  · subst hresult
    cases h
  split at hresult
  · subst hresult
    cases h
  · rename_i majority senders hmajority
    subst hresult
    cases h
    refine ⟨?_, ?_⟩
    · rw [Dispute.majorityKey, hmajority]
      rfl
    · rw [storeArchiveKey_archiveKeys, Function.update_self]

end KeyManager

/-! ## Runs -/

/-- An operation of the key manager, or the user's decision for a peer. -/
inductive DisputeEvent where
  | op (op : KeyOp)
  | resolve (channelId : UInt32) (trustedSenderHash : String)

structure DisputeState where
  km : KeyManager
  disputes : UInt32 → Option Dispute := fun _ => none

namespace DisputeState

variable (toLowercase : String → String) (identity : Identity)

def raised (km : KeyManager) (channelId : UInt32) : KeyOp → Option Dispute
  | .evaluateConsensus responseOrder groupOrder requestId evaluated keyCustodians =>
      if evaluated = channelId then
        match (km.evaluateConsensus responseOrder groupOrder requestId evaluated
            keyCustodians).2 with
        | .ok (.disputed, some _) =>
            (km.pendingConsensus requestId).map (⟨·, responseOrder, groupOrder⟩)
        | _ => none
      else none
  | _ => none

def disputesAfter (s : DisputeState) (op : KeyOp) (channelId : UInt32) : Option Dispute :=
  (raised s.km channelId op).or
    (if (s.km.apply toLowercase identity op).archiveKeys channelId = s.km.archiveKeys channelId then
      s.disputes channelId
    else none)

def step (s : DisputeState) : DisputeEvent → DisputeState
  | .op op =>
      { km := s.km.apply toLowercase identity op
        disputes := s.disputesAfter toLowercase identity op }
  | .resolve channelId trustedSenderHash =>
      { km := (s.km.resolveDisputeFor channelId .fancyV1FullArchive trustedSenderHash).1
        disputes := Function.update s.disputes channelId none }

/-- A dispute that is resolved for a peer ends with the peer's key; one that is resolved for
nobody who sent a key goes on. -/
def Lawful (s : DisputeState) : DisputeEvent → Prop
  | .op _ => True
  | .resolve channelId peer => ∀ d, s.disputes channelId = some d →
      match d.keyOf peer with
      | some key =>
          s.km.resolveDisputeFor channelId .fancyV1FullArchive peer =
            (s.km.storeArchiveKey channelId key .manuallyVerified, .ok ())
      | none =>
          ∃ e, s.km.resolveDisputeFor channelId .fancyV1FullArchive peer = (s.km, .error e)

/-- The user decides for a peer who sent the majority's key. -/
def ChoosesMajority (s : DisputeState) : DisputeEvent → Prop
  | .op _ => True
  | .resolve channelId peer => ∀ d, s.disputes channelId = some d →
      d.majorityKey.isSome ∧ d.keyOf peer = d.majorityKey

def HoldsMajority (s : DisputeState) : Prop :=
  ∀ channelId d, s.disputes channelId = some d →
    ∃ key, d.majorityKey = some key ∧ s.km.archiveKeys channelId = some (key, .disputed)

variable {toLowercase identity} {s : DisputeState}

theorem exists_of_raised {km : KeyManager} {channelId : UInt32} {op : KeyOp} {d : Dispute}
    (h : raised km channelId op = some d) :
    ∃ key, d.majorityKey = some key ∧
      (km.apply toLowercase identity op).archiveKeys channelId = some (key, .disputed) := by
  cases op with
  | evaluateConsensus responseOrder groupOrder requestId evaluated keyCustodians =>
      rw [raised] at h
      by_cases hchannel : evaluated = channelId
      swap
      · rw [if_neg hchannel] at h
        cases h
      subst hchannel
      rw [if_pos rfl] at h
      split at h
      · rename_i key hdisputed
        obtain ⟨collector, hpending, rfl⟩ := Option.map_eq_some_iff.mp h
        exact ⟨key, KeyManager.stored_of_disputed hpending hdisputed⟩
      · cases h
  | _ => cases h

theorem holdsMajority_step (h : s.HoldsMajority) (event : DisputeEvent) :
    (s.step toLowercase identity event).HoldsMajority := by
  intro channelId d hd
  cases event with
  | op op =>
      rcases Option.or_eq_some_iff.mp hd with hraised | ⟨-, hkept⟩
      · exact exists_of_raised hraised
      · split at hkept
        · rename_i hsame
          obtain ⟨key, hmajority, hstored⟩ := h channelId d hkept
          exact ⟨key, hmajority, hsame.trans hstored⟩
        · cases hkept
  | resolve resolved peer =>
      by_cases hchannel : channelId = resolved
      · subst hchannel
        simp only [step, Function.update_self] at hd
        cases hd
      · simp only [step, Function.update_of_ne hchannel] at hd
        obtain ⟨key, hmajority, hstored⟩ := h channelId d hd
        refine ⟨key, hmajority, ?_⟩
        rw [step, KeyManager.resolveDisputeFor]
        dsimp only
        cases hresolved : s.km.archiveKeys resolved with
        | none =>
            rw [KeyManager.resolveDispute_of_none hresolved]
            exact hstored
        | some entry =>
            rw [KeyManager.resolveDispute_of_some hresolved,
              KeyManager.storeArchiveKey_archiveKeys, Function.update_of_ne hchannel]
            exact hstored

/-- A decision is lawful exactly if it is for the majority. -/
theorem lawful_iff (h : s.HoldsMajority) (event : DisputeEvent) :
    s.Lawful event ↔ s.ChoosesMajority event := by
  cases event with
  | op op => exact Iff.rfl
  | resolve channelId peer =>
      rw [Lawful, ChoosesMajority]
      refine forall_congr' fun d => imp_congr_right fun hd => ?_
      obtain ⟨majority, hmajority, hstored⟩ := h channelId d hd
      have hresolve : s.km.resolveDisputeFor channelId .fancyV1FullArchive peer =
          (s.km.storeArchiveKey channelId majority .manuallyVerified, .ok ()) :=
        KeyManager.resolveDispute_of_some hstored
      rw [hresolve, hmajority]
      cases hkey : d.keyOf peer with
      | none =>
          refine iff_of_false ?_ ?_
          · rintro ⟨e, he⟩
            cases (Prod.ext_iff.mp he).2
          · rintro ⟨-, hsame⟩
            cases hsame
      | some key =>
          dsimp only
          constructor
          · intro hsame
            have harchive := congrFun (congrArg KeyManager.archiveKeys (Prod.ext_iff.mp hsame).1)
              channelId
            rw [KeyManager.storeArchiveKey_archiveKeys, KeyManager.storeArchiveKey_archiveKeys,
              Function.update_self, Function.update_self] at harchive
            cases harchive
            exact ⟨rfl, rfl⟩
          · rintro ⟨-, hsame⟩
            cases hsame
            rfl

/-- In a run of a key manager, every dispute that the user resolves ends as the user decided
exactly if the user decides for one of those who sent the majority's key. -/
theorem resolutions_run_iff (toLowercase : String → String) (identity : Identity)
    (km : KeyManager) (events : List DisputeEvent) :
    Along (step toLowercase identity) Lawful { km } events ↔
      Along (step toLowercase identity) ChoosesMajority { km } events :=
  along_iff_of_invariant (fun _ event (hinv : HoldsMajority _) => lawful_iff hinv event)
    (fun _ event hinv _ => holdsMajority_step hinv event) (fun _ _ hd => nomatch hd)

section Example

private def threeResponses : KeyManager where
  pendingConsensus := Function.update (fun _ => none) "request"
    (some
      { responses :=
          ((∅ : AList fun _ : String => ChannelKey).insert "anna" (.replicate 1)).insert "bert"
            (.replicate 1) |>.insert "carl" (.replicate 2) })

/-- The user decides for the third, and the key of the other two is verified. -/
theorem minority_choice_verifies_majority :
    ¬Along (step id Identity.plain) Lawful { km := threeResponses }
      [.op (.evaluateConsensus .listed .listed "request" 7 []), .resolve 7 "carl"] := by
  rw [resolutions_run_iff]
  rintro ⟨-, hchoice, -⟩
  have hraised : ((step id Identity.plain { km := threeResponses }
      (.op (.evaluateConsensus .listed .listed "request" 7 []))).disputes 7).any
        (fun d => d.keyOf "carl" ≠ d.majorityKey) = true := by
    decide +kernel
  obtain ⟨d, hd, hother⟩ := (Option.any_eq_true _ _).mp hraised
  exact of_decide_eq_true hother (hchoice d hd).2

end Example

end DisputeState

end FancyMumble.Persistent
