import FancyMumble.Lib.Choice
import FancyMumble.Persistent.Keys.KeyManager
import Mathlib.Data.Finset.Card

/-!
# Consensus evaluation

The responses to a request are evaluated once: a trusted authority decides alone,
agreement needs as many senders as the threshold asks for, and disagreement makes the
key of a largest group the disputed one.
-/

namespace FancyMumble.Persistent

open Lib.Choice Lib.Grouping

def computeConsensusThreshold (observedMembers : UInt32) : UInt32 :=
  max 1 (min (observedMembers / 2) 5)

/-- A response: its sender and the key it carries. -/
abbrev Response := (_ : String) × ChannelKey

def supporters (responses : List Response) (key : ChannelKey) : Finset String :=
  ((responses.filter fun response => response.2 = key).map Sigma.fst).toFinset

theorem mem_supporters {responses : List Response} {key : ChannelKey} {sender : String} :
    sender ∈ supporters responses key ↔ (⟨sender, key⟩ : Response) ∈ responses := by
  unfold supporters
  rw [List.mem_toFinset, List.mem_map]
  constructor
  · rintro ⟨⟨s, k⟩, hfilter, rfl⟩
    obtain ⟨hmem, hkey⟩ := List.mem_filter.mp hfilter
    obtain rfl : k = key := of_decide_eq_true hkey
    exact hmem
  · intro h
    exact ⟨⟨sender, key⟩, List.mem_filter.mpr ⟨h, decide_eq_true rfl⟩, rfl⟩

theorem card_supporters_of_nodupKeys {responses : List Response} (h : responses.NodupKeys)
    (key : ChannelKey) :
    (supporters responses key).card =
      (responses.filter fun response => response.2 = key).length := by
  unfold supporters
  rw [List.toFinset_card_of_nodup, List.length_map]
  exact (h.sublist List.filter_sublist)

namespace KeyManager

def removeCollector (km : KeyManager) (requestId : String) : KeyManager :=
  { km with pendingConsensus := Function.update km.pendingConsensus requestId none }

@[simp] theorem removeCollector_archiveKeys (km : KeyManager) (requestId : String) :
    (km.removeCollector requestId).archiveKeys = km.archiveKeys := rfl

@[simp] theorem removeCollector_isTrustedAuthority (km : KeyManager)
    (requestId senderHash : String) (channelId : UInt32) (keyCustodians : List String) :
    (km.removeCollector requestId).isTrustedAuthority senderHash channelId keyCustodians =
      km.isTrustedAuthority senderHash channelId keyCustodians := rfl

def findCustodianKeyInGroups (km : KeyManager) (keyGroups : List (ChannelKey × List String))
    (channelId : UInt32) (keyCustodians : List String) : Option ChannelKey :=
  (keyGroups.find? fun group =>
    group.2.any fun sender => km.isTrustedAuthority sender channelId keyCustodians).map Prod.fst

/-- `evaluate_consensus`: the collector of the request is taken out and decides about
the key of the channel. The responses and the groups of equal keys are visited in the
given orders. -/
def evaluateConsensus (responseOrder groupOrder : HashOrder) (km : KeyManager)
    (requestId : String) (channelId : UInt32) (keyCustodians : List String) :
    KeyManager × Except Error (KeyTrustLevel × Option ChannelKey) :=
  match km.pendingConsensus requestId with
  | none => (km, .error (.invalidState "no consensus collector"))
  | some collector =>
      let km := km.removeCollector requestId
      let responses : List Response := responseOrder.visit collector.responses.entries
      if responses.isEmpty then
        (km, .ok (.unverified, none))
      else
        match responses.find? fun response =>
          km.isTrustedAuthority response.1 channelId keyCustodians with
        | some response =>
            (km.storeArchiveKey channelId response.2 .verified,
              .ok (.verified, some response.2))
        | none =>
            let requiredThreshold := computeConsensusThreshold collector.observedMembers
            match groupOrder.visit (groupBy Sigma.snd Sigma.fst responses) with
            | [(key, senders)] =>
                let trust : KeyTrustLevel :=
                  if requiredThreshold.toNat ≤ senders.length then .verified else .unverified
                (km.storeArchiveKey channelId key trust, .ok (trust, some key))
            | keyGroups =>
                match km.findCustodianKeyInGroups keyGroups channelId keyCustodians with
                | some key =>
                    (km.storeArchiveKey channelId key .verified, .ok (.verified, some key))
                | none =>
                    match maxByKey (fun group => group.2.length) keyGroups with
                    | none =>
                        (km, .error (.invalidState
                          "key_groups unexpectedly empty during majority resolution"))
                    | some (key, _) =>
                        (km.storeArchiveKey channelId key .disputed,
                          .ok (.disputed, some key))

/-! ## What an evaluation decides -/

def AuthoritySent (km : KeyManager) (collector : ConsensusCollector) (channelId : UInt32)
    (keyCustodians : List String) (key : ChannelKey) : Prop :=
  ∃ sender, (⟨sender, key⟩ : Response) ∈ collector.responses.entries ∧
    km.isTrustedAuthority sender channelId keyCustodians = true

def EnoughAgree (collector : ConsensusCollector) (key : ChannelKey) : Prop :=
  (∀ response ∈ collector.responses.entries, response.2 = key) ∧
    (computeConsensusThreshold collector.observedMembers).toNat ≤
      collector.responses.entries.length

def VerifiedBy (km : KeyManager) (collector : ConsensusCollector) (channelId : UInt32)
    (keyCustodians : List String) (key : ChannelKey) : Prop :=
  km.AuthoritySent collector channelId keyCustodians key ∨ EnoughAgree collector key

inductive Decides (km : KeyManager) (collector : ConsensusCollector) (channelId : UInt32)
    (keyCustodians : List String) (key : ChannelKey) : KeyTrustLevel → Prop where
  | verified (h : km.VerifiedBy collector channelId keyCustodians key) :
      Decides km collector channelId keyCustodians key .verified
  | unverified (hnone : ∀ k, ¬km.AuthoritySent collector channelId keyCustodians k)
      (hagree : ∀ response ∈ collector.responses.entries, response.2 = key)
      (hfew : collector.responses.entries.length <
        (computeConsensusThreshold collector.observedMembers).toNat) :
      Decides km collector channelId keyCustodians key .unverified
  | disputed (hnone : ∀ k, ¬km.AuthoritySent collector channelId keyCustodians k)
      (hdisagree : ∀ k, ∃ response ∈ collector.responses.entries, response.2 ≠ k) :
      Decides km collector channelId keyCustodians key .disputed

theorem findCustodianKeyInGroups_eq_none {km : KeyManager} {responses : List Response}
    {keyGroups : List (ChannelKey × List String)} {channelId : UInt32}
    {keyCustodians : List String} (hgroups : IsGrouping Sigma.snd Sigma.fst responses keyGroups)
    (hnone : ∀ response ∈ responses,
      ¬km.isTrustedAuthority response.1 channelId keyCustodians = true) (requestId : String) :
    (km.removeCollector requestId).findCustodianKeyInGroups keyGroups channelId
      keyCustodians = none := by
  unfold findCustodianKeyInGroups
  rw [Option.map_eq_none_iff, List.find?_eq_none]
  intro group hgroup hany
  obtain ⟨sender, hsender, htrusted⟩ := List.any_eq_true.mp hany
  obtain ⟨response, hresponse, -, rfl⟩ := hgroups.mem_values hgroup hsender
  exact hnone response hresponse htrusted

/-! ## The results that an evaluation can have -/

inductive CanResult (km : KeyManager) (collector : ConsensusCollector) (channelId : UInt32)
    (keyCustodians : List String) : KeyTrustLevel → Option ChannelKey → Prop where
  | nothing (hempty : collector.responses.entries = []) :
      CanResult km collector channelId keyCustodians .unverified none
  | authority {key : ChannelKey}
      (hsent : km.AuthoritySent collector channelId keyCustodians key) :
      CanResult km collector channelId keyCustodians .verified (some key)
  | agreed {key : ChannelKey}
      (hnobody : ∀ k, ¬km.AuthoritySent collector channelId keyCustodians k)
      (hne : collector.responses.entries ≠ [])
      (hagree : ∀ response ∈ collector.responses.entries, response.2 = key) :
      CanResult km collector channelId keyCustodians
        (if (computeConsensusThreshold collector.observedMembers).toNat ≤
            collector.responses.entries.length then .verified else .unverified)
        (some key)
  | disputed {key : ChannelKey}
      (hnobody : ∀ k, ¬km.AuthoritySent collector channelId keyCustodians k)
      (hdisagree : ∃ response ∈ collector.responses.entries, response.2 ≠ key)
      (hlargest : ∀ k, (supporters collector.responses.entries k).card ≤
        (supporters collector.responses.entries key).card) :
      CanResult km collector channelId keyCustodians .disputed (some key)

def resultState (km : KeyManager) (requestId : String) (channelId : UInt32)
    (trust : KeyTrustLevel) : Option ChannelKey → KeyManager
  | some key => (km.removeCollector requestId).storeArchiveKey channelId key trust
  | none => km.removeCollector requestId

section Results

variable {km : KeyManager} {collector : ConsensusCollector} {requestId : String}
  {channelId : UInt32} {keyCustodians : List String}

theorem length_group (order : HashOrder) {groups : List (ChannelKey × List String)}
    (hgroups : IsGrouping Sigma.snd Sigma.fst (order.visit collector.responses.entries) groups)
    {group : ChannelKey × List String} (hgroup : group ∈ groups) :
    group.2.length = (supporters collector.responses.entries group.1).card := by
  rw [card_supporters_of_nodupKeys collector.responses.nodupKeys, hgroups.values group hgroup,
    List.length_map]
  exact ((order.perm collector.responses.entries).filter _).length_eq

/-- An evaluation of a collector has one of the possible results. -/
theorem evaluateConsensus_canResult (channelId : UInt32) (keyCustodians : List String)
    (hpending : km.pendingConsensus requestId = some collector)
    (responseOrder groupOrder : HashOrder) :
    ∃ trust key, km.CanResult collector channelId keyCustodians trust key ∧
      km.evaluateConsensus responseOrder groupOrder requestId channelId keyCustodians =
        (km.resultState requestId channelId trust key, .ok (trust, key)) := by
  have hperm := responseOrder.perm collector.responses.entries
  have hmem : ∀ {response : Response},
      response ∈ responseOrder.visit collector.responses.entries ↔
        response ∈ collector.responses.entries := responseOrder.mem_visit
  by_cases hempty : collector.responses.entries = []
  · have hvisit : responseOrder.visit collector.responses.entries = [] :=
      List.Perm.eq_nil (hempty ▸ hperm)
    refine ⟨.unverified, none, .nothing hempty, ?_⟩
    simp only [evaluateConsensus, hpending, hvisit]
    rfl
  have hvisit : responseOrder.visit collector.responses.entries ≠ [] :=
    fun h => hempty (List.Perm.eq_nil (h ▸ hperm.symm))
  unfold evaluateConsensus
  simp only [hpending, List.isEmpty_eq_false_iff.mpr hvisit, Bool.false_eq_true, if_false]
  split
  · next response hfind =>
      have hsent := hmem.mp (List.mem_of_find?_eq_some hfind)
      have htrusted := List.find?_some hfind
      exact ⟨.verified, some response.2, .authority ⟨response.1, hsent, htrusted⟩, rfl⟩
  · next hfind =>
      have hnone : ∀ response ∈ responseOrder.visit collector.responses.entries,
          ¬km.isTrustedAuthority response.1 channelId keyCustodians = true :=
        List.find?_eq_none.mp hfind
      have hnobody : ∀ k, ¬km.AuthoritySent collector channelId keyCustodians k := by
        rintro k ⟨sender, hsent, htrusted⟩
        exact hnone ⟨sender, k⟩ (hmem.mpr hsent) htrusted
      have hgroups := (isGrouping_groupBy Sigma.snd Sigma.fst
        (responseOrder.visit collector.responses.entries)).visit groupOrder
      split
      · next key senders hsingle =>
          rw [hsingle] at hgroups
          obtain ⟨hkeys, hsenders⟩ := hgroups.eq_singleton
          have hlength : senders.length = collector.responses.entries.length := by
            rw [hsenders, List.length_map, hperm.length_eq]
          rw [hlength]
          exact ⟨_, some key, .agreed hnobody hempty fun r hr => hkeys r (hmem.mpr hr), rfl⟩
      · next hmany =>
          rw [findCustodianKeyInGroups_eq_none hgroups hnone]
          obtain ⟨group, hgroup⟩ := maxByKey_isSome (f := fun group => group.2.length)
            (hgroups.ne_nil hvisit)
          rw [hgroup]
          obtain ⟨hgroup, hlargest⟩ := isLargest_of_maxByKey hgroup
          refine ⟨.disputed, some group.1, .disputed hnobody ?_ fun k => ?_, rfl⟩
          · by_contra! hsame
            obtain ⟨values, hsingle⟩ := hgroups.length_eq_one hvisit
              (fun response hresponse => hsame response (hmem.mp hresponse))
            exact hmany group.1 values hsingle
          · rw [← length_group responseOrder hgroups hgroup]
            by_cases hk : ∃ response ∈ responseOrder.visit collector.responses.entries,
                response.2 = k
            · obtain ⟨other, hother, rfl⟩ := List.mem_map.mp ((hgroups.covers k).mpr hk)
              rw [← length_group responseOrder hgroups hother]
              exact hlargest other hother
            · rw [card_supporters_of_nodupKeys collector.responses.nodupKeys,
                List.filter_eq_nil_iff.mpr fun response hresponse hkey =>
                  hk ⟨response, hmem.mpr hresponse, of_decide_eq_true hkey⟩]
              exact Nat.zero_le _

theorem exists_sender_of_largest {key : ChannelKey}
    (hdisagree : ∃ response ∈ collector.responses.entries, response.2 ≠ key)
    (hlargest : ∀ k, (supporters collector.responses.entries k).card ≤
      (supporters collector.responses.entries key).card) :
    ∃ sender, (⟨sender, key⟩ : Response) ∈ collector.responses.entries := by
  obtain ⟨response, hresponse, -⟩ := hdisagree
  have hpos : 0 < (supporters collector.responses.entries key).card :=
    lt_of_lt_of_le
      (Finset.card_pos.mpr ⟨response.1, mem_supporters.mpr hresponse⟩) (hlargest response.2)
  obtain ⟨sender, hsender⟩ := Finset.card_pos.mp hpos
  exact ⟨sender, mem_supporters.mp hsender⟩

theorem exists_ne_of_largest {key : ChannelKey}
    (hdisagree : ∃ response ∈ collector.responses.entries, response.2 ≠ key)
    (hlargest : ∀ k, (supporters collector.responses.entries k).card ≤
      (supporters collector.responses.entries key).card) (k : ChannelKey) :
    ∃ response ∈ collector.responses.entries, response.2 ≠ k := by
  obtain ⟨sender, hsender⟩ := exists_sender_of_largest hdisagree hlargest
  by_cases hk : key = k
  · exact hk ▸ hdisagree
  · exact ⟨_, hsender, hk⟩

end Results

variable (responseOrder groupOrder : HashOrder) (km : KeyManager) (requestId : String)
  (channelId : UInt32) (keyCustodians : List String)

theorem evaluateConsensus_cases :
    (km.pendingConsensus requestId = none ∧ ∃ e,
        km.evaluateConsensus responseOrder groupOrder requestId channelId keyCustodians =
          (km, .error e)) ∨
      ∃ collector, km.pendingConsensus requestId = some collector ∧
        ((collector.responses.entries = [] ∧
            km.evaluateConsensus responseOrder groupOrder requestId channelId keyCustodians =
              (km.removeCollector requestId, .ok (.unverified, none))) ∨
          ∃ key trust, collector.responses.entries ≠ [] ∧
            (∃ sender, (⟨sender, key⟩ : Response) ∈ collector.responses.entries) ∧
            km.Decides collector channelId keyCustodians key trust ∧
            km.evaluateConsensus responseOrder groupOrder requestId channelId keyCustodians =
              ((km.removeCollector requestId).storeArchiveKey channelId key trust,
                .ok (trust, some key))) := by
  cases hpending : km.pendingConsensus requestId with
  | none =>
      refine .inl ⟨rfl, .invalidState "no consensus collector", ?_⟩
      simp only [evaluateConsensus, hpending]
  | some collector =>
      obtain ⟨trust, result, hresult, hevaluate⟩ :=
        evaluateConsensus_canResult channelId keyCustodians hpending responseOrder groupOrder
      rw [hevaluate]
      refine .inr ⟨collector, rfl, ?_⟩
      cases hresult with
      | nothing hempty => exact .inl ⟨hempty, rfl⟩
      | @authority key hsent =>
          have hsent' := hsent
          obtain ⟨sender, hmem, -⟩ := hsent'
          exact .inr ⟨key, .verified, List.ne_nil_of_mem hmem, ⟨sender, hmem⟩,
            .verified (.inl hsent), rfl⟩
      | @agreed key hnobody hne hagree =>
          obtain ⟨response, hresponse⟩ := List.exists_mem_of_ne_nil _ hne
          refine .inr ⟨key, _, hne, ⟨response.1, hagree response hresponse ▸ hresponse⟩, ?_, rfl⟩
          split
          · next henough => exact .verified (.inr ⟨hagree, henough⟩)
          · next hfew => exact .unverified hnobody hagree (Nat.lt_of_not_le hfew)
      | @disputed key hnobody hdisagree hlargest =>
          obtain ⟨sender, hmem⟩ := exists_sender_of_largest hdisagree hlargest
          exact .inr ⟨key, .disputed, List.ne_nil_of_mem hmem, ⟨sender, hmem⟩,
            .disputed hnobody (exists_ne_of_largest hdisagree hlargest), rfl⟩

end KeyManager

end FancyMumble.Persistent
