import FancyMumble.Persistent.Keys.Consensus
import FancyMumble.Persistent.Keys.Exchange

/-!
# Consensus and the order of the responses

The responses to a request are collected in the order in which they arrive, of each
sender the last one, and an evaluation visits them in the order of a hash map. When is
the result the same for all orders?
-/

namespace FancyMumble.Persistent

open Lib.Choice Lib.Grouping

/-! ## Collected responses -/

def ConsensusCollector.collect (observedMembers : UInt32) (received : List Response) :
    ConsensusCollector where
  responses := insertAll ∅ received
  observedMembers := observedMembers

def loyalSupporters (responses : List Response) (key : ChannelKey) : Finset String :=
  (supporters responses key).filter fun sender =>
    ∀ response ∈ responses, response.1 = sender → response.2 = key

theorem mem_loyalSupporters {responses : List Response} {key : ChannelKey} {sender : String} :
    sender ∈ loyalSupporters responses key ↔ (⟨sender, key⟩ : Response) ∈ responses ∧
      ∀ k, (⟨sender, k⟩ : Response) ∈ responses → k = key := by
  unfold loyalSupporters
  rw [Finset.mem_filter, mem_supporters]
  refine and_congr_right fun _ => ⟨fun h k hk => h _ hk rfl, ?_⟩
  rintro h ⟨s, k⟩ hk rfl
  exact h k hk

namespace KeyManager

/-! ## The results for all orders of a hash map -/

section Results

variable {km : KeyManager} {collector : ConsensusCollector} {requestId : String}
  {channelId : UInt32} {keyCustodians : List String}

theorem evaluateConsensus_disputed {groupOrder : HashOrder} {group : ChannelKey × List String}
    (hpending : km.pendingConsensus requestId = some collector)
    (hnobody : ∀ k, ¬km.AuthoritySent collector channelId keyCustodians k)
    (hdisagree : ∀ k, ∃ response ∈ collector.responses.entries, response.2 ≠ k)
    (hgroup : maxByKey (fun group => group.2.length) (groupOrder.visit
      (groupBy Sigma.snd Sigma.fst collector.responses.entries)) = some group) :
    (km.evaluateConsensus .listed groupOrder requestId channelId keyCustodians).2 =
      .ok (.disputed, some group.1) := by
  have hne : collector.responses.entries.isEmpty = false := by
    obtain ⟨response, hresponse, -⟩ := hdisagree group.1
    exact List.isEmpty_eq_false_iff.mpr (List.ne_nil_of_mem hresponse)
  have hnone : ∀ response ∈ collector.responses.entries,
      ¬km.isTrustedAuthority response.1 channelId keyCustodians = true :=
    fun response hresponse htrusted => hnobody response.2 ⟨response.1, hresponse, htrusted⟩
  have hgroups := (isGrouping_groupBy Sigma.snd Sigma.fst
    collector.responses.entries).visit groupOrder
  unfold evaluateConsensus
  simp only [hpending, HashOrder.listed, hne, Bool.false_eq_true, if_false,
    removeCollector_isTrustedAuthority, List.find?_eq_none.mpr hnone]
  split
  · next key senders hsingle =>
      rw [hsingle] at hgroups
      obtain ⟨response, hresponse, hkey⟩ := hdisagree key
      exact absurd (hgroups.eq_singleton.1 response hresponse) hkey
  · rw [findCustodianKeyInGroups_eq_none hgroups hnone, hgroup]

theorem CanResult.eq_of_agree {trust : KeyTrustLevel} {result : Option ChannelKey}
    {key : ChannelKey} (h : km.CanResult collector channelId keyCustodians trust result)
    (hnobody : ∀ k, ¬km.AuthoritySent collector channelId keyCustodians k)
    (hne : collector.responses.entries ≠ [])
    (hagree : ∀ response ∈ collector.responses.entries, response.2 = key) :
    result = some key ∧
      trust = if (computeConsensusThreshold collector.observedMembers).toNat ≤
        collector.responses.entries.length then .verified else .unverified := by
  obtain ⟨first, hfirst⟩ := List.exists_mem_of_ne_nil _ hne
  cases h with
  | nothing hempty => exact absurd hempty hne
  | authority hsent => exact absurd hsent (hnobody _)
  | agreed _ _ hagree' =>
      exact ⟨congrArg some ((hagree' first hfirst).symm.trans (hagree first hfirst)), rfl⟩
  | @disputed key' _ hdisagree hlargest =>
      -- the key of all would have more senders than the largest group
      obtain ⟨response, hresponse, hother⟩ := hdisagree
      rw [hagree response hresponse] at hother
      have hnone : supporters collector.responses.entries key' = ∅ := by
        rw [Finset.eq_empty_iff_forall_notMem]
        intro sender hsender
        exact hother (hagree _ (mem_supporters.mp hsender)).symm
      have hsome : first.1 ∈ supporters collector.responses.entries key :=
        mem_supporters.mpr (hagree first hfirst ▸ hfirst)
      have hcard := hlargest key
      rw [hnone, Finset.card_empty, Nat.le_zero, Finset.card_eq_zero] at hcard
      rw [hcard] at hsome
      exact absurd hsome (Finset.notMem_empty _)

theorem exists_group_of_largest {key : ChannelKey}
    (hdisagree : ∃ response ∈ collector.responses.entries, response.2 ≠ key)
    (hlargest : ∀ k, (supporters collector.responses.entries k).card ≤
      (supporters collector.responses.entries key).card) :
    ∃ group, group.1 = key ∧ IsLargest (fun group : ChannelKey × List String => group.2.length)
      (groupBy Sigma.snd Sigma.fst collector.responses.entries) group := by
  have hgroups := isGrouping_groupBy Sigma.snd Sigma.fst collector.responses.entries
  have hlength : ∀ group ∈ groupBy Sigma.snd Sigma.fst collector.responses.entries,
      group.2.length = (supporters collector.responses.entries group.1).card :=
    fun group hgroup => length_group .listed hgroups hgroup
  obtain ⟨sender, hsender⟩ := exists_sender_of_largest hdisagree hlargest
  obtain ⟨group, hgroup, rfl⟩ := List.mem_map.mp ((hgroups.covers key).mpr ⟨_, hsender, rfl⟩)
  refine ⟨group, rfl, hgroup, fun other hother => ?_⟩
  show other.2.length ≤ group.2.length
  rw [hlength group hgroup, hlength other hother]
  exact hlargest other.1

theorem exists_order_of_canResult (hpending : km.pendingConsensus requestId = some collector)
    {trust : KeyTrustLevel} {result : Option ChannelKey}
    (h : km.CanResult collector channelId keyCustodians trust result) :
    ∃ responseOrder groupOrder,
      (km.evaluateConsensus responseOrder groupOrder requestId channelId keyCustodians).2 =
        .ok (trust, result) := by
  cases h with
  | nothing hempty =>
      refine ⟨.listed, .listed, ?_⟩
      simp only [evaluateConsensus, hpending, HashOrder.listed, hempty]
      rfl
  | @authority key hsent =>
      obtain ⟨sender, hsent, htrusted⟩ := hsent
      obtain ⟨n, rest, hn⟩ := exists_rotate_eq_cons hsent
      refine ⟨rotated n, .listed, ?_⟩
      simp only [evaluateConsensus, hpending, rotated, hn, List.isEmpty_cons, Bool.false_eq_true,
        if_false, List.find?_cons, removeCollector_isTrustedAuthority, htrusted]
  | @agreed key hnobody hne hagree =>
      obtain ⟨trust, result, hresult, hevaluate⟩ :=
        evaluateConsensus_canResult channelId keyCustodians hpending .listed .listed
      obtain ⟨rfl, rfl⟩ := hresult.eq_of_agree hnobody hne hagree
      exact ⟨.listed, .listed, by rw [hevaluate]⟩
  | @disputed key hnobody hdisagree hlargest =>
      obtain ⟨group, rfl, hgroup⟩ := exists_group_of_largest hdisagree hlargest
      obtain ⟨n, hn⟩ := (chooses_maxByKey _).taken hgroup
      exact ⟨.listed, rotated n, evaluateConsensus_disputed hpending hnobody
        (exists_ne_of_largest hdisagree hlargest) hn⟩

end Results

/-! ## Orders of arrival -/

structure Answers (crypto : Crypto) (km : KeyManager) (requestId : String)
    (exchange : PchatKeyExchange) (response : Response) : Prop where
  requestId : exchange.requestId = some requestId
  senderHash : exchange.senderHash = response.1
  accepts : km.Accepts crypto exchange none response.2

theorem receiveKeyExchange_of_answers {crypto : Crypto} {km : KeyManager} {requestId : String}
    {exchange : PchatKeyExchange} {response : Response}
    (h : km.Answers crypto requestId exchange response) (observedMembers : UInt32)
    (received : List Response) :
    ((km.setCollector requestId (.collect observedMembers received)).receiveKeyExchange crypto
        exchange none).1 =
      km.setCollector requestId (.collect observedMembers (received ++ [response])) := by
  have hopen : (km.setCollector requestId
      (.collect observedMembers received)).openKeyExchange crypto exchange none =
        .ok response.2 := h.accepts.1
  rw [receiveKeyExchange, hopen]
  simp only [h.accepts.2, storeExchangedKey, h.requestId, collectedBy, collectorOf, setCollector,
    Function.update_self, Function.update_idem, Option.getD_some, ConsensusCollector.collect,
    insertAll, List.foldl_append, List.foldl_cons, List.foldl_nil, h.senderHash]

theorem collect_answers {crypto : Crypto} {km : KeyManager} {requestId : String}
    {exchanges : List PchatKeyExchange} {responses : List Response}
    (h : List.Forall₂ (km.Answers crypto requestId) exchanges responses)
    (observedMembers : UInt32) (received : List Response) :
    exchanges.foldl (fun km exchange => (km.receiveKeyExchange crypto exchange none).1)
        (km.setCollector requestId (.collect observedMembers received)) =
      km.setCollector requestId (.collect observedMembers (received ++ responses)) := by
  induction h generalizing received with
  | nil => rw [List.append_nil, List.foldl_nil]
  | cons hanswers _ ih =>
      rw [List.foldl_cons, receiveKeyExchange_of_answers hanswers, ih, List.append_assoc,
        List.singleton_append]

/-- The evaluation of a request to which responses have arrived one after the other. -/
def evaluateCollected (km : KeyManager) (requestId : String) (channelId : UInt32)
    (keyCustodians : List String) (observedMembers : UInt32) (received : List Response)
    (responseOrder groupOrder : HashOrder) :
    KeyManager × Except Error (KeyTrustLevel × Option ChannelKey) :=
  (km.setCollector requestId (.collect observedMembers received)).evaluateConsensus
    responseOrder groupOrder requestId channelId keyCustodians

/-- The order of the responses does not matter: the authorities among the senders sent one
key, or without an authority all responses agree, or no key was sent by everyone and one
key has more senders that sent nothing else than any other key has senders. -/
inductive Settled (km : KeyManager) (channelId : UInt32) (keyCustodians : List String)
    (received : List Response) : Prop where
  | byAuthority {sender : String} {key : ChannelKey}
      (hsent : (⟨sender, key⟩ : Response) ∈ received)
      (htrusted : km.isTrustedAuthority sender channelId keyCustodians = true)
      (hagree : ∀ response ∈ received,
        km.isTrustedAuthority response.1 channelId keyCustodians = true → response.2 = key)
  | byAgreement
      (hnobody : ∀ response ∈ received,
        ¬km.isTrustedAuthority response.1 channelId keyCustodians = true)
      (hagree : ∀ response ∈ received, ∀ response' ∈ received, response.2 = response'.2)
  | byMajority {key : ChannelKey}
      (hnobody : ∀ response ∈ received,
        ¬km.isTrustedAuthority response.1 channelId keyCustodians = true)
      (hnever : ∀ k, ∃ response ∈ received, response.1 ∉ supporters received k)
      (hahead : ∀ k, k ≠ key →
        (supporters received k).card < (loyalSupporters received key).card)

section Orders

variable {km : KeyManager} {requestId : String} {channelId : UInt32}
  {keyCustodians : List String} {observedMembers : UInt32} {received order : List Response}

theorem entries_collect :
    (ConsensusCollector.collect observedMembers order).responses.entries =
      (insertAll ∅ order).entries := rfl

theorem resultState_setCollector (collector : ConsensusCollector) (trust : KeyTrustLevel)
    (key : Option ChannelKey) :
    (km.setCollector requestId collector).resultState requestId channelId trust key =
      km.resultState requestId channelId trust key := by
  have hremove : (km.setCollector requestId collector).removeCollector requestId =
      km.removeCollector requestId := by
    simp only [removeCollector, setCollector, Function.update_idem]
  cases key <;> simp only [resultState, hremove]

theorem CanResult.of_authoritySent {km' : KeyManager} {collector : ConsensusCollector}
    {trust : KeyTrustLevel} {result : Option ChannelKey}
    (hresult : km.CanResult collector channelId keyCustodians trust result)
    (h : ∀ key, km'.AuthoritySent collector channelId keyCustodians key ↔
      km.AuthoritySent collector channelId keyCustodians key) :
    km'.CanResult collector channelId keyCustodians trust result := by
  cases hresult with
  | nothing hempty => exact .nothing hempty
  | authority hsent => exact .authority ((h _).mpr hsent)
  | agreed hnobody hne hagree =>
      exact .agreed (fun key hsent => hnobody key ((h key).mp hsent)) hne hagree
  | disputed hnobody hdisagree hlargest =>
      exact .disputed (fun key hsent => hnobody key ((h key).mp hsent)) hdisagree hlargest

theorem canResult_setCollector {collector collector' : ConsensusCollector}
    {trust : KeyTrustLevel} {key : Option ChannelKey} :
    (km.setCollector requestId collector').CanResult collector channelId keyCustodians trust key ↔
      km.CanResult collector channelId keyCustodians trust key := by
  constructor
  · intro h
    exact h.of_authoritySent fun _ => Iff.rfl
  · intro h
    exact h.of_authoritySent fun _ => Iff.rfl

theorem pendingConsensus_setCollector_self (km : KeyManager) (requestId : String)
    (collector : ConsensusCollector) :
    (km.setCollector requestId collector).pendingConsensus requestId = some collector :=
  Function.update_self _ _ _

/-- The evaluations are the same for all orders exactly if there is one possible result. -/
theorem evaluateCollected_same_iff :
    (∀ order order', order.Perm received → order'.Perm received →
        ∀ responseOrder groupOrder responseOrder' groupOrder',
          km.evaluateCollected requestId channelId keyCustodians observedMembers order
              responseOrder groupOrder =
            km.evaluateCollected requestId channelId keyCustodians observedMembers order'
              responseOrder' groupOrder') ↔
      ∀ order order', order.Perm received → order'.Perm received →
        ∀ trust key trust' key',
          km.CanResult (.collect observedMembers order) channelId keyCustodians trust key →
          km.CanResult (.collect observedMembers order') channelId keyCustodians trust' key' →
            trust = trust' ∧ key = key' := by
  constructor
  · intro hsame order order' hperm hperm' trust key trust' key' hresult hresult'
    obtain ⟨responseOrder, groupOrder, hevaluate⟩ := exists_order_of_canResult
      (pendingConsensus_setCollector_self km requestId _)
      (canResult_setCollector.mpr hresult)
    obtain ⟨responseOrder', groupOrder', hevaluate'⟩ := exists_order_of_canResult
      (pendingConsensus_setCollector_self km requestId _)
      (canResult_setCollector.mpr hresult')
    have hevaluations := congrArg Prod.snd
      (hsame order order' hperm hperm' responseOrder groupOrder responseOrder' groupOrder')
    unfold evaluateCollected at hevaluations
    rw [hevaluate, hevaluate'] at hevaluations
    cases hevaluations
    exact ⟨rfl, rfl⟩
  · intro hsame order order' hperm hperm' responseOrder groupOrder responseOrder' groupOrder'
    obtain ⟨trust, key, hresult, hevaluate⟩ := evaluateConsensus_canResult channelId
      keyCustodians (pendingConsensus_setCollector_self km requestId
        (.collect observedMembers order)) responseOrder groupOrder
    obtain ⟨trust', key', hresult', hevaluate'⟩ := evaluateConsensus_canResult channelId
      keyCustodians (pendingConsensus_setCollector_self km requestId
        (.collect observedMembers order')) responseOrder' groupOrder'
    obtain ⟨rfl, rfl⟩ := hsame order order' hperm hperm' _ _ _ _
      (canResult_setCollector.mp hresult) (canResult_setCollector.mp hresult')
    unfold evaluateCollected
    rw [hevaluate, hevaluate', resultState_setCollector, resultState_setCollector]

/-! ### Results of a settled request -/

theorem mem_received_of_mem_entries (hperm : order.Perm received) {response : Response}
    (h : response ∈ (insertAll ∅ order).entries) : response ∈ received :=
  hperm.mem_iff.mp (mem_of_mem_insertAll h)

theorem exists_mem_entries (hperm : order.Perm received) {response : Response}
    (h : response ∈ received) :
    ∃ key, (⟨response.1, key⟩ : Response) ∈ (insertAll ∅ order).entries :=
  exists_mem_insertAll (hperm.mem_iff.mpr h)

theorem length_entries_insertAll (order : List Response) :
    (insertAll ∅ order).entries.length = (order.map Sigma.fst).toFinset.card := by
  have hkeys : (insertAll ∅ order).keys.toFinset = (order.map Sigma.fst).toFinset := by
    ext sender
    rw [List.mem_toFinset, List.mem_toFinset, List.mem_map]
    constructor
    · intro h
      obtain ⟨response, hresponse, rfl⟩ := List.mem_map.mp h
      exact ⟨response, mem_of_mem_insertAll hresponse, rfl⟩
    · rintro ⟨response, hresponse, rfl⟩
      obtain ⟨key, hkey⟩ := exists_mem_insertAll hresponse
      exact List.mem_map.mpr ⟨_, hkey, rfl⟩
  rw [← hkeys, List.toFinset_card_of_nodup (AList.keys_nodup _)]
  exact (List.length_map _).symm

theorem supporters_entries_subset (hperm : order.Perm received) (key : ChannelKey) :
    supporters (insertAll ∅ order).entries key ⊆ supporters received key := fun _ h =>
  mem_supporters.mpr (mem_received_of_mem_entries hperm (mem_supporters.mp h))

theorem loyalSupporters_subset_entries (hperm : order.Perm received) (key : ChannelKey) :
    loyalSupporters received key ⊆ supporters (insertAll ∅ order).entries key := by
  intro sender h
  obtain ⟨hsent, honly⟩ := mem_loyalSupporters.mp h
  obtain ⟨last, hlast⟩ := exists_mem_entries hperm hsent
  obtain rfl := honly last (mem_received_of_mem_entries hperm hlast)
  exact mem_supporters.mpr hlast

theorem not_authoritySent (observedMembers : UInt32) (hperm : order.Perm received)
    (hnobody : ∀ response ∈ received,
      ¬km.isTrustedAuthority response.1 channelId keyCustodians = true) (key : ChannelKey) :
    ¬km.AuthoritySent (.collect observedMembers order) channelId keyCustodians key :=
  fun ⟨sender, hsent, htrusted⟩ =>
    hnobody ⟨sender, key⟩ (mem_received_of_mem_entries hperm hsent) htrusted

theorem exists_entry_ne (hperm : order.Perm received) {key : ChannelKey}
    (h : ∃ response ∈ received, response.1 ∉ supporters received key) :
    ∃ response ∈ (insertAll ∅ order).entries, response.2 ≠ key := by
  obtain ⟨response, hresponse, hnot⟩ := h
  obtain ⟨last, hlast⟩ := exists_mem_entries hperm hresponse
  refine ⟨_, hlast, ?_⟩
  rintro rfl
  exact hnot (mem_supporters.mpr (mem_received_of_mem_entries hperm hlast))

theorem CanResult.largest_of_never {trust : KeyTrustLevel} {result : Option ChannelKey}
    (h : km.CanResult (.collect observedMembers order) channelId keyCustodians trust result)
    (hperm : order.Perm received)
    (hnobody : ∀ response ∈ received,
      ¬km.isTrustedAuthority response.1 channelId keyCustodians = true)
    (hnever : ∀ k, ∃ response ∈ received, response.1 ∉ supporters received k) :
    ∃ key, result = some key ∧ trust = .disputed ∧
      ∀ k, (supporters (insertAll ∅ order).entries k).card ≤
        (supporters (insertAll ∅ order).entries key).card := by
  cases h with
  | nothing hempty =>
      obtain ⟨response, hresponse, -⟩ := exists_entry_ne hperm (hnever (.replicate 0))
      exact absurd hempty (List.ne_nil_of_mem hresponse)
  | authority hsent => exact absurd hsent (not_authoritySent observedMembers hperm hnobody _)
  | @agreed key _ _ hagree =>
      obtain ⟨response, hresponse, hne⟩ := exists_entry_ne hperm (hnever key)
      exact absurd (hagree response hresponse) hne
  | disputed _ _ hlargest => exact ⟨_, rfl, rfl, hlargest⟩

/-- A settled request has one result, whatever the order. -/
theorem Settled.exists_result (observedMembers : UInt32)
    (h : km.Settled channelId keyCustodians received) :
    ∃ trust key, ∀ order, order.Perm received → ∀ trust' key',
      km.CanResult (.collect observedMembers order) channelId keyCustodians trust' key' →
        trust' = trust ∧ key' = key := by
  cases h with
  | @byAuthority sender key hsent htrusted hagree =>
      refine ⟨.verified, some key, fun order hperm trust' key' hresult => ?_⟩
      obtain ⟨last, hlast⟩ := exists_mem_entries hperm hsent
      cases hresult with
      | nothing hempty =>
          rw [entries_collect] at hempty
          rw [hempty] at hlast
          exact absurd hlast List.not_mem_nil
      | authority hsent' =>
          obtain ⟨sender', hmem, htrusted'⟩ := hsent'
          have hkey := hagree _ (mem_received_of_mem_entries hperm hmem) htrusted'
          exact ⟨rfl, congrArg some hkey⟩
      | agreed hnobody => exact absurd ⟨sender, hlast, htrusted⟩ (hnobody last)
      | disputed hnobody => exact absurd ⟨sender, hlast, htrusted⟩ (hnobody last)
  | byAgreement hnobody hagree =>
      by_cases hempty : received = []
      · subst hempty
        refine ⟨.unverified, none, fun order hperm trust' key' hresult => ?_⟩
        obtain rfl := hperm.eq_nil
        cases hresult with
        | nothing => exact ⟨rfl, rfl⟩
        | authority hsent' =>
            obtain ⟨_, hmem, -⟩ := hsent'
            exact absurd hmem List.not_mem_nil
        | agreed _ hne => exact absurd rfl hne
        | disputed _ hdisagree =>
            obtain ⟨_, hmem, -⟩ := hdisagree
            exact absurd hmem List.not_mem_nil
      · obtain ⟨first, hfirst⟩ := List.exists_mem_of_ne_nil received hempty
        refine ⟨if (computeConsensusThreshold observedMembers).toNat ≤
            (received.map Sigma.fst).toFinset.card then .verified else .unverified,
          some first.2, fun order hperm trust' key' hresult => ?_⟩
        obtain ⟨last, hlast⟩ := exists_mem_entries hperm hfirst
        have hresult' := hresult.eq_of_agree (not_authoritySent observedMembers hperm hnobody)
          (List.ne_nil_of_mem hlast) fun response hresponse =>
            hagree response (mem_received_of_mem_entries hperm hresponse) first hfirst
        rw [entries_collect, length_entries_insertAll,
          List.toFinset_eq_of_perm _ _ (hperm.map Sigma.fst)] at hresult'
        exact ⟨hresult'.2, hresult'.1⟩
  | @byMajority key hnobody hnever hahead =>
      refine ⟨.disputed, some key, fun order hperm trust' result hresult => ?_⟩
      obtain ⟨key', rfl, rfl, hlargest⟩ := hresult.largest_of_never hperm hnobody hnever
      refine ⟨rfl, ?_⟩
      by_contra hne
      have hahead' := hahead key' fun h => hne (congrArg some h)
      have hkey := hlargest key
      have hupper := Finset.card_le_card (supporters_entries_subset hperm key')
      have hlower := Finset.card_le_card (loyalSupporters_subset_entries hperm key)
      omega

/-! ### Orders that tell keys apart -/

theorem exists_order_ending {response : Response} (h : response ∈ received) :
    ∃ order, order.Perm received ∧ response ∈ (insertAll ∅ order).entries := by
  obtain ⟨n, rest, hn⟩ := exists_rotate_eq_append h
  refine ⟨rest ++ [response], hn ▸ List.rotate_perm received n, ?_⟩
  exact mem_insertAll_append_singleton rest response

/-- An order in which the responses with one key come first and those with another one
last. -/
def arranged (received : List Response) (first last : ChannelKey) : List Response :=
  received.filter (fun response => response.2 = first) ++
    ((received.filter fun response => ¬response.2 = first).filter (fun response =>
        ¬response.2 = last) ++
      (received.filter fun response => ¬response.2 = first).filter (fun response =>
        response.2 = last))

theorem arranged_perm (received : List Response) (first last : ChannelKey) :
    (arranged received first last).Perm received := by
  have hlater := List.filter_append_perm (fun response : Response => decide (response.2 = last))
    (received.filter fun response => ¬response.2 = first)
  have hall := List.filter_append_perm (fun response : Response => decide (response.2 = first))
    received
  simp only [← decide_not] at hlater hall
  exact (List.Perm.append_left _ (List.perm_append_comm.trans hlater)).trans hall

theorem supporters_arranged_last (received : List Response) {first last : ChannelKey}
    (h : last ≠ first) :
    supporters received last ⊆ supporters (insertAll ∅ (arranged received first last)).entries
      last := by
  intro sender hsender
  have hmem : (⟨sender, last⟩ : Response) ∈
      (received.filter fun response => ¬response.2 = first).filter (fun response =>
        response.2 = last) := by
    simpa [h] using mem_supporters.mp hsender
  obtain ⟨key, hkey⟩ := exists_mem_insertAll hmem
  obtain rfl : key = last := by
    have := List.of_mem_filter (mem_of_mem_insertAll hkey)
    exact of_decide_eq_true this
  exact mem_supporters.mpr (mem_insertAll_append.mpr (.inl (mem_insertAll_append.mpr (.inl hkey))))

theorem supporters_arranged_first (received : List Response) (first last : ChannelKey) :
    supporters (insertAll ∅ (arranged received first last)).entries first ⊆
      loyalSupporters received first := by
  intro sender hsender
  have hentry := mem_supporters.mp hsender
  refine mem_loyalSupporters.mpr
    ⟨mem_received_of_mem_entries (arranged_perm received first last) hentry, fun key hkey => ?_⟩
  by_contra hne
  have hlater : (⟨sender, key⟩ : Response) ∈
      (received.filter fun response => ¬response.2 = first).filter (fun response =>
          ¬response.2 = last) ++
        (received.filter fun response => ¬response.2 = first).filter (fun response =>
          response.2 = last) := by
    by_cases hkeylast : key = last
    · exact List.mem_append_right _ (by simp [hkey, hne, hkeylast.symm])
    · exact List.mem_append_left _ (by simp [hkey, hne, hkeylast])
  rcases mem_insertAll_append.mp hentry with hlate | ⟨hnone, -⟩
  · have := mem_of_mem_insertAll hlate
    simp at this
  · obtain ⟨key', hkey'⟩ := exists_mem_insertAll hlater
    exact hnone key' hkey'

def SameResults (km : KeyManager) (channelId : UInt32) (keyCustodians : List String)
    (observedMembers : UInt32) (received : List Response) : Prop :=
  ∀ order order', order.Perm received → order'.Perm received →
    ∀ trust key trust' key',
      km.CanResult (.collect observedMembers order) channelId keyCustodians trust key →
      km.CanResult (.collect observedMembers order') channelId keyCustodians trust' key' →
        trust = trust' ∧ key = key'

theorem exists_canResult (km : KeyManager) (channelId : UInt32) (keyCustodians : List String)
    (observedMembers : UInt32) (order : List Response) :
    ∃ trust key,
      km.CanResult (.collect observedMembers order) channelId keyCustodians trust key := by
  obtain ⟨trust, key, hresult, -⟩ := evaluateConsensus_canResult channelId keyCustodians
    (pendingConsensus_setCollector_self km "" (.collect observedMembers order)) .listed .listed
  exact ⟨trust, key, canResult_setCollector.mp hresult⟩

theorem SameResults.settled_of_authority
    (h : km.SameResults channelId keyCustodians observedMembers received) {response : Response}
    (hmem : response ∈ received)
    (htrusted : km.isTrustedAuthority response.1 channelId keyCustodians = true) :
    km.Settled channelId keyCustodians received := by
  obtain ⟨order, hperm, hlast⟩ := exists_order_ending hmem
  refine .byAuthority hmem htrusted fun other hother htrusted' => ?_
  obtain ⟨order', hperm', hlast'⟩ := exists_order_ending hother
  have hsame := h order' order hperm' hperm _ _ _ _
    (.authority ⟨other.1, hlast', htrusted'⟩) (.authority ⟨response.1, hlast, htrusted⟩)
  exact Option.some.inj hsame.2

theorem SameResults.exists_not_supporter
    (h : km.SameResults channelId keyCustodians observedMembers received)
    (hnobody : ∀ response ∈ received,
      ¬km.isTrustedAuthority response.1 channelId keyCustodians = true)
    (hdisagree : ∀ k, ∃ response ∈ received, response.2 ≠ k) (key : ChannelKey) :
    ∃ response ∈ received, response.1 ∉ supporters received key := by
  by_contra! hall
  obtain ⟨other, hother, hne⟩ := hdisagree key
  have hperm := arranged_perm received other.2 key
  have hagree : ∀ response ∈ (insertAll ∅ (arranged received other.2 key)).entries,
      response.2 = key := by
    rintro ⟨sender, k⟩ hresponse
    have hsender := hall _ (mem_received_of_mem_entries hperm hresponse)
    have hlast := mem_supporters.mp (supporters_arranged_last received hne.symm hsender)
    have hlookup := AList.mem_lookup_iff.mpr hlast
    exact Option.some.inj ((AList.mem_lookup_iff.mpr hresponse).symm.trans hlookup)
  obtain ⟨last, hlast⟩ := exists_mem_entries hperm hother
  have hagreed := CanResult.agreed (not_authoritySent observedMembers hperm hnobody)
    (List.ne_nil_of_mem hlast) hagree
  obtain ⟨order, hperm', hending⟩ := exists_order_ending hother
  obtain ⟨trust, result, hresult⟩ :=
    exists_canResult km channelId keyCustodians observedMembers order
  obtain ⟨htrust, rfl⟩ := h _ _ hperm hperm' _ _ _ _ hagreed hresult
  cases hresult with
  | authority hsent => exact not_authoritySent observedMembers hperm' hnobody _ hsent
  | agreed _ _ hagree' => exact hne (hagree' other hending)
  | disputed => split at htrust <;> cases htrust

/-- If two keys have as many senders, an order can be found for each of them to win. -/
theorem SameResults.settled_of_nobody
    (h : km.SameResults channelId keyCustodians observedMembers received)
    (hnobody : ∀ response ∈ received,
      ¬km.isTrustedAuthority response.1 channelId keyCustodians = true) :
    km.Settled channelId keyCustodians received := by
  by_cases hagree : ∀ response ∈ received, ∀ response' ∈ received, response.2 = response'.2
  · exact .byAgreement hnobody hagree
  · have hdisagree : ∀ k, ∃ response ∈ received, response.2 ≠ k := by
      intro k
      by_contra! hall
      exact hagree fun response hr response' hr' =>
        (hall response hr).trans (hall response' hr').symm
    have hnever := h.exists_not_supporter hnobody hdisagree
    obtain ⟨trust, result, hresult⟩ :=
      exists_canResult km channelId keyCustodians observedMembers received
    obtain ⟨key, rfl, rfl, -⟩ := hresult.largest_of_never (List.Perm.refl _) hnobody hnever
    refine @Settled.byMajority _ _ _ _ key hnobody hnever fun k hk => ?_
    by_contra hbehind
    -- the senders of `k` come last, and those of `key` first
    have hperm := arranged_perm received key k
    obtain ⟨trust, result', hresult'⟩ :=
      exists_canResult km channelId keyCustodians observedMembers (arranged received key k)
    obtain ⟨-, rfl⟩ := h _ _ (List.Perm.refl _) hperm _ _ _ _ hresult hresult'
    obtain ⟨key', hkey', -, hlargest⟩ := hresult'.largest_of_never hperm hnobody hnever
    obtain rfl := Option.some.inj hkey'
    have hfirst := Finset.card_le_card (supporters_arranged_first received key k)
    have hlast := Finset.card_le_card (supporters_arranged_last received hk)
    have hwins := CanResult.disputed (not_authoritySent observedMembers hperm hnobody)
      (exists_entry_ne hperm (hnever k)) fun k' => by
        rw [entries_collect]
        exact (hlargest k').trans (by omega)
    exact hk (Option.some.inj (h _ _ hperm hperm _ _ _ _ hwins hresult').2)

theorem Settled.sameResults (h : km.Settled channelId keyCustodians received) :
    km.SameResults channelId keyCustodians observedMembers received := by
  intro order order' hperm hperm' trust key trust' key' hresult hresult'
  obtain ⟨t, k, hone⟩ := h.exists_result observedMembers
  obtain ⟨rfl, rfl⟩ := hone order hperm _ _ hresult
  obtain ⟨rfl, rfl⟩ := hone order' hperm' _ _ hresult'
  exact ⟨rfl, rfl⟩

/-- Exchanges that answer a settled request may arrive in either order. -/
theorem evaluate_answers_of_settled {crypto : Crypto} {exchanges exchanges' : List PchatKeyExchange}
    (harrive : List.Forall₂ (km.Answers crypto requestId) exchanges received)
    (harrive' : List.Forall₂ (km.Answers crypto requestId) exchanges' order)
    (hperm : order.Perm received) (hsettled : km.Settled channelId keyCustodians received)
    (responseOrder groupOrder responseOrder' groupOrder' : HashOrder) :
    (exchanges.foldl (fun km exchange => (km.receiveKeyExchange crypto exchange none).1)
        (km.setCollector requestId (.collect observedMembers []))).evaluateConsensus
          responseOrder groupOrder requestId channelId keyCustodians =
      (exchanges'.foldl (fun km exchange => (km.receiveKeyExchange crypto exchange none).1)
        (km.setCollector requestId (.collect observedMembers []))).evaluateConsensus
          responseOrder' groupOrder' requestId channelId keyCustodians := by
  rw [collect_answers harrive, collect_answers harrive', List.nil_append, List.nil_append]
  exact evaluateCollected_same_iff.mpr hsettled.sameResults received order (List.Perm.refl _)
    hperm responseOrder groupOrder responseOrder' groupOrder'

/-- Evaluating the responses to a request gives the same state and the same answer for all
orders of arrival and all orders of the hash maps exactly if the request is settled. -/
theorem consensus_order_independent_iff (km : KeyManager) (requestId : String)
    (channelId : UInt32) (keyCustodians : List String) (observedMembers : UInt32)
    (received : List Response) :
    (∀ order order', order.Perm received → order'.Perm received →
        ∀ responseOrder groupOrder responseOrder' groupOrder',
          km.evaluateCollected requestId channelId keyCustodians observedMembers order
              responseOrder groupOrder =
            km.evaluateCollected requestId channelId keyCustodians observedMembers order'
              responseOrder' groupOrder') ↔
      km.Settled channelId keyCustodians received := by
  rw [evaluateCollected_same_iff]
  constructor
  · intro hsame
    by_cases hauthority : ∃ response ∈ received,
        km.isTrustedAuthority response.1 channelId keyCustodians = true
    · obtain ⟨response, hresponse, htrusted⟩ := hauthority
      exact SameResults.settled_of_authority hsame hresponse htrusted
    · exact SameResults.settled_of_nobody hsame fun response hresponse htrusted =>
        hauthority ⟨response, hresponse, htrusted⟩
  · exact Settled.sameResults

section Example

private def twoKeys : List Response :=
  [⟨"alice", .replicate 1⟩, ⟨"bob", .replicate 2⟩]

/-- Of two keys with one sender each, the group that is visited last wins. -/
theorem tied_keys_depend_on_order :
    ¬∀ (km : KeyManager) (requestId : String) (channelId : UInt32) (keyCustodians : List String)
      (observedMembers : UInt32) (received order order' : List Response),
      order.Perm received → order'.Perm received →
        ∀ responseOrder groupOrder responseOrder' groupOrder',
          km.evaluateCollected requestId channelId keyCustodians observedMembers order
              responseOrder groupOrder =
            km.evaluateCollected requestId channelId keyCustodians observedMembers order'
              responseOrder' groupOrder' := by
  intro h
  have hsame := h {} "request" 7 [] 0 twoKeys twoKeys twoKeys (List.Perm.refl _)
    (List.Perm.refl _) .listed .listed .listed (rotated 1)
  have hkeys := congrArg (fun outcome => outcome.1.archiveKeys 7) hsame
  exact absurd hkeys (by decide)

end Example

end Orders

end KeyManager

end FancyMumble.Persistent
