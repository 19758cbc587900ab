import FancyMumble.Lib.Paging
import FancyMumble.Lib.Runs
import FancyMumble.Persistent.Provider

/-!
# Pages of messages

What a provider gives for a range of messages: in which order, and whether a walk in pages
comes to every message once.
-/

namespace FancyMumble.Persistent

open Lib.Paging Lib.Runs

/-! ## Providers -/

def CompositeMessageProvider.shown (provider : CompositeMessageProvider) (channelId : UInt32) :
    List StoredMessage :=
  match provider.effectiveMode channelId with
  | .fancyV1FullArchive => provider.persistent.backend.cache channelId
  | _ => provider.volatile.messages channelId

def CompositeMessageProvider.hidden (provider : CompositeMessageProvider) (channelId : UInt32) :
    List StoredMessage :=
  match provider.effectiveMode channelId with
  | .fancyV1FullArchive => provider.volatile.messages channelId
  | _ => provider.persistent.backend.cache channelId

theorem CompositeMessageProvider.getMessages_eq (provider : CompositeMessageProvider)
    (channelId : UInt32) (range : MessageRange) :
    provider.getMessages channelId range = applyRange (provider.shown channelId) range := by
  unfold CompositeMessageProvider.getMessages CompositeMessageProvider.shown
  cases provider.effectiveMode channelId <;> rfl

inductive MessageProvider where
  | volatile (provider : VolatileMessageProvider)
  | persistent (provider : PersistentMessageProvider)
  | composite (provider : CompositeMessageProvider)

/-- How a provider is made: the backend has the modes of the channels. -/
inductive ProviderKind where
  | volatile
  | persistent (modes : UInt32 → PchatProtocol)
  | composite (modes : UInt32 → PchatProtocol)

inductive Write where
  | store (channelId : UInt32) (message : StoredMessage)
  | replace (channelId : UInt32) (replacesId : String) (replacement : StoredMessage)

namespace MessageProvider

def new : ProviderKind → MessageProvider
  | .volatile => .volatile {}
  | .persistent modes => .persistent { backend := { modes } }
  | .composite modes => .composite { persistent.backend := { modes } }

def getMessages : MessageProvider → UInt32 → MessageRange → Option (List StoredMessage)
  | .volatile provider => provider.getMessages
  | .persistent provider => provider.getMessages
  | .composite provider => provider.getMessages

def write : MessageProvider → Write → MessageProvider
  | .volatile provider, .store c message => .volatile (provider.storeMessage c message)
  | .volatile provider, .replace c id replacement =>
      .volatile (provider.replaceMessage c id replacement).1
  | .persistent provider, .store c message => .persistent (provider.storeMessage c message)
  | .persistent provider, .replace c id replacement =>
      .persistent (provider.replaceMessage c id replacement).1
  | .composite provider, .store c message => .composite (provider.storeMessage c message)
  | .composite provider, .replace c id replacement =>
      .composite (provider.replaceMessage c id replacement).1

end MessageProvider

/-- The messages that were stored, by channel, with the replacements in their places. -/
def writeTo (stored : UInt32 → List StoredMessage) : Write → UInt32 → List StoredMessage
  | .store c message => pushTo stored c message
  | .replace c id replacement => (replaceIn stored c id replacement).1

/-! ## Order of the pages -/

def Chronological (msgs : List StoredMessage) : Prop :=
  msgs.Pairwise fun m m' => m.timestamp ≤ m'.timestamp

/-- The position after the cursor and the limit add up to more than a position can be. -/
def Overflows (msgs : List StoredMessage) (range : MessageRange) : Prop :=
  ∃ messageId limit pos, range = .after messageId limit ∧
    msgs.findIdx? (fun m => m.messageId = messageId) = some pos ∧
    2 ^ 64 ≤ pos + 1 + limit.toNat

/-- The contract of `get_messages`, where ranges that are not allowed may panic: pages are in
chronological order, and walking back from the latest messages, or forward from the oldest
one, visits every stored message once. -/
structure ObeysContract (allowed : MessageRange → Prop)
    (get : MessageRange → Option (List StoredMessage)) (stored : List StoredMessage) : Prop where
  total : ∀ range, allowed range → get range ≠ none
  chronological : ∀ range page, get range = some page → Chronological page
  back : ∀ limit : UInt64, 1 ≤ limit.toNat → ∃ page visited, get (.latest limit) = some page ∧
    WalkBack StoredMessage.messageId (fun id => get (.before id limit)) page visited ∧
      visited.Perm stored
  forward : ∀ limit : UInt64, 1 ≤ limit.toNat → (∀ id, allowed (.after id limit)) →
    ∀ oldest, stored.head? = some oldest → ∃ visited,
      WalkForward StoredMessage.messageId (fun id => get (.after id limit)) [oldest] visited ∧
        visited.Perm stored

section ApplyRange

variable {msgs : List StoredMessage}

theorem applyRange_before (msgs : List StoredMessage) (messageId : String) (limit : UInt64) :
    applyRange msgs (.before messageId limit) =
      some (pageBefore StoredMessage.messageId msgs limit.toNat messageId) := by
  cases hfind : msgs.findIdx? fun m => m.messageId = messageId with
  | some pos => simp only [applyRange, pageBefore, hfind]
  | none => simp only [applyRange, pageBefore, hfind]

theorem applyRange_after {messageId : String} {limit : UInt64}
    (h : ¬Overflows msgs (.after messageId limit)) :
    applyRange msgs (.after messageId limit) =
      some (pageAfter StoredMessage.messageId msgs limit.toNat messageId) := by
  cases hfind : msgs.findIdx? fun m => m.messageId = messageId with
  | some pos =>
      have hfits : pos + 1 + limit.toNat < 2 ^ 64 :=
        Nat.lt_of_not_le fun hover => h ⟨messageId, limit, pos, rfl, hfind, hover⟩
      have htake : (msgs.drop (pos + 1)).take
          (min (pos + 1 + limit.toNat) msgs.length - (pos + 1)) =
          (msgs.drop (pos + 1)).take limit.toNat := by
        refine List.take_eq_take_iff.mpr ?_
        rw [List.length_drop]
        omega
      simp only [applyRange, pageAfter, hfind, if_pos hfits, List.drop_take, htake]
  | none => simp only [applyRange, pageAfter, hfind]

theorem applyRange_eq_none_iff {range : MessageRange} :
    applyRange msgs range = none ↔ Overflows msgs range := by
  constructor
  · intro h
    cases range with
    | latest limit => cases h
    | before messageId limit =>
        rw [applyRange_before] at h
        cases h
    | after messageId limit =>
        by_contra hfits
        rw [applyRange_after hfits] at h
        cases h
  · rintro ⟨messageId, limit, pos, rfl, hpos, hover⟩
    unfold applyRange
    dsimp only
    rw [hpos]
    exact if_neg (Nat.not_lt.mpr hover)

theorem sublist_of_applyRange {range : MessageRange} {page : List StoredMessage}
    (h : applyRange msgs range = some page) : page.Sublist msgs := by
  unfold applyRange at h
  split at h
  · cases h
    exact List.drop_sublist _ _
  · split at h
    · cases h
      exact (List.drop_sublist _ _).trans (List.take_sublist _ _)
    · cases h
      exact List.nil_sublist _
  · split at h
    · split at h
      · cases h
        exact (List.drop_sublist _ _).trans (List.take_sublist _ _)
      · cases h
    · cases h
      exact List.nil_sublist _

theorem Chronological.of_applyRange (h : Chronological msgs) {range : MessageRange}
    {page : List StoredMessage} (hpage : applyRange msgs range = some page) :
    Chronological page :=
  h.sublist (sublist_of_applyRange hpage)

theorem nodup_of_back {page visited : List StoredMessage}
    (hlatest : applyRange msgs (.latest 1) = some page)
    (hwalk : WalkBack StoredMessage.messageId (fun id => applyRange msgs (.before id 1))
      page visited)
    (hperm : visited.Perm msgs) : (msgs.map StoredMessage.messageId).Nodup := by
  have hpage : page = (msgs.take msgs.length).drop (msgs.length - 1) := by
    rw [List.take_length]
    exact (Option.some.inj hlatest).symm
  have hnext : ∀ m ∈ msgs, applyRange msgs (.before m.messageId 1) =
      some (pageBefore StoredMessage.messageId msgs 1 m.messageId) :=
    fun m _ => applyRange_before msgs m.messageId 1
  have hnodup := (hwalk.nodup_take hnext msgs.length le_rfl hpage).2 hperm.length_eq
  rwa [List.take_length] at hnodup

theorem chronological_of_pages (hnodup : (msgs.map StoredMessage.messageId).Nodup)
    (hpages : ∀ range page, applyRange msgs range = some page → Chronological page) :
    Chronological msgs := by
  refine List.isChain_iff_pairwise.mp (List.isChain_iff_getElem.mpr fun i hi => ?_)
  have hpair : (msgs.take (i + 2)).drop (i + 2 - 2) = [msgs[i], msgs[i + 1]] := by
    rw [Nat.add_sub_cancel, List.drop_take, Nat.add_sub_cancel_left,
      List.drop_eq_getElem_cons (by omega), List.drop_eq_getElem_cons (by omega)]
    rfl
  have hpage : ∃ range, applyRange msgs range = some [msgs[i], msgs[i + 1]] := by
    by_cases hlast : i + 2 = msgs.length
    · refine ⟨.latest 2, ?_⟩
      rw [← hpair, hlast, List.take_length]
      rfl
    · have hlt : i + 2 < msgs.length := by omega
      have hvalue := List.getElem?_eq_getElem hlt
      refine ⟨.before msgs[i + 2].messageId 2, ?_⟩
      rw [applyRange_before, pageBefore_eq hvalue (notMem_take_of_nodup hnodup hvalue)]
      exact congrArg some hpair
  obtain ⟨range, hrange⟩ := hpage
  exact (List.pairwise_cons.mp (hpages range _ hrange)).1 _ (List.mem_singleton_self _)

theorem obeysContract_iff :
    ObeysContract (fun range => ¬Overflows msgs range) (applyRange msgs) msgs ↔
      Chronological msgs ∧ (msgs.map StoredMessage.messageId).Nodup := by
  constructor
  · intro h
    obtain ⟨page, visited, hlatest, hwalk, hperm⟩ := h.back 1 le_rfl
    have hnodup := nodup_of_back hlatest hwalk hperm
    exact ⟨chronological_of_pages hnodup h.chronological, hnodup⟩
  · rintro ⟨hsorted, hnodup⟩
    refine ⟨fun range hfits => mt applyRange_eq_none_iff.mp hfits,
      fun range page hpage => hsorted.of_applyRange hpage, fun limit hlimit => ?_,
      fun limit hlimit hfits oldest holdest => ?_⟩
    · have hwalk := walkBack_take hnodup hlimit
        (fun id => applyRange msgs (.before id limit))
        (fun m _ => applyRange_before msgs m.messageId limit) msgs.length le_rfl
      rw [List.take_length] at hwalk
      exact ⟨_, msgs, rfl, hwalk, .refl _⟩
    · have hnext : ∀ m ∈ msgs, applyRange msgs (.after m.messageId limit) =
          some (pageAfter StoredMessage.messageId msgs limit.toNat m.messageId) :=
        fun m _ => applyRange_after (hfits m.messageId)
      obtain ⟨rest, rfl⟩ : ∃ rest, msgs = oldest :: rest := by
        cases msgs with
        | nil => cases holdest
        | cons first rest =>
            cases holdest
            exact ⟨rest, rfl⟩
      have hwalk := walkForward_drop hnodup hlimit
        (fun id => applyRange (oldest :: rest) (.after id limit)) hnext _ 1 rfl
      refine ⟨oldest :: rest, ?_, .refl _⟩
      have hfirst := hnext oldest List.mem_cons_self
      have hvalue : (oldest :: rest)[0]? = some oldest := rfl
      rw [pageAfter_eq hvalue (notMem_take_of_nodup hnodup hvalue)] at hfirst
      have hpage : WalkForward StoredMessage.messageId _ ([] ++ [oldest]) _ := .page hfirst hwalk
      exact hpage

end ApplyRange

/-! ## Writes that keep the order -/

/-- A message that is stored is not older than those of the channel and has a new id; one that
replaces another message fits into its place, and no other message has its id. -/
def KeepsOrder (stored : UInt32 → List StoredMessage) : Write → Prop
  | .store c message =>
      ∀ m ∈ stored c, m.timestamp ≤ message.timestamp ∧ m.messageId ≠ message.messageId
  | .replace c id replacement =>
      ∀ before m after, stored c = before ++ m :: after → m.messageId = id →
        m.senderHash = replacement.senderHash →
          (∀ b ∈ before, b.timestamp ≤ replacement.timestamp ∧
            b.messageId ≠ replacement.messageId) ∧
          ∀ a ∈ after, replacement.timestamp ≤ a.timestamp ∧
            a.messageId ≠ replacement.messageId

def Ordered (stored : UInt32 → List StoredMessage) : Prop :=
  ∀ c, Chronological (stored c) ∧ ((stored c).map StoredMessage.messageId).Nodup

theorem ordered_snoc_iff {msgs : List StoredMessage} {message : StoredMessage}
    (h : Chronological msgs ∧ (msgs.map StoredMessage.messageId).Nodup) :
    (Chronological (msgs ++ [message]) ∧
        ((msgs ++ [message]).map StoredMessage.messageId).Nodup) ↔
      ∀ m ∈ msgs, m.timestamp ≤ message.timestamp ∧ m.messageId ≠ message.messageId := by
  have hsorted : Chronological (msgs ++ [message]) ↔
      ∀ m ∈ msgs, m.timestamp ≤ message.timestamp := by
    unfold Chronological
    rw [List.pairwise_append]
    simp only [List.pairwise_singleton, List.mem_singleton, forall_eq, true_and]
    exact and_iff_right h.1
  have hnodup : ((msgs ++ [message]).map StoredMessage.messageId).Nodup ↔
      ∀ m ∈ msgs, m.messageId ≠ message.messageId := by
    rw [List.map_append, List.map_singleton, List.nodup_append]
    simp only [List.nodup_singleton, List.mem_singleton, forall_eq, true_and, List.forall_mem_map]
    exact and_iff_right h.2
  rw [hsorted, hnodup]
  exact ⟨fun hboth m hm => ⟨hboth.1 m hm, hboth.2 m hm⟩,
    fun hall => ⟨fun m hm => (hall m hm).1, fun m hm => (hall m hm).2⟩⟩

theorem ordered_middle_iff {before after : List StoredMessage} {m replacement : StoredMessage}
    (h : Chronological (before ++ m :: after) ∧
      ((before ++ m :: after).map StoredMessage.messageId).Nodup) :
    (Chronological (before ++ replacement :: after) ∧
        ((before ++ replacement :: after).map StoredMessage.messageId).Nodup) ↔
      (∀ b ∈ before, b.timestamp ≤ replacement.timestamp ∧
          b.messageId ≠ replacement.messageId) ∧
        ∀ a ∈ after, replacement.timestamp ≤ a.timestamp ∧
          a.messageId ≠ replacement.messageId := by
  have hsorted : Chronological (before ++ replacement :: after) ↔
      (∀ b ∈ before, b.timestamp ≤ replacement.timestamp) ∧
        ∀ a ∈ after, replacement.timestamp ≤ a.timestamp := by
    have hold := h.1
    unfold Chronological at hold ⊢
    rw [List.pairwise_append, List.pairwise_cons] at hold ⊢
    obtain ⟨hbefore, ⟨-, hafter⟩, hacross⟩ := hold
    constructor
    · rintro ⟨-, ⟨hlater, -⟩, hearlier⟩
      exact ⟨fun b hb => hearlier b hb _ List.mem_cons_self, hlater⟩
    · rintro ⟨hearlier, hlater⟩
      refine ⟨hbefore, ⟨hlater, hafter⟩, fun b hb a ha => ?_⟩
      rcases List.mem_cons.mp ha with rfl | ha
      · exact hearlier b hb
      · exact hacross b hb a (List.mem_cons_of_mem _ ha)
  have hnodup : ((before ++ replacement :: after).map StoredMessage.messageId).Nodup ↔
      (∀ b ∈ before, b.messageId ≠ replacement.messageId) ∧
        ∀ a ∈ after, a.messageId ≠ replacement.messageId := by
    have hold := h.2
    rw [List.map_append, List.map_cons, List.nodup_middle, List.nodup_cons] at hold ⊢
    rw [and_iff_left hold.2, List.mem_append, not_or, List.mem_map, List.mem_map]
    simp only [not_exists, not_and]
  rw [hsorted, hnodup]
  constructor
  · rintro ⟨⟨hearlier, hlater⟩, hbefore, hafter⟩
    exact ⟨fun b hb => ⟨hearlier b hb, hbefore b hb⟩, fun a ha => ⟨hlater a ha, hafter a ha⟩⟩
  · rintro ⟨hbefore, hafter⟩
    exact ⟨⟨fun b hb => (hbefore b hb).1, fun a ha => (hafter a ha).1⟩,
      fun b hb => (hbefore b hb).2, fun a ha => (hafter a ha).2⟩

theorem split_unique {before before' after after' : List StoredMessage} {m m' : StoredMessage}
    (hnodup : ((before ++ m :: after).map StoredMessage.messageId).Nodup)
    (heq : before ++ m :: after = before' ++ m' :: after') (hid : m.messageId = m'.messageId) :
    before = before' ∧ m = m' ∧ after = after' := by
  have hat (l : List StoredMessage) (x : StoredMessage) (r : List StoredMessage) :
      ((l ++ x :: r).map StoredMessage.messageId)[l.length]? = some x.messageId := by simp
  have hsame := (hat before m after).trans (congrArg some hid)
  rw [← hat before' m' after', ← heq] at hsame
  have hlength : before.length = before'.length :=
    (List.getElem?_inj (by simp) hnodup).mp hsame
  obtain ⟨rfl, hrest⟩ := List.append_inj heq hlength
  obtain ⟨rfl, rfl⟩ := List.cons.inj hrest
  exact ⟨rfl, rfl, rfl⟩

theorem ordered_update_iff {stored : UInt32 → List StoredMessage} (h : Ordered stored)
    (c : UInt32) (msgs : List StoredMessage) :
    Ordered (Function.update stored c msgs) ↔
      Chronological msgs ∧ (msgs.map StoredMessage.messageId).Nodup := by
  constructor
  · intro hupdate
    have hc := hupdate c
    rwa [Function.update_self] at hc
  · intro hmsgs c'
    by_cases hc : c' = c
    · rw [hc, Function.update_self]
      exact hmsgs
    · rw [Function.update_of_ne hc]
      exact h c'

theorem ordered_writeTo_iff {stored : UInt32 → List StoredMessage} (h : Ordered stored)
    (w : Write) : Ordered (writeTo stored w) ↔ KeepsOrder stored w := by
  cases w with
  | store c message =>
      exact (ordered_update_iff h c _).trans (ordered_snoc_iff (h c))
  | replace c id replacement =>
      unfold writeTo replaceIn
      dsimp only
      split
      next pos hpos =>
        obtain ⟨hlt, hfound, -⟩ := List.findIdx?_eq_some_iff_getElem.mp hpos
        obtain ⟨hid, hsender⟩ := of_decide_eq_true hfound
        have hsplit : stored c =
            (stored c).take pos ++ (stored c)[pos] :: (stored c).drop (pos + 1) := by
          rw [← List.drop_eq_getElem_cons hlt, List.take_append_drop]
        have hc := h c
        rw [hsplit] at hc
        refine (ordered_update_iff h c _).trans ?_
        rw [List.set_eq_take_append_cons_drop, if_pos hlt, ordered_middle_iff hc]
        constructor
        · intro hfits before m after heq hm hs
          obtain ⟨rfl, rfl, rfl⟩ := split_unique hc.2 (hsplit.symm.trans heq) (hid.trans hm.symm)
          exact hfits
        · exact fun hkeeps => hkeeps _ _ _ hsplit hid hsender
      next hnone =>
        refine iff_of_true h fun before m after heq hm hs => ?_
        have hmem : m ∈ stored c := by
          rw [heq]
          exact List.mem_append_right _ List.mem_cons_self
        exact absurd (decide_eq_true ⟨hm, hs⟩)
          (ne_true_of_eq_false (List.findIdx?_eq_none_iff.mp hnone m hmem))

/-! ## Both stores of the composite provider -/

def replaceFirst (msgs : List StoredMessage) (replacesId : String)
    (replacement : StoredMessage) : List StoredMessage × Bool :=
  match msgs.findIdx? fun m =>
      m.messageId = replacesId ∧ m.senderHash = replacement.senderHash with
  | some pos => (msgs.set pos replacement, true)
  | none => (msgs, false)

theorem replaceIn_eq (messages : UInt32 → List StoredMessage) (c : UInt32) (id : String)
    (replacement : StoredMessage) :
    replaceIn messages c id replacement =
      (Function.update messages c (replaceFirst (messages c) id replacement).1,
        (replaceFirst (messages c) id replacement).2) := by
  cases hfind : (messages c).findIdx? fun m =>
      m.messageId = id ∧ m.senderHash = replacement.senderHash with
  | some pos => simp only [replaceIn, replaceFirst, hfind]
  | none => simp only [replaceIn, replaceFirst, hfind, Function.update_eq_self]

theorem replaceFirst_of_false {msgs : List StoredMessage} {id : String}
    {replacement : StoredMessage} (h : (replaceFirst msgs id replacement).2 = false) :
    (replaceFirst msgs id replacement).1 = msgs := by
  unfold replaceFirst at h ⊢
  split at h
  next => cases h
  next => rfl

namespace CompositeMessageProvider

/-- The messages of a channel that are encrypted for the archive are in the backend. -/
def isPersistent (provider : CompositeMessageProvider) (c : UInt32) : Bool :=
  provider.effectiveMode c = .fancyV1FullArchive

theorem shown_hidden_eq (provider : CompositeMessageProvider) (c : UInt32) :
    (provider.shown c, provider.hidden c) =
      if provider.isPersistent c then
        (provider.persistent.backend.cache c, provider.volatile.messages c)
      else (provider.volatile.messages c, provider.persistent.backend.cache c) := by
  unfold shown hidden isPersistent
  cases provider.effectiveMode c <;> rfl

theorem storeMessage_eq (provider : CompositeMessageProvider) (c : UInt32)
    (message : StoredMessage) :
    provider.storeMessage c message =
      if provider.isPersistent c then
        { provider with persistent := provider.persistent.storeMessage c message }
      else { provider with volatile := provider.volatile.storeMessage c message } := by
  unfold storeMessage isPersistent
  cases provider.effectiveMode c <;> rfl

theorem isPersistent_storeMessage (provider : CompositeMessageProvider) (c : UInt32)
    (message : StoredMessage) (c' : UInt32) :
    (provider.storeMessage c message).isPersistent c' = provider.isPersistent c' := by
  rw [storeMessage_eq]
  cases provider.isPersistent c <;> rfl

theorem stores_storeMessage (provider : CompositeMessageProvider) (c : UInt32)
    (message : StoredMessage) (c' : UInt32) :
    ((provider.storeMessage c message).shown c', (provider.storeMessage c message).hidden c') =
      (pushTo provider.shown c message c', provider.hidden c') := by
  rw [shown_hidden_eq, isPersistent_storeMessage]
  have hstores := shown_hidden_eq provider c'
  rw [storeMessage_eq]
  by_cases hsame : c' = c
  · subst hsame
    rw [pushTo, Function.update_self]
    cases hc : provider.isPersistent c' with
    | false =>
        rw [hc] at hstores
        obtain ⟨hshown, hhidden⟩ := Prod.mk.inj hstores
        rw [hshown, hhidden]
        exact congrArg₂ Prod.mk (Function.update_self _ _ _) rfl
    | true =>
        rw [hc] at hstores
        obtain ⟨hshown, hhidden⟩ := Prod.mk.inj hstores
        rw [hshown, hhidden]
        exact congrArg₂ Prod.mk (Function.update_self _ _ _) rfl
  · rw [pushTo, Function.update_of_ne hsame, hstores]
    have hother (messages : UInt32 → List StoredMessage) :
        pushTo messages c message c' = messages c' := Function.update_of_ne hsame _ _
    cases provider.isPersistent c <;>
      simp [VolatileMessageProvider.storeMessage, PersistentMessageProvider.storeMessage,
        InMemoryPersistentBackend.cacheMessage, hother]

theorem replaceMessage_eq (provider : CompositeMessageProvider) (c : UInt32) (id : String)
    (replacement : StoredMessage) :
    provider.replaceMessage c id replacement =
      if (replaceFirst (provider.volatile.messages c) id replacement).2 then
        ({ provider with
            volatile.messages := Function.update provider.volatile.messages c
              (replaceFirst (provider.volatile.messages c) id replacement).1 }, true)
      else
        ({ provider with
            persistent.backend.cache := Function.update provider.persistent.backend.cache c
              (replaceFirst (provider.persistent.backend.cache c) id replacement).1 },
          (replaceFirst (provider.persistent.backend.cache c) id replacement).2) := by
  unfold replaceMessage VolatileMessageProvider.replaceMessage
    PersistentMessageProvider.replaceMessage InMemoryPersistentBackend.replaceCachedMessage
  simp only [replaceIn_eq]
  cases hfound : (replaceFirst (provider.volatile.messages c) id replacement).2 with
  | false =>
      simp only [replaceFirst_of_false hfound, Function.update_eq_self]
      rfl
  | true => rfl

theorem isPersistent_replaceMessage (provider : CompositeMessageProvider) (c : UInt32)
    (id : String) (replacement : StoredMessage) (c' : UInt32) :
    (provider.replaceMessage c id replacement).1.isPersistent c' = provider.isPersistent c' := by
  rw [replaceMessage_eq]
  cases (replaceFirst (provider.volatile.messages c) id replacement).2 <;> rfl

theorem replaceMessage_snd (provider : CompositeMessageProvider) (c : UInt32) (id : String)
    (replacement : StoredMessage) :
    (provider.replaceMessage c id replacement).2 =
      ((replaceFirst (provider.shown c) id replacement).2 ||
        (replaceFirst (provider.hidden c) id replacement).2) := by
  have hstores := shown_hidden_eq provider c
  rw [replaceMessage_eq]
  cases hc : provider.isPersistent c with
  | false =>
      rw [hc] at hstores
      obtain ⟨hshown, hhidden⟩ := Prod.mk.inj hstores
      rw [hshown, hhidden]
      cases (replaceFirst (provider.volatile.messages c) id replacement).2 <;> rfl
  | true =>
      rw [hc] at hstores
      obtain ⟨hshown, hhidden⟩ := Prod.mk.inj hstores
      rw [hshown, hhidden, Bool.or_comm]
      cases (replaceFirst (provider.volatile.messages c) id replacement).2 <;> rfl

theorem stores_replaceMessage (provider : CompositeMessageProvider) (c : UInt32) (id : String)
    (replacement : StoredMessage) :
    ((provider.replaceMessage c id replacement).1.shown c,
        (provider.replaceMessage c id replacement).1.hidden c) =
      if (replaceFirst (provider.volatile.messages c) id replacement).2 ≠
          provider.isPersistent c then
        ((replaceFirst (provider.shown c) id replacement).1, provider.hidden c)
      else
        (provider.shown c, (replaceFirst (provider.hidden c) id replacement).1) := by
  rw [shown_hidden_eq, isPersistent_replaceMessage, replaceMessage_eq]
  have hstores := shown_hidden_eq provider c
  cases hc : provider.isPersistent c with
  | false =>
      rw [hc] at hstores
      obtain ⟨hshown, hhidden⟩ := Prod.mk.inj hstores
      rw [hshown, hhidden]
      cases (replaceFirst (provider.volatile.messages c) id replacement).2 <;> simp
  | true =>
      rw [hc] at hstores
      obtain ⟨hshown, hhidden⟩ := Prod.mk.inj hstores
      rw [hshown, hhidden]
      cases (replaceFirst (provider.volatile.messages c) id replacement).2 <;> simp

theorem stores_replaceMessage_of_ne (provider : CompositeMessageProvider) {c c' : UInt32}
    (h : c' ≠ c) (id : String) (replacement : StoredMessage) :
    ((provider.replaceMessage c id replacement).1.shown c',
        (provider.replaceMessage c id replacement).1.hidden c') =
      (provider.shown c', provider.hidden c') := by
  rw [shown_hidden_eq, isPersistent_replaceMessage, replaceMessage_eq, shown_hidden_eq]
  cases (replaceFirst (provider.volatile.messages c) id replacement).2 <;>
    simp [Function.update_of_ne h]

end CompositeMessageProvider

/-! ## Runs of writes -/

namespace MessageProvider

/-- The provider reads what was stored, and there is nothing in a store that it does not
read. -/
def Holds (stored : UInt32 → List StoredMessage) : MessageProvider → Prop
  | .volatile provider => provider.messages = stored
  | .persistent provider => provider.backend.cache = stored
  | .composite provider => ∀ c, provider.shown c = stored c ∧ provider.hidden c = []

theorem holds_new (kind : ProviderKind) : (new kind).Holds fun _ => [] := by
  cases kind with
  | volatile => rfl
  | persistent modes => rfl
  | composite modes =>
      intro c
      unfold CompositeMessageProvider.shown CompositeMessageProvider.hidden
      dsimp only
      split <;> exact ⟨rfl, rfl⟩

theorem Holds.getMessages_eq {p : MessageProvider} {stored : UInt32 → List StoredMessage}
    (h : p.Holds stored) (c : UInt32) (range : MessageRange) :
    p.getMessages c range = applyRange (stored c) range := by
  cases p with
  | volatile provider => exact congrArg (fun stored => applyRange (stored c) range) h
  | persistent provider => exact congrArg (fun stored => applyRange (stored c) range) h
  | composite provider =>
      exact (provider.getMessages_eq c range).trans
        (congrArg (fun msgs => applyRange msgs range) (h c).1)

theorem Holds.write {p : MessageProvider} {stored : UInt32 → List StoredMessage}
    (h : p.Holds stored) (w : Write) : (p.write w).Holds (writeTo stored w) := by
  cases p with
  | volatile provider =>
      obtain rfl : provider.messages = stored := h
      cases w <;> rfl
  | persistent provider =>
      obtain rfl : provider.backend.cache = stored := h
      cases w <;> rfl
  | composite provider =>
      cases w with
      | store c message =>
          intro c'
          obtain ⟨hshown, hhidden⟩ := Prod.mk.inj (provider.stores_storeMessage c message c')
          refine ⟨hshown.trans ?_, hhidden.trans (h c').2⟩
          rw [show provider.shown = stored from funext fun c => (h c).1]
          rfl
      | replace c id replacement =>
          intro c'
          have hstored : writeTo stored (.replace c id replacement) =
              Function.update stored c (replaceFirst (stored c) id replacement).1 := by
            rw [writeTo, replaceIn_eq]
          rw [hstored]
          by_cases hsame : c' = c
          · subst hsame
            have hstores := provider.stores_replaceMessage c' id replacement
            rw [(h c').1, (h c').2] at hstores
            rw [Function.update_self]
            refine Prod.mk.inj (hstores.trans ?_)
            have hvolatile := provider.shown_hidden_eq c'
            rw [(h c').1, (h c').2] at hvolatile
            cases hc : provider.isPersistent c' with
            | false =>
                rw [hc] at hvolatile
                rw [← (Prod.mk.inj hvolatile).1]
                cases hfound : (replaceFirst (stored c') id replacement).2 with
                | false => rw [replaceFirst_of_false hfound]; rfl
                | true => rfl
            | true =>
                rw [hc] at hvolatile
                rw [← (Prod.mk.inj hvolatile).2]
                rfl
          · obtain ⟨hshown, hhidden⟩ := Prod.mk.inj
              (provider.stores_replaceMessage_of_ne hsame id replacement)
            rw [Function.update_of_ne hsame]
            exact ⟨hshown.trans (h c').1, hhidden.trans (h c').2⟩

def recordedWrite (s : MessageProvider × (UInt32 → List StoredMessage)) (w : Write) :
    MessageProvider × (UInt32 → List StoredMessage) :=
  (s.1.write w, writeTo s.2 w)

/-- Whatever is written to a provider of any kind, the contract is met in every state exactly if
every write keeps the order; and only ranges whose positions overflow panic. -/
theorem obeysContract_run_iff (kind : ProviderKind) (writes : List Write) :
    (Along recordedWrite (fun s w => ∀ c,
        ObeysContract (fun range => ¬Overflows ((recordedWrite s w).2 c) range)
          ((recordedWrite s w).1.getMessages c) ((recordedWrite s w).2 c))
        (new kind, fun _ => []) writes ↔
      Along recordedWrite (fun s w => KeepsOrder s.2 w) (new kind, fun _ => []) writes) ∧
    ∀ c range,
      (run recordedWrite (new kind, fun _ => []) writes).1.getMessages c range = none ↔
        Overflows ((run recordedWrite (new kind, fun _ => []) writes).2 c) range := by
  have hholds : ∀ s w, s.1.Holds s.2 → (recordedWrite s w).1.Holds (recordedWrite s w).2 :=
    fun s w h => h.write w
  have hget {s : MessageProvider × (UInt32 → List StoredMessage)} (h : s.1.Holds s.2)
      (c : UInt32) : s.1.getMessages c = applyRange (s.2 c) :=
    funext fun range => h.getMessages_eq c range
  have hcontract : ∀ s w, s.1.Holds s.2 ∧ Ordered s.2 → ((∀ c,
        ObeysContract (fun range => ¬Overflows ((recordedWrite s w).2 c) range)
          ((recordedWrite s w).1.getMessages c) ((recordedWrite s w).2 c)) ↔
      KeepsOrder s.2 w) := by
    rintro s w ⟨h, hordered⟩
    refine Iff.trans (forall_congr' fun c => ?_) (ordered_writeTo_iff hordered w)
    rw [hget (hholds s w h)]
    exact obeysContract_iff
  constructor
  · refine along_iff_of_invariant
      (fun s w (hs : s.1.Holds s.2 ∧ Ordered s.2) => hcontract s w hs)
      (fun s w hs hkeeps => ?_) ?_
    · exact ⟨hholds s w hs.1, (ordered_writeTo_iff hs.2 w).mpr hkeeps⟩
    · exact ⟨holds_new kind, fun c => ⟨.nil, List.nodup_nil⟩⟩
  · intro c range
    have hrun : (run recordedWrite (new kind, fun _ => []) writes).1.Holds
        (run recordedWrite (new kind, fun _ => []) writes).2 :=
      invariant_always (fun s w (hs : s.1.Holds s.2) => hholds s w hs) (holds_new kind)
    rw [hrun.getMessages_eq c range]
    exact applyRange_eq_none_iff

section Example

private def pagedMessage (messageId : String) (timestamp : UInt64) : StoredMessage :=
  { messageId, channelId := 1, timestamp, senderHash := "hash", senderName := "name",
    body := "body", encrypted := false }

/-- One message is stored, and what comes after it is asked for, up to the largest limit. -/
theorem pages_break_contract :
    ¬∀ (kind : ProviderKind) (writes : List Write) (c : UInt32),
      let s := run recordedWrite (new kind, fun _ => []) writes
      ObeysContract (fun _ => True) (s.1.getMessages c) (s.2 c) := by
  intro h
  have hstored := h .volatile [.store 1 (pagedMessage "a" 1)] 1
  exact hstored.total (.after "a" (-1)) trivial (by decide)

end Example

end MessageProvider

end FancyMumble.Persistent
