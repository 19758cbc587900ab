import FancyMumble.Persistent.Pages

/-!
# The composite provider as one store

The composite provider reads and writes the store that the mode of the channel names, and
replaces a message in the first store that has it. It is compared with one store that knows
no modes.
-/

namespace FancyMumble.Persistent

open Lib.Runs

/-- What is done to a composite provider, besides reading. -/
inductive Operation where
  | store (channelId : UInt32) (message : StoredMessage)
  | replace (channelId : UInt32) (replacesId : String) (replacement : StoredMessage)
  | setMode (channelId : UInt32) (mode : PchatProtocol)

def IsOriginal (replacesId : String) (replacement m : StoredMessage) : Prop :=
  m.messageId = replacesId ∧ m.senderHash = replacement.senderHash

instance (replacesId : String) (replacement m : StoredMessage) :
    Decidable (IsOriginal replacesId replacement m) :=
  inferInstanceAs (Decidable (_ ∧ _))

def replaceAll (msgs : List StoredMessage) (replacesId : String)
    (replacement : StoredMessage) : List StoredMessage :=
  msgs.map fun m => if IsOriginal replacesId replacement m then replacement else m

def oneStore (stored : UInt32 → List StoredMessage) : Operation → UInt32 → List StoredMessage
  | .store c message => pushTo stored c message
  | .replace c id replacement =>
      Function.update stored c (replaceAll (stored c) id replacement)
  | .setMode _ _ => stored

namespace CompositeMessageProvider

def operate (provider : CompositeMessageProvider) : Operation → CompositeMessageProvider
  | .store c message => provider.storeMessage c message
  | .replace c id replacement => (provider.replaceMessage c id replacement).1
  | .setMode c mode => provider.setMode c mode

def operateBoth (s : CompositeMessageProvider × (UInt32 → List StoredMessage))
    (op : Operation) : CompositeMessageProvider × (UInt32 → List StoredMessage) :=
  (s.1.operate op, oneStore s.2 op)

/-- After the operation every channel reads as the one store does, and a replacement was
reported if the one store had the original. -/
structure ActsAsOne (s : CompositeMessageProvider × (UInt32 → List StoredMessage))
    (op : Operation) : Prop where
  reads : ∀ c, (operateBoth s op).1.shown c = (operateBoth s op).2 c ∧
    ∀ range, (operateBoth s op).1.getMessages c range = applyRange ((operateBoth s op).2 c) range
  reports : ∀ c id replacement, op = .replace c id replacement →
    ((s.1.replaceMessage c id replacement).2 = true ↔
      ∃ m ∈ s.2 c, IsOriginal id replacement m)

/-- A mode changes only between modes with the same store, or when both stores have the same
messages of the channel. A message that is replaced in the store that is not read is also in the
other one, and no copy of it stays in the store that is read. -/
def KeepsStoresAlike (provider : CompositeMessageProvider) : Operation → Prop
  | .store _ _ => True
  | .setMode c mode =>
      (mode = .fancyV1FullArchive ↔ provider.isPersistent c = true) ∨
        provider.shown c = provider.hidden c
  | .replace c id replacement =>
      ((∃ m ∈ provider.hidden c, IsOriginal id replacement m) →
        ∃ m ∈ provider.shown c, IsOriginal id replacement m) ∧
      ((provider.shown c).Pairwise fun m m' =>
        IsOriginal id replacement m → IsOriginal id replacement m' → m' = replacement) ∧
      (provider.isPersistent c = true → (∃ m ∈ provider.hidden c, IsOriginal id replacement m) →
        ∀ m ∈ provider.shown c, IsOriginal id replacement m → m = replacement)

end CompositeMessageProvider

/-! ## Copies of a message in one list -/

section Lists

variable {msgs : List StoredMessage} {id : String} {replacement : StoredMessage}

theorem replaceFirst_snd_iff :
    (replaceFirst msgs id replacement).2 = true ↔ ∃ m ∈ msgs, IsOriginal id replacement m := by
  have hfind : (msgs.findIdx? fun m =>
      m.messageId = id ∧ m.senderHash = replacement.senderHash).isSome = true ↔
        ∃ m ∈ msgs, IsOriginal id replacement m := by
    rw [List.findIdx?_isSome, List.any_eq_true]
    simp only [decide_eq_true_eq]
    exact Iff.rfl
  rw [← hfind]
  unfold replaceFirst
  split
  next h => rw [h]; rfl
  next h => rw [h]; rfl

theorem replaceAll_eq_self_iff :
    replaceAll msgs id replacement = msgs ↔
      ∀ m ∈ msgs, IsOriginal id replacement m → m = replacement := by
  unfold replaceAll
  conv_lhs => rhs; rw [← List.map_id msgs]
  rw [List.map_inj_left]
  refine forall₂_congr fun m _ => ?_
  by_cases h : IsOriginal id replacement m
  · rw [if_pos h, id_eq, forall_prop_of_true h]
    exact eq_comm
  · rw [if_neg h, forall_prop_of_false h]
    exact iff_true_intro rfl

theorem replaceAll_of_forall_not (h : ∀ m ∈ msgs, ¬IsOriginal id replacement m) :
    replaceAll msgs id replacement = msgs :=
  replaceAll_eq_self_iff.mpr fun m hm horiginal => absurd horiginal (h m hm)

/-- The first original gives way, and the copies behind it are the replacement already. -/
theorem replaceFirst_eq_replaceAll_iff :
    (replaceFirst msgs id replacement).1 = replaceAll msgs id replacement ↔
      msgs.Pairwise fun m m' =>
        IsOriginal id replacement m → IsOriginal id replacement m' → m' = replacement := by
  cases hfound : (replaceFirst msgs id replacement).2 with
  | false =>
      have hnone : ∀ m ∈ msgs, ¬IsOriginal id replacement m := fun m hm horiginal =>
        Bool.false_ne_true (hfound.symm.trans (replaceFirst_snd_iff.mpr ⟨m, hm, horiginal⟩))
      rw [replaceFirst_of_false hfound, replaceAll_of_forall_not hnone]
      refine iff_of_true rfl (List.pairwise_of_forall_mem_list fun m hm m' _ horiginal => ?_)
      exact absurd horiginal (hnone m hm)
  | true =>
      unfold replaceFirst at hfound ⊢
      split at hfound
      next pos hpos =>
        obtain ⟨hlt, hfirst, hbefore⟩ := List.findIdx?_eq_some_iff_getElem.mp hpos
        have horiginal : IsOriginal id replacement msgs[pos] := of_decide_eq_true hfirst
        have hnone : ∀ m ∈ msgs.take pos, ¬IsOriginal id replacement m := by
          intro m hm hcopy
          obtain ⟨j, hj, rfl⟩ := List.mem_take_iff_getElem.mp hm
          exact hbefore j (by omega) (decide_eq_true hcopy)
        have hsplit : msgs = msgs.take pos ++ msgs[pos] :: msgs.drop (pos + 1) := by
          rw [← List.drop_eq_getElem_cons hlt, List.take_append_drop]
        have hall : replaceAll msgs id replacement =
            msgs.take pos ++ replacement :: replaceAll (msgs.drop (pos + 1)) id replacement := by
          conv_lhs => rw [hsplit]
          rw [replaceAll, List.map_append, List.map_cons, if_pos horiginal]
          exact congrArg (· ++ _) (replaceAll_of_forall_not hnone)
        have hpairwise : (msgs.Pairwise fun m m' =>
            IsOriginal id replacement m → IsOriginal id replacement m' → m' = replacement) ↔
            ∀ m ∈ msgs.drop (pos + 1), IsOriginal id replacement m → m = replacement := by
          conv_lhs => rw [hsplit]
          rw [List.pairwise_append, List.pairwise_cons]
          constructor
          · rintro ⟨-, ⟨hbehind, -⟩, -⟩ m hm hcopy
            exact hbehind m hm horiginal hcopy
          · intro hbehind
            refine ⟨List.pairwise_of_forall_mem_list fun m hm m' _ hcopy => ?_,
              ⟨fun m hm _ => hbehind m hm, ?_⟩, fun m hm m' _ hcopy => ?_⟩
            · exact absurd hcopy (hnone m hm)
            · exact List.pairwise_of_forall_mem_list fun m _ m' hm' _ => hbehind m' hm'
            · exact absurd hcopy (hnone m hm)
        rw [hall, hpairwise, ← replaceAll_eq_self_iff]
        dsimp only
        rw [List.set_eq_take_append_cons_drop, if_pos hlt, List.append_cancel_left_eq,
          List.cons_inj_right]
        exact eq_comm
      next => cases hfound

end Lists

/-! ## Runs of operations -/

namespace CompositeMessageProvider

variable {provider : CompositeMessageProvider}

theorem shown_setMode_iff (c : UInt32) (mode : PchatProtocol) :
    (∀ c', (provider.setMode c mode).shown c' = provider.shown c') ↔
      KeepsStoresAlike provider (.setMode c mode) := by
  have hother (c' : UInt32) (hc : c' ≠ c) :
      (provider.setMode c mode).shown c' = provider.shown c' := by
    have hmode : (provider.setMode c mode).effectiveMode c' = provider.effectiveMode c' :=
      Function.update_of_ne hc _ _
    unfold shown
    rw [hmode]
    rfl
  have heffective : (provider.setMode c mode).effectiveMode c = mode :=
    Function.update_self _ _ _
  have hmode : (provider.setMode c mode).isPersistent c =
      decide (mode = .fancyV1FullArchive) := by
    unfold isPersistent
    rw [heffective]
  have hself : (∀ c', (provider.setMode c mode).shown c' = provider.shown c') ↔
      (provider.setMode c mode).shown c = provider.shown c := by
    refine ⟨fun hall => hall c, fun hc c' => ?_⟩
    by_cases hsame : c' = c
    · rw [hsame, hc]
    · exact hother c' hsame
  rw [hself]
  have hstores := provider.shown_hidden_eq c
  have hafter := (provider.setMode c mode).shown_hidden_eq c
  rw [hmode] at hafter
  change _ ↔ (mode = .fancyV1FullArchive ↔ _) ∨ _
  by_cases hnew : mode = .fancyV1FullArchive <;> cases hold : provider.isPersistent c
  · -- the messages of the backend take the place of the volatile ones
    rw [decide_eq_true hnew] at hafter
    rw [hold] at hstores
    have hshown : (provider.setMode c mode).shown c = provider.hidden c :=
      (Prod.mk.inj hafter).1.trans (Prod.mk.inj hstores).2.symm
    rw [hshown, iff_false_right Bool.false_ne_true, or_iff_right (not_not_intro hnew)]
    exact eq_comm
  · rw [decide_eq_true hnew] at hafter
    rw [hold] at hstores
    exact iff_of_true ((Prod.mk.inj hafter).1.trans (Prod.mk.inj hstores).1.symm)
      (.inl (iff_of_true hnew rfl))
  · rw [decide_eq_false hnew] at hafter
    rw [hold] at hstores
    exact iff_of_true ((Prod.mk.inj hafter).1.trans (Prod.mk.inj hstores).1.symm)
      (.inl (iff_of_false hnew Bool.false_ne_true))
  · rw [decide_eq_false hnew] at hafter
    rw [hold] at hstores
    have hshown : (provider.setMode c mode).shown c = provider.hidden c :=
      (Prod.mk.inj hafter).1.trans (Prod.mk.inj hstores).2.symm
    rw [hshown, iff_true_right rfl, or_iff_right hnew]
    exact eq_comm

theorem shown_replaceMessage_iff (c : UInt32) (id : String) (replacement : StoredMessage) :
    (∀ c', (provider.replaceMessage c id replacement).1.shown c' =
        Function.update provider.shown c (replaceAll (provider.shown c) id replacement) c') ↔
      ((provider.shown c).Pairwise fun m m' =>
        IsOriginal id replacement m → IsOriginal id replacement m' → m' = replacement) ∧
      (provider.isPersistent c = true → (∃ m ∈ provider.hidden c, IsOriginal id replacement m) →
        ∀ m ∈ provider.shown c, IsOriginal id replacement m → m = replacement) := by
  have hself : (∀ c', (provider.replaceMessage c id replacement).1.shown c' =
        Function.update provider.shown c (replaceAll (provider.shown c) id replacement) c') ↔
      (provider.replaceMessage c id replacement).1.shown c =
        replaceAll (provider.shown c) id replacement := by
    constructor
    · intro hall
      have hc := hall c
      rwa [Function.update_self] at hc
    · intro hc c'
      by_cases hsame : c' = c
      · rw [hsame, Function.update_self, hc]
      · rw [Function.update_of_ne hsame]
        exact (Prod.mk.inj (provider.stores_replaceMessage_of_ne hsame id replacement)).1
  rw [hself, ← replaceFirst_eq_replaceAll_iff, ← replaceAll_eq_self_iff, ← replaceFirst_snd_iff]
  have hstores := provider.shown_hidden_eq c
  have hafter := provider.stores_replaceMessage c id replacement
  cases hc : provider.isPersistent c with
  | false =>
      rw [hc] at hstores hafter
      rw [← (Prod.mk.inj hstores).1] at hafter
      rw [and_iff_left fun hpersistent => absurd hpersistent Bool.false_ne_true]
      cases hfound : (replaceFirst (provider.shown c) id replacement).2 with
      | false =>
          rw [hfound] at hafter
          rw [(Prod.mk.inj hafter).1, replaceFirst_of_false hfound]
      | true =>
          rw [hfound] at hafter
          rw [(Prod.mk.inj hafter).1]
  | true =>
      rw [hc] at hstores hafter
      rw [← (Prod.mk.inj hstores).2] at hafter
      cases hfound : (replaceFirst (provider.hidden c) id replacement).2 with
      | false =>
          rw [hfound] at hafter
          rw [(Prod.mk.inj hafter).1, and_iff_left fun _ hfalse => absurd hfalse
            Bool.false_ne_true]
      | true =>
          rw [hfound] at hafter
          rw [(Prod.mk.inj hafter).1, forall_prop_of_true rfl, forall_prop_of_true rfl]
          constructor
          · intro heq
            refine ⟨?_, heq.symm⟩
            rw [replaceFirst_eq_replaceAll_iff]
            exact List.pairwise_of_forall_mem_list fun m _ m' hm' _ =>
              replaceAll_eq_self_iff.mp heq.symm m' hm'
          · exact fun hboth => hboth.2.symm

theorem reports_iff (c : UInt32) (id : String) (replacement : StoredMessage) :
    ((provider.replaceMessage c id replacement).2 = true ↔
        ∃ m ∈ provider.shown c, IsOriginal id replacement m) ↔
      ((∃ m ∈ provider.hidden c, IsOriginal id replacement m) →
        ∃ m ∈ provider.shown c, IsOriginal id replacement m) := by
  rw [replaceMessage_snd, ← replaceFirst_snd_iff, ← replaceFirst_snd_iff, Bool.or_eq_true]
  exact or_iff_left_iff_imp

/-- One operation acts as on one store exactly if it keeps the stores alike. -/
theorem actsAsOne_iff {stored : UInt32 → List StoredMessage} (h : provider.shown = stored)
    (op : Operation) :
    ActsAsOne (provider, stored) op ↔ KeepsStoresAlike provider op := by
  subst h
  have hreads : (∀ c, (operateBoth (provider, provider.shown) op).1.shown c =
        (operateBoth (provider, provider.shown) op).2 c ∧
      ∀ range, (operateBoth (provider, provider.shown) op).1.getMessages c range =
        applyRange ((operateBoth (provider, provider.shown) op).2 c) range) ↔
      ∀ c, (provider.operate op).shown c = oneStore provider.shown op c := by
    refine forall_congr' fun c => ⟨And.left, fun hc => ⟨hc, fun range => ?_⟩⟩
    exact (getMessages_eq _ c range).trans (congrArg (fun msgs => applyRange msgs range) hc)
  have hiff : ActsAsOne (provider, provider.shown) op ↔
      (∀ c, (provider.operate op).shown c = oneStore provider.shown op c) ∧
        ∀ c id replacement, op = .replace c id replacement →
          ((provider.replaceMessage c id replacement).2 = true ↔
            ∃ m ∈ provider.shown c, IsOriginal id replacement m) :=
    ⟨fun hacts => ⟨hreads.mp hacts.reads, hacts.reports⟩,
      fun hboth => ⟨hreads.mpr hboth.1, hboth.2⟩⟩
  rw [hiff]
  cases op with
  | store c message =>
      refine iff_of_true ⟨fun c' => ?_, nofun⟩ trivial
      exact (Prod.mk.inj (provider.stores_storeMessage c message c')).1
  | setMode c mode =>
      rw [← shown_setMode_iff]
      exact and_iff_left nofun
  | replace c id replacement =>
      have hreports : (∀ c' id' replacement',
            Operation.replace c id replacement = .replace c' id' replacement' →
          ((provider.replaceMessage c' id' replacement').2 = true ↔
            ∃ m ∈ provider.shown c', IsOriginal id' replacement' m)) ↔
          ((provider.replaceMessage c id replacement).2 = true ↔
            ∃ m ∈ provider.shown c, IsOriginal id replacement m) := by
        refine ⟨fun hall => hall c id replacement rfl, fun hone c' id' replacement' heq => ?_⟩
        cases heq
        exact hone
      rw [hreports, reports_iff, and_comm]
      exact and_congr Iff.rfl (shown_replaceMessage_iff c id replacement)

/-- Over every sequence of operations, from any state, the composite provider acts as one store
exactly if every operation keeps its stores alike. -/
theorem actsAsOne_run_iff (provider : CompositeMessageProvider) (ops : List Operation) :
    Along operateBoth ActsAsOne (provider, provider.shown) ops ↔
      Along operateBoth (fun s op => KeepsStoresAlike s.1 op) (provider, provider.shown) ops := by
  refine along_iff_of_invariant (fun s op (hs : s.1.shown = s.2) => actsAsOne_iff hs op)
    (fun s op hs halike => ?_) ?_
  · exact funext fun c => (((actsAsOne_iff hs op).mpr halike).reads c).1
  · rfl

section Example

private def plainMessage (messageId body : String) : StoredMessage :=
  { messageId, channelId := 1, timestamp := 0, senderHash := "hash", senderName := "name",
    body, encrypted := false }

/-- A message comes in before the channel gets its archive mode and is replaced afterwards: the
replacement is reported, but what is read is neither of the two. -/
theorem replacement_not_read :
    ¬∀ (provider : CompositeMessageProvider) (ops : List Operation),
      Along operateBoth ActsAsOne (provider, provider.shown) ops := by
  intro h
  have hruns := h {} [.store 1 (plainMessage "id" "old"), .setMode 1 .fancyV1FullArchive,
    .replace 1 "id" (plainMessage "new" "new")]
  have hreads := (hruns.2.2.1.reads 1).1
  exact absurd hreads (by decide)

end Example

end CompositeMessageProvider

end FancyMumble.Persistent
