import FancyMumble.Lib.Keyed
import FancyMumble.Lib.Newest
import FancyMumble.Lib.Runs
import Mathlib.Data.List.Perm.Basic

/-!
# Read receipts

The interface keeps, for each channel and each user, the last message that the user has read. A
message is read by whoever has read a message at its place in the list or at a later one.
-/

namespace FancyMumble.Interface

open Lib Lib.Newest Lib.Runs

/-- `ReadState`; the timestamps are numbers of any kind. -/
structure ReadState (τ : Type) where
  certHash : String
  name : String
  isOnline : Bool
  lastReadMessageId : String
  timestamp : τ
deriving DecidableEq

/-- The read states of a channel, by their certificate hashes, none of which is empty. -/
structure ReadStates (τ : Type) where
  entries : List (ReadState τ)
  nodup : (entries.map ReadState.certHash).Nodup
  named : ∀ rs ∈ entries, rs.certHash ≠ ""

namespace ReadStates

variable {τ : Type}

def empty : ReadStates τ := ⟨[], List.nodup_nil, fun _ hrs => absurd hrs List.not_mem_nil⟩

def get (byHash : ReadStates τ) (certHash : String) : Option (ReadState τ) :=
  Keyed.find ReadState.certHash certHash byHash.entries

def set (byHash : ReadStates τ) (rs : ReadState τ) (h : rs.certHash ≠ "") : ReadStates τ where
  entries := Keyed.put ReadState.certHash rs byHash.entries
  nodup := Keyed.nodup_put byHash.nodup
  named := by
    intro other hother
    rcases Keyed.mem_put.mp hother with rfl | ⟨hother, -⟩
    · exact h
    · exact byHash.named other hother

variable {byHash byHash' : ReadStates τ} {rs : ReadState τ} {certHash : String}

theorem get_eq_some_iff :
    byHash.get certHash = some rs ↔ rs ∈ byHash.entries ∧ rs.certHash = certHash :=
  Keyed.find_eq_some_iff byHash.nodup

theorem get_empty_hash : byHash.get "" = none :=
  Keyed.find_eq_none_iff.mpr byHash.named

theorem get_set (h : rs.certHash ≠ "") :
    (byHash.set rs h).get certHash = if certHash = rs.certHash then some rs
      else byHash.get certHash := Keyed.find_put

theorem perm_iff :
    byHash.entries.Perm byHash'.entries ↔
      ∀ certHash, byHash.get certHash = byHash'.get certHash := by
  rw [List.perm_ext_iff_of_nodup byHash.nodup.of_map byHash'.nodup.of_map]
  constructor
  · intro hmem certHash
    refine Option.ext fun rs => ?_
    rw [get_eq_some_iff, get_eq_some_iff, hmem rs]
  · intro hget rs
    have hrs : ∀ states : ReadStates τ, rs ∈ states.entries ↔ states.get rs.certHash = some rs :=
      fun states => by rw [get_eq_some_iff, and_iff_left rfl]
    rw [hrs, hrs, hget]

end ReadStates

/-! ## Queries -/

def indexOf (ids : List String) (id : String) : ℤ := if id ∈ ids then ids.idxOf id else -1

section Queries

variable {τ : Type} (readStateMap : UInt32 → ReadStates τ) (channelId : UInt32)

def hasUserReadMessage (certHash messageId : String) (allMessageIds : List String) : Bool :=
  match (readStateMap channelId).get certHash with
  | none => false
  | some state =>
      let watermarkIdx := indexOf allMessageIds state.lastReadMessageId
      let messageIdx := indexOf allMessageIds messageId
      if watermarkIdx = -1 ∨ messageIdx = -1 then false else decide (watermarkIdx ≥ messageIdx)

def getReadersForMessage (messageId : String) (allMessageIds : List String) :
    List (ReadState τ) :=
  let targetIdx := indexOf allMessageIds messageId
  if targetIdx = -1 then []
  else (readStateMap channelId).entries.filter fun state =>
    indexOf allMessageIds state.lastReadMessageId ≥ targetIdx

def othersHashes (activeUserHashes : List String) (ownCertHash : Option String) : List String :=
  match ownCertHash with
  | none => activeUserHashes
  | some own => if own = "" then activeUserHashes else activeUserHashes.filter (· ≠ own)

def allActiveUsersRead (messageId : String) (allMessageIds activeUserHashes : List String)
    (ownCertHash : Option String) : Bool :=
  if activeUserHashes.length = 0 then false
  else if (othersHashes activeUserHashes ownCertHash).length = 0 then true
  else
    let targetIdx := indexOf allMessageIds messageId
    if targetIdx = -1 then false
    else (othersHashes activeUserHashes ownCertHash).all fun hash =>
      match (readStateMap channelId).get hash with
      | none => false
      | some state => decide (indexOf allMessageIds state.lastReadMessageId ≥ targetIdx)

variable {readStateMap channelId} {certHash messageId : String} {ids : List String}

theorem indexOf_of_mem {id : String} (h : id ∈ ids) : indexOf ids id = ids.idxOf id := if_pos h

theorem indexOf_of_notMem {id : String} (h : id ∉ ids) : indexOf ids id = -1 := if_neg h

theorem indexOf_nonneg_iff {id : String} : 0 ≤ indexOf ids id ↔ id ∈ ids := by
  unfold indexOf
  split
  next h => exact iff_of_true (Int.natCast_nonneg _) h
  next h => exact iff_of_false (by decide) h

theorem indexOf_eq_neg_one_iff {id : String} : indexOf ids id = -1 ↔ id ∉ ids := by
  unfold indexOf
  split
  next h => exact iff_of_false (by omega) (not_not_intro h)
  next h => exact iff_of_true rfl h

theorem mem_of_indexOf_le {id last : String} (hid : id ∈ ids)
    (hle : indexOf ids id ≤ indexOf ids last) : last ∈ ids :=
  indexOf_nonneg_iff.mp ((indexOf_nonneg_iff.mpr hid).trans hle)

theorem hasUserReadMessage_iff :
    hasUserReadMessage readStateMap channelId certHash messageId ids = true ↔
      ∃ state, (readStateMap channelId).get certHash = some state ∧ messageId ∈ ids ∧
        indexOf ids messageId ≤ indexOf ids state.lastReadMessageId := by
  unfold hasUserReadMessage
  cases hstate : (readStateMap channelId).get certHash with
  | none =>
      refine iff_of_false Bool.false_ne_true ?_
      rintro ⟨state, hsome, -⟩
      cases hsome
  | some state =>
      have hexists : (∃ state', some state = some state' ∧ messageId ∈ ids ∧
          indexOf ids messageId ≤ indexOf ids state'.lastReadMessageId) ↔
          messageId ∈ ids ∧ indexOf ids messageId ≤ indexOf ids state.lastReadMessageId := by
        simp
      rw [hexists]
      dsimp only
      split
      next hmissing =>
        refine iff_of_false Bool.false_ne_true fun ⟨hmem, hle⟩ => ?_
        rcases hmissing with hmissing | hmissing
        · exact indexOf_eq_neg_one_iff.mp hmissing (mem_of_indexOf_le hmem hle)
        · exact indexOf_eq_neg_one_iff.mp hmissing hmem
      next hthere =>
        rw [decide_eq_true_eq, ge_iff_le]
        refine (and_iff_right ?_).symm
        exact not_not.mp fun hnot => hthere (.inr (indexOf_eq_neg_one_iff.mpr hnot))

theorem mem_getReadersForMessage {state : ReadState τ} :
    state ∈ getReadersForMessage readStateMap channelId messageId ids ↔
      state ∈ (readStateMap channelId).entries ∧ messageId ∈ ids ∧
        indexOf ids messageId ≤ indexOf ids state.lastReadMessageId := by
  unfold getReadersForMessage
  dsimp only
  split
  next hmissing =>
    refine iff_of_false List.not_mem_nil fun ⟨_, hmem, _⟩ => ?_
    exact indexOf_eq_neg_one_iff.mp hmissing hmem
  next hthere =>
    rw [List.mem_filter, decide_eq_true_eq, ge_iff_le]
    refine and_congr_right fun _ => (and_iff_right ?_).symm
    exact not_not.mp fun hnot => hthere (indexOf_eq_neg_one_iff.mpr hnot)

theorem hasUserReadMessage_iff_reader :
    hasUserReadMessage readStateMap channelId certHash messageId ids = true ↔
      ∃ state ∈ getReadersForMessage readStateMap channelId messageId ids,
        state.certHash = certHash := by
  rw [hasUserReadMessage_iff]
  refine exists_congr fun state => ?_
  rw [mem_getReadersForMessage, ReadStates.get_eq_some_iff]
  constructor
  · rintro ⟨⟨hstate, hhash⟩, hread⟩
    exact ⟨⟨hstate, hread⟩, hhash⟩
  · rintro ⟨⟨hstate, hread⟩, hhash⟩
    exact ⟨⟨hstate, hhash⟩, hread⟩

theorem allActiveUsersRead_iff {activeUserHashes : List String} {ownCertHash : Option String} :
    allActiveUsersRead readStateMap channelId messageId ids activeUserHashes ownCertHash = true ↔
      activeUserHashes ≠ [] ∧ ∀ hash ∈ othersHashes activeUserHashes ownCertHash,
        hasUserReadMessage readStateMap channelId hash messageId ids = true := by
  unfold allActiveUsersRead
  split
  next hactive =>
    refine iff_of_false Bool.false_ne_true fun hall => ?_
    exact hall.1 (List.length_eq_zero_iff.mp hactive)
  next hactive =>
    have hsome : activeUserHashes ≠ [] := fun hnil => hactive (List.length_eq_zero_iff.mpr hnil)
    rw [and_iff_right hsome]
    split
    next hothers =>
      rw [List.length_eq_zero_iff.mp hothers]
      exact iff_of_true rfl fun hash hhash => absurd hhash List.not_mem_nil
    next hothers =>
      dsimp only
      split
      next hmissing =>
        refine iff_of_false Bool.false_ne_true fun hall => hothers ?_
        rw [List.length_eq_zero_iff, List.eq_nil_iff_forall_not_mem]
        intro hash hhash
        obtain ⟨-, -, hmem, -⟩ := hasUserReadMessage_iff.mp (hall hash hhash)
        exact indexOf_eq_neg_one_iff.mp hmissing hmem
      next hthere =>
        have hmem : messageId ∈ ids :=
          not_not.mp fun hnot => hthere (indexOf_eq_neg_one_iff.mpr hnot)
        rw [List.all_eq_true]
        refine forall₂_congr fun hash _ => ?_
        rw [hasUserReadMessage_iff]
        cases (readStateMap channelId).get hash with
        | none => simp
        | some state => simp [hmem]

end Queries

/-! ## Mutations -/

section Mutations

variable {τ : Type} [LinearOrder τ]

def ReadStates.apply (byHash : ReadStates τ) (rs : ReadState τ) : ReadStates τ :=
  if h : rs.certHash = "" then byHash
  else if (byHash.get rs.certHash).all (rs.timestamp ≥ ·.timestamp) then byHash.set rs h
  else byHash

def applyReadStates (readStateMap : UInt32 → ReadStates τ) (channelId : UInt32)
    (states : List (ReadState τ)) : UInt32 → ReadStates τ :=
  Function.update readStateMap channelId (states.foldl ReadStates.apply (readStateMap channelId))

theorem ReadStates.get_apply {byHash : ReadStates τ} {rs : ReadState τ} {certHash : String}
    (hnamed : certHash ≠ "") :
    (byHash.apply rs).get certHash =
      if rs.certHash = certHash then takeNewest ReadState.timestamp (byHash.get certHash) rs
      else byHash.get certHash := by
  unfold ReadStates.apply
  by_cases hhash : rs.certHash = certHash
  · subst hhash
    rw [dif_neg hnamed, if_pos rfl]
    cases hget : byHash.get rs.certHash with
    | none =>
        rw [Option.all_none, if_pos rfl, get_set, if_pos rfl]
        rfl
    | some existing =>
        rw [Option.all_some]
        by_cases hle : existing.timestamp ≤ rs.timestamp
        · rw [if_pos (decide_eq_true hle), get_set, if_pos rfl]
          exact (takeNewest_of_le fun old hold => Option.some.inj hold ▸ hle).symm
        · rw [if_neg (by simpa using hle), hget]
          exact (takeNewest_of_lt (not_le.mp hle)).symm
  · rw [if_neg hhash]
    split
    next => rfl
    next hrs =>
      split
      next => rw [get_set, if_neg fun heq => hhash heq.symm]
      next => rfl

theorem ReadStates.get_foldl_apply {certHash : String} (hnamed : certHash ≠ "")
    (states : List (ReadState τ)) (byHash : ReadStates τ) :
    (states.foldl ReadStates.apply byHash).get certHash =
      (states.filter (·.certHash = certHash)).foldl (takeNewest ReadState.timestamp)
        (byHash.get certHash) := by
  induction states generalizing byHash with
  | nil => rfl
  | cons rs states ih =>
      rw [List.foldl_cons, ih, get_apply hnamed, List.filter_cons]
      by_cases hhash : rs.certHash = certHash
      · rw [if_pos hhash, if_pos (decide_eq_true hhash), List.foldl_cons]
      · rw [if_neg hhash, if_neg (by simpa using hhash)]

theorem foldl_applyReadStates (channelId : UInt32) (batches : List (List (ReadState τ)))
    (readStateMap : UInt32 → ReadStates τ) :
    batches.foldl (applyReadStates · channelId ·) readStateMap =
      applyReadStates readStateMap channelId batches.flatten := by
  induction batches generalizing readStateMap with
  | nil => exact (Function.update_eq_self channelId readStateMap).symm
  | cons states batches ih =>
      rw [List.foldl_cons, ih, List.flatten_cons]
      unfold applyReadStates
      rw [Function.update_self, Function.update_idem, List.foldl_append]

/-- Stores with the same read states, each channel's in any order. -/
def SameStore (readStateMap readStateMap' : UInt32 → ReadStates τ) : Prop :=
  ∀ channelId, (readStateMap channelId).entries.Perm (readStateMap' channelId).entries

theorem sameStore_applyReadStates_iff {readStateMap : UInt32 → ReadStates τ} {channelId : UInt32}
    {states states' : List (ReadState τ)} :
    SameStore (applyReadStates readStateMap channelId states)
        (applyReadStates readStateMap channelId states') ↔
      ∀ certHash, certHash ≠ "" →
        (states.filter (·.certHash = certHash)).foldl (takeNewest ReadState.timestamp)
            ((readStateMap channelId).get certHash) =
          (states'.filter (·.certHash = certHash)).foldl (takeNewest ReadState.timestamp)
            ((readStateMap channelId).get certHash) := by
  have hchannel : SameStore (applyReadStates readStateMap channelId states)
      (applyReadStates readStateMap channelId states') ↔
        ∀ certHash, (states.foldl ReadStates.apply (readStateMap channelId)).get certHash =
          (states'.foldl ReadStates.apply (readStateMap channelId)).get certHash := by
    rw [← ReadStates.perm_iff]
    constructor
    · intro hsame
      simpa [applyReadStates] using hsame channelId
    · intro hperm ch
      unfold applyReadStates
      by_cases hch : ch = channelId
      · subst hch
        simpa using hperm
      · simp [hch]
  rw [hchannel]
  refine forall_congr' fun certHash => ?_
  by_cases hnamed : certHash = ""
  · subst hnamed
    rw [ReadStates.get_empty_hash, ReadStates.get_empty_hash]
    exact iff_of_true rfl fun hne => absurd rfl hne
  · rw [ReadStates.get_foldl_apply hnamed, ReadStates.get_foldl_apply hnamed]
    exact ⟨fun heq _ => heq, fun h => h hnamed⟩

/-- Order and batching of read states do not matter exactly if the newest ones of each user agree.
-/
theorem applyReadStates_perm_iff {readStateMap : UInt32 → ReadStates τ} {channelId : UInt32}
    {states : List (ReadState τ)} :
    (∀ batches₁ batches₂ : List (List (ReadState τ)),
      batches₁.flatten.Perm states → batches₂.flatten.Perm states →
        SameStore (batches₁.foldl (applyReadStates · channelId ·) readStateMap)
          (batches₂.foldl (applyReadStates · channelId ·) readStateMap)) ↔
      ∀ certHash, certHash ≠ "" →
        NewestAgree ReadState.timestamp ((readStateMap channelId).get certHash)
          (states.filter (·.certHash = certHash)) := by
  simp only [foldl_applyReadStates, sameStore_applyReadStates_iff]
  constructor
  · intro hsame certHash hnamed
    rw [← foldl_takeNewest_perm_iff]
    intro values₁ values₂ hperm₁ hperm₂
    -- the states of this user in another order, before all others
    have hfirst : ∀ values : List (ReadState τ),
        values.Perm (states.filter (·.certHash = certHash)) → ∃ batch : List (ReadState τ),
          [batch].flatten.Perm states ∧
            [batch].flatten.filter (·.certHash = certHash) = values := by
      intro values hperm
      refine ⟨values ++ states.filter fun rs => !decide (rs.certHash = certHash), ?_, ?_⟩
      · rw [List.flatten_singleton]
        exact (hperm.append_right _).trans (List.filter_append_perm _ states)
      · rw [List.flatten_singleton, List.filter_append, List.filter_filter]
        have hvalues : values.filter (·.certHash = certHash) = values :=
          List.filter_eq_self.mpr fun rs hrs => (List.mem_filter.mp (hperm.mem_iff.mp hrs)).2
        rw [hvalues]
        simp
    obtain ⟨batch₁, hbatch₁, hfilter₁⟩ := hfirst values₁ hperm₁
    obtain ⟨batch₂, hbatch₂, hfilter₂⟩ := hfirst values₂ hperm₂
    have hfold := hsame [batch₁] [batch₂] hbatch₁ hbatch₂ certHash hnamed
    rwa [hfilter₁, hfilter₂] at hfold
  · intro hagree batches₁ batches₂ hperm₁ hperm₂ certHash hnamed
    exact foldl_takeNewest_perm_iff.mpr (hagree certHash hnamed) _ _ (hperm₁.filter _)
      (hperm₂.filter _)

end Mutations

/-! ## Histories -/

/-- The interface while it shows a list of messages. -/
structure ReceiptView (τ : Type) where
  readStateMap : UInt32 → ReadStates τ
  allMessageIds : List String

/-- Receipts are delivered, and messages come in, are deleted, or are trimmed at the front. -/
inductive ReceiptEvent (τ : Type) where
  | deliver (channelId : UInt32) (states : List (ReadState τ))
  | append (ids : List String)
  | delete (gone : List String)
  | trim (count : ℕ)

namespace ReceiptView

variable {τ : Type} [LinearOrder τ]

def step (v : ReceiptView τ) : ReceiptEvent τ → ReceiptView τ
  | .deliver channelId states =>
      { v with readStateMap := applyReadStates v.readStateMap channelId states }
  | .append ids => { v with allMessageIds := v.allMessageIds ++ ids }
  | .delete gone => { v with allMessageIds := v.allMessageIds.filter (· ∉ gone) }
  | .trim count => { v with allMessageIds := v.allMessageIds.drop count }

/-- A message of the list that a user has read stays read, while it is in the list. -/
def NeverGoesBack (channelId : UInt32) (v : ReceiptView τ) (e : ReceiptEvent τ) : Prop :=
  ∀ certHash messageId,
    hasUserReadMessage v.readStateMap channelId certHash messageId v.allMessageIds = true →
      messageId ∈ (step v e).allMessageIds →
        hasUserReadMessage (step v e).readStateMap channelId certHash messageId
          (step v e).allMessageIds = true

/-- A newer state of a user does not name an earlier message, a message that somebody has read
last is not deleted before the messages up to it, and of a message that is in the list twice
the first one is not trimmed alone unless its second one is read as well. -/
def Advances (channelId : UInt32) (v : ReceiptView τ) : ReceiptEvent τ → Prop
  | .deliver ch states => ch = channelId → ∀ rs ∈ (v.readStateMap channelId).entries, ∀ newest,
      (states.filter (·.certHash = rs.certHash)).foldl (takeNewest ReadState.timestamp) (some rs) =
        some newest →
      indexOf v.allMessageIds rs.lastReadMessageId ≤
        indexOf v.allMessageIds newest.lastReadMessageId
  | .append _ => True
  | .delete gone => ∀ rs ∈ (v.readStateMap channelId).entries, rs.lastReadMessageId ∈ gone →
      ∀ id ∈ v.allMessageIds, id ∉ gone →
        indexOf v.allMessageIds rs.lastReadMessageId < indexOf v.allMessageIds id
  | .trim count => ∀ rs ∈ (v.readStateMap channelId).entries,
      ∀ id ∈ v.allMessageIds.take count, id ∈ v.allMessageIds.drop count →
        indexOf v.allMessageIds id ≤ indexOf v.allMessageIds rs.lastReadMessageId →
          indexOf (v.allMessageIds.drop count) id ≤
            indexOf (v.allMessageIds.drop count) rs.lastReadMessageId

/-! ### Places in the list -/

section Places

variable {ids : List String} {id last : String}

theorem indexOf_append (h : id ∈ ids) (new : List String) :
    indexOf (ids ++ new) id = indexOf ids id := by
  rw [indexOf_of_mem h, indexOf_of_mem (List.mem_append_left new h), List.idxOf_append_of_mem h]

theorem indexOf_drop (count : ℕ) (hfirst : id ∉ ids.take count) (h : id ∈ ids) :
    id ∈ ids.drop count ∧
      indexOf ids id = (ids.take count).length + indexOf (ids.drop count) id := by
  have hsplit : ids.take count ++ ids.drop count = ids := List.take_append_drop count ids
  have hrest : id ∈ ids.drop count := by
    rw [← hsplit] at h
    exact (List.mem_append.mp h).resolve_left hfirst
  refine ⟨hrest, ?_⟩
  rw [indexOf_of_mem h, indexOf_of_mem hrest]
  conv_lhs => rw [← hsplit]
  rw [List.idxOf_append_of_notMem hfirst, Int.natCast_add]

theorem indexOf_lt_of_mem_take (count : ℕ) (h : id ∈ ids.take count) :
    indexOf ids id < (ids.take count).length := by
  have hsplit : ids.take count ++ ids.drop count = ids := List.take_append_drop count ids
  rw [indexOf_of_mem (List.mem_of_mem_take h)]
  conv_lhs => rw [← hsplit]
  rw [List.idxOf_append_of_mem h]
  exact Int.ofNat_lt.mpr (List.idxOf_lt_length_of_mem h)

theorem idxOf_filter_le_iff {p : String → Bool} (hid : p id = true) (hlast : p last = true) :
    (ids.filter p).idxOf id ≤ (ids.filter p).idxOf last ↔ ids.idxOf id ≤ ids.idxOf last := by
  induction ids with
  | nil => exact Iff.rfl
  | cons first ids ih =>
      cases hp : p first with
      | true =>
          rw [List.filter_cons_of_pos hp]
          simp only [List.idxOf_cons]
          by_cases hfid : first = id
          · simp [hfid]
          · have hid' : (first == id) = false := beq_false_of_ne hfid
            by_cases hflast : first = last
            · subst hflast
              simp [hid']
            · have hlast' : (first == last) = false := beq_false_of_ne hflast
              simpa [hid', hlast'] using ih
      | false =>
          have hne : ∀ other, p other = true → (first == other) = false :=
            fun other hother => beq_false_of_ne fun heq => by simp [← heq, hp] at hother
          rw [List.filter_cons_of_neg (by simp [hp])]
          simp only [List.idxOf_cons, hne id hid, hne last hlast, cond_false,
            Nat.add_le_add_iff_right]
          exact ih

theorem indexOf_filter_le_iff {p : String → Bool} (hid : id ∈ ids.filter p)
    (hlast : last ∈ ids.filter p) :
    indexOf (ids.filter p) id ≤ indexOf (ids.filter p) last ↔
      indexOf ids id ≤ indexOf ids last := by
  have hid' := List.mem_filter.mp hid
  have hlast' := List.mem_filter.mp hlast
  rw [indexOf_of_mem hid, indexOf_of_mem hlast, indexOf_of_mem hid'.1, indexOf_of_mem hlast'.1,
    Int.ofNat_le, Int.ofNat_le, idxOf_filter_le_iff hid'.2 hlast'.2]

end Places

/-! ### Steps -/

section Steps

variable {v : ReceiptView τ} {channelId : UInt32}

theorem neverGoesBack_iff_of_list {e : ReceiptEvent τ} {ids : List String}
    (hstep : step v e = { v with allMessageIds := ids }) :
    NeverGoesBack channelId v e ↔ ∀ rs ∈ (v.readStateMap channelId).entries,
      ∀ id ∈ v.allMessageIds, id ∈ ids →
        indexOf v.allMessageIds id ≤ indexOf v.allMessageIds rs.lastReadMessageId →
          indexOf ids id ≤ indexOf ids rs.lastReadMessageId := by
  unfold NeverGoesBack
  rw [hstep]
  constructor
  · intro hkeep rs hrs id hid hids hle
    have hget : (v.readStateMap channelId).get rs.certHash = some rs :=
      ReadStates.get_eq_some_iff.mpr ⟨hrs, rfl⟩
    have hread := hkeep rs.certHash id (hasUserReadMessage_iff.mpr ⟨rs, hget, hid, hle⟩) hids
    obtain ⟨state, hstate, -, hle'⟩ := hasUserReadMessage_iff.mp hread
    cases hget.symm.trans hstate
    exact hle'
  · intro hplaces certHash id hread hids
    obtain ⟨state, hstate, hid, hle⟩ := hasUserReadMessage_iff.mp hread
    refine hasUserReadMessage_iff.mpr ⟨state, hstate, hids, ?_⟩
    exact hplaces state (ReadStates.get_eq_some_iff.mp hstate).1 id hid hids hle

theorem neverGoesBack_append (ids : List String) : NeverGoesBack channelId v (.append ids) := by
  refine (neverGoesBack_iff_of_list rfl).mpr fun rs _ id hid _ hle => ?_
  rwa [indexOf_append hid, indexOf_append (mem_of_indexOf_le hid hle)]

theorem neverGoesBack_delete_iff {gone : List String} :
    NeverGoesBack channelId v (.delete gone) ↔ Advances channelId v (.delete gone) := by
  rw [neverGoesBack_iff_of_list rfl]
  refine forall₂_congr fun rs _ => ?_
  have hstays : ∀ id, id ∈ v.allMessageIds.filter (· ∉ gone) ↔ id ∈ v.allMessageIds ∧ id ∉ gone :=
    fun id => by rw [List.mem_filter, decide_eq_true_eq]
  constructor
  · intro hplaces hgone id hid hkept
    by_contra hlt
    have hids := (hstays id).mpr ⟨hid, hkept⟩
    have hle := mem_of_indexOf_le hids (hplaces id hid hids (not_lt.mp hlt))
    exact ((hstays _).mp hle).2 hgone
  · intro hadvances id hid hids hle
    have hlast : rs.lastReadMessageId ∈ v.allMessageIds.filter (· ∉ gone) := by
      refine (hstays _).mpr ⟨mem_of_indexOf_le hid hle, fun hgone => ?_⟩
      exact absurd hle (not_le.mpr (hadvances hgone id hid ((hstays id).mp hids).2))
    exact (indexOf_filter_le_iff hids hlast).mpr hle

theorem neverGoesBack_trim_iff {count : ℕ} :
    NeverGoesBack channelId v (.trim count) ↔ Advances channelId v (.trim count) := by
  rw [neverGoesBack_iff_of_list rfl]
  refine forall₂_congr fun rs _ => ?_
  constructor
  · intro hplaces id hfirst hrest hle
    exact hplaces id (List.mem_of_mem_take hfirst) hrest hle
  · intro hadvances id hid hrest hle
    by_cases hfirst : id ∈ v.allMessageIds.take count
    · exact hadvances id hfirst hrest hle
    · -- behind the trimmed part, both places move up
      obtain ⟨-, hplace⟩ := indexOf_drop count hfirst hid
      have hlast : rs.lastReadMessageId ∉ v.allMessageIds.take count := by
        intro hlast
        have hlt := indexOf_lt_of_mem_take count hlast
        have hnonneg := indexOf_nonneg_iff.mpr hrest
        omega
      obtain ⟨-, hplace'⟩ := indexOf_drop count hlast (mem_of_indexOf_le hid hle)
      omega

theorem neverGoesBack_deliver_iff {ch : UInt32} {states : List (ReadState τ)} :
    NeverGoesBack channelId v (.deliver ch states) ↔ Advances channelId v (.deliver ch states) := by
  by_cases hch : ch = channelId
  · subst hch
    have hget : ∀ rs ∈ (v.readStateMap ch).entries,
        ((step v (.deliver ch states)).readStateMap ch).get rs.certHash =
          (states.filter (·.certHash = rs.certHash)).foldl (takeNewest ReadState.timestamp)
            (some rs) := by
      intro rs hrs
      have hheld : (v.readStateMap ch).get rs.certHash = some rs :=
        ReadStates.get_eq_some_iff.mpr ⟨hrs, rfl⟩
      rw [← hheld, ← ReadStates.get_foldl_apply ((v.readStateMap ch).named rs hrs)]
      exact congrArg (ReadStates.get · rs.certHash) (Function.update_self ch _ v.readStateMap)
    constructor
    · intro hkeep _ rs hrs newest hnewest
      by_cases hlast : rs.lastReadMessageId ∈ v.allMessageIds
      · have hread := hkeep rs.certHash rs.lastReadMessageId (hasUserReadMessage_iff.mpr
          ⟨rs, ReadStates.get_eq_some_iff.mpr ⟨hrs, rfl⟩, hlast, le_rfl⟩) hlast
        obtain ⟨state, hstate, -, hle⟩ := hasUserReadMessage_iff.mp hread
        rw [hget rs hrs, hnewest] at hstate
        cases hstate
        exact hle
      · -- a place that is not in the list is before all others
        rw [indexOf_of_notMem hlast]
        unfold indexOf
        split
        · omega
        · exact le_rfl
    · intro hadvances certHash id hread _
      obtain ⟨rs, hheld, hid, hle⟩ := hasUserReadMessage_iff.mp hread
      obtain ⟨hrs, rfl⟩ := ReadStates.get_eq_some_iff.mp hheld
      obtain ⟨newest, hnewest⟩ := exists_foldl_takeNewest ReadState.timestamp rs
        (states.filter (·.certHash = rs.certHash))
      refine hasUserReadMessage_iff.mpr ⟨newest, (hget rs hrs).trans hnewest, hid, ?_⟩
      exact hle.trans (hadvances rfl rs hrs newest hnewest)
  · have hsame : (step v (.deliver ch states)).readStateMap channelId = v.readStateMap channelId :=
      Function.update_of_ne (fun heq => hch heq.symm) _ v.readStateMap
    refine iff_of_true (fun certHash id hread _ => ?_) fun heq => absurd heq hch
    unfold hasUserReadMessage at hread ⊢
    rw [hsame]
    exact hread

/-- In every history, messages stay read exactly if every step advances. -/
theorem neverGoesBack_run_iff {events : List (ReceiptEvent τ)} :
    Along step (NeverGoesBack channelId) v events ↔ Along step (Advances channelId) v events := by
  refine along_congr fun v e => ?_
  cases e with
  | deliver ch states => exact neverGoesBack_deliver_iff
  | append ids => exact iff_of_true (neverGoesBack_append ids) trivial
  | delete gone => exact neverGoesBack_delete_iff
  | trim count => exact neverGoesBack_trim_iff

end Steps

/-- What read receipts promise: order and batching do not matter where the newest states agree,
messages stay read where every step advances, and the queries agree wherever there is an active
user. -/
theorem receipts_iff :
    (∀ (readStateMap : UInt32 → ReadStates τ) channelId (states : List (ReadState τ)),
      (∀ batches₁ batches₂ : List (List (ReadState τ)),
        batches₁.flatten.Perm states → batches₂.flatten.Perm states →
          SameStore (batches₁.foldl (applyReadStates · channelId ·) readStateMap)
            (batches₂.foldl (applyReadStates · channelId ·) readStateMap)) ↔
        ∀ certHash, certHash ≠ "" →
          NewestAgree ReadState.timestamp ((readStateMap channelId).get certHash)
            (states.filter (·.certHash = certHash))) ∧
    (∀ channelId (start : ReceiptView τ) (events : List (ReceiptEvent τ)),
      Along step (NeverGoesBack channelId) start events ↔
        Along step (Advances channelId) start events) ∧
    ∀ (readStateMap : UInt32 → ReadStates τ) channelId messageId ids,
      (∀ certHash, hasUserReadMessage readStateMap channelId certHash messageId ids = true ↔
        ∃ state ∈ getReadersForMessage readStateMap channelId messageId ids,
          state.certHash = certHash) ∧
      ∀ active own, allActiveUsersRead readStateMap channelId messageId ids active own = true ↔
        active ≠ [] ∧ ∀ hash ∈ othersHashes active own,
          hasUserReadMessage readStateMap channelId hash messageId ids = true :=
  ⟨fun _ _ _ => applyReadStates_perm_iff, fun _ _ _ => neverGoesBack_run_iff,
    fun _ _ _ _ => ⟨fun _ => hasUserReadMessage_iff_reader, fun _ _ => allActiveUsersRead_iff⟩⟩

def nothingRead : UInt32 → ReadStates ℕ := fun _ => .empty

def aliceRead (lastReadMessageId : String) (timestamp : ℕ) : ReadState ℕ :=
  ⟨"alice", "Alice", true, lastReadMessageId, timestamp⟩

/-- Of two states with one timestamp the later one stays, a message is unread again when the
message that was read last is deleted or a newer state names an earlier one, and nobody has read
a message if there is no active user. -/
theorem receipts_depend_on_order :
    (¬ SameStore
      (applyReadStates nothingRead 0 [aliceRead "1" 1000, aliceRead "2" 1000])
      (applyReadStates nothingRead 0 [aliceRead "2" 1000, aliceRead "1" 1000])) ∧
    (¬ Along step (NeverGoesBack 0) ⟨nothingRead, ["1", "2", "3"]⟩
      [.deliver 0 [aliceRead "2" 1000], .delete ["2"]]) ∧
    (¬ Along step (NeverGoesBack 0) ⟨nothingRead, ["1", "2", "3"]⟩
      [.deliver 0 [aliceRead "2" 1000], .deliver 0 [aliceRead "1" 2000]]) ∧
    allActiveUsersRead nothingRead 0 "1" ["1", "2", "3"] [] (some "own") = false ∧
    ∀ hash ∈ othersHashes [] (some "own"),
      hasUserReadMessage nothingRead 0 hash "1" ["1", "2", "3"] = true := by
  refine ⟨fun hsame => ?_, fun hback => ?_, fun hback => ?_, rfl, by decide⟩
  · have hget := ReadStates.perm_iff.mp (hsame 0) "alice"
    exact absurd hget (by decide)
  · exact absurd (hback.2.1 "alice" "1" (by decide) (by decide)) (by decide)
  · exact absurd (hback.2.1 "alice" "2" (by decide) (by decide)) (by decide)

end ReceiptView

end FancyMumble.Interface
