import FancyMumble.Lib.Arrivals
import FancyMumble.Lib.Runs
import FancyMumble.Messages.History
import Mathlib.Data.Finset.Erase
import Mathlib.Data.Finset.Lattice.Lemmas

/-!
# The local message cache and its files

The cache of decrypted messages and of reactions, with the index of message ids beside the
messages, and the two encrypted files that it is saved to and loaded from.
-/

namespace FancyMumble.Messages.LocalCache

open Lib.Arrivals Lib.Runs

structure CachedReaction where
  messageId : String
  emoji : String
  senderHash : String
  senderName : String
  timestamp : UInt64
deriving DecidableEq

def CachedReaction.key (r : CachedReaction) : String × String × String :=
  (r.messageId, r.emoji, r.senderHash)

structure LocalMessageCache where
  messages : UInt32 → List CachedMessage := fun _ => []
  messageIds : UInt32 → Finset String := fun _ => ∅
  reactions : UInt32 → List CachedReaction := fun _ => []

namespace LocalMessageCache

def insert (cache : LocalMessageCache) (msg : CachedMessage) : LocalMessageCache :=
  let ids := cache.messageIds msg.channelId
  if msg.messageId ∈ ids then cache
  else
    let channel := cache.messages msg.channelId
    let pos := partitionPoint (fun m => m.timestamp ≤ msg.timestamp) channel
    { cache with
      messageIds := Function.update cache.messageIds msg.channelId (Insert.insert msg.messageId ids)
      messages := Function.update cache.messages msg.channelId (channel.insertIdx pos msg) }

def rebuildMessageIdIndex (cache : LocalMessageCache) : LocalMessageCache :=
  { cache with messageIds := fun c => ((cache.messages c).map CachedMessage.messageId).toFinset }

def insertReaction (cache : LocalMessageCache) (channelId : UInt32) (reaction : CachedReaction) :
    LocalMessageCache :=
  let channel := cache.reactions channelId
  let present := channel.any fun r => r.messageId = reaction.messageId ∧
    r.emoji = reaction.emoji ∧ r.senderHash = reaction.senderHash
  if present then cache
  else
    { cache with
      reactions := Function.update cache.reactions channelId (channel ++ [reaction]) }

def removeReaction (cache : LocalMessageCache) (channelId : UInt32)
    (messageId emoji senderHash : String) : LocalMessageCache :=
  { cache with
    reactions := Function.update cache.reactions channelId
      ((cache.reactions channelId).filter fun r =>
        ¬(r.messageId = messageId ∧ r.emoji = emoji ∧ r.senderHash = senderHash)) }

end LocalMessageCache

/-! ## Files -/

def nonceLen : ℕ := 12

/-- `serde_json` on the maps that are saved, and AES-256-GCM with the key of the cache. -/
structure Codec where
  Byte : Type
  messagesToVec : (UInt32 → List CachedMessage) → Except String (List Byte)
  messagesFromSlice : List Byte → Except String (UInt32 → List CachedMessage)
  reactionsToVec : (UInt32 → List CachedReaction) → Except String (List Byte)
  reactionsFromSlice : List Byte → Except String (UInt32 → List CachedReaction)
  sealInPlace : Vector Byte nonceLen → List Byte → Option (List Byte)
  openInPlace : Vector Byte nonceLen → List Byte → Option (List Byte)

/-- What is written can be read, and nothing can be read of a part of what was sealed. -/
structure Codec.Lawful (codec : Codec) : Prop where
  messages : ∀ m, ∃ json,
    codec.messagesToVec m = .ok json ∧ codec.messagesFromSlice json = .ok m
  reactions : ∀ r, ∃ json,
    codec.reactionsToVec r = .ok json ∧ codec.reactionsFromSlice json = .ok r
  open_seal : ∀ nonce plain sealed, codec.sealInPlace nonce plain = some sealed →
    codec.openInPlace nonce sealed = some plain
  cut_off : ∀ nonce plain sealed n, codec.sealInPlace nonce plain = some sealed →
    n < sealed.length → codec.openInPlace nonce (sealed.take n) = none

variable {codec : Codec}

def encrypt (rng : Option (Vector codec.Byte nonceLen)) (plaintext : List codec.Byte) :
    Except String (List codec.Byte) :=
  match rng with
  | none => .error "RNG failed"
  | some nonce =>
      match codec.sealInPlace nonce plaintext with
      | none => .error "AES-GCM seal failed"
      | some sealed => .ok (nonce.toList ++ sealed)

def decrypt (data : List codec.Byte) : Except String (List codec.Byte) :=
  if h : data.length < nonceLen then .error "cache file too short"
  else
    let nonce : Vector codec.Byte nonceLen :=
      ⟨(data.take nonceLen).toArray, by simp; omega⟩
    match codec.openInPlace nonce (data.drop nonceLen) with
    | none => .error "AES-GCM open failed (wrong key or corrupted)"
    | some plaintext => .ok plaintext

/-- How `std::fs::write` ends: all bytes are written, the file is not opened, or it was
truncated and only some of the bytes were written. -/
inductive WriteOutcome where
  | complete
  | notOpened (e : String)
  | cutOff (n : ℕ) (e : String)

def write {Byte : Type} (outcome : WriteOutcome) (file : Option (List Byte)) (bytes : List Byte) :
    Option (List Byte) × Except String Unit :=
  match outcome with
  | .complete => (some bytes, .ok ())
  | .notOpened e => (file, .error e)
  | .cutOff n e => (some (bytes.dropLast.take n), .error e)

inductive ReadOutcome where
  | plain
  | notFound
  | failed (e : String)

def read {Byte : Type} (outcome : ReadOutcome) (file : Option (List Byte)) :
    Option (Except String (List Byte)) :=
  match outcome with
  | .plain => file.map .ok
  | .notFound => none
  | .failed e => file.map fun _ => .error e

def saveJson (what : String) (json : Except String (List codec.Byte))
    (rng : Option (Vector codec.Byte nonceLen)) (outcome : WriteOutcome)
    (file : Option (List codec.Byte)) : Option (List codec.Byte) × Except String Unit :=
  match json with
  | .error e => (file, .error ("serialize " ++ what ++ ": " ++ e))
  | .ok json =>
      match encrypt rng json with
      | .error e => (file, .error e)
      | .ok encrypted =>
          let (file, written) := write outcome file encrypted
          (file, written.mapError ("write " ++ what ++ ": " ++ ·))

def loadJson {α : Type} (what : String) (fromSlice : List codec.Byte → Except String α)
    (file : Option (Except String (List codec.Byte))) : Option (Except String α) :=
  match file with
  | none => none
  | some (.error e) => some (.error ("read " ++ what ++ ": " ++ e))
  | some (.ok encrypted) =>
      match decrypt encrypted with
      | .error e => some (.error e)
      | .ok json => some ((fromSlice json).mapError ("deserialize " ++ what ++ ": " ++ ·))

namespace LocalMessageCache

def save (cache : LocalMessageCache) (rng : Option (Vector codec.Byte nonceLen))
    (outcome : WriteOutcome) (file : Option (List codec.Byte)) :
    Option (List codec.Byte) × Except String Unit :=
  saveJson "cache" (codec.messagesToVec cache.messages) rng outcome file

def saveReactions (cache : LocalMessageCache) (rng : Option (Vector codec.Byte nonceLen))
    (outcome : WriteOutcome) (file : Option (List codec.Byte)) :
    Option (List codec.Byte) × Except String Unit :=
  saveJson "reaction cache" (codec.reactionsToVec cache.reactions) rng outcome file

def load (cache : LocalMessageCache) (file : Option (Except String (List codec.Byte))) :
    LocalMessageCache × Except String Unit :=
  match loadJson "cache" codec.messagesFromSlice file with
  | none => (cache, .ok ())
  | some (.error e) => (cache, .error e)
  | some (.ok messages) => ({ cache with messages }.rebuildMessageIdIndex, .ok ())

def loadReactions (cache : LocalMessageCache) (file : Option (Except String (List codec.Byte))) :
    LocalMessageCache × Except String Unit :=
  match loadJson "reaction cache" codec.reactionsFromSlice file with
  | none => (cache, .ok ())
  | some (.error e) => (cache, .error e)
  | some (.ok reactions) => ({ cache with reactions }, .ok ())

end LocalMessageCache

/-! ## What a file gives back -/

section Files

theorem decrypt_append (nonce : Vector codec.Byte nonceLen) (data : List codec.Byte) :
    decrypt (nonce.toList ++ data) =
      match codec.openInPlace nonce data with
      | none => .error "AES-GCM open failed (wrong key or corrupted)"
      | some plaintext => .ok plaintext := by
  have hlength : nonce.toList.length = nonceLen := by simp
  have hlong : ¬(nonce.toList ++ data).length < nonceLen := by
    rw [List.length_append]
    omega
  unfold decrypt
  rw [dif_neg hlong]
  have hnonce : (nonce.toList ++ data).take nonceLen = nonce.toList := List.take_left' hlength
  have hdata : (nonce.toList ++ data).drop nonceLen = data := List.drop_left' hlength
  simp only [hnonce, hdata]
  rfl

theorem take_append_sealed {Byte : Type} (nonce : Vector Byte nonceLen) (sealed : List Byte)
    (n : ℕ) :
    ((nonce.toList ++ sealed).dropLast.take n).length < nonceLen ∨
      ∃ m < sealed.length,
        (nonce.toList ++ sealed).dropLast.take n = nonce.toList ++ sealed.take m := by
  have hlength : nonce.toList.length = nonceLen := by simp
  have hpositive : 0 < nonceLen := Nat.succ_pos _
  rw [List.dropLast_eq_take, List.take_take, List.length_append, hlength]
  by_cases hshort : min n (nonceLen + sealed.length - 1) < nonceLen
  · exact .inl (lt_of_le_of_lt (List.length_take_le _ _) hshort)
  · refine .inr ⟨min n (nonceLen + sealed.length - 1) - nonceLen, by omega, ?_⟩
    rw [List.take_append, hlength, List.take_of_length_le (by omega)]

theorem decrypt_take (hcodec : codec.Lawful) {rng : Option (Vector codec.Byte nonceLen)}
    {plaintext encrypted : List codec.Byte} (h : encrypt rng plaintext = .ok encrypted) (n : ℕ) :
    ∃ e, decrypt (encrypted.dropLast.take n) = .error e := by
  unfold encrypt at h
  split at h
  next => cases h
  next nonce =>
    split at h
    next => cases h
    next sealed hseal =>
      cases h
      obtain hshort | ⟨m, hm, heq⟩ := take_append_sealed nonce sealed n
      · refine ⟨"cache file too short", ?_⟩
        unfold decrypt
        exact dif_pos hshort
      · rw [heq, decrypt_append, hcodec.cut_off _ _ _ _ hseal hm]
        exact ⟨_, rfl⟩

theorem decrypt_encrypt (hcodec : codec.Lawful) {rng : Option (Vector codec.Byte nonceLen)}
    {plaintext encrypted : List codec.Byte} (h : encrypt rng plaintext = .ok encrypted) :
    decrypt encrypted = .ok plaintext := by
  unfold encrypt at h
  split at h
  next => cases h
  next nonce =>
    split at h
    next => cases h
    next sealed hseal =>
      cases h
      rw [decrypt_append, hcodec.open_seal _ _ _ hseal]

variable {α : Type} {what : String} {json : Except String (List codec.Byte)}
  {rng : Option (Vector codec.Byte nonceLen)} {outcome : WriteOutcome}
  {file file' : Option (List codec.Byte)}

def fileValue (what : String) (fromSlice : List codec.Byte → Except String α)
    (file : Option (List codec.Byte)) : Option (Except String α) :=
  loadJson what fromSlice (read .plain file)

theorem fileValue_of_saveJson (hcodec : codec.Lawful)
    {fromSlice : List codec.Byte → Except String α} {value : α}
    (h : saveJson what json rng outcome file = (file', .ok ()))
    (hjson : ∀ bytes, json = .ok bytes → fromSlice bytes = .ok value) :
    fileValue what fromSlice file' = some (.ok value) := by
  unfold saveJson at h
  split at h
  next => cases h
  next bytes =>
    split at h
    next => cases h
    next encrypted hencrypt =>
      cases outcome with
      | complete =>
          cases h
          have hdecrypt := decrypt_encrypt hcodec hencrypt
          simp only [fileValue, read, Option.map_some, loadJson, hdecrypt, hjson bytes rfl]
          rfl
      | notOpened e => cases h
      | cutOff n e => cases h

theorem fileValue_of_saveJson_error (hcodec : codec.Lawful)
    {fromSlice : List codec.Byte → Except String α} {e : String}
    (h : saveJson what json rng outcome file = (file', .error e)) :
    file' = file ∨ ∃ e, fileValue what fromSlice file' = some (.error e) := by
  unfold saveJson at h
  split at h
  next => exact .inl (Prod.mk.inj h).1.symm
  next bytes =>
    split at h
    next => exact .inl (Prod.mk.inj h).1.symm
    next encrypted hencrypt =>
      cases outcome with
      | complete => cases h
      | notOpened e => exact .inl (Prod.mk.inj h).1.symm
      | cutOff n e =>
          cases h
          obtain ⟨e, hdecrypt⟩ := decrypt_take hcodec hencrypt n
          refine .inr ⟨e, ?_⟩
          simp only [fileValue, read, Option.map_some, loadJson, hdecrypt]

theorem fileValue_of_failed_save (hcodec : codec.Lawful)
    {fromSlice : List codec.Byte → Except String α} {e : String} {value : α}
    (h : saveJson what json rng outcome file = (file', .error e))
    (hvalue : fileValue what fromSlice file' = some (.ok value)) :
    fileValue what fromSlice file = some (.ok value) := by
  rcases fileValue_of_saveJson_error hcodec h with heq | ⟨e, herror⟩
  · rw [← heq]
    exact hvalue
  · cases herror.symm.trans hvalue

theorem loadJson_eq_ok {fromSlice : List codec.Byte → Except String α} {outcome : ReadOutcome}
    {value : α} (h : loadJson what fromSlice (read outcome file) = some (.ok value)) :
    fileValue what fromSlice file = some (.ok value) := by
  cases outcome with
  | plain => exact h
  | notFound => cases h
  | failed e => cases file <;> cases h

end Files

/-! ## Consistent caches -/

/-- The cache holds of every channel the first arrivals of each message id in the order of
their timestamps, the index of their ids, and the reactions that are present, each once. -/
structure Consistent (arrived : UInt32 → List CachedMessage)
    (present : UInt32 → Finset (String × String × String)) (cache : LocalMessageCache) : Prop where
  arranged : ∀ c, Arranged (fun m => m.timestamp.toNat)
    (firsts CachedMessage.messageId (arrived c)) (cache.messages c)
  index : ∀ c, cache.messageIds c = ((cache.messages c).map CachedMessage.messageId).toFinset
  reactions_nodup : ∀ c, ((cache.reactions c).map CachedReaction.key).Nodup
  reactions : ∀ c, ((cache.reactions c).map CachedReaction.key).toFinset = present c

section Consistent

variable {arrived : UInt32 → List CachedMessage}
  {present : UInt32 → Finset (String × String × String)} {cache : LocalMessageCache}

theorem consistent_new : Consistent (fun _ => []) (fun _ => ∅) {} where
  arranged _ := arranged_nil
  index _ := rfl
  reactions_nodup _ := List.nodup_nil
  reactions _ := rfl

theorem Consistent.nodup (h : Consistent arrived present cache) (c : UInt32) :
    ((cache.messages c).map CachedMessage.messageId).Nodup := by
  classical
  exact ((h.arranged c).perm.map _).nodup_iff.mpr (nodup_firsts _)

theorem Consistent.mem_messages_iff (h : Consistent arrived present cache) {c : UInt32}
    {m : CachedMessage} :
    m ∈ cache.messages c ↔ ∃ before after, arrived c = before ++ m :: after ∧
      m.messageId ∉ before.map CachedMessage.messageId :=
  (h.arranged c).mem_iff.trans mem_firsts_iff

theorem Consistent.mem_messageIds (h : Consistent arrived present cache) {c : UInt32}
    {id : String} :
    id ∈ cache.messageIds c ↔
      id ∈ (firsts CachedMessage.messageId (arrived c)).map CachedMessage.messageId := by
  classical
  rw [h.index c, List.mem_toFinset]
  exact ((h.arranged c).perm.map _).mem_iff

def arrive (arrived : UInt32 → List CachedMessage) (msg : CachedMessage) :
    UInt32 → List CachedMessage :=
  Function.update arrived msg.channelId (arrived msg.channelId ++ [msg])

theorem timestamp_le_eq (msg : CachedMessage) :
    (fun m : CachedMessage => decide (m.timestamp ≤ msg.timestamp)) =
      fun m => decide (m.timestamp.toNat ≤ msg.timestamp.toNat) :=
  funext fun _ => decide_eq_decide.mpr UInt64.le_iff_toNat_le

theorem Consistent.insert (h : Consistent arrived present cache) (msg : CachedMessage) :
    Consistent (arrive arrived msg) present (cache.insert msg) := by
  have hfirsts : firsts CachedMessage.messageId (arrive arrived msg msg.channelId) =
      keepFirst CachedMessage.messageId
        (firsts CachedMessage.messageId (arrived msg.channelId)) msg := by
    rw [arrive, Function.update_self, firsts_append_singleton]
  unfold LocalMessageCache.insert
  dsimp only
  split
  next hmem =>
    rw [h.mem_messageIds] at hmem
    refine { h with arranged := fun c => ?_ }
    by_cases hc : c = msg.channelId
    · rw [hc, hfirsts, keepFirst_of_mem hmem]
      exact h.arranged _
    · rw [arrive, Function.update_of_ne hc]
      exact h.arranged c
  next hnew =>
    have hnotMem := mt h.mem_messageIds.mpr hnew
    have hplace := (h.arranged msg.channelId).insert msg
    rw [← timestamp_le_eq msg] at hplace
    refine { h with arranged := fun c => ?_, index := fun c => ?_ }
    · by_cases hc : c = msg.channelId
      · dsimp only
        rw [hc, hfirsts, keepFirst_of_notMem hnotMem, Function.update_self]
        exact hplace
      · dsimp only
        rw [arrive, Function.update_of_ne hc, Function.update_of_ne hc]
        exact h.arranged c
    · by_cases hc : c = msg.channelId
      · dsimp only
        rw [hc, Function.update_self, Function.update_self, h.index msg.channelId]
        refine Finset.ext fun id => ?_
        rw [Finset.mem_insert, List.mem_toFinset, List.mem_toFinset, List.mem_map, List.mem_map]
        simp only [hplace.mem_iff, (h.arranged msg.channelId).mem_iff, List.mem_append,
          List.mem_singleton, or_and_right, exists_or, exists_eq_left]
        exact ⟨fun hid => hid.symm.imp_right Eq.symm, fun hid => hid.symm.imp_left Eq.symm⟩
      · dsimp only
        rw [Function.update_of_ne hc, Function.update_of_ne hc]
        exact h.index c

theorem any_reaction_iff (channel : List CachedReaction) (reaction : CachedReaction) :
    channel.any (fun r => r.messageId = reaction.messageId ∧ r.emoji = reaction.emoji ∧
      r.senderHash = reaction.senderHash) = true ↔
      reaction.key ∈ channel.map CachedReaction.key := by
  simp only [List.any_eq_true, decide_eq_true_eq, List.mem_map, CachedReaction.key,
    Prod.mk.injEq]

theorem Consistent.insertReaction (h : Consistent arrived present cache) (c : UInt32)
    (reaction : CachedReaction) :
    Consistent arrived (Function.update present c (Insert.insert reaction.key (present c)))
      (cache.insertReaction c reaction) := by
  have hiff := any_reaction_iff (cache.reactions c) reaction
  unfold LocalMessageCache.insertReaction
  dsimp only
  split
  next hany =>
    have hmem : reaction.key ∈ present c := by
      rw [← h.reactions c, List.mem_toFinset]
      exact hiff.mp hany
    rw [Finset.insert_eq_of_mem hmem, Function.update_eq_self]
    exact h
  next hany =>
    have hnotMem := mt hiff.mpr hany
    refine { h with reactions_nodup := fun c' => ?_, reactions := fun c' => ?_ }
    · by_cases hc : c' = c
      · dsimp only
        rw [hc, Function.update_self, List.map_append, List.map_singleton]
        refine List.nodup_append.mpr ⟨h.reactions_nodup c, List.nodup_singleton _, ?_⟩
        intro a ha b hb heq
        rw [heq, List.mem_singleton.mp hb] at ha
        exact hnotMem ha
      · dsimp only
        rw [Function.update_of_ne hc]
        exact h.reactions_nodup c'
    · by_cases hc : c' = c
      · dsimp only
        rw [hc, Function.update_self, Function.update_self, ← h.reactions c, List.map_append,
          List.toFinset_append, Finset.union_comm]
        rfl
      · dsimp only
        rw [Function.update_of_ne hc, Function.update_of_ne hc]
        exact h.reactions c'

theorem Consistent.removeReaction (h : Consistent arrived present cache) (c : UInt32)
    (messageId emoji senderHash : String) :
    Consistent arrived
      (Function.update present c ((present c).erase (messageId, emoji, senderHash)))
      (cache.removeReaction c messageId emoji senderHash) := by
  refine { h with reactions_nodup := fun c' => ?_, reactions := fun c' => ?_ }
  · by_cases hc : c' = c
    · dsimp only [LocalMessageCache.removeReaction]
      rw [hc, Function.update_self]
      exact (h.reactions_nodup c).sublist (List.filter_sublist.map _)
    · dsimp only [LocalMessageCache.removeReaction]
      rw [Function.update_of_ne hc]
      exact h.reactions_nodup c'
  · by_cases hc : c' = c
    · dsimp only [LocalMessageCache.removeReaction]
      rw [hc, Function.update_self, Function.update_self, ← h.reactions c]
      refine Finset.ext fun k => ?_
      simp only [List.mem_toFinset, List.mem_map, List.mem_filter, Finset.mem_erase,
        decide_eq_true_eq]
      constructor
      · rintro ⟨r, ⟨hr, hother⟩, rfl⟩
        refine ⟨fun heq => hother ?_, r, hr, rfl⟩
        simpa only [CachedReaction.key, Prod.mk.injEq] using heq
      · rintro ⟨hother, r, hr, rfl⟩
        refine ⟨r, ⟨hr, fun heq => hother ?_⟩, rfl⟩
        simpa only [CachedReaction.key, Prod.mk.injEq] using heq
    · dsimp only [LocalMessageCache.removeReaction]
      rw [Function.update_of_ne hc, Function.update_of_ne hc]
      exact h.reactions c'

theorem Consistent.loaded (h : Consistent arrived present cache)
    {arrived' : UInt32 → List CachedMessage} {messages : UInt32 → List CachedMessage}
    (hmessages : ∀ c, Arranged (fun m => m.timestamp.toNat)
      (firsts CachedMessage.messageId (arrived' c)) (messages c)) :
    Consistent arrived' present { cache with messages }.rebuildMessageIdIndex where
  arranged := hmessages
  index _ := rfl
  reactions_nodup := h.reactions_nodup
  reactions := h.reactions

theorem Consistent.insert_messages (h : Consistent arrived present cache) (msg : CachedMessage) :
    (cache.insert msg).messages =
      (Messages.LocalMessageCache.insert ⟨cache.messages⟩ msg).messages := by
  have hany : (cache.messages msg.channelId).any (fun m => m.messageId = msg.messageId) = true ↔
      msg.messageId ∈ cache.messageIds msg.channelId := by
    simp only [h.index, List.any_eq_true, decide_eq_true_eq, List.mem_toFinset, List.mem_map]
  have hplace := insertIdx_partitionPoint (h.arranged msg.channelId).sorted msg
  rw [← timestamp_le_eq msg] at hplace
  unfold LocalMessageCache.insert Messages.LocalMessageCache.insert
  dsimp only
  by_cases hmem : msg.messageId ∈ cache.messageIds msg.channelId
  · rw [if_pos hmem, if_pos (hany.mpr hmem)]
  · rw [if_neg hmem, if_neg (mt hany.mp hmem)]
    dsimp only
    rw [hplace]

end Consistent

/-! ## Caches over the same files -/

/-- The caches of any number of clients, one after the other or side by side, and the files
that they share. -/
structure Disk (codec : Codec) (ι : Type) where
  caches : ι → LocalMessageCache := fun _ => {}
  messageFile : Option (List codec.Byte) := none
  reactionFile : Option (List codec.Byte) := none

inductive Call (codec : Codec) (ι : Type) where
  | new (i : ι)
  | insert (i : ι) (msg : CachedMessage)
  | insertReaction (i : ι) (channelId : UInt32) (reaction : CachedReaction)
  | removeReaction (i : ι) (channelId : UInt32) (messageId emoji senderHash : String)
  | save (i : ι) (rng : Option (Vector codec.Byte nonceLen)) (outcome : WriteOutcome)
  | saveReactions (i : ι) (rng : Option (Vector codec.Byte nonceLen)) (outcome : WriteOutcome)
  | load (i : ι) (outcome : ReadOutcome)
  | loadReactions (i : ι) (outcome : ReadOutcome)

section Disk

variable {ι : Type} [DecidableEq ι]

def Disk.modify (s : Disk codec ι) (i : ι) (f : LocalMessageCache → LocalMessageCache) :
    Disk codec ι :=
  { s with caches := Function.update s.caches i (f (s.caches i)) }

def Disk.step (s : Disk codec ι) : Call codec ι → Disk codec ι
  | .new i => s.modify i fun _ => {}
  | .insert i msg => s.modify i (·.insert msg)
  | .insertReaction i channelId reaction => s.modify i (·.insertReaction channelId reaction)
  | .removeReaction i channelId messageId emoji senderHash =>
      s.modify i (·.removeReaction channelId messageId emoji senderHash)
  | .save i rng outcome =>
      { s with messageFile := ((s.caches i).save rng outcome s.messageFile).1 }
  | .saveReactions i rng outcome =>
      { s with reactionFile := ((s.caches i).saveReactions rng outcome s.reactionFile).1 }
  | .load i outcome => s.modify i fun cache => (cache.load (read outcome s.messageFile)).1
  | .loadReactions i outcome =>
      s.modify i fun cache => (cache.loadReactions (read outcome s.reactionFile)).1

/-- What came into each cache and which reactions are present, and the same of the caches that
were saved: a load takes over what the saved cache had. -/
structure Ledger (ι : Type) where
  arrived : ι → UInt32 → List CachedMessage := fun _ _ => []
  savedArrived : UInt32 → List CachedMessage := fun _ => []
  present : ι → UInt32 → Finset (String × String × String) := fun _ _ => ∅
  savedPresent : UInt32 → Finset (String × String × String) := fun _ => ∅

def Ledger.step (l : Ledger ι) (s : Disk codec ι) : Call codec ι → Ledger ι
  | .new i =>
      { l with
        arrived := Function.update l.arrived i fun _ => []
        present := Function.update l.present i fun _ => ∅ }
  | .insert i msg => { l with arrived := Function.update l.arrived i (arrive (l.arrived i) msg) }
  | .insertReaction i c reaction =>
      { l with
        present := Function.update l.present i
          (Function.update (l.present i) c (Insert.insert reaction.key (l.present i c))) }
  | .removeReaction i c messageId emoji senderHash =>
      { l with
        present := Function.update l.present i
          (Function.update (l.present i) c
            ((l.present i c).erase (messageId, emoji, senderHash))) }
  | .save i rng outcome =>
      match (s.caches i).save rng outcome s.messageFile with
      | (_, .ok ()) => { l with savedArrived := l.arrived i }
      | (_, .error _) => l
  | .saveReactions i rng outcome =>
      match (s.caches i).saveReactions rng outcome s.reactionFile with
      | (_, .ok ()) => { l with savedPresent := l.present i }
      | (_, .error _) => l
  | .load i outcome =>
      match loadJson "cache" codec.messagesFromSlice (read outcome s.messageFile) with
      | some (.ok _) => { l with arrived := Function.update l.arrived i l.savedArrived }
      | _ => l
  | .loadReactions i outcome =>
      match loadJson "reaction cache" codec.reactionsFromSlice (read outcome s.reactionFile) with
      | some (.ok _) => { l with present := Function.update l.present i l.savedPresent }
      | _ => l

def recordedStep (s : Disk codec ι × Ledger ι) (call : Call codec ι) : Disk codec ι × Ledger ι :=
  (s.1.step call, s.2.step s.1 call)

/-- Every cache is consistent with its record, and so is what the files give back. -/
structure Sound (s : Disk codec ι × Ledger ι) : Prop where
  caches : ∀ i, Consistent (s.2.arrived i) (s.2.present i) (s.1.caches i)
  messageFile : ∀ messages,
    fileValue "cache" codec.messagesFromSlice s.1.messageFile = some (.ok messages) →
      ∀ c, Arranged (fun m => m.timestamp.toNat)
        (firsts CachedMessage.messageId (s.2.savedArrived c)) (messages c)
  reactionFile : ∀ reactions,
    fileValue "reaction cache" codec.reactionsFromSlice s.1.reactionFile = some (.ok reactions) →
      ∀ c, ((reactions c).map CachedReaction.key).Nodup ∧
        ((reactions c).map CachedReaction.key).toFinset = s.2.savedPresent c

omit [DecidableEq ι] in
theorem sound_new : Sound (({}, {}) : Disk codec ι × Ledger ι) where
  caches _ := consistent_new
  messageFile _ h := by cases h
  reactionFile _ h := by cases h

theorem consistent_modify {s : Disk codec ι} {l : Ledger ι}
    (h : ∀ j, Consistent (l.arrived j) (l.present j) (s.caches j)) {i : ι}
    {arrived : UInt32 → List CachedMessage}
    {present : UInt32 → Finset (String × String × String)}
    (f : LocalMessageCache → LocalMessageCache)
    (hi : Consistent arrived present (f (s.caches i))) (j : ι) :
    Consistent (Function.update l.arrived i arrived j) (Function.update l.present i present j)
      ((s.modify i f).caches j) := by
  unfold Disk.modify
  by_cases hj : j = i
  · dsimp only
    rw [hj, Function.update_self, Function.update_self, Function.update_self]
    exact hi
  · dsimp only
    rw [Function.update_of_ne hj, Function.update_of_ne hj, Function.update_of_ne hj]
    exact h j

theorem consistent_unmodified {s : Disk codec ι} {l : Ledger ι}
    (h : ∀ j, Consistent (l.arrived j) (l.present j) (s.caches j)) (i j : ι) :
    Consistent (l.arrived j) (l.present j) ((s.modify i fun cache => cache).caches j) := by
  have hj := consistent_modify h (fun cache => cache) (h i) j
  rwa [Function.update_eq_self, Function.update_eq_self] at hj

theorem save_messages (hcodec : codec.Lawful) {cache : LocalMessageCache}
    {rng : Option (Vector codec.Byte nonceLen)} {outcome : WriteOutcome}
    {file file' : Option (List codec.Byte)}
    (h : cache.save rng outcome file = (file', .ok ())) :
    fileValue "cache" codec.messagesFromSlice file' = some (.ok cache.messages) := by
  obtain ⟨json, hto, hfrom⟩ := hcodec.messages cache.messages
  refine fileValue_of_saveJson hcodec h fun bytes hbytes => ?_
  cases hto.symm.trans hbytes
  exact hfrom

theorem saveReactions_reactions (hcodec : codec.Lawful) {cache : LocalMessageCache}
    {rng : Option (Vector codec.Byte nonceLen)} {outcome : WriteOutcome}
    {file file' : Option (List codec.Byte)}
    (h : cache.saveReactions rng outcome file = (file', .ok ())) :
    fileValue "reaction cache" codec.reactionsFromSlice file' = some (.ok cache.reactions) := by
  obtain ⟨json, hto, hfrom⟩ := hcodec.reactions cache.reactions
  refine fileValue_of_saveJson hcodec h fun bytes hbytes => ?_
  cases hto.symm.trans hbytes
  exact hfrom

theorem Sound.save (hcodec : codec.Lawful) {s : Disk codec ι × Ledger ι} (h : Sound s) (i : ι)
    (rng : Option (Vector codec.Byte nonceLen)) (outcome : WriteOutcome) :
    Sound (recordedStep s (.save i rng outcome)) := by
  obtain ⟨disk, ledger⟩ := s
  obtain ⟨⟨file, result⟩, hsave⟩ :
      ∃ r, (disk.caches i).save rng outcome disk.messageFile = r := ⟨_, rfl⟩
  cases result with
  | ok done =>
      simp only [recordedStep, Disk.step, Ledger.step, hsave]
      refine { h with messageFile := fun messages hvalue c => ?_ }
      cases (save_messages hcodec hsave).symm.trans hvalue
      exact (h.caches i).arranged c
  | error e =>
      simp only [recordedStep, Disk.step, Ledger.step, hsave]
      exact { h with
        messageFile := fun messages hvalue =>
          h.messageFile messages (fileValue_of_failed_save hcodec hsave hvalue) }

theorem Sound.saveReactions (hcodec : codec.Lawful) {s : Disk codec ι × Ledger ι} (h : Sound s)
    (i : ι) (rng : Option (Vector codec.Byte nonceLen)) (outcome : WriteOutcome) :
    Sound (recordedStep s (.saveReactions i rng outcome)) := by
  obtain ⟨disk, ledger⟩ := s
  obtain ⟨⟨file, result⟩, hsave⟩ :
      ∃ r, (disk.caches i).saveReactions rng outcome disk.reactionFile = r := ⟨_, rfl⟩
  cases result with
  | ok done =>
      simp only [recordedStep, Disk.step, Ledger.step, hsave]
      refine { h with reactionFile := fun reactions hvalue c => ?_ }
      cases (saveReactions_reactions hcodec hsave).symm.trans hvalue
      exact ⟨(h.caches i).reactions_nodup c, (h.caches i).reactions c⟩
  | error e =>
      simp only [recordedStep, Disk.step, Ledger.step, hsave]
      exact { h with
        reactionFile := fun reactions hvalue =>
          h.reactionFile reactions (fileValue_of_failed_save hcodec hsave hvalue) }

theorem Sound.load {s : Disk codec ι × Ledger ι} (h : Sound s) (i : ι) (outcome : ReadOutcome) :
    Sound (recordedStep s (.load i outcome)) := by
  obtain ⟨disk, ledger⟩ := s
  rcases hload : loadJson "cache" codec.messagesFromSlice (read outcome disk.messageFile) with
    _ | e | messages
  · simp only [recordedStep, Disk.step, Ledger.step, LocalMessageCache.load, hload]
    exact { h with caches := fun j => consistent_unmodified h.caches i j }
  · simp only [recordedStep, Disk.step, Ledger.step, LocalMessageCache.load, hload]
    exact { h with caches := fun j => consistent_unmodified h.caches i j }
  · simp only [recordedStep, Disk.step, Ledger.step, LocalMessageCache.load, hload]
    refine { h with caches := fun j => ?_ }
    have hloaded := (h.caches i).loaded (h.messageFile messages (loadJson_eq_ok hload))
    have hj := consistent_modify h.caches
      (fun cache => { cache with messages }.rebuildMessageIdIndex) hloaded j
    rwa [Function.update_eq_self] at hj

theorem Sound.loadReactions {s : Disk codec ι × Ledger ι} (h : Sound s) (i : ι)
    (outcome : ReadOutcome) : Sound (recordedStep s (.loadReactions i outcome)) := by
  obtain ⟨disk, ledger⟩ := s
  rcases hload : loadJson "reaction cache" codec.reactionsFromSlice
      (read outcome disk.reactionFile) with _ | e | reactions
  · simp only [recordedStep, Disk.step, Ledger.step, LocalMessageCache.loadReactions, hload]
    exact { h with caches := fun j => consistent_unmodified h.caches i j }
  · simp only [recordedStep, Disk.step, Ledger.step, LocalMessageCache.loadReactions, hload]
    exact { h with caches := fun j => consistent_unmodified h.caches i j }
  · simp only [recordedStep, Disk.step, Ledger.step, LocalMessageCache.loadReactions, hload]
    refine { h with caches := fun j => ?_ }
    have hfile := h.reactionFile reactions (loadJson_eq_ok hload)
    have hloaded : Consistent (ledger.arrived i) ledger.savedPresent
        { disk.caches i with reactions } :=
      { h.caches i with
        reactions_nodup := fun c => (hfile c).1
        reactions := fun c => (hfile c).2 }
    have hj := consistent_modify h.caches (fun cache => { cache with reactions }) hloaded j
    rwa [Function.update_eq_self] at hj

theorem Sound.step (hcodec : codec.Lawful) {s : Disk codec ι × Ledger ι} (h : Sound s)
    (call : Call codec ι) : Sound (recordedStep s call) := by
  have hcaches := h.caches
  cases call with
  | new i =>
      exact { h with caches := fun j => consistent_modify hcaches (fun _ => {}) consistent_new j }
  | insert i msg =>
      refine { h with caches := fun j => ?_ }
      have hj := consistent_modify hcaches (·.insert msg) ((h.caches i).insert msg) j
      rwa [Function.update_eq_self] at hj
  | insertReaction i c reaction =>
      refine { h with caches := fun j => ?_ }
      have hj := consistent_modify hcaches (·.insertReaction c reaction)
        ((h.caches i).insertReaction c reaction) j
      rwa [Function.update_eq_self] at hj
  | removeReaction i c messageId emoji senderHash =>
      refine { h with caches := fun j => ?_ }
      have hj := consistent_modify hcaches (·.removeReaction c messageId emoji senderHash)
        ((h.caches i).removeReaction c messageId emoji senderHash) j
      rwa [Function.update_eq_self] at hj
  | save i rng outcome => exact h.save hcodec i rng outcome
  | saveReactions i rng outcome => exact h.saveReactions hcodec i rng outcome
  | load i outcome => exact h.load i outcome
  | loadReactions i outcome => exact h.loadReactions i outcome

/-! ## Saving and loading -/

def Call.savesMessages : Call codec ι → Bool
  | .save .. => true
  | _ => false

def Call.savesReactions : Call codec ι → Bool
  | .saveReactions .. => true
  | _ => false

/-- Whatever else is done in between, a cache that loads what another one saved (or it itself)
has the messages and the index that the other one had, and the reactions. A save with a nonce
that seals and a complete write succeeds. -/
structure RestoresSaved (s : Disk codec ι) : Prop where
  saved : ∀ i nonce, (∀ plain, (codec.sealInPlace nonce plain).isSome) →
    ((s.caches i).save (some nonce) .complete s.messageFile).2 = .ok () ∧
      ((s.caches i).saveReactions (some nonce) .complete s.reactionFile).2 = .ok ()
  messages : ∀ i rng outcome file,
    (s.caches i).save rng outcome s.messageFile = (file, .ok ()) →
      ∀ calls : List (Call codec ι), (∀ call ∈ calls, call.savesMessages = false) →
        ∀ j, let restored := ((run Disk.step (s.step (.save i rng outcome)) calls).step
            (.load j .plain)).caches j
          restored.messages = (s.caches i).messages ∧
            restored.messageIds = (s.caches i).messageIds
  reactions : ∀ i rng outcome file,
    (s.caches i).saveReactions rng outcome s.reactionFile = (file, .ok ()) →
      ∀ calls : List (Call codec ι), (∀ call ∈ calls, call.savesReactions = false) →
        ∀ j, (((run Disk.step (s.step (.saveReactions i rng outcome)) calls).step
            (.loadReactions j .plain)).caches j).reactions = (s.caches i).reactions

def FailsCleanly (s : Disk codec ι) : Prop :=
  ∀ i outcome e,
    (((s.caches i).load (read outcome s.messageFile)).2 = .error e →
      s.step (.load i outcome) = s) ∧
    (((s.caches i).loadReactions (read outcome s.reactionFile)).2 = .error e →
      s.step (.loadReactions i outcome) = s)

theorem messageFile_run {calls : List (Call codec ι)}
    (h : ∀ call ∈ calls, call.savesMessages = false) (s : Disk codec ι) :
    (run Disk.step s calls).messageFile = s.messageFile := by
  induction calls generalizing s with
  | nil => rfl
  | cons call calls ih =>
      rw [run_cons, ih fun call' hcall => h call' (List.mem_cons_of_mem _ hcall)]
      have hcall := h call List.mem_cons_self
      cases call with
      | save i rng outcome => cases hcall
      | _ => rfl

theorem reactionFile_run {calls : List (Call codec ι)}
    (h : ∀ call ∈ calls, call.savesReactions = false) (s : Disk codec ι) :
    (run Disk.step s calls).reactionFile = s.reactionFile := by
  induction calls generalizing s with
  | nil => rfl
  | cons call calls ih =>
      rw [run_cons, ih fun call' hcall => h call' (List.mem_cons_of_mem _ hcall)]
      have hcall := h call List.mem_cons_self
      cases call with
      | saveReactions i rng outcome => cases hcall
      | _ => rfl

theorem caches_load {s : Disk codec ι} {messages : UInt32 → List CachedMessage}
    (h : fileValue "cache" codec.messagesFromSlice s.messageFile = some (.ok messages)) (j : ι) :
    (s.step (.load j .plain)).caches j =
      { s.caches j with messages }.rebuildMessageIdIndex := by
  unfold fileValue at h
  simp only [Disk.step, Disk.modify, Function.update_self, LocalMessageCache.load, h]

theorem caches_loadReactions {s : Disk codec ι} {reactions : UInt32 → List CachedReaction}
    (h : fileValue "reaction cache" codec.reactionsFromSlice s.reactionFile =
      some (.ok reactions)) (j : ι) :
    (s.step (.loadReactions j .plain)).caches j = { s.caches j with reactions } := by
  unfold fileValue at h
  simp only [Disk.step, Disk.modify, Function.update_self, LocalMessageCache.loadReactions, h]

theorem saveJson_complete {what : String} {json : Except String (List codec.Byte)}
    {plain : List codec.Byte} (hjson : json = .ok plain) {nonce : Vector codec.Byte nonceLen}
    (hseals : (codec.sealInPlace nonce plain).isSome) (file : Option (List codec.Byte)) :
    (saveJson what json (some nonce) .complete file).2 = .ok () := by
  obtain ⟨sealed, hsealed⟩ := Option.isSome_iff_exists.mp hseals
  simp only [saveJson, hjson, encrypt, hsealed, write, Except.mapError]

theorem Sound.restoresSaved (hcodec : codec.Lawful) {s : Disk codec ι × Ledger ι} (h : Sound s) :
    RestoresSaved s.1 where
  saved i nonce hseals := by
    obtain ⟨messages, hmessages, -⟩ := hcodec.messages (s.1.caches i).messages
    obtain ⟨reactions, hreactions, -⟩ := hcodec.reactions (s.1.caches i).reactions
    exact ⟨saveJson_complete hmessages (hseals messages) _,
      saveJson_complete hreactions (hseals reactions) _⟩
  messages i rng outcome file hsave calls hcalls j := by
    have hfile := messageFile_run hcalls (s.1.step (.save i rng outcome))
    have hstep : (s.1.step (.save i rng outcome)).messageFile = file := by
      simp only [Disk.step, hsave]
    have hvalue := save_messages hcodec hsave
    rw [← hstep, ← hfile] at hvalue
    dsimp only
    rw [caches_load hvalue j]
    exact ⟨rfl, funext fun c => ((h.caches i).index c).symm⟩
  reactions i rng outcome file hsave calls hcalls j := by
    have hfile := reactionFile_run hcalls (s.1.step (.saveReactions i rng outcome))
    have hstep : (s.1.step (.saveReactions i rng outcome)).reactionFile = file := by
      simp only [Disk.step, hsave]
    have hvalue := saveReactions_reactions hcodec hsave
    rw [← hstep, ← hfile] at hvalue
    rw [caches_loadReactions hvalue j]

theorem failsCleanly (s : Disk codec ι) : FailsCleanly s := by
  intro i outcome e
  constructor
  · intro herror
    unfold LocalMessageCache.load at herror
    split at herror
    next => cases herror
    next e' hload =>
      simp only [Disk.step, Disk.modify, LocalMessageCache.load, hload, Function.update_eq_self]
    next => cases herror
  · intro herror
    unfold LocalMessageCache.loadReactions at herror
    split at herror
    next => cases herror
    next e' hload =>
      simp only [Disk.step, Disk.modify, LocalMessageCache.loadReactions, hload,
        Function.update_eq_self]
    next => cases herror

theorem sound_run (hcodec : codec.Lawful) (calls : List (Call codec ι)) :
    Sound (run recordedStep (({}, {}) : Disk codec ι × Ledger ι) calls) :=
  invariant_always (fun _ call hs => hs.step hcodec call) sound_new

/-- After every sequence of calls the caches hold the first arrival of each id, in the order of
the timestamps and once; the index is the set of their ids; the reactions form the set of those
that are present; what was saved is restored by a load, and a load that fails changes
nothing. -/
theorem consistent_run (hcodec : codec.Lawful) (calls : List (Call codec ι)) :
    let s := run recordedStep (({}, {}) : Disk codec ι × Ledger ι) calls
    (∀ i, Consistent (s.2.arrived i) (s.2.present i) (s.1.caches i) ∧
      ∀ c, (((s.1.caches i).messages c).map CachedMessage.messageId).Nodup ∧
        ∀ m, m ∈ (s.1.caches i).messages c ↔
          ∃ before after, s.2.arrived i c = before ++ m :: after ∧
            m.messageId ∉ before.map CachedMessage.messageId) ∧
      RestoresSaved s.1 ∧ FailsCleanly s.1 := by
  intro s
  have hsound := sound_run hcodec calls
  refine ⟨fun i => ⟨hsound.caches i, fun c => ⟨(hsound.caches i).nodup c, fun m => ?_⟩⟩,
    hsound.restoresSaved hcodec, failsCleanly s.1⟩
  exact (hsound.caches i).mem_messages_iff

end Disk

section Example

inductive SymbolicByte where
  | byte (b : UInt8)
  | messages (m : UInt32 → List CachedMessage)
  | reactions (r : UInt32 → List CachedReaction)
  | sealed (plain : List SymbolicByte)

def symbolicCodec : Codec where
  Byte := SymbolicByte
  messagesToVec m := .ok [.messages m]
  messagesFromSlice
    | [.messages m] => .ok m
    | _ => .error "expected a map"
  reactionsToVec r := .ok [.reactions r]
  reactionsFromSlice
    | [.reactions r] => .ok r
    | _ => .error "expected a map"
  sealInPlace _ plain := some [.sealed plain]
  openInPlace
    | _, [.sealed plain] => some plain
    | _, _ => none

private theorem lawful_symbolicCodec : symbolicCodec.Lawful where
  messages m := ⟨_, rfl, rfl⟩
  reactions r := ⟨_, rfl, rfl⟩
  open_seal nonce plain sealed h := by
    cases h
    rfl
  cut_off nonce plain sealed n h hn := by
    cases h
    have hn : n < 1 := hn
    cases Nat.lt_one_iff.mp hn
    rfl

private def cachedMessage (messageId : String) (timestamp : UInt64) : CachedMessage :=
  { messageId, channelId := 5, timestamp, senderHash := "hash", senderName := "name",
    body := "body", isOwn := false }

/-- A later message comes first, and another client has both in order after a restart. -/
theorem consistent_run_example :
    let s := run recordedStep (({}, {}) : Disk symbolicCodec (Fin 2) × Ledger (Fin 2))
      [.insert 0 (cachedMessage "b" 2), .insert 0 (cachedMessage "a" 1),
        .save 0 (some (.replicate nonceLen (.byte 0))) .complete, .load 1 .plain]
    ((s.1.caches 1).messages 5).map CachedMessage.messageId = ["a", "b"] ∧
      (∀ i, Consistent (s.2.arrived i) (s.2.present i) (s.1.caches i) ∧
        ∀ c, (((s.1.caches i).messages c).map CachedMessage.messageId).Nodup ∧
          ∀ m, m ∈ (s.1.caches i).messages c ↔
            ∃ before after, s.2.arrived i c = before ++ m :: after ∧
              m.messageId ∉ before.map CachedMessage.messageId) ∧
      RestoresSaved s.1 ∧ FailsCleanly s.1 :=
  ⟨by decide +kernel, consistent_run lawful_symbolicCodec _⟩

end Example

end FancyMumble.Messages.LocalCache
