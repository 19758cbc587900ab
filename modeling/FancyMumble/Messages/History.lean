import Mathlib.Data.List.Basic

/-!
# The history and the cache of messages

The messages of a channel that a client shows, of which only the newest stay, and the
decrypted messages that it keeps for the next start.
-/

namespace FancyMumble.Messages

def maxMessagesPerThread : ℕ := 500

theorem maxMessagesPerThread_pos : 0 < maxMessagesPerThread := by decide

/-- `ChatMessage`, with the fields that the handlers of messages set. Whether the body is
what the sender encrypted is recorded for the statements only. -/
structure ChatMessage where
  senderName : String
  senderHash : Option String
  body : String
  channelId : UInt32
  isOwn : Bool := false
  messageId : Option String
  timestamp : Option UInt64
  decrypted : Bool

structure CachedMessage where
  messageId : String
  channelId : UInt32
  timestamp : UInt64
  senderHash : String
  senderName : String
  body : String
  isOwn : Bool

structure LocalMessageCache where
  messages : UInt32 → List CachedMessage := fun _ => []

/-! ## Cache -/

def LocalMessageCache.insert (cache : LocalMessageCache) (msg : CachedMessage) :
    LocalMessageCache :=
  let channel := cache.messages msg.channelId
  if channel.any fun m => m.messageId = msg.messageId then cache
  else
    -- `partition_point` of the messages that are not newer
    let before := channel.takeWhile fun m => m.timestamp ≤ msg.timestamp
    let after := channel.dropWhile fun m => m.timestamp ≤ msg.timestamp
    { messages := Function.update cache.messages msg.channelId (before ++ msg :: after) }

theorem LocalMessageCache.mem_insert_of_mem {cache : LocalMessageCache} {channelId : UInt32}
    {m : CachedMessage} (h : m ∈ cache.messages channelId) (msg : CachedMessage) :
    m ∈ (cache.insert msg).messages channelId := by
  unfold LocalMessageCache.insert
  dsimp only
  split
  next => exact h
  next =>
    by_cases hchannel : channelId = msg.channelId
    · subst hchannel
      dsimp only
      rw [Function.update_self]
      have hsplit : (cache.messages msg.channelId).takeWhile
            (fun m => decide (m.timestamp ≤ msg.timestamp)) ++
          (cache.messages msg.channelId).dropWhile
            (fun m => decide (m.timestamp ≤ msg.timestamp)) =
          cache.messages msg.channelId := List.takeWhile_append_dropWhile
      rw [← hsplit] at h
      rcases List.mem_append.mp h with hbefore | hafter
      · exact List.mem_append_left _ hbefore
      · exact List.mem_append_right _ (List.mem_cons_of_mem _ hafter)
    · dsimp only
      rw [Function.update_of_ne hchannel]
      exact h

theorem LocalMessageCache.mem_of_mem_insert {cache : LocalMessageCache} {msg : CachedMessage}
    {channelId : UInt32} {m : CachedMessage} (h : m ∈ (cache.insert msg).messages channelId) :
    m ∈ cache.messages channelId ∨ m = msg ∧ channelId = msg.channelId := by
  unfold LocalMessageCache.insert at h
  dsimp only at h
  split at h
  next => exact .inl h
  next =>
    dsimp only at h
    by_cases hchannel : channelId = msg.channelId
    · subst hchannel
      rw [Function.update_self] at h
      rcases List.mem_append.mp h with hbefore | hafter
      · exact .inl ((List.takeWhile_sublist _).subset hbefore)
      · rcases List.mem_cons.mp hafter with hnew | hafter
        · exact .inr ⟨hnew, rfl⟩
        · exact .inl ((List.dropWhile_sublist _).subset hafter)
    · rw [Function.update_of_ne hchannel] at h
      exact .inl h

theorem LocalMessageCache.exists_mem_insert (cache : LocalMessageCache) (msg : CachedMessage) :
    msg ∈ (cache.insert msg).messages msg.channelId ∨
      ∃ m ∈ cache.messages msg.channelId, m.messageId = msg.messageId := by
  unfold LocalMessageCache.insert
  dsimp only
  split
  next hany =>
    obtain ⟨m, hm, hid⟩ := List.any_eq_true.mp hany
    exact .inr ⟨m, hm, of_decide_eq_true hid⟩
  next =>
    dsimp only
    rw [Function.update_self]
    exact .inl (List.mem_append_right _ List.mem_cons_self)

/-! ## History -/

def pushCapped {ρ : Type*} (messages : List ρ) (msg : ρ) : List ρ :=
  (messages ++ [msg]).drop (messages.length + 1 - maxMessagesPerThread)

def insertNew {ρ : Type*} (idOf : ρ → Option String) (messages : List ρ) (messageId : String)
    (msg : ρ) : List ρ :=
  if messages.any fun m => idOf m = some messageId then messages
  else pushCapped messages msg

theorem insertNew_of_mem {messages : List ChatMessage} {messageId : String}
    (h : some messageId ∈ messages.map ChatMessage.messageId) (msg : ChatMessage) :
    insertNew ChatMessage.messageId messages messageId msg = messages := by
  obtain ⟨m, hm, hid⟩ := List.mem_map.mp h
  exact if_pos (List.any_eq_true.mpr ⟨m, hm, decide_eq_true hid⟩)

theorem insertNew_of_notMem {messages : List ChatMessage} {messageId : String}
    (h : some messageId ∉ messages.map ChatMessage.messageId) (msg : ChatMessage) :
    insertNew ChatMessage.messageId messages messageId msg = pushCapped messages msg := by
  refine if_neg fun hany => h ?_
  obtain ⟨m, hm, hid⟩ := List.any_eq_true.mp hany
  exact List.mem_map.mpr ⟨m, hm, of_decide_eq_true hid⟩

def insertOrReplaceMessage {ρ : Type*} (idOf : ρ → Option String) (messages : List ρ)
    (messageId : String) (replacesId : Option String) (msg : ρ) : List ρ :=
  match replacesId.bind fun id => messages.findIdx? fun m => idOf m = some id with
  | some pos => messages.set pos msg
  | none => insertNew idOf messages messageId msg

/-- How many of the messages with the given ids are dropped when messages with new ids are
appended one after the other. -/
def overflow : List (Option String) → List String → ℕ
  | _, [] => 0
  | present, id :: ids =>
      if some id ∈ present then overflow present ids
      else
        let dropped := present.length + 1 - maxMessagesPerThread
        dropped + overflow ((present ++ [some id]).drop dropped) ids

theorem foldl_insertNew (messages : List ChatMessage) (rows : List (String × ChatMessage))
    (hids : ∀ row ∈ rows, row.2.messageId = some row.1) :
    ∃ appended,
      rows.foldl (fun messages row => insertNew ChatMessage.messageId messages row.1 row.2)
          messages =
        messages.drop (overflow (messages.map ChatMessage.messageId) (rows.map Prod.fst)) ++
          appended := by
  induction rows generalizing messages with
  | nil => exact ⟨[], by simp [overflow]⟩
  | cons row rows ih =>
      have hrow := hids row List.mem_cons_self
      have hrows : ∀ row ∈ rows, row.2.messageId = some row.1 :=
        fun row hmem => hids row (List.mem_cons_of_mem _ hmem)
      rw [List.foldl_cons, List.map_cons]
      unfold overflow
      by_cases hpresent : some row.1 ∈ messages.map ChatMessage.messageId
      · rw [if_pos hpresent, insertNew_of_mem hpresent]
        exact ih messages hrows
      · rw [if_neg hpresent, insertNew_of_notMem hpresent]
        obtain ⟨appended, heq⟩ := ih (pushCapped messages row.2) hrows
        have hmap : (pushCapped messages row.2).map ChatMessage.messageId =
            (messages.map ChatMessage.messageId ++ [some row.1]).drop
              (messages.length + 1 - maxMessagesPerThread) := by
          rw [pushCapped, List.map_drop, List.map_append, List.map_cons, List.map_nil, hrow]
        dsimp only
        rw [heq, hmap, pushCapped, List.length_map, List.drop_drop, List.drop_append,
          List.append_assoc]
        exact ⟨_, rfl⟩

theorem mem_foldl_insertNew {messages : List ChatMessage} {m : ChatMessage}
    (hm : m ∈ messages) (rows : List (String × ChatMessage))
    (hids : ∀ row ∈ rows, row.2.messageId = some row.1)
    (hkept : m ∉ messages.take
      (overflow (messages.map ChatMessage.messageId) (rows.map Prod.fst))) :
    m ∈ rows.foldl (fun messages row => insertNew ChatMessage.messageId messages row.1 row.2)
      messages := by
  obtain ⟨appended, heq⟩ := foldl_insertNew messages rows hids
  rw [heq]
  rw [← List.take_append_drop (overflow (messages.map ChatMessage.messageId) (rows.map Prod.fst))
    messages] at hm
  rcases List.mem_append.mp hm with hdropped | hstays
  · exact absurd hdropped hkept
  · exact List.mem_append_left _ hstays

end FancyMumble.Messages
