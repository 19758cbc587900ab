import FancyMumble.Messages.Stash

/-!
# Acknowledged messages are held

The server may forget an offline message that a client has acknowledged. The client should
then have it: decrypted, in the history or in the cache.
-/

namespace FancyMumble.Messages

open Lib.Runs Signal

variable {lib : Libraries} {codecs : Codecs lib}

namespace SharedState

def Holds (state : SharedState lib) (channelId : UInt32) (messageId : String) : Prop :=
  (∃ row ∈ state.byChannel channelId, row.messageId = some messageId ∧ row.decrypted = true) ∨
    ∃ pchat ∈ state.pchat, ∃ m ∈ pchat.cached channelId, m.messageId = messageId

variable (codecs) in
/-- Every message that is acknowledged was held before or is held now. -/
def AcksHeld (state : SharedState lib) (event : InboundEvent lib) : Prop :=
  match event with
  | .offlineMessages channelId messages =>
      ∀ messageId ∈ state.acked codecs (.offlineMessages channelId messages),
        state.Holds channelId messageId ∨
          (state.step codecs (.offlineMessages channelId messages)).Holds channelId messageId
  | _ => True

/-- When its turn comes in the batch, a message of the id can be decrypted, and either it
is a Signal message that goes to a cache, or it is the first of its id, there is no row
for it yet, and its row is not dropped by those that follow. -/
def Obtains (codecs : Codecs lib) (pchat : PchatState lib) (rows : List ChatMessage)
    (channelId : UInt32) (messages : List (PchatMessageDeliver lib)) (messageId : String) :
    Prop :=
  ∃ before msg rest, messages = before ++ msg :: rest ∧ msg.messageId.getD "" = messageId ∧
    let turn := (decryptOfflineBatch codecs channelId pchat before).1
    let env := msg.inbound codecs channelId
    (∃ envelope, (env.decrypt codecs turn).2 = .ok envelope) ∧
      (env.protocol = .signalV1 ∧ turn.localCache.isSome ∨
        (∀ other ∈ before, other.messageId.getD "" ≠ messageId) ∧
          (∀ row ∈ rows, row.messageId ≠ some messageId) ∧ rest.length < maxMessagesPerThread)

/-- Every message of a batch that is acknowledged is held already or can be obtained. -/
def ObtainsAcked (codecs : Codecs lib) (state : SharedState lib) (event : InboundEvent lib) :
    Prop :=
  match event with
  | .offlineMessages channelId messages =>
      state.clientHandle = true → ∀ pchat ∈ state.pchat, ∀ msg ∈ messages,
        state.Holds channelId (msg.messageId.getD "") ∨
          Obtains codecs pchat (state.byChannel channelId) channelId messages
            (msg.messageId.getD "")
  | _ => True

/-! ## Decrypted messages -/

theorem decrypted_receive {env : InboundEnvelope lib} {pchat : PchatState lib}
    {envelope : MessageEnvelope} (h : (env.decrypt codecs pchat).2 = .ok envelope) :
    (receive codecs env pchat).2.decrypted = true := by
  have hdecrypted : (decryptOrStash codecs env pchat).2.decrypted = true := by
    unfold decryptOrStash
    split
    next => rfl
    next after e heq =>
      rw [heq] at h
      cases h
  unfold receive
  dsimp only
  split
  next => exact hdecrypted
  next => exact hdecrypted

theorem cached_decryptOrStash (codecs : Codecs lib) {channelId : UInt32} {m : CachedMessage}
    {pchat : PchatState lib}
    (h : m ∈ pchat.cached channelId) (env : InboundEnvelope lib) :
    m ∈ (decryptOrStash codecs env pchat).1.cached channelId := by
  obtain ⟨bridge, hbridge⟩ := decrypt_state codecs env pchat
  have hcached : m ∈ (env.decrypt codecs pchat).1.cached channelId := by
    rw [hbridge]
    exact h
  unfold decryptOrStash
  split
  next after envelope heq =>
    rw [heq] at hcached
    exact hcached
  next after e heq =>
    rw [heq] at hcached
    dsimp only
    split
    next =>
      unfold PchatState.stashSignalEnvelope
      dsimp only
      split
      next => exact hcached
      next => exact hcached
    next => exact hcached

theorem cached_receive {channelId : UInt32} {m : CachedMessage} {pchat : PchatState lib}
    (h : m ∈ pchat.cached channelId) (env : InboundEnvelope lib) :
    m ∈ (receive codecs env pchat).1.cached channelId := by
  have hcached := cached_decryptOrStash codecs h env
  unfold receive
  dsimp only
  split
  next => exact (sameStash_cacheSignalMessage _ _).cached channelId m hcached
  next => exact hcached

theorem cached_decryptOfflineBatch {channelId : UInt32} {m : CachedMessage}
    (batchChannel : UInt32) (messages : List (PchatMessageDeliver lib)) {pchat : PchatState lib}
    (h : m ∈ pchat.cached channelId) :
    m ∈ (decryptOfflineBatch codecs batchChannel pchat messages).1.cached channelId := by
  induction messages generalizing pchat with
  | nil => exact h
  | cons msg rest ih => exact ih (cached_receive h _)

/-- A decrypted Signal message is in the cache, or was there before. -/
theorem exists_cached_receive {env : InboundEnvelope lib} {pchat : PchatState lib}
    {envelope : MessageEnvelope} (h : (env.decrypt codecs pchat).2 = .ok envelope)
    (hsignal : env.protocol = .signalV1) (hcache : pchat.localCache.isSome) :
    ∃ m ∈ (receive codecs env pchat).1.cached env.channelId, m.messageId = env.messageId := by
  obtain ⟨bridge, hbridge⟩ := decrypt_state codecs env pchat
  have hopened : (decryptOrStash codecs env pchat).1 = { pchat with signalBridge := bridge } ∧
      (decryptOrStash codecs env pchat).2.decrypted = true := by
    unfold decryptOrStash
    split
    next after envelope' heq =>
      rw [heq] at hbridge
      exact ⟨hbridge, rfl⟩
    next after e heq =>
      rw [heq] at h
      cases h
  have hid := messageId_decryptOrStash codecs env pchat
  unfold receive
  dsimp only
  rw [if_pos ⟨hsignal, hopened.2⟩, hopened.1]
  rcases exists_mem_cached { pchat with signalBridge := bridge } hcache
    { messageId := (decryptOrStash codecs env pchat).2.messageId
      channelId := env.channelId
      timestamp := (decryptOrStash codecs env pchat).2.timestamp
      senderHash := (decryptOrStash codecs env pchat).2.senderHash
      senderName := (decryptOrStash codecs env pchat).2.senderName
      body := (decryptOrStash codecs env pchat).2.body
      isOwn := false } with hnew | ⟨m, hm, hsame⟩
  · exact ⟨_, hnew, hid⟩
  · exact ⟨m, (sameStash_cacheSignalMessage _ _).cached _ m hm, hsame.trans hid⟩

theorem decryptOfflineBatch_append (channelId : UInt32)
    (before rest : List (PchatMessageDeliver lib)) (pchat : PchatState lib) :
    decryptOfflineBatch codecs channelId pchat (before ++ rest) =
      let first := decryptOfflineBatch codecs channelId pchat before
      let second := decryptOfflineBatch codecs channelId first.1 rest
      (second.1, first.2 ++ second.2) := by
  induction before generalizing pchat with
  | nil => rfl
  | cons msg before ih =>
      rw [List.cons_append, decryptOfflineBatch, decryptOfflineBatch]
      dsimp only
      rw [ih]
      rfl

/-! ## Rows -/

theorem mem_foldl_insertNew_of_lt {row : ChatMessage} (decrypted : List DecryptedMsg)
    (channelId : UInt32) {before after : List ChatMessage}
    (hroom : after.length + decrypted.length < maxMessagesPerThread) :
    row ∈ decrypted.foldl (fun messages msg => insertNew ChatMessage.messageId messages
      msg.messageId (msg.chatMessage channelId)) (before ++ row :: after) := by
  induction decrypted generalizing before after with
  | nil => exact List.mem_append_right _ List.mem_cons_self
  | cons msg decrypted ih =>
      rw [List.length_cons] at hroom
      rw [List.foldl_cons]
      by_cases hpresent : some msg.messageId ∈
          (before ++ row :: after).map ChatMessage.messageId
      · rw [insertNew_of_mem hpresent]
        exact ih (by omega)
      · rw [insertNew_of_notMem hpresent, pushCapped, List.append_assoc, List.cons_append,
          List.drop_append_of_le_length (by
            rw [List.length_append, List.length_cons]
            omega)]
        refine ih ?_
        rw [List.length_append, List.length_singleton]
        omega

theorem notMem_ids_foldl_insertNew {messageId : String} (channelId : UInt32)
    (decrypted : List DecryptedMsg) {rows : List ChatMessage}
    (hrows : ∀ row ∈ rows, row.messageId ≠ some messageId)
    (hdecrypted : ∀ msg ∈ decrypted, msg.messageId ≠ messageId) :
    ∀ row ∈ decrypted.foldl (fun messages msg => insertNew ChatMessage.messageId messages
      msg.messageId (msg.chatMessage channelId)) rows, row.messageId ≠ some messageId := by
  induction decrypted generalizing rows with
  | nil => exact hrows
  | cons msg decrypted ih =>
      rw [List.foldl_cons]
      refine ih ?_ fun other hother => hdecrypted other (List.mem_cons_of_mem _ hother)
      by_cases hpresent : some msg.messageId ∈ rows.map ChatMessage.messageId
      · rw [insertNew_of_mem hpresent]
        exact hrows
      · rw [insertNew_of_notMem hpresent]
        intro row hrow
        rcases List.mem_append.mp (List.mem_of_mem_drop hrow) with hold | hnew
        · exact hrows row hold
        · rw [List.mem_singleton.mp hnew]
          exact fun hid => hdecrypted msg List.mem_cons_self (Option.some.inj hid)

/-! ## Drained queues -/

/-- What can be obtained from a batch is held afterwards. -/
theorem holds_of_obtains {state : SharedState lib} {pchat : PchatState lib}
    (hpchat : state.pchat = some pchat) {channelId : UInt32}
    {messages : List (PchatMessageDeliver lib)} {messageId : String}
    (h : Obtains codecs pchat (state.byChannel channelId) channelId messages messageId) :
    (handleOfflineMessages codecs channelId messages state).1.Holds channelId messageId := by
  obtain ⟨before, msg, rest, heq, hid, ⟨envelope, hdecrypt⟩, hstored⟩ := h
  have hne : messages.isEmpty = false := by
    rw [heq]
    simp
  unfold handleOfflineMessages
  rw [hne, if_neg Bool.false_ne_true, hpchat, heq]
  dsimp only
  rw [decryptOfflineBatch_append]
  dsimp only
  set turn := (decryptOfflineBatch codecs channelId pchat before).1 with hturn
  set env := msg.inbound codecs channelId with henv
  rcases hstored with ⟨hsignal, hcache⟩ | ⟨hfirst, hnone, hroom⟩
  · obtain ⟨m, hm, hsame⟩ := exists_cached_receive hdecrypt hsignal hcache
    refine .inr ⟨_, rfl, m, ?_, hsame.trans hid⟩
    exact cached_decryptOfflineBatch channelId rest hm
  · refine .inl ⟨(receive codecs env turn).2.chatMessage channelId, ?_, ?_, ?_⟩
    · dsimp only
      rw [Function.update_self, List.mem_insertionSort]
      unfold insertOfflineMessages
      dsimp only
      rw [List.foldl_append, decryptOfflineBatch, List.foldl_cons]
      have habsent : some (receive codecs env turn).2.messageId ∉
          ((decryptOfflineBatch codecs channelId pchat before).2.foldl
            (fun messages msg => insertNew ChatMessage.messageId messages msg.messageId
              (msg.chatMessage channelId))
            (state.byChannel channelId)).map ChatMessage.messageId := by
        rw [messageId_receive]
        intro hmem
        obtain ⟨row, hrow, hsame⟩ := List.mem_map.mp hmem
        refine notMem_ids_foldl_insertNew channelId _ hnone ?_ row hrow
          (hsame.trans (congrArg some hid))
        intro decrypted hmem hsame
        have hids := List.mem_map_of_mem (f := DecryptedMsg.messageId) hmem
        rw [messageId_decryptOfflineBatch] at hids
        obtain ⟨other, hother, hotherId⟩ := List.mem_map.mp hids
        exact hfirst other hother (hotherId.trans hsame)
      rw [insertNew_of_notMem habsent, pushCapped, List.drop_append_of_le_length (by
        change _ - 500 ≤ _
        omega)]
      refine mem_foldl_insertNew_of_lt _ channelId ?_
      have hlength := congrArg List.length
        (messageId_decryptOfflineBatch codecs channelId rest (receive codecs env turn).1)
      rw [List.length_map, List.length_map] at hlength
      rw [hlength, List.length_nil, Nat.zero_add]
      exact hroom
    · exact congrArg some ((messageId_receive codecs env turn).trans hid)
    · exact decrypted_receive hdecrypt

theorem acked_handleOfflineMessages {state : SharedState lib} {channelId : UInt32}
    {messages : List (PchatMessageDeliver lib)} {messageId : String}
    (h : messageId ∈ (handleOfflineMessages codecs channelId messages state).2) :
    state.clientHandle = true ∧ (∃ pchat, state.pchat = some pchat) ∧
      ∃ msg ∈ messages, msg.messageId.getD "" = messageId := by
  unfold handleOfflineMessages at h
  split at h
  next => exact absurd h List.not_mem_nil
  next =>
    cases hpchat : state.pchat with
    | none =>
        rw [hpchat] at h
        exact absurd h List.not_mem_nil
    | some pchat =>
        rw [hpchat] at h
        dsimp only at h
        split at h
        next hhandle =>
          unfold insertOfflineMessages at h
          dsimp only at h
          rw [messageId_decryptOfflineBatch] at h
          obtain ⟨msg, hmsg, hid⟩ := List.mem_map.mp h
          exact ⟨hhandle, ⟨pchat, rfl⟩, msg, hmsg, hid⟩
        next => exact absurd h List.not_mem_nil

theorem acksHeld_of_obtainsAcked {state : SharedState lib} {event : InboundEvent lib}
    (h : ObtainsAcked codecs state event) : AcksHeld codecs state event := by
  cases event with
  | msgDeliver msg => trivial
  | senderKey loaded senderHash senderChannel data => trivial
  | offlineMessages channelId messages =>
      intro messageId hacked
      obtain ⟨hhandle, ⟨pchat, hpchat⟩, msg, hmsg, hid⟩ := acked_handleOfflineMessages hacked
      rcases h hhandle pchat hpchat msg hmsg with hholds | hobtains
      · exact .inl (hid ▸ hholds)
      · exact .inr (holds_of_obtains hpchat (hid ▸ hobtains))

/-- In every run of deliveries, drained queues and sender keys in which each acknowledged
message is held or can be obtained, each is held when it is acknowledged. -/
theorem acksHeld_run (state : SharedState lib) (events : List (InboundEvent lib))
    (h : Along (step codecs) (ObtainsAcked codecs) state events) :
    Along (step codecs) (AcksHeld codecs) state events :=
  along_mono (fun _ _ hobtains => acksHeld_of_obtainsAcked hobtains) h

section Example

private def queuedExample : PchatMessageDeliver symbolic where
  messageId := some "id"
  channelId := some 1
  timestamp := some 7
  senderHash := some "peer"
  protocol := some 4
  envelope := some (.message 1 ("peer", 0) 0 (.text "hello"))

private def drainExample : List (InboundEvent symbolic) :=
  [.senderKey none "peer" 1 (.distribution ⟨1, ("peer", 0), 0⟩),
    .offlineMessages 1 [queuedExample]]

theorem acksHeld_run_example :
    Along (step symbolicCodecs) (AcksHeld symbolicCodecs) bridgedExample drainExample := by
  refine acksHeld_run bridgedExample drainExample ⟨trivial, ?_, trivial⟩
  intro _ pchat hpchat msg hmsg
  cases hpchat
  rw [List.mem_singleton.mp hmsg]
  exact .inr ⟨[], queuedExample, [], rfl, rfl, ⟨_, rfl⟩, .inl ⟨rfl, rfl⟩⟩

/-- A message that cannot be decrypted yet is acknowledged. -/
theorem undecryptable_message_acknowledged :
    ¬∀ (lib : Libraries) (codecs : Codecs lib) (state : SharedState lib)
      (events : List (InboundEvent lib)),
      Along (step codecs) (AcksHeld codecs) state events := by
  intro h
  have hacks := (h symbolic symbolicCodecs bridgedExample [.offlineMessages 1 [queuedExample]]).1
  rcases hacks "id" List.mem_cons_self with hbefore | hafter
  · rcases hbefore with ⟨row, hrow, -⟩ | ⟨pchat, hpchat, m, hm, -⟩
    · exact absurd hrow List.not_mem_nil
    · cases hpchat
      exact absurd hm List.not_mem_nil
  · rcases hafter with ⟨row, hrow, -, hdecrypted⟩ | ⟨pchat, hpchat, m, hm, -⟩
    · rw [List.mem_singleton.mp hrow] at hdecrypted
      exact absurd hdecrypted (by decide)
    · cases hpchat
      exact absurd hm List.not_mem_nil

end Example

end SharedState

end FancyMumble.Messages
