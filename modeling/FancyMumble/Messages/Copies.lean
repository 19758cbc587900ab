import FancyMumble.Messages.Threads

/-!
# Decrypted copies

A message can come several times: it is delivered, fetched, drained, or tried again when a
key arrives, and not every time it can be decrypted. A copy that could be decrypted should
win over the placeholders that are shown for the others.
-/

namespace FancyMumble.Messages

open Lib.BoundedLog Lib.Runs Persistent Signal

variable {lib : Libraries} (codecs : Codecs lib)

/-! ## Retries -/

structure PchatFetch where
  channelId : Option UInt32
  beforeId : Option String
  limit : Option UInt32
  afterId : Option String

def retryDecryptPendingMessages (channelId : UInt32) (state : SharedState lib) :
    SharedState lib × Option PchatFetch :=
  let messages := state.byChannel channelId
  if messages.any fun m => m.body = placeholderBody then
    ({ state with
        byChannel := Function.update state.byChannel channelId
          (messages.filter fun m => m.body ≠ placeholderBody) },
      if state.clientHandle then
        some { channelId := some channelId, beforeId := none, limit := some 50, afterId := none }
      else none)
  else (state, none)

/-- Messages come in, or a key with which they are tried again; in between, the persistent
chat may change. -/
inductive CopyEvent (lib : Libraries) where
  | inbound (event : InboundEvent lib)
  | fetched (response : PchatFetchResponse lib)
  | keyAccepted (channelId : UInt32) (keyManager : KeyManager)
  | pchatChanged (pchat : Option (PchatState lib))

def CopyEvent.channelId : CopyEvent lib → UInt32
  | .inbound (.msgDeliver msg) => msg.channelId.getD 0
  | .inbound (.senderKey _ _ senderChannel _) => senderChannel
  | .inbound (.offlineMessages channelId _) => channelId
  | .fetched response => response.channelId.getD 0
  | .keyAccepted channelId _ => channelId
  | .pchatChanged _ => 0

def SharedState.copyStep (state : SharedState lib) : CopyEvent lib → SharedState lib
  | .inbound event => state.step codecs event
  | .fetched response => handleFetchResp codecs response state
  | .keyAccepted channelId keyManager =>
      match state.pchat with
      | none => state
      | some pchat =>
          (retryDecryptPendingMessages channelId
            { state with pchat := some { pchat with keyManager } }).1
  | .pchatChanged pchat => { state with pchat }

/-! ## Winning copies -/

def HasDecrypted (rows : List ChatMessage) (id : Option String) : Prop :=
  ∃ m ∈ rows, m.messageId = id ∧ m.decrypted = true

def AllDecrypted (rows : List ChatMessage) (id : Option String) : Prop :=
  ∀ m ∈ rows, m.messageId = id → m.decrypted = true

def superseded (rows : List ChatMessage) (replacesId : Option String) : Option ChatMessage :=
  replacesId.bind fun id => rows.find? fun m => m.messageId = some id

/-- When a message is stored, decrypted ones stay, unless they are superseded by a decrypted
one or dropped from a full thread; and a decrypted one leaves no placeholder of its id. -/
structure StoreWins (superseded : Option ChatMessage) (rows rows' : List ChatMessage)
    (row : ChatMessage) : Prop where
  keeps : ∀ m ∈ rows, m.decrypted = true →
    HasDecrypted rows' m.messageId ∨ superseded = some m ∧ row.decrypted = true ∨
      superseded = none ∧ m ∈ rows.take (rows.length + 1 - maxMessagesPerThread)
  arrives : row.decrypted = true →
    HasDecrypted rows' row.messageId ∧ AllDecrypted rows' row.messageId

def EachWins (after : List ChatMessage) : List ChatMessage → List ChatMessage → Prop
  | rows, [] => rows.Perm after
  | rows, row :: rest =>
      StoreWins none rows (insertNew ChatMessage.messageId rows (row.messageId.getD "") row) row ∧
        EachWins after (insertNew ChatMessage.messageId rows (row.messageId.getD "") row) rest

def SharedState.WinsIn (state : SharedState lib) (rows rows' : List ChatMessage) :
    CopyEvent lib → Prop
  | .inbound (.msgDeliver msg) =>
      ∀ pchat ∈ state.pchat,
        StoreWins (superseded rows msg.replacesId) rows rows' (msg.row codecs pchat)
  | .inbound (.offlineMessages channelId messages) =>
      ∀ pchat ∈ state.pchat,
        EachWins rows' rows ((decryptOfflineBatch codecs channelId pchat messages).2.map
          (DecryptedMsg.chatMessage channelId))
  | .fetched response =>
      ∀ pchat ∈ state.pchat, (∀ m ∈ rows, m ∈ rows') ∧
        ∀ row ∈ (decryptFetchedMessages codecs pchat.ownCertHash pchat response.messages).2,
          row.decrypted = true →
            HasDecrypted rows' row.messageId ∧ AllDecrypted rows' row.messageId
  | .inbound (.senderKey loaded senderHash senderChannel data) =>
      (∀ m ∈ rows, ∃ m' ∈ rows', m'.messageId = m.messageId ∧
        (m.decrypted = true → m'.decrypted = true)) ∧
        ∀ result ∈ openedBy codecs loaded senderHash senderChannel data state,
          AllDecrypted rows' (some result.1.messageId)
  | .keyAccepted .. => ∀ m ∈ rows, m ∈ rows' ∨ HasDecrypted rows' m.messageId
  | .pchatChanged _ => rows' = rows

/-- Decrypted copies win in the channel of the event, and other channels are left alone. -/
structure SharedState.CopyWins (state : SharedState lib) (event : CopyEvent lib) : Prop where
  elsewhere : ∀ channelId ≠ event.channelId,
    (state.copyStep codecs event).byChannel channelId = state.byChannel channelId
  here : state.WinsIn codecs (state.byChannel event.channelId)
    ((state.copyStep codecs event).byChannel event.channelId) event

/-! ## Which copies can win -/

def GivesWay (rows : List ChatMessage) (row : ChatMessage) : Prop :=
  row.decrypted = true → AllDecrypted rows row.messageId

/-- A message that takes the place of a decrypted one is decrypted, unless there is another
copy; and a decrypted message finds no other placeholder. -/
def DeliversOver (rows : List ChatMessage) (replacesId : Option String) (row : ChatMessage) :
    Prop :=
  match replacesId.bind fun id => rows.findIdx? fun m => m.messageId = some id with
  | some pos =>
      GivesWay (rows.eraseIdx pos) row ∧ ∀ m ∈ rows[pos]?, m.decrypted = true →
        row.decrypted = true ∨ HasDecrypted (rows.eraseIdx pos) m.messageId
  | none => GivesWay rows row

def ChatMessage.copy (m : ChatMessage) : Option String × Bool := (m.messageId, m.decrypted)

def GiveWayAll : List (Option String × Bool) → List (Option String × Bool) → Prop
  | _, [] => True
  | thread, copy :: rest =>
      (copy.2 = true → ∀ other ∈ thread, other.1 = copy.1 → other.2 = true) ∧
        GiveWayAll (insert Prod.fst maxMessagesPerThread thread copy) rest

def RestDecrypted (rows : List ChatMessage) (id : Option String) : Prop :=
  ∀ m ∈ (rows.filter fun m => m.messageId = id).tail, m.decrypted = true

def SharedState.AdmitsCopy (state : SharedState lib) : CopyEvent lib → Prop
  | .inbound (.msgDeliver msg) =>
      ∀ pchat ∈ state.pchat,
        DeliversOver (state.byChannel (msg.channelId.getD 0)) msg.replacesId
          (msg.row codecs pchat)
  | .inbound (.offlineMessages channelId messages) =>
      ∀ pchat ∈ state.pchat,
        GiveWayAll ((state.byChannel channelId).map ChatMessage.copy)
          ((decryptOfflineBatch codecs channelId pchat messages).2.map fun msg =>
            (some msg.messageId, msg.decrypted))
  | .fetched response =>
      ∀ pchat ∈ state.pchat,
        let rows := state.byChannel (response.channelId.getD 0)
        let fetched :=
          (decryptFetchedMessages codecs pchat.ownCertHash pchat response.messages).2
        ∀ row ∈ fetched, GivesWay rows row ∧
          (row.messageId ∉ rows.map ChatMessage.messageId → GivesWay fetched row)
  | .inbound (.senderKey loaded senderHash senderChannel data) =>
      ∀ result ∈ openedBy codecs loaded senderHash senderChannel data state,
        RestDecrypted (state.byChannel senderChannel) (some result.1.messageId)
  | .keyAccepted channelId _ =>
      state.pchat.isSome → ∀ m ∈ state.byChannel channelId, m.body = placeholderBody →
        HasDecrypted ((state.byChannel channelId).filter fun m => m.body ≠ placeholderBody)
          m.messageId
  | .pchatChanged _ => True

/-! ## Storing -/

section Rows

variable {rows rows' : List ChatMessage} {row m : ChatMessage} {id : Option String}

theorem HasDecrypted.mono (h : HasDecrypted rows id) (hsub : ∀ m ∈ rows, m ∈ rows') :
    HasDecrypted rows' id := by
  obtain ⟨m, hm, hid, hdecrypted⟩ := h
  exact ⟨m, hsub m hm, hid, hdecrypted⟩

theorem AllDecrypted.hasDecrypted (h : AllDecrypted rows id)
    (hmem : id ∈ rows.map ChatMessage.messageId) : HasDecrypted rows id := by
  obtain ⟨m, hm, hid⟩ := List.mem_map.mp hmem
  exact ⟨m, hm, hid, h m hm hid⟩

theorem mem_pushCapped_iff :
    m ∈ pushCapped rows row ↔ m ∈ kept maxMessagesPerThread rows ∨ m = row := by
  rw [show pushCapped rows row = push maxMessagesPerThread rows row from rfl,
    push_eq maxMessagesPerThread_pos, List.mem_append, List.mem_singleton]

theorem storeWins_insertNew_iff {messageId : String} (hid : row.messageId = some messageId) :
    StoreWins none rows (insertNew ChatMessage.messageId rows messageId row) row ↔
      GivesWay rows row := by
  by_cases hpresent : some messageId ∈ rows.map ChatMessage.messageId
  · rw [insertNew_of_mem hpresent]
    rw [← hid] at hpresent
    constructor
    · exact fun h hrow => (h.arrives hrow).2
    · exact fun h => {
        keeps := fun m hm hdecrypted => Or.inl ⟨m, hm, rfl, hdecrypted⟩
        arrives := fun hrow => ⟨(h hrow).hasDecrypted hpresent, h hrow⟩ }
  · rw [insertNew_of_notMem hpresent]
    rw [← hid] at hpresent
    have hnew : ∀ m ∈ rows, m.messageId ≠ row.messageId :=
      fun m hm hsame => hpresent (List.mem_map.mpr ⟨m, hm, hsame⟩)
    constructor
    · exact fun _ _ m hm hsame => absurd hsame (hnew m hm)
    · intro _
      constructor
      · intro m hm hdecrypted
        rw [← List.take_append_drop (rows.length + 1 - maxMessagesPerThread) rows] at hm
        rcases List.mem_append.mp hm with hdropped | hkept
        · exact Or.inr (Or.inr ⟨rfl, hdropped⟩)
        · exact Or.inl ⟨m, mem_pushCapped_iff.mpr (Or.inl hkept), rfl, hdecrypted⟩
      · intro hrow
        refine ⟨⟨row, mem_pushCapped_iff.mpr (Or.inr rfl), rfl, hrow⟩, fun m hm hsame => ?_⟩
        rcases mem_pushCapped_iff.mp hm with hkept | rfl
        · exact absurd hsame (hnew m ((kept_sublist _ _).subset hkept))
        · exact hrow

theorem storeWins_set_iff {pos : ℕ} (hm : rows[pos]? = some m) :
    StoreWins (some m) rows (rows.set pos row) row ↔
      GivesWay (rows.eraseIdx pos) row ∧ (m.decrypted = true →
        row.decrypted = true ∨ HasDecrypted (rows.eraseIdx pos) m.messageId) := by
  obtain ⟨hpos, hget⟩ := List.getElem?_eq_some_iff.mp hm
  have hafter : ∀ other, other ∈ rows.set pos row ↔ other = row ∨ other ∈ rows.eraseIdx pos :=
    fun other => (List.set_perm_cons_eraseIdx hpos row).mem_iff.trans List.mem_cons
  have hbefore : ∀ other, other ∈ rows ↔ other = m ∨ other ∈ rows.eraseIdx pos := fun other => by
    rw [← hget]
    exact (List.getElem_cons_eraseIdx_perm hpos).mem_iff.symm.trans List.mem_cons
  constructor
  · intro h
    refine ⟨fun hrow other hother hsame =>
      (h.arrives hrow).2 other ((hafter other).mpr (Or.inr hother)) hsame, fun hdecrypted => ?_⟩
    rcases h.keeps m ((hbefore m).mpr (Or.inl rfl)) hdecrypted with
      ⟨other, hother, hsame, hcopy⟩ | hsuperseded | hdropped
    · rcases (hafter other).mp hother with rfl | hrest
      · exact Or.inl hcopy
      · exact Or.inr ⟨other, hrest, hsame, hcopy⟩
    · exact Or.inl hsuperseded.2
    · exact absurd hdropped.1 (Option.some_ne_none m)
  · rintro ⟨hgives, hover⟩
    have hothers : ∀ other ∈ rows.eraseIdx pos, other ∈ rows.set pos row :=
      fun other hother => (hafter other).mpr (Or.inr hother)
    constructor
    · intro other hother hdecrypted
      rcases (hbefore other).mp hother with rfl | hrest
      · rcases hover hdecrypted with hrow | hcopy
        · exact Or.inr (Or.inl ⟨rfl, hrow⟩)
        · exact Or.inl (hcopy.mono hothers)
      · exact Or.inl ⟨other, hothers other hrest, rfl, hdecrypted⟩
    · intro hrow
      refine ⟨⟨row, (hafter row).mpr (Or.inl rfl), rfl, hrow⟩, fun other hother hsame => ?_⟩
      rcases (hafter other).mp hother with rfl | hrest
      · exact hrow
      · exact hgives hrow other hrest hsame

theorem storeWins_insertOrReplaceMessage_iff {messageId : String} (replacesId : Option String)
    (hid : row.messageId = some messageId) :
    StoreWins (superseded rows replacesId) rows
        (insertOrReplaceMessage ChatMessage.messageId rows messageId replacesId row) row ↔
      DeliversOver rows replacesId row := by
  unfold DeliversOver insertOrReplaceMessage superseded
  simp only [List.find?_eq_bind_findIdx?_getElem?]
  cases replacesId with
  | none => exact storeWins_insertNew_iff hid
  | some id =>
      rw [Option.bind_some, Option.bind_some]
      cases hpos : rows.findIdx? fun m => m.messageId = some id with
      | none => exact storeWins_insertNew_iff hid
      | some pos =>
          obtain ⟨hlt, -, -⟩ := List.findIdx?_eq_some_iff_getElem.mp hpos
          have hget : rows[pos]? = some rows[pos] := List.getElem?_eq_getElem hlt
          rw [Option.bind_some, hget]
          dsimp only
          rw [storeWins_set_iff hget, hget]
          refine and_congr_right fun _ => ⟨fun h m hm => ?_, fun h => h rows[pos] rfl⟩
          cases hm
          exact h

theorem givesWay_iff_copies :
    GivesWay rows row ↔ (row.copy.2 = true →
      ∀ other ∈ rows.map ChatMessage.copy, other.1 = row.copy.1 → other.2 = true) := by
  rw [List.forall_mem_map]
  rfl

theorem eachWins_iff {after batch : List ChatMessage}
    (hids : ∀ row ∈ batch, row.messageId.isSome)
    (hafter : (batch.foldl (fun rows row =>
      insertNew ChatMessage.messageId rows (row.messageId.getD "") row) rows).Perm after) :
    EachWins after rows batch ↔
      GiveWayAll (rows.map ChatMessage.copy) (batch.map ChatMessage.copy) := by
  induction batch generalizing rows with
  | nil => exact iff_true_intro hafter
  | cons row rest ih =>
      obtain ⟨messageId, hid⟩ := Option.isSome_iff_exists.mp (hids row List.mem_cons_self)
      have hinsert : insert Prod.fst maxMessagesPerThread (rows.map ChatMessage.copy) row.copy =
          (insertNew ChatMessage.messageId rows messageId row).map ChatMessage.copy := by
        rw [insert_map, insertNew_eq_insert hid]
        rfl
      rw [List.foldl_cons] at hafter
      rw [List.map_cons]
      unfold EachWins GiveWayAll
      rw [ih (fun row hrow => hids row (List.mem_cons_of_mem _ hrow)) hafter, hid,
        Option.getD_some, storeWins_insertNew_iff hid, givesWay_iff_copies, hinsert]

theorem mem_mergeDecryptedMessages {fetched : List ChatMessage}
    (hids : ∀ m ∈ fetched, m.messageId.isSome) :
    m ∈ mergeDecryptedMessages rows fetched ↔
      m ∈ fetched ∧ m.messageId ∉ rows.map ChatMessage.messageId ∨ m ∈ rows := by
  unfold mergeDecryptedMessages
  split
  next hempty =>
    rw [List.isEmpty_iff.mp hempty]
    exact ⟨Or.inr, fun h => h.resolve_left fun hnew => List.not_mem_nil hnew.1⟩
  next =>
    dsimp only
    rw [filter_merge_eq hids, List.mem_insertionSort, List.mem_append, List.mem_filter,
      decide_eq_true_iff]

theorem winsIn_merge_iff {fetched : List ChatMessage} (hids : ∀ m ∈ fetched, m.messageId.isSome) :
    ((∀ m ∈ rows, m ∈ mergeDecryptedMessages rows fetched) ∧
      ∀ row ∈ fetched, row.decrypted = true →
        HasDecrypted (mergeDecryptedMessages rows fetched) row.messageId ∧
          AllDecrypted (mergeDecryptedMessages rows fetched) row.messageId) ↔
      ∀ row ∈ fetched, GivesWay rows row ∧
        (row.messageId ∉ rows.map ChatMessage.messageId → GivesWay fetched row) := by
  constructor
  · rintro ⟨-, h⟩ row hrow
    constructor
    · intro hdecrypted m hm hsame
      exact (h row hrow hdecrypted).2 m ((mem_mergeDecryptedMessages hids).mpr (Or.inr hm)) hsame
    · intro hnew hdecrypted m hm hsame
      rw [← hsame] at hnew
      exact (h row hrow hdecrypted).2 m
        ((mem_mergeDecryptedMessages hids).mpr (Or.inl ⟨hm, hnew⟩)) hsame
  · intro h
    have hstays : ∀ m ∈ rows, m ∈ mergeDecryptedMessages rows fetched :=
      fun m hm => (mem_mergeDecryptedMessages hids).mpr (Or.inr hm)
    refine ⟨hstays, fun row hrow hdecrypted => ?_⟩
    obtain ⟨hbefore, hfetched⟩ := h row hrow
    constructor
    · by_cases hpresent : row.messageId ∈ rows.map ChatMessage.messageId
      · exact ((hbefore hdecrypted).hasDecrypted hpresent).mono hstays
      · exact ⟨row, (mem_mergeDecryptedMessages hids).mpr (Or.inl ⟨hrow, hpresent⟩), rfl,
          hdecrypted⟩
    · intro m hm hsame
      rcases (mem_mergeDecryptedMessages hids).mp hm with ⟨hm, hnew⟩ | hm
      · rw [hsame] at hnew
        exact hfetched hnew hdecrypted m hm hsame
      · exact hbefore hdecrypted m hm hsame

/-! ## Showing -/

def FirstDecrypted (rows : List ChatMessage) (id : Option String) : Prop :=
  ∀ m ∈ (rows.filter fun m => m.messageId = id).head?, m.decrypted = true

theorem allDecrypted_iff :
    AllDecrypted rows id ↔ FirstDecrypted rows id ∧ RestDecrypted rows id := by
  have hfilter : AllDecrypted rows id ↔
      ∀ m ∈ rows.filter fun m => m.messageId = id, m.decrypted = true := by
    simp only [AllDecrypted, List.mem_filter, decide_eq_true_iff, and_imp]
  rw [hfilter]
  unfold FirstDecrypted RestDecrypted
  cases rows.filter fun m => m.messageId = id with
  | nil => exact iff_of_true nofun ⟨nofun, nofun⟩
  | cons first rest =>
      rw [List.forall_mem_cons, List.head?_cons, List.tail_cons]
      refine and_congr_left fun _ => ⟨fun h m hm => ?_, fun h => h first rfl⟩
      cases hm
      exact h

variable {messageId : String} {envelope : MessageEnvelope}

theorem filter_showDecrypted_of_ne (h : id ≠ some messageId) :
    ((showDecrypted messageId envelope rows).filter fun m => m.messageId = id) =
      rows.filter fun m => m.messageId = id := by
  induction rows with
  | nil => rfl
  | cons row rows ih =>
      unfold showDecrypted
      split
      next hrow =>
        have hne : row.messageId ≠ id := fun hsame => h (hsame.symm.trans hrow)
        rw [List.filter_cons_of_neg (by simpa using hne),
          List.filter_cons_of_neg (by simpa using hne)]
      next => rw [List.filter_cons, List.filter_cons, ih]

theorem tail_filter_showDecrypted :
    ((showDecrypted messageId envelope rows).filter fun m => m.messageId = id).tail =
      (rows.filter fun m => m.messageId = id).tail := by
  by_cases h : id = some messageId
  · subst h
    induction rows with
    | nil => rfl
    | cons row rows ih =>
        unfold showDecrypted
        split
        next hrow =>
          rw [List.filter_cons_of_pos (by simpa using hrow),
            List.filter_cons_of_pos (by simpa using hrow)]
          rfl
        next hrow =>
          rw [List.filter_cons_of_neg (by simpa using hrow),
            List.filter_cons_of_neg (by simpa using hrow), ih]
  · rw [filter_showDecrypted_of_ne h]

theorem firstDecrypted_showDecrypted :
    FirstDecrypted (showDecrypted messageId envelope rows) (some messageId) := by
  unfold FirstDecrypted
  induction rows with
  | nil => exact nofun
  | cons row rows ih =>
      unfold showDecrypted
      split
      next hrow =>
        rw [List.filter_cons_of_pos (by simpa using hrow), List.head?_cons]
        intro m hm
        cases hm
        rfl
      next hrow =>
        rw [List.filter_cons_of_neg (by simpa using hrow)]
        exact ih

theorem FirstDecrypted.show (h : FirstDecrypted rows id) :
    FirstDecrypted (showDecrypted messageId envelope rows) id := by
  by_cases hid : id = some messageId
  · rw [hid]
    exact firstDecrypted_showDecrypted
  · unfold FirstDecrypted
    rw [filter_showDecrypted_of_ne hid]
    exact h

theorem exists_mem_showDecrypted (hm : m ∈ rows) :
    ∃ m' ∈ showDecrypted messageId envelope rows, m'.messageId = m.messageId ∧
      (m.decrypted = true → m'.decrypted = true) := by
  induction rows with
  | nil => exact absurd hm List.not_mem_nil
  | cons row rows ih =>
      unfold showDecrypted
      split
      next =>
        rcases List.mem_cons.mp hm with rfl | hrest
        · exact ⟨_, List.mem_cons_self, rfl, fun _ => rfl⟩
        · exact ⟨m, List.mem_cons_of_mem _ hrest, rfl, fun h => h⟩
      next =>
        rcases List.mem_cons.mp hm with rfl | hrest
        · exact ⟨m, List.mem_cons_self, rfl, fun h => h⟩
        · obtain ⟨m', hm', hsame⟩ := ih hrest
          exact ⟨m', List.mem_cons_of_mem _ hm', hsame⟩

end Rows

section Results

variable {byChannel : UInt32 → List ChatMessage} {channelId : UInt32}
  {results : List (PendingSignalEnvelope lib × MessageEnvelope)}

theorem showResults_induction {P : List ChatMessage → Prop}
    (hchannel : ∀ result ∈ results, result.1.channelId = channelId)
    (hshow : ∀ (rows : List ChatMessage) (messageId : String) (envelope : MessageEnvelope),
      P rows → P (showDecrypted messageId envelope rows)) (h : P (byChannel channelId)) :
    P (SharedState.showResults byChannel results channelId) := by
  induction results generalizing byChannel with
  | nil => exact h
  | cons result rest ih =>
      rw [SharedState.showResults_cons]
      refine ih (fun r hr => hchannel r (List.mem_cons_of_mem _ hr)) ?_
      rw [hchannel result List.mem_cons_self, Function.update_self]
      exact hshow _ _ _ h

theorem showResults_of_ne {other : UInt32}
    (hchannel : ∀ result ∈ results, result.1.channelId = channelId) (hne : other ≠ channelId) :
    SharedState.showResults byChannel results other = byChannel other := by
  induction results generalizing byChannel with
  | nil => rfl
  | cons result rest ih =>
      rw [SharedState.showResults_cons,
        ih fun r hr => hchannel r (List.mem_cons_of_mem _ hr),
        hchannel result List.mem_cons_self, Function.update_of_ne hne]

theorem firstDecrypted_showResults
    (hchannel : ∀ result ∈ results, result.1.channelId = channelId)
    {result : PendingSignalEnvelope lib × MessageEnvelope} (hresult : result ∈ results) :
    FirstDecrypted (SharedState.showResults byChannel results channelId)
      (some result.1.messageId) := by
  induction results generalizing byChannel with
  | nil => exact absurd hresult List.not_mem_nil
  | cons first rest ih =>
      have hrest : ∀ r ∈ rest, r.1.channelId = channelId :=
        fun r hr => hchannel r (List.mem_cons_of_mem _ hr)
      rw [SharedState.showResults_cons]
      rcases List.mem_cons.mp hresult with rfl | hlater
      · refine showResults_induction (P := fun rows => FirstDecrypted rows _) hrest
          (fun _ _ _ => FirstDecrypted.show) ?_
        rw [hchannel result List.mem_cons_self, Function.update_self]
        exact firstDecrypted_showDecrypted
      · exact ih hrest hlater

theorem winsIn_showResults_iff
    (hchannel : ∀ result ∈ results, result.1.channelId = channelId) :
    ((∀ m ∈ byChannel channelId,
        ∃ m' ∈ SharedState.showResults byChannel results channelId,
          m'.messageId = m.messageId ∧ (m.decrypted = true → m'.decrypted = true)) ∧
      ∀ result ∈ results, AllDecrypted (SharedState.showResults byChannel results channelId)
        (some result.1.messageId)) ↔
      ∀ result ∈ results, RestDecrypted (byChannel channelId) (some result.1.messageId) := by
  have hstays : ∀ m ∈ byChannel channelId,
      ∃ m' ∈ SharedState.showResults byChannel results channelId,
        m'.messageId = m.messageId ∧ (m.decrypted = true → m'.decrypted = true) := by
    intro m hm
    refine showResults_induction
      (P := fun rows => ∃ m' ∈ rows, m'.messageId = m.messageId ∧
        (m.decrypted = true → m'.decrypted = true))
      hchannel (fun rows messageId envelope h => ?_) ⟨m, hm, rfl, fun hdecrypted => hdecrypted⟩
    obtain ⟨m', hm', hid, hdecrypted⟩ := h
    obtain ⟨after, hafter, hidAfter, hdecryptedAfter⟩ := exists_mem_showDecrypted hm'
    exact ⟨after, hafter, hidAfter.trans hid, fun h => hdecryptedAfter (hdecrypted h)⟩
  have htail : ∀ id, RestDecrypted (SharedState.showResults byChannel results channelId) id ↔
      RestDecrypted (byChannel channelId) id := by
    intro id
    refine showResults_induction
      (P := fun rows => RestDecrypted rows id ↔ RestDecrypted (byChannel channelId) id)
      hchannel (fun rows messageId envelope h => ?_) Iff.rfl
    refine Iff.trans ?_ h
    unfold RestDecrypted
    rw [tail_filter_showDecrypted]
  rw [and_iff_right hstays]
  refine forall₂_congr fun result hresult => ?_
  rw [allDecrypted_iff, htail, and_iff_right (firstDecrypted_showResults hchannel hresult)]

end Results

/-! ## Events -/

variable {codecs} {state : SharedState lib}

namespace SharedState

theorem byChannel_copyStep_keyAccepted (channelId : UInt32) (keyManager : KeyManager)
    {pchat : PchatState lib} (hpchat : state.pchat = some pchat) :
    (state.copyStep codecs (.keyAccepted channelId keyManager)).byChannel =
      Function.update state.byChannel channelId
        ((state.byChannel channelId).filter fun m => m.body ≠ placeholderBody) := by
  unfold copyStep retryDecryptPendingMessages
  rw [hpchat]
  dsimp only
  split
  next => rfl
  next hnone =>
    have hall : ((state.byChannel channelId).filter fun m => m.body ≠ placeholderBody) =
        state.byChannel channelId := by
      refine List.filter_eq_self.mpr fun m hm => decide_eq_true fun hbody => hnone ?_
      exact List.any_eq_true.mpr ⟨m, hm, decide_eq_true hbody⟩
    rw [hall, Function.update_eq_self]

theorem copyStep_of_none (hpchat : state.pchat = none) (event : CopyEvent lib) :
    (state.copyStep codecs event).byChannel = state.byChannel := by
  cases event with
  | inbound event =>
      rw [copyStep, SharedState.step_of_none codecs hpchat]
  | fetched response =>
      unfold copyStep handleFetchResp
      rw [hpchat]
  | keyAccepted channelId keyManager =>
      unfold copyStep
      rw [hpchat]
  | pchatChanged pchat => rfl

theorem byChannel_copyStep_of_ne (event : CopyEvent lib) :
    ∀ channelId ≠ event.channelId,
      (state.copyStep codecs event).byChannel channelId = state.byChannel channelId := by
  intro other hne
  cases hpchat : state.pchat with
  | none => rw [copyStep_of_none hpchat]
  | some pchat =>
      cases event with
      | inbound event =>
          cases event with
          | msgDeliver msg =>
              exact (congrFun (byChannel_handleMsgDeliver codecs msg hpchat) other).trans
                (Function.update_of_ne hne ..)
          | senderKey loaded senderHash senderChannel data =>
              rw [copyStep, SharedState.step, byChannel_handleSignalSenderKeyByHash]
              exact showResults_of_ne channelId_openedBy hne
          | offlineMessages channelId messages =>
              cases hmessages : messages.isEmpty with
              | true => rw [copyStep, SharedState.step, handleOfflineMessages, if_pos hmessages]
              | false =>
                  rw [copyStep, SharedState.step,
                    byChannel_handleOfflineMessages channelId messages hpchat hmessages]
                  exact Function.update_of_ne hne ..
      | fetched response =>
          rw [copyStep, byChannel_handleFetchResp response hpchat]
          exact Function.update_of_ne hne ..
      | keyAccepted channelId keyManager =>
          rw [byChannel_copyStep_keyAccepted channelId keyManager hpchat]
          exact Function.update_of_ne hne ..
      | pchatChanged pchat => rfl

/-! ## When copies win -/

theorem winsIn_msgDeliver_iff (msg : PchatMessageDeliver lib) :
    state.WinsIn codecs (state.byChannel (msg.channelId.getD 0))
        ((state.copyStep codecs (.inbound (.msgDeliver msg))).byChannel
          (msg.channelId.getD 0)) (.inbound (.msgDeliver msg)) ↔
      state.AdmitsCopy codecs (.inbound (.msgDeliver msg)) := by
  refine forall₂_congr fun pchat hpchat => ?_
  have hrows : (state.copyStep codecs (.inbound (.msgDeliver msg))).byChannel = _ :=
    byChannel_handleMsgDeliver codecs msg hpchat
  rw [hrows, Function.update_self]
  exact storeWins_insertOrReplaceMessage_iff msg.replacesId (messageId_row codecs msg pchat)

theorem winsIn_offlineMessages_iff (channelId : UInt32)
    (messages : List (PchatMessageDeliver lib)) :
    state.WinsIn codecs (state.byChannel channelId)
        ((state.copyStep codecs (.inbound (.offlineMessages channelId messages))).byChannel
          channelId) (.inbound (.offlineMessages channelId messages)) ↔
      state.AdmitsCopy codecs (.inbound (.offlineMessages channelId messages)) := by
  refine forall₂_congr fun pchat hpchat => ?_
  have hcopies : ((decryptOfflineBatch codecs channelId pchat messages).2.map fun msg =>
      (some msg.messageId, msg.decrypted)) =
        ((decryptOfflineBatch codecs channelId pchat messages).2.map
          (DecryptedMsg.chatMessage channelId)).map ChatMessage.copy := by
    rw [List.map_map]
    rfl
  rw [hcopies]
  refine eachWins_iff (List.forall_mem_map.mpr fun _ _ => rfl) ?_
  rw [List.foldl_map]
  cases hmessages : messages.isEmpty with
  | true =>
      rw [copyStep, SharedState.step, handleOfflineMessages, if_pos hmessages,
        List.isEmpty_iff.mp hmessages]
      exact List.Perm.refl _
  | false =>
      rw [copyStep, SharedState.step,
        byChannel_handleOfflineMessages channelId messages hpchat hmessages, Function.update_self]
      exact (List.perm_insertionSort _ _).symm

theorem winsIn_fetched_iff (response : PchatFetchResponse lib) :
    state.WinsIn codecs (state.byChannel (response.channelId.getD 0))
        ((state.copyStep codecs (.fetched response)).byChannel (response.channelId.getD 0))
        (.fetched response) ↔
      state.AdmitsCopy codecs (.fetched response) := by
  refine forall₂_congr fun pchat hpchat => ?_
  rw [copyStep, byChannel_handleFetchResp response hpchat, Function.update_self]
  exact winsIn_merge_iff
    (isSome_messageId_decryptFetched pchat.ownCertHash pchat response.messages)

theorem winsIn_senderKey_iff (loaded : Option (SignalBridgeCtx lib)) (senderHash : String)
    (senderChannel : UInt32) (data : lib.Bytes) :
    state.WinsIn codecs (state.byChannel senderChannel)
        ((state.copyStep codecs
          (.inbound (.senderKey loaded senderHash senderChannel data))).byChannel senderChannel)
        (.inbound (.senderKey loaded senderHash senderChannel data)) ↔
      state.AdmitsCopy codecs (.inbound (.senderKey loaded senderHash senderChannel data)) := by
  rw [copyStep, SharedState.step, byChannel_handleSignalSenderKeyByHash]
  exact winsIn_showResults_iff channelId_openedBy

theorem winsIn_keyAccepted_iff (channelId : UInt32) (keyManager : KeyManager) :
    state.WinsIn codecs (state.byChannel channelId)
        ((state.copyStep codecs (.keyAccepted channelId keyManager)).byChannel channelId)
        (.keyAccepted channelId keyManager) ↔
      state.AdmitsCopy codecs (.keyAccepted channelId keyManager) := by
  cases hpchat : state.pchat with
  | none =>
      rw [copyStep_of_none hpchat]
      refine iff_of_true (fun m hm => Or.inl hm) fun h => ?_
      rw [hpchat] at h
      cases h
  | some pchat =>
      rw [byChannel_copyStep_keyAccepted channelId keyManager hpchat, Function.update_self]
      constructor
      · intro h _ m hm hbody
        exact (h m hm).resolve_left fun hstays =>
          of_decide_eq_true (List.mem_filter.mp hstays).2 hbody
      · intro h m hm
        by_cases hbody : m.body = placeholderBody
        · exact Or.inr (h (by rw [hpchat]; rfl) m hm hbody)
        · exact Or.inl (List.mem_filter.mpr ⟨hm, decide_eq_true hbody⟩)

theorem copyWins_iff (state : SharedState lib) (event : CopyEvent lib) :
    state.CopyWins codecs event ↔ state.AdmitsCopy codecs event := by
  suffices hhere : state.WinsIn codecs (state.byChannel event.channelId)
      ((state.copyStep codecs event).byChannel event.channelId) event ↔
        state.AdmitsCopy codecs event by
    rw [← hhere]
    exact ⟨CopyWins.here, fun h => ⟨byChannel_copyStep_of_ne event, h⟩⟩
  cases event with
  | inbound event =>
      cases event with
      | msgDeliver msg => exact winsIn_msgDeliver_iff msg
      | senderKey loaded senderHash senderChannel data =>
          exact winsIn_senderKey_iff loaded senderHash senderChannel data
      | offlineMessages channelId messages => exact winsIn_offlineMessages_iff channelId messages
  | fetched response => exact winsIn_fetched_iff response
  | keyAccepted channelId keyManager => exact winsIn_keyAccepted_iff channelId keyManager
  | pchatChanged pchat => exact iff_of_true rfl trivial

/-- Decrypted copies win in a run exactly if every event admits it. -/
theorem copyWins_run_iff (state : SharedState lib) (events : List (CopyEvent lib)) :
    Along (copyStep codecs) (CopyWins codecs) state events ↔
      Along (copyStep codecs) (AdmitsCopy codecs) state events :=
  along_congr copyWins_iff

section Example

private def shownExample : SharedState symbolic where
  pchat := some {}
  byChannel _ := [{
    senderName := "Peer"
    senderHash := some "peer"
    body := "hello"
    channelId := 1
    messageId := some "id"
    timestamp := some 7
    decrypted := true }]

/-- A decrypted message is replaced by one that cannot be decrypted. -/
theorem placeholder_replaces_decrypted :
    ¬∀ (lib : Libraries) (codecs : Codecs lib) (state : SharedState lib)
      (events : List (CopyEvent lib)),
      Along (copyStep codecs) (CopyWins codecs) state events := by
  intro h
  have hstore := (h symbolic symbolicCodecs shownExample [.inbound (.msgDeliver
    { messageId := some "new"
      channelId := some 1
      timestamp := some 8
      senderHash := some "peer"
      protocol := some 2
      envelope := some (.text "hello!")
      replacesId := some "id" })]).1.here {} rfl
  rcases hstore.keeps _ List.mem_cons_self rfl with
    ⟨m, hm, -, hdecrypted⟩ | ⟨-, hdecrypted⟩ | ⟨hnone, -⟩
  · rw [List.mem_singleton.mp hm] at hdecrypted
    exact absurd hdecrypted (by decide)
  · exact absurd hdecrypted (by decide)
  · exact absurd hnone (by decide)

end Example

end SharedState

end FancyMumble.Messages
