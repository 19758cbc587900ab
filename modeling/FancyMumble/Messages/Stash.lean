import FancyMumble.Messages.Inbound

/-!
# Stashed messages are kept

A Signal message that cannot be decrypted waits in the stash of the connection. What
becomes of it: it is decrypted and shown, it is dropped as the oldest of a full stash, or
it is still there.
-/

namespace FancyMumble.Messages

open Lib.Runs Signal

variable {lib : Libraries} {codecs : Codecs lib}

/-! ## What becomes of an envelope -/

def ChatMessage.Shows (row : ChatMessage) (env : PendingSignalEnvelope lib)
    (envelope : MessageEnvelope) : Prop :=
  row.messageId = some env.messageId ∧ row.body = envelope.body ∧
    row.senderName = envelope.senderName

def CachedMessage.Holds (m : CachedMessage) (envelope : MessageEnvelope) : Prop :=
  m.body = envelope.body ∧ m.senderName = envelope.senderName

def Displays (rows : List ChatMessage) (env : PendingSignalEnvelope lib)
    (envelope : MessageEnvelope) : Prop :=
  ∃ row ∈ rows, row.Shows env envelope

namespace PchatState

structure Shown (pchat : PchatState lib) (byChannel : UInt32 → List ChatMessage)
    (env : PendingSignalEnvelope lib) (envelope : MessageEnvelope) : Prop where
  opened : (env, envelope) ∈ pchat.opened
  displayed : Displays (byChannel env.channelId) env envelope
  cached : ∃ m ∈ pchat.cached env.channelId, m.messageId = env.messageId ∧ m.Holds envelope

def DroppedEarliest (pchat : PchatState lib) (env : PendingSignalEnvelope lib) : Prop :=
  ∃ stash ∈ pchat.full, maxStashedEnvelopes ≤ stash.length ∧ stash.head? = some env ∧
    ∀ other ∈ stash, env.arrival ≤ other.arrival

/-- Every envelope that was ever stashed still is, or was dropped as the earliest, or is
shown. -/
def Conserved (pchat : PchatState lib) (byChannel : UInt32 → List ChatMessage) : Prop :=
  ∀ env ∈ pchat.stashed, env ∈ pchat.pendingSignalEnvelopes ∨ pchat.DroppedEarliest env ∨
    ∃ envelope, pchat.Shown byChannel env envelope

structure NothingStashed (pchat : PchatState lib) : Prop where
  pending : pchat.pendingSignalEnvelopes = []
  stashed : pchat.stashed = []
  full : pchat.full = []
  opened : pchat.opened = []

end PchatState

namespace SharedState

def ConservesStash (state : SharedState lib) : Prop :=
  ∀ pchat ∈ state.pchat, pchat.Conserved state.byChannel

variable (codecs) in
/-- A sender key leaves the envelopes of other senders and channels where they are, and
those that stay keep their places. -/
def RetryKeepsOthers (state : SharedState lib) (event : InboundEvent lib) : Prop :=
  match event with
  | .senderKey _ senderHash senderChannel _ =>
      ∀ pchat ∈ state.pchat, ∀ pchat' ∈ (state.step codecs event).pchat,
        pchat'.pendingSignalEnvelopes.Sublist pchat.pendingSignalEnvelopes ∧
          (pchat'.pendingSignalEnvelopes.filter fun env => ¬env.IsFrom senderHash senderChannel) =
            pchat.pendingSignalEnvelopes.filter fun env => ¬env.IsFrom senderHash senderChannel
  | _ => True

/-! ## Retries without loss -/

def decryptStep (bridge : Option (SignalBridgeCtx lib)) (env : PendingSignalEnvelope lib) :
    Option (SignalBridgeCtx lib) :=
  (decryptSignal bridge env.senderHash env.channelId env.envelopeBytes).1

/-- An envelope fails, or is decrypted and decoded, with what is to hold in each case. -/
def Retried (codecs : Codecs lib) (Fails : PendingSignalEnvelope lib → Prop)
    (Opens : PendingSignalEnvelope lib → MessageEnvelope → Prop)
    (bridge : Option (SignalBridgeCtx lib)) (env : PendingSignalEnvelope lib) : Prop :=
  match (decryptSignal bridge env.senderHash env.channelId env.envelopeBytes).2 with
  | .error _ => Fails env
  | .ok plaintext => ∃ envelope, codecs.decode plaintext = .ok envelope ∧ Opens env envelope

structure Opens (pchat : PchatState lib) (rows : List ChatMessage)
    (contents : String → MessageEnvelope) (env : PendingSignalEnvelope lib)
    (envelope : MessageEnvelope) : Prop where
  contents : envelope = contents env.messageId
  hasCache : pchat.localCache.isSome
  hasRow : ∃ row ∈ rows, row.messageId = some env.messageId
  cachedSame : ∀ m ∈ pchat.cached env.channelId, m.messageId = env.messageId → m.Holds envelope
  openedSame : ∀ result ∈ pchat.opened, result.1.channelId = env.channelId →
    result.1.messageId = env.messageId → result.2 = envelope

/-- Of the envelopes of the sender and channel in turn, those that fail were stashed after
all others, and those that are decrypted can be decoded, cached and shown. -/
def RetriesAll (codecs : Codecs lib) (senderHash : String) (senderChannel : UInt32)
    (pchat : PchatState lib) (rows : List ChatMessage) : Prop :=
  ∃ contents : String → MessageEnvelope,
    Along decryptStep
      (Retried codecs
        (fun env => ∀ other ∈ pchat.pendingSignalEnvelopes,
          ¬other.IsFrom senderHash senderChannel → other.arrival < env.arrival)
        (Opens pchat rows contents))
      pchat.signalBridge
      (pchat.pendingSignalEnvelopes.filter (·.IsFrom senderHash senderChannel))

def ShowsNone (pchat : PchatState lib) (channelId : UInt32) (rows : List ChatMessage) : Prop :=
  ∀ result ∈ pchat.opened, result.1.channelId = channelId →
    ∀ row ∈ rows, ¬row.Shows result.1 result.2

/-- The rows that give way to a message: the one that it replaces, or the oldest ones. -/
def lostRows (messages : List ChatMessage) (messageId : String) (replacesId : Option String) :
    List ChatMessage :=
  match replacesId.bind fun id => messages.findIdx? fun m => m.messageId = some id with
  | some pos => messages[pos]?.toList
  | none => messages.take (overflow (messages.map ChatMessage.messageId) [messageId])

/-- The event loses nothing that was stashed: no row of a stashed message gives way, and
the envelopes for which a key comes can all be opened or stay at the end. -/
def KeepsStash (codecs : Codecs lib) (state : SharedState lib) (event : InboundEvent lib) :
    Prop :=
  ∀ pchat ∈ state.pchat,
    match event with
    | .msgDeliver msg =>
        let channelId := msg.channelId.getD 0
        ShowsNone pchat channelId
          (lostRows (state.byChannel channelId) (msg.messageId.getD "") msg.replacesId)
    | .senderKey loaded senderHash senderChannel data =>
        match pchat.processSenderKey loaded senderHash senderChannel data with
        | (_, .error _) => True
        | (keyed, .ok ()) =>
            RetriesAll codecs senderHash senderChannel keyed (state.byChannel senderChannel)
    | .offlineMessages channelId messages =>
        let rows := state.byChannel channelId
        ShowsNone pchat channelId
          (rows.take (overflow (rows.map ChatMessage.messageId)
            (messages.map fun msg => msg.messageId.getD "")))

/-! ## Rows -/

theorem displays_showDecrypted {rows : List ChatMessage} {env : PendingSignalEnvelope lib}
    {envelope : MessageEnvelope} (h : Displays rows env envelope) {messageId : String}
    {shown : MessageEnvelope} (hsame : messageId = env.messageId → shown = envelope) :
    Displays (showDecrypted messageId shown rows) env envelope := by
  obtain ⟨row, hrow, hshows⟩ := h
  induction rows with
  | nil => exact absurd hrow List.not_mem_nil
  | cons first rows ih =>
      unfold showDecrypted
      rcases List.mem_cons.mp hrow with hfirst | hrest
      · subst hfirst
        split
        next hid =>
          have hsame := hsame (Option.some.inj (hid.symm.trans hshows.1))
          exact ⟨_, List.mem_cons_self, hshows.1, congrArg MessageEnvelope.body hsame,
            congrArg MessageEnvelope.senderName hsame⟩
        next => exact ⟨row, List.mem_cons_self, hshows⟩
      · split
        next => exact ⟨row, List.mem_cons_of_mem _ hrest, hshows⟩
        next =>
          obtain ⟨row', hrow', hshows'⟩ := ih hrest
          exact ⟨row', List.mem_cons_of_mem _ hrow', hshows'⟩

theorem displays_showDecrypted_self {rows : List ChatMessage} {env : PendingSignalEnvelope lib}
    (h : ∃ row ∈ rows, row.messageId = some env.messageId) (envelope : MessageEnvelope) :
    Displays (showDecrypted env.messageId envelope rows) env envelope := by
  obtain ⟨row, hrow, hid⟩ := h
  induction rows with
  | nil => exact absurd hrow List.not_mem_nil
  | cons first rows ih =>
      unfold showDecrypted
      split
      next hfirst => exact ⟨_, List.mem_cons_self, hfirst, rfl, rfl⟩
      next hfirst =>
        rcases List.mem_cons.mp hrow with heq | hrest
        · exact absurd (heq ▸ hid) hfirst
        · obtain ⟨row', hrow', hshows⟩ := ih hrest
          exact ⟨row', List.mem_cons_of_mem _ hrow', hshows⟩

theorem map_showDecrypted {β : Type} {f : ChatMessage → β}
    (hf : ∀ (row : ChatMessage) (body senderName : String),
      f { row with body, senderName, decrypted := true } = f row)
    (messageId : String) (envelope : MessageEnvelope) (rows : List ChatMessage) :
    (showDecrypted messageId envelope rows).map f = rows.map f := by
  induction rows with
  | nil => rfl
  | cons row rows ih =>
      unfold showDecrypted
      split
      next => rw [List.map_cons, hf, List.map_cons]
      next => rw [List.map_cons, ih, List.map_cons]

theorem map_messageId_showDecrypted (messageId : String) (envelope : MessageEnvelope)
    (rows : List ChatMessage) :
    (showDecrypted messageId envelope rows).map ChatMessage.messageId =
      rows.map ChatMessage.messageId :=
  map_showDecrypted (fun _ _ _ => rfl) messageId envelope rows

def showResults (byChannel : UInt32 → List ChatMessage)
    (results : List (PendingSignalEnvelope lib × MessageEnvelope)) :
    UInt32 → List ChatMessage :=
  results.foldl
    (fun byChannel result => Function.update byChannel result.1.channelId
      (showDecrypted result.1.messageId result.2 (byChannel result.1.channelId))) byChannel

theorem showResults_cons (byChannel : UInt32 → List ChatMessage)
    (result : PendingSignalEnvelope lib × MessageEnvelope)
    (results : List (PendingSignalEnvelope lib × MessageEnvelope)) :
    showResults byChannel (result :: results) =
      showResults (Function.update byChannel result.1.channelId
        (showDecrypted result.1.messageId result.2 (byChannel result.1.channelId))) results :=
  rfl

theorem map_showResults {β : Type} {f : ChatMessage → β}
    (hf : ∀ (row : ChatMessage) (body senderName : String),
      f { row with body, senderName, decrypted := true } = f row)
    (byChannel : UInt32 → List ChatMessage)
    (results : List (PendingSignalEnvelope lib × MessageEnvelope)) (channelId : UInt32) :
    (showResults byChannel results channelId).map f = (byChannel channelId).map f := by
  induction results generalizing byChannel with
  | nil => rfl
  | cons result results ih =>
      rw [showResults_cons, ih]
      by_cases hchannel : channelId = result.1.channelId
      · subst hchannel
        rw [Function.update_self, map_showDecrypted hf]
      · rw [Function.update_of_ne hchannel]

theorem displays_showResults {byChannel : UInt32 → List ChatMessage}
    {results : List (PendingSignalEnvelope lib × MessageEnvelope)}
    {env : PendingSignalEnvelope lib} {envelope : MessageEnvelope}
    (h : Displays (byChannel env.channelId) env envelope)
    (hsame : ∀ result ∈ results, result.1.channelId = env.channelId →
      result.1.messageId = env.messageId → result.2 = envelope) :
    Displays (showResults byChannel results env.channelId) env envelope := by
  induction results generalizing byChannel with
  | nil => exact h
  | cons result results ih =>
      rw [showResults_cons]
      refine ih ?_ fun r hr => hsame r (List.mem_cons_of_mem _ hr)
      by_cases hchannel : env.channelId = result.1.channelId
      · rw [← hchannel, Function.update_self]
        exact displays_showDecrypted h (hsame result List.mem_cons_self hchannel.symm)
      · rw [Function.update_of_ne hchannel]
        exact h

theorem displays_showResults_of_mem {byChannel : UInt32 → List ChatMessage}
    {results : List (PendingSignalEnvelope lib × MessageEnvelope)}
    {env : PendingSignalEnvelope lib} {envelope : MessageEnvelope}
    (hmem : (env, envelope) ∈ results)
    (hrow : ∃ row ∈ byChannel env.channelId, row.messageId = some env.messageId)
    (hsame : ∀ result ∈ results, result.1.channelId = env.channelId →
      result.1.messageId = env.messageId → result.2 = envelope) :
    Displays (showResults byChannel results env.channelId) env envelope := by
  induction results generalizing byChannel with
  | nil => exact absurd hmem List.not_mem_nil
  | cons result results ih =>
      have hsame' : ∀ r ∈ results, r.1.channelId = env.channelId →
          r.1.messageId = env.messageId → r.2 = envelope :=
        fun r hr => hsame r (List.mem_cons_of_mem _ hr)
      rw [showResults_cons]
      rcases List.mem_cons.mp hmem with hfirst | hrest
      · subst hfirst
        refine displays_showResults ?_ hsame'
        rw [Function.update_self]
        exact displays_showDecrypted_self hrow envelope
      · refine ih hrest ?_ hsame'
        by_cases hchannel : env.channelId = result.1.channelId
        · rw [← hchannel, Function.update_self]
          have hid : some env.messageId ∈ (showDecrypted result.1.messageId result.2
              (byChannel env.channelId)).map ChatMessage.messageId := by
            rw [map_messageId_showDecrypted]
            exact List.mem_map.mpr hrow
          exact List.mem_map.mp hid
        · rw [Function.update_of_ne hchannel]
          exact hrow

theorem mem_insertOrReplaceMessage {messages : List ChatMessage} {row : ChatMessage}
    (hrow : row ∈ messages) {messageId : String} {replacesId : Option String}
    {msg : ChatMessage} (hid : msg.messageId = some messageId)
    (hkept : row ∉ lostRows messages messageId replacesId) :
    row ∈ insertOrReplaceMessage ChatMessage.messageId messages messageId replacesId msg := by
  unfold insertOrReplaceMessage
  unfold lostRows at hkept
  split
  next pos hpos =>
    rw [hpos] at hkept
    obtain ⟨i, hi, heq⟩ := List.getElem_of_mem hrow
    have hne : pos ≠ i := by
      rintro rfl
      refine hkept ?_
      dsimp only
      rw [List.getElem?_eq_getElem hi, heq]
      exact List.mem_singleton_self row
    have hset : (messages.set pos msg)[i]? = some row := by
      rw [List.getElem?_set_ne hne, List.getElem?_eq_getElem hi, heq]
    exact List.mem_of_getElem? hset
  next hnone =>
    rw [hnone] at hkept
    refine mem_foldl_insertNew hrow [(messageId, msg)] ?_ hkept
    intro r hr
    rw [List.mem_singleton.mp hr]
    exact hid

/-! ## Retry -/

structure SameStash (pchat after : PchatState lib) : Prop where
  pending : after.pendingSignalEnvelopes = pchat.pendingSignalEnvelopes
  stashed : after.stashed = pchat.stashed
  full : after.full = pchat.full
  opened : after.opened = pchat.opened
  cached : ∀ channelId, ∀ m ∈ pchat.cached channelId, m ∈ after.cached channelId

theorem SameStash.refl (pchat : PchatState lib) : SameStash pchat pchat :=
  ⟨rfl, rfl, rfl, rfl, fun _ _ h => h⟩

theorem SameStash.trans {p q r : PchatState lib} (hpq : SameStash p q) (hqr : SameStash q r) :
    SameStash p r where
  pending := hqr.pending.trans hpq.pending
  stashed := hqr.stashed.trans hpq.stashed
  full := hqr.full.trans hpq.full
  opened := hqr.opened.trans hpq.opened
  cached := fun channelId m h => hqr.cached channelId m (hpq.cached channelId m h)

theorem sameStash_bridge (pchat : PchatState lib) (bridge : Option (SignalBridgeCtx lib)) :
    SameStash pchat { pchat with signalBridge := bridge } :=
  ⟨rfl, rfl, rfl, rfl, fun _ _ h => h⟩

theorem sameStash_cacheSignalMessage (pchat : PchatState lib) (msg : CachedMessage) :
    SameStash pchat (pchat.cacheSignalMessage msg) where
  pending := rfl
  stashed := rfl
  full := rfl
  opened := rfl
  cached := by
    intro channelId m h
    unfold PchatState.cached PchatState.cacheSignalMessage at *
    cases hcache : pchat.localCache with
    | none =>
        rw [hcache] at h
        exact absurd h List.not_mem_nil
    | some cache =>
        rw [hcache] at h
        exact LocalMessageCache.mem_insert_of_mem h msg

theorem sameStash_openStashed (codecs : Codecs lib)
    (matched : List (PendingSignalEnvelope lib)) (pchat : PchatState lib) :
    SameStash pchat (openStashed codecs pchat matched).1 := by
  induction matched generalizing pchat with
  | nil => exact SameStash.refl pchat
  | cons env rest ih =>
      have hbridge := sameStash_bridge pchat (decryptStep pchat.signalBridge env)
      unfold openStashed
      dsimp only
      split
      next => exact hbridge.trans (ih _)
      next =>
        split
        next => exact (hbridge.trans (sameStash_cacheSignalMessage _ _)).trans (ih _)
        next => exact hbridge.trans (ih _)

theorem openStashed_sublist (codecs : Codecs lib) (matched : List (PendingSignalEnvelope lib))
    (pchat : PchatState lib) : (openStashed codecs pchat matched).2.1.Sublist matched := by
  induction matched generalizing pchat with
  | nil => exact List.Sublist.refl []
  | cons env rest ih =>
      unfold openStashed
      dsimp only
      split
      next => exact (ih _).cons_cons env
      next =>
        split
        next => exact (ih _).cons env
        next => exact (ih _).cons env

theorem openStashed_mem (codecs : Codecs lib) (matched : List (PendingSignalEnvelope lib))
    (pchat : PchatState lib) : ∀ result ∈ (openStashed codecs pchat matched).2.2,
      result.1 ∈ matched := by
  induction matched generalizing pchat with
  | nil => exact fun _ h => absurd h List.not_mem_nil
  | cons env rest ih =>
      intro result hresult
      unfold openStashed at hresult
      dsimp only at hresult
      split at hresult
      next => exact List.mem_cons_of_mem _ (ih _ result hresult)
      next =>
        split at hresult
        next =>
          rcases List.mem_cons.mp hresult with hfirst | hrest
          · rw [hfirst]
            exact List.mem_cons_self
          · exact List.mem_cons_of_mem _ (ih _ result hrest)
        next => exact List.mem_cons_of_mem _ (ih _ result hresult)

theorem openStashed_of_along {Fails : PendingSignalEnvelope lib → Prop}
    {Opens : PendingSignalEnvelope lib → MessageEnvelope → Prop}
    {matched : List (PendingSignalEnvelope lib)} (pchat : PchatState lib)
    (h : Along decryptStep (Retried codecs Fails Opens) pchat.signalBridge matched) :
    let opened := openStashed codecs pchat matched
    (∀ env ∈ opened.2.1, Fails env) ∧ (∀ result ∈ opened.2.2, Opens result.1 result.2) ∧
      ∀ env ∈ matched, env ∈ opened.2.1 ∨ ∃ envelope, (env, envelope) ∈ opened.2.2 := by
  induction matched generalizing pchat with
  | nil =>
      exact ⟨fun _ h => absurd h List.not_mem_nil, fun _ h => absurd h List.not_mem_nil,
        fun _ h => absurd h List.not_mem_nil⟩
  | cons env rest ih =>
      obtain ⟨hfirst, hrest⟩ := h
      unfold Retried at hfirst
      unfold openStashed
      dsimp only
      cases hresult : (decryptSignal pchat.signalBridge env.senderHash env.channelId
          env.envelopeBytes).2 with
      | error e =>
          rw [hresult] at hfirst
          obtain ⟨hfails, hopens, hall⟩ :=
            ih { pchat with signalBridge := decryptStep pchat.signalBridge env } hrest
          refine ⟨?_, hopens, ?_⟩
          · intro env' henv'
            rcases List.mem_cons.mp henv' with heq | hmem
            · rw [heq]
              exact hfirst
            · exact hfails env' hmem
          · intro env' henv'
            rcases List.mem_cons.mp henv' with heq | hmem
            · rw [heq]
              exact .inl List.mem_cons_self
            · exact (hall env' hmem).imp_left (List.mem_cons_of_mem _)
      | ok plaintext =>
          rw [hresult] at hfirst
          obtain ⟨envelope, hdecode, hopen⟩ := hfirst
          dsimp only
          rw [hdecode]
          obtain ⟨hfails, hopens, hall⟩ := ih (PchatState.cacheSignalMessage
            { pchat with signalBridge := decryptStep pchat.signalBridge env }
            (env.cachedMessage envelope)) hrest
          refine ⟨hfails, ?_, ?_⟩
          · intro result hmem
            rcases List.mem_cons.mp hmem with heq | hmem
            · rw [heq]
              exact hopen
            · exact hopens result hmem
          · intro env' henv'
            rcases List.mem_cons.mp henv' with heq | hmem
            · rw [heq]
              exact .inr ⟨envelope, List.mem_cons_self⟩
            · rcases hall env' hmem with hstill | ⟨envelope', hopened⟩
              · exact .inl hstill
              · exact .inr ⟨envelope', List.mem_cons_of_mem _ hopened⟩

theorem mem_cached_of_mem {pchat : PchatState lib} {channelId : UInt32} {msg m : CachedMessage}
    (h : m ∈ (pchat.cacheSignalMessage msg).cached channelId) :
    m ∈ pchat.cached channelId ∨ m = msg ∧ channelId = msg.channelId := by
  unfold PchatState.cached PchatState.cacheSignalMessage at *
  cases hcache : pchat.localCache with
  | none =>
      rw [hcache] at h
      exact absurd h List.not_mem_nil
  | some cache =>
      rw [hcache] at h
      exact LocalMessageCache.mem_of_mem_insert h

theorem exists_mem_cached (pchat : PchatState lib) (hcache : pchat.localCache.isSome)
    (msg : CachedMessage) :
    msg ∈ (pchat.cacheSignalMessage msg).cached msg.channelId ∨
      ∃ m ∈ pchat.cached msg.channelId, m.messageId = msg.messageId := by
  unfold PchatState.cached PchatState.cacheSignalMessage
  obtain ⟨cache, heq⟩ := Option.isSome_iff_exists.mp hcache
  rw [heq]
  exact cache.exists_mem_insert msg

theorem cached_of_opened (codecs : Codecs lib) (matched : List (PendingSignalEnvelope lib))
    (pchat : PchatState lib) (hcache : pchat.localCache.isSome) :
    let opened := openStashed codecs pchat matched
    ∀ result ∈ opened.2.2, ∃ m ∈ opened.1.cached result.1.channelId,
      m.messageId = result.1.messageId ∧ (m ∈ pchat.cached result.1.channelId ∨
        ∃ other ∈ opened.2.2, other.1.channelId = result.1.channelId ∧
          other.1.messageId = result.1.messageId ∧ m.Holds other.2) := by
  induction matched generalizing pchat with
  | nil => exact fun _ h => absurd h List.not_mem_nil
  | cons env rest ih =>
      unfold openStashed
      dsimp only
      split
      next => exact ih _ hcache
      next =>
        split
        next envelope hdecode =>
          dsimp only
          have hcache' : (PchatState.cacheSignalMessage
              { pchat with signalBridge := decryptStep pchat.signalBridge env }
              (env.cachedMessage envelope)).localCache.isSome := by
            rw [PchatState.cacheSignalMessage, Option.isSome_map]
            exact hcache
          intro result hresult
          rcases List.mem_cons.mp hresult with hfirst | hrest
          · subst hfirst
            have hstays := (sameStash_openStashed codecs rest (PchatState.cacheSignalMessage
              { pchat with signalBridge := decryptStep pchat.signalBridge env }
              (env.cachedMessage envelope))).cached env.channelId
            rcases exists_mem_cached
              { pchat with signalBridge := decryptStep pchat.signalBridge env } hcache
              (env.cachedMessage envelope) with hnew | ⟨m, hm, hid⟩
            · exact ⟨_, hstays _ hnew, rfl,
                .inr ⟨(env, envelope), List.mem_cons_self, rfl, rfl, rfl, rfl⟩⟩
            · exact ⟨m, hstays m ((sameStash_cacheSignalMessage _ _).cached _ m hm), hid,
                .inl hm⟩
          · obtain ⟨m, hm, hid, hold | ⟨other, hother, hsame⟩⟩ := ih _ hcache' result hrest
            · refine ⟨m, hm, hid, ?_⟩
              rcases mem_cached_of_mem hold with hbefore | ⟨rfl, hchannel⟩
              · exact .inl hbefore
              · exact .inr ⟨(env, envelope), List.mem_cons_self, hchannel.symm, hid, rfl, rfl⟩
            · exact ⟨m, hm, hid, .inr ⟨other, List.mem_cons_of_mem _ hother, hsame⟩⟩
        next => exact ih _ hcache

/-! ## Invariant -/

structure Kept (pchat : PchatState lib) (byChannel : UInt32 → List ChatMessage) : Prop where
  ordered : pchat.pendingSignalEnvelopes.Pairwise fun a b => a.arrival < b.arrival
  arrived : ∀ env ∈ pchat.pendingSignalEnvelopes, env.arrival < pchat.stashed.length
  conserved : pchat.Conserved byChannel

theorem kept_of_nothingStashed {pchat : PchatState lib} (h : pchat.NothingStashed)
    (byChannel : UInt32 → List ChatMessage) : Kept pchat byChannel where
  ordered := by rw [h.pending]; exact List.Pairwise.nil
  arrived := by rw [h.pending]; exact fun _ hmem => absurd hmem List.not_mem_nil
  conserved := by
    intro env henv
    rw [h.stashed] at henv
    exact absurd henv List.not_mem_nil

theorem Kept.rows {pchat : PchatState lib} {byChannel : UInt32 → List ChatMessage}
    (h : Kept pchat byChannel) {after : UInt32 → List ChatMessage}
    (hshown : ∀ result ∈ pchat.opened, Displays (byChannel result.1.channelId) result.1 result.2 →
      Displays (after result.1.channelId) result.1 result.2) : Kept pchat after where
  ordered := h.ordered
  arrived := h.arrived
  conserved := fun env henv => (h.conserved env henv).imp_right fun hfate =>
    hfate.imp_right fun ⟨envelope, hs⟩ =>
      ⟨envelope, hs.opened, hshown _ hs.opened hs.displayed, hs.cached⟩

theorem Kept.same {pchat after : PchatState lib} {byChannel : UInt32 → List ChatMessage}
    (h : Kept pchat byChannel) (hsame : SameStash pchat after) : Kept after byChannel where
  ordered := by
    rw [hsame.pending]
    exact h.ordered
  arrived := by
    rw [hsame.pending, hsame.stashed]
    exact h.arrived
  conserved := by
    intro env henv
    rw [hsame.stashed] at henv
    rcases h.conserved env henv with hpending | ⟨stash, hstash, hdropped⟩ | ⟨envelope, hs⟩
    · exact .inl (hsame.pending ▸ hpending)
    · exact .inr (.inl ⟨stash, hsame.full ▸ hstash, hdropped⟩)
    · obtain ⟨m, hm, hid⟩ := hs.cached
      exact .inr (.inr ⟨envelope, hsame.opened ▸ hs.opened, hs.displayed, m,
        hsame.cached _ m hm, hid⟩)

theorem Kept.dropEarliest {pchat : PchatState lib} {byChannel : UInt32 → List ChatMessage}
    (h : Kept pchat byChannel)
    (hfull : maxStashedEnvelopes ≤ pchat.pendingSignalEnvelopes.length) :
    Kept { pchat with
      pendingSignalEnvelopes := pchat.pendingSignalEnvelopes.tail
      full := pchat.full ++ [pchat.pendingSignalEnvelopes] } byChannel where
  ordered := h.ordered.sublist (List.tail_sublist _)
  arrived := fun env henv => h.arrived env (List.mem_of_mem_tail henv)
  conserved := by
    intro env henv
    rcases h.conserved env henv with hpending | ⟨stash, hstash, hdropped⟩ | ⟨envelope, hs⟩
    · cases hstash : pchat.pendingSignalEnvelopes with
      | nil =>
          rw [hstash] at hpending
          exact absurd hpending List.not_mem_nil
      | cons first rest =>
          rw [hstash] at hpending
          rcases List.mem_cons.mp hpending with hfirst | hrest
          · refine .inr (.inl ⟨first :: rest, ?_, hstash ▸ hfull, ?_, ?_⟩)
            · exact List.mem_append_right _ (List.mem_singleton_self _)
            · rw [hfirst, List.head?_cons]
            · have hordered := h.ordered
              rw [hstash] at hordered
              intro other hother
              rw [hfirst]
              rcases List.mem_cons.mp hother with hsame | hlater
              · exact le_of_eq (congrArg _ hsame.symm)
              · exact Nat.le_of_lt ((List.pairwise_cons.mp hordered).1 other hlater)
          · exact .inl hrest
    · exact .inr (.inl ⟨stash, List.mem_append_left _ hstash, hdropped⟩)
    · exact .inr (.inr ⟨envelope, hs.opened, hs.displayed, hs.cached⟩)

theorem Kept.push {pchat : PchatState lib} {byChannel : UInt32 → List ChatMessage}
    (h : Kept pchat byChannel) {env : PendingSignalEnvelope lib}
    (harrival : env.arrival = pchat.stashed.length) :
    Kept { pchat with
      pendingSignalEnvelopes := pchat.pendingSignalEnvelopes ++ [env]
      stashed := pchat.stashed ++ [env] } byChannel where
  ordered := by
    refine List.pairwise_append.mpr ⟨h.ordered, List.pairwise_singleton _ _, ?_⟩
    intro old hold new hnew
    rw [List.mem_singleton.mp hnew, harrival]
    exact h.arrived old hold
  arrived := by
    intro e he
    rw [List.length_append]
    rcases List.mem_append.mp he with hold | hnew
    · exact Nat.lt_succ_of_lt (h.arrived e hold)
    · rw [List.mem_singleton.mp hnew, harrival]
      exact Nat.lt_succ_self _
  conserved := by
    intro e he
    rcases List.mem_append.mp he with hold | hnew
    · rcases h.conserved e hold with hpending | hdropped | ⟨envelope, hs⟩
      · exact .inl (List.mem_append_left _ hpending)
      · exact .inr (.inl hdropped)
      · exact .inr (.inr ⟨envelope, hs.opened, hs.displayed, hs.cached⟩)
    · exact .inl (List.mem_append_right _ hnew)

theorem Kept.stash {pchat : PchatState lib} {byChannel : UInt32 → List ChatMessage}
    (h : Kept pchat byChannel) (env : PendingSignalEnvelope lib) :
    Kept (pchat.stashSignalEnvelope env) byChannel := by
  unfold PchatState.stashSignalEnvelope
  dsimp only
  split
  next hfull => exact (h.dropEarliest hfull).push rfl
  next => exact h.push rfl

/-! ## Received messages -/

theorem decrypt_state (codecs : Codecs lib) (env : InboundEnvelope lib) (pchat : PchatState lib) :
    ∃ bridge, (env.decrypt codecs pchat).1 = { pchat with signalBridge := bridge } := by
  unfold InboundEnvelope.decrypt
  split
  next => exact ⟨_, rfl⟩
  next => exact ⟨pchat.signalBridge, rfl⟩

theorem Kept.decryptOrStash {pchat : PchatState lib} {byChannel : UInt32 → List ChatMessage}
    (h : Kept pchat byChannel) (env : InboundEnvelope lib) :
    Kept (decryptOrStash codecs env pchat).1 byChannel := by
  obtain ⟨bridge, hbridge⟩ := decrypt_state codecs env pchat
  have hkept : Kept (env.decrypt codecs pchat).1 byChannel := by
    rw [hbridge]
    exact h.same (sameStash_bridge pchat bridge)
  unfold Messages.decryptOrStash
  split
  next after envelope heq =>
    rw [heq] at hkept
    exact hkept
  next after e heq =>
    rw [heq] at hkept
    dsimp only
    split
    next => exact hkept.stash _
    next => exact hkept

theorem Kept.receive {pchat : PchatState lib} {byChannel : UInt32 → List ChatMessage}
    (h : Kept pchat byChannel) (env : InboundEnvelope lib) :
    Kept (receive codecs env pchat).1 byChannel := by
  have hkept : Kept (Messages.decryptOrStash codecs env pchat).1 byChannel := h.decryptOrStash env
  unfold Messages.receive
  dsimp only
  split
  next => exact hkept.same (sameStash_cacheSignalMessage _ _)
  next => exact hkept

theorem Kept.decryptOfflineBatch {byChannel : UInt32 → List ChatMessage} (channelId : UInt32)
    (messages : List (PchatMessageDeliver lib)) {pchat : PchatState lib}
    (h : Kept pchat byChannel) :
    Kept (decryptOfflineBatch codecs channelId pchat messages).1 byChannel := by
  induction messages generalizing pchat with
  | nil => exact h
  | cons msg rest ih => exact ih (h.receive _)

theorem messageId_decryptOfflineBatch (codecs : Codecs lib) (channelId : UInt32)
    (messages : List (PchatMessageDeliver lib)) (pchat : PchatState lib) :
    (decryptOfflineBatch codecs channelId pchat messages).2.map DecryptedMsg.messageId =
      messages.map fun msg => msg.messageId.getD "" := by
  induction messages generalizing pchat with
  | nil => rfl
  | cons msg rest ih =>
      unfold decryptOfflineBatch
      dsimp only
      rw [List.map_cons, List.map_cons, messageId_receive, ih]
      rfl

/-! ## Sender keys -/

theorem sameStash_processSenderKey (loaded : Option (SignalBridgeCtx lib)) (senderHash : String)
    (senderChannel : UInt32) (data : lib.Bytes) (pchat : PchatState lib) :
    SameStash pchat (pchat.processSenderKey loaded senderHash senderChannel data).1 := by
  have hensure : SameStash pchat (pchat.ensureSignalBridge loaded) := by
    unfold PchatState.ensureSignalBridge
    split
    next => exact SameStash.refl pchat
    next =>
      split
      next => exact SameStash.refl pchat
      next => exact ⟨rfl, rfl, rfl, rfl, fun _ _ h => h⟩
  unfold PchatState.processSenderKey
  split
  next => exact SameStash.refl pchat
  next =>
    dsimp only
    split
    next => exact hensure
    next c hc =>
      split
      next => exact hensure
      next => exact hensure.trans (sameStash_bridge _ _)

theorem sublist_of_ordered {envs stash : List (PendingSignalEnvelope lib)}
    (henvs : envs.Pairwise fun a b => a.arrival < b.arrival)
    (hstash : stash.Pairwise fun a b => a.arrival < b.arrival) (hsubset : envs ⊆ stash) :
    envs.Sublist stash := by
  have hantisymm : Std.Antisymm fun a b : PendingSignalEnvelope lib => a.arrival < b.arrival :=
    ⟨fun _ _ hab hba => absurd hab (Nat.lt_asymm hba)⟩
  have hnodup : envs.Nodup :=
    henvs.imp fun hlt heq => absurd (congrArg PendingSignalEnvelope.arrival heq) (Nat.ne_of_lt hlt)
  exact List.sublist_of_subperm_of_pairwise (List.subperm_of_subset hnodup hsubset) henvs hstash

theorem shown_of_opened {pchat : PchatState lib} {byChannel : UInt32 → List ChatMessage}
    {matched : List (PendingSignalEnvelope lib)} {contents : String → MessageEnvelope}
    (hopens : ∀ result ∈ (openStashed codecs pchat matched).2.2,
      Opens pchat (byChannel result.1.channelId) contents result.1 result.2)
    {env : PendingSignalEnvelope lib} {envelope : MessageEnvelope}
    (hopened : (env, envelope) ∈ (openStashed codecs pchat matched).2.2) :
    Displays (showResults byChannel (openStashed codecs pchat matched).2.2 env.channelId) env
        envelope ∧
      ∃ m ∈ (openStashed codecs pchat matched).1.cached env.channelId,
        m.messageId = env.messageId ∧ m.Holds envelope := by
  have hopen := hopens _ hopened
  have hagree : ∀ other ∈ (openStashed codecs pchat matched).2.2,
      other.1.messageId = env.messageId → other.2 = envelope := by
    intro other hother hid
    rw [(hopens other hother).contents, hid]
    exact hopen.contents.symm
  constructor
  · exact displays_showResults_of_mem hopened hopen.hasRow fun other hother _ hid =>
      hagree other hother hid
  · obtain ⟨m, hm, hid, hold | ⟨other, hother, -, hsameId, hholds⟩⟩ :=
      cached_of_opened codecs matched pchat hopen.hasCache _ hopened
    · exact ⟨m, hm, hid, hopen.cachedSame m hold hid⟩
    · rw [hagree other hother hsameId] at hholds
      exact ⟨m, hm, hid, hholds⟩

theorem displays_after_retry {pchat : PchatState lib} {byChannel : UInt32 → List ChatMessage}
    {matched : List (PendingSignalEnvelope lib)} {contents : String → MessageEnvelope}
    (hopens : ∀ result ∈ (openStashed codecs pchat matched).2.2,
      Opens pchat (byChannel result.1.channelId) contents result.1 result.2)
    {env : PendingSignalEnvelope lib} {envelope : MessageEnvelope}
    (hopened : (env, envelope) ∈ pchat.opened)
    (hdisplayed : Displays (byChannel env.channelId) env envelope) :
    Displays (showResults byChannel (openStashed codecs pchat matched).2.2 env.channelId) env
      envelope := by
  refine displays_showResults hdisplayed fun result hresult hchannel hid => ?_
  have hsame := (hopens result hresult).openedSame (env, envelope) hopened hchannel.symm hid.symm
  exact hsame.symm

/-- A retry that loses nothing keeps the stash, its order, and the envelopes of others. -/
theorem Kept.retry {pchat : PchatState lib} {state : SharedState lib}
    (h : Kept pchat state.byChannel) {senderHash : String} {senderChannel : UInt32}
    (hretries : RetriesAll codecs senderHash senderChannel pchat
      (state.byChannel senderChannel)) :
    ∀ after ∈ (retryStashedSignalEnvelopes codecs senderHash senderChannel pchat state).pchat,
      Kept after
          (retryStashedSignalEnvelopes codecs senderHash senderChannel pchat state).byChannel ∧
        after.pendingSignalEnvelopes.Sublist pchat.pendingSignalEnvelopes ∧
        (after.pendingSignalEnvelopes.filter fun env => ¬env.IsFrom senderHash senderChannel) =
          pchat.pendingSignalEnvelopes.filter fun env => ¬env.IsFrom senderHash senderChannel := by
  unfold retryStashedSignalEnvelopes
  dsimp only
  split
  next =>
    intro after hafter
    cases hafter
    exact ⟨h, List.Sublist.refl _, rfl⟩
  next =>
    intro after hafter
    cases hafter
    obtain ⟨contents, halong⟩ := hretries
    set matched := pchat.pendingSignalEnvelopes.filter (·.IsFrom senderHash senderChannel)
      with hmatched
    set others := pchat.pendingSignalEnvelopes.filter (¬·.IsFrom senderHash senderChannel)
      with hothers
    set before := { pchat with pendingSignalEnvelopes := others } with hbefore
    obtain ⟨hfails, hopens, hall⟩ := openStashed_of_along before halong
    have hsame := sameStash_openStashed codecs matched before
    have hstill := openStashed_sublist codecs matched before
    have htried := openStashed_mem codecs matched before
    have hfrom : ∀ env ∈ matched, env.IsFrom senderHash senderChannel :=
      fun env henv => of_decide_eq_true (List.mem_filter.mp henv).2
    dsimp only
    rw [hsame.pending]
    have hordered : (others ++ (openStashed codecs before matched).2.1).Pairwise
        fun a b => a.arrival < b.arrival := by
      refine List.pairwise_append.mpr ⟨h.ordered.sublist List.filter_sublist,
        (h.ordered.sublist List.filter_sublist).sublist hstill, fun other hother env henv => ?_⟩
      obtain ⟨hpending, hnot⟩ := List.mem_filter.mp hother
      exact hfails env henv other hpending (of_decide_eq_true hnot)
    have hsubset : others ++ (openStashed codecs before matched).2.1 ⊆
        pchat.pendingSignalEnvelopes :=
      List.append_subset.mpr ⟨List.filter_subset_self _,
        fun env henv => (List.mem_filter.mp (hstill.subset henv)).1⟩
    have hopens' : ∀ result ∈ (openStashed codecs before matched).2.2,
        Opens before (state.byChannel result.1.channelId) contents result.1 result.2 := by
      intro result hresult
      have hopen := hopens result hresult
      rw [(hfrom result.1 (htried result hresult)).2]
      exact ⟨hopen.contents, hopen.hasCache, hopen.hasRow, hopen.cachedSame, hopen.openedSame⟩
    refine ⟨⟨hordered, ?_, ?_⟩, sublist_of_ordered hordered h.ordered hsubset, ?_⟩
    · intro env henv
      rw [hsame.stashed]
      exact h.arrived env (hsubset henv)
    · intro env henv
      rw [hsame.stashed] at henv
      rcases h.conserved env henv with hpending | ⟨stash, hstash, hdropped⟩ | ⟨envelope, hs⟩
      · by_cases hisFrom : env.IsFrom senderHash senderChannel
        · have hmem : env ∈ matched := List.mem_filter.mpr ⟨hpending, decide_eq_true hisFrom⟩
          rcases hall env hmem with hstays | ⟨envelope, hopened⟩
          · exact .inl (List.mem_append_right _ hstays)
          · obtain ⟨hdisplayed, hcached⟩ := shown_of_opened hopens' hopened
            exact .inr (.inr ⟨envelope, List.mem_append_right _ hopened, hdisplayed, hcached⟩)
        · exact .inl (List.mem_append_left _
            (List.mem_filter.mpr ⟨hpending, decide_eq_true hisFrom⟩))
      · exact .inr (.inl ⟨stash, hsame.full ▸ hstash, hdropped⟩)
      · refine .inr (.inr ⟨envelope, List.mem_append_left _ (hsame.opened ▸ hs.opened), ?_, ?_⟩)
        · exact displays_after_retry hopens' hs.opened hs.displayed
        · obtain ⟨m, hm, hid⟩ := hs.cached
          exact ⟨m, hsame.cached _ m hm, hid⟩
    · have hnone : ((openStashed codecs before matched).2.1.filter
          fun env => ¬env.IsFrom senderHash senderChannel) = [] :=
        List.filter_eq_nil_iff.mpr fun env henv hnot =>
          absurd (hfrom env (hstill.subset henv)) (of_decide_eq_true hnot)
      rw [List.filter_append, hnone, List.append_nil, hothers, List.filter_filter]
      simp only [Bool.and_self]

/-! ## Runs -/

def KeptState (state : SharedState lib) : Prop :=
  ∀ pchat ∈ state.pchat, Kept pchat state.byChannel

theorem Kept.update {pchat : PchatState lib} {byChannel : UInt32 → List ChatMessage}
    (h : Kept pchat byChannel) {channelId : UInt32} {lost rows : List ChatMessage}
    (hlost : ShowsNone pchat channelId lost)
    (hrows : ∀ row ∈ byChannel channelId, row ∉ lost → row ∈ rows) :
    Kept pchat (Function.update byChannel channelId rows) := by
  refine h.rows fun result hresult hdisplays => ?_
  by_cases hchannel : result.1.channelId = channelId
  · rw [hchannel, Function.update_self]
    rw [hchannel] at hdisplays
    obtain ⟨row, hrow, hshows⟩ := hdisplays
    exact ⟨row, hrows row hrow fun hmem => hlost result hresult hchannel row hmem hshows, hshows⟩
  · rw [Function.update_of_ne hchannel]
    exact hdisplays

theorem KeptState.handleMsgDeliver {state : SharedState lib} (h : KeptState state)
    {msg : PchatMessageDeliver lib} (hkeeps : KeepsStash codecs state (.msgDeliver msg)) :
    KeptState (handleMsgDeliver codecs msg state) := by
  intro after hafter
  unfold Messages.handleMsgDeliver at hafter ⊢
  dsimp only at hafter ⊢
  cases hpchat : state.pchat with
  | none =>
      rw [hpchat] at hafter
      cases hpchat.symm.trans hafter
  | some pchat =>
      rw [hpchat] at hafter
      cases hafter
      refine ((h pchat hpchat).update (hkeeps pchat hpchat) fun row hrow hkept => ?_).receive _
      rw [messageId_receive]
      refine mem_insertOrReplaceMessage hrow ?_ hkept
      exact congrArg some (messageId_receive codecs _ pchat)

theorem KeptState.handleOfflineMessages {state : SharedState lib} (h : KeptState state)
    {channelId : UInt32} {messages : List (PchatMessageDeliver lib)}
    (hkeeps : KeepsStash codecs state (.offlineMessages channelId messages)) :
    KeptState (handleOfflineMessages codecs channelId messages state).1 := by
  unfold Messages.handleOfflineMessages
  split
  next => exact h
  next =>
    cases hpchat : state.pchat with
    | none => exact h
    | some pchat =>
        intro after hafter
        cases hafter
        refine ((h pchat hpchat).update (hkeeps pchat hpchat) fun row hrow hkept => ?_
          ).decryptOfflineBatch channelId messages
        rw [List.mem_insertionSort]
        have hids := messageId_decryptOfflineBatch codecs channelId messages pchat
        have hmem := mem_foldl_insertNew hrow
          ((Messages.decryptOfflineBatch codecs channelId pchat messages).2.map fun msg =>
            (msg.messageId, msg.chatMessage channelId)) (by
              intro r hr
              obtain ⟨msg, -, rfl⟩ := List.mem_map.mp hr
              rfl) (by
              rw [List.map_map]
              change row ∉ List.take (overflow _ (List.map DecryptedMsg.messageId _)) _
              rw [hids]
              exact hkept)
        rw [List.foldl_map] at hmem
        exact hmem

theorem KeptState.handleSignalSenderKeyByHash {state : SharedState lib} (h : KeptState state)
    {loaded : Option (SignalBridgeCtx lib)} {senderHash : String} {senderChannel : UInt32}
    {data : lib.Bytes}
    (hkeeps : KeepsStash codecs state (.senderKey loaded senderHash senderChannel data)) :
    KeptState (handleSignalSenderKeyByHash codecs loaded senderHash senderChannel data state) ∧
      RetryKeepsOthers codecs state (.senderKey loaded senderHash senderChannel data) := by
  cases hpchat : state.pchat with
  | none =>
      rw [handleSignalSenderKeyByHash_of_none codecs hpchat]
      refine ⟨h, fun pchat hmem => ?_⟩
      rw [hpchat] at hmem
      cases hmem
  | some pchat =>
      have hkeyed := sameStash_processSenderKey loaded senderHash senderChannel data pchat
      have hretries := hkeeps pchat hpchat
      dsimp only at hretries
      rcases hprocess : pchat.processSenderKey loaded senderHash senderChannel data with
        ⟨keyed, result⟩
      rw [hprocess] at hkeyed hretries
      have hkept : Kept keyed state.byChannel := (h pchat hpchat).same hkeyed
      cases result with
      | error e =>
          have hstate := handleSignalSenderKeyByHash_of_error codecs hpchat hprocess
          refine ⟨?_, ?_⟩
          · rw [hstate]
            intro after hafter
            cases hafter
            exact hkept
          · intro pchat' hpchat' after hafter
            cases hpchat.symm.trans hpchat'
            change after ∈ (Messages.handleSignalSenderKeyByHash codecs loaded senderHash
              senderChannel data state).pchat at hafter
            rw [hstate] at hafter
            cases hafter
            rw [hkeyed.pending]
            exact ⟨List.Sublist.refl _, rfl⟩
      | ok =>
          have hstate := handleSignalSenderKeyByHash_of_ok codecs hpchat hprocess
          have hretry := hkept.retry hretries
          refine ⟨?_, ?_⟩
          · rw [hstate]
            exact fun after hafter => (hretry after hafter).1
          · intro pchat' hpchat' after hafter
            cases hpchat.symm.trans hpchat'
            change after ∈ (Messages.handleSignalSenderKeyByHash codecs loaded senderHash
              senderChannel data state).pchat at hafter
            rw [hstate] at hafter
            rw [← hkeyed.pending]
            exact (hretry after hafter).2

theorem KeptState.step {state : SharedState lib} (h : KeptState state)
    {event : InboundEvent lib} (hkeeps : KeepsStash codecs state event) :
    KeptState (state.step codecs event) ∧ RetryKeepsOthers codecs state event := by
  cases event with
  | msgDeliver msg => exact ⟨h.handleMsgDeliver hkeeps, trivial⟩
  | senderKey loaded senderHash senderChannel data => exact h.handleSignalSenderKeyByHash hkeeps
  | offlineMessages channelId messages => exact ⟨h.handleOfflineMessages hkeeps, trivial⟩

/-- In every run of deliveries, drained queues and sender keys that loses nothing, every
envelope that was ever stashed still is, is shown, or was dropped as the earliest of a full
stash, and no retry touches other envelopes. -/
theorem conservesStash_run {state : SharedState lib}
    (hstart : ∀ pchat ∈ state.pchat, pchat.NothingStashed) (events : List (InboundEvent lib))
    (h : Along (step codecs) (KeepsStash codecs) state events) :
    (run (step codecs) state events).ConservesStash ∧
      Along (step codecs) (RetryKeepsOthers codecs) state events := by
  have hkept : KeptState state := fun pchat hpchat => kept_of_nothingStashed (hstart pchat hpchat) _
  have hstep : ∀ s event, KeptState s → KeepsStash codecs s event →
      KeptState (s.step codecs event) := fun s event hs hkeeps => (hs.step hkeeps).1
  constructor
  · have hrun := invariant_run hstep hkept h
    exact fun pchat hpchat => (hrun pchat hpchat).conserved
  · exact along_of_invariant hstep (fun s event hs hkeeps => (hs.step hkeeps).2) hkept h

section Example

def bridgedExample : SharedState symbolic where
  pchat := some { signalBridge := some { ourAddress := "own" }, localCache := some {} }

private def eventsExample (plaintext : SymbolicBytes) : List (InboundEvent symbolic) :=
  [.msgDeliver
      { messageId := some "id"
        channelId := some 1
        timestamp := some 7
        senderHash := some "peer"
        protocol := some 4
        envelope := some (.message 1 ("peer", 0) 0 plaintext) },
    .senderKey none "peer" 1 (.distribution ⟨1, ("peer", 0), 0⟩)]

private theorem nothingStashed_example : ∀ pchat ∈ bridgedExample.pchat, pchat.NothingStashed := by
  intro pchat hpchat
  cases hpchat
  exact ⟨rfl, rfl, rfl, rfl⟩

theorem conservesStash_run_example :
    (run (step symbolicCodecs) bridgedExample (eventsExample (.text "hello"))).ConservesStash ∧
      Along (step symbolicCodecs) (RetryKeepsOthers symbolicCodecs) bridgedExample
        (eventsExample (.text "hello")) := by
  refine conservesStash_run nothingStashed_example (eventsExample (.text "hello")) ⟨?_, ?_, trivial⟩
  · intro pchat hpchat
    cases hpchat
    exact fun result hresult => absurd hresult List.not_mem_nil
  · intro pchat hpchat
    cases hpchat
    refine ⟨fun _ => ⟨"hello", "Peer", 0⟩, ⟨⟨"hello", "Peer", 0⟩, rfl, rfl, rfl, ?_, ?_, ?_⟩,
      trivial⟩
    · exact ⟨_, List.mem_cons_self, rfl⟩
    · exact fun m hm => absurd hm List.not_mem_nil
    · exact fun result hresult => absurd hresult List.not_mem_nil

/-- A message that is decrypted but is not an envelope is lost. -/
theorem undecodable_message_lost :
    ¬∀ (lib : Libraries) (codecs : Codecs lib) (state : SharedState lib),
      (∀ pchat ∈ state.pchat, pchat.NothingStashed) → ∀ events : List (InboundEvent lib),
        (run (step codecs) state events).ConservesStash ∧
          Along (step codecs) (RetryKeepsOthers codecs) state events := by
  intro h
  have hrun := (h symbolic symbolicCodecs bridgedExample nothingStashed_example
    (eventsExample (.distribution ⟨1, ("peer", 0), 0⟩))).1 _ rfl
  rcases hrun _ List.mem_cons_self with hpending | ⟨stash, hstash, -⟩ | ⟨envelope, hshown⟩
  · exact absurd hpending List.not_mem_nil
  · exact absurd hstash List.not_mem_nil
  · exact absurd hshown.opened List.not_mem_nil

end Example

end SharedState

end FancyMumble.Messages
